import Playscript.Proofs.Safety
import Playscript.Proofs.Segment

/-!
# Displaced sources

When a lead is put in front of a source, each of its places is as much further on as the lead is
long. From there every recognizer finds what it found before, also when it is tried at one offset
after the other, so nothing depends on the text behind the cursor.
-/

namespace Playscript

variable {α : Type} {lead : Text} {cursor : Cursor}

def Cursor.displace (lead : Text) (cursor : Cursor) : Cursor :=
  ⟨lead ++ cursor.source, lead.length + cursor.offset⟩

def Complaint.displace (lead : Text) (complaint : Complaint) : Complaint :=
  { complaint with
    source := lead ++ complaint.source
    offset := lead.length + complaint.offset }

/-- The same finding behind a lead, where `move` says what becomes of what was found. -/
def Finding.displace (lead : Text) (move : α → α) : Finding α → Finding α
  | absent => absent
  | refused complaint => refused (complaint.displace lead)
  | matched content stop => matched (move content) (stop.displace lead)

structure Walk.Displaces (lead : Text) (move : α → α) (walk : Cursor → Walk (Finding α))
    (cursor : Cursor) : Prop where
  finds : walk (cursor.displace lead) = (walk cursor).map (Finding.displace lead move)
  scans : ∀ stop, findFirst walk (cursor.displace lead) (lead.length + stop) =
    (findFirst walk cursor stop).map (Finding.displace lead move)

structure Recognizer.Displaces (lead : Text) (recognizer : Recognizer α) (cursor : Cursor) :
    Prop where
  finds : (cursor.displace lead).run recognizer =
    ((cursor.run recognizer).map (Located.shift lead.length)).shift lead.length
  scans : ∀ stop, (cursor.displace lead).findFirst recognizer (lead.length + stop) =
    (cursor.findFirst recognizer stop).map fun found =>
      (found.1.shift lead.length, lead.length + found.2)

namespace Cursor

theorem remaining_displace (lead : Text) (cursor : Cursor) :
    (cursor.displace lead).remaining = cursor.remaining := by
  simp only [remaining, displace, List.drop_length_add_append]

theorem forward_displace (lead : Text) (cursor : Cursor) (size : Nat) :
    (cursor.displace lead).forward size = (cursor.forward size).displace lead := by
  simp only [forward, displace, Nat.add_assoc]

theorem moveTo_displace (lead : Text) (cursor : Cursor) (offset : Nat) :
    (cursor.displace lead).moveTo (lead.length + offset) =
      (cursor.moveTo offset).displace lead := by
  simp only [moveTo, displace, List.length_append, Nat.add_min_add_left]

theorem range_displace (lead : Text) (cursor : Cursor) (stop : Nat) :
    List.range' (cursor.displace lead).offset (lead.length + stop - (cursor.displace lead).offset) =
      (List.range' cursor.offset (stop - cursor.offset)).map (lead.length + ·) := by
  rw [List.map_add_range', displace, Nat.add_sub_add_left]

theorem report_displace (lead : Text) (cursor : Cursor) (outcome : Outcome α) :
    (cursor.displace lead).report outcome =
      (cursor.report outcome).displace lead (Located.shift lead.length) := by
  cases outcome with
  | absent => rfl
  | refused refusal =>
    simp only [report, forward_displace]
    rfl
  | matched content size =>
    simp only [report, forward_displace, remaining_displace]
    simp [Finding.displace, Located.shift, Span.shift_ofSize, displace]

theorem run_displace (lead : Text) (recognizer : Recognizer α) (cursor : Cursor) :
    (cursor.displace lead).run recognizer =
      ((cursor.run recognizer).map (Located.shift lead.length)).shift lead.length := by
  unfold run
  rw [remaining_displace]
  cases recognizer cursor.remaining with
  | absent => rfl
  | refused refusal => simp [Outcome.map, Outcome.shift, Refusal.shift, displace, Nat.add_assoc]
  | matched content size =>
    simp [Outcome.map, Outcome.shift, Located.shift, Span.shift_ofSize, displace, Nat.add_assoc]

end Cursor

namespace Recognizer

theorem displaces (lead : Text) (recognizer : Recognizer α) (cursor : Cursor) :
    recognizer.Displaces lead cursor := by
  constructor
  · exact Cursor.run_displace lead recognizer cursor
  · intro stop
    rw [Cursor.findFirst, Cursor.findFirst, Cursor.range_displace, List.findSome?_map]
    induction List.range' cursor.offset (stop - cursor.offset) with
    | nil => rfl
    | cons offset offsets ih =>
      rw [List.findSome?_cons, List.findSome?_cons, Function.comp_apply, Cursor.moveTo_displace,
        Cursor.run_displace]
      cases (cursor.moveTo offset).run recognizer with
      | absent => exact ih
      | refused refusal => exact ih
      | matched found stop => rfl

end Recognizer

namespace Walk

variable {move : α → α} {walk : Cursor → Walk (Finding α)}

theorem tryEach_displace
    (hwalk : ∀ cursor, walk (cursor.displace lead) = (walk cursor).map (Finding.displace lead move))
    (cursor : Cursor) (offsets : List Nat) :
    tryEach walk (cursor.displace lead) (offsets.map (lead.length + ·)) =
      (tryEach walk cursor offsets).map (Finding.displace lead move) := by
  induction offsets with
  | nil => rfl
  | cons offset offsets ih =>
    rw [List.map_cons, tryEach, tryEach, Cursor.moveTo_displace, hwalk]
    cases walk (cursor.moveTo offset) with
    | error mishap => rfl
    | ok finding =>
      cases finding with
      | absent => exact ih
      | refused complaint => exact ih
      | matched found stop => rfl

theorem displaces_of_finds
    (hwalk : ∀ cursor, walk (cursor.displace lead) = (walk cursor).map (Finding.displace lead move))
    (cursor : Cursor) : Displaces lead move walk cursor := by
  constructor
  · exact hwalk cursor
  · intro stop
    rw [findFirst, findFirst, Cursor.range_displace]
    exact tryEach_displace hwalk cursor _

/-- A walk that finds what a recognizer says of the remaining text looks at nothing else. -/
theorem displaces_of_report {walk : Cursor → Walk (Finding (Located α))}
    {recognizer : Recognizer α}
    (hwalk : ∀ cursor, walk cursor = .ok (cursor.report (recognizer cursor.remaining)))
    (lead : Text) (cursor : Cursor) :
    Displaces lead (Located.shift lead.length) walk cursor := by
  apply displaces_of_finds
  intro cursor
  rw [hwalk, hwalk, Cursor.remaining_displace, Cursor.report_displace]
  rfl

theorem displaces_of_content {recognizer : Recognizer α}
    (hwalk : ∀ cursor, walk cursor =
      .ok ((cursor.report (recognizer cursor.remaining)).map Located.content))
    (lead : Text) (cursor : Cursor) : Displaces lead id walk cursor := by
  apply displaces_of_finds
  intro cursor
  rw [hwalk, hwalk, Cursor.remaining_displace, Cursor.report_displace]
  cases cursor.report (recognizer cursor.remaining) with
  | absent => rfl
  | refused complaint => rfl
  | matched found stop => rfl

end Walk

/-- Nothing that is found depends on the text behind the cursor. -/
theorem Cursor.recognition_displaces (lead : Text) (cursor : Cursor) :
    (∀ opening : Opening,
      Walk.Displaces lead (Located.shift lead.length) (Walk.line opening) cursor) ∧
    Walk.Displaces lead (Located.shift lead.length) Walk.identifier cursor ∧
    Walk.Displaces lead (Located.shift lead.length) Walk.quotation cursor ∧
    Walk.Displaces lead (Located.shift lead.length) Walk.parameter cursor ∧
    Walk.Displaces lead id Walk.name cursor ∧
    Walk.Displaces lead id Walk.parameters cursor ∧
    ∀ (α : Type) (recognizer : Recognizer α), recognizer.Displaces lead cursor := by
  refine ⟨?_, ?_, ?_, ?_, ?_, ?_, ?_⟩
  · intro opening
    exact Walk.displaces_of_report (Walk.line_eq opening) lead cursor
  · exact Walk.displaces_of_report Walk.identifier_eq lead cursor
  · exact Walk.displaces_of_report Walk.quotation_eq lead cursor
  · exact Walk.displaces_of_report Walk.parameter_eq lead cursor
  · exact Walk.displaces_of_content Walk.name_report lead cursor
  · exact Walk.displaces_of_content Walk.parameters_eq lead cursor
  · intro α recognizer
    exact recognizer.displaces lead cursor

end Playscript
