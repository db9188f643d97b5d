import Playscript.Proofs.Dispatch
import Playscript.Proofs.LineWalks

/-!
# Safety of recognition

Wherever the cursor stands, also past the end, no recognizer looks past the end of the source or
makes a span of bounds in the wrong order. What it refuses or matches lies between the cursor and
the end of the source, and a match moves on.
-/

namespace Playscript

structure Finding.Within {α : Type} (cursor : Cursor) (least : Nat) (finding : Finding α) :
    Prop where
  refused : ∀ complaint, finding = .refused complaint →
    complaint.source = cursor.source ∧
      (cursor.offset ≤ cursor.source.length →
        cursor.offset ≤ complaint.offset ∧ complaint.offset ≤ cursor.source.length)
  matched : ∀ content stop, finding = .matched content stop →
    stop.source = cursor.source ∧
      (cursor.offset ≤ cursor.source.length →
        cursor.offset + least ≤ stop.offset ∧ stop.offset ≤ cursor.source.length)

structure Finding.Covers {α : Type} (cursor : Cursor) (finding : Finding (Located α)) : Prop where
  raw : ∀ found stop, finding = .matched found stop → found.raw = cursor.sliceTo stop.offset
  span : ∀ found stop, finding = .matched found stop →
    ∃ span, found.span = some span ∧ span.start = cursor.offset ∧ span.stop = stop.offset

/-- At the cursor the walk meets with no mishap and finds what the recognizer finds. -/
structure Walk.Safe {α : Type} (walk : Cursor → Walk (Finding (Located α)))
    (recognizer : Recognizer α) (cursor : Cursor) : Prop where
  finds : walk cursor = .ok (.ofOutcome cursor.source (cursor.run recognizer))
  within : (Finding.ofOutcome cursor.source (cursor.run recognizer)).Within cursor 1
  covers : (Finding.ofOutcome cursor.source (cursor.run recognizer)).Covers cursor

def Walk.line : Opening → Cursor → Walk (Finding (Located Line))
  | .comment => comment
  | .blockComment => blockComment
  | .bracketTag => bracketTag
  | .label => label
  | .cue => cue
  | .lineTag => lineTag
  | .prose => prose

theorem Walk.line_eq (opening : Opening) (cursor : Cursor) :
    line opening cursor = .ok (cursor.report (opening.rule.recognize cursor.remaining)) := by
  cases opening with
  | comment => exact comment_eq cursor
  | blockComment => exact blockComment_eq cursor
  | bracketTag => exact bracketTag_eq cursor
  | label => exact label_eq cursor
  | cue => exact cue_eq cursor
  | lineTag => exact lineTag_eq cursor
  | prose => exact prose_eq cursor

structure Outcome.Fits {α : Type} (least : Nat) (text : Text) (outcome : Outcome α) : Prop where
  refused : ∀ refusal, outcome = .refused refusal → refusal.offset ≤ text.length
  matched : ∀ content size, outcome = .matched content size → least ≤ size ∧ size ≤ text.length

namespace Outcome.Fits

variable {α : Type} {least size : Nat} {text : Text}

theorem absent : (Outcome.absent : Outcome α).Fits least text := by
  constructor
  · intro refusal h
    cases h
  · intro content size h
    cases h

theorem of_refused {refusal : Refusal} (hoffset : refusal.offset ≤ text.length) :
    (Outcome.refused refusal : Outcome α).Fits least text := by
  constructor
  · intro other h
    obtain rfl := Outcome.refused.inj h
    exact hoffset
  · intro content size h
    cases h

theorem of_matched (content : α) (hleast : least ≤ size) (hsize : size ≤ text.length) :
    (Outcome.matched content size).Fits least text := by
  constructor
  · intro refusal h
    cases h
  · intro found other h
    obtain ⟨-, rfl⟩ := Outcome.matched.inj h
    exact ⟨hleast, hsize⟩

end Outcome.Fits

theorem Opening.fits (opening : Opening) (text : Text) :
    (opening.rule.recognize text).Fits 1 text := by
  constructor
  · intro refusal h
    exact (opening.code_mem h).2
  · intro line size h
    have hcut := opening.isCut h
    exact ⟨hcut.pos, hcut.le_length⟩

namespace Recognizer

theorem identifier_fits (text : Text) : (identifier text).Fits 1 text := by
  cases text with
  | nil => exact .of_refused (Nat.zero_le _)
  | cons c rest =>
    have hlength := (List.takeWhile_sublist (p := isIdentifierChar) (l := rest)).length_le
    rw [identifier]
    by_cases hc : isNameChar c
    · rw [if_pos hc]
      apply Outcome.Fits.of_matched
      · exact Nat.succ_pos _
      · exact Nat.succ_le_succ hlength
    · rw [if_neg hc]
      exact .of_refused (Nat.zero_le _)

theorem name_fits (text : Text) : (name text).Fits 1 text := by
  rw [name]
  by_cases hempty : (text.takeWhile isNameChar).isEmpty
  · rw [if_pos hempty]
    exact .absent
  · rw [if_neg hempty]
    rw [List.isEmpty_iff] at hempty
    apply Outcome.Fits.of_matched
    · exact List.length_pos_iff.mpr hempty
    · exact (List.takeWhile_sublist isNameChar).length_le

theorem quotation_fits (text : Text) : (quotation text).Fits 1 text := by
  cases text with
  | nil => exact .absent
  | cons mark rest =>
    rw [quotation]
    by_cases hm : mark ∈ Mark.quotes
    · rw [if_pos hm]
      cases hcut : Text.cutAt? mark rest with
      | none => exact .absent
      | some parts =>
        obtain ⟨value, after⟩ := parts
        obtain ⟨rfl, -⟩ := Text.cutAt?_eq_some_iff.mp hcut
        apply Outcome.Fits.of_matched
        · omega
        · simp only [List.length_cons, List.length_append]
          omega
    · rw [if_neg hm]
      exact .absent

theorem parameter_fits (text : Text) : (parameter text).Fits 1 text := by
  constructor
  · intro refusal h
    exact (parameter_refused h).2
  · intro entry size h
    obtain ⟨hpos, -⟩ := stop_pos_of_parameter h
    obtain ⟨token, rest, -, rfl, -, rfl⟩ := parameter_sound h
    refine ⟨hpos, ?_⟩
    rw [List.length_append]
    omega

theorem parameters_fits (text : Text) : (parameters text).Fits 0 text := by
  rw [parameters]
  cases hread : Parameters.read text with
  | error refusal => exact .of_refused (Parameters.read_refused hread).2
  | ok found => exact .of_matched found (Nat.zero_le _) (Nat.le_refl _)

theorem parameters_size {text : Text} {found : Parameters} {size : Nat}
    (h : parameters text = .matched found size) : size = text.length := by
  rw [parameters] at h
  cases hread : Parameters.read text with
  | error refusal =>
    rw [hread] at h
    cases h
  | ok other =>
    rw [hread] at h
    exact (Outcome.matched.inj h).2.symm

end Recognizer

namespace Cursor

variable {α β : Type} {cursor : Cursor} {outcome : Outcome α} {least : Nat}

theorem report_within (h : outcome.Fits least cursor.remaining) :
    (cursor.report outcome).Within cursor least := by
  have hlength : cursor.remaining.length = cursor.source.length - cursor.offset := by
    rw [remaining, List.length_drop]
  cases outcome with
  | absent =>
    constructor
    · intro complaint hf
      cases hf
    · intro content stop hf
      cases hf
  | refused refusal =>
    have hle := h.refused refusal rfl
    constructor
    · intro complaint hf
      obtain rfl := Finding.refused.inj hf
      refine ⟨rfl, ?_⟩
      intro hoffset
      change cursor.offset ≤ cursor.offset + refusal.offset ∧
        cursor.offset + refusal.offset ≤ cursor.source.length
      omega
    · intro content stop hf
      cases hf
  | matched content size =>
    obtain ⟨hleast, hle⟩ := h.matched content size rfl
    constructor
    · intro complaint hf
      cases hf
    · intro found stop hf
      obtain ⟨-, rfl⟩ := Finding.matched.inj hf
      refine ⟨rfl, ?_⟩
      intro hoffset
      change cursor.offset + least ≤ cursor.offset + size ∧
        cursor.offset + size ≤ cursor.source.length
      omega

theorem report_covers (cursor : Cursor) (outcome : Outcome α) :
    (cursor.report outcome).Covers cursor := by
  constructor
  · intro found stop hf
    cases outcome with
    | absent => cases hf
    | refused refusal => cases hf
    | matched content size =>
      obtain ⟨rfl, rfl⟩ := Finding.matched.inj hf
      exact (cursor.sliceTo_forward size).symm
  · intro found stop hf
    cases outcome with
    | absent => cases hf
    | refused refusal => cases hf
    | matched content size =>
      obtain ⟨rfl, rfl⟩ := Finding.matched.inj hf
      exact ⟨_, rfl, rfl, rfl⟩

theorem safe_of_fits {walk : Cursor → Walk (Finding (Located α))} {recognizer : Recognizer α}
    (hwalk : walk cursor = .ok (cursor.report (recognizer cursor.remaining)))
    (h : (recognizer cursor.remaining).Fits 1 cursor.remaining) :
    Walk.Safe walk recognizer cursor := by
  have hwithin := report_within h
  have hcovers := report_covers cursor (recognizer cursor.remaining)
  rw [report_eq] at hwalk hwithin hcovers
  exact ⟨hwalk, hwithin, hcovers⟩

theorem stop_of_parameters {found : Parameters} {stop : Cursor}
    (h : (cursor.report (Recognizer.parameters cursor.remaining)).map Located.content =
      .matched found stop) (hoffset : cursor.offset ≤ cursor.source.length) :
    stop.offset = cursor.source.length := by
  cases hr : Recognizer.parameters cursor.remaining with
  | absent =>
    rw [hr] at h
    cases h
  | refused refusal =>
    rw [hr] at h
    cases h
  | matched parameters size =>
    rw [hr] at h
    obtain ⟨-, rfl⟩ := Finding.matched.inj h
    have hsize := Recognizer.parameters_size hr
    rw [remaining, List.length_drop] at hsize
    change cursor.offset + size = cursor.source.length
    omega

end Cursor

theorem Finding.Within.map {α β : Type} {cursor : Cursor} {least : Nat} {finding : Finding α}
    (h : finding.Within cursor least) (f : α → β) : (finding.map f).Within cursor least := by
  constructor
  · intro complaint hf
    cases finding with
    | absent => cases hf
    | refused other => exact h.refused complaint (by cases hf; rfl)
    | matched content stop => cases hf
  · intro content stop hf
    cases finding with
    | absent => cases hf
    | refused complaint => cases hf
    | matched found after =>
      obtain ⟨-, rfl⟩ := Finding.matched.inj hf
      exact h.matched found after rfl

/-- Every recognizer is safe at every cursor. -/
theorem Cursor.recognition_safe (cursor : Cursor) :
    (∀ opening : Opening, Walk.Safe (Walk.line opening) opening.rule.recognize cursor) ∧
      Walk.Safe Walk.identifier Recognizer.identifier cursor ∧
      Walk.Safe Walk.quotation Recognizer.quotation cursor ∧
      Walk.Safe Walk.parameter Recognizer.parameter cursor ∧
      (∃ finding, Walk.name cursor = .ok finding ∧
        finding = (Finding.ofOutcome cursor.source (cursor.run Recognizer.name)).map
          Located.content ∧
        finding.Within cursor 1) ∧
      ∃ finding, Walk.parameters cursor = .ok finding ∧
        finding = (Finding.ofOutcome cursor.source (cursor.run Recognizer.parameters)).map
          Located.content ∧
        finding.Within cursor 0 ∧
        ∀ found stop, finding = .matched found stop → cursor.offset ≤ cursor.source.length →
          stop.offset = cursor.source.length := by
  refine ⟨?_, ?_, ?_, ?_, ?_, ?_⟩
  · intro opening
    exact safe_of_fits (Walk.line_eq opening cursor) (opening.fits cursor.remaining)
  · exact safe_of_fits (Walk.identifier_eq cursor) (Recognizer.identifier_fits cursor.remaining)
  · exact safe_of_fits (Walk.quotation_eq cursor) (Recognizer.quotation_fits cursor.remaining)
  · exact safe_of_fits (Walk.parameter_eq cursor) (Recognizer.parameter_fits cursor.remaining)
  · refine ⟨_, Walk.name_report cursor, ?_, ?_⟩
    · rw [report_eq]
    · exact (report_within (Recognizer.name_fits cursor.remaining)).map Located.content
  · refine ⟨_, Walk.parameters_eq cursor, ?_, ?_, ?_⟩
    · rw [report_eq]
    · exact (report_within (Recognizer.parameters_fits cursor.remaining)).map Located.content
    · intro found stop hf hoffset
      exact stop_of_parameters hf hoffset

end Playscript
