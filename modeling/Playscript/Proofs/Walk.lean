import Playscript.Cursor
import Playscript.Proofs.FirstLine

/-!
# Walks

A walk reads a source with a cursor, one character at a time. It fails if it looks past the end or
makes a span of bounds in the wrong order. The steps of a walk are given here, each with what it
comes to when nothing fails; in these accounts a cursor is judged by the text that remains.
-/

namespace Playscript

inductive Mishap where
  | pastEnd (diagnostic : Diagnostic)
  | badSpan (error : SpanError)
  deriving DecidableEq, Repr

abbrev Walk (α : Type) := Except Mishap α

/-- What a walk finds. A match comes with the cursor behind it. -/
inductive Finding (α : Type) where
  | absent
  | refused (complaint : Complaint)
  | matched (content : α) (stop : Cursor)
  deriving DecidableEq, Repr

namespace Finding

variable {α β : Type}

def map (f : α → β) : Finding α → Finding β
  | absent => absent
  | refused complaint => refused complaint
  | matched content stop => matched (f content) stop

def ofOutcome (source : Text) : Outcome α → Finding α
  | .absent => absent
  | .refused refusal => refused (refusal.fault.complaint source refusal.offset)
  | .matched content stop => matched content ⟨source, stop⟩

def refuse (fault : Fault) (cursor : Cursor) : Finding α :=
  refused (fault.complaint cursor.source cursor.offset)

/-- A complaint about a copy of some text, moved to where that text begins in the source. -/
def relocate (origin : Cursor) : Finding α → Finding β
  | refused complaint =>
    refused { complaint with
      source := origin.source
      offset := (origin.moveTo (origin.offset + complaint.offset)).offset }
  | absent | matched _ _ => absent

end Finding

namespace Cursor

variable {α : Type} {cursor : Cursor} {c : Char} {text : Text} {size : Nat}

def forward (cursor : Cursor) (size : Nat) : Cursor := ⟨cursor.source, cursor.offset + size⟩

@[simp] theorem forward_zero (cursor : Cursor) : cursor.forward 0 = cursor := rfl

@[simp] theorem forward_forward (cursor : Cursor) (first second : Nat) :
    (cursor.forward first).forward second = cursor.forward (first + second) := by
  simp [forward, Nat.add_assoc]

@[simp] theorem remaining_forward (cursor : Cursor) (size : Nat) :
    (cursor.forward size).remaining = cursor.remaining.drop size := by
  simp [forward, remaining]

theorem remaining_takeWhile (cursor : Cursor) (p : Char → Bool) :
    (cursor.forward (cursor.remaining.takeWhile p).length).remaining =
      cursor.remaining.dropWhile p := by
  rw [remaining_forward, Text.drop_length_takeWhile]

theorem remaining_takeWhile_add (cursor : Cursor) (p : Char → Bool) (size : Nat) :
    (cursor.forward ((cursor.remaining.takeWhile p).length + size)).remaining =
      (cursor.remaining.dropWhile p).drop size := by
  rw [← forward_forward, remaining_forward, remaining_takeWhile]

theorem sliceTo_forward (cursor : Cursor) (size : Nat) :
    cursor.sliceTo (cursor.forward size).offset = cursor.remaining.take size := by
  simp only [sliceTo, forward, remaining, List.drop_take, Nat.add_sub_cancel_left]

theorem atEnd_iff : cursor.atEnd ↔ cursor.remaining = [] := by
  simp [atEnd, remaining]

theorem atEnd_eq_isEmpty (cursor : Cursor) : cursor.atEnd = cursor.remaining.isEmpty := by
  rw [Bool.eq_iff_iff, atEnd_iff, List.isEmpty_iff]

theorem add_le_length (hne : cursor.remaining ≠ []) (h : size ≤ cursor.remaining.length) :
    cursor.offset + size ≤ cursor.source.length := by
  have hpos := List.length_pos_iff.mpr hne
  rw [remaining, List.length_drop] at h hpos
  omega

theorem moveTo_forward (hne : cursor.remaining ≠ []) (h : size ≤ cursor.remaining.length) :
    cursor.moveTo (cursor.offset + size) = cursor.forward size := by
  rw [moveTo, Nat.min_eq_left (add_le_length hne h)]
  rfl

theorem advance_forward (hne : cursor.remaining ≠ []) (h : size ≤ cursor.remaining.length) :
    cursor.advance size = cursor.forward size := by
  rw [← moveTo_forward hne h]
  rfl

theorem advance_one (h : cursor.remaining = c :: text) : cursor.advance 1 = cursor.forward 1 :=
  advance_forward (by simp [h]) (by simp [h])

theorem startsWith_iff {piece : Text} (hne : piece ≠ []) :
    cursor.startsWith piece ↔ ∃ rest, cursor.remaining = piece ++ rest := by
  rw [startsWith, Bool.and_eq_true, decide_eq_true_eq, List.isPrefixOf_iff_prefix,
    List.prefix_iff_exists_append_eq]
  constructor
  · rintro ⟨-, rest, h⟩
    exact ⟨rest, h.symm⟩
  · rintro ⟨rest, h⟩
    refine ⟨?_, rest, h.symm⟩
    have hlength := congrArg List.length h
    have hpos := List.length_pos_iff.mpr hne
    rw [remaining, List.length_drop, List.length_append] at hlength
    omega

theorem find?_remaining {piece : Text} (h : cursor.offset ≤ cursor.source.length) :
    cursor.find? piece cursor.source.length =
      (Text.find? piece cursor.remaining).map (cursor.offset + ·) := by
  rw [find?, if_pos (by omega), Text.findFrom_eq_map]
  simp only [sliceTo, List.take_length, Nat.add_comm, remaining]

def report (cursor : Cursor) : Outcome α → Finding (Located α)
  | .absent => .absent
  | .refused refusal => .refuse refusal.fault (cursor.forward refusal.offset)
  | .matched content size =>
    .matched ⟨content, cursor.remaining.take size, some (.ofSize cursor.offset size)⟩
      (cursor.forward size)

theorem report_eq (recognizer : Recognizer α) (cursor : Cursor) :
    cursor.report (recognizer cursor.remaining) =
      .ofOutcome cursor.source (cursor.run recognizer) := by
  unfold run
  cases recognizer cursor.remaining with
  | absent => rfl
  | refused refusal => rfl
  | matched content size => rfl

def Reaches (cursor : Cursor) (outcome : Outcome α) : Prop :=
  ∀ refusal, outcome = .refused refusal → cursor.offset + refusal.offset ≤ cursor.source.length

theorem reaches_of_le {outcome : Outcome α} (hne : cursor.remaining ≠ [])
    (h : ∀ refusal, outcome = .refused refusal → refusal.offset ≤ cursor.remaining.length) :
    cursor.Reaches outcome := by
  intro refusal houtcome
  exact add_le_length hne (h refusal houtcome)

theorem Reaches.moveTo {fault : Fault} (h : cursor.Reaches (.refused ⟨fault, size⟩ : Outcome α)) :
    cursor.moveTo (cursor.offset + size) = cursor.forward size := by
  have hle : cursor.offset + size ≤ cursor.source.length := h _ rfl
  rw [Cursor.moveTo, Nat.min_eq_left hle]
  rfl

/-- Where a complaint about a copy of the text goes that begins `lead` characters ahead. -/
theorem Reaches.relocate_forward {β : Type} {fault : Fault} {place : Cursor} {lead : Nat}
    (h : cursor.Reaches (.refused ⟨fault, size⟩ : Outcome α)) (hp : lead + place.offset = size) :
    ((Finding.refuse fault place : Finding β).relocate (cursor.forward lead) :
      Finding (Located α)) = cursor.report (.refused ⟨fault, size⟩) := by
  have hplace : (cursor.forward lead).moveTo ((cursor.forward lead).offset + place.offset) =
      cursor.forward size := by
    rw [← h.moveTo, ← hp, ← Nat.add_assoc]
    rfl
  simp only [Finding.refuse, Finding.relocate, Fault.complaint, hplace]
  rfl

theorem Reaches.relocate {β : Type} {fault : Fault} {place : Cursor}
    (h : cursor.Reaches (.refused ⟨fault, size⟩ : Outcome α)) (hp : place.offset = size) :
    ((Finding.refuse fault place : Finding β).relocate cursor : Finding (Located α)) =
      cursor.report (.refused ⟨fault, size⟩) := by
  rw [← h.relocate_forward ((Nat.zero_add _).trans hp), forward_zero]

end Cursor

namespace Walk

variable {α : Type} {cursor : Cursor} {c : Char} {text : Text}

@[simp] theorem ok_bind {β : Type} (a : α) (f : α → Walk β) : (Except.ok a >>= f) = f a := rfl

@[simp] theorem pure_eq_ok (a : α) : (pure a : Walk α) = .ok a := rfl

def look (cursor : Cursor) : Walk Char := cursor.current.mapError .pastEnd

theorem look_eq (h : cursor.remaining = c :: text) : look cursor = .ok c := by
  have hget : cursor.source[cursor.offset]? = some c := by
    have hhead := congrArg List.head? h
    rwa [Cursor.remaining, List.head?_drop] at hhead
  simp [look, Cursor.current, hget, Except.mapError]

def span (cursor stop : Cursor) : Walk Span :=
  (Span.ofBounds cursor.offset stop.offset).mapError .badSpan

theorem span_forward (cursor : Cursor) (size : Nat) :
    span cursor (cursor.forward size) = .ok (.ofSize cursor.offset size) := by
  have hstart : ¬ (cursor.offset : Int) < 0 := by omega
  have hstop : ¬ (cursor.offset : Int) + size < cursor.offset := by omega
  have hnat : ((cursor.offset : Int) + size).toNat = cursor.offset + size := by omega
  simp [span, Span.ofBounds, Cursor.forward, Span.ofSize, Except.mapError, hstart, hstop, hnat]

def node (content : α) (cursor stop : Cursor) : Walk (Finding (Located α)) := do
  let span ← span cursor stop
  return .matched ⟨content, cursor.sliceTo stop.offset, some span⟩ stop

theorem node_forward (content : α) (cursor : Cursor) (size : Nat) :
    node content cursor (cursor.forward size) = .ok (cursor.report (.matched content size)) := by
  rw [node, span_forward, Cursor.sliceTo_forward]
  rfl

def skipWhile (p : Char → Bool) (cursor : Cursor) : Walk Cursor :=
  if _h : cursor.atEnd then return cursor
  else do
    let c ← look cursor
    if p c then skipWhile p (cursor.advance 1) else return cursor
termination_by cursor.remaining.length
decreasing_by
  cases hr : cursor.remaining with
  | nil => exact (_h (Cursor.atEnd_iff.mpr hr)).elim
  | cons c text => simp [Cursor.advance_one hr, hr]

theorem skipWhile_eq (p : Char → Bool) (cursor : Cursor) :
    skipWhile p cursor = .ok (cursor.forward (cursor.remaining.takeWhile p).length) := by
  induction hr : cursor.remaining generalizing cursor with
  | nil => simp [skipWhile, Cursor.atEnd_iff.mpr hr]
  | cons c text ih =>
    have hend : ¬ cursor.atEnd := by simp [Cursor.atEnd_iff, hr]
    have htail : (cursor.forward 1).remaining = text := by simp [hr]
    rw [skipWhile, dif_neg hend, look_eq hr, ok_bind, Cursor.advance_one hr, ih _ htail]
    by_cases hp : p c
    · simp [hp, Nat.add_comm]
    · simp [hp]

def tokenEnd (cursor : Cursor) : Walk Bool := do
  if cursor.atEnd then return true
  else return isSpace (← look cursor)

theorem tokenEnd_eq (cursor : Cursor) :
    tokenEnd cursor = .ok (Recognizer.atTokenEnd cursor.remaining) := by
  cases hr : cursor.remaining with
  | nil => simp [tokenEnd, Cursor.atEnd_iff.mpr hr, Recognizer.atTokenEnd]
  | cons c text =>
    have hend : ¬ cursor.atEnd := by simp [Cursor.atEnd_iff, hr]
    simp [tokenEnd, hend, look_eq hr, Recognizer.atTokenEnd]

def skipLineEnd (cursor : Cursor) : Walk Cursor := do
  if cursor.atEnd then return cursor
  else
    let c ← look cursor
    if c = '\r' then
      let next := cursor.advance 1
      if next.atEnd then return next
      else
        let d ← look next
        if d = '\n' then return next.advance 1 else return next
    else if c = '\n' then return cursor.advance 1
    else return cursor

theorem skipLineEnd_eq (cursor : Cursor) : skipLineEnd cursor = .ok cursor.skipLineEnd := by
  change _ = Except.ok (cursor.forward (LineEnd.ofText cursor.remaining).text.length)
  cases hr : cursor.remaining with
  | nil => simp [skipLineEnd, Cursor.atEnd_iff.mpr hr, LineEnd.ofText, LineEnd.text]
  | cons c text =>
    have hend : ¬ cursor.atEnd := by simp [Cursor.atEnd_iff, hr]
    have htail : (cursor.forward 1).remaining = text := by simp [hr]
    simp only [skipLineEnd, hend, look_eq hr, Cursor.advance_one hr, ok_bind]
    by_cases hcr : c = '\r'
    · subst hcr
      cases text with
      | nil => simp [Cursor.atEnd_iff, htail, LineEnd.ofText, LineEnd.text]
      | cons d rest =>
        have hnext : ¬ (cursor.forward 1).atEnd := by simp [Cursor.atEnd_iff, htail]
        rw [look_eq htail, Cursor.advance_one htail]
        by_cases hlf : d = '\n'
        · subst hlf
          simp [hnext, LineEnd.ofText, LineEnd.text]
        · have hofText : LineEnd.ofText ('\r' :: d :: rest) = .cr := by
            unfold LineEnd.ofText
            split <;> simp_all
          simp [hnext, hlf, hofText, LineEnd.text]
    · by_cases hlf : c = '\n'
      · subst hlf
        simp [LineEnd.ofText, LineEnd.text]
      · have hofText : LineEnd.ofText (c :: text) = .missing := by
          unfold LineEnd.ofText
          split <;> simp_all
        simp [hcr, hlf, hofText, LineEnd.text]

def takeLine (cursor : Cursor) : Walk (Text × Cursor) := do
  let stop ← skipWhile (!isBreak ·) cursor
  let next ← skipLineEnd stop
  return (cursor.sliceTo stop.offset, next)

theorem takeLine_eq (cursor : Cursor) :
    takeLine cursor = .ok ((PhysicalLine.ofText cursor.remaining).content,
      cursor.forward (PhysicalLine.ofText cursor.remaining).size) := by
  have hdrop := Text.drop_length_takeWhile (!isBreak ·) cursor.remaining
  have hword := List.prefix_iff_eq_take.mp
    (List.takeWhile_prefix (l := cursor.remaining) (!isBreak ·))
  simp only [takeLine, skipWhile_eq, skipLineEnd_eq, ok_bind, Cursor.sliceTo_forward, ← hword,
    Cursor.skipLineEnd, Cursor.remaining_forward, hdrop, pure_eq_ok]
  simp [PhysicalLine.ofText, PhysicalLine.size, Cursor.forward, Nat.add_assoc]

def restIsPadding (cursor : Cursor) : Walk Bool := do
  let after ← skipWhile isPadding cursor
  if after.atEnd then return true
  else return isBreak (← look after)

theorem isPadding_ofText (text : Text) : (PhysicalLine.ofText text).isPadding =
    match text.dropWhile isPadding with
    | [] => true
    | c :: _ => isBreak c := by
  induction text with
  | nil => rfl
  | cons c text ih =>
    by_cases hp : isPadding c
    · have hb : isBreak c = false := by
        simp only [isPadding, Bool.or_eq_true, beq_iff_eq] at hp
        rcases hp with rfl | rfl <;> decide
      rw [List.dropWhile_cons_of_pos hp, ← ih]
      simp [PhysicalLine.isPadding, PhysicalLine.ofText, hb, hp]
    · rw [List.dropWhile_cons_of_neg hp]
      by_cases hb : isBreak c
      · simp [PhysicalLine.isPadding, PhysicalLine.ofText, hb]
      · simp [PhysicalLine.isPadding, PhysicalLine.ofText, hb, hp]

theorem restIsPadding_eq (cursor : Cursor) :
    restIsPadding cursor = .ok (PhysicalLine.ofText cursor.remaining).isPadding := by
  rw [restIsPadding, skipWhile_eq, ok_bind, isPadding_ofText]
  have hafter := cursor.remaining_takeWhile isPadding
  cases hr : cursor.remaining.dropWhile isPadding with
  | nil =>
    rw [hr] at hafter
    simp [Cursor.atEnd_iff.mpr hafter]
  | cons c text =>
    rw [hr] at hafter
    simp [Cursor.atEnd_eq_isEmpty, hafter, look_eq hafter]

end Walk

end Playscript
