import Playscript.Proofs.LineGrammar
import Playscript.Proofs.Positions

/-!
# Block comments in a source

A block comment is closed where the closing delimiter first stands behind the opening one. Whether
it is closed at all, whether it covers a line break and what follows it on its last line decide what
becomes of it, and where it is refused.
-/

namespace Playscript

theorem PhysicalLine.isPadding_eq_false_iff {text : Text} : (ofText text).isPadding = false ↔
    ∃ padding c rest, text = padding ++ c :: rest ∧ (∀ d ∈ padding, Playscript.isPadding d) ∧
      Playscript.isPadding c = false ∧ isBreak c = false := by
  rw [Walk.isPadding_ofText]
  constructor
  · intro h
    obtain ⟨hsplit, hpadding, hstop⟩ := Text.run_split Playscript.isPadding text
    cases hd : text.dropWhile Playscript.isPadding with
    | nil =>
      rw [hd] at h
      cases h
    | cons c rest =>
      rw [hd] at h hsplit hstop
      exact ⟨_, c, rest, hsplit, hpadding, hstop c rfl, h⟩
  · rintro ⟨padding, c, rest, rfl, hpadding, hc, hb⟩
    rw [Text.dropWhile_run hpadding (Text.stopsRun_cons hc)]
    exact hb

namespace Cursor

variable {cursor : Cursor} {close : Nat} {outcome : Outcome (Located Line)}

def ClosesComment (cursor : Cursor) (close : Nat) : Prop :=
  cursor.source.FirstAt Mark.commentClose (cursor.offset + 2) close

def commentBody (cursor : Cursor) (close : Nat) : Text := (cursor.forward 2).sliceTo close

inductive CommentOutcome (cursor : Cursor) : Outcome (Located Line) → Prop where
  | unclosed
      (hc : ∀ place, cursor.offset + 2 ≤ place →
        ¬ Mark.commentClose <+: cursor.source.drop place) :
      CommentOutcome cursor (.refused ⟨.openComment, cursor.offset⟩)
  | confined {close : Nat} (hc : cursor.ClosesComment close)
      (hb : (cursor.commentBody close).hasBreak = false) :
      CommentOutcome cursor (.refused ⟨.shortComment, cursor.offset⟩)
  | followed {close : Nat} {padding rest : Text} {c : Char} (hc : cursor.ClosesComment close)
      (hb : (cursor.commentBody close).hasBreak)
      (ha : cursor.source.drop (close + 2) = padding ++ c :: rest)
      (hp : ∀ d ∈ padding, isPadding d) (hn : isPadding c = false) (hf : isBreak c = false) :
      CommentOutcome cursor (.refused ⟨.textAfterComment, close + 2 + padding.length⟩)
  | closed {close : Nat} {line : PhysicalLine} {rest : Text} (hc : cursor.ClosesComment close)
      (hb : (cursor.commentBody close).hasBreak)
      (ho : line.Opens (cursor.source.drop (close + 2)) rest)
      (hp : ∀ c ∈ line.content, isPadding c) :
      CommentOutcome cursor (.matched
        (cursor.located (.blockComment (cursor.commentBody close)) (close + 2 + line.size))
        (close + 2 + line.size))

theorem exists_commentOutcome (cursor : Cursor) : ∃ outcome, cursor.CommentOutcome outcome := by
  by_cases hc : ∃ close, cursor.ClosesComment close
  · obtain ⟨close, hc⟩ := hc
    cases hb : (cursor.commentBody close).hasBreak with
    | false => exact ⟨_, .confined hc hb⟩
    | true =>
      cases hp : (PhysicalLine.ofText (cursor.source.drop (close + 2))).isPadding with
      | true =>
        exact ⟨_, .closed hc hb (PhysicalLine.opens_ofText _) (List.all_eq_true.mp hp)⟩
      | false =>
        obtain ⟨padding, c, rest, ha, hpadding, hn, hf⟩ := PhysicalLine.isPadding_eq_false_iff.mp hp
        exact ⟨_, .followed hc hb ha hpadding hn hf⟩
  · refine ⟨_, .unclosed ?_⟩
    intro place hle hs
    exact hc (Text.exists_firstAt_iff.mpr ⟨place, hle, hs⟩)

theorem remaining_of_sliceAhead {piece : Text} (h : cursor.sliceAhead piece.length = piece) :
    cursor.remaining = piece ++ (cursor.forward piece.length).remaining := by
  rw [remaining_forward]
  nth_rewrite 1 [← List.take_append_drop piece.length cursor.remaining]
  exact congrArg (· ++ _) h

theorem strip?_of_sliceAhead (h : cursor.sliceAhead 2 = Sigil.blockComment.text) :
    Sigil.blockComment.strip? cursor.remaining = some (cursor.forward 2).remaining :=
  Sigil.strip?_eq_some_iff.mpr (@remaining_of_sliceAhead cursor Sigil.blockComment.text h)

theorem ClosesComment.length_body (hc : cursor.ClosesComment close) :
    cursor.offset + 2 + (cursor.commentBody close).length = close := by
  have hle := Nat.le_of_lt (hc.lt_length (by decide))
  exact @offset_add_length_sliceTo (cursor.forward 2) close hc.start_le hle

/-- Once the comment is closed, its body and the line behind it decide. -/
theorem ClosesComment.recognize_eq (hc : cursor.ClosesComment close)
    (h : cursor.sliceAhead 2 = Sigil.blockComment.text) :
    Recognizer.blockComment cursor.remaining =
      let body := cursor.commentBody close
      let after := cursor.source.drop (close + 2)
      if body.hasBreak = false then .refused ⟨.shortComment, 0⟩
      else if (PhysicalLine.ofText after).isPadding = false then
        .refused ⟨.textAfterComment, body.length + 4 + (after.takeWhile isPadding).length⟩
      else .matched (.blockComment body) (body.length + 4 + (PhysicalLine.ofText after).size) := by
  have hcut : Text.cut? Mark.commentClose (cursor.forward 2).remaining =
      some (cursor.commentBody close, cursor.source.drop (close + 2)) :=
    @cut?_remaining_of_firstAt (cursor.forward 2) Mark.commentClose close hc
  simp only [Recognizer.blockComment, strip?_of_sliceAhead h, hcut, Bool.not_eq_true']

theorem CommentOutcome.run_eq (ho : cursor.CommentOutcome outcome)
    (h : cursor.sliceAhead 2 = Sigil.blockComment.text) :
    cursor.run Recognizer.blockComment = outcome := by
  cases ho with
  | unclosed hc =>
    have hcut := (@cut?_remaining_eq_none_iff (cursor.forward 2) Mark.commentClose).mpr hc
    refine run_eq_refused_iff.mpr ⟨⟨.openComment, 0⟩, ?_, rfl⟩
    simp only [Recognizer.blockComment, strip?_of_sliceAhead h, hcut]
  | confined hc hb =>
    refine run_eq_refused_iff.mpr ⟨⟨.shortComment, 0⟩, ?_, rfl⟩
    simp only [hc.recognize_eq h, hb, if_true]
  | @followed close padding rest c hc hb ha hp hn hf =>
    have hline := PhysicalLine.isPadding_eq_false_iff.mpr ⟨padding, c, rest, ha, hp, hn, hf⟩
    have hpadding : (cursor.source.drop (close + 2)).takeWhile isPadding = padding := by
      rw [ha]
      exact Text.takeWhile_run hp (Text.stopsRun_cons hn)
    have hlength := hc.length_body
    refine run_eq_refused_iff.mpr
      ⟨⟨.textAfterComment, (cursor.commentBody close).length + 4 + padding.length⟩, ?_, ?_⟩
    · simp only [hc.recognize_eq h, hb, Bool.true_eq_false, if_false, hline, if_true, hpadding]
    · simp only [Refusal.shift, Refusal.mk.injEq, true_and]
      omega
  | @closed close line rest hc hb ho hp =>
    have hpad : line.isPadding = true := List.all_eq_true.mpr hp
    have hlength := hc.length_body
    refine run_eq_matched_iff.mpr ⟨.blockComment (cursor.commentBody close),
      (cursor.commentBody close).length + 4 + line.size, ?_, rfl, ?_⟩
    · simp only [hc.recognize_eq h, hb, ho.ofText_eq, hpad, Bool.true_eq_false, if_false]
    · omega

/-- What comes of a block comment is settled by where it is closed and by what stands before and
behind that place. Its body does not hold the closing delimiter. -/
theorem run_blockComment_iff (cursor : Cursor)
    (h : cursor.sliceAhead 2 = Sigil.blockComment.text) :
    (∀ outcome, cursor.run Recognizer.blockComment = outcome ↔ cursor.CommentOutcome outcome) ∧
    (∀ close, cursor.ClosesComment close →
      ∀ place, ¬ Mark.commentClose <+: (cursor.commentBody close).drop place) ∧
    ∀ refusal, cursor.run Recognizer.blockComment = .refused refusal →
      refusal.fault.code = .blockComment := by
  have hiff : ∀ outcome, cursor.run Recognizer.blockComment = outcome ↔
      cursor.CommentOutcome outcome := by
    intro outcome
    constructor
    · rintro rfl
      obtain ⟨outcome, ho⟩ := cursor.exists_commentOutcome
      rw [ho.run_eq h]
      exact ho
    · intro ho
      exact ho.run_eq h
  refine ⟨hiff, ?_, ?_⟩
  · intro close hc
    exact @not_prefix_sliceTo (cursor.forward 2) Mark.commentClose close hc (by decide)
  · intro refusal hrun
    rw [hiff] at hrun
    cases hrun with
    | unclosed => rfl
    | confined => rfl
    | followed => rfl

theorem run_blockComment_iff_overlapping :
    (Cursor.mk "x/*/\r*/\t\ry".toList 1).sliceAhead 2 = Sigil.blockComment.text ∧
      (Cursor.mk "x/*/\r*/\t\ry".toList 1).CommentOutcome
        (.matched ⟨.blockComment ['/', '\r'], "/*/\r*/\t\r".toList, some (.ofSize 1 8)⟩ 9) :=
  ⟨by decide, ((run_blockComment_iff _ (by decide)).1 _).mp (by decide +kernel)⟩

end Cursor

end Playscript
