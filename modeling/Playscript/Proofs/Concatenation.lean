import Playscript.Proofs.Places
import Playscript.Proofs.Segment

/-!
# Sources put together and cut

A source that ends with a line break is read as it stands whatever follows it, and what follows is
read as it stands, unless it closes a bracket that was open. A source that was read can be cut after
any of its lines.
-/

namespace Playscript

variable {a b source : Text} {lines : List (Located Line)} {offset : Nat}

namespace Segment

/-- A segment that ends with a whole line break joins whatever begins after that break. -/
theorem frame_of_break {rest : Text} (h : Segment offset a [] lines)
    (hend : a.getLast? = some '\n' ∨ a.getLast? = some '\r' ∧ rest.head? ≠ some '\n')
    (hb : Mark.bracketClose ∉ rest ∨ ∀ line ∈ lines, ¬ line.content.OpensBracket line.raw) :
    Segment offset a rest lines := by
  apply h.frame
  · right
    rcases hend with hl | ⟨hl, hh⟩
    · refine .afterBreak (by rw [Text.endsInBreak, hl]; rfl) ?_
      rintro ⟨hl', -⟩
      rw [hl] at hl'
      cases hl'
    · refine .afterBreak (by rw [Text.endsInBreak, hl]; rfl) ?_
      rintro ⟨-, hh'⟩
      exact hh hh'
  · intro line hl ho
    rcases hb with hb | hb
    · exact hb
    · exact (hb line hl ho).elim

end Segment

/-- The same failure, with `before` put before the source. Columns stay if `before` ends with LF. -/
structure Failure.Follows (before : Text) (near far : Failure) : Prop where
  code_eq : far.diagnostic.code = near.diagnostic.code
  message_eq : far.diagnostic.message = near.diagnostic.message
  offset_eq : far.offset = before.length + near.offset
  remaining_eq : far.remaining = near.remaining
  place_eq : before.getLast? = some '\n' →
    far.place = ⟨near.place.line + before.count '\n', near.place.column⟩

theorem Failure.follows (fault : Fault) (a b : Text) (offset : Nat) :
    Follows a (.ofComplaint (fault.complaint b offset))
      (.ofComplaint (fault.complaint (a ++ b) (a.length + offset))) := by
  constructor
  · rfl
  · rfl
  · rfl
  · change (a ++ b).drop (a.length + offset) = b.drop offset
    exact List.drop_length_add_append offset
  · intro h
    exact Place.ofOffset_append h b offset

namespace Reader

/-- Sources may be put together after a whole line break, unless the second closes a bracket that a
line of prose of the first has left open: the lines of the second follow those of the first, or its
failure is the failure of the whole. -/
theorem parse_append {document : Located Document}
    (ha : (unlimited Rule.standard).parse a = .ok document)
    (hend : a.getLast? = some '\n' ∨ a.getLast? = some '\r' ∧ b.head? ≠ some '\n')
    (hopen : Mark.bracketClose ∉ b ∨
      ∀ line ∈ document.content.lines, ¬ line.content.OpensBracket line.raw) :
    (∀ later, (unlimited Rule.standard).parse b = .ok later →
      (unlimited Rule.standard).parse (a ++ b) = .ok (.ofSource (a ++ b)
        (document.content.lines ++ later.content.lines.map (Located.shift a.length)))) ∧
    ∀ e, (unlimited Rule.standard).parse b = .error e → ∃ near far, e = .malformed near ∧
      (unlimited Rule.standard).parse (a ++ b) = .error (.malformed far) ∧ near.Follows a far := by
  obtain ⟨lines, hseg, rfl⟩ := segment_of_parse ha
  rw [hseg.lines_ofSource] at hopen ⊢
  have hfirst := hseg.frame_of_break hend hopen
  constructor
  · intro later hb
    obtain ⟨lines', hseg', rfl⟩ := segment_of_parse hb
    rw [hseg'.lines_ofSource]
    rw [← List.append_nil b] at hfirst
    exact parse_of_segment (hfirst.append (hseg'.shift_to a.length))
  · intro e hb
    obtain ⟨front, rest, lines', inner, rfl, hseg', hne, hs, rfl⟩ := segment_of_error hb
    have hparse := parse_of_refused (hfirst.append (hseg'.shift_to a.length)) hne hs
    rw [List.append_assoc, List.length_append, Nat.add_assoc] at hparse
    exact ⟨_, _, rfl, hparse, Failure.follows inner.fault a _ _⟩

theorem parse_append_cr : ∃ far,
    (unlimited Rule.standard).parse ['[', '\r', '#', ':'] = .error (.malformed far) ∧
      far.offset = 3 := by
  have ha : (unlimited Rule.standard).parse ['[', '\r'] =
      .ok ⟨.script [⟨.prose ['['], ['[', '\r'], some (.ofSize 0 2)⟩], ['[', '\r'],
        some (.ofSize 0 2)⟩ := by
    have hrun : Run Rule.standard ['[', '\r'] 1 0 _ none :=
      @Run.line _ _ 0 0 ⟨.prose ['['], 2, by decide⟩ _ _ (by decide) rfl (.finished (by decide))
    exact parse_of_run (not_excludes_unlimited _ _) (by decide) hrun
  have hb : (unlimited Rule.standard).parse ['#', ':'] =
      .error (.malformed (.ofComplaint (Fault.namelessCue.complaint ['#', ':'] 1))) := by
    have hrun : Run Rule.standard ['#', ':'] 1 0 [] (some ⟨.namelessCue, 1⟩) :=
      @Run.refused Rule.standard ['#', ':'] 0 ⟨.namelessCue, 1⟩ (by decide) rfl
    exact parse_of_refusal (not_excludes_unlimited _ _) (by decide) hrun
  obtain ⟨-, hfail⟩ := parse_append ha (b := ['#', ':']) (by decide) (Or.inl (by decide))
  obtain ⟨near, far, hnear, hfar, hfollows⟩ := hfail _ hb
  refine ⟨far, hfar, ?_⟩
  obtain rfl := ReadError.malformed.inj hnear
  exact hfollows.offset_eq

/-- A source that was read can be cut after any of its lines. Both pieces are read, the first as the
lines before the cut and the second as those behind it. -/
theorem parse_cut {document : Located Document}
    (h : (unlimited Rule.standard).parse source = .ok document) {count : Nat}
    (hc : count ≤ document.content.lines.length) :
    let stop := Located.stopAfter 0 (document.content.lines.take count)
    ∃ before after, (unlimited Rule.standard).parse (source.take stop) = .ok before ∧
      (unlimited Rule.standard).parse (source.drop stop) = .ok after ∧
      before.content.lines = document.content.lines.take count ∧
      after.content.lines.map (Located.shift stop) = document.content.lines.drop count ∧
      (before.content = .empty ↔ source.take stop = []) ∧
      (after.content = .empty ↔ source.drop stop = []) := by
  obtain ⟨lines, hseg, rfl⟩ := segment_of_parse h
  rw [hseg.lines_ofSource] at hc ⊢
  obtain ⟨front, back, rfl, hfront, hback⟩ := hseg.split hc
  have hstop := hfront.stopAfter_eq
  rw [Nat.zero_add] at hstop hback
  obtain ⟨near, hnear, hshift⟩ := @Segment.unshift _ _ _ 0 _ _ hback rfl
  have hcut : Segment 0 front [] (lines.take count) :=
    hfront.frame (Or.inr (.atEnd rfl)) (by simp)
  simp only [hstop, List.take_left, List.drop_left]
  refine ⟨_, _, parse_of_segment hcut, parse_of_segment hnear, hcut.lines_ofSource, ?_,
    Located.ofSource_eq_empty_iff, Located.ofSource_eq_empty_iff⟩
  rw [hnear.lines_ofSource, hshift]

theorem parse_cut_withinLine : ∃ before after,
    (unlimited Rule.standard).parse ['[', 'a', ']'] = .ok before ∧
      (unlimited Rule.standard).parse ['b', '\r', '\n'] = .ok after ∧
      before.content.lines.map Located.content = [.tag .bracket ['a'] .empty] ∧
      after.content.lines.map (Located.shift 3) =
        [⟨.prose ['b'], ['b', '\r', '\n'], some (.ofSize 3 3)⟩] := by
  have hrun : Run Rule.standard ['[', 'a', ']', 'b', '\r', '\n'] 2 0 _ none :=
    @Run.line _ _ 1 0 ⟨.tag .bracket ['a'] .empty, 3, by decide⟩ _ _ (by decide)
      (Step.ofRules_of_matched (by decide +kernel))
      (@Run.line _ _ 0 3 ⟨.prose ['b'], 3, by decide⟩ _ _ (by decide) rfl
        (.finished (by decide)))
  have hparse := parse_of_run (not_excludes_unlimited _ _) (by decide) hrun
  obtain ⟨before, after, hbefore, hafter, hlines, hshift, -, -⟩ :=
    parse_cut hparse (show 1 ≤ _ by decide)
  exact ⟨before, after, hbefore, hafter, by rw [hlines]; rfl, hshift⟩

end Reader

end Playscript
