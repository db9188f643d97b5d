import Playscript.Proofs.LineGrammar
import Playscript.Proofs.ParameterWriting

/-!
# Written lines

What is written on one line is a spelling of what was to be written. Conversely, whatever has a
spelling without a line break can be written.
-/

namespace Playscript

namespace Text

variable {text name emotion : Text}

theorem endsInSpace_marked (he : emotion ≠ []) :
    (name ++ Mark.emotion :: emotion).endsInSpace = emotion.endsInSpace := by
  rw [endsInSpace_append (List.cons_ne_nil _ _), ← List.singleton_append, endsInSpace_append he]

theorem isCuePart_iff :
    text.IsCuePart ↔ (text.isEmpty || text.contains Mark.emotion) = false := by
  simp only [Bool.or_eq_false_iff, List.contains_eq_mem, decide_eq_false_iff_not]
  constructor
  · intro h
    exact ⟨by simpa using h.ne_nil, h.unmarked⟩
  · rintro ⟨hne, hmark⟩
    exact ⟨by simpa using hne, hmark⟩

theorem needsEscape_eq_false_iff : text.needsEscape = false ↔
    text = text.trim ∧ ∀ sigil : Sigil, sigil.strip? text = none := by
  simp only [needsEscape, Bool.or_eq_false_iff, bne_eq_false_iff_eq, List.any_eq_false,
    Option.not_isSome_iff_eq_none]
  constructor
  · rintro ⟨htrim, hall⟩
    refine ⟨htrim, ?_⟩
    intro sigil
    apply hall sigil
    cases sigil <;> decide
  · rintro ⟨htrim, hall⟩
    refine ⟨htrim, ?_⟩
    intro sigil _
    exact hall sigil

end Text

namespace Line

variable {name text content : Text} {emotion alternate : Option Text} {parameters : Parameters}
  {line : Line}

theorem writeCue_sound (h : writeCue name emotion = .ok text) :
    Spelling (.cue name emotion) text ∧ text.hasBreak = false := by
  unfold writeCue at h
  split at h
  · cases h
  next hbreak =>
  split at h
  · cases h
  next hpart =>
  have hname : name.IsCuePart := Text.isCuePart_iff.mpr (by simpa using hpart)
  have hbreak : name.hasBreak = false := by simpa using hbreak
  have hsigil : Sigil.cue.text.hasBreak = false := by decide
  cases emotion with
  | none =>
    dsimp only at h
    split at h
    · cases h
    next hspace =>
      obtain rfl := Except.ok.inj h
      have hs := @Spelling.cue name [] none hname (by simp)
        (by simpa [emotionText] using hspace) (by simp)
      exact ⟨by simpa [emotionText] using hs, by simp [hsigil, hbreak]⟩
  | some emotion =>
    dsimp only at h
    split at h
    · cases h
    next hbreak' =>
    split at h
    · cases h
    next hemotion =>
      obtain rfl := Except.ok.inj h
      rw [Bool.not_eq_true, Bool.or_eq_false_iff, ← Text.isCuePart_iff] at hemotion
      obtain ⟨hemotion, hspace⟩ := hemotion
      have hbreak' : emotion.hasBreak = false := by simpa using hbreak'
      have hmark : isBreak Mark.emotion = false := by decide
      have hs := @Spelling.cue name [] (some emotion) hname
        (by intro e he; rw [← Option.some.inj he]; exact hemotion)
        (by rw [emotionText, Text.endsInSpace_marked hemotion.ne_nil, hspace]) (by simp)
      exact ⟨by simpa [emotionText] using hs, by simp [hsigil, hbreak, hbreak', hmark]⟩

theorem writeLabel_sound (h : writeLabel name alternate = .ok text) :
    Spelling (.label name alternate) text ∧ text.hasBreak = false := by
  unfold writeLabel at h
  split at h
  · cases h
  next hname =>
  have hname : name.isName := by simpa using hname
  have hbreak := Text.hasBreak_of_isName hname
  have hsigil : Sigil.label.text.hasBreak = false := by decide
  cases alternate with
  | none =>
    obtain rfl := Except.ok.inj h
    have hs := @Spelling.label name [] none hname (by simp) (by simp)
    exact ⟨by simpa [alternateText] using hs, by simp [hsigil, hbreak]⟩
  | some alternate =>
    dsimp only at h
    split at h
    · cases h
    next halternate =>
      obtain rfl := Except.ok.inj h
      have halternate : alternate.isName := by simpa using halternate
      have hbreak' := Text.hasBreak_of_isName halternate
      have hmark : isBreak Mark.alternate = false := by decide
      have hs := @Spelling.label name [] (some alternate) hname
        (by intro a ha; rw [← Option.some.inj ha]; exact halternate) (by simp)
      exact ⟨by simpa [alternateText] using hs, by simp [hsigil, hbreak, hbreak', hmark]⟩

theorem writeLineTag_sound (h : writeTag .line name parameters = .ok text) :
    Spelling (.tag .line name parameters) text ∧ text.hasBreak = false := by
  simp only [writeTag] at h
  split at h
  · cases h
  next hname =>
  have hname : name.isName := by simpa using hname
  cases hw : parameters.writeAfter name with
  | error e => simp [hw, Except.map] at h
  | ok written =>
    have htext : Sigil.lineTag.text ++ written = text := by simpa [hw, Except.map] using h
    obtain ⟨body, rfl, hend, hlist, hbody⟩ := Parameters.writeAfter_sound hw
    have hsigil : Sigil.lineTag.text.hasBreak = false := by decide
    rw [← htext]
    exact ⟨.tag hname hend hlist, by simp [hsigil, Text.hasBreak_of_isName hname, hbody]⟩

theorem writeProse_sound (h : write (.prose content) = .ok text) :
    Spelling (.prose content) text ∧ text.hasBreak = false := by
  simp only [write] at h
  split at h
  · cases h
  next hbreak =>
  have hbreak : content.hasBreak = false := by simpa using hbreak
  split at h
  · obtain rfl := Except.ok.inj h
    have hsigil : Sigil.escape.text.hasBreak = false := by decide
    exact ⟨.escaped content, by simp [hsigil, hbreak]⟩
  next hescape =>
    obtain rfl := Except.ok.inj h
    obtain ⟨htrim, hsigils⟩ := Text.needsEscape_eq_false_iff.mp (by simpa using hescape)
    have hs := Spelling.prose (hsigils .escape)
    rw [← htrim] at hs
    exact ⟨hs, hbreak⟩

/-- A line that takes one physical line is written as one of its spellings, without a break. -/
theorem write_sound (h : line.write = .ok text) (hc : line.kind ≠ .blockComment)
    (hb : line.kind ≠ .bracketTag) : line.Spelling text ∧ text.hasBreak = false := by
  cases line with
  | comment body =>
    simp only [write] at h
    split at h
    · cases h
    next hbreak =>
      obtain rfl := Except.ok.inj h
      have hsigil : Sigil.comment.text.hasBreak = false := by decide
      exact ⟨.comment body, by simp [hsigil, hbreak]⟩
  | blockComment body => exact (hc rfl).elim
  | cue name emotion => exact writeCue_sound h
  | narration =>
    obtain rfl := Except.ok.inj h
    have hs := @Spelling.narration [] (by simp)
    exact ⟨by simpa using hs, by decide⟩
  | label name alternate => exact writeLabel_sound h
  | tag form name parameters =>
    cases form with
    | line => exact writeLineTag_sound h
    | bracket => exact (hb rfl).elim
  | prose content => exact writeProse_sound h

theorem writeCue_complete (hn : name.IsCuePart) (he : ∀ e ∈ emotion, e.IsCuePart)
    (hl : (name ++ emotionText emotion).endsInSpace = false)
    (hf : (name ++ emotionText emotion).hasBreak = false) :
    ∃ written, writeCue name emotion = .ok written := by
  have hname := Text.isCuePart_iff.mp hn
  rw [Text.hasBreak_append, Bool.or_eq_false_iff] at hf
  obtain ⟨hbreak, hrest⟩ := hf
  cases emotion with
  | none =>
    rw [emotionText, List.append_nil] at hl
    exact ⟨_, by simp only [writeCue, hbreak, hname, hl]; rfl⟩
  | some emotion =>
    have hpart := he emotion rfl
    have hemotion := Text.isCuePart_iff.mp hpart
    rw [emotionText, Text.endsInSpace_marked hpart.ne_nil] at hl
    rw [emotionText, Text.hasBreak_cons, Bool.or_eq_false_iff] at hrest
    exact ⟨_, by simp only [writeCue, hbreak, hname, hrest.2, hemotion, hl]; rfl⟩

theorem writeLabel_complete (hn : name.isName) (ha : ∀ a ∈ alternate, a.isName) :
    ∃ written, writeLabel name alternate = .ok written := by
  cases alternate with
  | none => exact ⟨_, by simp only [writeLabel, hn]; rfl⟩
  | some alternate => exact ⟨_, by simp only [writeLabel, hn, ha alternate rfl]; rfl⟩

theorem mem_of_mem_trim {c : Char} (h : c ∈ text.trim) : c ∈ text := by
  rw [Text.trim, Text.trimRight, List.mem_reverse] at h
  have hleft := List.mem_reverse.mp ((List.dropWhile_sublist _).subset h)
  exact (List.dropWhile_sublist _).subset hleft

theorem writeProse_complete (h : content.hasBreak = false) :
    ∃ written, write (.prose content) = .ok written := by
  by_cases hescape : content.needsEscape
  · exact ⟨_, by simp only [write, h, hescape]; rfl⟩
  · rw [Bool.not_eq_true] at hescape
    exact ⟨_, by simp only [write, h, hescape]; rfl⟩

/-- What an unbroken content spells can be written. -/
theorem write_complete (h : line.Spelling content) (hf : content.hasBreak = false) :
    ∃ written, line.write = .ok written := by
  cases h with
  | comment body =>
    have hbody : body.hasBreak = false := Text.hasBreak_of_subset hf (by simp +contextual)
    exact ⟨_, by simp only [write, hbody]; rfl⟩
  | narration hs => exact ⟨_, rfl⟩
  | cue hn he hl hs =>
    apply writeCue_complete hn he hl
    apply Text.hasBreak_of_subset hf
    intro c hc
    exact List.mem_append_right _ (List.mem_append_left _ hc)
  | label hn ha hp => exact writeLabel_complete hn ha
  | @tag name body parameters hn hb hl =>
    have hbody : body.hasBreak = false := Text.hasBreak_of_subset hf (by simp +contextual)
    obtain ⟨written, hwritten, -⟩ := Parameters.writeAfter_complete name hl hbody
    exact ⟨_, by simp only [write, writeTag, hn, hwritten]; rfl⟩
  | escaped kept =>
    apply writeProse_complete
    exact Text.hasBreak_of_subset hf (by simp +contextual)
  | prose hkept =>
    apply writeProse_complete
    apply Text.hasBreak_of_subset hf
    intro c hc
    exact mem_of_mem_trim hc

theorem writeBlockComment_sound (h : write (.blockComment body) = .ok text) :
    text = Sigil.blockComment.text ++ body ++ Mark.commentClose ∧
      Text.hasPiece Mark.commentClose body = false ∧ body.hasBreak := by
  simp only [write] at h
  split at h
  · cases h
  next hpiece =>
  split at h
  · cases h
  next hbreak =>
    exact ⟨(Except.ok.inj h).symm, by simpa using hpiece, by simpa using hbreak⟩

theorem writeBracketTag_sound (h : write (.tag .bracket name parameters) = .ok text) :
    name.isIdentifier ∧ ∃ written, parameters.writeAfter name = .ok written ∧
      Mark.bracketClose ∉ written ∧
      text = Sigil.bracketTag.text ++ written ++ [Mark.bracketClose] := by
  simp only [write, writeTag] at h
  split at h
  · cases h
  next hname =>
  split at h
  · cases h
  next written hw =>
  split at h
  · cases h
  next hclose =>
    exact ⟨by simpa using hname, written, hw, by simpa using hclose, (Except.ok.inj h).symm⟩

theorem writeBracketTag_complete {name written : Text} {parameters : Parameters}
    (hn : name.isIdentifier) (hw : parameters.writeAfter name = .ok written)
    (hc : Mark.bracketClose ∉ written) : Line.write (.tag .bracket name parameters) =
      .ok (Sigil.bracketTag.text ++ written ++ [Mark.bracketClose]) := by
  simp [Line.write, Line.writeTag, hn, hw, hc]

end Line

end Playscript
