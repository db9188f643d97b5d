import Playscript.Proofs.LineGrammar
import Playscript.Proofs.Positions

/-!
# Cues in a source

What a cue says is the rest of its line without the spaces at the end. Nothing is narration, a part
without a mark is a name, and two parts around a mark are a name and an emotion. A cue is refused
where a part is missing and at a second mark.
-/

namespace Playscript

namespace Cursor

variable {cursor : Cursor} {line : PhysicalLine} {content : Text} {outcome : Outcome (Located Line)}

structure SaysCue (cursor : Cursor) (line : PhysicalLine) (content : Text) : Prop where
  opens : ∃ after, line.Opens (cursor.source.drop (cursor.offset + 1)) after
  trimmed : ∃ space, line.content = content ++ space ∧ ∀ c ∈ space, isSpace c
  visible_last : content.endsInSpace = false

def cueNode (cursor : Cursor) (line : PhysicalLine) (said : Line) : Outcome (Located Line) :=
  .matched (cursor.located said (cursor.offset + 1 + line.size)) (cursor.offset + 1 + line.size)

inductive CueOutcome (cursor : Cursor) : Outcome (Located Line) → Prop where
  | narration {line : PhysicalLine} (hl : cursor.SaysCue line []) :
      CueOutcome cursor (cursor.cueNode line .narration)
  | named {line : PhysicalLine} {name : Text} (hl : cursor.SaysCue line name)
      (hn : name.IsCuePart) :
      CueOutcome cursor (cursor.cueNode line (.cue name none))
  | felt {line : PhysicalLine} {name emotion : Text}
      (hl : cursor.SaysCue line (name ++ Mark.emotion :: emotion)) (hn : name.IsCuePart)
      (he : emotion.IsCuePart) :
      CueOutcome cursor (cursor.cueNode line (.cue name (some emotion)))
  | nameless {line : PhysicalLine} {rest : Text} (hl : cursor.SaysCue line (Mark.emotion :: rest)) :
      CueOutcome cursor (.refused ⟨.namelessCue, cursor.offset + 1⟩)
  | repeated {line : PhysicalLine} {name emotion rest : Text}
      (hl : cursor.SaysCue line (name ++ Mark.emotion :: (emotion ++ Mark.emotion :: rest)))
      (hn : name.IsCuePart) (he : Mark.emotion ∉ emotion) :
      CueOutcome cursor (.refused
        ⟨.secondEmotion, cursor.offset + 1 + (name ++ Mark.emotion :: emotion).length⟩)
  | unfelt {line : PhysicalLine} {name : Text}
      (hl : cursor.SaysCue line (name ++ [Mark.emotion])) (hn : name.IsCuePart) :
      CueOutcome cursor (.refused
        ⟨.missingEmotion, cursor.offset + 1 + (name ++ [Mark.emotion]).length⟩)

theorem SaysCue.exists_cueOutcome (hl : cursor.SaysCue line content) :
    ∃ outcome, cursor.CueOutcome outcome := by
  by_cases hempty : content = []
  · exact ⟨_, .narration (hempty ▸ hl)⟩
  cases hcut : Text.cutAt? Mark.emotion content with
  | none => exact ⟨_, .named hl ⟨hempty, Text.cutAt?_eq_none_iff.mp hcut⟩⟩
  | some parts =>
    obtain ⟨name, emotion⟩ := parts
    obtain ⟨rfl, hmark⟩ := Text.cutAt?_eq_some_iff.mp hcut
    by_cases hname : name = []
    · exact ⟨_, .nameless (by rwa [hname] at hl)⟩
    have hn : name.IsCuePart := ⟨hname, hmark⟩
    cases hsecond : Text.cutAt? Mark.emotion emotion with
    | some second =>
      obtain ⟨first, rest⟩ := second
      obtain ⟨rfl, hfirst⟩ := Text.cutAt?_eq_some_iff.mp hsecond
      exact ⟨_, .repeated hl hn hfirst⟩
    | none =>
      by_cases hemotion : emotion = []
      · exact ⟨_, .unfelt (by rwa [hemotion] at hl) hn⟩
      · exact ⟨_, .felt hl hn ⟨hemotion, Text.cutAt?_eq_none_iff.mp hsecond⟩⟩

theorem exists_saysCue (cursor : Cursor) : ∃ line content, cursor.SaysCue line content := by
  have ho := PhysicalLine.opens_ofText (cursor.source.drop (cursor.offset + 1))
  obtain ⟨space, hcontent, hspace, hlast⟩ := Text.trimRight_eq_iff.mp (rfl :
    (PhysicalLine.ofText (cursor.source.drop (cursor.offset + 1))).content.trimRight = _)
  exact ⟨_, _, ⟨_, ho⟩, ⟨space, hcontent, hspace⟩, hlast⟩

theorem exists_cueOutcome (cursor : Cursor) : ∃ outcome, cursor.CueOutcome outcome := by
  obtain ⟨line, content, hl⟩ := cursor.exists_saysCue
  exact hl.exists_cueOutcome

theorem SaysCue.trimRight_eq (hl : cursor.SaysCue line content) :
    line.content.trimRight = content := by
  obtain ⟨space, hcontent, hspace⟩ := hl.trimmed
  exact Text.trimRight_eq_iff.mpr ⟨space, hcontent, hspace, hl.visible_last⟩

theorem SaysCue.exists_rest (hl : cursor.SaysCue line content)
    (h : cursor.source[cursor.offset]? = some '#') :
    ∃ rest, cursor.remaining = Sigil.cue.text ++ rest ∧ PhysicalLine.ofText rest = line := by
  obtain ⟨after, ho⟩ := hl.opens
  obtain ⟨rest, hr⟩ := remaining_of_getElem? h
  have hdrop : cursor.source.drop (cursor.offset + 1) = rest := by
    rw [← List.drop_drop]
    change cursor.remaining.drop 1 = rest
    rw [hr, List.drop_one, List.tail_cons]
  exact ⟨rest, hr, by rw [← hdrop, ho.ofText_eq]⟩

/-- A line that may be spelled this way, with any spaces behind it, is read to its end. -/
theorem SaysCue.run_eq_cueNode {said : Line} (hl : cursor.SaysCue line content)
    (h : cursor.source[cursor.offset]? = some '#')
    (hk : said.kind = .cue ∨ said.kind = .narration)
    (hs : ∀ space : Text, (∀ c ∈ space, isSpace c) →
      said.Spelling (Sigil.cue.text ++ (content ++ space))) :
    cursor.run Recognizer.cue = cursor.cueNode line said := by
  obtain ⟨rest, hr, hline⟩ := hl.exists_rest h
  obtain ⟨space, hcontent, hspace⟩ := hl.trimmed
  have hspelling : said.Spelling (Sigil.cue.text ++ (PhysicalLine.ofText rest).content) := by
    rw [hline, hcontent]
    exact hs space hspace
  have htakes : Recognizer.TakesLine said cursor.remaining (1 + line.size) := by
    rw [hr, ← hline]
    exact Recognizer.takesLine_cons (by decide) hspelling
  exact run_eq_matched_iff.mpr
    ⟨said, 1 + line.size, Recognizer.cue_complete hk htakes, rfl, Nat.add_assoc _ _ _⟩

theorem CueOutcome.run_eq (ho : cursor.CueOutcome outcome)
    (h : cursor.source[cursor.offset]? = some '#') : cursor.run Recognizer.cue = outcome := by
  cases ho with
  | narration hl =>
    exact hl.run_eq_cueNode h (.inr rfl) fun _ hspace => .narration hspace
  | @named line name hl hn =>
    refine hl.run_eq_cueNode h (.inl rfl) fun space hspace => ?_
    have hlast : (name ++ Line.emotionText none).endsInSpace = false := by
      rw [Line.emotionText, List.append_nil]
      exact hl.visible_last
    have hspelling := Line.Spelling.cue hn (by simp) hlast hspace
    rwa [Line.emotionText, List.append_nil] at hspelling
  | @felt line name emotion hl hn he =>
    refine hl.run_eq_cueNode h (.inl rfl) fun space hspace => ?_
    have hparts : ∀ e ∈ some emotion, Text.IsCuePart e := by
      intro e hmem
      exact Option.some.inj hmem ▸ he
    exact .cue hn hparts hl.visible_last hspace
  | @nameless line after hl =>
    obtain ⟨rest, hr, hline⟩ := hl.exists_rest h
    have hcut : Text.cutAt? Mark.emotion (Mark.emotion :: after) = some ([], after) :=
      Text.cutAt?_eq_some_iff.mpr ⟨rfl, by simp⟩
    refine run_eq_refused_iff.mpr ⟨⟨.namelessCue, 1⟩, ?_, rfl⟩
    simp only [hr, Recognizer.cue, Recognizer.strip?_append, hline, hl.trimRight_eq,
      List.isEmpty_cons, Bool.false_eq_true, if_false, hcut, List.isEmpty_nil, if_true]
  | @repeated line name emotion after hl hn he =>
    obtain ⟨rest, hr, hline⟩ := hl.exists_rest h
    have hcut : Text.cutAt? Mark.emotion
        (name ++ Mark.emotion :: (emotion ++ Mark.emotion :: after)) =
        some (name, emotion ++ Mark.emotion :: after) :=
      Text.cutAt?_eq_some_iff.mpr ⟨rfl, hn.unmarked⟩
    have hsecond : Text.cutAt? Mark.emotion (emotion ++ Mark.emotion :: after) =
        some (emotion, after) := Text.cutAt?_eq_some_iff.mpr ⟨rfl, he⟩
    refine run_eq_refused_iff.mpr ⟨⟨.secondEmotion, name.length + 2 + emotion.length⟩, ?_, ?_⟩
    · simp only [hr, Recognizer.cue, Recognizer.strip?_append, hline, hl.trimRight_eq,
        List.isEmpty_iff, List.append_eq_nil_iff, hn.ne_nil, false_and, if_false, hcut, hsecond]
    · simp only [Refusal.shift, Refusal.mk.injEq, true_and, List.length_append, List.length_cons]
      omega
  | @unfelt line name hl hn =>
    obtain ⟨rest, hr, hline⟩ := hl.exists_rest h
    have hcut : Text.cutAt? Mark.emotion (name ++ [Mark.emotion]) = some (name, []) :=
      Text.cutAt?_eq_some_iff.mpr ⟨rfl, hn.unmarked⟩
    have hsecond : Text.cutAt? Mark.emotion [] = none := rfl
    refine run_eq_refused_iff.mpr ⟨⟨.missingEmotion, name.length + 2⟩, ?_, ?_⟩
    · simp only [hr, Recognizer.cue, Recognizer.strip?_append, hline, hl.trimRight_eq,
        List.isEmpty_iff, List.append_eq_nil_iff, hn.ne_nil, false_and, if_false, hcut, hsecond,
        if_true]
    · simp only [Refusal.shift, Refusal.mk.injEq, true_and, List.length_append, List.length_cons,
        List.length_nil]
      omega

/-- What comes of a cue is settled by what it says. -/
theorem run_cue_iff (cursor : Cursor) (h : cursor.source[cursor.offset]? = some '#') :
    (∀ outcome, cursor.run Recognizer.cue = outcome ↔ cursor.CueOutcome outcome) ∧
    ∀ refusal, cursor.run Recognizer.cue = .refused refusal → refusal.fault.code = .cue := by
  have hiff := run_eq_iff_of_situations cursor.exists_cueOutcome fun _ ho => ho.run_eq h
  refine ⟨hiff, ?_⟩
  intro refusal hrun
  rw [hiff] at hrun
  cases hrun with
  | nameless => rfl
  | repeated => rfl
  | unfelt => rfl

theorem run_cue_iff_spaced :
    (Cursor.mk "x#a: b\u2003\r".toList 1).source[1]? = some '#' ∧
      (Cursor.mk "x#a: b\u2003\r".toList 1).CueOutcome
        (.matched ⟨.cue ['a'] (some [' ', 'b']), "#a: b\u2003\r".toList, some (.ofSize 1 7)⟩ 8) :=
  ⟨by decide, ((run_cue_iff _ (by decide)).1 _).mp (by decide +kernel)⟩

end Cursor

end Playscript
