import Playscript.Proofs.LineGrammar
import Playscript.Proofs.Positions

/-!
# Labels in a source

The line of a label is the sigil, a name, perhaps the mark and an alternate, and padding. A line is
put together in this way from one set of words at most. Any other line is refused, at the first
character that has no place in it.
-/

namespace Playscript

structure LabelWords where
  name : Text
  alternate : Option Text
  padding : Text
  deriving DecidableEq, Repr

namespace LabelWords

def text (words : LabelWords) : Text :=
  Sigil.label.text ++ (words.name ++ (Line.alternateText words.alternate ++ words.padding))

def line (words : LabelWords) : Line := .label words.name words.alternate

structure IsValid (words : LabelWords) : Prop where
  isName : words.name.isName
  alternate_isName : ∀ alternate ∈ words.alternate, alternate.isName
  padding_isPadding : ∀ c ∈ words.padding, isPadding c

end LabelWords

theorem head?_ne_mark_of_padding {padding : Text} (h : ∀ c ∈ padding, isPadding c) :
    padding.head? ≠ some Mark.alternate := by
  intro hhead
  have hmark := h _ (List.mem_of_head? hhead)
  revert hmark
  decide

namespace LabelWords

variable {words first second : LabelWords}

theorem IsValid.stopsRun (h : words.IsValid) :
    Text.StopsRun isNameChar (Line.alternateText words.alternate ++ words.padding) := by
  cases ha : words.alternate with
  | none => exact Recognizer.stopsRun_padding h.padding_isPadding
  | some alternate => exact Text.stopsRun_cons (by decide)

theorem IsValid.spelling (h : words.IsValid) : words.line.Spelling words.text :=
  .label h.isName h.alternate_isName h.padding_isPadding

/-- The mark is not padding, so it is clear whether there is an alternate. -/
theorem alternate_unique (hf : first.IsValid) (hs : second.IsValid)
    (h : Line.alternateText first.alternate ++ first.padding =
      Line.alternateText second.alternate ++ second.padding) :
    first.alternate = second.alternate ∧ first.padding = second.padding := by
  have hfirst := head?_ne_mark_of_padding hf.padding_isPadding
  have hsecond := head?_ne_mark_of_padding hs.padding_isPadding
  cases ha : first.alternate with
  | none =>
    cases hb : second.alternate with
    | none =>
      rw [ha, hb] at h
      exact ⟨rfl, h⟩
    | some alternate =>
      rw [ha, hb] at h
      refine (hfirst ?_).elim
      change first.padding = _ at h
      rw [h]
      rfl
  | some alternate =>
    cases hb : second.alternate with
    | none =>
      rw [ha, hb] at h
      refine (hsecond ?_).elim
      change _ = second.padding at h
      rw [← h]
      rfl
    | some other =>
      rw [ha, hb] at h
      have hname := Text.isName_iff.mp (hf.alternate_isName alternate ha)
      have hname' := Text.isName_iff.mp (hs.alternate_isName other hb)
      obtain ⟨rfl, hpadding⟩ := Text.run_append_inj hname.2
        (Recognizer.stopsRun_padding hf.padding_isPadding) hname'.2
        (Recognizer.stopsRun_padding hs.padding_isPadding) (List.cons.inj h).2
      exact ⟨rfl, hpadding⟩

theorem eq_of_text_eq (hf : first.IsValid) (hs : second.IsValid) (h : first.text = second.text) :
    first = second := by
  have hname := Text.isName_iff.mp hf.isName
  have hname' := Text.isName_iff.mp hs.isName
  obtain ⟨hn, hrest⟩ := Text.run_append_inj hname.2 hf.stopsRun hname'.2 hs.stopsRun
    (List.append_cancel_left h)
  obtain ⟨ha, hp⟩ := alternate_unique hf hs hrest
  cases first
  cases second
  simp_all

end LabelWords

namespace Cursor

variable {cursor : Cursor} {line : PhysicalLine} {name content after : Text}
  {alternate : Option Text} {outcome : Outcome (Located Line)}

inductive LabelOutcome (cursor : Cursor) : Outcome (Located Line) → Prop where
  | unnamed {line : PhysicalLine} {content after : Text}
      (ho : line.Opens cursor.remaining after) (hc : line.content = Sigil.label.text ++ content)
      (hs : Text.StopsRun isNameChar content) :
      LabelOutcome cursor (.refused
        ⟨if content.isBlank then .missingLabel else .malformedLabel, cursor.offset + 1⟩)
  | unpaired {line : PhysicalLine} {name content after : Text}
      (ho : line.Opens cursor.remaining after)
      (hc : line.content = Sigil.label.text ++ (name ++ Mark.alternate :: content))
      (hn : name.isName) (hs : Text.StopsRun isNameChar content) :
      LabelOutcome cursor (.refused ⟨.malformedAlternate, cursor.offset + 1 + name.length + 1⟩)
  | followed {line : PhysicalLine} {name content after : Text} {alternate : Option Text}
      (ho : line.Opens cursor.remaining after)
      (hc : line.content = Sigil.label.text ++ (name ++ (Line.alternateText alternate ++ content)))
      (hn : name.isName) (ha : ∀ a ∈ alternate, a.isName) (hs : Text.StopsRun isNameChar content)
      (hm : alternate = none → content.head? ≠ some Mark.alternate)
      (hp : ¬ ∀ c ∈ content, isPadding c) :
      LabelOutcome cursor (.refused ⟨.textAfterLabel,
        cursor.offset + 1 + (name ++ Line.alternateText alternate).length⟩)
  | spelled {line : PhysicalLine} {words : LabelWords} {after : Text}
      (ho : line.Opens cursor.remaining after) (hc : line.content = words.text)
      (hv : words.IsValid) :
      LabelOutcome cursor (.matched (cursor.located words.line (cursor.offset + line.size))
        (cursor.offset + line.size))

theorem exists_labelOutcome_of_words (ho : line.Opens cursor.remaining after)
    (hc : line.content = Sigil.label.text ++ (name ++ (Line.alternateText alternate ++ content)))
    (hn : name.isName) (ha : ∀ a ∈ alternate, a.isName) (hs : Text.StopsRun isNameChar content)
    (hm : alternate = none → content.head? ≠ some Mark.alternate) :
    ∃ outcome, cursor.LabelOutcome outcome := by
  by_cases hp : ∀ c ∈ content, isPadding c
  · exact ⟨_, @LabelOutcome.spelled cursor line ⟨name, alternate, content⟩ after ho hc ⟨hn, ha, hp⟩⟩
  · exact ⟨_, .followed ho hc hn ha hs hm hp⟩

theorem exists_labelOutcome (h : cursor.source[cursor.offset]? = some '*') :
    ∃ outcome, cursor.LabelOutcome outcome := by
  obtain ⟨rest, hr⟩ := remaining_of_getElem? h
  have ho := PhysicalLine.opens_ofText cursor.remaining
  have hc : (PhysicalLine.ofText cursor.remaining).content =
      Sigil.label.text ++ (PhysicalLine.ofText rest).content := by
    rw [hr, PhysicalLine.ofText_cons (by decide)]
    rfl
  obtain ⟨hsplit, hchars, hstop⟩ := Text.run_split isNameChar (PhysicalLine.ofText rest).content
  generalize (PhysicalLine.ofText rest).content.takeWhile isNameChar = name at hsplit hchars
  generalize (PhysicalLine.ofText rest).content.dropWhile isNameChar = tail at hsplit hstop
  rw [hsplit] at hc
  by_cases hempty : name = []
  · rw [hempty] at hc
    exact ⟨_, .unnamed ho hc hstop⟩
  have hn := Text.isName_iff.mpr ⟨hempty, hchars⟩
  by_cases hm : tail.head? = some Mark.alternate
  · obtain ⟨second, rfl⟩ := List.head?_eq_some_iff.mp hm
    obtain ⟨hsplit', hchars', hstop'⟩ := Text.run_split isNameChar second
    generalize second.takeWhile isNameChar = alternate at hsplit' hchars'
    generalize second.dropWhile isNameChar = content at hsplit' hstop'
    rw [hsplit'] at hc
    by_cases hempty' : alternate = []
    · rw [hempty'] at hc
      exact ⟨_, .unpaired ho hc hn hstop'⟩
    · have ha : ∀ a ∈ some alternate, Text.isName a := by
        intro a hmem
        obtain rfl := Option.some.inj hmem
        exact Text.isName_iff.mpr ⟨hempty', hchars'⟩
      exact exists_labelOutcome_of_words ho hc hn ha hstop' (by rintro ⟨⟩)
  · exact @exists_labelOutcome_of_words _ _ _ _ _ none ho hc hn (by simp) hstop fun _ => hm

theorem strip?_of_opens (ho : line.Opens cursor.remaining after)
    (hc : line.content = Sigil.label.text ++ content) :
    ∃ rest, Sigil.label.strip? cursor.remaining = some rest ∧
      (PhysicalLine.ofText rest).content = content := by
  rw [← ho.ofText_eq] at hc
  obtain ⟨rest, hr, -, hrest⟩ := PhysicalLine.ofText_content_cons hc
  exact ⟨rest, Sigil.strip?_eq_some_iff.mpr hr, hrest⟩

theorem LabelOutcome.run_eq (h : cursor.LabelOutcome outcome) :
    cursor.run Recognizer.label = outcome := by
  cases h with
  | @unnamed line content after ho hc hs =>
    obtain ⟨rest, hstrip, hrest⟩ := strip?_of_opens ho hc
    have hrun : content.takeWhile isNameChar = [] := @Text.takeWhile_run _ [] content (by simp) hs
    refine run_eq_refused_iff.mpr
      ⟨⟨if content.isBlank then .missingLabel else .malformedLabel, 1⟩, ?_, rfl⟩
    simp only [Recognizer.label, hstrip, hrest, hrun, List.isEmpty_nil, if_true]
  | @unpaired line name content after ho hc hn hs =>
    obtain ⟨rest, hstrip, hrest⟩ := strip?_of_opens ho hc
    obtain ⟨hne, hchars⟩ := Text.isName_iff.mp hn
    have hmark : Text.StopsRun isNameChar (Mark.alternate :: content) :=
      Text.stopsRun_cons (by decide)
    have hrun : content.takeWhile isNameChar = [] := @Text.takeWhile_run _ [] content (by simp) hs
    refine run_eq_refused_iff.mpr ⟨⟨.malformedAlternate, name.length + 2⟩, ?_, ?_⟩
    · simp [Recognizer.label, hstrip, hrest, Text.takeWhile_run hchars hmark,
        Text.dropWhile_run hchars hmark, hne, Text.after?, hrun]
    · simp only [Refusal.shift, Refusal.mk.injEq, true_and]
      omega
  | @followed line name content after alternate ho hc hn ha hs hm hp =>
    obtain ⟨rest, hstrip, hrest⟩ := strip?_of_opens ho hc
    obtain ⟨hne, hchars⟩ := Text.isName_iff.mp hn
    have hpad : content.all isPadding = false := by simpa using hp
    refine run_eq_refused_iff.mpr
      ⟨⟨.textAfterLabel, 1 + (name ++ Line.alternateText alternate).length⟩, ?_, ?_⟩
    · cases alternate with
      | none =>
        have hmark := Text.after?_mark_eq_none_iff.mpr (hm rfl)
        rw [Line.alternateText, List.nil_append] at hrest
        simp [Recognizer.label, hstrip, hrest, Text.takeWhile_run hchars hs,
          Text.dropWhile_run hchars hs, hne, hmark, hpad, Line.alternateText, Nat.add_comm]
      | some alternate =>
        obtain ⟨hane, hachars⟩ := Text.isName_iff.mp (ha alternate rfl)
        have hmark : Text.StopsRun isNameChar (Mark.alternate :: (alternate ++ content)) :=
          Text.stopsRun_cons (by decide)
        rw [Line.alternateText, List.cons_append] at hrest
        simp [Recognizer.label, hstrip, hrest, Text.takeWhile_run hchars hmark,
          Text.dropWhile_run hchars hmark, hne, Text.after?, Text.takeWhile_run hachars hs,
          Text.dropWhile_run hachars hs, hane, hpad, Line.alternateText]
        omega
    · simp only [Refusal.shift, Refusal.mk.injEq, true_and]
      omega
  | @spelled line words after ho hc hv =>
    have htakes : Recognizer.TakesLine words.line cursor.remaining line.size := by
      rw [Recognizer.TakesLine, ho.ofText_eq, hc]
      exact ⟨hv.spelling, rfl⟩
    exact run_eq_matched_iff.mpr
      ⟨words.line, line.size, Recognizer.label_complete rfl htakes, rfl, rfl⟩

/-- What comes of a label is settled by the words on its line. -/
theorem run_label_iff (cursor : Cursor) (h : cursor.source[cursor.offset]? = some '*') :
    (∀ outcome, cursor.run Recognizer.label = outcome ↔ cursor.LabelOutcome outcome) ∧
    (∀ first second : LabelWords, first.IsValid → second.IsValid → first.text = second.text →
      first = second) ∧
    ∀ refusal, cursor.run Recognizer.label = .refused refusal → refusal.fault.code = .label := by
  have hiff := run_eq_iff_of_situations (exists_labelOutcome h) fun _ ho => ho.run_eq
  refine ⟨hiff, ?_, ?_⟩
  · intro first second hf hs htext
    exact LabelWords.eq_of_text_eq hf hs htext
  · intro refusal hrun
    rw [hiff] at hrun
    cases hrun with
    | unnamed =>
      split
      · rfl
      · rfl
    | unpaired => rfl
    | followed => rfl

theorem run_label_iff_padded :
    (Cursor.mk "x*ab|c\t \r\ny".toList 1).source[1]? = some '*' ∧
      (Cursor.mk "x*ab|c\t \r\ny".toList 1).LabelOutcome
        (.matched ⟨.label ['a', 'b'] (some ['c']), "*ab|c\t \r\n".toList, some (.ofSize 1 9)⟩ 10) :=
  ⟨by decide, ((run_label_iff _ (by decide)).1 _).mp (by decide +kernel)⟩

end Cursor

end Playscript
