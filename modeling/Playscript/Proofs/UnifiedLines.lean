import Playscript.Proofs.Dispatch
import Playscript.Proofs.UnifiedParameters

/-!
# Lines under other line breaks

Every rule finds in the unified text what it finds in the text: nothing, the same fault at the
corresponding offset, or the same line up to the breaks inside it. Most rules look at the content of
one physical line only.
-/

namespace Playscript

variable {text front rest : Text}

/-- Two lines say the same but for line breaks: those of a block comment, and those that a bracket
tag has folded into the values of its parameters. -/
inductive Line.SameUpToBreaks : Line → Line → Prop
  | refl (line : Line) : SameUpToBreaks line line
  | blockComment {body body' : Text} (h : body.lineContents = body'.lineContents) :
      SameUpToBreaks (.blockComment body) (.blockComment body')
  | bracketTag {name : Text} {parameters parameters' : Parameters}
      (h : parameters.entries.map Entry.collapsed = parameters'.entries.map Entry.collapsed) :
      SameUpToBreaks (.tag .bracket name parameters) (.tag .bracket name parameters')

namespace Line.SameUpToBreaks

variable {a b c : Line}

theorem symm (h : a.SameUpToBreaks b) : b.SameUpToBreaks a := by
  cases h with
  | refl => exact .refl _
  | blockComment h => exact .blockComment h.symm
  | bracketTag h => exact .bracketTag h.symm

theorem trans (h : a.SameUpToBreaks b) (k : b.SameUpToBreaks c) : a.SameUpToBreaks c := by
  cases h with
  | refl => exact k
  | blockComment h =>
    cases k with
    | refl => exact .blockComment h
    | blockComment k => exact .blockComment (h.trans k)
  | bracketTag h =>
    cases k with
    | refl => exact .bracketTag h
    | bracketTag k => exact .bracketTag (h.trans k)

end Line.SameUpToBreaks

theorem Sigil.hasBreak_text (sigil : Sigil) : sigil.text.hasBreak = false := by
  cases sigil <;> rfl

theorem Sigil.strip?_unifyBreaks (sigil : Sigil) (text : Text) :
    sigil.strip? text.unifyBreaks = (sigil.strip? text).map Text.unifyBreaks :=
  Text.after?_unifyBreaks sigil.hasBreak_text text

namespace PhysicalLine

theorem ofText_append (h : front.hasBreak = false) (rest : Text) :
    ofText (front ++ rest) = ⟨front ++ (ofText rest).content, (ofText rest).ending⟩ := by
  induction front with
  | nil => rfl
  | cons c front ih =>
    rw [Text.hasBreak_cons, Bool.or_eq_false_iff] at h
    rw [List.cons_append, ofText_cons h.1, ih h.2]
    rfl

theorem size_append (h : front.hasBreak = false) (rest : Text) :
    (ofText (front ++ rest)).size = front.length + (ofText rest).size := by
  rw [ofText_append h]
  simp only [size, List.length_append, Nat.add_assoc]

theorem isPadding_unifyBreaks (text : Text) :
    (ofText text.unifyBreaks).isPadding = (ofText text).isPadding := by
  rw [ofText_unifyBreaks]
  rfl

theorem strip?_content (sigil : Sigil) (text : Text) : sigil.strip? (ofText text).content =
    (sigil.strip? text).map fun rest => (ofText rest).content := by
  cases hs : sigil.strip? text with
  | some rest =>
    rw [Sigil.strip?_eq_some_iff.mp hs, ofText_append sigil.hasBreak_text]
    exact Sigil.strip?_eq_some_iff.mpr rfl
  | none =>
    rw [Option.map_none, Option.eq_none_iff_forall_ne_some]
    intro rest hc
    have htext := (opens_ofText text).text_eq
    rw [PhysicalLine.text, Sigil.strip?_eq_some_iff.mp hc, List.append_assoc, List.append_assoc]
      at htext
    rw [Sigil.strip?_eq_some_iff.mpr htext] at hs
    cases hs

end PhysicalLine

namespace Text

variable {a b : Char}

theorem pair_isPrefixOf_cons (c : Char) (text : Text) :
    [a, b].isPrefixOf (c :: text) = true ↔ c = a ∧ text.head? = some b := by
  rw [pair_isPrefixOf_iff]
  constructor
  · rintro ⟨rest, h⟩
    obtain ⟨rfl, rfl⟩ := List.cons.inj h
    exact ⟨rfl, rfl⟩
  · rintro ⟨rfl, h⟩
    obtain ⟨rest, rfl⟩ := List.head?_eq_some_iff.mp h
    exact ⟨rest, rfl⟩

theorem pair_isPrefixOf_break {c : Char} (ha : isBreak a = false) (hc : isBreak c) (text : Text) :
    [a, b].isPrefixOf (c :: text) = false := by
  rw [Bool.eq_false_iff]
  intro hp
  rw [(pair_isPrefixOf_cons c text).mp hp |>.1, ha] at hc
  cases hc

theorem hasPiece_unifyBreaks (ha : isBreak a = false) (hb : isBreak b = false) (text : Text) :
    hasPiece [a, b] text.unifyBreaks = hasPiece [a, b] text := by
  fun_induction unifyBreaks text with
  | case1 => rfl
  | case2 rest hh ih =>
    rw [ih, hasPiece_cons _ '\r', pair_isPrefixOf_break ha rfl, Bool.false_or]
  | case3 rest hh ih =>
    rw [hasPiece_cons, hasPiece_cons _ '\r', pair_isPrefixOf_break ha rfl,
      pair_isPrefixOf_break ha rfl, ih]
  | case4 c rest hc ih =>
    have hprefix : [a, b].isPrefixOf (c :: unifyBreaks rest) = [a, b].isPrefixOf (c :: rest) := by
      rw [Bool.eq_iff_iff, pair_isPrefixOf_cons, pair_isPrefixOf_cons,
        head?_unifyBreaks_eq_some_iff hb]
    rw [hasPiece_cons, hasPiece_cons, hprefix, ih]

theorem cut?_unifyBreaks (ha : isBreak a = false) (hb : isBreak b = false) (hab : a ≠ b)
    (text : Text) : cut? [a, b] text.unifyBreaks =
      (cut? [a, b] text).map fun parts => (parts.1.unifyBreaks, parts.2.unifyBreaks) := by
  cases hcut : cut? [a, b] text with
  | none =>
    rw [cut?_eq_none_iff, ← hasPiece_unifyBreaks ha hb] at hcut
    exact cut?_eq_none_iff.mpr hcut
  | some parts =>
    obtain ⟨before, after⟩ := parts
    obtain ⟨rfl, hbefore⟩ := cut?_pair_sound hcut
    rw [unifyBreaks_append (apart_cons ha), unifyBreaks_of_not_isBreak ha,
      unifyBreaks_of_not_isBreak hb]
    exact cut?_pair_complete hab (by rwa [hasPiece_unifyBreaks ha hb])

end Text

def Outcome.withStop {α : Type} (stop : Nat) : Outcome α → Outcome α
  | matched content _ => matched content stop
  | outcome => outcome

def Recognizer.ReadsLine (recognize : Recognizer Line) : Prop :=
  ∀ text, recognize text = (recognize (PhysicalLine.ofText text).content).withStop
    (PhysicalLine.ofText text).size

namespace Recognizer

theorem comment_readsLine : ReadsLine comment := by
  intro text
  unfold comment
  rw [PhysicalLine.strip?_content]
  cases hs : Sigil.comment.strip? text with
  | none => rfl
  | some rest =>
    rw [Sigil.strip?_eq_some_iff.mp hs, PhysicalLine.size_append (Sigil.hasBreak_text _)]
    simp only [Option.map_some, PhysicalLine.ofText_flat (PhysicalLine.hasBreak_content rest)]
    rfl

theorem cue_readsLine : ReadsLine cue := by
  intro text
  unfold cue
  rw [PhysicalLine.strip?_content]
  cases hs : Sigil.cue.strip? text with
  | none => rfl
  | some rest =>
    rw [Sigil.strip?_eq_some_iff.mp hs, PhysicalLine.size_append (Sigil.hasBreak_text _)]
    simp only [Option.map_some, PhysicalLine.ofText_flat (PhysicalLine.hasBreak_content rest)]
    repeat' split
    all_goals rfl

theorem label_readsLine : ReadsLine label := by
  intro text
  unfold label
  rw [PhysicalLine.strip?_content]
  cases hs : Sigil.label.strip? text with
  | none => rfl
  | some rest =>
    rw [Sigil.strip?_eq_some_iff.mp hs, PhysicalLine.size_append (Sigil.hasBreak_text _)]
    simp only [Option.map_some, PhysicalLine.ofText_flat (PhysicalLine.hasBreak_content rest)]
    repeat' split
    all_goals rfl

theorem tagBody_withStop (form : TagForm) (name body : Text) (offset stop stop' : Nat) :
    tagBody form name body offset stop = (tagBody form name body offset stop').withStop stop := by
  unfold tagBody
  repeat' split
  all_goals rfl

theorem lineTag_readsLine : ReadsLine lineTag := by
  intro text
  unfold lineTag
  rw [PhysicalLine.strip?_content]
  cases hs : Sigil.lineTag.strip? text with
  | none => rfl
  | some rest =>
    rw [Sigil.strip?_eq_some_iff.mp hs, PhysicalLine.size_append (Sigil.hasBreak_text _)]
    simp only [Option.map_some, PhysicalLine.ofText_flat (PhysicalLine.hasBreak_content rest)]
    split
    · rfl
    · exact tagBody_withStop _ _ _ _ _ _

variable {recognize : Recognizer Line} {refusal : Refusal}

theorem ReadsLine.offset_le (h : ReadsLine recognize)
    (hb : ∀ text refusal, recognize text = .refused refusal → refusal.offset ≤ text.length)
    (hr : recognize text = .refused refusal) :
    refusal.offset ≤ (PhysicalLine.ofText text).content.length := by
  rw [h text] at hr
  cases ho : recognize (PhysicalLine.ofText text).content with
  | absent => simp [ho, Outcome.withStop] at hr
  | matched line size => simp [ho, Outcome.withStop] at hr
  | refused found =>
    rw [ho] at hr
    obtain rfl := Outcome.refused.inj hr
    exact hb _ _ ho

theorem ReadsLine.mirrors (h : ReadsLine recognize)
    (hb : ∀ text refusal, recognize text = .refused refusal → refusal.offset ≤ text.length)
    (text : Text) :
    (recognize text).Mirrors Line.SameUpToBreaks text (recognize text.unifyBreaks) := by
  have hsize := Text.meets_size text
  have hcontent : (PhysicalLine.ofText text.unifyBreaks).content =
      (PhysicalLine.ofText text).content := by
    rw [PhysicalLine.ofText_unifyBreaks]
    rfl
  rw [h text, h text.unifyBreaks, hcontent]
  cases ho : recognize (PhysicalLine.ofText text).content with
  | absent => exact .absent
  | refused refusal => exact .refused (Text.meets_content (hb _ _ ho))
  | matched line size => exact .matched (.refl line) hsize

theorem prose_mirrors (text : Text) :
    (prose text).Mirrors Line.SameUpToBreaks text (prose text.unifyBreaks) := by
  cases ho : prose text with
  | absent =>
    obtain rfl := prose_eq_absent_iff.mp ho
    exact .absent
  | refused refusal => exact (prose_ne_refused text refusal ho).elim
  | matched line size =>
    obtain ⟨hk, hne, hs, rfl⟩ := prose_sound ho
    have hne' : text.unifyBreaks ≠ [] := by rwa [ne_eq, Text.unifyBreaks_eq_nil_iff]
    have htakes : TakesLine line text.unifyBreaks (PhysicalLine.ofText text.unifyBreaks).size := by
      refine ⟨?_, rfl⟩
      rw [PhysicalLine.ofText_unifyBreaks]
      exact hs
    rw [prose_complete hk hne' htakes]
    exact .matched (.refl line) (Text.meets_size text)

theorem blockComment_mirrors (text : Text) :
    (blockComment text).Mirrors Line.SameUpToBreaks text (blockComment text.unifyBreaks) := by
  unfold blockComment
  rw [Sigil.strip?_unifyBreaks]
  cases hs : Sigil.blockComment.strip? text with
  | none => exact .absent
  | some rest =>
    obtain rfl : text = '/' :: '*' :: rest := Sigil.strip?_eq_some_iff.mp hs
    simp only [Option.map_some, Mark.commentClose,
      Text.cut?_unifyBreaks (by decide : isBreak '*' = false) (by decide : isBreak '/' = false)
        (by decide)]
    cases hcut : Text.cut? ['*', '/'] rest with
    | none => exact .refused (Text.meets_zero _)
    | some parts =>
      obtain ⟨body, after⟩ := parts
      obtain ⟨rfl, -⟩ := Text.cut?_pair_sound hcut
      -- Where an offset behind the closing mark has its counterpart.
      have hmeets : ∀ {near far : Nat}, after.Meets near far →
          Text.Meets ('/' :: '*' :: (body ++ '*' :: '/' :: after)) (body.length + 4 + near)
            (body.unifyBreaks.length + 4 + far) := by
        intro near far hm
        exact @Text.Meets.enclosed _ _ _ ['/', '*'] ['*', '/'] rfl rfl (by decide) body hm
      simp only [Option.map_some, Text.hasBreak_unifyBreaks, PhysicalLine.isPadding_unifyBreaks]
      split
      · exact .refused (Text.meets_zero _)
      split
      · exact .refused (hmeets (Text.meets_run (by decide) after))
      · exact .matched (.blockComment (Text.lineContents_unifyBreaks body).symm)
          (hmeets (Text.meets_size after))

theorem tagBody_mirrors {name body behind : Text} {stop stop' : Nat}
    (hf : Text.Apart front (body ++ behind)) (hb : behind.head? ≠ some '\n')
    (hs : Text.Meets (front ++ (body ++ behind)) stop stop') :
    (tagBody .bracket name body.foldBreaks front.length stop).Mirrors Line.SameUpToBreaks
      (front ++ (body ++ behind))
      (tagBody .bracket name body.unifyBreaks.foldBreaks front.unifyBreaks.length stop') := by
  simp only [tagBody, atTokenEnd_foldBreaks, atTokenEnd_unifyBreaks]
  split
  · exact .refused (Text.meets_append hf)
  have hread := Parameters.read_mirrors body
  generalize Parameters.read body.foldBreaks = found at hread ⊢
  generalize Parameters.read body.unifyBreaks.foldBreaks = found' at hread ⊢
  cases hread with
  | ok h => exact .matched (.bracketTag h) hs
  | error hm => exact .refused ((hm.extend hb).append hf)

/-- A tag whose inside is `skipped`, a name and what follows the name. -/
theorem tagBody_mirrors_inside {skipped name body behind : Text} {stop stop' : Nat}
    (hn : name ≠ []) (hflat : name.hasBreak = false) (hb : behind.head? ≠ some '\n')
    (hs : Text.Meets ('[' :: (skipped ++ (name ++ body) ++ behind)) stop stop') :
    (tagBody .bracket name body.foldBreaks (1 + skipped.length + name.length) stop).Mirrors
      Line.SameUpToBreaks ('[' :: (skipped ++ (name ++ body) ++ behind))
      (tagBody .bracket name body.unifyBreaks.foldBreaks
        (1 + skipped.unifyBreaks.length + name.length) stop') := by
  have htext : '[' :: (skipped ++ (name ++ body) ++ behind) =
      '[' :: (skipped ++ name) ++ (body ++ behind) := by simp
  have hlength : ('[' :: (skipped ++ name)).length = 1 + skipped.length + name.length := by
    rw [List.length_cons, List.length_append]
    omega
  have hjoin : Text.Apart skipped (name ++ body) := Text.apart_before_flat hflat hn
  have hlength' : (Text.unifyBreaks ('[' :: (skipped ++ name))).length =
      1 + skipped.unifyBreaks.length + name.length := by
    rw [Text.unifyBreaks_cons (by decide), Text.unifyBreaks_append hjoin.of_append_right,
      Text.unifyBreaks_eq_self hflat, List.length_cons, List.length_append]
    omega
  have hapart : Text.Apart ('[' :: skipped ++ name) (body ++ behind) :=
    (Text.apart_before_flat hflat hn).append (Text.apart_of_flat hflat)
  rw [htext] at hs ⊢
  rw [← hlength, ← hlength']
  exact tagBody_mirrors hapart hb hs

/-- A bracket tag ends at its counterpart. -/
theorem bracketTag_stop_meets (inside after : Text) :
    Text.Meets ('[' :: (inside ++ Mark.bracketClose :: after))
      (inside.length + 2 +
        if (PhysicalLine.ofText after).isPadding then (PhysicalLine.ofText after).size else 0)
      (inside.unifyBreaks.length + 2 + if (PhysicalLine.ofText after.unifyBreaks).isPadding then
        (PhysicalLine.ofText after.unifyBreaks).size else 0) := by
  have hmeets : ∀ {near far : Nat}, after.Meets near far →
      Text.Meets ('[' :: (inside ++ Mark.bracketClose :: after)) (inside.length + 2 + near)
        (inside.unifyBreaks.length + 2 + far) := by
    intro near far hm
    exact @Text.Meets.enclosed _ _ _ ['['] [Mark.bracketClose] rfl rfl (by decide) inside hm
  rw [PhysicalLine.isPadding_unifyBreaks]
  split
  · exact hmeets (Text.meets_size after)
  · exact hmeets (Text.meets_zero after)

theorem bracketTag_mirrors (text : Text) :
    (bracketTag text).Mirrors Line.SameUpToBreaks text (bracketTag text.unifyBreaks) := by
  unfold bracketTag
  rw [Sigil.strip?_unifyBreaks]
  cases hs : Sigil.bracketTag.strip? text with
  | none => exact .absent
  | some rest =>
    obtain rfl : text = '[' :: rest := Sigil.strip?_eq_some_iff.mp hs
    have hclose : isBreak Mark.bracketClose = false := by decide
    simp only [Option.map_some, Text.cutAt?_unifyBreaks hclose]
    cases hcut : Text.cutAt? Mark.bracketClose rest with
    | none => exact .absent
    | some parts =>
      obtain ⟨inside, after⟩ := parts
      obtain ⟨rfl, -⟩ := Text.cutAt?_eq_some_iff.mp hcut
      have hbehind : (Mark.bracketClose :: after).head? ≠ some '\n' := by
        rw [List.head?_cons]
        decide
      -- The classes of characters by which the inside is taken apart treat breaks as spaces.
      have hend := bracketTag_stop_meets inside after
      have hunnamed := Text.takesBreaksAsSpaces_unnamed
      have hword := Text.takesBreaksAsSpaces_isIdentifierChar
      have hspace := Text.takesBreaksAsSpaces_isSpace
      simp only [Option.map_some, Text.isBlank_foldBreaks_unifyBreaks, Text.length_foldBreaks,
        hspace.takeWhile_foldBreaks, hunnamed.takeWhile_foldBreaks, hunnamed.dropWhile_foldBreaks,
        hunnamed.takeWhile_unifyBreaks, hunnamed.dropWhile_unifyBreaks, hword.takeWhile_foldBreaks,
        hword.dropWhile_foldBreaks, hword.takeWhile_unifyBreaks, hword.dropWhile_unifyBreaks]
      split
      · exact .refused (Text.meets_zero _)
      have hspaces : Text.Meets ('[' :: (inside ++ Mark.bracketClose :: after))
          (1 + (inside.takeWhile isSpace).length)
          (1 + (inside.unifyBreaks.takeWhile isSpace).length) := by
        rw [Nat.add_comm 1, Nat.add_comm 1]
        exact ((Text.meets_run hspace.cr_eq_lf inside).extend hbehind).cons (by decide)
      obtain ⟨hskip, -, hstop⟩ := Text.run_split (!isNameChar ·) inside
      generalize inside.takeWhile (!isNameChar ·) = skipped at hskip ⊢
      generalize inside.dropWhile (!isNameChar ·) = named at hskip hstop ⊢
      cases named with
      | nil => exact .refused hspaces
      | cons c tail =>
        have hc : isNameChar c = true := by simpa using hstop c (by simp)
        obtain ⟨hname, hchars, -⟩ := Text.run_split isIdentifierChar (c :: tail)
        have hflat : Text.hasBreak ((c :: tail).takeWhile isIdentifierChar) = false :=
          Text.hasBreak_of_unspaced fun d hd => isSpace_of_isIdentifierChar (hchars d hd)
        have hne : (c :: tail).takeWhile isIdentifierChar ≠ [] := by
          rw [List.takeWhile_cons, if_pos (isIdentifierChar_of_isNameChar hc)]
          exact List.cons_ne_nil _ _
        have hempty : (Text.foldBreaks (c :: tail)).isEmpty = false := rfl
        have hempty' : (Text.unifyBreaks (c :: tail)).foldBreaks.isEmpty = false := by
          rw [Text.unifyBreaks_of_not_isBreak (isBreak_of_not_isSpace
            (isSpace_of_isIdentifierChar (isIdentifierChar_of_isNameChar hc)))]
          rfl
        simp only [hempty, hempty', Bool.false_eq_true, if_false]
        generalize (c :: tail).takeWhile isIdentifierChar = name at hname hflat hne ⊢
        generalize (c :: tail).dropWhile isIdentifierChar = body at hname ⊢
        rw [hname] at hskip
        rw [Text.unifyBreaks_eq_self hflat, Text.foldBreaks_eq_self hflat]
        rw [hskip] at hend ⊢
        exact tagBody_mirrors_inside hne hflat hbehind hend

end Recognizer

end Playscript
