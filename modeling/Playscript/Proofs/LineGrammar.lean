import Mathlib.Data.List.DropRight
import Playscript.Proofs.FirstLine
import Playscript.Proofs.ParameterGrammar
import Playscript.Reading.Line

/-!
# The grammar of lines

Comments, cues, labels, line tags and prose take one physical line, and the content of that line
alone decides what they say. Block comments and bracket tags end where they are closed, or with the
line on which they are closed.
-/

namespace Playscript

theorem isSpace_of_isIdentifierChar {c : Char} (h : isIdentifierChar c) : isSpace c = false := by
  -- No space lies between the digit zero and the small z.
  have hrange : 48 ≤ c.toNat ∧ c.toNat ≤ 122 := by
    have halpha : c.isAlpha = (c.isUpper || c.isLower) := rfl
    have hupper : c.isUpper = decide (c.val ≥ 'A'.val ∧ c.val ≤ 'Z'.val) := rfl
    have hlower : c.isLower = (decide (c.val ≥ 'a'.val) && decide (c.val ≤ 'z'.val)) := rfl
    simp only [isIdentifierChar, Char.isAlphanum, halpha, hupper, hlower, Char.isDigit,
      Bool.or_eq_true, Bool.and_eq_true, decide_eq_true_eq, beq_iff_eq, ge_iff_le,
      UInt32.le_iff_toNat_le] at h
    rcases h with ((⟨h, k⟩ | ⟨h, k⟩) | ⟨h, k⟩) | rfl
    · exact ⟨Nat.le_trans (by decide) h, Nat.le_trans k (by decide)⟩
    · exact ⟨Nat.le_trans (by decide) h, Nat.le_trans k (by decide)⟩
    · exact ⟨Nat.le_trans (by decide) h, Nat.le_trans k (by decide)⟩
    · decide
  obtain ⟨hlow, hhigh⟩ := hrange
  simp only [isSpace, Bool.or_eq_false_iff, Bool.and_eq_false_iff, decide_eq_false_iff_not,
    beq_eq_false_iff_ne]
  omega

namespace Text

variable {text core name : Text}

theorem stopsRun_reverse : StopsRun isSpace core.reverse ↔ core.endsInSpace = false := by
  rw [StopsRun, List.head?_reverse, endsInSpace]
  cases core.getLast? with
  | none => simp
  | some c => simp

theorem trimRight_eq_iff : text.trimRight = core ↔
    ∃ space, text = core ++ space ∧ (∀ c ∈ space, isSpace c) ∧ core.endsInSpace = false := by
  constructor
  · rintro rfl
    have hsplit := List.takeWhile_append_dropWhile (p := isSpace) (l := text.reverse)
    refine ⟨(text.reverse.takeWhile isSpace).reverse, ?_, ?_, ?_⟩
    · rw [trimRight, ← List.reverse_append, hsplit, List.reverse_reverse]
    · intro c hc
      exact List.mem_takeWhile_imp (List.mem_reverse.mp hc)
    · rw [← stopsRun_reverse, trimRight, List.reverse_reverse]
      exact stopsRun_dropWhile isSpace text.reverse
  · rintro ⟨space, rfl, hspace, hcore⟩
    rw [trimRight, List.reverse_append,
      dropWhile_run (fun c hc => hspace c (List.mem_reverse.mp hc)) (stopsRun_reverse.mpr hcore),
      List.reverse_reverse]

theorem endsInSpace_append {tail : Text} (h : tail ≠ []) :
    (core ++ tail).endsInSpace = tail.endsInSpace := by
  rw [endsInSpace, endsInSpace, List.getLast?_append_of_ne_nil _ h]

theorem isName_iff : text.isName ↔ text ≠ [] ∧ ∀ c ∈ text, isNameChar c := by
  simp [isName]

theorem hasBreak_of_isIdentifierChar (h : ∀ c ∈ text, isIdentifierChar c) :
    text.hasBreak = false := by
  apply hasBreak_of_unspaced
  intro c hc
  exact isSpace_of_isIdentifierChar (h c hc)

theorem hasBreak_of_isName (h : name.isName) : name.hasBreak = false := by
  apply hasBreak_of_isIdentifierChar
  intro c hc
  exact isIdentifierChar_of_isNameChar ((isName_iff.mp h).2 c hc)

theorem hasBreak_of_isIdentifier (h : name.isIdentifier) : name.hasBreak = false := by
  cases name with
  | nil => rfl
  | cons c rest =>
    simp only [isIdentifier, Bool.and_eq_true, List.all_eq_true] at h
    apply hasBreak_of_isIdentifierChar
    intro d hd
    rcases List.mem_cons.mp hd with rfl | hd
    · exact isIdentifierChar_of_isNameChar h.1
    · exact h.2 d hd

end Text

namespace PhysicalLine

theorem ofText_cons {c : Char} (h : isBreak c = false) (rest : Text) :
    ofText (c :: rest) = ⟨c :: (ofText rest).content, (ofText rest).ending⟩ := by
  simp [ofText, h]

theorem size_cons {c : Char} (h : isBreak c = false) (rest : Text) :
    (ofText (c :: rest)).size = 1 + (ofText rest).size := by
  rw [ofText_cons h]
  simp only [size, List.length_cons]
  omega

theorem ofText_content_cons {c : Char} {text content : Text}
    (h : (ofText text).content = c :: content) :
    ∃ rest, text = c :: rest ∧ isBreak c = false ∧ (ofText rest).content = content := by
  cases text with
  | nil => simp [ofText] at h
  | cons d rest =>
    by_cases hd : isBreak d
    · simp [ofText, hd] at h
    · have hd : isBreak d = false := by simpa using hd
      rw [ofText_cons hd] at h
      obtain ⟨rfl, rfl⟩ := List.cons.inj h
      exact ⟨rest, rfl, hd, rfl⟩

end PhysicalLine

def Line.alternateText : Option Text → Text
  | none => []
  | some alternate => Mark.alternate :: alternate

def Line.emotionText : Option Text → Text
  | none => []
  | some emotion => Mark.emotion :: emotion

structure Text.IsCuePart (part : Text) : Prop where
  ne_nil : part ≠ []
  unmarked : Mark.emotion ∉ part

/-- The contents of physical lines that spell a line. Spaces may follow a cue, padding a label. -/
inductive Line.Spelling : Line → Text → Prop where
  | comment (body : Text) : Spelling (.comment body) (Sigil.comment.text ++ body)
  | narration {space : Text} (hs : ∀ c ∈ space, isSpace c) :
      Spelling .narration (Sigil.cue.text ++ space)
  | cue {name space : Text} {emotion : Option Text} (hn : name.IsCuePart)
      (he : ∀ e ∈ emotion, e.IsCuePart)
      (hl : (name ++ emotionText emotion).endsInSpace = false) (hs : ∀ c ∈ space, isSpace c) :
      Spelling (.cue name emotion) (Sigil.cue.text ++ (name ++ emotionText emotion ++ space))
  | label {name padding : Text} {alternate : Option Text} (hn : name.isName)
      (ha : ∀ a ∈ alternate, a.isName) (hp : ∀ c ∈ padding, isPadding c) :
      Spelling (.label name alternate)
        (Sigil.label.text ++ (name ++ (alternateText alternate ++ padding)))
  | tag {name body : Text} {parameters : Parameters} (hn : name.isName)
      (hb : Recognizer.atTokenEnd body) (hl : Entry.Listing parameters.entries body) :
      Spelling (.tag .line name parameters) (Sigil.lineTag.text ++ (name ++ body))
  | escaped (text : Text) : Spelling (.prose text) (Sigil.escape.text ++ text)
  | prose {content : Text} (h : Sigil.escape.strip? content = none) :
      Spelling (.prose content.trim) content

namespace Recognizer

variable {text : Text} {line : Line} {size : Nat}

theorem strip?_append (sigil : Sigil) (rest : Text) :
    sigil.strip? (sigil.text ++ rest) = some rest :=
  Sigil.strip?_eq_some_iff.mpr rfl

def TakesLine (line : Line) (text : Text) (size : Nat) : Prop :=
  line.Spelling (PhysicalLine.ofText text).content ∧ size = (PhysicalLine.ofText text).size

theorem takesLine_cons {c : Char} (h : isBreak c = false) {rest : Text}
    (hs : line.Spelling (c :: (PhysicalLine.ofText rest).content)) :
    TakesLine line (c :: rest) (1 + (PhysicalLine.ofText rest).size) := by
  refine ⟨?_, (PhysicalLine.size_cons h rest).symm⟩
  rw [PhysicalLine.ofText_cons h]
  exact hs

theorem comment_sound (h : comment text = .matched line size) :
    line.kind = .comment ∧ TakesLine line text size := by
  unfold comment at h
  split at h
  · cases h
  next rest hs =>
  obtain rfl : text = ';' :: rest := Sigil.strip?_eq_some_iff.mp hs
  obtain ⟨rfl, rfl⟩ := Outcome.matched.inj h
  exact ⟨rfl, takesLine_cons (by decide) (.comment _)⟩

theorem comment_complete (hk : line.kind = .comment) (h : TakesLine line text size) :
    comment text = .matched line size := by
  obtain ⟨hs, rfl⟩ := h
  generalize hc : (PhysicalLine.ofText text).content = content at hs
  cases hs with
  | comment body =>
    obtain ⟨rest, rfl, hb, rfl⟩ := PhysicalLine.ofText_content_cons hc
    simp [comment, Sigil.strip?, Sigil.text, Text.after?, PhysicalLine.size_cons hb]
  | _ => cases hk

theorem cue_sound (h : cue text = .matched line size) :
    (line.kind = .cue ∨ line.kind = .narration) ∧ TakesLine line text size := by
  unfold cue at h
  split at h
  · cases h
  next rest hs =>
  obtain rfl : text = '#' :: rest := Sigil.strip?_eq_some_iff.mp hs
  have hc : isBreak '#' = false := by decide
  obtain ⟨space, hcontent, hspace, hlast⟩ :=
    Text.trimRight_eq_iff.mp (rfl : (PhysicalLine.ofText rest).content.trimRight = _)
  dsimp only at h
  generalize (PhysicalLine.ofText rest).content.trimRight = core at h hcontent hlast
  split at h
  next hcore =>
    obtain ⟨rfl, rfl⟩ := Outcome.matched.inj h
    have hcore : core = [] := by simpa using hcore
    rw [hcore, List.nil_append] at hcontent
    exact ⟨Or.inr rfl, takesLine_cons hc (hcontent ▸ .narration hspace)⟩
  next hcore =>
  have hcore : core ≠ [] := by simpa using hcore
  split at h
  next hcut =>
    obtain ⟨rfl, rfl⟩ := Outcome.matched.inj h
    have hmark := Text.cutAt?_eq_none_iff.mp hcut
    refine ⟨Or.inl rfl, takesLine_cons hc ?_⟩
    rw [← List.append_nil core] at hlast hcontent
    rw [hcontent]
    exact @Line.Spelling.cue core space none ⟨hcore, hmark⟩ (by simp) hlast hspace
  next name emotion hcut =>
  obtain ⟨rfl, hname⟩ := Text.cutAt?_eq_some_iff.mp hcut
  split at h
  · cases h
  next hne =>
  split at h
  · cases h
  next hsecond =>
  split at h
  · cases h
  next hemotion =>
  obtain ⟨rfl, rfl⟩ := Outcome.matched.inj h
  refine ⟨Or.inl rfl, takesLine_cons hc ?_⟩
  rw [hcontent]
  refine .cue ⟨by simpa using hne, hname⟩ ?_ hlast hspace
  intro e he
  obtain rfl := Option.some.inj he
  exact ⟨by simpa using hemotion, Text.cutAt?_eq_none_iff.mp hsecond⟩

theorem cue_complete (hk : line.kind = .cue ∨ line.kind = .narration)
    (h : TakesLine line text size) : cue text = .matched line size := by
  obtain ⟨hs, rfl⟩ := h
  generalize hc : (PhysicalLine.ofText text).content = content at hs
  cases hs with
  | narration hspace =>
    obtain ⟨rest, rfl, hb, rfl⟩ := PhysicalLine.ofText_content_cons hc
    have htrim := Text.trimRight_eq_iff.mpr ⟨_, (List.nil_append _).symm, hspace, rfl⟩
    simp [cue, Sigil.strip?, Sigil.text, Text.after?, PhysicalLine.size_cons hb, htrim]
  | @cue name space emotion hn he hl hspace =>
    obtain ⟨rest, rfl, hb, hrest⟩ := PhysicalLine.ofText_content_cons hc
    have htrim : (PhysicalLine.ofText rest).content.trimRight =
        name ++ Line.emotionText emotion := Text.trimRight_eq_iff.mpr ⟨space, hrest, hspace, hl⟩
    cases emotion with
    | none =>
      rw [Line.emotionText, List.append_nil] at htrim
      have hcut := Text.cutAt?_eq_none_iff.mpr hn.unmarked
      simp [cue, Sigil.strip?, Sigil.text, Text.after?, PhysicalLine.size_cons hb, htrim,
        hn.ne_nil, hcut]
    | some emotion =>
      have hpart := he emotion rfl
      rw [Line.emotionText] at htrim
      have hcut : Text.cutAt? Mark.emotion (name ++ Mark.emotion :: emotion) =
          some (name, emotion) := Text.cutAt?_eq_some_iff.mpr ⟨rfl, hn.unmarked⟩
      have hnext := Text.cutAt?_eq_none_iff.mpr hpart.unmarked
      simp [cue, Sigil.strip?, Sigil.text, Text.after?, PhysicalLine.size_cons hb, htrim,
        hn.ne_nil, hcut, hnext, hpart.ne_nil]
  | _ => simp [Line.kind] at hk

theorem stopsRun_padding {padding : Text} (h : ∀ c ∈ padding, isPadding c) :
    Text.StopsRun isNameChar padding := by
  cases padding with
  | nil => exact Text.stopsRun_nil
  | cons c padding =>
    have hc := h c (by simp)
    simp only [isPadding, Bool.or_eq_true, beq_iff_eq] at hc
    rcases hc with rfl | rfl <;> exact Text.stopsRun_cons (by decide)

theorem label_sound (h : label text = .matched line size) :
    line.kind = .label ∧ TakesLine line text size := by
  unfold label at h
  split at h
  · cases h
  next rest hs =>
  obtain rfl : text = '*' :: rest := Sigil.strip?_eq_some_iff.mp hs
  have hc : isBreak '*' = false := by decide
  obtain ⟨hsplit, hchars, -⟩ := Text.run_split isNameChar (PhysicalLine.ofText rest).content
  dsimp only at h
  generalize (PhysicalLine.ofText rest).content.takeWhile isNameChar = name at h hsplit hchars
  generalize (PhysicalLine.ofText rest).content.dropWhile isNameChar = after at h hsplit
  split at h
  · cases h
  next hne =>
  have hname := Text.isName_iff.mpr ⟨by simpa using hne, hchars⟩
  split at h
  next hafter =>
    split at h
    next hpad =>
      obtain ⟨rfl, rfl⟩ := Outcome.matched.inj h
      refine ⟨rfl, takesLine_cons hc ?_⟩
      rw [hsplit]
      exact @Line.Spelling.label name after none hname (by simp) (List.all_eq_true.mp hpad)
    · cases h
  next rest' hafter =>
    obtain rfl := Text.after?_eq_some_iff.mp hafter
    obtain ⟨hsplit', hchars', -⟩ := Text.run_split isNameChar rest'
    generalize rest'.takeWhile isNameChar = alternate at h hsplit' hchars'
    generalize rest'.dropWhile isNameChar = padding at h hsplit'
    split at h
    · cases h
    next halt =>
    split at h
    next hpad =>
      obtain ⟨rfl, rfl⟩ := Outcome.matched.inj h
      refine ⟨rfl, takesLine_cons hc ?_⟩
      rw [hsplit, hsplit']
      refine @Line.Spelling.label name padding (some alternate) hname ?_ (List.all_eq_true.mp hpad)
      intro a ha
      obtain rfl := Option.some.inj ha
      exact Text.isName_iff.mpr ⟨by simpa using halt, hchars'⟩
    · cases h

theorem label_complete (hk : line.kind = .label) (h : TakesLine line text size) :
    label text = .matched line size := by
  obtain ⟨hs, rfl⟩ := h
  generalize hc : (PhysicalLine.ofText text).content = content at hs
  cases hs with
  | @label name padding alternate hn ha hp =>
    obtain ⟨rest, rfl, hb, hrest⟩ := PhysicalLine.ofText_content_cons hc
    obtain ⟨hne, hchars⟩ := Text.isName_iff.mp hn
    have hpad : padding.all isPadding = true := List.all_eq_true.mpr hp
    cases alternate with
    | none =>
      have hstop := stopsRun_padding hp
      have hafter : Text.after? [Mark.alternate] padding = none := by
        cases padding with
        | nil => rfl
        | cons c padding =>
          have hm : Mark.alternate ≠ c := by
            rintro rfl
            exact absurd (hp Mark.alternate (by simp)) (by decide)
          simp [Text.after?, hm]
      have hstrip := strip?_append .label rest
      rw [Line.alternateText, List.nil_append] at hrest
      change Sigil.label.strip? ('*' :: rest) = some rest at hstrip
      change label ('*' :: rest) = _
      simp [label, hstrip, PhysicalLine.size_cons hb, hrest, Text.takeWhile_run hchars hstop,
        Text.dropWhile_run hchars hstop, hne, hpad, hafter]
    | some alternate =>
      obtain ⟨hane, hachars⟩ := Text.isName_iff.mp (ha alternate rfl)
      have hstop : Text.StopsRun isNameChar (Mark.alternate :: (alternate ++ padding)) :=
        Text.stopsRun_cons (by decide)
      have hstop' := stopsRun_padding hp
      rw [Line.alternateText, List.cons_append] at hrest
      simp [label, Sigil.strip?, Sigil.text, Text.after?, PhysicalLine.size_cons hb, hrest,
        Text.takeWhile_run hchars hstop, Text.dropWhile_run hchars hstop, hne, hpad,
        Text.takeWhile_run hachars hstop', Text.dropWhile_run hachars hstop', hane]
  | _ => cases hk

variable {form : TagForm} {name body : Text} {offset stop : Nat}

theorem tagBody_sound (h : tagBody form name body offset stop = .matched line size) :
    atTokenEnd body ∧ ∃ parameters : Parameters, Entry.Listing parameters.entries body ∧
      line = .tag form name parameters ∧ size = stop := by
  unfold tagBody at h
  split at h
  · cases h
  next he =>
  split at h
  · cases h
  next parameters hr =>
  obtain ⟨rfl, rfl⟩ := Outcome.matched.inj h
  exact ⟨by simpa using he, parameters, Parameters.read_eq_ok_iff.mp hr, rfl, rfl⟩

theorem tagBody_complete {parameters : Parameters} (he : atTokenEnd body)
    (hl : Entry.Listing parameters.entries body) (form : TagForm) (name : Text)
    (offset stop : Nat) :
    tagBody form name body offset stop = .matched (.tag form name parameters) stop := by
  simp [tagBody, he, Parameters.read_eq_ok_iff.mpr hl]

theorem tagBody_refused {refusal : Refusal}
    (h : tagBody form name body offset stop = .refused refusal) :
    (refusal.fault.code = (Fault.textInTagName form).code ∨ refusal.fault.code = .parameter) ∧
      refusal.offset ≤ offset + body.length := by
  unfold tagBody at h
  split at h
  · obtain rfl := Outcome.refused.inj h
    exact ⟨Or.inl rfl, Nat.le_add_right _ _⟩
  split at h
  next inner hr =>
    obtain rfl := Outcome.refused.inj h
    obtain ⟨hcode, hoff⟩ := Parameters.read_refused hr
    exact ⟨Or.inr hcode, Nat.add_le_add_left hoff offset⟩
  · cases h

theorem lineTag_sound (h : lineTag text = .matched line size) :
    line.kind = .lineTag ∧ TakesLine line text size := by
  unfold lineTag at h
  split at h
  · cases h
  next rest hs =>
  obtain rfl : text = '@' :: rest := Sigil.strip?_eq_some_iff.mp hs
  obtain ⟨hsplit, hchars, -⟩ := Text.run_split isNameChar (PhysicalLine.ofText rest).content
  dsimp only at h
  generalize (PhysicalLine.ofText rest).content.takeWhile isNameChar = name at h hsplit hchars
  generalize (PhysicalLine.ofText rest).content.dropWhile isNameChar = body at h hsplit
  split at h
  · cases h
  next hne =>
  have hname := Text.isName_iff.mpr ⟨by simpa using hne, hchars⟩
  obtain ⟨he, parameters, hl, rfl, rfl⟩ := tagBody_sound h
  refine ⟨rfl, takesLine_cons (by decide) ?_⟩
  rw [hsplit]
  exact .tag hname he hl

theorem isIdentifierChar_of_isSpace {c : Char} (h : isSpace c) : isIdentifierChar c = false := by
  by_contra hn
  have hn : isIdentifierChar c = true := by simpa using hn
  rw [isSpace_of_isIdentifierChar hn] at h
  cases h

theorem isNameChar_of_isSpace {c : Char} (h : isSpace c) : isNameChar c = false := by
  by_contra hn
  have hn : isNameChar c = true := by simpa using hn
  rw [isSpace_of_isIdentifierChar (isIdentifierChar_of_isNameChar hn)] at h
  cases h

/-- Once the name is found, the rest of the line decides. -/
theorem lineTag_eq_tagBody {rest : Text} (hn : name.isName) (hs : Text.StopsRun isNameChar body)
    (hc : (PhysicalLine.ofText rest).content = name ++ body) :
    lineTag (Sigil.lineTag.text ++ rest) =
      tagBody .line name body (name.length + 1) (1 + (PhysicalLine.ofText rest).size) := by
  obtain ⟨hne, hchars⟩ := Text.isName_iff.mp hn
  simp [lineTag, strip?_append, hc, Text.takeWhile_run hchars hs, Text.dropWhile_run hchars hs, hne]

theorem lineTag_complete (hk : line.kind = .lineTag) (h : TakesLine line text size) :
    lineTag text = .matched line size := by
  obtain ⟨hs, rfl⟩ := h
  generalize hc : (PhysicalLine.ofText text).content = content at hs
  cases hs with
  | @tag name body parameters hn he hl =>
    obtain ⟨rest, rfl, hb, hrest⟩ := PhysicalLine.ofText_content_cons hc
    have hstop := stopsRun_tokenEnd (fun _ => isNameChar_of_isSpace) he
    rw [PhysicalLine.size_cons hb]
    exact (lineTag_eq_tagBody hn hstop hrest).trans (tagBody_complete he hl _ _ _ _)
  | _ => cases hk

theorem prose_sound (h : prose text = .matched line size) :
    line.kind = .prose ∧ text ≠ [] ∧ TakesLine line text size := by
  unfold prose at h
  split at h
  · cases h
  next hne =>
  have hne : text ≠ [] := by simpa using hne
  dsimp only at h
  split at h
  next kept hkept =>
    obtain ⟨rfl, rfl⟩ := Outcome.matched.inj h
    refine ⟨rfl, hne, ?_, rfl⟩
    rw [Sigil.strip?_eq_some_iff.mp hkept]
    exact .escaped kept
  next hkept =>
    obtain ⟨rfl, rfl⟩ := Outcome.matched.inj h
    exact ⟨rfl, hne, .prose hkept, rfl⟩

theorem prose_complete (hk : line.kind = .prose) (hne : text ≠ []) (h : TakesLine line text size) :
    prose text = .matched line size := by
  obtain ⟨hs, rfl⟩ := h
  generalize hc : (PhysicalLine.ofText text).content = content at hs
  cases hs with
  | escaped kept => simp [prose, hne, hc, strip?_append]
  | prose hkept => simp [prose, hne, hc, hkept]
  | _ => cases hk

/-- A block comment goes on to the end of the line on which it is closed for the first time. -/
theorem blockComment_eq_matched_iff : blockComment text = .matched line size ↔
    ∃ body after, text = Sigil.blockComment.text ++ (body ++ '*' :: '/' :: after) ∧
      Text.hasPiece Mark.commentClose body = false ∧ body.hasBreak ∧
      (PhysicalLine.ofText after).isPadding ∧ line = .blockComment body ∧
      size = body.length + 4 + (PhysicalLine.ofText after).size := by
  constructor
  · intro h
    unfold blockComment at h
    split at h
    · cases h
    next rest hs =>
    obtain rfl := Sigil.strip?_eq_some_iff.mp hs
    split at h
    · cases h
    next body after hcut =>
    obtain ⟨rfl, hbody⟩ := Text.cut?_pair_sound hcut
    dsimp only at h
    split at h
    · cases h
    next hbreak =>
    split at h
    · cases h
    next hpad =>
    obtain ⟨rfl, rfl⟩ := Outcome.matched.inj h
    exact ⟨body, after, rfl, hbody, by simpa using hbreak, by simpa using hpad, rfl, rfl⟩
  · rintro ⟨body, after, rfl, hbody, hbreak, hpad, rfl, rfl⟩
    have hcut : Text.cut? Mark.commentClose (body ++ '*' :: '/' :: after) = some (body, after) :=
      Text.cut?_pair_complete (by decide) hbody
    simp [blockComment, strip?_append, hcut, hbreak, hpad]

/-- Where a tag ends whose bracket closes after `inside`: with the line if only padding follows. -/
def tagStop (inside after : Text) : Nat :=
  inside.length + 2 +
    if (PhysicalLine.ofText after).isPadding then (PhysicalLine.ofText after).size else 0

theorem bracketTag_sound (h : bracketTag text = .matched line size) :
    ∃ inside after skipped name body, ∃ parameters : Parameters,
      text = Sigil.bracketTag.text ++ (inside ++ Mark.bracketClose :: after) ∧
      Mark.bracketClose ∉ inside ∧ inside.foldBreaks = skipped ++ (name ++ body) ∧
      (∀ c ∈ skipped, isNameChar c = false) ∧ name.isIdentifier ∧ atTokenEnd body ∧
      Entry.Listing parameters.entries body ∧ line = .tag .bracket name parameters ∧
      size = tagStop inside after := by
  unfold bracketTag at h
  split at h
  · cases h
  next rest hs =>
  obtain rfl := Sigil.strip?_eq_some_iff.mp hs
  split at h
  · cases h
  next inside after hcut =>
  obtain ⟨rfl, hinside⟩ := Text.cutAt?_eq_some_iff.mp hcut
  obtain ⟨hskip, hskipped, hstop⟩ := Text.run_split (!isNameChar ·) inside.foldBreaks
  dsimp only at h
  split at h
  · cases h
  split at h
  · cases h
  next hnamed =>
  generalize inside.foldBreaks.takeWhile (!isNameChar ·) = skipped at h hskip hskipped
  generalize inside.foldBreaks.dropWhile (!isNameChar ·) = named at h hskip hstop hnamed
  obtain ⟨c, tail, rfl⟩ := List.exists_cons_of_ne_nil (by simpa using hnamed : named ≠ [])
  have hc : isNameChar c = true := by simpa using hstop c (by simp)
  obtain ⟨hsplit, hchars, -⟩ := Text.run_split isIdentifierChar tail
  have hid := isIdentifierChar_of_isNameChar hc
  simp only [List.takeWhile_cons, List.dropWhile_cons, hid, if_true] at h
  obtain ⟨he, parameters, hl, rfl, rfl⟩ := tagBody_sound h
  refine ⟨inside, after, skipped, c :: tail.takeWhile isIdentifierChar, _, parameters, rfl,
    hinside, ?_, fun d hd => by simpa using hskipped d hd, ?_, he, hl, rfl, rfl⟩
  · rw [List.cons_append, ← hsplit, ← hskip]
  · rw [Text.isIdentifier, hc, Bool.true_and, List.all_eq_true]
    exact hchars

theorem bracketTag_eq_tagBody {inside after skipped : Text} (hinside : Mark.bracketClose ∉ inside)
    (hskip : inside.foldBreaks = skipped ++ (name ++ body))
    (hskipped : ∀ c ∈ skipped, isNameChar c = false) (hn : name.isIdentifier)
    (hs : Text.StopsRun isIdentifierChar body) :
    bracketTag (Sigil.bracketTag.text ++ (inside ++ Mark.bracketClose :: after)) =
      tagBody .bracket name body (1 + skipped.length + name.length) (tagStop inside after) := by
  have hcut : Text.cutAt? Mark.bracketClose (inside ++ Mark.bracketClose :: after) =
      some (inside, after) := Text.cutAt?_eq_some_iff.mpr ⟨rfl, hinside⟩
  cases name with
  | nil => cases hn
  | cons c tail =>
    simp only [Text.isIdentifier, Bool.and_eq_true, List.all_eq_true] at hn
    obtain ⟨hc, htail⟩ := hn
    have hid := isIdentifierChar_of_isNameChar hc
    have hspace := isSpace_of_isIdentifierChar hid
    have hskipped' : ∀ d ∈ skipped, (!isNameChar d) = true := fun d hd => by simp [hskipped d hd]
    have hstop : Text.StopsRun (!isNameChar ·) (c :: tail ++ body) :=
      Text.stopsRun_cons (by simp [hc])
    have hblank : Text.isBlank (skipped ++ (c :: tail ++ body)) = false := by
      simp [Text.isBlank, hspace]
    have hnamed : (c :: tail).all isIdentifierChar := by simpa [hid] using htail
    simp only [bracketTag, strip?_append, hcut, hskip, hblank, Text.takeWhile_run hskipped' hstop,
      Text.dropWhile_run hskipped' hstop, Text.takeWhile_run (List.all_eq_true.mp hnamed) hs,
      Text.dropWhile_run (List.all_eq_true.mp hnamed) hs]
    simp [tagStop]

theorem bracketTag_complete {inside after skipped name body : Text} {parameters : Parameters}
    (hinside : Mark.bracketClose ∉ inside) (hskip : inside.foldBreaks = skipped ++ (name ++ body))
    (hskipped : ∀ c ∈ skipped, isNameChar c = false) (hn : name.isIdentifier)
    (he : atTokenEnd body) (hl : Entry.Listing parameters.entries body) :
    bracketTag (Sigil.bracketTag.text ++ (inside ++ Mark.bracketClose :: after)) =
      .matched (.tag .bracket name parameters) (tagStop inside after) := by
  have hstop := stopsRun_tokenEnd (fun _ => isIdentifierChar_of_isSpace) he
  rw [bracketTag_eq_tagBody hinside hskip hskipped hn hstop, tagBody_complete he hl]

end Recognizer

end Playscript
