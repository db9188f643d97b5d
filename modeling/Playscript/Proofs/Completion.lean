import Playscript.Proofs.ParameterFaults
import Playscript.Proofs.Segment

/-!
# Completing what was refused

What a rule has seen of a construct when it refuses it can be completed: some text after the place
of the refusal makes a line of it. So the text before an error is always the beginning of a source
that can be read, and the lines before the error are the first lines of that source.
-/

namespace Playscript

variable {text body before more : Text} {line : Line} {refusal : Refusal}

/-- `body` follows the name of a tag that begins the text, at an offset in it. Between brackets line
breaks count as spaces. -/
inductive Text.HasTagBody : Text → Text → Nat → Prop where
  | line {text name body : Text}
      (hc : (PhysicalLine.ofText text).content = Sigil.lineTag.text ++ (name ++ body))
      (hn : name.isName) (he : Recognizer.atTokenEnd body) :
      HasTagBody text body (name.length + 1)
  | bracket {inside after skipped name body : Text} (hc : Mark.bracketClose ∉ inside)
      (hf : inside.foldBreaks = skipped ++ (name ++ body))
      (hs : ∀ c ∈ skipped, isNameChar c = false) (hn : name.isIdentifier)
      (he : Recognizer.atTokenEnd body) :
      HasTagBody (Recognizer.bracketed inside ++ after) body (1 + skipped.length + name.length)

/-- The construct that begins the text is a tag, and is refused at a malformed parameter whose key
the tag has given before. -/
def Refusal.RepeatsKey (refusal : Refusal) (text : Text) : Prop :=
  ∃ (body : Text) (offset : Nat) (inner : Refusal), text.HasTagBody body offset ∧
    refusal = inner.shift offset ∧ inner.RepeatsKeyIn body

namespace Recognizer

def CompletesAt (recognize : Recognizer Line) (text : Text) (offset : Nat) (more : Text) : Prop :=
  ∃ line, recognize (text.take offset ++ more) =
    .matched line (text.take offset ++ more).length

theorem takesLine_flat (hs : line.Spelling text) (hf : text.hasBreak = false) :
    TakesLine line text text.length := by
  rw [TakesLine, PhysicalLine.ofText_flat hf]
  exact ⟨hs, rfl⟩

theorem takesLine_completed {rest : Text} (hc : (PhysicalLine.ofText text).content = before ++ rest)
    (hs : line.Spelling (before ++ more)) (hf : more.hasBreak = false) :
    TakesLine line (text.take before.length ++ more) (text.take before.length ++ more).length := by
  have hflat := PhysicalLine.hasBreak_content text
  have hle : before.length ≤ (PhysicalLine.ofText text).content.length := by
    rw [hc, List.length_append]
    omega
  rw [hc, Text.hasBreak_append, Bool.or_eq_false_iff] at hflat
  rw [PhysicalLine.take_content hle, hc, List.take_left]
  exact takesLine_flat hs (by rw [Text.hasBreak_append, hflat.1, hf]; rfl)

/-- A rule that takes one line, and so makes one of a beginning of the line and what is missing. -/
theorem completesAt_of_spelling {recognize : Recognizer Line} {rest : Text} {offset : Nat}
    (hl : ∀ {written : Text} {size : Nat}, TakesLine line written size →
      recognize written = .matched line size)
    (hc : (PhysicalLine.ofText text).content = before ++ rest) (ho : offset = before.length)
    (hs : line.Spelling (before ++ more)) (hf : more.hasBreak = false) :
    CompletesAt recognize text offset more := by
  subst ho
  exact ⟨line, hl (takesLine_completed hc hs hf)⟩

/-- Nothing is missing where a line has been read. -/
theorem completesAt_of_spelled {recognize : Recognizer Line} {rest : Text} {offset : Nat}
    (hl : ∀ {written : Text} {size : Nat}, TakesLine line written size →
      recognize written = .matched line size)
    (hc : (PhysicalLine.ofText text).content = before ++ rest) (ho : offset = before.length)
    (hs : line.Spelling before) : CompletesAt recognize text offset [] := by
  rw [← List.append_nil before] at hs
  exact completesAt_of_spelling hl hc ho hs rfl

theorem content_cons {c : Char} (h : isBreak c = false) (rest : Text) :
    (PhysicalLine.ofText (c :: rest)).content = c :: (PhysicalLine.ofText rest).content := by
  rw [PhysicalLine.ofText_cons h]

theorem spelling_cue_x {name first : Text} (hn : name.IsCuePart) (hf : Mark.emotion ∉ first) :
    Line.Spelling (.cue name (some (first ++ ['x'])))
      ('#' :: (name ++ Mark.emotion :: first) ++ ['x']) := by
  have hpart : Text.IsCuePart (first ++ ['x']) := by
    refine ⟨by simp, ?_⟩
    rw [List.mem_append, not_or]
    exact ⟨hf, by decide⟩
  have hlast : (name ++ Line.emotionText (some (first ++ ['x']))).endsInSpace = false := by
    rw [Line.emotionText, Text.endsInSpace_append (List.cons_ne_nil _ _), ← List.cons_append,
      Text.endsInSpace_append (List.cons_ne_nil _ _)]
    decide
  have hs := @Line.Spelling.cue name [] (some (first ++ ['x'])) hn
    (by intro e he; rw [← Option.some.inj he]; exact hpart) hlast (by simp)
  simpa [Sigil.text, Line.emotionText] using hs

/-- Nothing is missing from narration, and an emotion from any other cue that is refused. -/
theorem cue_completesAt (h : cue text = .refused refusal) :
    ∃ more, Mark.bracketClose ∉ more ∧ CompletesAt cue text refusal.offset more := by
  unfold cue at h
  split at h
  · cases h
  next rest hs =>
  obtain rfl : text = '#' :: rest := Sigil.strip?_eq_some_iff.mp hs
  have hcontent := content_cons (by decide : isBreak '#' = false) rest
  obtain ⟨space, hcore, -⟩ :=
    Text.trimRight_eq_iff.mp (rfl : (PhysicalLine.ofText rest).content.trimRight = _)
  dsimp only at h
  generalize (PhysicalLine.ofText rest).content.trimRight = core at h hcore
  split at h
  · cases h
  split at h
  · cases h
  next name emotion hcut =>
  obtain ⟨rfl, hname⟩ := Text.cutAt?_eq_some_iff.mp hcut
  split at h
  · obtain rfl := Outcome.refused.inj h
    have hs : Line.Spelling .narration ['#'] := @Line.Spelling.narration [] (by simp)
    exact ⟨[], by simp, completesAt_of_spelled (cue_complete (Or.inr rfl)) hcontent rfl hs⟩
  next hne =>
  have hpart : name.IsCuePart := ⟨by simpa using hne, hname⟩
  -- Both other faults come behind the mark and the emotion that was read.
  have hx : ∀ first later, emotion = first ++ later → Mark.emotion ∉ first →
      CompletesAt cue ('#' :: rest) (name.length + 2 + first.length) ['x'] := by
    intro first later he hfirst
    have hbefore : (PhysicalLine.ofText ('#' :: rest)).content =
        '#' :: (name ++ Mark.emotion :: first) ++ (later ++ space) := by
      rw [hcontent, hcore, he]
      simp
    have hlength : name.length + 2 + first.length =
        ('#' :: (name ++ Mark.emotion :: first)).length := by
      simp only [List.length_cons, List.length_append]
      omega
    exact completesAt_of_spelling (cue_complete (Or.inl rfl)) hbefore hlength
      (spelling_cue_x hpart hfirst) (by decide)
  split at h
  next first second hsecond =>
    obtain ⟨he, hfirst⟩ := Text.cutAt?_eq_some_iff.mp hsecond
    obtain rfl := Outcome.refused.inj h
    exact ⟨['x'], by decide, hx first _ he hfirst⟩
  split at h
  · obtain rfl := Outcome.refused.inj h
    exact ⟨['x'], by decide, hx [] emotion rfl (by simp)⟩
  · cases h

theorem spelling_label {name : Text} (hn : name.isName) :
    Line.Spelling (.label name none) ('*' :: name) := by
  have hs := @Line.Spelling.label name [] none hn (by simp) (by simp)
  simpa [Sigil.text, Line.alternateText] using hs

theorem spelling_label_alternate {name alternate : Text} (hn : name.isName)
    (ha : alternate.isName) :
    Line.Spelling (.label name (some alternate))
      ('*' :: (name ++ Mark.alternate :: alternate)) := by
  have hs := @Line.Spelling.label name [] (some alternate) hn
    (by intro a he; rw [← Option.some.inj he]; exact ha) (by simp)
  simpa [Sigil.text, Line.alternateText] using hs

/-- A label is refused where a name is missing, or behind what is a label already. -/
theorem label_completesAt (h : label text = .refused refusal) :
    ∃ more, Mark.bracketClose ∉ more ∧ CompletesAt label text refusal.offset more := by
  unfold label at h
  split at h
  · cases h
  next rest hs =>
  obtain rfl : text = '*' :: rest := Sigil.strip?_eq_some_iff.mp hs
  have hcontent := content_cons (by decide : isBreak '*' = false) rest
  obtain ⟨hsplit, hchars, -⟩ := Text.run_split isNameChar (PhysicalLine.ofText rest).content
  dsimp only at h
  generalize (PhysicalLine.ofText rest).content.takeWhile isNameChar = name at h hsplit hchars
  generalize (PhysicalLine.ofText rest).content.dropWhile isNameChar = after at h hsplit
  rw [hsplit] at hcontent
  split at h
  · obtain rfl := Outcome.refused.inj h
    have hs : Line.Spelling (.label ['a'] none) (['*'] ++ ['a']) := spelling_label (by decide)
    exact ⟨['a'], by decide,
      completesAt_of_spelling (label_complete rfl) hcontent rfl hs (by decide)⟩
  next hne =>
  have hname := Text.isName_iff.mpr ⟨by simpa using hne, hchars⟩
  split at h
  · split at h
    · cases h
    · obtain rfl := Outcome.refused.inj h
      exact ⟨[], by simp,
        completesAt_of_spelled (label_complete rfl) hcontent rfl (spelling_label hname)⟩
  next rest' hafter =>
    obtain rfl := Text.after?_eq_some_iff.mp hafter
    obtain ⟨hsplit', hchars', -⟩ := Text.run_split isNameChar rest'
    generalize rest'.takeWhile isNameChar = alternate at h hsplit' hchars'
    generalize rest'.dropWhile isNameChar = padding at h hsplit'
    have hbefore : (PhysicalLine.ofText ('*' :: rest)).content =
        '*' :: (name ++ Mark.alternate :: alternate) ++ padding := by
      rw [hcontent, hsplit']
      simp
    have hlength : name.length + 2 + alternate.length =
        ('*' :: (name ++ Mark.alternate :: alternate)).length := by
      simp only [List.length_cons, List.length_append]
      omega
    split at h
    next hempty =>
      obtain rfl := Outcome.refused.inj h
      obtain rfl : alternate = [] := by simpa using hempty
      have hs : Line.Spelling (.label name (some ['a']))
          ('*' :: (name ++ [Mark.alternate]) ++ ['a']) := by
        have hs := spelling_label_alternate hname (by decide : Text.isName ['a'])
        simpa using hs
      exact ⟨['a'], by decide,
        completesAt_of_spelling (label_complete rfl) hbefore hlength hs (by decide)⟩
    next halternate =>
    split at h
    · cases h
    · obtain rfl := Outcome.refused.inj h
      have hs := spelling_label_alternate hname
        (Text.isName_iff.mpr ⟨by simpa using halternate, hchars'⟩)
      exact ⟨[], by simp, completesAt_of_spelled (label_complete rfl) hbefore hlength hs⟩

/-- The parameters of a tag can be completed from where they are refused. Nothing is missing where
the name runs into other characters. -/
theorem tagBody_completed {form : TagForm} {name : Text} {offset stop : Nat}
    (h : tagBody form name body offset stop = .refused refusal)
    (hr : atTokenEnd body → ∀ inner : Refusal, refusal = inner.shift offset →
      ¬ inner.RepeatsKeyIn body) :
    ∃ (count : Nat) (parameters : Parameters) (more : Text), refusal.offset = offset + count ∧
      count ≤ body.length ∧ (more = [] ∨ more = ['x']) ∧
      Entry.Listing parameters.entries (body.take count ++ more) ∧
      atTokenEnd (body.take count ++ more) := by
  unfold tagBody at h
  split at h
  · obtain rfl := Outcome.refused.inj h
    exact ⟨0, .empty, [], rfl, Nat.zero_le _, Or.inl rfl, .nil (by simp), rfl⟩
  next he =>
  split at h
  next inner hread =>
    obtain rfl := Outcome.refused.inj h
    have hend : atTokenEnd body := by simpa using he
    obtain ⟨parameters, more, hmore, hlist, hend'⟩ :=
      Parameters.read_refused_completed hread hend (hr hend inner rfl)
    exact ⟨inner.offset, parameters, more, rfl, (Parameters.read_refused hread).2, hmore, hlist,
      hend'⟩
  · cases h

theorem flat_of_completing (h : more = [] ∨ more = ['x']) :
    more.hasBreak = false ∧ Mark.bracketClose ∉ more := by
  rcases h with rfl | rfl
  · exact ⟨rfl, by simp⟩
  · exact ⟨by decide, by decide⟩

theorem lineTag_completesAt (h : lineTag text = .refused refusal) (hr : ¬ refusal.RepeatsKey text) :
    ∃ more, Mark.bracketClose ∉ more ∧ CompletesAt lineTag text refusal.offset more := by
  unfold lineTag at h
  split at h
  · cases h
  next rest hs =>
  obtain rfl : text = '@' :: rest := Sigil.strip?_eq_some_iff.mp hs
  have hcontent := content_cons (by decide : isBreak '@' = false) rest
  obtain ⟨hsplit, hchars, -⟩ := Text.run_split isNameChar (PhysicalLine.ofText rest).content
  dsimp only at h
  generalize (PhysicalLine.ofText rest).content.takeWhile isNameChar = name at h hsplit hchars
  generalize (PhysicalLine.ofText rest).content.dropWhile isNameChar = body at h hsplit
  rw [hsplit] at hcontent
  split at h
  · obtain rfl := Outcome.refused.inj h
    have hs : Line.Spelling (.tag .line ['a'] .empty) (['@'] ++ ['a']) :=
      @Line.Spelling.tag ['a'] [] .empty (by decide) rfl (.nil (by simp))
    exact ⟨['a'], by decide,
      completesAt_of_spelling (lineTag_complete rfl) hcontent rfl hs (by decide)⟩
  next hne =>
  have hname := Text.isName_iff.mpr ⟨by simpa using hne, hchars⟩
  obtain ⟨count, parameters, more, hoff, hcount, hmore, hlist, hend⟩ :=
    tagBody_completed h fun he inner hinner hrepeats =>
      hr ⟨body, _, inner, .line hcontent hname he, hinner, hrepeats⟩
  obtain ⟨hflat, hclose⟩ := flat_of_completing hmore
  have hbefore : (PhysicalLine.ofText ('@' :: rest)).content =
      '@' :: (name ++ body.take count) ++ body.drop count := by
    rw [hcontent]
    simp
  have hlength : name.length + 1 + count = ('@' :: (name ++ body.take count)).length := by
    rw [List.length_cons, List.length_append, List.length_take, Nat.min_eq_left hcount]
    omega
  have hs : Line.Spelling (.tag .line name parameters)
      ('@' :: (name ++ body.take count) ++ more) := by
    have hs := Line.Spelling.tag hname hend hlist
    simpa [Sigil.text] using hs
  exact ⟨more, hclose,
    completesAt_of_spelling (lineTag_complete rfl) hbefore (hoff.trans hlength) hs hflat⟩

theorem hasBreak_of_isPadding (h : ∀ c ∈ text, isPadding c) : text.hasBreak = false := by
  rw [Text.hasBreak_eq_false_iff]
  intro c hc
  have hpad := h c hc
  simp only [isPadding, Bool.or_eq_true, beq_iff_eq] at hpad
  rcases hpad with rfl | rfl
  · decide
  · decide

theorem blockComment_completesAt (h : blockComment text = .refused refusal) :
    refusal.offset = 0 ∨ CompletesAt blockComment text refusal.offset [] := by
  unfold blockComment at h
  split at h
  · cases h
  next rest hs =>
  obtain rfl := Sigil.strip?_eq_some_iff.mp hs
  split at h
  · obtain rfl := Outcome.refused.inj h
    exact Or.inl rfl
  next body after hcut =>
  obtain ⟨rfl, hpiece⟩ := Text.cut?_pair_sound hcut
  dsimp only at h
  split at h
  · obtain rfl := Outcome.refused.inj h
    exact Or.inl rfl
  next hbreak =>
  split at h
  · obtain rfl := Outcome.refused.inj h
    obtain ⟨hsplit, hpad, -⟩ := Text.run_split isPadding after
    generalize after.takeWhile isPadding = padding at hsplit hpad ⊢
    generalize after.dropWhile isPadding = shown at hsplit
    subst hsplit
    have htext : Sigil.blockComment.text ++ (body ++ '*' :: '/' :: (padding ++ shown)) =
        Sigil.blockComment.text ++ (body ++ '*' :: '/' :: padding) ++ shown := by simp
    have hlength : (Sigil.blockComment.text ++ (body ++ '*' :: '/' :: padding)).length =
        body.length + 4 + padding.length := by
      simp only [Sigil.text, List.length_append, List.length_cons, List.length_nil]
      omega
    have hline := PhysicalLine.ofText_flat (hasBreak_of_isPadding hpad)
    right
    rw [CompletesAt, htext, List.take_left' hlength, List.append_nil, hlength]
    refine ⟨_, blockComment_eq_matched_iff.mpr ⟨body, padding, rfl, hpiece, by simpa using hbreak,
      ?_, rfl, ?_⟩⟩
    · rw [hline]
      exact List.all_eq_true.mpr hpad
    · rw [hline]
      rfl
  · cases h

theorem bracketTag_completesAt_of_inside {inside name : Text} {parameters : Parameters}
    {count : Nat} (hc : count ≤ inside.length)
    (hi : TagInside name parameters (inside.take count ++ more)) (after : Text) :
    CompletesAt bracketTag (bracketed inside ++ after) (1 + count)
      (more ++ [Mark.bracketClose]) := by
  have htake : (bracketed inside ++ after).take (1 + count) ++ (more ++ [Mark.bracketClose]) =
      bracketed (inside.take count ++ more) ++ [] := by
    have hsplit : bracketed inside ++ after = '[' :: (inside ++ Mark.bracketClose :: after) :=
      bracketed_append inside after
    rw [hsplit, Nat.add_comm, List.take_succ_cons, List.take_append_of_le_length hc]
    simp [bracketed, Sigil.text]
  rw [CompletesAt, htake]
  refine ⟨_, bracketTag_eq_matched_iff.mpr ⟨_, [], name, parameters, rfl, hi, rfl, ?_⟩⟩
  rw [tagStop_of_joins (.atEnd rfl : Text.Joins _ [] []), List.append_nil]

theorem foldBreaks_take_append {inside : Text} {count : Nat} (hf : more.hasBreak = false) :
    Text.foldBreaks (inside.take count ++ more) = inside.foldBreaks.take count ++ more := by
  rw [Text.foldBreaks_append, Text.foldBreaks_take, Text.foldBreaks_eq_self hf]

theorem bracketClose_notMem_take {inside : Text} {count : Nat} (hi : Mark.bracketClose ∉ inside)
    (hm : Mark.bracketClose ∉ more) : Mark.bracketClose ∉ inside.take count ++ more := by
  intro h
  rcases List.mem_append.mp h with h | h
  · exact hi (List.mem_of_mem_take h)
  · exact hm h

theorem bracketTag_completesAt_nameless {inside : Text} (hi : Mark.bracketClose ∉ inside)
    (after : Text) : CompletesAt bracketTag (bracketed inside ++ after)
      (1 + (inside.foldBreaks.takeWhile isSpace).length) (['a'] ++ [Mark.bracketClose]) := by
  have hcount := (List.takeWhile_sublist (p := isSpace) (l := inside.foldBreaks)).length_le
  rw [Text.length_foldBreaks] at hcount
  have hblank := List.prefix_iff_eq_take.mp (List.takeWhile_prefix (l := inside.foldBreaks) isSpace)
  have hspaces : ∀ c ∈ inside.foldBreaks.takeWhile isSpace, isNameChar c = false :=
    fun c hc => isNameChar_of_isSpace (List.mem_takeWhile_imp hc)
  have htag : TagInside ['a'] .empty
      (inside.take (inside.foldBreaks.takeWhile isSpace).length ++ ['a']) := by
    refine @TagInside.intro _ _ ['a'] [] .empty (bracketClose_notMem_take hi (by decide)) ?_
      hspaces (by decide) rfl (.nil (by simp))
    rw [foldBreaks_take_append (by decide), ← hblank, List.append_nil]
  exact bracketTag_completesAt_of_inside hcount htag after

theorem bracketTag_completesAt_parameters {inside after skipped name : Text} {stop : Nat}
    (hi : Mark.bracketClose ∉ inside) (hf : inside.foldBreaks = skipped ++ (name ++ body))
    (hs : ∀ c ∈ skipped, isNameChar c = false) (hn : name.isIdentifier)
    (h : tagBody .bracket name body (1 + skipped.length + name.length) stop = .refused refusal)
    (hr : ¬ refusal.RepeatsKey (bracketed inside ++ after)) :
    ∃ more, CompletesAt bracketTag (bracketed inside ++ after) refusal.offset more := by
  obtain ⟨count, parameters, more, hoff, hcount, hmore, hlist, hend⟩ :=
    tagBody_completed h fun he inner hinner hrepeats =>
      hr ⟨body, _, inner, .bracket hi hf hs hn he, hinner, hrepeats⟩
  obtain ⟨hflat, hclose⟩ := flat_of_completing hmore
  have hinside : skipped.length + (name.length + count) ≤ inside.length := by
    rw [← Text.length_foldBreaks inside, hf, List.length_append, List.length_append]
    omega
  have htake : inside.foldBreaks.take (skipped.length + (name.length + count)) =
      skipped ++ (name ++ body.take count) := by
    rw [hf, List.take_length_add_append, List.take_length_add_append]
  have htag : TagInside name parameters
      (inside.take (skipped.length + (name.length + count)) ++ more) := by
    refine .intro (bracketClose_notMem_take hi hclose) ?_ hs hn hend hlist
    rw [foldBreaks_take_append hflat, htake]
    simp
  refine ⟨more ++ [Mark.bracketClose], ?_⟩
  rw [hoff, Nat.add_assoc, Nat.add_assoc]
  exact bracketTag_completesAt_of_inside hinside htag after

theorem bracketTag_completesAt (h : bracketTag text = .refused refusal)
    (hr : ¬ refusal.RepeatsKey text) :
    refusal.offset = 0 ∨ ∃ more, CompletesAt bracketTag text refusal.offset more := by
  unfold bracketTag at h
  split at h
  · cases h
  next rest hs =>
  obtain rfl := Sigil.strip?_eq_some_iff.mp hs
  split at h
  · cases h
  next inside after hcut =>
  obtain ⟨rfl, hclose⟩ := Text.cutAt?_eq_some_iff.mp hcut
  rw [← bracketed_append] at hr ⊢
  obtain ⟨hskip, hskipped, hstop⟩ := Text.run_split (!isNameChar ·) inside.foldBreaks
  dsimp only at h
  split at h
  · obtain rfl := Outcome.refused.inj h
    exact Or.inl rfl
  right
  split at h
  · obtain rfl := Outcome.refused.inj h
    exact ⟨_, bracketTag_completesAt_nameless hclose after⟩
  next hnamed =>
  generalize inside.foldBreaks.takeWhile (!isNameChar ·) = skipped at h hskip hskipped
  generalize inside.foldBreaks.dropWhile (!isNameChar ·) = named at h hskip hstop hnamed
  obtain ⟨c, tail, rfl⟩ := List.exists_cons_of_ne_nil (by simpa using hnamed : named ≠ [])
  have hc : isNameChar c = true := by simpa using hstop c (by simp)
  obtain ⟨hsplit, hchars, -⟩ := Text.run_split isIdentifierChar tail
  have hid := isIdentifierChar_of_isNameChar hc
  simp only [List.takeWhile_cons, List.dropWhile_cons, hid, if_true] at h
  generalize tail.takeWhile isIdentifierChar = later at h hsplit hchars
  generalize tail.dropWhile isIdentifierChar = body at h hsplit
  subst hsplit
  have hskipped' : ∀ d ∈ skipped, isNameChar d = false := fun d hd => by simpa using hskipped d hd
  have hname : Text.isIdentifier (c :: later) := by
    rw [Text.isIdentifier, hc, Bool.true_and, List.all_eq_true]
    exact hchars
  rw [← List.cons_append] at hskip
  exact bracketTag_completesAt_parameters hclose hskip hskipped' hname h hr

end Recognizer

namespace Step

theorem ofRules_of_completesAt {opening : Opening} {offset : Nat} (hp : opening ≠ .prose)
    (h : Recognizer.CompletesAt opening.rule.recognize text offset more) :
    ∃ step, ofRules Rule.standard (text.take offset ++ more) = .ok step ∧
      step.size = (text.take offset ++ more).length := by
  obtain ⟨line, hm⟩ := h
  exact ⟨⟨line, _, (Opening.isCut hm).pos⟩,
    ofRules_of_matched (Opening.recognize_of_matched opening hp hm), rfl⟩

/-- A construct that is refused can be completed from there. Only a closed bracket needs another. -/
theorem ofRules_completed (hne : text ≠ []) (h : ofRules Rule.standard text = .error refusal)
    (hr : ¬ refusal.RepeatsKey text) :
    refusal.offset = 0 ∨ ∃ more step,
      ofRules Rule.standard (text.take refusal.offset ++ more) = .ok step ∧
      step.size = (text.take refusal.offset ++ more).length ∧
      (Mark.bracketClose ∈ more → Mark.bracketClose ∈ text) := by
  have hfound := recognize_of_error hne h
  cases ho : Opening.ofText text with
  | comment =>
    rw [ho] at hfound
    exact (Recognizer.comment_ne_refused text refusal hfound).elim
  | blockComment =>
    rw [ho] at hfound
    rcases Recognizer.blockComment_completesAt hfound with hzero | hc
    · exact Or.inl hzero
    · obtain ⟨step, hs, hsize⟩ := @ofRules_of_completesAt _ _ .blockComment _ (by decide) hc
      exact Or.inr ⟨[], step, hs, hsize, by simp⟩
  | bracketTag =>
    rw [ho] at hfound
    rcases Recognizer.bracketTag_completesAt hfound hr with hzero | ⟨more, hc⟩
    · exact Or.inl hzero
    · obtain ⟨step, hs, hsize⟩ := @ofRules_of_completesAt _ _ .bracketTag _ (by decide) hc
      obtain ⟨inside, htext, hclose⟩ := Opening.ofText_eq_bracketTag_iff.mp ho
      rw [htext] at hs hsize ⊢
      exact Or.inr ⟨more, step, hs, hsize, fun _ => List.mem_append_right _ hclose⟩
  | label =>
    rw [ho] at hfound
    obtain ⟨more, hm, hc⟩ := Recognizer.label_completesAt hfound
    obtain ⟨step, hs, hsize⟩ := @ofRules_of_completesAt _ _ .label _ (by decide) hc
    exact Or.inr ⟨more, step, hs, hsize, fun hmem => (hm hmem).elim⟩
  | cue =>
    rw [ho] at hfound
    obtain ⟨more, hm, hc⟩ := Recognizer.cue_completesAt hfound
    obtain ⟨step, hs, hsize⟩ := @ofRules_of_completesAt _ _ .cue _ (by decide) hc
    exact Or.inr ⟨more, step, hs, hsize, fun hmem => (hm hmem).elim⟩
  | lineTag =>
    rw [ho] at hfound
    obtain ⟨more, hm, hc⟩ := Recognizer.lineTag_completesAt hfound hr
    obtain ⟨step, hs, hsize⟩ := @ofRules_of_completesAt _ _ .lineTag _ (by decide) hc
    exact Or.inr ⟨more, step, hs, hsize, fun hmem => (hm hmem).elim⟩
  | prose =>
    rw [ho] at hfound
    exact (Recognizer.prose_ne_refused text refusal hfound).elim

theorem exists_head_of_error (hne : text ≠ []) (h : ofRules Rule.standard text = .error refusal) :
    ∃ c tail, text = c :: tail ∧ isBreak c = false ∧ isPadding c = false := by
  apply Opening.exists_head
  intro hp
  have hfound := recognize_of_error hne h
  rw [hp] at hfound
  exact Recognizer.prose_ne_refused text refusal hfound

end Step

namespace Segment

variable {front rest : Text} {lines : List (Located Line)} {offset : Nat}

/-- The segment before what is refused stays when that is completed. -/
theorem completed (h : Segment offset front rest lines) (hne : rest ≠ [])
    (hs : Step.ofRules Rule.standard rest = .error refusal) (hr : ¬ refusal.RepeatsKey rest) :
    ∃ more later, Segment offset (front ++ (rest.take refusal.offset ++ more)) []
      (lines ++ later) := by
  -- An error at the start of a construct adds nothing, and what stands before any other is a line.
  by_cases hzero : refusal.offset = 0
  · refine ⟨[], [], ?_⟩
    rw [hzero, List.take_zero, List.append_nil, List.append_nil, List.append_nil]
    exact h.frame (Or.inr (.atEnd rfl)) (by simp)
  obtain ⟨more, step, hok, hsize, hclose⟩ := (Step.ofRules_completed hne hs hr).resolve_left hzero
  obtain ⟨c, tail, hrest, hbreak, hpad⟩ := Step.exists_head_of_error hne hs
  obtain ⟨count, hcount⟩ := Nat.exists_eq_succ_of_ne_zero hzero
  have htake : rest.take refusal.offset = c :: tail.take count := by
    rw [hcount, hrest, List.take_succ_cons]
  have hfront : Segment offset front (rest.take refusal.offset ++ more ++ []) lines := by
    apply h.frame
    · by_cases hempty : front = []
      · exact Or.inl hempty
      right
      rw [List.append_nil, htake]
      cases h.joins hempty with
      | atEnd hnil => exact (hne hnil).elim
      | afterBreak hb hw =>
        rw [hrest] at hw
        exact .afterBreak hb hw
      | withinLine hl _ _ => exact .withinLine hl hne (PhysicalLine.isPadding_cons hbreak hpad _)
    · intro line hl ho hm
      have hnone := h.bracketClose_notMem hl ho
      rw [List.append_nil] at hm
      rcases List.mem_append.mp hm with hm | hm
      · exact hnone (List.mem_of_mem_take hm)
      · exact hnone (hclose hm)
  have hlast : Segment (offset + front.length) (rest.take refusal.offset ++ more ++ []) []
      [⟨step.line, rest.take refusal.offset ++ more, some (.ofSize _ _)⟩] :=
    .cons (by rw [List.append_nil, List.append_nil, hok]) hsize (.nil _ _)
  rw [List.append_nil] at hlast
  exact ⟨more, _, hfront.append hlast⟩

end Segment

theorem Refusal.RepeatsKey.code_eq (h : refusal.RepeatsKey text) :
    refusal.fault.code = .parameter := by
  obtain ⟨-, -, inner, -, rfl, -, -, -, malformed, key, -, -, -, rfl, hkey, -⟩ := h
  change malformed.fault.code = .parameter
  cases hfault : malformed.fault with
  | missingValue key => rfl
  | openQuote key mark => rfl
  | textAfterQuote key => rfl
  | _ =>
    rw [hfault] at hkey
    cases hkey

namespace Reader

variable {source : Text}

/-- What stands before a construct that is refused is a source of its own, and its lines are those
read so far. What stands before the error can be completed, and those lines stay, unless a malformed
parameter repeats the key of another. -/
theorem parse_refused_completable {failure : Failure}
    (h : (unlimited Rule.standard).parse source = .error (.malformed failure)) :
    ∃ start refusal before, Starts Rule.standard source start ∧ start < source.length ∧
      Step.ofRules Rule.standard (source.drop start) = .error refusal ∧
      failure = .ofComplaint (refusal.fault.complaint source (start + refusal.offset)) ∧
      start ≤ failure.offset ∧
      (unlimited Rule.standard).parse (source.take start) = .ok before ∧
      before.content.lines = (Composition.ofText Rule.standard 0 source).lines ∧
      (before.content = .empty ↔ start = 0) ∧
      (¬ refusal.RepeatsKey (source.drop start) → ∃ more document,
        (unlimited Rule.standard).parse (source.take failure.offset ++ more) = .ok document ∧
        before.content.lines <+: document.content.lines) := by
  obtain ⟨front, rest, lines, refusal, rfl, hseg, hne, hs, he⟩ := segment_of_error h
  obtain rfl := ReadError.malformed.inj he
  have hdrop : (front ++ rest).drop front.length = rest := List.drop_left
  have hcut : Segment 0 front [] lines := hseg.frame (Or.inr (.atEnd rfl)) (by simp)
  have hstart := hseg.starts (List.drop_zero (l := front ++ rest)) .zero
  rw [Nat.zero_add] at hstart
  obtain ⟨rounds, hrun⟩ := hseg.exists_run_refused hne hs
  have hlines := congrArg Composition.lines hrun.ofText_eq
  rw [List.drop_zero] at hlines
  refine ⟨front.length, refusal, .ofSource front lines, hstart, ?_, by rw [hdrop, hs], rfl,
    Nat.le_add_right _ _, ?_, ?_, ?_, ?_⟩
  · have hpos := List.length_pos_iff.mpr hne
    rw [List.length_append]
    omega
  · rw [List.take_left]
    exact parse_of_segment hcut
  · rw [hcut.lines_ofSource, hlines]
  · rw [Located.ofSource_eq_empty_iff, List.length_eq_zero_iff]
  · intro hr
    rw [hdrop] at hr
    obtain ⟨more, later, hcompleted⟩ := hseg.completed hne hs hr
    have htake : (front ++ rest).take (front.length + refusal.offset) ++ more =
        front ++ (rest.take refusal.offset ++ more) := by
      rw [List.take_length_add_append, List.append_assoc]
    have hparse := parse_of_segment hcompleted
    rw [← htake] at hparse
    refine ⟨more, _, hparse, ?_⟩
    rw [htake, hcut.lines_ofSource, hcompleted.lines_ofSource]
    exact List.prefix_append lines later

theorem parse_refused_completable_label : ∃ more document,
    (unlimited Rule.standard).parse (['[', 'a', ']', '*'] ++ more) = .ok document ∧
      [⟨.tag .bracket ['a'] .empty, ['[', 'a', ']'], some (.ofSize 0 3)⟩] <+:
        document.content.lines := by
  have hrun : Run Rule.standard ['[', 'a', ']', '*', '|'] 2 0 _ (some ⟨.malformedLabel, 4⟩) :=
    @Run.line _ _ 1 0 ⟨.tag .bracket ['a'] .empty, 3, by decide⟩ _ _ (by decide)
      (Step.ofRules_of_matched (by decide +kernel))
      (@Run.refused _ _ 3 ⟨.malformedLabel, 1⟩ (by decide) rfl)
  have hparse := parse_of_refusal (not_excludes_unlimited _ _) (by decide) hrun
  obtain ⟨start, refusal, before, -, -, hs, hfailure, -, -, hlines, -, hcompleted⟩ :=
    parse_refused_completable hparse
  have hcode : refusal.fault.code = .label :=
    (congrArg (fun failure => failure.diagnostic.code) hfailure).symm
  have hr : ¬ refusal.RepeatsKey (List.drop start ['[', 'a', ']', '*', '|']) := by
    intro hr
    rw [hr.code_eq] at hcode
    cases hcode
  have hc := hrun.ofText_eq
  rw [List.drop_zero] at hc
  rw [hlines, hc] at hcompleted
  exact hcompleted hr

end Reader

end Playscript
