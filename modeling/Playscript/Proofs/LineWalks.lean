import Playscript.Proofs.Scan
import Playscript.Proofs.Bounds
import Playscript.Proofs.TokenWalks

/-!
# Walks over lines

The seven rules, spelled out as walks. A label and a line tag are read from a copy of their line, a
bracket tag from a copy of its inside without line breaks; a complaint about a copy is moved back to
the source. None of these walks meets with a mishap, and each finds what its recognizer finds.
-/

namespace Playscript

theorem Cursor.startsWith_eq_isSome {piece : Text} (hne : piece ≠ []) (cursor : Cursor) :
    cursor.startsWith piece = (Text.after? piece cursor.remaining).isSome := by
  rw [Bool.eq_iff_iff, startsWith_iff hne, Option.isSome_iff_exists]
  simp only [Text.after?_eq_some_iff]

theorem Cursor.startsWith_sigil (cursor : Cursor) (sigil : Sigil) :
    cursor.startsWith sigil.text = (sigil.strip? cursor.remaining).isSome := by
  apply startsWith_eq_isSome
  cases sigil <;> simp [Sigil.text]

theorem Cursor.startsWith_of_strip {cursor : Cursor} {sigil : Sigil} {rest : Text}
    (h : sigil.strip? cursor.remaining = some rest) : cursor.startsWith sigil.text = true := by
  rw [startsWith_sigil, h]
  rfl

namespace Walk

variable {cursor : Cursor} {rest : Text}

theorem remaining_copy (c : Char) (content : Text) :
    (Cursor.mk (c :: content) 1).remaining = content := rfl

theorem name_copy (c : Char) (content : Text) :
    name ⟨c :: content, 1⟩ = .ok (if (content.takeWhile isNameChar).isEmpty then .absent
      else .matched (content.takeWhile isNameChar)
        ⟨c :: content, (content.takeWhile isNameChar).length + 1⟩) := by
  rw [name_eq, remaining_copy, Cursor.forward, Nat.add_comm 1]

theorem takeLine_cons {c : Char} (h : cursor.remaining = c :: rest) (hb : isBreak c = false) :
    takeLine cursor = .ok (c :: (PhysicalLine.ofText rest).content,
      cursor.forward (1 + (PhysicalLine.ofText rest).size)) := by
  rw [takeLine_eq, h, PhysicalLine.size_cons hb, PhysicalLine.ofText_cons hb]

def comment (cursor : Cursor) : Walk (Finding (Located Line)) := do
  if cursor.startsWith Sigil.comment.text then
    let (content, stop) ← takeLine (cursor.advance 1)
    node (.comment content) cursor stop
  else return .absent

theorem comment_eq (cursor : Cursor) :
    comment cursor = .ok (cursor.report (Recognizer.comment cursor.remaining)) := by
  cases hs : Sigil.comment.strip? cursor.remaining with
  | none => simp [comment, Cursor.startsWith_sigil, Recognizer.comment, hs, Cursor.report]
  | some rest =>
    have hr : cursor.remaining = ';' :: rest := Sigil.strip?_eq_some_iff.mp hs
    have hrest : (cursor.forward 1).remaining = rest := by simp [hr]
    simp only [comment, Cursor.startsWith_of_strip hs, Recognizer.comment, hs, if_true,
      Cursor.advance_one hr, takeLine_eq, hrest, ok_bind, Cursor.forward_forward, node_forward]

def blockComment (cursor : Cursor) : Walk (Finding (Located Line)) := do
  if cursor.startsWith Sigil.blockComment.text then
    let inner := cursor.advance 2
    match inner.find? Mark.commentClose inner.source.length with
    | none => return .refuse .openComment cursor
    | some close =>
      let body := inner.sliceTo close
      if !body.hasBreak then return .refuse .shortComment cursor
      else
        let after := cursor.moveTo (close + 2)
        if !(← restIsPadding after) then
          return .refuse .textAfterComment (← skipWhile Playscript.isPadding after)
        else
          let (_, stop) ← takeLine after
          node (.blockComment body) cursor stop
  else return .absent

theorem blockComment_eq (cursor : Cursor) :
    blockComment cursor = .ok (cursor.report (Recognizer.blockComment cursor.remaining)) := by
  cases hs : Sigil.blockComment.strip? cursor.remaining with
  | none => simp [blockComment, Cursor.startsWith_sigil, Recognizer.blockComment, hs, Cursor.report]
  | some rest =>
    have hr : cursor.remaining = '/' :: '*' :: rest := Sigil.strip?_eq_some_iff.mp hs
    have hne : cursor.remaining ≠ [] := by simp [hr]
    have hrest : (cursor.forward 2).remaining = rest := by simp [hr]
    have hadvance : cursor.advance 2 = cursor.forward 2 :=
      Cursor.advance_forward hne (by simp [hr])
    have hinner : (cursor.forward 2).offset ≤ (cursor.forward 2).source.length :=
      Cursor.add_le_length hne (by simp [hr])
    simp only [blockComment, Cursor.startsWith_of_strip hs, Recognizer.blockComment, hs, if_true,
      hadvance, Cursor.find?_remaining hinner, hrest,
      Text.find?_eq_map_cut? (by decide : Mark.commentClose ≠ [])]
    cases hcut : Text.cut? Mark.commentClose rest with
    | none => rfl
    | some parts =>
      obtain ⟨body, after⟩ := parts
      obtain ⟨rfl, -⟩ := Text.cut?_pair_sound hcut
      have hbody : (cursor.forward 2).sliceTo ((cursor.forward 2).offset + body.length) = body := by
        have hslice := (cursor.forward 2).sliceTo_forward body.length
        rw [hrest, List.take_left] at hslice
        exact hslice
      have hclose : cursor.moveTo ((cursor.forward 2).offset + body.length + 2) =
          cursor.forward (body.length + 4) := by
        have hoffset : (cursor.forward 2).offset + body.length + 2 =
            cursor.offset + (body.length + 4) := by
          simp only [Cursor.forward]
          omega
        rw [hoffset, Cursor.moveTo_forward hne (by simp [hr])]
      have hafter : (cursor.forward (body.length + 4)).remaining = after := by
        rw [Cursor.remaining_forward, hr]
        simp [← List.drop_drop]
      simp only [Option.map_some, hbody, hclose, restIsPadding_eq, skipWhile_eq, takeLine_eq,
        hafter, ok_bind, Cursor.forward_forward, node_forward]
      cases body.hasBreak with
      | false => rfl
      | true =>
        cases (PhysicalLine.ofText after).isPadding with
        | false => rfl
        | true => rfl

def cue (cursor : Cursor) : Walk (Finding (Located Line)) := do
  if cursor.startsWith Sigil.cue.text then
    let (content, stop) ← takeLine cursor
    let span ← span cursor stop
    let found (line : Line) := Finding.matched ⟨line, cursor.sliceTo stop.offset, some span⟩ stop
    let content := Text.trimRight (content.drop 1)
    if content.isEmpty then return found .narration
    else
      match Text.cutAt? Mark.emotion content with
      | none => return found (.cue content none)
      | some (name, emotion) =>
        if name.isEmpty then return .refuse .namelessCue (cursor.moveTo (cursor.offset + 1))
        else
          let place := cursor.offset + (name.length + 2)
          match Text.cutAt? Mark.emotion emotion with
          | some (first, _) =>
            return .refuse .secondEmotion (cursor.moveTo (place + first.length))
          | none =>
            if emotion.isEmpty then return .refuse .missingEmotion (cursor.moveTo place)
            else return found (.cue name (some emotion))
  else return .absent

theorem cue_eq (cursor : Cursor) :
    cue cursor = .ok (cursor.report (Recognizer.cue cursor.remaining)) := by
  cases hs : Sigil.cue.strip? cursor.remaining with
  | none => simp [cue, Cursor.startsWith_sigil, Recognizer.cue, hs, Cursor.report]
  | some rest =>
    have hr : cursor.remaining = '#' :: rest := Sigil.strip?_eq_some_iff.mp hs
    have hne : cursor.remaining ≠ [] := by simp [hr]
    have hreach : cursor.Reaches (Recognizer.cue cursor.remaining) :=
      Cursor.reaches_of_le hne fun _ h => (Recognizer.cue_refused h).2
    have hstart := Cursor.startsWith_of_strip hs
    simp only [cue, hstart, if_true, takeLine_cons hr (by decide), ok_bind,
      span_forward, Cursor.sliceTo_forward, List.drop_succ_cons, List.drop_zero]
    simp only [Recognizer.cue, hs] at hreach ⊢
    generalize (PhysicalLine.ofText rest).content.trimRight = content at hreach ⊢
    by_cases he : content.isEmpty
    · simp only [if_pos he]
      rfl
    simp only [if_neg he] at hreach ⊢
    cases hcut : Text.cutAt? Mark.emotion content with
    | none => rfl
    | some parts =>
      obtain ⟨name, emotion⟩ := parts
      simp only [hcut] at hreach ⊢
      by_cases hn : name.isEmpty
      · simp only [if_pos hn] at hreach ⊢
        rw [hreach.moveTo]
        rfl
      simp only [if_neg hn] at hreach ⊢
      cases hsecond : Text.cutAt? Mark.emotion emotion with
      | some second =>
        simp only [hsecond] at hreach ⊢
        rw [Nat.add_assoc, hreach.moveTo]
        rfl
      | none =>
        simp only [hsecond] at hreach ⊢
        by_cases hm : emotion.isEmpty
        · simp only [if_pos hm] at hreach ⊢
          rw [hreach.moveTo]
          rfl
        · simp only [if_neg hm]
          rfl

def labelEnd (line : Line) (cursor stop rest : Cursor) : Walk (Finding (Located Line)) := do
  if ← restIsPadding rest then node line cursor stop
  else return (Finding.refuse .textAfterLabel rest : Finding Line).relocate cursor

def labelRest (found : Text) (cursor stop rest : Cursor) : Walk (Finding (Located Line)) := do
  if rest.startsWith [Mark.alternate] then
    let second := rest.advance 1
    match ← name second with
    | .matched alternate rest => labelEnd (.label found (some alternate)) cursor stop rest
    | _ => return (Finding.refuse .malformedAlternate second : Finding Line).relocate cursor
  else labelEnd (.label found none) cursor stop rest

def label (cursor : Cursor) : Walk (Finding (Located Line)) := do
  if cursor.startsWith Sigil.label.text then
    let (content, stop) ← takeLine cursor
    let start : Cursor := ⟨content, 1⟩
    match ← name start with
    | .matched found rest => labelRest found cursor stop rest
    | _ =>
      let fault := if start.remaining.isBlank then .missingLabel else .malformedLabel
      return (Finding.refuse fault start : Finding Line).relocate cursor
  else return .absent

section Copies

variable {copy : Cursor} {found after : Text} {offset size : Nat}

theorem labelEnd_eq {line : Line} (hf : copy.source.hasBreak = false) (ho : copy.offset = offset)
    (ha : copy.remaining = after)
    (h : cursor.Reaches (if after.all isPadding then .matched line size
      else .refused ⟨.textAfterLabel, offset⟩)) :
    labelEnd line cursor (cursor.forward size) copy =
      .ok (cursor.report (if after.all isPadding then .matched line size
        else .refused ⟨.textAfterLabel, offset⟩)) := by
  have hflat : after.hasBreak = false := by
    rw [← ha]
    exact Text.hasBreak_of_subset hf (fun c hc => List.drop_subset copy.offset copy.source hc)
  rw [labelEnd, restIsPadding_eq, ha, PhysicalLine.ofText_flat hflat, ok_bind, node_forward]
  change (if after.all isPadding then _ else _) = _
  by_cases hp : after.all isPadding
  · rw [if_pos hp, if_pos hp]
  · rw [if_neg hp] at h
    rw [if_neg hp, if_neg hp, h.relocate ho]
    rfl

def labelOutcome (found after : Text) (offset size : Nat) : Outcome Line :=
  match Text.after? [Mark.alternate] after with
  | none =>
    if after.all isPadding then .matched (.label found none) size
    else .refused ⟨.textAfterLabel, offset⟩
  | some rest =>
    let alternate := rest.takeWhile isNameChar
    if alternate.isEmpty then .refused ⟨.malformedAlternate, offset + 1⟩
    else if (rest.dropWhile isNameChar).all isPadding then
      .matched (.label found (some alternate)) size
    else .refused ⟨.textAfterLabel, offset + 1 + alternate.length⟩

theorem labelRest_eq (hf : copy.source.hasBreak = false) (ho : copy.offset = offset)
    (ha : copy.remaining = after) (h : cursor.Reaches (labelOutcome found after offset size)) :
    labelRest found cursor (cursor.forward size) copy =
      .ok (cursor.report (labelOutcome found after offset size)) := by
  have hmark := Cursor.startsWith_eq_isSome (by decide : [Mark.alternate] ≠ []) copy
  rw [ha] at hmark
  simp only [labelOutcome] at h ⊢
  cases halt : Text.after? [Mark.alternate] after with
  | none =>
    simp only [halt] at h hmark ⊢
    rw [labelRest, hmark]
    exact labelEnd_eq hf ho ha h
  | some tail =>
    have hr : copy.remaining = Mark.alternate :: tail := ha.trans (Text.after?_eq_some_iff.mp halt)
    have htail : (copy.forward 1).remaining = tail := by simp [hr]
    have hrest := (copy.forward 1).remaining_takeWhile isNameChar
    rw [htail] at hrest
    simp only [halt] at h hmark ⊢
    simp only [labelRest, hmark, Option.isSome_some, if_true, Cursor.advance_one hr, name_eq, htail,
      ok_bind]
    by_cases hempty : (tail.takeWhile isNameChar).isEmpty
    · simp only [if_pos hempty] at h ⊢
      rw [h.relocate (by rw [← ho]; rfl)]
      rfl
    · simp only [if_neg hempty] at h ⊢
      exact labelEnd_eq hf (by rw [← ho]; rfl) hrest h

end Copies

theorem label_eq (cursor : Cursor) :
    label cursor = .ok (cursor.report (Recognizer.label cursor.remaining)) := by
  cases hs : Sigil.label.strip? cursor.remaining with
  | none => simp [label, Cursor.startsWith_sigil, Recognizer.label, hs, Cursor.report]
  | some rest =>
    have hr : cursor.remaining = '*' :: rest := Sigil.strip?_eq_some_iff.mp hs
    have hne : cursor.remaining ≠ [] := by simp [hr]
    have hreach : cursor.Reaches (Recognizer.label cursor.remaining) :=
      Cursor.reaches_of_le hne fun _ h => (Recognizer.label_refused h).2
    have hstart := Cursor.startsWith_of_strip hs
    have hflat : Text.hasBreak ('*' :: (PhysicalLine.ofText rest).content) = false := by
      rw [Text.hasBreak_cons, PhysicalLine.hasBreak_content]
      rfl
    simp only [label, hstart, if_true, takeLine_cons hr (by decide), ok_bind,
      name_copy, remaining_copy]
    simp only [Recognizer.label, hs] at hreach ⊢
    by_cases hempty : ((PhysicalLine.ofText rest).content.takeWhile isNameChar).isEmpty
    · simp only [if_pos hempty] at hreach ⊢
      refine congrArg Except.ok (hreach.relocate ?_)
      rfl
    · simp only [if_neg hempty] at hreach ⊢
      exact labelRest_eq hflat rfl (Text.drop_length_takeWhile _ _) hreach

def tagBody (form : TagForm) (origin copy : Cursor)
    (finish : Parameters → Walk (Finding (Located Line))) : Walk (Finding (Located Line)) := do
  if ← tokenEnd copy then
    match ← parameters copy with
    | .matched parameters _ => finish parameters
    | finding => return finding.relocate origin
  else return (Finding.refuse (.textInTagName form) copy : Finding Line).relocate origin

def lineTag (cursor : Cursor) : Walk (Finding (Located Line)) := do
  if cursor.startsWith Sigil.lineTag.text then
    let (content, stop) ← takeLine cursor
    let start : Cursor := ⟨content, 1⟩
    match ← name start with
    | .matched found rest =>
      tagBody .line cursor rest fun parameters => node (.tag .line found parameters) cursor stop
    | _ =>
      let fault := if start.atEnd then .missingTagName else .malformedTagName
      return (Finding.refuse fault start : Finding Line).relocate cursor
  else return .absent

theorem tagBody_eq {form : TagForm} {found after : Text} {copy : Cursor} {lead offset size : Nat}
    {finish : Parameters → Walk (Finding (Located Line))} (ho : lead + copy.offset = offset)
    (ha : copy.remaining = after)
    (hfinish : ∀ parameters, finish parameters =
      .ok (cursor.report (.matched (.tag form found parameters) size)))
    (h : cursor.Reaches (Recognizer.tagBody form found after offset size)) :
    tagBody form (cursor.forward lead) copy finish =
      .ok (cursor.report (Recognizer.tagBody form found after offset size)) := by
  rw [tagBody, tokenEnd_eq, ha, ok_bind]
  unfold Recognizer.tagBody at h ⊢
  by_cases he : Recognizer.atTokenEnd after
  · simp only [he, Bool.not_true, Bool.false_eq_true, if_false, if_true] at h ⊢
    rw [parameters_eq, ha, Recognizer.parameters, ok_bind]
    cases hread : Parameters.read after with
    | error refusal =>
      simp only [hread] at h ⊢
      have hplace : lead + (copy.forward refusal.offset).offset = offset + refusal.offset := by
        rw [← ho, Nat.add_assoc]
        rfl
      exact congrArg Except.ok (h.relocate_forward (β := Parameters) hplace)
    | ok parameters => exact hfinish parameters
  · simp only [he, Bool.not_false, if_true] at h ⊢
    exact congrArg Except.ok (h.relocate_forward (β := Line) ho)

theorem lineTag_eq (cursor : Cursor) :
    lineTag cursor = .ok (cursor.report (Recognizer.lineTag cursor.remaining)) := by
  cases hs : Sigil.lineTag.strip? cursor.remaining with
  | none => simp [lineTag, Cursor.startsWith_sigil, Recognizer.lineTag, hs, Cursor.report]
  | some rest =>
    have hr : cursor.remaining = '@' :: rest := Sigil.strip?_eq_some_iff.mp hs
    have hne : cursor.remaining ≠ [] := by simp [hr]
    have hreach : cursor.Reaches (Recognizer.lineTag cursor.remaining) :=
      Cursor.reaches_of_le hne fun _ h => (Recognizer.lineTag_refused h).2
    have hstart := Cursor.startsWith_of_strip hs
    simp only [lineTag, hstart, if_true, takeLine_cons hr (by decide), ok_bind,
      name_copy, Cursor.atEnd_eq_isEmpty, remaining_copy]
    simp only [Recognizer.lineTag, hs] at hreach ⊢
    by_cases hempty : ((PhysicalLine.ofText rest).content.takeWhile isNameChar).isEmpty
    · simp only [if_pos hempty] at hreach ⊢
      refine congrArg Except.ok (hreach.relocate ?_)
      rfl
    · simp only [if_neg hempty] at hreach ⊢
      exact tagBody_eq (Nat.zero_add _) (Text.drop_length_takeWhile _ _)
        (fun _ => node_forward _ _ _) hreach

def tryEach {α : Type} (walk : Cursor → Walk (Finding α)) (cursor : Cursor) :
    List Nat → Walk (Finding α)
  | [] => return .absent
  | offset :: offsets => do
    match ← walk (cursor.moveTo offset) with
    | .matched found stop => return .matched found stop
    | _ => tryEach walk cursor offsets

def findFirst {α : Type} (walk : Cursor → Walk (Finding α)) (cursor : Cursor) (stop : Nat) :
    Walk (Finding α) :=
  tryEach walk cursor (List.range' cursor.offset (stop - cursor.offset))

def bracketEnd (line : Line) (cursor closed : Cursor) : Walk (Finding (Located Line)) := do
  if ← restIsPadding closed then
    let (_, stop) ← takeLine closed
    node line cursor stop
  else node line cursor closed

/-- The name is looked for in a copy of the inside of the brackets, at each offset of it in turn. -/
def bracketTag (cursor : Cursor) : Walk (Finding (Located Line)) := do
  if cursor.startsWith Sigil.bracketTag.text then
    match cursor.find? [Mark.bracketClose] cursor.source.length with
    | none => return .absent
    | some close =>
      let origin := cursor.advance 1
      let inside := (origin.sliceTo close).foldBreaks
      if inside.isBlank then return .refuse .emptyTag cursor
      else
        let copy : Cursor := ⟨inside, 0⟩
        match ← findFirst identifier copy inside.length with
        | .matched found after =>
          tagBody .bracket origin after fun parameters =>
            bracketEnd (.tag .bracket found.raw parameters) cursor (cursor.moveTo (close + 1))
        | _ =>
          let place ← skipWhile isSpace copy
          return (Finding.refuse .namelessTag place : Finding Line).relocate origin
  else return .absent

theorem findFirst_eq {α : Type} {walk : Cursor → Walk (Finding (Located α))}
    {recognizer : Recognizer α}
    (h : ∀ cursor, walk cursor = .ok (cursor.report (recognizer cursor.remaining)))
    (cursor : Cursor) (stop : Nat) :
    findFirst walk cursor stop =
      .ok (match cursor.findFirst recognizer stop with
        | none => .absent
        | some (found, stop) => .matched found ⟨cursor.source, stop⟩) := by
  rw [findFirst, Cursor.findFirst]
  induction List.range' cursor.offset (stop - cursor.offset) with
  | nil => rfl
  | cons offset offsets ih =>
    rw [tryEach, h, Cursor.report_eq, ok_bind, List.findSome?_cons]
    cases (cursor.moveTo offset).run recognizer with
    | absent => exact ih
    | refused refusal => exact ih
    | matched found stop => rfl

theorem bracketEnd_eq {inside after : Text}
    (h : cursor.remaining = Sigil.bracketTag.text ++ (inside ++ Mark.bracketClose :: after))
    (line : Line) :
    bracketEnd line cursor (cursor.moveTo (cursor.offset + (inside.length + 1) + 1)) =
      .ok (cursor.report (.matched line (Recognizer.tagStop inside after))) := by
  have hne : cursor.remaining ≠ [] := by simp [h, Sigil.text]
  have hle : inside.length + 2 ≤ cursor.remaining.length := by
    simp only [h, Sigil.text, List.length_append, List.length_cons, List.length_nil]
    omega
  have hafter : (cursor.forward (inside.length + 2)).remaining = after := by
    rw [Cursor.remaining_forward, h]
    simp [Sigil.text]
  rw [Nat.add_assoc, Cursor.moveTo_forward hne hle, bracketEnd, restIsPadding_eq, hafter, ok_bind,
    takeLine_eq, hafter, Recognizer.tagStop]
  by_cases hp : (PhysicalLine.ofText after).isPadding
  · rw [if_pos hp, if_pos hp, ok_bind, Cursor.forward_forward]
    exact node_forward _ _ _
  · rw [if_neg hp, if_neg hp, node_forward]

theorem bracketTag_eq (cursor : Cursor) :
    bracketTag cursor = .ok (cursor.report (Recognizer.bracketTag cursor.remaining)) := by
  cases hs : Sigil.bracketTag.strip? cursor.remaining with
  | none => simp [bracketTag, Cursor.startsWith_sigil, Recognizer.bracketTag, hs, Cursor.report]
  | some rest =>
    have hr : cursor.remaining = '[' :: rest := Sigil.strip?_eq_some_iff.mp hs
    have hne : cursor.remaining ≠ [] := by simp [hr]
    have hreach : cursor.Reaches (Recognizer.bracketTag cursor.remaining) :=
      Cursor.reaches_of_le hne fun _ h => Nat.le_of_lt (Recognizer.bracketTag_refused h).2
    have hstart := Cursor.startsWith_of_strip hs
    have hoffset : cursor.offset ≤ cursor.source.length :=
      Cursor.add_le_length hne (Nat.zero_le _)
    have hfind : cursor.find? [Mark.bracketClose] cursor.source.length =
        (Text.cutAt? Mark.bracketClose rest).map fun parts =>
          cursor.offset + (parts.1.length + 1) := by
      rw [Cursor.find?_remaining hoffset, Text.find?_mark, hr, Text.cutAt?_cons,
        if_neg (by decide), Option.map_map, Option.map_map]
      rfl
    simp only [bracketTag, hstart, if_true, hfind, Cursor.advance_one hr]
    cases hcut : Text.cutAt? Mark.bracketClose rest with
    | none => simp [Recognizer.bracketTag, hs, hcut, Cursor.report]
    | some parts =>
      obtain ⟨inside, after⟩ := parts
      obtain ⟨rfl, hinside⟩ := Text.cutAt?_eq_some_iff.mp hcut
      have hslice : (cursor.forward 1).sliceTo (cursor.offset + (inside.length + 1)) = inside := by
        have hslice := (cursor.forward 1).sliceTo_forward inside.length
        rw [Cursor.forward_forward, Nat.add_comm 1, Cursor.remaining_forward, hr] at hslice
        exact hslice.trans List.take_left
      simp only [Option.map_some, hslice]
      have hcopy : cursor.remaining =
          Sigil.bracketTag.text ++ (inside ++ Mark.bracketClose :: after) := hr
      cases hb : inside.foldBreaks.isBlank with
      | true =>
        have houtcome : Recognizer.bracketTag cursor.remaining = .refused ⟨.emptyTag, 0⟩ := by
          simp [Recognizer.bracketTag, hs, hcut, hb]
        rw [houtcome]
        rfl
      | false =>
        -- The copy is as long as the inside, so a place in the one is a place in the other.
        rw [hcopy, Recognizer.bracketTag_scan hinside hb] at hreach ⊢
        simp only [findFirst_eq identifier_eq, Text.length_foldBreaks, ok_bind]
        cases hfound : (Cursor.mk inside.foldBreaks 0).findFirst Recognizer.identifier
          inside.length with
        | none =>
          simp only [hfound, skipWhile_eq, ok_bind] at hreach ⊢
          refine congrArg Except.ok (hreach.relocate_forward ?_)
          exact congrArg (1 + ·) (Nat.zero_add _)
        | some parts =>
          obtain ⟨found, stop⟩ := parts
          simp only [hfound] at hreach ⊢
          exact tagBody_eq rfl rfl (fun _ => bracketEnd_eq hcopy _) hreach

def prose (cursor : Cursor) : Walk (Finding (Located Line)) := do
  if cursor.atEnd then return .absent
  else
    let (content, stop) ← takeLine cursor
    match Sigil.escape.strip? content with
    | some kept => node (.prose kept) cursor stop
    | none => node (.prose (Text.trim content)) cursor stop

theorem prose_eq (cursor : Cursor) :
    prose cursor = .ok (cursor.report (Recognizer.prose cursor.remaining)) := by
  rw [prose, Cursor.atEnd_eq_isEmpty, takeLine_eq, Recognizer.prose]
  by_cases hempty : cursor.remaining.isEmpty
  · rw [if_pos hempty, if_pos hempty]
    rfl
  rw [if_neg hempty, if_neg hempty]
  simp only [ok_bind, node_forward]
  cases Sigil.escape.strip? (PhysicalLine.ofText cursor.remaining).content with
  | some kept => rfl
  | none => rfl

end Walk

end Playscript
