import Playscript.Proofs.Dispatch

/-!
# What follows a line

A line ends where a break is over, or at a closing bracket with text behind it, or where the text
ends. Another text may take the place of what follows it, as long as the line still ends there.
-/

namespace Playscript

variable {lead front tail rest rest' : Text} {line : PhysicalLine} {l : Line} {size : Nat}

/-- What was taken as `front` before `rest` is also taken before `rest'`: nothing follows any more,
or a break is over, or a bracket is closed within a line. -/
inductive Text.Joins (front rest rest' : Text) : Prop
  | atEnd (h : rest' = [])
  | afterBreak (hb : front.endsInBreak)
      (hw : ¬ (front.getLast? = some '\r' ∧ rest'.head? = some '\n'))
  | withinLine (hl : front.getLast? = some Mark.bracketClose) (hr : rest ≠ [])
      (hp : (PhysicalLine.ofText rest').isPadding = false)

namespace Text

theorem joins_append_iff (h : tail ≠ []) :
    Joins (lead ++ tail) rest rest' ↔ Joins tail rest rest' := by
  have hlast := List.getLast?_append_of_ne_nil lead h
  constructor
  · intro hj
    cases hj with
    | atEnd hr => exact .atEnd hr
    | afterBreak hb hw =>
      rw [endsInBreak_append h] at hb
      rw [hlast] at hw
      exact .afterBreak hb hw
    | withinLine hl hr hp =>
      rw [hlast] at hl
      exact .withinLine hl hr hp
  · intro hj
    cases hj with
    | atEnd hr => exact .atEnd hr
    | afterBreak hb hw =>
      refine .afterBreak ?_ ?_
      · rwa [endsInBreak_append h]
      · rwa [hlast]
    | withinLine hl hr hp => exact .withinLine (by rwa [hlast]) hr hp

theorem Joins.head?_ne_lf (h : Joins front rest rest') (hl : front.getLast? = some '\r') :
    rest'.head? ≠ some '\n' := by
  intro hh
  cases h with
  | atEnd h =>
    rw [h] at hh
    cases hh
  | afterBreak hb hw => exact hw ⟨hl, hh⟩
  | withinLine hl' hr hp =>
    rw [hl] at hl'
    cases hl'

theorem Joins.eq_nil (h : Joins front [] rest') (hb : front.endsInBreak = false) : rest' = [] := by
  cases h with
  | atEnd h => exact h
  | afterBreak hb' hw =>
    rw [hb] at hb'
    cases hb'
  | withinLine hl hr hp => exact (hr rfl).elim

end Text

/-- A whole line end is joined to what follows it. -/
theorem LineEnd.joins {ending : LineEnd} (lead : Text) (h : ending.Ends rest) :
    Text.Joins (lead ++ ending.text) rest rest := by
  cases ending with
  | lf =>
    refine .afterBreak ?_ ?_
    · simp [Text.endsInBreak, LineEnd.text, isBreak]
    · simp [LineEnd.text]
  | crlf =>
    refine .afterBreak ?_ ?_
    · simp [Text.endsInBreak, LineEnd.text, isBreak]
    · simp [LineEnd.text]
  | cr =>
    refine .afterBreak ?_ ?_
    · simp [Text.endsInBreak, LineEnd.text, isBreak]
    · rintro ⟨-, hh⟩
      exact h hh
  | missing => exact .atEnd h

namespace PhysicalLine

theorem Opens.joins (lead : Text) (h : line.Opens (tail ++ rest) rest) :
    Text.Joins (lead ++ tail) rest rest := by
  obtain rfl : tail = line.text := List.append_cancel_right h.text_eq
  rw [PhysicalLine.text, ← List.append_assoc]
  exact LineEnd.joins _ h.ending_whole

theorem Opens.frame (hl : lead.endsInBreak = false) (h : line.Opens (tail ++ rest) rest)
    (hj : Text.Joins (lead ++ tail) rest rest') : line.Opens (tail ++ rest') rest' := by
  obtain ⟨ht, hc, he⟩ := h
  obtain rfl : tail = line.text := List.append_cancel_right ht
  refine ⟨rfl, hc, ?_⟩
  rw [PhysicalLine.text] at hj
  cases hending : line.ending with
  | lf => trivial
  | crlf => trivial
  | cr =>
    apply hj.head?_ne_lf
    simp [hending, LineEnd.text]
  | missing =>
    rw [hending] at he hj
    obtain rfl : rest = [] := he
    apply hj.eq_nil
    rw [LineEnd.text, List.append_nil]
    exact Text.endsInBreak_append_flat hl hc

theorem opens_of_append {after : Text} (h : front ++ rest = lead ++ after)
    (hs : front.length = lead.length + (ofText after).size) :
    front = lead ++ (ofText after).text ∧ after = (ofText after).text ++ rest ∧
      (ofText after).Opens ((ofText after).text ++ rest) rest := by
  have ho := opens_ofText after
  have hafter := ho.text_eq
  have happend : front ++ rest = lead ++ (ofText after).text ++ after.drop (ofText after).size := by
    rw [h, List.append_assoc, ← hafter]
  obtain ⟨hfront, hrest⟩ := List.append_inj happend
    (by rw [hs, List.length_append, text_length])
  rw [← hrest] at hafter ho
  refine ⟨hfront, hafter, ?_⟩
  rwa [← hafter]

end PhysicalLine

namespace Recognizer

theorem TakesLine.opens (h : TakesLine l (front ++ rest) front.length) :
    ∃ line : PhysicalLine, line.Opens (front ++ rest) rest ∧ l.Spelling line.content ∧
      front.length = line.size := by
  obtain ⟨hs, hsize⟩ := h
  obtain ⟨hfront, -, ho⟩ := @PhysicalLine.opens_of_append [] front rest _
    (List.nil_append _).symm (by rw [hsize, List.length_nil, Nat.zero_add])
  rw [List.nil_append] at hfront
  rw [← hfront] at ho
  exact ⟨_, ho, hs, hsize⟩

theorem TakesLine.joins (h : TakesLine l (front ++ rest) front.length) :
    Text.Joins front rest rest := by
  obtain ⟨line, ho, -, -⟩ := h.opens
  exact ho.joins []

theorem TakesLine.frame (h : TakesLine l (front ++ rest) front.length)
    (hj : Text.Joins front rest rest') : TakesLine l (front ++ rest') front.length := by
  obtain ⟨line, ho, hs, hsize⟩ := h.opens
  have hline := (@PhysicalLine.Opens.frame [] _ _ _ _ rfl ho hj).ofText_eq
  rw [TakesLine, hline]
  exact ⟨hs, hsize⟩

theorem blockComment_opens (h : blockComment (front ++ rest) = .matched l front.length) :
    ∃ body line, front = Sigil.blockComment.text ++ (body ++ Mark.commentClose) ++
        PhysicalLine.text line ∧ line.Opens (line.text ++ rest) rest ∧ l = .blockComment body ∧
      Text.hasPiece Mark.commentClose body = false ∧ body.hasBreak ∧ line.isPadding := by
  obtain ⟨body, after, htext, hpiece, hbreak, hpad, rfl, hsize⟩ := blockComment_eq_matched_iff.mp h
  have happend : front ++ rest =
      Sigil.blockComment.text ++ (body ++ Mark.commentClose) ++ after := by
    rw [htext]
    simp [Mark.commentClose]
  obtain ⟨hfront, -, ho⟩ := PhysicalLine.opens_of_append happend (by
    rw [hsize]
    simp only [Sigil.text, Mark.commentClose, List.length_append, List.length_cons, List.length_nil]
    omega)
  exact ⟨body, _, hfront, ho, rfl, hpiece, hbreak, hpad⟩

theorem blockComment_frame (h : blockComment (front ++ rest) = .matched l front.length)
    (hj : Text.Joins front rest rest') :
    blockComment (front ++ rest') = .matched l front.length := by
  obtain ⟨body, line, hfront, ho, rfl, hpiece, hbreak, hpad⟩ := blockComment_opens h
  rw [hfront] at hj
  have hline := (ho.frame (by simp [Text.endsInBreak, Mark.commentClose, isBreak]) hj).ofText_eq
  rw [blockComment_eq_matched_iff]
  refine ⟨body, line.text ++ rest', ?_, hpiece, hbreak, ?_, rfl, ?_⟩
  · rw [hfront]
    simp [Mark.commentClose]
  · rw [hline]
    exact hpad
  · rw [hline, hfront, ← PhysicalLine.text_length]
    simp only [Sigil.text, Mark.commentClose, List.length_append, List.length_cons, List.length_nil]
    omega

/-- What stands between the brackets of a tag, where breaks count as spaces: the name and the
parameters, and before them characters that cannot begin a name. -/
inductive TagInside : Text → Parameters → Text → Prop
  | intro {inside skipped name body : Text} {parameters : Parameters}
      (hc : Mark.bracketClose ∉ inside) (hf : inside.foldBreaks = skipped ++ (name ++ body))
      (hs : ∀ c ∈ skipped, isNameChar c = false) (hn : name.isIdentifier)
      (he : atTokenEnd body) (hl : Entry.Listing parameters.entries body) :
      TagInside name parameters inside

def bracketed (inside : Text) : Text := Sigil.bracketTag.text ++ (inside ++ [Mark.bracketClose])

theorem bracketed_append (inside after : Text) : bracketed inside ++ after =
    Sigil.bracketTag.text ++ (inside ++ Mark.bracketClose :: after) := by
  simp [bracketed]

theorem length_bracketed (inside : Text) : (bracketed inside).length = inside.length + 2 := by
  simp only [bracketed, Sigil.text, List.length_append, List.length_cons, List.length_nil]
  omega

theorem getLast?_bracketed (inside : Text) :
    (bracketed inside).getLast? = some Mark.bracketClose := by
  simp [bracketed]

theorem endsInBreak_bracketed (inside : Text) : (bracketed inside).endsInBreak = false := by
  rw [Text.endsInBreak, getLast?_bracketed]
  rfl

theorem bracketTag_eq_matched_iff : bracketTag text = .matched l size ↔
    ∃ inside after name parameters, text = bracketed inside ++ after ∧
      TagInside name parameters inside ∧ l = .tag .bracket name parameters ∧
      size = tagStop inside after := by
  constructor
  · intro h
    obtain ⟨inside, after, skipped, name, body, parameters, htext, hc, hf, hs, hn, he, hl, rfl,
      rfl⟩ := bracketTag_sound h
    exact ⟨inside, after, name, parameters, by rw [bracketed_append, htext],
      .intro hc hf hs hn he hl, rfl, rfl⟩
  · rintro ⟨inside, after, name, parameters, rfl, hi, rfl, rfl⟩
    cases hi with
    | intro hc hf hs hn he hl =>
      rw [bracketed_append]
      exact bracketTag_complete hc hf hs hn he hl

theorem bracketTag_opens (h : bracketTag (front ++ rest) = .matched l front.length) :
    ∃ inside name parameters, TagInside name parameters inside ∧
      l = .tag .bracket name parameters ∧
      ((∃ line : PhysicalLine, front = bracketed inside ++ line.text ∧
          line.Opens (line.text ++ rest) rest ∧ line.isPadding) ∨
        front = bracketed inside ∧ (PhysicalLine.ofText rest).isPadding = false) := by
  obtain ⟨inside, after, name, parameters, htext, hi, rfl, hsize⟩ := bracketTag_eq_matched_iff.mp h
  refine ⟨inside, name, parameters, hi, rfl, ?_⟩
  rw [tagStop, ← length_bracketed] at hsize
  by_cases hp : (PhysicalLine.ofText after).isPadding
  · rw [if_pos hp] at hsize
    obtain ⟨hfront, -, ho⟩ := PhysicalLine.opens_of_append htext hsize
    exact Or.inl ⟨_, hfront, ho, hp⟩
  · rw [if_neg hp] at hsize
    obtain ⟨hfront, rfl⟩ := List.append_inj htext hsize
    exact Or.inr ⟨hfront, by simpa using hp⟩

theorem bracketTag_joins (h : bracketTag (front ++ rest) = .matched l front.length) :
    Text.Joins front rest rest := by
  obtain ⟨inside, name, parameters, -, -, ⟨line, hfront, ho, -⟩ | ⟨hfront, hp⟩⟩ :=
    bracketTag_opens h
  · rw [hfront]
    exact ho.joins _
  · by_cases hr : rest = []
    · exact .atEnd hr
    · rw [hfront]
      exact .withinLine (getLast?_bracketed inside) hr hp

theorem tagStop_of_joins {inside : Text} (h : Text.Joins (bracketed inside) rest rest') :
    tagStop inside rest' = (bracketed inside).length := by
  rw [tagStop, length_bracketed]
  cases h with
  | atEnd h =>
    rw [h]
    rfl
  | afterBreak hb hw =>
    rw [endsInBreak_bracketed] at hb
    cases hb
  | withinLine hl hr hp => simp [hp]

theorem bracketTag_frame (h : bracketTag (front ++ rest) = .matched l front.length)
    (hj : Text.Joins front rest rest') :
    bracketTag (front ++ rest') = .matched l front.length := by
  obtain ⟨inside, name, parameters, hi, rfl, ⟨line, rfl, ho, hpad⟩ | ⟨rfl, hp⟩⟩ :=
    bracketTag_opens h
  · have hline := (ho.frame (endsInBreak_bracketed inside) hj).ofText_eq
    rw [bracketTag_eq_matched_iff, List.append_assoc]
    refine ⟨inside, line.text ++ rest', name, parameters, rfl, hi, rfl, ?_⟩
    rw [tagStop, hline, if_pos hpad, List.length_append, length_bracketed, PhysicalLine.text_length]
  · rw [bracketTag_eq_matched_iff]
    exact ⟨inside, rest', name, parameters, rfl, hi, rfl, (tagStop_of_joins hj).symm⟩

end Recognizer

namespace Opening

variable {opening : Opening}

theorem joins (h : opening.rule.recognize (front ++ rest) = .matched l front.length) :
    Text.Joins front rest rest := by
  cases opening with
  | comment => exact (Recognizer.comment_sound h).2.joins
  | blockComment =>
    obtain ⟨body, line, hfront, ho, -⟩ := Recognizer.blockComment_opens h
    rw [hfront]
    exact ho.joins _
  | bracketTag => exact Recognizer.bracketTag_joins h
  | label => exact (Recognizer.label_sound h).2.joins
  | cue => exact (Recognizer.cue_sound h).2.joins
  | lineTag => exact (Recognizer.lineTag_sound h).2.joins
  | prose => exact (Recognizer.prose_sound h).2.2.joins

/-- A rule finds the same line before any text that joins it. -/
theorem recognize_frame (h : opening.rule.recognize (front ++ rest) = .matched l front.length)
    (hj : Text.Joins front rest rest') :
    opening.rule.recognize (front ++ rest') = .matched l front.length := by
  cases opening with
  | comment =>
    obtain ⟨hk, ht⟩ := Recognizer.comment_sound h
    exact Recognizer.comment_complete hk (ht.frame hj)
  | blockComment => exact Recognizer.blockComment_frame h hj
  | bracketTag => exact Recognizer.bracketTag_frame h hj
  | label =>
    obtain ⟨hk, ht⟩ := Recognizer.label_sound h
    exact Recognizer.label_complete hk (ht.frame hj)
  | cue =>
    obtain ⟨hk, ht⟩ := Recognizer.cue_sound h
    exact Recognizer.cue_complete hk (ht.frame hj)
  | lineTag =>
    obtain ⟨hk, ht⟩ := Recognizer.lineTag_sound h
    exact Recognizer.lineTag_complete hk (ht.frame hj)
  | prose =>
    have hpos := (isCut h).pos
    obtain ⟨hk, -, ht⟩ := Recognizer.prose_sound h
    refine Recognizer.prose_complete hk ?_ (ht.frame hj)
    exact List.append_ne_nil_of_left_ne_nil (List.length_pos_iff.mp hpos) rest'

/-- Only the opening of a block comment can be cut in two. -/
theorem sigil_text_split {sigil : Sigil} {c d : Char} {front rest : Text}
    (h : sigil.text = c :: front ++ d :: rest) : c = '/' ∧ front = [] := by
  have hlen := congrArg List.length h
  simp only [List.cons_append, List.length_cons, List.length_append] at hlen
  cases sigil with
  | blockComment =>
    have hfront : front = [] := by
      apply List.length_eq_zero_iff.mp
      simp only [Sigil.text, List.length_cons, List.length_nil] at hlen
      omega
    subst hfront
    exact ⟨(List.cons.inj h).1.symm, rfl⟩
  | _ =>
    simp only [Sigil.text, List.length_cons, List.length_nil] at hlen
    omega

/-- A line that opens without a sigil does so before any text that joins it, unless it is an open
bracket that is now closed. -/
theorem ofText_frame (hne : front ≠ []) (h : ofText (front ++ rest) = .prose)
    (hj : Text.Joins front rest rest')
    (hb : front.head? = some '[' → Mark.bracketClose ∉ rest') :
    ofText (front ++ rest') = .prose := by
  obtain ⟨c, front, rfl⟩ := List.exists_cons_of_ne_nil hne
  by_contra hp
  by_cases ho : ofText (c :: front ++ rest') = .bracketTag
  · obtain ⟨inside, htext, hclose⟩ := ofText_eq_bracketTag_iff.mp ho
    obtain ⟨rfl, rfl⟩ : c = '[' ∧ front ++ rest' = inside := List.cons.inj htext
    have hfront : Mark.bracketClose ∉ front := by
      intro hm
      have ho' : ofText ('[' :: front ++ rest) = .bracketTag :=
        ofText_eq_bracketTag_iff.mpr ⟨front ++ rest, rfl, List.mem_append_left _ hm⟩
      rw [h] at ho'
      cases ho'
    rcases List.mem_append.mp hclose with hm | hm
    · exact hfront hm
    · exact hb rfl hm
  · obtain ⟨sigil, hs⟩ := exists_sigil?_eq hp
    obtain ⟨kept, htext⟩ := (ofText_eq_iff hs ho).mp rfl
    have hrule : ∀ kept', c :: front ++ rest ≠ sigil.text ++ kept' := by
      intro kept' htext'
      have ho' := (ofText_eq_iff hs ho).mpr ⟨kept', htext'⟩
      rw [h] at ho'
      exact hp ho'.symm
    -- The sigil lies in the front, unless it is the opening of a block comment cut in two.
    rcases List.append_eq_append_iff.mp htext with ⟨middle, hsigil, hrest⟩ | ⟨middle, hfront, -⟩
    · cases middle with
      | nil =>
        rw [List.append_nil] at hsigil
        exact hrule rest (by rw [hsigil])
      | cons d middle =>
        obtain ⟨rfl, rfl⟩ := sigil_text_split hsigil
        cases hj with
        | atEnd hr =>
          rw [hr] at hrest
          cases hrest
        | afterBreak hb hw => cases hb
        | withinLine hl hr hp => cases hl
    · exact hrule (middle ++ rest) (by rw [hfront, List.append_assoc])

end Opening

def Line.OpensBracket (line : Line) (raw : Text) : Prop :=
  line.kind = .prose ∧ raw.head? = some '['

namespace Step

variable {step : Step}

theorem joins (h : ofRules Rule.standard (front ++ rest) = .ok step)
    (hs : step.size = front.length) : Text.Joins front rest rest := by
  have hm := recognize_of_ok h
  rw [hs] at hm
  exact Opening.joins hm

theorem ne_nil_of_size (hs : step.size = front.length) : front ≠ [] := by
  have hpos := step.size_pos
  rw [hs] at hpos
  exact List.length_pos_iff.mp hpos

/-- Such a bracket is not closed in the rest of the text. -/
theorem bracketClose_notMem (h : ofRules Rule.standard (front ++ rest) = .ok step)
    (hs : step.size = front.length) (hb : step.line.OpensBracket front) :
    Mark.bracketClose ∉ front ∧ Mark.bracketClose ∉ rest := by
  obtain ⟨hkind, hhead⟩ := hb
  obtain ⟨c, front, rfl⟩ := List.exists_cons_of_ne_nil (ne_nil_of_size hs)
  obtain rfl : c = '[' := Option.some.inj hhead
  have hnone : Mark.bracketClose ∉ front ++ rest := by
    intro hm
    have ho : Opening.ofText ('[' :: front ++ rest) = .bracketTag :=
      Opening.ofText_eq_bracketTag_iff.mpr ⟨front ++ rest, rfl, hm⟩
    have hmem := Opening.kind_mem (recognize_of_ok h)
    rw [ho, hkind] at hmem
    exact absurd hmem (by decide)
  rw [List.mem_append, not_or] at hnone
  refine ⟨?_, hnone.2⟩
  intro hm
  rcases List.mem_cons.mp hm with hm | hm
  · cases hm
  · exact hnone.1 hm

/-- The standard rules take the same line before any text that joins it. Only an open bracket looks
further ahead. -/
theorem ofRules_frame (h : ofRules Rule.standard (front ++ rest) = .ok step)
    (hs : step.size = front.length) (hj : Text.Joins front rest rest')
    (hb : step.line.OpensBracket front → Mark.bracketClose ∉ rest') :
    ofRules Rule.standard (front ++ rest') = .ok step := by
  have hm := recognize_of_ok h
  apply ofRules_of_matched
  rw [hs] at hm ⊢
  by_cases ho : Opening.ofText (front ++ rest) = .prose
  · have hkind := Opening.kind_mem hm
    rw [ho] at hkind hm
    rw [Opening.ofText_frame (ne_nil_of_size hs) ho hj
      (fun hhead => hb ⟨List.mem_singleton.mp hkind, hhead⟩)]
    exact Opening.recognize_frame hm hj
  · exact Opening.recognize_of_matched _ ho (Opening.recognize_frame hm hj)

end Step

namespace PhysicalLine

theorem isPadding_append (hf : ∀ c ∈ lead, isBreak c = false)
    (hp : lead.all Playscript.isPadding = false) (rest : Text) :
    (ofText (lead ++ rest)).isPadding = false := by
  have hcontent : (ofText (lead ++ rest)).content =
      lead ++ rest.takeWhile (fun c => !isBreak c) := by
    change (lead ++ rest).takeWhile (fun c => !isBreak c) = _
    exact List.takeWhile_append_of_pos fun c hc => by simp [hf c hc]
  rw [PhysicalLine.isPadding, hcontent, List.all_append, hp, Bool.false_and]

theorem isPadding_cons {c : Char} (hb : isBreak c = false) (hp : Playscript.isPadding c = false)
    (rest : Text) : (ofText (c :: rest)).isPadding = false := by
  have hflat : ∀ d ∈ [c], isBreak d = false := by
    intro d hd
    rw [List.mem_singleton.mp hd]
    exact hb
  exact isPadding_append hflat (by simp [hp]) rest

end PhysicalLine

theorem Sigil.exists_head (sigil : Sigil) :
    ∃ c tail, sigil.text = c :: tail ∧ isBreak c = false ∧ isPadding c = false := by
  cases sigil <;> exact ⟨_, _, rfl, by decide, by decide⟩

theorem Opening.exists_head (h : Opening.ofText text ≠ .prose) :
    ∃ c tail, text = c :: tail ∧ isBreak c = false ∧ isPadding c = false := by
  obtain ⟨sigil, kept, hstrip⟩ := Opening.exists_sigil h
  obtain ⟨c, tail, hsigil, hbreak, hpad⟩ := sigil.exists_head
  refine ⟨c, tail ++ kept, ?_, hbreak, hpad⟩
  rw [Sigil.strip?_eq_some_iff.mp hstrip, hsigil, List.cons_append]

/-- Whether the line on which a step begins shows more than padding does not depend on what follows
the step. -/
theorem Step.isPadding_frame {step : Step} (h : ofRules Rule.standard (front ++ rest) = .ok step)
    (hs : step.size = front.length) (hp : (PhysicalLine.ofText (front ++ rest)).isPadding = false)
    (rest' : Text) : (PhysicalLine.ofText (front ++ rest')).isPadding = false := by
  by_cases ho : Opening.ofText (front ++ rest) = .prose
  · have hm := recognize_of_ok h
    rw [ho, hs] at hm
    obtain ⟨line, hopens, -, -⟩ := (Recognizer.prose_sound hm).2.2.opens
    rw [hopens.ofText_eq] at hp
    rw [List.append_cancel_right hopens.text_eq, PhysicalLine.text, List.append_assoc]
    exact PhysicalLine.isPadding_append hopens.content_flat hp _
  · obtain ⟨c, tail, htext, hbreak, hpad⟩ := Opening.exists_head ho
    obtain ⟨d, front, rfl⟩ := List.exists_cons_of_ne_nil (ne_nil_of_size hs)
    obtain rfl : d = c := (List.cons.inj htext).1
    exact PhysicalLine.isPadding_cons hbreak hpad (front ++ rest')

end Playscript
