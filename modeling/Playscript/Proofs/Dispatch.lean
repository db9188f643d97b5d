import Playscript.Proofs.Bounds
import Playscript.Proofs.Run

/-!
# Dispatch on the opening of a line

What a text begins with decides which rule takes it, and which kinds of line and which codes of
failure can come of that.
-/

namespace Playscript

namespace Recognizer

variable {text : Text}

theorem comment_eq_absent_iff : comment text = .absent ↔ Sigil.comment.strip? text = none := by
  unfold comment
  split
  next hs => simp [hs]
  next hs => simp [hs]

theorem blockComment_eq_absent_iff :
    blockComment text = .absent ↔ Sigil.blockComment.strip? text = none := by
  unfold blockComment
  split
  next hs => simp [hs]
  next hs =>
    simp only [hs, reduceCtorEq, iff_false]
    repeat' split
    all_goals simp

theorem cue_eq_absent_iff : cue text = .absent ↔ Sigil.cue.strip? text = none := by
  unfold cue
  split
  next hs => simp [hs]
  next hs =>
    simp only [hs, reduceCtorEq, iff_false]
    repeat' split
    all_goals simp

theorem label_eq_absent_iff : label text = .absent ↔ Sigil.label.strip? text = none := by
  unfold label
  split
  next hs => simp [hs]
  next hs =>
    simp only [hs, reduceCtorEq, iff_false]
    repeat' split
    all_goals simp

theorem tagBody_ne_absent (form : TagForm) (name body : Text) (offset stop : Nat) :
    tagBody form name body offset stop ≠ .absent := by
  unfold tagBody
  split
  · simp
  · split <;> simp

theorem lineTag_eq_absent_iff : lineTag text = .absent ↔ Sigil.lineTag.strip? text = none := by
  unfold lineTag
  split
  next hs => simp [hs]
  next hs =>
    simp only [hs, reduceCtorEq, iff_false]
    split
    · simp
    · exact tagBody_ne_absent _ _ _ _ _

theorem bracketTag_eq_absent_iff : bracketTag text = .absent ↔
    ∀ rest, Sigil.bracketTag.strip? text = some rest → Mark.bracketClose ∉ rest := by
  unfold bracketTag
  split
  next hs => simp [hs]
  next rest hs =>
    simp only [hs, Option.some.injEq, forall_eq', ← Text.cutAt?_eq_none_iff]
    split
    next hc => simp [hc]
    next hc =>
      simp only [hc, reduceCtorEq, iff_false]
      split
      · simp
      split
      · simp
      · exact tagBody_ne_absent _ _ _ _ _

theorem prose_eq_absent_iff : prose text = .absent ↔ text = [] := by
  unfold prose
  split
  next hne => simpa using hne
  next hne =>
    have hne : text ≠ [] := by simpa using hne
    simp only [hne, iff_false]
    split <;> simp

end Recognizer

/-- A bracket opens a tag only if it is closed somewhere. -/
inductive Opening where
  | comment
  | blockComment
  | bracketTag
  | label
  | cue
  | lineTag
  | prose
  deriving DecidableEq, Repr

namespace Opening

def ofText : Text → Opening
  | ';' :: _ => comment
  | '/' :: '*' :: _ => blockComment
  | '[' :: rest => if Mark.bracketClose ∈ rest then bracketTag else prose
  | '*' :: _ => label
  | '#' :: _ => cue
  | '@' :: _ => lineTag
  | _ => prose

def rule : Opening → Rule
  | comment => Rule.comment
  | blockComment => Rule.blockComment
  | bracketTag => Rule.bracketTag
  | label => Rule.label
  | cue => Rule.cue
  | lineTag => Rule.lineTag
  | prose => Rule.prose

def sigil? : Opening → Option Sigil
  | comment => some .comment
  | blockComment => some .blockComment
  | bracketTag => some .bracketTag
  | label => some .label
  | cue => some .cue
  | lineTag => some .lineTag
  | prose => none

def kinds : Opening → List Kind
  | comment => [.comment]
  | blockComment => [.blockComment]
  | bracketTag => [.bracketTag]
  | label => [.label]
  | cue => [.cue, .narration]
  | lineTag => [.lineTag]
  | prose => [.prose]

def codes : Opening → List Code
  | comment => []
  | blockComment => [.blockComment]
  | bracketTag => [.bracketTag, .parameter]
  | label => [.label]
  | cue => [.cue]
  | lineTag => [.lineTag, .parameter]
  | prose => []

variable {text : Text} {opening : Opening} {sigil : Sigil}

theorem ofText_eq_bracketTag_iff : ofText text = bracketTag ↔
    ∃ rest, text = Sigil.bracketTag.text ++ rest ∧ Mark.bracketClose ∈ rest := by
  unfold ofText
  split <;> simp_all [Sigil.text]

theorem ofText_eq_iff (h : opening.sigil? = some sigil) (hb : opening ≠ .bracketTag) :
    ofText text = opening ↔ ∃ rest, text = sigil.text ++ rest := by
  cases opening with
  | bracketTag => exact (hb rfl).elim
  | prose => cases h
  | _ =>
    obtain rfl := Option.some.inj h
    unfold ofText
    split <;> simp_all [Sigil.text]
    split <;> simp

theorem exists_sigil?_eq (h : opening ≠ .prose) : ∃ sigil, opening.sigil? = some sigil := by
  cases opening with
  | prose => exact (h rfl).elim
  | _ => exact ⟨_, rfl⟩

theorem recognize_eq_absent_of_sigil (h : opening.sigil? = some sigil)
    (hb : opening ≠ .bracketTag) :
    opening.rule.recognize text = .absent ↔ sigil.strip? text = none := by
  cases opening with
  | comment => cases h; exact Recognizer.comment_eq_absent_iff
  | blockComment => cases h; exact Recognizer.blockComment_eq_absent_iff
  | bracketTag => exact (hb rfl).elim
  | label => cases h; exact Recognizer.label_eq_absent_iff
  | cue => cases h; exact Recognizer.cue_eq_absent_iff
  | lineTag => cases h; exact Recognizer.lineTag_eq_absent_iff
  | prose => cases h

theorem recognize_eq_absent_iff (h : opening ≠ .prose) :
    opening.rule.recognize text = .absent ↔ ofText text ≠ opening := by
  by_cases hb : opening = .bracketTag
  · subst hb
    refine Recognizer.bracketTag_eq_absent_iff.trans ?_
    rw [ne_eq, ofText_eq_bracketTag_iff]
    simp only [Sigil.strip?_eq_some_iff, not_exists, not_and]
  · obtain ⟨sigil, hs⟩ := exists_sigil?_eq h
    rw [recognize_eq_absent_of_sigil hs hb, ne_eq, ofText_eq_iff hs hb,
      Option.eq_none_iff_forall_ne_some]
    simp only [ne_eq, Sigil.strip?_eq_some_iff, not_exists]

theorem recognize_ofText_ne_absent (hne : text ≠ []) :
    (ofText text).rule.recognize text ≠ .absent := by
  by_cases hp : ofText text = .prose
  · rw [hp]
    intro h
    exact hne (Recognizer.prose_eq_absent_iff.mp h)
  · intro h
    exact (recognize_eq_absent_iff hp).mp h rfl

/-- Where a rule with a sigil matches, it is the rule of the opening. -/
theorem recognize_of_matched (opening : Opening) {line : Line} {size : Nat} (hp : opening ≠ .prose)
    (h : opening.rule.recognize text = .matched line size) :
    (ofText text).rule.recognize text = .matched line size := by
  by_cases ho : ofText text = opening
  · rw [ho, h]
  · rw [(recognize_eq_absent_iff hp).mpr ho] at h
    cases h

theorem exists_sigil (h : ofText text ≠ .prose) :
    ∃ sigil rest, Sigil.strip? sigil text = some rest := by
  by_cases hb : ofText text = .bracketTag
  · obtain ⟨rest, htext, -⟩ := ofText_eq_bracketTag_iff.mp hb
    exact ⟨.bracketTag, rest, Sigil.strip?_eq_some_iff.mpr htext⟩
  · obtain ⟨sigil, hs⟩ := exists_sigil?_eq h
    obtain ⟨rest, htext⟩ := (ofText_eq_iff hs hb).mp rfl
    exact ⟨sigil, rest, Sigil.strip?_eq_some_iff.mpr htext⟩

theorem kind_mem {line : Line} {size : Nat} (h : opening.rule.recognize text = .matched line size) :
    line.kind ∈ opening.kinds := by
  cases opening with
  | comment =>
    rw [(Recognizer.comment_sound h).1]
    decide
  | blockComment =>
    obtain ⟨body, after, -, -, -, -, rfl, -⟩ := Recognizer.blockComment_eq_matched_iff.mp h
    exact List.mem_singleton.mpr rfl
  | bracketTag =>
    obtain ⟨inside, after, -, -, -, -, -, -, -, -, -, -, -, rfl, -⟩ :=
      Recognizer.bracketTag_sound h
    exact List.mem_singleton.mpr rfl
  | label =>
    rw [(Recognizer.label_sound h).1]
    decide
  | cue =>
    rcases (Recognizer.cue_sound h).1 with hk | hk
    · rw [hk]
      decide
    · rw [hk]
      decide
  | lineTag =>
    rw [(Recognizer.lineTag_sound h).1]
    decide
  | prose =>
    rw [(Recognizer.prose_sound h).1]
    decide

theorem isCut {line : Line} {size : Nat} (h : opening.rule.recognize text = .matched line size) :
    text.IsCut size := by
  cases opening with
  | comment => exact Recognizer.comment_isCut h
  | blockComment => exact Recognizer.blockComment_isCut h
  | bracketTag => exact Recognizer.bracketTag_isCut h
  | label => exact Recognizer.label_isCut h
  | cue => exact Recognizer.cue_isCut h
  | lineTag => exact Recognizer.lineTag_isCut h
  | prose => exact Recognizer.prose_isCut h

theorem code_mem {refusal : Refusal} (h : opening.rule.recognize text = .refused refusal) :
    refusal.fault.code ∈ opening.codes ∧ refusal.offset ≤ text.length := by
  cases opening with
  | comment => exact (Recognizer.comment_ne_refused text refusal h).elim
  | blockComment =>
    obtain ⟨hcode, hoff⟩ := Recognizer.blockComment_refused h
    exact ⟨by simp [codes, hcode], Nat.le_of_lt hoff⟩
  | bracketTag =>
    obtain ⟨hcode, hoff⟩ := Recognizer.bracketTag_refused h
    exact ⟨by simpa [codes] using hcode, Nat.le_of_lt hoff⟩
  | label =>
    obtain ⟨hcode, hoff⟩ := Recognizer.label_refused h
    exact ⟨by simp [codes, hcode], hoff⟩
  | cue =>
    obtain ⟨hcode, hoff⟩ := Recognizer.cue_refused h
    exact ⟨by simp [codes, hcode], hoff⟩
  | lineTag =>
    obtain ⟨hcode, hoff⟩ := Recognizer.lineTag_refused h
    exact ⟨by simpa [codes] using hcode, hoff⟩
  | prose => exact (Recognizer.prose_ne_refused text refusal h).elim

def Allows (opening : Opening) (text : Text) : Except Refusal Step → Prop
  | .ok step => step.line.kind ∈ opening.kinds
  | .error refusal => refusal.fault.code ∈ opening.codes ∧ refusal.offset ≤ text.length

end Opening

namespace Step

variable {rule : Rule} {rules : List Rule} {text : Text}

theorem ofRules_of_absent (h : rule.recognize text = .absent) :
    ofRules (rule :: rules) text = ofRules rules text := by
  rw [ofRules, h]

theorem ofRules_of_present (h : rule.recognize text ≠ .absent) :
    ofRules (rule :: rules) text = ofRules [rule] text := by
  cases ho : rule.recognize text with
  | absent => exact (h ho).elim
  | refused refusal => simp [ofRules, ho]
  | matched line size => simp [ofRules, ho]

/-- Whatever the order of the rules with a sigil, only that of the opening can find anything. -/
theorem ofRules_map_rule {openings : List Opening} (hp : .prose ∉ openings) :
    ofRules (openings.map Opening.rule ++ rules) text =
      if Opening.ofText text ∈ openings then ofRules [(Opening.ofText text).rule] text
      else ofRules rules text := by
  induction openings with
  | nil => simp
  | cons opening openings ih =>
    rw [List.mem_cons, not_or] at hp
    rw [List.map_cons, List.cons_append]
    by_cases ho : Opening.ofText text = opening
    · have hpresent : opening.rule.recognize text ≠ .absent := by
        intro h
        exact (Opening.recognize_eq_absent_iff (Ne.symm hp.1)).mp h ho
      rw [ofRules_of_present hpresent, if_pos (by rw [ho]; exact List.mem_cons_self), ho]
    · rw [ofRules_of_absent ((Opening.recognize_eq_absent_iff (Ne.symm hp.1)).mpr ho), ih hp.2]
      simp [ho]

theorem ofRules_standard (text : Text) :
    ofRules Rule.standard text = ofRules [(Opening.ofText text).rule] text := by
  have h := @ofRules_map_rule [Rule.prose] text
    [.comment, .blockComment, .bracketTag, .label, .cue, .lineTag] (by decide)
  change ofRules Rule.standard text = _ at h
  rw [h]
  split
  · rfl
  · cases ho : Opening.ofText text <;> simp_all [Opening.rule]

theorem exists_rule_of_ok {step : Step} (h : ofRules rules text = .ok step) :
    ∃ rule ∈ rules, rule.recognize text = .matched step.line step.size := by
  induction rules with
  | nil => cases h
  | cons rule rules ih =>
    cases ho : rule.recognize text with
    | absent =>
      rw [ofRules_of_absent ho] at h
      obtain ⟨found, hm, hf⟩ := ih h
      exact ⟨found, List.mem_cons_of_mem rule hm, hf⟩
    | refused refusal => simp [ofRules, ho] at h
    | matched line size =>
      rw [ofRules, ho] at h
      dsimp only at h
      split at h
      · obtain rfl := Except.ok.inj h
        exact ⟨rule, List.mem_cons_self, ho⟩
      · cases h

theorem exists_opening_of_ok {step : Step} (h : ofRules Rule.standard text = .ok step) :
    ∃ opening : Opening, opening.rule.recognize text = .matched step.line step.size := by
  rw [ofRules_standard] at h
  obtain ⟨rule, hmem, hmatch⟩ := exists_rule_of_ok h
  rw [List.mem_singleton.mp hmem] at hmatch
  exact ⟨_, hmatch⟩

theorem recognize_of_ok {step : Step} (h : ofRules Rule.standard text = .ok step) :
    (Opening.ofText text).rule.recognize text = .matched step.line step.size := by
  rw [ofRules_standard] at h
  obtain ⟨rule, hmem, hmatch⟩ := exists_rule_of_ok h
  rwa [List.mem_singleton.mp hmem] at hmatch

theorem ofRules_of_matched {step : Step}
    (h : (Opening.ofText text).rule.recognize text = .matched step.line step.size) :
    ofRules Rule.standard text = .ok step := by
  rw [ofRules_standard]
  simp [ofRules, h, step.size_pos]

theorem recognize_of_error {refusal : Refusal} (hne : text ≠ [])
    (h : ofRules Rule.standard text = .error refusal) :
    (Opening.ofText text).rule.recognize text = .refused refusal := by
  rw [ofRules_standard] at h
  cases ho : (Opening.ofText text).rule.recognize text with
  | absent => exact (Opening.recognize_ofText_ne_absent hne ho).elim
  | refused found =>
    simp only [ofRules, ho] at h
    rw [Except.error.inj h]
  | matched line size =>
    simp only [ofRules, ho, (Opening.isCut ho).pos, dite_true] at h
    cases h

/-- The opening alone decides what may come of a round. -/
theorem allows_ofRules (hne : text ≠ []) :
    (Opening.ofText text).Allows text (ofRules Rule.standard text) := by
  rw [ofRules_standard]
  cases ho : (Opening.ofText text).rule.recognize text with
  | absent => exact (Opening.recognize_ofText_ne_absent hne ho).elim
  | refused refusal =>
    simp only [ofRules, ho]
    exact Opening.code_mem ho
  | matched line size =>
    simp only [ofRules, ho, (Opening.isCut ho).pos, dite_true]
    exact Opening.kind_mem ho

end Step

structure Failure.Concerns (failure : Failure) (source : Text) (start : Nat) : Prop where
  refused : ∃ refusal, Step.ofRules Rule.standard (source.drop start) = .error refusal ∧
    failure = .ofComplaint (refusal.fault.complaint source (start + refusal.offset))
  code_mem : failure.diagnostic.code ∈ (Opening.ofText (source.drop start)).codes
  is_reading : Family.reading ∈ failure.family.ancestry
  family_eq : failure.family = Family.ofCode failure.diagnostic.code
  start_le : start ≤ failure.offset
  le_length : failure.offset ≤ source.length
  remaining_eq : failure.remaining = source.drop failure.offset
  place_eq : failure.place = Place.ofOffset source failure.offset

namespace Opening

/-- No opening leads to a code about the document as a whole, or about a bare identifier. -/
theorem codes_of_constructs (opening : Opening) {code : Code} (h : code ∈ opening.codes) :
    code ∉ [Code.identifier, .unrecognizedLine, .noProgress, .emptyDocument] ∧
      Family.reading ∈ (Family.ofCode code).ancestry := by
  cases opening <;> cases code <;> simp_all [codes, Family.ofCode, Family.ancestry]

end Opening

theorem Refusal.concerns {source : Text} {start : Nat} {refusal : Refusal}
    (h : start < source.length)
    (hs : Step.ofRules Rule.standard (source.drop start) = .error refusal) :
    (Failure.ofComplaint (refusal.fault.complaint source (start + refusal.offset))).Concerns
      source start := by
  have hallows := Step.allows_ofRules (Text.drop_ne_nil h)
  rw [hs] at hallows
  obtain ⟨hcode, hoff⟩ := hallows
  rw [List.length_drop] at hoff
  constructor
  · exact ⟨refusal, hs, rfl⟩
  · exact hcode
  · exact (Opening.codes_of_constructs _ hcode).2
  · rfl
  · exact Nat.le_add_right start refusal.offset
  · change start + refusal.offset ≤ source.length
    omega
  · rfl
  · rfl

namespace Reader

/-- The standard rules give a script, or one failure that concerns the construct at which the run
stopped. Whatever starts a line, its opening decides what comes of it. -/
theorem parse_standard_dispatch (limit : Int) {source : Text} (hne : source ≠ [])
    (hsize : ¬ (Reader.mk limit Rule.standard).excludes source.length) :
    (∀ start, Starts Rule.standard source start → start < source.length →
      (Opening.ofText (source.drop start)).Allows (source.drop start)
        (Step.ofRules Rule.standard (source.drop start))) ∧
    ((∃ lines, (Reader.mk limit Rule.standard).parse source =
        .ok ⟨.script lines, source, some (.ofSize 0 source.length)⟩ ∧
        ∀ line ∈ lines, ∃ start step, Starts Rule.standard source start ∧ start < source.length ∧
          Step.ofRules Rule.standard (source.drop start) = .ok step ∧
          line = step.located start (source.drop start)) ∨
      ∃ failure start, (Reader.mk limit Rule.standard).parse source = .error (.malformed failure) ∧
        Starts Rule.standard source start ∧ start < source.length ∧
        failure.Concerns source start ∧
        failure.diagnostic.code ∉
          [Code.identifier, .unrecognizedLine, .noProgress, .emptyDocument]) := by
  constructor
  · intro start _ h
    exact Step.allows_ofRules (Text.drop_ne_nil h)
  obtain ⟨rounds, -, lines, refusal, hrun⟩ := exists_run ⟨limit, Rule.standard⟩ source
  obtain ⟨hlines, hrefusal⟩ := hrun.starts .zero
  cases refusal with
  | none => exact Or.inl ⟨lines, parse_of_run hsize hne hrun, hlines⟩
  | some refusal =>
    obtain ⟨start, inner, hstart, h, hs, rfl⟩ := hrefusal refusal rfl
    have hc := Refusal.concerns h hs
    exact Or.inr ⟨_, start, parse_of_refusal hsize hne hrun, hstart, h, hc,
      (Opening.codes_of_constructs _ hc.code_mem).1⟩

theorem parse_standard_dispatch_namelessCue : ∃ failure start,
    (Reader.mk 2 Rule.standard).parse ['#', ':'] = .error (.malformed failure) ∧ start < 2 ∧
      failure.Concerns ['#', ':'] start := by
  obtain ⟨-, ⟨lines, hok, -⟩ | ⟨failure, start, hfail, -, h, hc, -⟩⟩ :=
    @parse_standard_dispatch 2 ['#', ':'] (by decide) (by decide)
  · have hrun : Run Rule.standard ['#', ':'] 1 0 [] (some ⟨.namelessCue, 1⟩) :=
      @Run.refused Rule.standard ['#', ':'] 0 ⟨.namelessCue, 1⟩ (by decide) rfl
    rw [parse_of_refusal (by decide) (by decide) hrun] at hok
    cases hok
  · exact ⟨failure, start, hfail, h, hc⟩

end Reader

end Playscript
