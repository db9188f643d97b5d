import Playscript.Proofs.Segment
import Playscript.Proofs.UnifiedLines

/-!
# Sources that differ in their line endings

The endings of the lines of a source can be exchanged for others. What is read stays the same but
for breaks inside a line, and so does a failure and the place on its line.
-/

namespace Playscript

variable {front rest text : Text} {lines : List (Located Line)} {offset : Nat} {refusal : Refusal}

namespace Opening

theorem recognize_mirrors (opening : Opening) (text : Text) :
    (opening.rule.recognize text).Mirrors Line.SameUpToBreaks text
      (opening.rule.recognize text.unifyBreaks) := by
  cases opening with
  | comment =>
    apply Recognizer.comment_readsLine.mirrors
    intro text refusal h
    exact (Recognizer.comment_ne_refused text refusal h).elim
  | blockComment => exact Recognizer.blockComment_mirrors text
  | bracketTag => exact Recognizer.bracketTag_mirrors text
  | label =>
    exact Recognizer.label_readsLine.mirrors (fun _ _ h => (Recognizer.label_refused h).2) text
  | cue => exact Recognizer.cue_readsLine.mirrors (fun _ _ h => (Recognizer.cue_refused h).2) text
  | lineTag =>
    exact Recognizer.lineTag_readsLine.mirrors (fun _ _ h => (Recognizer.lineTag_refused h).2) text
  | prose => exact Recognizer.prose_mirrors text

theorem onLine_of_refused {opening : Opening} (h : opening.rule.recognize text = .refused refusal) :
    text.OnLine refusal.offset := by
  cases opening with
  | comment => exact (Recognizer.comment_ne_refused text refusal h).elim
  | blockComment => exact Or.inl (Recognizer.blockComment_refused h).2
  | bracketTag => exact Or.inl (Recognizer.bracketTag_refused h).2
  | label =>
    exact Text.onLine_content
      (Recognizer.label_readsLine.offset_le (fun _ _ h => (Recognizer.label_refused h).2) h)
  | cue =>
    exact Text.onLine_content
      (Recognizer.cue_readsLine.offset_le (fun _ _ h => (Recognizer.cue_refused h).2) h)
  | lineTag =>
    exact Text.onLine_content
      (Recognizer.lineTag_readsLine.offset_le (fun _ _ h => (Recognizer.lineTag_refused h).2) h)
  | prose => exact (Recognizer.prose_ne_refused text refusal h).elim

end Opening

namespace Step

theorem ofRules_mirrors {rules : List Rule}
    (hr : ∀ rule ∈ rules, (rule.recognize text).Mirrors Line.SameUpToBreaks text
      (rule.recognize text.unifyBreaks)) :
    Refusal.Mirrors (fun a b => a.line.SameUpToBreaks b.line ∧ text.Meets a.size b.size) text
      (ofRules rules text) (ofRules rules text.unifyBreaks) := by
  induction rules with
  | nil => exact .error text.meets_zero
  | cons rule rules ih =>
    have hrule := hr rule List.mem_cons_self
    have hmore := ih fun other hm => hr other (List.mem_cons_of_mem _ hm)
    generalize hfound : rule.recognize text = found at hrule
    generalize hfound' : rule.recognize text.unifyBreaks = found' at hrule
    cases hrule with
    | absent =>
      rw [ofRules_of_absent hfound, ofRules_of_absent hfound']
      exact hmore
    | refused hm =>
      simp only [ofRules, hfound, hfound']
      exact .error hm
    | @matched line line' near far hs hm =>
      simp only [ofRules, hfound, hfound']
      by_cases hpos : 0 < near
      · rw [dif_pos hpos, dif_pos (hm.pos_iff.mp hpos)]
        exact .ok ⟨hs, hm⟩
      · rw [dif_neg hpos, dif_neg (mt hm.pos_iff.mpr hpos)]
        exact .error text.meets_zero

theorem ofRules_standard_mirrors (text : Text) :
    Refusal.Mirrors (fun a b => a.line.SameUpToBreaks b.line ∧ text.Meets a.size b.size) text
      (ofRules Rule.standard text) (ofRules Rule.standard text.unifyBreaks) := by
  apply ofRules_mirrors
  intro rule hrule
  obtain ⟨opening, -, rfl⟩ : ∃ opening ∈ [Opening.comment, .blockComment, .bracketTag, .label, .cue,
      .lineTag, .prose], opening.rule = rule := List.mem_map.mp hrule
  exact opening.recognize_mirrors text

theorem onLine_of_error (hne : text ≠ []) (h : ofRules Rule.standard text = .error refusal) :
    text.OnLine refusal.offset :=
  Opening.onLine_of_refused (recognize_of_error hne h)

end Step

inductive Document.SameUpToBreaks : Document → Document → Prop
  | empty : SameUpToBreaks .empty .empty
  | script {lines lines' : List (Located Line)}
      (h : List.Forall₂ (fun a b => a.content.SameUpToBreaks b.content) lines lines') :
      SameUpToBreaks (.script lines) (.script lines')

theorem Located.sameUpToBreaks_of_common {first second common : List (Located Line)}
    (h : List.Forall₂ (fun a b => a.content.SameUpToBreaks b.content) first common)
    (k : List.Forall₂ (fun a b => a.content.SameUpToBreaks b.content) second common) :
    List.Forall₂ (fun a b => a.content.SameUpToBreaks b.content) first second := by
  induction h generalizing second with
  | nil =>
    cases k with
    | nil => exact .nil
  | cons h _ ih =>
    cases k with
    | cons k hk => exact .cons (h.trans k.symm) (ih hk)

theorem Document.SameUpToBreaks.of_common {first second common : Document}
    (h : first.SameUpToBreaks common) (k : second.SameUpToBreaks common) :
    first.SameUpToBreaks second := by
  cases h with
  | empty =>
    cases k with
    | empty => exact .empty
  | script h =>
    cases k with
    | script k => exact .script (Located.sameUpToBreaks_of_common h k)

/-- The unified text of a segment is a segment of the unified source. -/
theorem Segment.mirrors (h : Segment offset front rest lines) (offset' : Nat) :
    Text.Apart front rest ∧ ∃ lines',
      Segment offset' front.unifyBreaks rest.unifyBreaks lines' ∧
      List.Forall₂ (fun a b => a.content.SameUpToBreaks b.content) lines lines' := by
  induction h generalizing offset' with
  | nil offset rest => exact ⟨Text.apart_of_flat rfl, [], .nil _ _, .nil⟩
  | @cons offset front more rest step lines hs hsize _ ih =>
    have hstep := Step.ofRules_standard_mirrors (front ++ (more ++ rest))
    rw [hs] at hstep
    generalize hfound :
      Step.ofRules Rule.standard (Text.unifyBreaks (front ++ (more ++ rest))) = found at hstep
    cases hstep with
    | @ok _ step' hmatch =>
      obtain ⟨hline, hm⟩ := hmatch
      rw [hsize] at hm
      obtain ⟨hapart, hsize'⟩ := hm.of_length
      obtain ⟨hmore, lines', hseg, hlines⟩ := ih (offset' + front.unifyBreaks.length)
      -- No line ends inside a break, so the lines may be unified one by one.
      rw [Text.unifyBreaks_append hapart, Text.unifyBreaks_append hmore] at hfound
      have hcons := Segment.cons hfound hsize' hseg
      rw [← Text.unifyBreaks_append hapart.of_append_right] at hcons
      exact ⟨hapart.append hmore, _, hcons, .cons hline hlines⟩

namespace Reader

/-- A source and its unified text are both read, as the same up to breaks, or both are refused, for
the same fault and at offsets that correspond. -/
theorem parse_mirrors (source : Text) :
    (∃ document document', (unlimited Rule.standard).parse source = .ok document ∧
      (unlimited Rule.standard).parse source.unifyBreaks = .ok document' ∧
      document.content.SameUpToBreaks document'.content) ∨
    ∃ failure failure', (unlimited Rule.standard).parse source = .error (.malformed failure) ∧
      (unlimited Rule.standard).parse source.unifyBreaks = .error (.malformed failure') ∧
      failure.diagnostic.code = failure'.diagnostic.code ∧
      failure.diagnostic.message = failure'.diagnostic.message ∧
      source.Meets failure.offset failure'.offset ∧ source.OnLine failure.offset ∧ source ≠ [] := by
  cases hparse : (unlimited Rule.standard).parse source with
  | ok document =>
    left
    obtain ⟨lines, hseg, rfl⟩ := segment_of_parse hparse
    obtain ⟨-, lines', hseg', hlines⟩ := hseg.mirrors 0
    refine ⟨_, _, rfl, parse_of_segment hseg', ?_⟩
    by_cases hne : source = []
    · subst hne
      exact .empty
    · have hne' : source.unifyBreaks ≠ [] := by rwa [ne_eq, Text.unifyBreaks_eq_nil_iff]
      simp only [Located.ofSource, List.isEmpty_iff, hne, hne', if_false]
      exact .script hlines
  | error e =>
    right
    obtain ⟨front, rest, lines, inner, rfl, hseg, hne, hs, rfl⟩ := segment_of_error hparse
    obtain ⟨hapart, lines', hseg', -⟩ := hseg.mirrors 0
    have hstep := Step.ofRules_standard_mirrors rest
    have hon := Step.onLine_of_error hne hs
    rw [hs] at hstep
    generalize hfound : Step.ofRules Rule.standard rest.unifyBreaks = found at hstep
    cases hstep with
    | @error fault near far hm =>
      have hne' : rest.unifyBreaks ≠ [] := by rwa [ne_eq, Text.unifyBreaks_eq_nil_iff]
      have hrefused := parse_of_refused hseg' hne' hfound
      rw [← Text.unifyBreaks_append hapart] at hrefused
      refine ⟨_, _, rfl, hrefused, rfl, rfl, hm.append hapart, hon.append hne, ?_⟩
      exact List.append_ne_nil_of_right_ne_nil front hne

/-- Sources that agree line by line, and either both or neither of which end in a break, are both
read or both refused, whatever breaks they use: as the same document up to breaks, or with the same
code and message at the same column of the same line. -/
theorem parse_lineContents {s t : Text} (hl : s.lineContents = t.lineContents)
    (he : s.endsInBreak = t.endsInBreak) :
    (∃ document document', (unlimited Rule.standard).parse s = .ok document ∧
      (unlimited Rule.standard).parse t = .ok document' ∧
      document.content.SameUpToBreaks document'.content) ∨
    ∃ failure failure' index column,
      (unlimited Rule.standard).parse s = .error (.malformed failure) ∧
      (unlimited Rule.standard).parse t = .error (.malformed failure') ∧
      failure.diagnostic.code = failure'.diagnostic.code ∧
      failure.diagnostic.message = failure'.diagnostic.message ∧
      s.PointsAt failure.offset index column ∧ t.PointsAt failure'.offset index column := by
  have hunified := Text.unifyBreaks_eq_of_lineContents hl he
  have ht := parse_mirrors t
  rw [← hunified] at ht
  rcases parse_mirrors s with ⟨d, common, hs, hc, hsame⟩ |
    ⟨f, common, hs, hc, hcode, hmessage, hm, hon, hne⟩
  · left
    rcases ht with ⟨d', common', ht, hc', hsame'⟩ | ⟨f', common', -, hc', -⟩
    · obtain rfl := Except.ok.inj (hc.symm.trans hc')
      exact ⟨d, d', hs, ht, hsame.of_common hsame'⟩
    · rw [hc] at hc'
      cases hc'
  · right
    rcases ht with ⟨d', common', -, hc', -⟩ |
      ⟨f', common', ht, hc', hcode', hmessage', hm', hon', hne'⟩
    · rw [hc] at hc'
      cases hc'
    · obtain rfl := ReadError.malformed.inj (Except.error.inj (hc.symm.trans hc'))
      obtain ⟨index, column, hpoints, hplace⟩ := hm.exists_pointsAt hon hne
      obtain ⟨index', column', hpoints', hplace'⟩ := hm'.exists_pointsAt hon' hne'
      rw [hunified, hplace'] at hplace
      obtain ⟨hindex, hcolumn⟩ := Place.mk.inj hplace
      obtain rfl : index' = index := by omega
      obtain rfl : column' = column := by omega
      exact ⟨f, f', index', column', hs, ht, hcode.trans hcode'.symm,
        hmessage.trans hmessage'.symm, hpoints, hpoints'⟩

theorem parse_lineContents_textAfterComment : ∃ failure failure' index column,
    (unlimited Rule.standard).parse ['/', '*', '\r', '\n', '*', '/', 'x'] =
      .error (.malformed failure) ∧
    (unlimited Rule.standard).parse ['/', '*', '\r', '*', '/', 'x'] = .error (.malformed failure') ∧
    failure.offset = 6 ∧ failure'.diagnostic.message = Fault.textAfterComment.message ∧
    Text.PointsAt ['/', '*', '\r', '\n', '*', '/', 'x'] 6 index column ∧
    Text.PointsAt ['/', '*', '\r', '*', '/', 'x'] failure'.offset index column := by
  have hparse := @parse_of_refused [] ['/', '*', '\r', '\n', '*', '/', 'x'] []
    ⟨.textAfterComment, 6⟩ (.nil 0 _) (by decide) rfl
  rw [List.nil_append] at hparse
  rcases @parse_lineContents ['/', '*', '\r', '\n', '*', '/', 'x'] ['/', '*', '\r', '*', '/', 'x']
      (by decide +kernel) (by decide) with
    ⟨document, -, hs, -⟩ |
    ⟨failure, failure', index, column, hs, ht, -, hmessage, hpoints, hpoints'⟩
  · rw [hparse] at hs
    cases hs
  · rw [hparse] at hs
    obtain rfl := ReadError.malformed.inj (Except.error.inj hs)
    exact ⟨_, failure', index, column, hparse, ht, rfl, hmessage.symm, hpoints, hpoints'⟩

end Reader

end Playscript
