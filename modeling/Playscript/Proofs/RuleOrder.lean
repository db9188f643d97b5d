import Playscript.Cursor
import Playscript.Proofs.Dispatch

/-!
# The order of the rules

The rules with a sigil exclude each other: where one of them finds anything, no other does. Lists of
the same rules, in whatever order and however often each is repeated, thus read every source alike
as long as prose stays last.
-/

namespace Playscript

variable {rule : Rule} {rules first second : List Rule} {source text : Text}

def Rule.sigils : List Rule := [comment, blockComment, bracketTag, label, cue, lineTag]

namespace Opening

theorem rule_injective {a b : Opening} (h : a.rule = b.rule) : a = b := by
  have hname := congrArg Rule.name h
  revert hname
  cases a <;> cases b <;> decide

theorem mem_map_rule {opening : Opening} {openings : List Opening} :
    opening.rule ∈ openings.map Opening.rule ↔ opening ∈ openings := by
  constructor
  · intro h
    obtain ⟨other, hmem, heq⟩ := List.mem_map.mp h
    exact rule_injective heq ▸ hmem
  · exact List.mem_map_of_mem

end Opening

namespace Rule

theorem exists_opening_of_sigils (h : rule ∈ sigils) :
    ∃ opening : Opening, opening ≠ .prose ∧ rule = opening.rule := by
  simp only [sigils, List.mem_cons, List.not_mem_nil, or_false] at h
  rcases h with rfl | rfl | rfl | rfl | rfl | rfl
  · exact ⟨.comment, by decide, rfl⟩
  · exact ⟨.blockComment, by decide, rfl⟩
  · exact ⟨.bracketTag, by decide, rfl⟩
  · exact ⟨.label, by decide, rfl⟩
  · exact ⟨.cue, by decide, rfl⟩
  · exact ⟨.lineTag, by decide, rfl⟩

theorem exists_openings_of_sigils (h : ∀ rule ∈ rules, rule ∈ sigils) :
    ∃ openings : List Opening, .prose ∉ openings ∧ rules = openings.map Opening.rule := by
  induction rules with
  | nil => exact ⟨[], by simp, rfl⟩
  | cons rule rules ih =>
    obtain ⟨opening, hprose, rfl⟩ := exists_opening_of_sigils (h rule List.mem_cons_self)
    obtain ⟨openings, hother, rfl⟩ := ih fun other hmem => h other (List.mem_cons_of_mem _ hmem)
    refine ⟨opening :: openings, ?_, rfl⟩
    intro hmem
    rcases List.mem_cons.mp hmem with heq | hmem
    · exact hprose heq.symm
    · exact hother hmem

theorem eq_of_present {a b : Rule} (ha : a ∈ sigils) (hb : b ∈ sigils)
    (hpa : a.recognize text ≠ .absent) (hpb : b.recognize text ≠ .absent) : a = b := by
  obtain ⟨opening, hprose, rfl⟩ := exists_opening_of_sigils ha
  obtain ⟨other, hother, rfl⟩ := exists_opening_of_sigils hb
  rw [ne_eq, Opening.recognize_eq_absent_iff hprose, not_not] at hpa
  rw [ne_eq, Opening.recognize_eq_absent_iff hother, not_not] at hpb
  rw [← hpa, ← hpb]

end Rule

/-- One round comes out alike, since the opening of the text singles out the rule that decides. -/
theorem Step.ofRules_sigils (hf : ∀ rule ∈ first, rule ∈ Rule.sigils)
    (hs : ∀ rule ∈ second, rule ∈ Rule.sigils) (h : ∀ rule, rule ∈ first ↔ rule ∈ second)
    (rest : List Rule) (text : Text) :
    Step.ofRules (first ++ rest) text = Step.ofRules (second ++ rest) text := by
  obtain ⟨openings, hprose, rfl⟩ := Rule.exists_openings_of_sigils hf
  obtain ⟨others, hother, rfl⟩ := Rule.exists_openings_of_sigils hs
  have hmem : Opening.ofText text ∈ openings ↔ Opening.ofText text ∈ others := by
    rw [← Opening.mem_map_rule, h, Opening.mem_map_rule]
  rw [ofRules_map_rule hprose, ofRules_map_rule hother]
  by_cases ho : Opening.ofText text ∈ openings
  · rw [if_pos ho, if_pos (hmem.mp ho)]
  · rw [if_neg ho, if_neg fun hin => ho (hmem.mpr hin)]

theorem Run.of_ofRules_eq (h : ∀ text, Step.ofRules first text = Step.ofRules second text)
    {rounds offset : Nat} {lines : List (Located Line)} {refusal : Option Refusal}
    (hrun : Run first source rounds offset lines refusal) :
    Run second source rounds offset lines refusal := by
  induction hrun with
  | finished hend => exact .finished hend
  | refused hlt hs =>
    rw [h] at hs
    exact .refused hlt hs
  | line hlt hs _ ih =>
    rw [h] at hs
    exact .line hlt hs ih

theorem Composition.ofText_of_ofRules_eq
    (h : ∀ text, Step.ofRules first text = Step.ofRules second text) (source : Text) :
    Composition.ofText first 0 source = Composition.ofText second 0 source := by
  obtain ⟨rounds, -, hrun⟩ := Run.exists_ofText first source 0
  have hother := (hrun.of_ofRules_eq h).ofText_eq
  rw [List.drop_zero] at hother
  exact hother.symm

namespace Reader

theorem read_of_composition (limit : Int)
    (h : Composition.ofText first 0 source = Composition.ofText second 0 source) :
    (Reader.mk limit first).read source = (Reader.mk limit second).read source := by
  unfold read
  rw [h]
  rfl

/-- At most one rule with a sigil finds anything at a cursor. Two readers that hold the same rules
with a sigil before prose therefore agree on every source: on the document or on the error, and on
what they note down. -/
theorem parse_sigils_anyOrder (limit : Int) (hf : ∀ rule ∈ first, rule ∈ Rule.sigils)
    (h : ∀ rule, rule ∈ first ↔ rule ∈ second) :
    (∀ (cursor : Cursor) (a b : Rule), a ∈ Rule.sigils → b ∈ Rule.sigils →
      cursor.run a.recognize ≠ .absent → cursor.run b.recognize ≠ .absent → a = b) ∧
    ∀ source,
      (Reader.mk limit (first ++ [Rule.prose])).parse source =
        (Reader.mk limit (second ++ [Rule.prose])).parse source ∧
      ((Reader.mk limit (first ++ [Rule.prose])).read source).events =
        ((Reader.mk limit (second ++ [Rule.prose])).read source).events := by
  constructor
  · intro cursor a b ha hb hpa hpb
    apply @Rule.eq_of_present cursor.remaining a b ha hb
    · intro habsent
      exact hpa (by rw [Cursor.run, habsent])
    · intro habsent
      exact hpb (by rw [Cursor.run, habsent])
  · intro source
    have hs : ∀ rule ∈ second, rule ∈ Rule.sigils := fun rule hmem => hf rule ((h rule).mpr hmem)
    have hsteps := Step.ofRules_sigils hf hs h [Rule.prose]
    have hread := read_of_composition limit (Composition.ofText_of_ofRules_eq hsteps source)
    exact ⟨congrArg Reading.result hread, congrArg Reading.events hread⟩

/-- The mark that closes a block comment opens a label, and either order refuses it as one. -/
theorem parse_sigils_anyOrder_commentClose :
    (∀ rule ∈ [Rule.label, Rule.blockComment, Rule.label], rule ∈ Rule.sigils) ∧
    (∀ rule, rule ∈ [Rule.label, Rule.blockComment, Rule.label] ↔
      rule ∈ [Rule.blockComment, Rule.label]) ∧
    ∃ failure, failure.offset = 1 ∧
      (Reader.mk 0 [Rule.label, Rule.blockComment, Rule.label, Rule.prose]).parse ['*', '/'] =
        .error (.malformed failure) ∧
      (Reader.mk 0 [Rule.blockComment, Rule.label, Rule.prose]).parse ['*', '/'] =
        .error (.malformed failure) := by
  have hf : ∀ rule ∈ [Rule.label, Rule.blockComment, Rule.label], rule ∈ Rule.sigils := by
    simp [Rule.sigils]
  have h : ∀ rule, rule ∈ [Rule.label, Rule.blockComment, Rule.label] ↔
      rule ∈ [Rule.blockComment, Rule.label] := by
    intro rule
    simp [or_comm, or_left_comm]
  have hrun : Run [Rule.label, Rule.blockComment, Rule.label, Rule.prose] ['*', '/'] 1 0 []
      (some ⟨.malformedLabel, 1⟩) :=
    @Run.refused _ ['*', '/'] 0 ⟨.malformedLabel, 1⟩ (by decide) rfl
  have hparse := @parse_of_refusal _ _ _
    (Reader.mk 0 [Rule.label, Rule.blockComment, Rule.label, Rule.prose]) _ (by decide) (by decide)
    hrun
  have hsame := ((parse_sigils_anyOrder 0 hf h).2 ['*', '/']).1
  exact ⟨hf, h, _, rfl, hparse, hsame ▸ hparse⟩

end Reader

end Playscript
