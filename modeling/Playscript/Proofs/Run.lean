import Playscript.Proofs.Occurrences
import Playscript.Reading.Reader

/-!
# Runs of a reader

One round of the loop either takes a line at the current offset or stops at a refusal. A run is the
rounds from an offset on, with the lines they take and the refusal that stops them, if any.
-/

namespace Playscript

variable {rules : List Rule} {source : Text} {rounds offset : Nat} {lines : List (Located Line)}
  {refusal : Option Refusal}

inductive Run (rules : List Rule) (source : Text) :
    Nat → Nat → List (Located Line) → Option Refusal → Prop where
  | finished {offset : Nat} (h : source.length ≤ offset) : Run rules source 0 offset [] none
  | refused {offset : Nat} {refusal : Refusal} (h : offset < source.length)
      (hs : Step.ofRules rules (source.drop offset) = .error refusal) :
      Run rules source 1 offset [] (some (refusal.shift offset))
  | line {rounds offset : Nat} {step : Step} {lines : List (Located Line)}
      {refusal : Option Refusal} (h : offset < source.length)
      (hs : Step.ofRules rules (source.drop offset) = .ok step)
      (hr : Run rules source rounds (offset + step.size) lines refusal) :
      Run rules source (rounds + 1) offset
        (step.located offset (source.drop offset) :: lines) refusal

/-- The offsets at which rounds begin, the end of the source among them. -/
inductive Starts (rules : List Rule) (source : Text) : Nat → Prop where
  | zero : Starts rules source 0
  | next {offset : Nat} {step : Step} (ho : Starts rules source offset) (h : offset < source.length)
      (hs : Step.ofRules rules (source.drop offset) = .ok step) :
      Starts rules source (offset + step.size)

namespace Run

theorem exists_ofText (rules : List Rule) (source : Text) (offset : Nat) :
    ∃ rounds ≤ source.length - offset, Run rules source rounds offset
      (Composition.ofText rules offset (source.drop offset)).lines
      (Composition.ofText rules offset (source.drop offset)).refusal := by
  -- A round that goes on takes a character at least, so there is less left to read after it.
  induction hleft : source.length - offset using Nat.strongRecOn generalizing offset with
  | ind left ih =>
    by_cases h : offset < source.length
    · have hne := Text.drop_ne_nil h
      cases hs : Step.ofRules rules (source.drop offset) with
      | error refusal =>
        rw [Composition.ofText_of_error hne hs]
        exact ⟨1, by omega, .refused h hs⟩
      | ok step =>
        have hpos := step.size_pos
        obtain ⟨rounds, hrounds, hrun⟩ :=
          ih (source.length - (offset + step.size)) (by omega) (offset + step.size) rfl
        rw [Composition.ofText_of_ok hne hs, List.drop_drop]
        exact ⟨rounds + 1, by omega, .line h hs hrun⟩
    · have hd : source.drop offset = [] := List.drop_eq_nil_iff.mpr (by omega)
      rw [hd, Composition.ofText_nil]
      exact ⟨0, by omega, .finished (by omega)⟩

theorem ofText_eq (h : Run rules source rounds offset lines refusal) :
    Composition.ofText rules offset (source.drop offset) = ⟨lines, refusal⟩ := by
  induction h with
  | finished h => rw [List.drop_eq_nil_iff.mpr h, Composition.ofText_nil]
  | refused h hs => exact Composition.ofText_of_error (Text.drop_ne_nil h) hs _
  | line h hs hr ih =>
    rw [Composition.ofText_of_ok (Text.drop_ne_nil h) hs, List.drop_drop, ih]

theorem starts (h : Run rules source rounds offset lines refusal)
    (ho : Starts rules source offset) :
    (∀ line ∈ lines, ∃ start step, Starts rules source start ∧ start < source.length ∧
      Step.ofRules rules (source.drop start) = .ok step ∧
      line = step.located start (source.drop start)) ∧
    ∀ r ∈ refusal, ∃ start inner, Starts rules source start ∧ start < source.length ∧
      Step.ofRules rules (source.drop start) = .error inner ∧ r = inner.shift start := by
  induction h with
  | finished h => simp
  | @refused offset inner h hs =>
    refine ⟨by simp, ?_⟩
    intro r hr
    obtain rfl := Option.some.inj hr
    exact ⟨offset, inner, ho, h, hs, rfl⟩
  | @line rounds offset step lines refusal h hs hr ih =>
    obtain ⟨hlines, hrefusal⟩ := ih (.next ho h hs)
    refine ⟨?_, hrefusal⟩
    intro line hline
    rcases List.mem_cons.mp hline with rfl | hline
    · exact ⟨offset, step, ho, h, hs, rfl⟩
    · exact hlines line hline

theorem lines_ne_nil (h : Run rules source rounds offset lines none)
    (ho : offset < source.length) : lines ≠ [] := by
  cases h with
  | finished hend => omega
  | line hlt hs hr => exact List.cons_ne_nil _ _

end Run

theorem not_excludes_unlimited (rules : List Rule) (size : Nat) :
    ¬ (Reader.unlimited rules).excludes size := by
  rintro ⟨hpos, -⟩
  exact absurd hpos (Int.lt_irrefl 0)

namespace Reader

variable {reader : Reader}

theorem parse_nil (h : ¬ reader.excludes 0) : reader.parse [] = .ok ⟨.empty, [], none⟩ := by
  simp [parse, read, h]

theorem parse_of_run (hsize : ¬ reader.excludes source.length) (hne : source ≠ [])
    (h : Run reader.rules source rounds 0 lines none) :
    reader.parse source = .ok ⟨.script lines, source, some (.ofSize 0 source.length)⟩ := by
  have hc := h.ofText_eq
  have hlines := h.lines_ne_nil (List.length_pos_iff.mpr hne)
  rw [List.drop_zero] at hc
  simp [parse, read, hsize, hne, hc, hlines]

theorem parse_of_refusal {refusal : Refusal} (hsize : ¬ reader.excludes source.length)
    (hne : source ≠ []) (h : Run reader.rules source rounds 0 lines (some refusal)) :
    reader.parse source =
      .error (.malformed (.ofComplaint (refusal.fault.complaint source refusal.offset))) := by
  have hc := h.ofText_eq
  rw [List.drop_zero] at hc
  simp [parse, read, reject, hsize, hne, hc]

theorem exists_run (reader : Reader) (source : Text) : ∃ rounds ≤ source.length, ∃ lines refusal,
    Run reader.rules source rounds 0 lines refusal := by
  obtain ⟨rounds, hrounds, hrun⟩ := Run.exists_ofText reader.rules source 0
  exact ⟨rounds, hrounds, _, _, hrun⟩

theorem not_excludes_of_parse {document : Located Document}
    (h : reader.parse source = .ok document) : ¬ reader.excludes source.length := by
  intro hsize
  simp [parse, read, hsize] at h

/-- A document that was read is the empty one, or it is made of the lines of the run over its
source. -/
theorem run_of_parse {document : Located Document} (h : reader.parse source = .ok document) :
    (source = [] ∧ document = ⟨.empty, [], none⟩) ∨
      source ≠ [] ∧ ∃ rounds lines, Run reader.rules source rounds 0 lines none ∧
        document = ⟨.script lines, source, some (.ofSize 0 source.length)⟩ := by
  have hsize := not_excludes_of_parse h
  by_cases hne : source = []
  · subst hne
    rw [parse_nil hsize] at h
    exact Or.inl ⟨rfl, (Except.ok.inj h).symm⟩
  · obtain ⟨rounds, -, lines, refusal, hrun⟩ := reader.exists_run source
    cases refusal with
    | none =>
      rw [parse_of_run hsize hne hrun] at h
      exact Or.inr ⟨hne, rounds, lines, hrun, (Except.ok.inj h).symm⟩
    | some refusal =>
      rw [parse_of_refusal hsize hne hrun] at h
      cases h

/-- A source is rejected for the refusal that ends the run over it. -/
theorem run_of_malformed {failure : Failure}
    (h : reader.parse source = .error (.malformed failure)) :
    ∃ rounds lines refusal, Run reader.rules source rounds 0 lines (some refusal) ∧
      reader.read source = reject source (refusal.fault.complaint source refusal.offset) ∧
      failure = .ofComplaint (refusal.fault.complaint source refusal.offset) := by
  have hsize : ¬ reader.excludes source.length := by
    intro hsize
    simp [parse, read, hsize] at h
  have hne : source ≠ [] := by
    rintro rfl
    rw [parse_nil hsize] at h
    cases h
  obtain ⟨rounds, -, lines, refusal, hrun⟩ := reader.exists_run source
  cases refusal with
  | none =>
    rw [parse_of_run hsize hne hrun] at h
    cases h
  | some refusal =>
    have hc := hrun.ofText_eq
    rw [List.drop_zero] at hc
    rw [parse_of_refusal hsize hne hrun] at h
    obtain rfl : _ = failure := by simpa using h
    exact ⟨rounds, lines, refusal, hrun, by simp [read, hsize, hne, hc], rfl⟩

end Reader

end Playscript
