import Playscript.Cursor
import Playscript.Proofs.Dispatch

/-!
# Lines tile the source

Whichever of the standard rules are in use and in whatever order, the lines of a document cover its
source without gap or overlap, and no cut between them falls inside a line break.
-/

namespace Playscript

variable {source text : Text} {start : Nat} {lines : List (Located Line)}

def Rule.Idles (rule : Rule) : Prop :=
  ∀ text line size, rule.recognize text = .matched line size → size = 0

theorem Rule.idle_idles (name : Text) : (Rule.idle name).Idles := by
  intro text line size h
  exact (Outcome.matched.inj h).2.symm

theorem Rule.exists_opening {rule : Rule} (h : rule ∈ Rule.standard) :
    ∃ opening : Opening, rule = opening.rule := by
  simp only [standard, List.mem_cons, List.not_mem_nil, or_false] at h
  rcases h with rfl | rfl | rfl | rfl | rfl | rfl | rfl
  · exact ⟨.comment, rfl⟩
  · exact ⟨.blockComment, rfl⟩
  · exact ⟨.bracketTag, rfl⟩
  · exact ⟨.label, rfl⟩
  · exact ⟨.cue, rfl⟩
  · exact ⟨.lineTag, rfl⟩
  · exact ⟨.prose, rfl⟩

structure IsTile (source : Text) (span : Span) (line : Located Line) : Prop where
  span_eq : line.span = some span
  nonempty : span.start < span.stop
  inside : span.stop ≤ source.length
  raw_eq : line.raw = (Cursor.mk source span.start).sliceTo span.stop
  whole : ¬ source.PartsBreak span.stop

/-- The lines cover the source from `start` to its end, each from where the one before it ended. -/
def Tiles (source : Text) : Nat → List (Located Line) → Prop
  | start, [] => start = source.length
  | start, line :: lines =>
    ∃ span : Span, span.start = start ∧ IsTile source span line ∧ Tiles source span.stop lines

theorem Text.IsCut.not_partsBreak {size : Nat} (h : Text.IsCut (source.drop start) size) :
    ¬ source.PartsBreak (start + size) := by
  rintro ⟨hlast, hhead⟩
  have hne : (source.drop start).take size ≠ [] := by
    intro hnil
    have hlen := congrArg List.length hnil
    rw [List.length_take, List.length_nil] at hlen
    have hpos := h.pos
    have hle := h.le_length
    omega
  refine h.whole ⟨?_, ?_⟩
  · rwa [List.take_add, List.getLast?_append_of_ne_nil _ hne] at hlast
  · rwa [← List.drop_drop] at hhead

theorem Step.isTile {step : Step} (h : Text.IsCut (source.drop start) step.size) :
    IsTile source (.ofSize start step.size) (step.located start (source.drop start)) := by
  constructor
  · rfl
  · exact Nat.lt_add_of_pos_right step.size_pos
  · have hpos := h.pos
    have hle := h.le_length
    rw [List.length_drop] at hle
    change start + step.size ≤ source.length
    omega
  · change (source.drop start).take step.size = (source.take (start + step.size)).drop start
    rw [List.drop_take, Nat.add_sub_cancel_left]
  · exact h.not_partsBreak

variable {rules : List Rule}

theorem Step.isCut_of_ok (hr : ∀ rule ∈ rules, rule ∈ Rule.standard ∨ rule.Idles) {step : Step}
    (h : Step.ofRules rules text = .ok step) : text.IsCut step.size := by
  obtain ⟨rule, hmem, hmatch⟩ := Step.exists_rule_of_ok h
  rcases hr rule hmem with hstandard | hidle
  · obtain ⟨opening, rfl⟩ := Rule.exists_opening hstandard
    exact Opening.isCut hmatch
  · -- A rule that idles takes nothing, so it did not make this step.
    have hzero := hidle text step.line step.size hmatch
    have hpos := step.size_pos
    omega

theorem Run.tiles (hr : ∀ rule ∈ rules, rule ∈ Rule.standard ∨ rule.Idles) {rounds : Nat}
    {refusal : Option Refusal} (h : Run rules source rounds start lines refusal)
    (hdone : refusal = none) (hstart : start ≤ source.length) : Tiles source start lines := by
  induction h with
  | finished h => exact Nat.le_antisymm hstart h
  | refused h hs => cases hdone
  | @line rounds start step lines refusal h hs hrun ih =>
    have htile := Step.isTile (Step.isCut_of_ok hr hs)
    exact ⟨.ofSize start step.size, rfl, htile, ih hdone htile.inside⟩

theorem Tiles.flatten_raw (h : Tiles source start lines) :
    (lines.map Located.raw).flatten = source.drop start := by
  induction lines generalizing start with
  | nil =>
    have hstart : start = source.length := h
    rw [hstart, List.drop_length]
    rfl
  | cons line lines ih =>
    obtain ⟨span, rfl, htile, hrest⟩ := h
    have hle := Nat.le_of_lt htile.nonempty
    rw [List.map_cons, List.flatten_cons, ih hrest, htile.raw_eq]
    change (source.take span.stop).drop span.start ++ source.drop span.stop = _
    rw [List.drop_take, ← Nat.add_sub_cancel' hle, Nat.add_sub_cancel_left, ← List.drop_drop,
      List.take_append_drop]

namespace Reader

/-- The loop is over within as many rounds as the source has characters. If it takes everything,
the lines tile the source, and the document is empty only for the empty source. -/
theorem parse_tiles (reader : Reader)
    (hr : ∀ rule ∈ reader.rules, rule ∈ Rule.standard ∨ rule.Idles) (source : Text) :
    (∃ rounds ≤ source.length, Run reader.rules source rounds 0
      (Composition.ofText reader.rules 0 source).lines
      (Composition.ofText reader.rules 0 source).refusal) ∧
    ∀ document, reader.parse source = .ok document →
      (document = ⟨.empty, [], none⟩ ↔ source = []) ∧
      (source ≠ [] → ∃ lines, lines ≠ [] ∧
        document = ⟨.script lines, source, some (.ofSize 0 source.length)⟩ ∧
        Tiles source 0 lines ∧ (lines.map Located.raw).flatten = source) := by
  obtain ⟨rounds, hrounds, hrun⟩ := Run.exists_ofText reader.rules source 0
  rw [List.drop_zero] at hrun
  refine ⟨⟨rounds, hrounds, hrun⟩, ?_⟩
  intro document hok
  have hsize : ¬ reader.excludes source.length := by
    intro hsize
    simp [parse, read, hsize] at hok
  by_cases hne : source = []
  · subst hne
    rw [parse_nil hsize] at hok
    simp [Except.ok.inj hok]
  · have hdone : (Composition.ofText reader.rules 0 source).refusal = none := by
      cases hrefusal : (Composition.ofText reader.rules 0 source).refusal with
      | none => rfl
      | some refusal =>
        rw [hrefusal] at hrun
        rw [parse_of_refusal hsize hne hrun] at hok
        cases hok
    rw [hdone] at hrun
    rw [parse_of_run hsize hne hrun] at hok
    obtain rfl := Except.ok.inj hok
    have htiles := hrun.tiles hr rfl (Nat.zero_le _)
    have hflat := htiles.flatten_raw
    rw [List.drop_zero] at hflat
    refine ⟨by simp [hne], ?_⟩
    intro _
    exact ⟨_, hrun.lines_ne_nil (List.length_pos_iff.mpr hne), rfl, htiles, hflat⟩

theorem parse_tiles_crlf : ∃ lines, lines ≠ [] ∧
    (unlimited [Rule.prose, Rule.idle []]).parse ['a', '\r', '\n', ';'] =
      .ok ⟨.script lines, ['a', '\r', '\n', ';'], some (.ofSize 0 4)⟩ ∧
    Tiles ['a', '\r', '\n', ';'] 0 lines := by
  have hr : ∀ rule ∈ [Rule.prose, Rule.idle []], rule ∈ Rule.standard ∨ rule.Idles := by
    intro rule hm
    simp only [List.mem_cons, List.not_mem_nil, or_false] at hm
    rcases hm with rfl | rfl
    · exact Or.inl (by simp [Rule.standard])
    · exact Or.inr (Rule.idle_idles [])
  have hrun : Run [Rule.prose, Rule.idle []] ['a', '\r', '\n', ';'] 2 0 _ none :=
    @Run.line _ _ 1 0 ⟨.prose ['a'], 3, by decide⟩ _ _ (by decide) rfl
      (@Run.line _ _ 0 3 ⟨.prose [';'], 1, by decide⟩ _ _ (by decide) rfl
        (.finished (by decide)))
  have hok := @parse_of_run _ _ _ (unlimited [Rule.prose, Rule.idle []]) (by decide) (by decide)
    hrun
  obtain ⟨-, hall⟩ := parse_tiles (unlimited [Rule.prose, Rule.idle []]) hr ['a', '\r', '\n', ';']
  obtain ⟨lines, hne, heq, htiles, -⟩ := (hall _ hok).2 (by decide)
  exact ⟨lines, hne, by rw [hok, heq]; rfl, htiles⟩

end Reader

end Playscript
