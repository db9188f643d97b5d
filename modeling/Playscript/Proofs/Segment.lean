import Playscript.Proofs.Frame

/-!
# Segments of a run

A segment is a stretch of a source that the standard rules take line by line, with the text that
really follows it. Segments are cut and joined where a line ends, and keep their lines before any
other text that joins them.
-/

namespace Playscript

variable {front more rest rest' source : Text} {lines later : List (Located Line)}
  {offset : Nat}

theorem Span.shift_ofSize (back start size : Nat) :
    (Span.ofSize start size).shift back = .ofSize (back + start) size := by
  simp [Span.shift, Span.ofSize, Nat.add_assoc]

namespace Located

variable {α : Type}

def shift (offset : Nat) (piece : Located α) : Located α :=
  ⟨piece.content, piece.raw, piece.span.map (Span.shift offset)⟩

def stopAfter (start : Nat) (pieces : List (Located α)) : Nat :=
  pieces.foldl (fun stop piece => piece.span.elim stop Span.stop) start

/-- The document of a source with these lines. Only the empty source has none. -/
def ofSource (source : Text) (lines : List (Located Line)) : Located Document :=
  if source.isEmpty then ⟨.empty, [], none⟩
  else ⟨.script lines, source, some (.ofSize 0 source.length)⟩

theorem ofSource_eq_empty_iff {source : Text} {lines : List (Located Line)} :
    (ofSource source lines).content = .empty ↔ source = [] := by
  by_cases hs : source = []
  · simp [ofSource, hs]
  · simp [ofSource, hs]

end Located

/-- The standard rules take `front` as these lines, the first of them at `offset`, when `rest` comes
after `front`. -/
inductive Segment : Nat → Text → Text → List (Located Line) → Prop where
  | nil (offset : Nat) (rest : Text) : Segment offset [] rest []
  | cons {offset : Nat} {front more rest : Text} {step : Step} {lines : List (Located Line)}
      (hs : Step.ofRules Rule.standard (front ++ (more ++ rest)) = .ok step)
      (hsize : step.size = front.length)
      (hr : Segment (offset + front.length) more rest lines) :
      Segment offset (front ++ more) rest
        (⟨step.line, front, some (.ofSize offset front.length)⟩ :: lines)

theorem Step.lt_length_of_drop {step : Step} (hs : step.size = front.length)
    (hd : source.drop offset = front ++ rest) : offset < source.length := by
  by_contra hge
  rw [List.drop_eq_nil_iff.mpr (by omega)] at hd
  exact Step.ne_nil_of_size hs (List.append_eq_nil_iff.mp hd.symm).1

namespace Segment

theorem eq_nil (h : Segment offset [] rest lines) : lines = [] := by
  generalize hfront : ([] : Text) = front at h
  cases h with
  | nil => rfl
  | cons hs hsize hr =>
    exact (Step.ne_nil_of_size hsize (List.append_eq_nil_iff.mp hfront.symm).1).elim

theorem lines_ofSource (h : Segment offset source rest lines) :
    (Located.ofSource source lines).content.lines = lines := by
  by_cases hs : source = []
  · subst hs
    rw [h.eq_nil]
    rfl
  · simp [Located.ofSource, hs, Document.lines]

theorem append (h : Segment offset front (more ++ rest) lines)
    (hm : Segment (offset + front.length) more rest later) :
    Segment offset (front ++ more) rest (lines ++ later) := by
  generalize hrest : more ++ rest = behind at h
  induction h with
  | nil offset behind => simpa using hm
  | @cons offset first front behind step lines hs hsize _ ih =>
    subst hrest
    rw [List.append_assoc, List.cons_append]
    refine .cons ?_ hsize (ih ?_ rfl)
    · rw [← hs, List.append_assoc]
    · rw [List.length_append] at hm
      rwa [Nat.add_assoc]

/-- A segment is cut after any of its lines. -/
theorem split (h : Segment offset front rest lines) {count : Nat} (hc : count ≤ lines.length) :
    ∃ before after, front = before ++ after ∧
      Segment offset before (after ++ rest) (lines.take count) ∧
      Segment (offset + before.length) after rest (lines.drop count) := by
  induction h generalizing count with
  | nil offset rest => exact ⟨[], [], rfl, by simpa using .nil _ _, by simpa using .nil _ _⟩
  | @cons offset front more rest step lines hs hsize hr ih =>
    cases count with
    | zero => exact ⟨[], front ++ more, rfl, .nil _ _, .cons hs hsize hr⟩
    | succ count =>
      obtain ⟨before, after, rfl, hbefore, hafter⟩ := ih (Nat.le_of_succ_le_succ hc)
      refine ⟨front ++ before, after, by rw [List.append_assoc], ?_, ?_⟩
      · rw [List.take_succ_cons]
        exact .cons (by rw [← hs, List.append_assoc]) hsize hbefore
      · rw [List.length_append, ← Nat.add_assoc]
        exact hafter

theorem stopAfter_eq (h : Segment offset front rest lines) :
    Located.stopAfter offset lines = offset + front.length := by
  induction h with
  | nil => rfl
  | cons hs hsize hr ih =>
    rw [List.length_append, ← Nat.add_assoc]
    exact ih

/-- Nothing in a segment depends on where it stands but the spans. -/
theorem shift (h : Segment offset front rest lines) (back : Nat) :
    Segment (back + offset) front rest (lines.map (Located.shift back)) := by
  induction h with
  | nil => exact .nil _ _
  | cons hs hsize hr ih =>
    rw [← Nat.add_assoc] at ih
    rw [List.map_cons, Located.shift, Option.map_some, Span.shift_ofSize]
    exact .cons hs hsize ih

theorem shift_to (h : Segment 0 front rest lines) (offset : Nat) :
    Segment (0 + offset) front rest (lines.map (Located.shift offset)) := by
  rw [Nat.add_comm]
  exact h.shift offset

theorem unshift {start back : Nat} (h : Segment start front rest lines)
    (hs : start = back + offset) :
    ∃ near, Segment offset front rest near ∧ near.map (Located.shift back) = lines := by
  induction h generalizing offset with
  | nil => exact ⟨[], .nil _ _, rfl⟩
  | @cons start front more rest step lines hstep hsize hr ih =>
    obtain ⟨near, hnear, rfl⟩ := ih (by rw [hs, Nat.add_assoc])
    refine ⟨_, .cons hstep hsize hnear, ?_⟩
    rw [List.map_cons, Located.shift, Option.map_some, Span.shift_ofSize, hs]

theorem joins (h : Segment offset front rest lines) (hne : front ≠ []) :
    Text.Joins front rest rest := by
  induction h with
  | nil => exact (hne rfl).elim
  | @cons offset front more rest step lines hs hsize hr ih =>
    by_cases hmore : more = []
    · subst hmore
      rw [List.append_nil]
      exact Step.joins hs hsize
    · exact (Text.joins_append_iff hmore).mpr (ih hmore)

/-- A line of prose that begins with a bracket has no closing bracket behind it. -/
theorem bracketClose_notMem (h : Segment offset front rest lines) {line : Located Line}
    (hl : line ∈ lines) (hb : line.content.OpensBracket line.raw) :
    Mark.bracketClose ∉ rest := by
  induction h with
  | nil => cases hl
  | cons hs hsize hr ih =>
    rcases List.mem_cons.mp hl with rfl | hl
    · intro hm
      exact (Step.bracketClose_notMem hs hsize hb).2 (List.mem_append_right _ hm)
    · exact ih hl

theorem isPadding_frame (h : Segment offset front rest lines) (hne : front ≠ [])
    (hp : (PhysicalLine.ofText (front ++ rest)).isPadding = false) (rest' : Text) :
    (PhysicalLine.ofText (front ++ rest')).isPadding = false := by
  cases h with
  | nil => exact (hne rfl).elim
  | cons hs hsize hr =>
    rw [List.append_assoc] at hp ⊢
    exact Step.isPadding_frame hs hsize hp _

/-- The line before a segment is joined to it whatever follows the segment. -/
theorem joins_frame {first : Text} (h : Segment offset front rest lines) (hne : front ≠ [])
    (hj : Text.Joins first (front ++ rest) (front ++ rest)) (rest' : Text) :
    Text.Joins first (front ++ rest) (front ++ rest') := by
  have hhead : ∀ tail : Text, (front ++ tail).head? = front.head? := by
    intro tail
    obtain ⟨c, front, rfl⟩ := List.exists_cons_of_ne_nil hne
    rfl
  cases hj with
  | atEnd h => exact (hne (List.append_eq_nil_iff.mp h).1).elim
  | afterBreak hb hw =>
    rw [hhead] at hw
    exact .afterBreak hb (by rwa [hhead])
  | withinLine hl hr hp => exact .withinLine hl hr (h.isPadding_frame hne hp rest')

/-- A segment is taken as the same lines before any text that joins it, unless one of its brackets
is closed there. -/
theorem frame (h : Segment offset front rest lines)
    (hj : front = [] ∨ Text.Joins front rest rest')
    (hb : ∀ line ∈ lines, line.content.OpensBracket line.raw → Mark.bracketClose ∉ rest') :
    Segment offset front rest' lines := by
  induction h with
  | nil => exact .nil _ _
  | @cons offset front more rest step lines hs hsize hr ih =>
    have hne := Step.ne_nil_of_size hsize
    have hopen : step.line.OpensBracket front → Mark.bracketClose ∉ more ++ rest' := by
      intro ho hm
      rcases List.mem_append.mp hm with hm | hm
      · exact (Step.bracketClose_notMem hs hsize ho).2 (List.mem_append_left _ hm)
      · exact hb _ List.mem_cons_self ho hm
    -- The line is followed by the next one, or else by what comes after the segment.
    have hj' : Text.Joins front (more ++ rest) (more ++ rest') ∧
        (more = [] ∨ Text.Joins more rest rest') := by
      by_cases hmore : more = []
      · subst hmore
        rw [List.append_nil] at hj
        exact ⟨hj.resolve_left hne, Or.inl rfl⟩
      · have hjoin := hj.resolve_left (List.append_ne_nil_of_left_ne_nil hne more)
        exact ⟨hr.joins_frame hmore (Step.joins hs hsize) rest',
          Or.inr ((Text.joins_append_iff hmore).mp hjoin)⟩
    exact .cons (Step.ofRules_frame hs hsize hj'.1 hopen) hsize
      (ih hj'.2 fun line hl => hb line (List.mem_cons_of_mem _ hl))

/-- The run goes on where the segment ends. -/
theorem exists_run (h : Segment offset front rest lines) (hd : source.drop offset = front ++ rest)
    {rounds : Nat} {refusal : Option Refusal}
    (hr : Run Rule.standard source rounds (offset + front.length) later refusal) :
    ∃ rounds, Run Rule.standard source rounds offset (lines ++ later) refusal := by
  induction h with
  | nil => exact ⟨rounds, by simpa using hr⟩
  | @cons offset front more rest step lines hs hsize _ ih =>
    rw [List.append_assoc] at hd
    have hlt := Step.lt_length_of_drop hsize hd
    have hdrop : source.drop (offset + front.length) = more ++ rest := by
      rw [← List.drop_drop, hd, List.drop_left]
    rw [List.length_append, ← Nat.add_assoc] at hr
    obtain ⟨rounds, hrun⟩ := ih hdrop hr
    rw [← hd] at hs
    rw [← hsize] at hrun
    have hline := Run.line hlt hs hrun
    rw [Step.located, hd, hsize, List.take_left] at hline
    exact ⟨rounds + 1, hline⟩

theorem exists_run_refused {inner : Refusal} (h : Segment 0 front rest lines) (hne : rest ≠ [])
    (hs : Step.ofRules Rule.standard rest = .error inner) :
    ∃ rounds, Run Rule.standard (front ++ rest) rounds 0 lines
      (some (inner.shift front.length)) := by
  have hdrop : (front ++ rest).drop (0 + front.length) = rest := by simp
  have hlt : 0 + front.length < (front ++ rest).length := by
    have hpos := List.length_pos_iff.mpr hne
    rw [List.length_append]
    omega
  have hstop := @Run.refused Rule.standard (front ++ rest) _ inner hlt (by rw [hdrop, hs])
  obtain ⟨rounds, hrun⟩ := h.exists_run (by simp) hstop
  rw [Nat.zero_add, List.append_nil] at hrun
  exact ⟨rounds, hrun⟩

theorem starts (h : Segment offset front rest lines) (hd : source.drop offset = front ++ rest)
    (ho : Starts Rule.standard source offset) :
    Starts Rule.standard source (offset + front.length) := by
  induction h with
  | nil => exact ho
  | @cons offset front more rest step lines hs hsize _ ih =>
    rw [List.append_assoc] at hd
    have hlt := Step.lt_length_of_drop hsize hd
    rw [← hd] at hs
    have hnext := Starts.next ho hlt hs
    rw [hsize] at hnext
    rw [List.length_append, ← Nat.add_assoc]
    exact ih (by rw [← List.drop_drop, hd, List.drop_left]) hnext

end Segment

theorem Run.segment {rounds : Nat} {refusal : Option Refusal}
    (h : Run Rule.standard source rounds offset lines refusal) :
    ∃ front rest, source.drop offset = front ++ rest ∧ Segment offset front rest lines ∧
      (refusal = none ∧ rest = [] ∨ ∃ inner, rest ≠ [] ∧
        Step.ofRules Rule.standard rest = .error inner ∧
        refusal = some (inner.shift (offset + front.length))) := by
  induction h with
  | finished h =>
    exact ⟨[], [], List.drop_eq_nil_iff.mpr h, .nil _ _, Or.inl ⟨rfl, rfl⟩⟩
  | @refused offset inner h hs =>
    exact ⟨[], _, rfl, .nil _ _, Or.inr ⟨inner, Text.drop_ne_nil h, hs, rfl⟩⟩
  | @line rounds offset step lines refusal h hs hr ih =>
    obtain ⟨more, rest, hdrop, hseg, hstop⟩ := ih
    have hle := (Opening.isCut (Step.recognize_of_ok hs)).le_length
    have hlength : step.size = ((source.drop offset).take step.size).length := by
      rw [List.length_take, Nat.min_eq_left hle]
    have hsource : source.drop offset =
        (source.drop offset).take step.size ++ (more ++ rest) := by
      rw [← hdrop, ← List.drop_drop, List.take_append_drop]
    refine ⟨(source.drop offset).take step.size ++ more, rest, ?_, ?_, ?_⟩
    · rw [List.append_assoc, ← hsource]
    · rw [Step.located]
      nth_rewrite 3 [hlength]
      refine .cons ?_ hlength ?_
      · rw [← hsource, hs]
      · rwa [← hlength]
    · rw [List.length_append, ← hlength, ← Nat.add_assoc]
      exact hstop

namespace Reader

theorem parse_of_segment (h : Segment 0 source [] lines) :
    (unlimited Rule.standard).parse source = .ok (.ofSource source lines) := by
  have hsize := not_excludes_unlimited Rule.standard source.length
  by_cases hne : source = []
  · subst hne
    rw [parse_nil hsize]
    rfl
  · have hend : Run Rule.standard source 0 (0 + source.length) [] none := .finished (by simp)
    obtain ⟨rounds, hrun⟩ := h.exists_run (by simp) hend
    rw [List.append_nil] at hrun
    rw [parse_of_run hsize hne hrun]
    simp [Located.ofSource, hne]

theorem parse_of_refused {inner : Refusal} (h : Segment 0 front rest lines) (hne : rest ≠ [])
    (hs : Step.ofRules Rule.standard rest = .error inner) :
    (unlimited Rule.standard).parse (front ++ rest) = .error (.malformed (.ofComplaint
      (inner.fault.complaint (front ++ rest) (front.length + inner.offset)))) := by
  obtain ⟨rounds, hrun⟩ := h.exists_run_refused hne hs
  exact parse_of_refusal (not_excludes_unlimited _ _) (List.append_ne_nil_of_right_ne_nil front hne)
    hrun

theorem segment_of_parse {document : Located Document}
    (h : (unlimited Rule.standard).parse source = .ok document) :
    ∃ lines, Segment 0 source [] lines ∧ document = .ofSource source lines := by
  obtain ⟨rounds, -, lines, refusal, hrun⟩ := (unlimited Rule.standard).exists_run source
  obtain ⟨front, rest, hsource, hseg, ⟨rfl, rfl⟩ | ⟨inner, hne, hs, rfl⟩⟩ := hrun.segment
  · rw [List.drop_zero, List.append_nil] at hsource
    subst hsource
    rw [parse_of_segment hseg] at h
    exact ⟨lines, hseg, (Except.ok.inj h).symm⟩
  · rw [List.drop_zero] at hsource
    rw [hsource, parse_of_refused hseg hne hs] at h
    cases h

/-- A source that is refused begins with a segment, and what comes after it is refused. -/
theorem segment_of_error {e : ReadError}
    (h : (unlimited Rule.standard).parse source = .error e) :
    ∃ front rest lines inner, source = front ++ rest ∧ Segment 0 front rest lines ∧ rest ≠ [] ∧
      Step.ofRules Rule.standard rest = .error inner ∧
      e = .malformed
        (.ofComplaint (inner.fault.complaint source (front.length + inner.offset))) := by
  obtain ⟨rounds, -, lines, refusal, hrun⟩ := (unlimited Rule.standard).exists_run source
  obtain ⟨front, rest, hsource, hseg, ⟨rfl, rfl⟩ | ⟨inner, hne, hs, rfl⟩⟩ := hrun.segment
  · rw [List.drop_zero, List.append_nil] at hsource
    subst hsource
    rw [parse_of_segment hseg] at h
    cases h
  · rw [List.drop_zero] at hsource
    subst hsource
    rw [parse_of_refused hseg hne hs] at h
    exact ⟨front, rest, lines, inner, rfl, hseg, hne, hs, (Except.error.inj h).symm⟩

end Reader

end Playscript
