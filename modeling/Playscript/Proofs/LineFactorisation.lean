import Playscript.Proofs.PhysicalLines
import Playscript.Proofs.Walk

/-!
# Taking line after line

From a cursor in a source a walk takes one physical line, and it gets ahead unless it stands at the
end. Walks from the start on, each from where the one before it stopped, divide the source into
lines, and the source can be divided in no other way.
-/

namespace Playscript

theorem LineEnd.text_injective {a b : LineEnd} (h : a.text = b.text) : a = b := by
  cases a <;> cases b <;> first | rfl | cases h

theorem PhysicalLine.eq_of_text_eq {a b : PhysicalLine} (hc : a.content = b.content)
    (ht : a.text = b.text) : a = b := by
  obtain ⟨content, ending⟩ := a
  obtain ⟨_, other⟩ := b
  cases hc
  have hending : ending = other := LineEnd.text_injective (List.append_cancel_left ht)
  rw [hending]

theorem PhysicalLine.Opens.length_text_pos {line : PhysicalLine} {text rest : Text}
    (h : line.Opens text rest) (hne : text ≠ []) : 0 < line.text.length := by
  rw [PhysicalLine.text_length, ← h.ofText_eq]
  exact PhysicalLine.size_pos hne

/-- The lines make up the source, none of them is empty, and each is a whole line in front of the
lines that follow it. -/
structure Text.DividesInto (source : Text) (lines : List PhysicalLine) : Prop where
  text_eq : source = (lines.map PhysicalLine.text).flatten
  text_ne_nil : ∀ line ∈ lines, line.text ≠ []
  content_flat : ∀ line ∈ lines, ∀ c ∈ line.content, isBreak c = false
  ending_whole : ∀ before line after, lines = before ++ line :: after →
    line.ending.Ends (after.map PhysicalLine.text).flatten

namespace Text

variable {text rest source : Text} {line : PhysicalLine} {lines : List PhysicalLine}

theorem dividesInto_nil : DividesInto [] [] := by
  constructor
  · rfl
  · simp
  · simp
  · intro before line after h
    simp at h

theorem DividesInto.cons (h : DividesInto rest lines) (ho : line.Opens text rest)
    (hne : line.text ≠ []) : text.DividesInto (line :: lines) := by
  constructor
  · rw [ho.text_eq, h.text_eq, List.map_cons, List.flatten_cons]
  · exact List.forall_mem_cons.mpr ⟨hne, h.text_ne_nil⟩
  · exact List.forall_mem_cons.mpr ⟨ho.content_flat, h.content_flat⟩
  · intro before found after hlines
    cases before with
    | nil =>
      cases hlines
      rw [← h.text_eq]
      exact ho.ending_whole
    | cons first before =>
      rw [List.cons_append, List.cons.injEq] at hlines
      exact h.ending_whole before found after hlines.2

theorem DividesInto.opens (h : source.DividesInto (line :: lines)) :
    line.Opens source (lines.map PhysicalLine.text).flatten := by
  constructor
  · rw [h.text_eq, List.map_cons, List.flatten_cons]
  · exact h.content_flat line List.mem_cons_self
  · exact h.ending_whole [] line lines rfl

theorem DividesInto.tail (h : source.DividesInto (line :: lines)) :
    DividesInto (lines.map PhysicalLine.text).flatten lines := by
  constructor
  · rfl
  · exact fun found hfound => h.text_ne_nil found (List.mem_cons_of_mem line hfound)
  · exact fun found hfound => h.content_flat found (List.mem_cons_of_mem line hfound)
  · intro before found after hlines
    apply h.ending_whole (line :: before) found after
    rw [hlines, List.cons_append]

theorem dividesInto_physicalLines (source : Text) : source.DividesInto source.physicalLines := by
  induction source using line_induction with
  | nil =>
    rw [physicalLines_nil]
    exact dividesInto_nil
  | line line text rest hne ho ih =>
    rw [physicalLines_of_opens ho hne]
    exact ih.cons ho (List.length_pos_iff.mp (ho.length_text_pos hne))

theorem dividesInto_iff : source.DividesInto lines ↔ lines = source.physicalLines := by
  constructor
  · intro h
    induction lines generalizing source with
    | nil => rw [h.text_eq, List.map_nil, List.flatten_nil, physicalLines_nil]
    | cons line lines ih =>
      have hne : source ≠ [] := by
        rw [h.text_eq, List.map_cons, List.flatten_cons]
        exact List.append_ne_nil_of_left_ne_nil (h.text_ne_nil line List.mem_cons_self) _
      rw [physicalLines_of_opens h.opens hne, ← ih h.tail]
  · rintro rfl
    exact dividesInto_physicalLines source

theorem length_physicalLines_le (text : Text) : text.physicalLines.length ≤ text.length := by
  induction text using line_induction with
  | nil => simp
  | line line text rest hne ho ih =>
    have hpos := ho.length_text_pos hne
    rw [physicalLines_of_opens ho hne, List.length_cons, ho.text_eq, List.length_append]
    omega

end Text

namespace Walk

structure TakesLine (cursor : Cursor) (line : PhysicalLine) (next : Cursor) : Prop where
  takeLine_ok : takeLine cursor = .ok (line.content, next)
  text_eq : cursor.sliceTo next.offset = line.text

inductive TakesLines : Cursor → List PhysicalLine → Prop where
  | finished {cursor : Cursor} (h : cursor.atEnd) : TakesLines cursor []
  | line {cursor next : Cursor} {line : PhysicalLine} {lines : List PhysicalLine}
      (h : ¬ cursor.atEnd) (first : TakesLine cursor line next) (others : TakesLines next lines) :
      TakesLines cursor (line :: lines)

structure LineTaken (cursor : Cursor) (line : PhysicalLine) (next : Cursor) : Prop where
  source_eq : next.source = cursor.source
  offset_le : next.offset ≤ cursor.source.length
  text_eq : cursor.remaining = line.content ++ line.ending.text ++ next.remaining
  content_flat : ∀ c ∈ line.content, c ≠ '\r' ∧ c ≠ '\n'
  offset_of_missing : line.ending = .missing → next.offset = cursor.source.length
  head_of_cr : line.ending = .cr → next.remaining.head? ≠ some '\n'
  ahead : cursor.offset ≠ cursor.source.length → cursor.offset < next.offset

variable {cursor next : Cursor} {line : PhysicalLine} {lines : List PhysicalLine}

theorem takesLine_line (cursor : Cursor) : TakesLine cursor cursor.line cursor.skipLine := by
  constructor
  · exact takeLine_eq cursor
  · exact (cursor.sliceTo_forward _).trans (PhysicalLine.opens_ofText _).take_eq

theorem TakesLine.unique (h : TakesLine cursor line next) :
    line = cursor.line ∧ next = cursor.skipLine := by
  have hboth := h.takeLine_ok.symm.trans (takesLine_line cursor).takeLine_ok
  obtain ⟨hcontent, rfl⟩ : line.content = cursor.line.content ∧ next = cursor.skipLine := by
    simpa using hboth
  have htext : line.text = cursor.line.text :=
    h.text_eq.symm.trans (takesLine_line cursor).text_eq
  exact ⟨PhysicalLine.eq_of_text_eq hcontent htext, rfl⟩

theorem opens_line (cursor : Cursor) :
    cursor.line.Opens cursor.remaining cursor.skipLine.remaining := by
  have hremaining : cursor.skipLine.remaining = cursor.remaining.drop cursor.line.size :=
    cursor.remaining_forward _
  rw [hremaining]
  exact PhysicalLine.opens_ofText _

theorem lineTaken_line (h : cursor.offset ≤ cursor.source.length) :
    LineTaken cursor cursor.line cursor.skipLine := by
  have ho := opens_line cursor
  have hsize : cursor.line.size ≤ cursor.source.length - cursor.offset := by
    rw [← List.length_drop]
    exact PhysicalLine.size_le_length _
  have hoffset : cursor.skipLine.offset = cursor.offset + cursor.line.size := rfl
  have hwhole := ho.ending_whole
  constructor
  · rfl
  · omega
  · exact ho.text_eq
  · intro c hc
    have hflat := ho.content_flat c hc
    simp only [isBreak, Bool.or_eq_false_iff, beq_eq_false_iff_ne] at hflat
    exact hflat.symm
  · intro hmissing
    rw [hmissing] at hwhole
    have hend : cursor.source.length ≤ cursor.skipLine.offset := List.drop_eq_nil_iff.mp hwhole
    omega
  · intro hcr
    rw [hcr] at hwhole
    exact hwhole
  · intro hne
    have hleft : cursor.remaining ≠ [] := by
      rw [Cursor.remaining, ne_eq, List.drop_eq_nil_iff]
      omega
    have hpos : 0 < cursor.line.size := PhysicalLine.size_pos hleft
    omega

theorem takesLines_physicalLines (cursor : Cursor) :
    TakesLines cursor cursor.remaining.physicalLines := by
  induction hr : cursor.remaining using Text.line_induction generalizing cursor with
  | nil =>
    rw [Text.physicalLines_nil]
    exact .finished (Cursor.atEnd_iff.mpr hr)
  | line line text rest hne ho ih =>
    have hopens := hr ▸ opens_line cursor
    have hline : cursor.line = line := hopens.ofText_eq.symm.trans ho.ofText_eq
    have hrest : cursor.skipLine.remaining = rest := by
      apply List.append_cancel_left
      rw [← hopens.text_eq, hline, ho.text_eq]
    rw [Text.physicalLines_of_opens ho hne, ← hline]
    apply TakesLines.line
    · rw [Cursor.atEnd_iff, hr]
      exact hne
    · exact takesLine_line cursor
    · exact ih cursor.skipLine hrest

/-- Walks from one cursor take one sequence of lines. -/
theorem takesLines_iff : TakesLines cursor lines ↔ lines = cursor.remaining.physicalLines := by
  constructor
  · intro h
    induction h with
    | finished h => rw [Cursor.atEnd_iff.mp h, Text.physicalLines_nil]
    | line h first _ ih =>
      obtain ⟨rfl, rfl⟩ := first.unique
      rw [Cursor.atEnd_iff] at h
      rw [Text.physicalLines_of_opens (opens_line _) h, ih]
  · rintro rfl
    exact takesLines_physicalLines cursor

/-- Each walk takes one physical line, and walks from the start on divide the source into its
lines. -/
theorem takeLine_divides (source : Text) :
    (∀ cursor : Cursor, cursor.source = source → cursor.offset ≤ source.length →
      takeLine cursor = .ok (cursor.line.content, cursor.skipLine) ∧
      LineTaken cursor cursor.line cursor.skipLine) ∧
    ∃ lines, lines.length ≤ source.length ∧ ∀ found,
      (TakesLines ⟨source, 0⟩ found ↔ found = lines) ∧
      (source.DividesInto found ↔ found = lines) := by
  constructor
  · rintro cursor rfl h
    exact ⟨takeLine_eq cursor, lineTaken_line h⟩
  · refine ⟨source.physicalLines, source.length_physicalLines_le, ?_⟩
    intro found
    exact ⟨takesLines_iff, Text.dividesInto_iff⟩

end Walk

end Playscript
