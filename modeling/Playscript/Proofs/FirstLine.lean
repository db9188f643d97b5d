import Playscript.Proofs.Breaks
import Playscript.Proofs.Occurrences

/-!
# The first line of a text

A line comes first in a text if its content holds no break and its ending is whole: CR is not
followed by LF, and the ending is missing only where the text ends. Every text has one such line.
-/

namespace Playscript

def LineEnd.Ends : LineEnd → Text → Prop
  | .lf, _ => True
  | .crlf, _ => True
  | .cr, rest => rest.head? ≠ some '\n'
  | .missing, rest => rest = []

theorem LineEnd.ofText_append {ending : LineEnd} {rest : Text} (h : ending.Ends rest) :
    LineEnd.ofText (ending.text ++ rest) = ending := by
  cases ending with
  | lf => rfl
  | crlf => rfl
  | cr =>
    cases rest with
    | nil => rfl
    | cons c rest =>
      have hc : c ≠ '\n' := by simpa [Ends] using h
      simp only [LineEnd.text, List.singleton_append, LineEnd.ofText]
      split <;> simp_all
  | missing =>
    have hr : rest = [] := h
    subst hr
    rfl

theorem LineEnd.stopsRun_append {ending : LineEnd} {rest : Text} (h : ending.Ends rest) :
    Text.StopsRun (!isBreak ·) (ending.text ++ rest) := by
  cases ending with
  | lf => exact Text.stopsRun_cons (by decide)
  | crlf => exact Text.stopsRun_cons (by decide)
  | cr => exact Text.stopsRun_cons (by decide)
  | missing =>
    have hr : rest = [] := h
    subst hr
    exact Text.stopsRun_nil

theorem LineEnd.ends_ofText {text : Text} (h : Text.StopsRun (!isBreak ·) text) :
    (LineEnd.ofText text).Ends (text.drop (LineEnd.ofText text).text.length) := by
  unfold LineEnd.ofText
  split
  · trivial
  · trivial
  · next rest hne =>
    intro hr
    cases rest with
    | nil => simp [LineEnd.text] at hr
    | cons c rest =>
      have hc : c = '\n' := by simpa [LineEnd.text] using hr
      exact hne rest (by rw [hc])
  · next hlf _ hcr =>
    cases text with
    | nil => rfl
    | cons c text =>
      have hc : isBreak c = true := by simpa using h c (by simp)
      simp only [isBreak, Bool.or_eq_true, beq_iff_eq] at hc
      rcases hc with rfl | rfl
      · exact (hlf text rfl).elim
      · exact (hcr text rfl).elim

structure PhysicalLine.Opens (line : PhysicalLine) (text rest : Text) : Prop where
  text_eq : text = line.text ++ rest
  content_flat : ∀ c ∈ line.content, isBreak c = false
  ending_whole : line.ending.Ends rest

namespace PhysicalLine

variable {line : PhysicalLine} {text rest : Text}

theorem text_length (line : PhysicalLine) : line.text.length = line.size := by
  simp [PhysicalLine.text, size]

theorem opens_ofText (text : Text) :
    (ofText text).Opens text (text.drop (ofText text).size) := by
  constructor
  · exact (text_append_drop text).symm
  · intro c hc
    have h := List.mem_takeWhile_imp hc
    simpa using h
  · rw [drop_size]
    exact LineEnd.ends_ofText (Text.stopsRun_dropWhile _ text)

theorem Opens.ofText_eq (h : line.Opens text rest) : ofText text = line := by
  obtain ⟨rfl, hc, he⟩ := h
  have hrun : ∀ c ∈ line.content, (!isBreak c) = true := fun c hm => by simp [hc c hm]
  have hstop := LineEnd.stopsRun_append he
  rw [ofText, PhysicalLine.text, List.append_assoc, Text.takeWhile_run hrun hstop,
    Text.dropWhile_run hrun hstop, LineEnd.ofText_append he]

theorem Opens.take_eq (h : line.Opens text rest) : text.take line.size = line.text := by
  rw [h.text_eq, ← text_length, List.take_left]

theorem take_content {count : Nat} (h : count ≤ (ofText text).content.length) :
    text.take count = (ofText text).content.take count := by
  have hsplit : (ofText text).content ++ text.dropWhile (!isBreak ·) = text :=
    List.takeWhile_append_dropWhile
  nth_rewrite 1 [← hsplit]
  exact List.take_append_of_le_length h

theorem hasBreak_content (text : Text) : (ofText text).content.hasBreak = false :=
  Text.hasBreak_eq_false_iff.mpr (opens_ofText text).content_flat

theorem ofText_flat (hf : text.hasBreak = false) : ofText text = ⟨text, .missing⟩ := by
  have hopens : (⟨text, .missing⟩ : PhysicalLine).Opens text [] := by
    constructor
    · simp [PhysicalLine.text, LineEnd.text]
    · exact Text.hasBreak_eq_false_iff.mp hf
    · rfl
  exact hopens.ofText_eq

theorem size_le_length (text : Text) : (ofText text).size ≤ text.length := by
  have h := congrArg List.length (text_append_drop text)
  rw [List.length_append, text_length] at h
  omega

theorem size_pos (h : text ≠ []) : 0 < (ofText text).size := by
  have ho := opens_ofText text
  by_contra hz
  have hz : (ofText text).size = 0 := by omega
  rw [hz, List.drop_zero] at ho
  have hm : (ofText text).ending = .missing := by
    have hl : (ofText text).ending.text.length = 0 := by simp only [size] at hz; omega
    cases he : (ofText text).ending <;> simp_all [LineEnd.text]
  have hw := ho.ending_whole
  rw [hm] at hw
  exact h hw

theorem opens_lf {content : Text} (h : ∀ c ∈ content, isBreak c = false) (rest : Text) :
    (⟨content, .lf⟩ : PhysicalLine).Opens (content ++ '\n' :: rest) rest := by
  constructor
  · simp [PhysicalLine.text, LineEnd.text]
  · exact h
  · trivial

theorem ofText_lf {content : Text} (h : ∀ c ∈ content, isBreak c = false) (rest : Text) :
    ofText (content ++ '\n' :: rest) = ⟨content, .lf⟩ :=
  (opens_lf h rest).ofText_eq

end PhysicalLine

/-- The offset falls between a CR and the LF that belongs to it. -/
def Text.PartsBreak (text : Text) (offset : Nat) : Prop :=
  (text.take offset).getLast? = some '\r' ∧ (text.drop offset).head? = some '\n'

instance (text : Text) (offset : Nat) : Decidable (text.PartsBreak offset) :=
  inferInstanceAs (Decidable (_ ∧ _))

/-- The end of a line, wherever the line was entered, parts no break. -/
theorem PhysicalLine.not_partsBreak (text : Text) (start : Nat) :
    ¬ text.PartsBreak (start + (ofText (text.drop start)).size) := by
  rintro ⟨hlast, hhead⟩
  have ho := opens_ofText (text.drop start)
  rw [← List.drop_drop] at hhead
  rw [List.take_add, ho.take_eq, PhysicalLine.text] at hlast
  have hw := ho.ending_whole
  cases he : (ofText (text.drop start)).ending with
  | lf => simp [he, LineEnd.text] at hlast
  | crlf => simp [he, LineEnd.text] at hlast
  | cr =>
    rw [he] at hw
    exact hw hhead
  | missing =>
    rw [he] at hw
    have hr : (text.drop start).drop (ofText (text.drop start)).size = [] := hw
    rw [hr] at hhead
    cases hhead

end Playscript
