import Playscript.Proofs.Breaks
import Playscript.Proofs.PhysicalLines

/-!
# One ending for every line

With LF for every line break two texts become equal if they agree line by line, and either both or
neither of them end in a break.
-/

namespace Playscript

variable {text front rest tail : Text} {p : Char → Bool} {mark : Char}

namespace Text

/-- The text with LF for every line break. The CR of CRLF is dropped, and any other becomes LF. -/
def unifyBreaks : Text → Text
  | [] => []
  | c :: rest =>
    if c = '\r' then
      if rest.head? = some '\n' then unifyBreaks rest else '\n' :: unifyBreaks rest
    else c :: unifyBreaks rest

theorem unifyBreaks_cons {c : Char} (h : c ≠ '\r') (rest : Text) :
    unifyBreaks (c :: rest) = c :: unifyBreaks rest := by
  rw [unifyBreaks, if_neg h]

theorem unifyBreaks_cr (h : rest.head? ≠ some '\n') :
    unifyBreaks ('\r' :: rest) = '\n' :: unifyBreaks rest := by
  rw [unifyBreaks, if_pos rfl, if_neg h]

theorem unifyBreaks_crlf (rest : Text) :
    unifyBreaks ('\r' :: '\n' :: rest) = '\n' :: unifyBreaks rest := by
  rw [unifyBreaks, if_pos rfl, if_pos (List.head?_cons ..), unifyBreaks_cons (by decide)]

theorem ne_cr_of_isBreak {c : Char} (h : isBreak c = false) : c ≠ '\r' := by
  rintro rfl
  cases h

theorem unifyBreaks_of_not_isBreak {c : Char} (h : isBreak c = false) (rest : Text) :
    unifyBreaks (c :: rest) = c :: unifyBreaks rest :=
  unifyBreaks_cons (ne_cr_of_isBreak h) rest

theorem head?_unifyBreaks (text : Text) :
    text.unifyBreaks.head? = text.head?.map fun c => if c = '\r' then '\n' else c := by
  fun_induction unifyBreaks text with
  | case1 => rfl
  | case2 rest hh ih => simp [ih, hh]
  | case3 rest hh ih => simp
  | case4 c rest hc ih => simp [hc]

theorem head?_unifyBreaks_eq_some_iff {c : Char} (h : isBreak c = false) :
    text.unifyBreaks.head? = some c ↔ text.head? = some c := by
  rw [head?_unifyBreaks]
  cases text with
  | nil => simp
  | cons d text =>
    simp only [List.head?_cons, Option.map_some, Option.some.injEq]
    by_cases hd : d = '\r'
    · rw [if_pos hd, hd]
      constructor
      · rintro rfl
        cases h
      · rintro rfl
        cases h
    · rw [if_neg hd]

theorem unifyBreaks_eq_nil_iff : text.unifyBreaks = [] ↔ text = [] := by
  rw [← List.head?_eq_none_iff, head?_unifyBreaks, Option.map_eq_none_iff, List.head?_eq_none_iff]

theorem all_unifyBreaks (hp : p '\r' = p '\n') (text : Text) :
    text.unifyBreaks.all p = text.all p := by
  fun_induction unifyBreaks text with
  | case1 => rfl
  | case2 rest hh ih =>
    obtain ⟨tail, rfl⟩ := List.head?_eq_some_iff.mp hh
    rw [ih]
    simp [hp]
  | case3 rest hh ih => rw [List.all_cons, List.all_cons, ih, hp]
  | case4 c rest hc ih => rw [List.all_cons, List.all_cons, ih]

theorem all_bne_eq_true_iff {c : Char} : text.all (· != c) = true ↔ c ∉ text := by
  rw [List.all_eq_true]
  constructor
  · intro h hm
    simpa using h c hm
  · intro h d hd
    rw [bne_iff_ne]
    rintro rfl
    exact h hd

theorem mem_unifyBreaks_iff {c : Char} (h : isBreak c = false) :
    c ∈ text.unifyBreaks ↔ c ∈ text := by
  have hlf : '\n' ≠ c := by
    rintro rfl
    cases h
  have hp : ('\r' != c) = ('\n' != c) := by
    rw [bne_iff_ne.mpr (ne_cr_of_isBreak h).symm, bne_iff_ne.mpr hlf]
  rw [← not_iff_not, ← all_bne_eq_true_iff, ← all_bne_eq_true_iff, all_unifyBreaks hp]

theorem hasBreak_unifyBreaks (text : Text) : text.unifyBreaks.hasBreak = text.hasBreak := by
  have hall := all_unifyBreaks (p := fun c => !isBreak c) rfl text
  rw [List.all_eq_not_any_not, List.all_eq_not_any_not, Bool.not_inj_iff] at hall
  simpa [hasBreak] using hall

theorem unifyBreaks_eq_self (h : text.hasBreak = false) : text.unifyBreaks = text := by
  induction text with
  | nil => rfl
  | cons c text ih =>
    rw [hasBreak_cons, Bool.or_eq_false_iff] at h
    rw [unifyBreaks_cons (ne_cr_of_isBreak h.1), ih h.2]

def Apart (front rest : Text) : Prop :=
  ¬ (front.getLast? = some '\r' ∧ rest.head? = some '\n')

theorem apart_of_head (h : rest.head? ≠ some '\n') : Apart front rest := by
  rintro ⟨-, hh⟩
  exact h hh

theorem apart_of_last (h : front.getLast? ≠ some '\r') : Apart front rest := by
  rintro ⟨hl, -⟩
  exact h hl

theorem apart_cons {c : Char} (h : isBreak c = false) : Apart front (c :: rest) := by
  apply apart_of_head
  rw [List.head?_cons]
  rintro hc
  rw [Option.some.inj hc] at h
  cases h

theorem apart_of_flat (h : front.hasBreak = false) : Apart front rest := by
  apply apart_of_last
  intro hl
  rw [hasBreak_eq_false_iff] at h
  have hr := h '\r' (List.mem_of_getLast? hl)
  cases hr

theorem apart_before_flat (h : tail.hasBreak = false) (hne : tail ≠ []) :
    Apart front (tail ++ rest) := by
  obtain ⟨c, tail, rfl⟩ := List.exists_cons_of_ne_nil hne
  rw [hasBreak_cons, Bool.or_eq_false_iff] at h
  exact apart_cons h.1

/-- A run that takes both characters of CRLF or neither parts no break where it stops. -/
theorem apart_run (hp : p '\r' = p '\n') (hf : ∀ c ∈ front, p c) (hr : StopsRun p rest) :
    Apart front rest := by
  rintro ⟨hl, hh⟩
  have hcr := hf '\r' (List.mem_of_getLast? hl)
  have hlf : p '\n' = false := hr '\n' hh
  rw [hp, hlf] at hcr
  cases hcr

theorem Apart.of_append_right (h : Apart front (tail ++ rest)) : Apart front tail := by
  rintro ⟨hl, hh⟩
  cases tail with
  | nil => cases hh
  | cons c tail => exact h ⟨hl, hh⟩

theorem Apart.of_append_left (h : Apart (front ++ tail) rest) : Apart tail rest := by
  rintro ⟨hl, hh⟩
  by_cases ht : tail = []
  · rw [ht] at hl
    cases hl
  · exact h ⟨by rw [List.getLast?_append_of_ne_nil front ht, hl], hh⟩

theorem Apart.append (h : Apart front (tail ++ rest)) (ht : Apart tail rest) :
    Apart (front ++ tail) rest := by
  by_cases hne : tail = []
  · subst hne
    rw [List.append_nil]
    exact h
  · rintro ⟨hl, hh⟩
    rw [List.getLast?_append_of_ne_nil front hne] at hl
    exact ht ⟨hl, hh⟩

theorem unifyBreaks_append (h : Apart front rest) :
    unifyBreaks (front ++ rest) = unifyBreaks front ++ unifyBreaks rest := by
  induction front with
  | nil => rfl
  | cons c front ih =>
    by_cases hne : front = []
    · subst hne
      by_cases hc : c = '\r'
      · subst hc
        have hh : rest.head? ≠ some '\n' := fun hh => h ⟨rfl, hh⟩
        rw [List.singleton_append, unifyBreaks_cr hh]
        rfl
      · rw [List.singleton_append, unifyBreaks_cons hc, unifyBreaks_cons hc]
        rfl
    · have hlast : (c :: front).getLast? = front.getLast? := List.getLast?_append_of_ne_nil [c] hne
      have hhead : (front ++ rest).head? = front.head? := List.head?_append_of_ne_nil front hne
      rw [Apart, hlast] at h
      rw [List.cons_append, unifyBreaks, unifyBreaks, hhead, ih h]
      split
      · split
        · rfl
        · rfl
      · rfl

theorem stopsRun_unifyBreaks (hp : p '\r' = p '\n') (h : StopsRun p rest) :
    StopsRun p rest.unifyBreaks := by
  intro c hc
  rw [head?_unifyBreaks, Option.mem_def, Option.map_eq_some_iff] at hc
  obtain ⟨d, hd, rfl⟩ := hc
  have hstop := h d hd
  by_cases hcr : d = '\r'
  · rw [if_pos hcr, ← hp, ← hcr]
    exact hstop
  · rw [if_neg hcr]
    exact hstop

theorem run_unifyBreaks (hp : p '\r' = p '\n') (text : Text) :
    text.unifyBreaks.takeWhile p = unifyBreaks (text.takeWhile p) ∧
      text.unifyBreaks.dropWhile p = unifyBreaks (text.dropWhile p) := by
  obtain ⟨hsplit, hrun, hstop⟩ := run_split p text
  have hrun' : ∀ c ∈ unifyBreaks (text.takeWhile p), p c := by
    rw [← List.all_eq_true, all_unifyBreaks hp, List.all_eq_true]
    exact hrun
  have hstop' := stopsRun_unifyBreaks hp hstop
  have hunified : text.unifyBreaks =
      unifyBreaks (text.takeWhile p) ++ unifyBreaks (text.dropWhile p) := by
    rw [← unifyBreaks_append (apart_run hp hrun hstop), ← hsplit]
  rw [hunified, takeWhile_run hrun' hstop', dropWhile_run hrun' hstop']
  exact ⟨rfl, rfl⟩

theorem takeWhile_unifyBreaks (hp : p '\r' = p '\n') (text : Text) :
    text.unifyBreaks.takeWhile p = unifyBreaks (text.takeWhile p) :=
  (run_unifyBreaks hp text).1

theorem dropWhile_unifyBreaks (hp : p '\r' = p '\n') (text : Text) :
    text.unifyBreaks.dropWhile p = unifyBreaks (text.dropWhile p) :=
  (run_unifyBreaks hp text).2

theorem after?_unifyBreaks {lead : Text} (h : lead.hasBreak = false) (text : Text) :
    after? lead text.unifyBreaks = (after? lead text).map unifyBreaks := by
  induction lead generalizing text with
  | nil => rfl
  | cons c lead ih =>
    rw [hasBreak_cons, Bool.or_eq_false_iff] at h
    cases text with
    | nil => rfl
    | cons d text =>
      by_cases hd : c = d
      · subst hd
        rw [unifyBreaks_cons (ne_cr_of_isBreak h.1), after?, after?, if_pos rfl, if_pos rfl, ih h.2]
      · rw [after?, if_neg hd, Option.map_none]
        cases htext : unifyBreaks (d :: text) with
        | nil => rfl
        | cons e tail =>
          have he : c ≠ e := by
            rintro rfl
            have hhead : (unifyBreaks (d :: text)).head? = some c := by rw [htext]; rfl
            rw [head?_unifyBreaks_eq_some_iff h.1] at hhead
            exact hd (Option.some.inj hhead).symm
          rw [after?, if_neg he]

theorem cutAt?_unifyBreaks (hb : isBreak mark = false) (text : Text) :
    cutAt? mark text.unifyBreaks =
      (cutAt? mark text).map fun parts => (parts.1.unifyBreaks, parts.2.unifyBreaks) := by
  cases hcut : cutAt? mark text with
  | none =>
    rw [cutAt?_eq_none_iff, ← mem_unifyBreaks_iff hb] at hcut
    exact cutAt?_eq_none_iff.mpr hcut
  | some parts =>
    obtain ⟨before, after⟩ := parts
    obtain ⟨rfl, hbefore⟩ := cutAt?_eq_some_iff.mp hcut
    rw [Option.map_some, cutAt?_eq_some_iff, unifyBreaks_append (apart_cons hb),
      unifyBreaks_cons (ne_cr_of_isBreak hb), mem_unifyBreaks_iff hb]
    exact ⟨rfl, hbefore⟩

end Text

def LineEnd.unified : LineEnd → LineEnd
  | .missing => .missing
  | .lf | .crlf | .cr => .lf

theorem LineEnd.unifyBreaks_append {ending : LineEnd} (h : ending.Ends rest) :
    Text.unifyBreaks (ending.text ++ rest) = ending.unified.text ++ rest.unifyBreaks := by
  cases ending with
  | lf => exact Text.unifyBreaks_cons (by decide) rest
  | crlf => exact Text.unifyBreaks_crlf rest
  | cr => exact Text.unifyBreaks_cr h
  | missing => rfl

theorem LineEnd.unifyBreaks_text (ending : LineEnd) :
    ending.text.unifyBreaks = ending.unified.text := by
  cases ending <;> rfl

theorem LineEnd.unified_ends {ending : LineEnd} (h : ending.Ends rest) :
    ending.unified.Ends rest.unifyBreaks := by
  cases ending with
  | missing =>
    have hr : rest = [] := h
    rw [hr]
    rfl
  | _ => trivial

theorem LineEnd.unified_eq_lf_iff {ending : LineEnd} :
    ending.unified = .lf ↔ (ending != .missing) = true := by
  cases ending <;> decide

theorem LineEnd.unified_eq_iff {ending ending' : LineEnd} :
    ending.unified = ending'.unified ↔ (ending != .missing) = (ending' != .missing) := by
  cases ending <;> cases ending' <;> decide

namespace PhysicalLine

variable {line : PhysicalLine}

def unified (line : PhysicalLine) : PhysicalLine := ⟨line.content, line.ending.unified⟩

theorem Opens.unified (h : line.Opens text rest) :
    line.unified.Opens text.unifyBreaks rest.unifyBreaks := by
  have hflat := Text.hasBreak_eq_false_iff.mpr h.content_flat
  constructor
  · rw [h.text_eq, PhysicalLine.text, List.append_assoc,
      Text.unifyBreaks_append (Text.apart_of_flat hflat), Text.unifyBreaks_eq_self hflat,
      LineEnd.unifyBreaks_append h.ending_whole, PhysicalLine.text, List.append_assoc]
    rfl
  · exact h.content_flat
  · exact LineEnd.unified_ends h.ending_whole

theorem Opens.unifyBreaks_text (h : line.Opens text rest) :
    line.text.unifyBreaks = line.unified.text := by
  have hflat := Text.hasBreak_eq_false_iff.mpr h.content_flat
  rw [PhysicalLine.text, Text.unifyBreaks_append (Text.apart_of_flat hflat),
    Text.unifyBreaks_eq_self hflat, LineEnd.unifyBreaks_text]
  rfl

theorem ofText_unifyBreaks (text : Text) : ofText text.unifyBreaks = (ofText text).unified :=
  (opens_ofText text).unified.ofText_eq

theorem Opens.apart (h : line.Opens text rest) : Text.Apart line.text rest := by
  rintro ⟨hl, hh⟩
  have hw := h.ending_whole
  rw [PhysicalLine.text] at hl
  cases he : line.ending with
  | lf => simp [he, LineEnd.text] at hl
  | crlf => simp [he, LineEnd.text] at hl
  | cr =>
    rw [he] at hw
    exact hw hh
  | missing =>
    rw [he] at hw
    have hr : rest = [] := hw
    rw [hr] at hh
    cases hh

theorem Opens.ending_ne_missing (h : line.Opens text rest) (hne : rest ≠ []) :
    (line.ending != .missing) = true := by
  rw [bne_iff_ne]
  intro hm
  have hw := h.ending_whole
  rw [hm] at hw
  exact hne hw

theorem Opens.endsInBreak_eq (h : line.Opens text []) :
    text.endsInBreak = (line.ending != .missing) := by
  have ht := h.text_eq
  rw [List.append_nil, PhysicalLine.text] at ht
  cases he : line.ending with
  | missing =>
    rw [ht, he]
    exact @Text.endsInBreak_append_flat [] _ rfl (by simpa [LineEnd.text] using h.content_flat)
  | _ => simp [ht, he, LineEnd.text, Text.endsInBreak, isBreak]

end PhysicalLine

namespace Text

theorem lineContents_unifyBreaks (text : Text) :
    text.unifyBreaks.lineContents = text.lineContents := by
  induction text using line_induction with
  | nil => rfl
  | line line text rest hne ho ih =>
    have hne' : text.unifyBreaks ≠ [] := by rwa [ne_eq, unifyBreaks_eq_nil_iff]
    rw [lineContents_of_opens ho hne, lineContents_of_opens ho.unified hne', ih]
    rfl

/-- Texts that agree line by line, and at the end, differ in the breaks they use at most. -/
theorem unifyBreaks_eq_of_lineContents {s t : Text} (hl : s.lineContents = t.lineContents)
    (he : s.endsInBreak = t.endsInBreak) : s.unifyBreaks = t.unifyBreaks := by
  induction s using line_induction generalizing t with
  | nil => rw [lineContents_eq_nil_iff.mp (hl.symm.trans (lineContents_eq_nil_iff.mpr rfl))]
  | line line s rest hne ho ih =>
    have hne' : t ≠ [] := by
      rintro rfl
      exact hne (lineContents_eq_nil_iff.mp (hl.trans (lineContents_eq_nil_iff.mpr rfl)))
    have ho' := PhysicalLine.opens_ofText t
    generalize hline : PhysicalLine.ofText t = line' at ho'
    generalize (t.drop line'.size : Text) = rest' at ho'
    rw [lineContents_of_opens ho hne, lineContents_of_opens ho' hne'] at hl
    obtain ⟨hcontent, hrest⟩ := List.cons.inj hl
    have hending : line.ending.unified = line'.ending.unified ∧
        rest.endsInBreak = endsInBreak rest' := by
      by_cases hr : rest = []
      · subst hr
        obtain rfl :=
          lineContents_eq_nil_iff.mp (hrest.symm.trans (lineContents_eq_nil_iff.mpr rfl))
        rw [ho.endsInBreak_eq, ho'.endsInBreak_eq] at he
        exact ⟨LineEnd.unified_eq_iff.mpr he, rfl⟩
      · have hr' : rest' ≠ [] := by
          rintro rfl
          exact hr (lineContents_eq_nil_iff.mp (hrest.trans (lineContents_eq_nil_iff.mpr rfl)))
        rw [ho.text_eq, ho'.text_eq, endsInBreak_append hr, endsInBreak_append hr'] at he
        refine ⟨LineEnd.unified_eq_iff.mpr ?_, he⟩
        rw [ho.ending_ne_missing hr, ho'.ending_ne_missing hr']
    rw [ho.unified.text_eq, ho'.unified.text_eq, ih hrest hending.2, PhysicalLine.text,
      PhysicalLine.text, PhysicalLine.unified, PhysicalLine.unified, hcontent, hending.1]

end Text

end Playscript
