import Playscript.Proofs.LineEndings
import Playscript.Reading.Token

/-!
# Folded breaks

What looks at a text whose breaks are folded by classes of characters that take breaks as spaces
finds what it would find in the text itself. A folded CRLF is no more than a run of spaces.
-/

namespace Playscript

variable {text : Text} {p : Char → Bool} {mark : Char}

namespace Text

structure TakesBreaksAsSpaces (p : Char → Bool) : Prop where
  lf : p '\n' = p ' '
  cr : p '\r' = p ' '

theorem TakesBreaksAsSpaces.cr_eq_lf (hp : TakesBreaksAsSpaces p) : p '\r' = p '\n' :=
  hp.cr.trans hp.lf.symm

theorem TakesBreaksAsSpaces.folded (hp : TakesBreaksAsSpaces p) :
    (p ∘ fun c => if isBreak c then ' ' else c) = p := by
  funext c
  by_cases hc : isBreak c
  · simp only [Function.comp_apply, hc, if_true]
    simp only [isBreak, Bool.or_eq_true, beq_iff_eq] at hc
    rcases hc with rfl | rfl
    · exact hp.lf.symm
    · exact hp.cr.symm
  · simp [hc]

theorem TakesBreaksAsSpaces.takeWhile_foldBreaks (hp : TakesBreaksAsSpaces p) (text : Text) :
    text.foldBreaks.takeWhile p = foldBreaks (text.takeWhile p) := by
  rw [foldBreaks, List.takeWhile_map, hp.folded, foldBreaks]

theorem TakesBreaksAsSpaces.dropWhile_foldBreaks (hp : TakesBreaksAsSpaces p) (text : Text) :
    text.foldBreaks.dropWhile p = foldBreaks (text.dropWhile p) := by
  rw [foldBreaks, List.dropWhile_map, hp.folded, foldBreaks]

theorem TakesBreaksAsSpaces.all_foldBreaks (hp : TakesBreaksAsSpaces p) (text : Text) :
    text.foldBreaks.all p = text.all p := by
  rw [foldBreaks, List.all_map, hp.folded]

theorem TakesBreaksAsSpaces.takeWhile_unifyBreaks (hp : TakesBreaksAsSpaces p) (text : Text) :
    text.unifyBreaks.takeWhile p = unifyBreaks (text.takeWhile p) :=
  Text.takeWhile_unifyBreaks hp.cr_eq_lf text

theorem TakesBreaksAsSpaces.dropWhile_unifyBreaks (hp : TakesBreaksAsSpaces p) (text : Text) :
    text.unifyBreaks.dropWhile p = unifyBreaks (text.dropWhile p) :=
  Text.dropWhile_unifyBreaks hp.cr_eq_lf text

theorem foldBreaks_cons {c : Char} (h : isBreak c = false) (rest : Text) :
    foldBreaks (c :: rest) = c :: foldBreaks rest := by
  simp [foldBreaks, h]

def collapseSpaces : Text → Text
  | [] => []
  | c :: rest =>
    if c = ' ' ∧ rest.head? = some ' ' then collapseSpaces rest else c :: collapseSpaces rest

theorem head?_foldBreaks_unifyBreaks (text : Text) :
    text.unifyBreaks.foldBreaks.head? = text.foldBreaks.head? := by
  rw [foldBreaks, foldBreaks, List.head?_map, List.head?_map, head?_unifyBreaks, Option.map_map]
  congr 1
  funext c
  by_cases hc : c = '\r'
  · simp [hc, isBreak]
  · simp [hc]

theorem collapseSpaces_cons_congr {a b : Text} (c : Char) (hh : a.head? = b.head?)
    (hc : a.collapseSpaces = b.collapseSpaces) :
    collapseSpaces (c :: a) = collapseSpaces (c :: b) := by
  rw [collapseSpaces, collapseSpaces, hh, hc]

theorem collapseSpaces_unifyBreaks (text : Text) :
    text.unifyBreaks.foldBreaks.collapseSpaces = text.foldBreaks.collapseSpaces := by
  fun_induction unifyBreaks text with
  | case1 => rfl
  | case2 rest hh ih =>
    -- The CR of CRLF is folded to a space in front of another.
    have hhead : (foldBreaks rest).head? = some ' ' := by
      rw [foldBreaks, List.head?_map, hh]
      rfl
    have hfold : foldBreaks ('\r' :: rest) = ' ' :: foldBreaks rest := rfl
    rw [ih, hfold, collapseSpaces, if_pos ⟨rfl, hhead⟩]
  | case3 rest hh ih =>
    exact collapseSpaces_cons_congr ' ' (head?_foldBreaks_unifyBreaks rest) ih
  | case4 c rest hc ih =>
    exact collapseSpaces_cons_congr _ (head?_foldBreaks_unifyBreaks rest) ih

theorem takesBreaksAsSpaces_isSpace : TakesBreaksAsSpaces isSpace := ⟨by decide, by decide⟩

theorem isBlank_foldBreaks_unifyBreaks (text : Text) :
    text.unifyBreaks.foldBreaks.isBlank = text.foldBreaks.isBlank := by
  have hspace := takesBreaksAsSpaces_isSpace
  rw [isBlank, isBlank, hspace.all_foldBreaks, hspace.all_foldBreaks,
    all_unifyBreaks hspace.cr_eq_lf]

theorem takesBreaksAsSpaces_unspaced : TakesBreaksAsSpaces (!isSpace ·) :=
  ⟨by decide, by decide⟩

theorem takesBreaksAsSpaces_isKeyChar : TakesBreaksAsSpaces Recognizer.isKeyChar :=
  ⟨by decide, by decide⟩

theorem takesBreaksAsSpaces_unnamed : TakesBreaksAsSpaces (!isNameChar ·) :=
  ⟨by decide, by decide⟩

theorem takesBreaksAsSpaces_isIdentifierChar : TakesBreaksAsSpaces isIdentifierChar :=
  ⟨by decide, by decide⟩

theorem takesBreaksAsSpaces_bne (hb : isBreak mark = false) (hs : mark ≠ ' ') :
    TakesBreaksAsSpaces (· != mark) := by
  have hlf : mark ≠ '\n' := by
    rintro rfl
    cases hb
  have hcr := ne_cr_of_isBreak hb
  constructor
  · rw [bne_iff_ne.mpr hlf.symm, bne_iff_ne.mpr hs.symm]
  · rw [bne_iff_ne.mpr hcr.symm, bne_iff_ne.mpr hs.symm]

theorem mem_foldBreaks_iff (hb : isBreak mark = false) (hs : mark ≠ ' ') :
    mark ∈ text.foldBreaks ↔ mark ∈ text := by
  rw [← not_iff_not, ← all_bne_eq_true_iff, ← all_bne_eq_true_iff,
    (takesBreaksAsSpaces_bne hb hs).all_foldBreaks]

theorem cutAt?_foldBreaks (hb : isBreak mark = false) (hs : mark ≠ ' ') (text : Text) :
    cutAt? mark text.foldBreaks =
      (cutAt? mark text).map fun parts => (parts.1.foldBreaks, parts.2.foldBreaks) := by
  cases hcut : cutAt? mark text with
  | none =>
    rw [cutAt?_eq_none_iff, ← mem_foldBreaks_iff hb hs] at hcut
    exact cutAt?_eq_none_iff.mpr hcut
  | some parts =>
    obtain ⟨before, after⟩ := parts
    obtain ⟨rfl, hbefore⟩ := cutAt?_eq_some_iff.mp hcut
    rw [Option.map_some, cutAt?_eq_some_iff, foldBreaks_append, foldBreaks_cons hb,
      mem_foldBreaks_iff hb hs]
    exact ⟨rfl, hbefore⟩

end Text

end Playscript
