import Playscript.Cursor
import Playscript.Proofs.FoldedBreaks
import Playscript.Proofs.LineGrammar

/-!
# The two forms of a tag

A tag stands between brackets or on a line of its own. A text that opens with a name says the same
in both forms as long as no digit follows the name: what is folded between the brackets is a single
line, and both forms hand on the same name and the same parameters.
-/

namespace Playscript

/-- The same name with the same parameters, or the same complaint at the same place. -/
inductive Outcome.SameTag : Outcome (Located Line) → Outcome (Located Line) → Prop
  | refused {first second : Refusal} (hm : first.fault.message = second.fault.message)
      (ho : first.offset = second.offset) : SameTag (.refused first) (.refused second)
  | matched {first second : Located Line} {form other : TagForm} {name : Text}
      {parameters : Parameters} {near far : Nat} (hf : first.content = .tag form name parameters)
      (hs : second.content = .tag other name parameters) :
      SameTag (.matched first near) (.matched second far)

structure Text.OpensWithName (text : Text) : Prop where
  begins : text.head?.any isNameChar
  undigited : (text.takeWhile isIdentifierChar).any Char.isDigit = false

theorem isNameChar_of_isIdentifierChar {c : Char} (h : isIdentifierChar c)
    (hd : c.isDigit = false) : isNameChar c := by
  rwa [isIdentifierChar, Char.isAlphanum, hd, Bool.or_false] at h

namespace Text

variable {text name rest : Text} {p : Char → Bool}

theorem OpensWithName.split (h : text.OpensWithName) :
    ∃ name rest, text = name ++ rest ∧ name.isName ∧ StopsRun isIdentifierChar rest := by
  obtain ⟨hb, hd⟩ := h
  obtain ⟨hsplit, hchars, hstop⟩ := run_split isIdentifierChar text
  refine ⟨_, _, hsplit, isName_iff.mpr ⟨?_, ?_⟩, hstop⟩
  · intro hnil
    cases text with
    | nil => cases hb
    | cons c text =>
      have hc : isNameChar c := hb
      rw [List.takeWhile_cons, if_pos (isIdentifierChar_of_isNameChar hc)] at hnil
      cases hnil
  · intro c hc
    have hdigit := List.any_eq_false.mp hd c hc
    exact isNameChar_of_isIdentifierChar (hchars c hc) (Bool.eq_false_iff.mpr hdigit)

theorem isIdentifier_of_isName (h : name.isName) : name.isIdentifier := by
  obtain ⟨hne, hchars⟩ := isName_iff.mp h
  obtain ⟨c, tail, rfl⟩ := List.exists_cons_of_ne_nil hne
  rw [isIdentifier, hchars c List.mem_cons_self, Bool.true_and, List.all_eq_true]
  intro d hd
  exact isIdentifierChar_of_isNameChar (hchars d (List.mem_cons_of_mem c hd))

theorem stopsRun_name (h : StopsRun isIdentifierChar rest) : StopsRun isNameChar rest := by
  intro c hc
  by_contra hn
  have hid := isIdentifierChar_of_isNameChar (Bool.not_eq_false _ ▸ hn)
  rw [h c hc] at hid
  cases hid

theorem StopsRun.foldBreaks (hp : TakesBreaksAsSpaces p) (h : StopsRun p rest) :
    StopsRun p rest.foldBreaks := by
  intro c hc
  rw [Text.foldBreaks, List.head?_map] at hc
  obtain ⟨d, hd, rfl⟩ := Option.map_eq_some_iff.mp hc
  exact (congrFun hp.folded d).trans (h d hd)

theorem foldBreaks_name_append (hn : name.isName) (rest : Text) :
    Text.foldBreaks (name ++ rest) = name ++ rest.foldBreaks := by
  rw [foldBreaks_append, foldBreaks_eq_self (hasBreak_of_isName hn)]

end Text

namespace Cursor

variable {cursor other : Cursor} {rule otherRule : Recognizer Line} {form otherForm : TagForm}
  {name body : Text} {offset stop otherStop : Nat}

/-- Apart from the form, a tag depends on its name, on the text behind it and where that stands. -/
theorem sameTag_of_tagBody
    (hf : rule cursor.remaining = Recognizer.tagBody form name body offset stop)
    (hs : otherRule other.remaining = Recognizer.tagBody otherForm name body offset otherStop)
    (ho : cursor.offset = other.offset) : (cursor.run rule).SameTag (other.run otherRule) := by
  unfold run
  rw [hf, hs, ho, Recognizer.tagBody, Recognizer.tagBody]
  by_cases he : Recognizer.atTokenEnd body
  · rw [he, Bool.not_true, if_neg Bool.false_ne_true, if_neg Bool.false_ne_true]
    cases Parameters.read body with
    | error refusal => exact .refused rfl rfl
    | ok parameters => exact .matched rfl rfl
  · rw [Bool.not_eq_true] at he
    rw [he, Bool.not_false, if_pos rfl, if_pos rfl]
    exact .refused rfl rfl

/-- In brackets and on a line of its own, a body that opens with a name is the same tag, or the same
thing is wrong with it at the same place. -/
theorem run_tag_forms {body : Text} (hc : Mark.bracketClose ∉ body) (hn : body.OpensWithName) :
    ((Cursor.mk (Sigil.bracketTag.text ++ (body ++ [Mark.bracketClose])) 0).run
      Recognizer.bracketTag).SameTag
      ((Cursor.mk (Sigil.lineTag.text ++ body.foldBreaks) 0).run Recognizer.lineTag) := by
  obtain ⟨name, rest, rfl, hname, hstop⟩ := hn.split
  have hid := Text.isIdentifier_of_isName hname
  have hfold := Text.foldBreaks_name_append hname rest
  have hflat := PhysicalLine.ofText_flat (Text.hasBreak_foldBreaks (name ++ rest))
  have hstop := hstop.foldBreaks Text.takesBreaksAsSpaces_isIdentifierChar
  have hbracket := @Recognizer.bracketTag_eq_tagBody name rest.foldBreaks (name ++ rest) [] []
    hc hfold (by simp) hid hstop
  have hline := Recognizer.lineTag_eq_tagBody hname (Text.stopsRun_name hstop)
    ((congrArg PhysicalLine.content hflat).trans hfold)
  rw [List.length_nil, Nat.add_zero, Nat.add_comm] at hbracket
  exact sameTag_of_tagBody hbracket hline rfl

theorem run_tag_forms_folded :
    Mark.bracketClose ∉ "bgm\r\nname='x' loop=".toList ∧
      Text.OpensWithName "bgm\r\nname='x' loop=".toList ∧
      ((Cursor.mk "[bgm\r\nname='x' loop=]".toList 0).run Recognizer.bracketTag).SameTag
        ((Cursor.mk "@bgm  name='x' loop=".toList 0).run Recognizer.lineTag) := by
  have hc : Mark.bracketClose ∉ "bgm\r\nname='x' loop=".toList := by decide
  have hn : Text.OpensWithName "bgm\r\nname='x' loop=".toList := ⟨by decide, by decide⟩
  exact ⟨hc, hn, run_tag_forms hc hn⟩

end Cursor

end Playscript
