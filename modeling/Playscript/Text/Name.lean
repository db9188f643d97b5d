import Playscript.Text.Basic

/-!
# Names and identifiers

Both are made of ASCII letters and underscores. Digits may stand in an identifier, but not first.
-/

namespace Playscript

def isNameChar (c : Char) : Bool := c.isAlpha || c == '_'

def isIdentifierChar (c : Char) : Bool := c.isAlphanum || c == '_'

theorem isIdentifierChar_of_isNameChar {c : Char} (h : isNameChar c) : isIdentifierChar c := by
  simp only [isNameChar, Bool.or_eq_true] at h
  rcases h with h | h <;> simp [isIdentifierChar, Char.isAlphanum, h]

namespace Text

def isName (text : Text) : Bool := !text.isEmpty && text.all isNameChar

def isIdentifier : Text → Bool
  | [] => false
  | c :: rest => isNameChar c && rest.all isIdentifierChar

end Text

end Playscript
