import Playscript.Text.Basic

/-!
# Blank characters

Two classes are in use. The wide one holds 29 characters: the Unicode white space and the four
information separators. The narrow one, space and tab, is what may pad a line.
-/

namespace Playscript

/-- White space of Unicode, and U+001C to U+001F. -/
def isSpace (c : Char) : Bool :=
  let n := c.toNat
  (0x09 ≤ n && n ≤ 0x0D) || (0x1C ≤ n && n ≤ 0x20) || n == 0x85 || n == 0xA0 || n == 0x1680 ||
    (0x2000 ≤ n && n ≤ 0x200A) || n == 0x2028 || n == 0x2029 || n == 0x202F || n == 0x205F ||
    n == 0x3000

def isPadding (c : Char) : Bool := c == ' ' || c == '\t'

namespace Text

def isBlank (text : Text) : Bool := text.all isSpace

def trimLeft (text : Text) : Text := text.dropWhile isSpace

def trimRight (text : Text) : Text := (text.reverse.dropWhile isSpace).reverse

def trim (text : Text) : Text := trimRight (trimLeft text)

def endsInSpace (text : Text) : Bool := text.getLast?.any isSpace

end Text

end Playscript
