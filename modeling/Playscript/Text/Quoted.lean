import Playscript.Text.Printable

/-!
# Quoted display

How messages show a text: between single quotes, or between double quotes when only single quotes
occur in it, on one line and with every invisible character spelled out.
-/

namespace Playscript.Text

def hexDigits (width : Nat) (c : Char) : Text := (Nat.toDigits 16 c.toNat).leftpad width '0'

/-- The shortest of the three numeric escapes that holds the character. -/
def numericEscape (c : Char) : Text :=
  if c.toNat < 0x100 then '\\' :: 'x' :: hexDigits 2 c
  else if c.toNat < 0x10000 then '\\' :: 'u' :: hexDigits 4 c
  else '\\' :: 'U' :: hexDigits 8 c

def quotedChar (mark c : Char) : Text :=
  if c = '\\' ∨ c = mark then ['\\', c]
  else if c = '\t' then ['\\', 't']
  else if c = '\n' then ['\\', 'n']
  else if c = '\r' then ['\\', 'r']
  else if isPrintable c then [c]
  else numericEscape c

def quoted (text : Text) : Text :=
  let mark := if text.contains '\'' && !text.contains '"' then '"' else '\''
  mark :: (text.flatMap (quotedChar mark) ++ [mark])

end Playscript.Text
