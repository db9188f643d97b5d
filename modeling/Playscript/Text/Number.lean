import Playscript.Text.Basic

/-!
# Numbers as text

Decimal digits, with a sign where the number is negative, and the same digits in groups of three.
-/

namespace Playscript.Text

def ofNat (n : Nat) : Text := Nat.toDigits 10 n

def ofInt (n : Int) : Text := if n < 0 then '-' :: ofNat n.natAbs else ofNat n.natAbs

/-- A comma after every third digit that is not the last, least digit first. -/
def groupThrees : Text → Text
  | a :: b :: c :: d :: rest => a :: b :: c :: ',' :: groupThrees (d :: rest)
  | digits => digits

def grouped (n : Nat) : Text := (groupThrees (ofNat n).reverse).reverse

end Playscript.Text
