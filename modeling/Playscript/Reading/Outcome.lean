import Playscript.Reading.Fault

/-!
# Outcomes of a recognizer

A recognizer looks at the text from where it stands and nothing before it. It finds nothing, or
refuses the construct at an offset, or matches it up to an offset; both count from where it stands.
-/

namespace Playscript

structure Refusal where
  fault : Fault
  offset : Nat
  deriving DecidableEq, Repr

/-- The same refusal, seen from `offset` characters further back. -/
def Refusal.shift (offset : Nat) (refusal : Refusal) : Refusal :=
  ⟨refusal.fault, offset + refusal.offset⟩

inductive Outcome (α : Type) where
  | absent
  | refused (refusal : Refusal)
  | matched (content : α) (stop : Nat)
  deriving DecidableEq, Repr

namespace Outcome

variable {α β : Type}

def map (f : α → β) : Outcome α → Outcome β
  | absent => absent
  | refused refusal => refused refusal
  | matched content stop => matched (f content) stop

def shift (offset : Nat) : Outcome α → Outcome α
  | absent => absent
  | refused refusal => refused (refusal.shift offset)
  | matched content stop => matched content (offset + stop)

def matched? : Outcome α → Option (α × Nat)
  | matched content stop => some (content, stop)
  | absent | refused _ => none

end Outcome

abbrev Recognizer (α : Type) := Text → Outcome α

end Playscript
