import Playscript.Text.Number

/-!
# Spans

A span is the half-open range of offsets that a piece of source text covers.
-/

namespace Playscript

structure Span where
  start : Nat
  stop : Nat
  start_le_stop : start ≤ stop := by omega
  deriving DecidableEq, Repr

inductive SpanError where
  | negativeStart (start : Int)
  | reversed (start stop : Int)
  deriving DecidableEq, Repr

def SpanError.message : SpanError → Text
  | negativeStart start => "Span start must be >= 0, got ".toList ++ .ofInt start
  | reversed start stop =>
    "Span end (".toList ++ .ofInt stop ++ ") must be >= start (".toList ++ .ofInt start ++ [')']

namespace Span

def ofBounds (start stop : Int) : Except SpanError Span :=
  if _ : start < 0 then .error (.negativeStart start)
  else if _ : stop < start then .error (.reversed start stop)
  else .ok ⟨start.toNat, stop.toNat, by omega⟩

def ofSize (start size : Nat) : Span := ⟨start, start + size, by omega⟩

/-- The same stretch of text, seen from `offset` characters further back. -/
def shift (offset : Nat) (span : Span) : Span :=
  ⟨offset + span.start, offset + span.stop, Nat.add_le_add_left span.start_le_stop offset⟩

end Span

end Playscript
