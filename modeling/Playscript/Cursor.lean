import Playscript.Reading.Line

/-!
# Cursors

A cursor is an offset in a source, which may lie past the end. Recognizers run from a cursor on the
text that remains, and their offsets then count from the start of the source.
-/

namespace Playscript

structure Cursor where
  source : Text
  offset : Nat
  deriving DecidableEq, Repr

namespace Cursor

def remaining (cursor : Cursor) : Text := cursor.source.drop cursor.offset

def atEnd (cursor : Cursor) : Bool := cursor.source.length ≤ cursor.offset

def current (cursor : Cursor) : Except Diagnostic Char :=
  match cursor.source[cursor.offset]? with
  | some c => .ok c
  | none => .error (.unexpectedEnd cursor.offset)

/-- The character some way ahead, or behind if `distance` is negative. -/
def peek? (cursor : Cursor) (distance : Int) : Option Char :=
  cursor.source[(cursor.offset + distance).toNat]?

/-- Never goes past the end. -/
def moveTo (cursor : Cursor) (offset : Nat) : Cursor :=
  ⟨cursor.source, min offset cursor.source.length⟩

def advance (cursor : Cursor) (distance : Int) : Cursor :=
  cursor.moveTo (cursor.offset + distance).toNat

def sliceTo (cursor : Cursor) (stop : Nat) : Text :=
  (cursor.source.take stop).drop cursor.offset

def sliceAhead (cursor : Cursor) (size : Nat) : Text := cursor.remaining.take size

def startsWith (cursor : Cursor) (piece : Text) : Bool :=
  cursor.offset ≤ cursor.source.length && piece.isPrefixOf cursor.remaining

/-- Where `piece` next occurs, all of it before `stop`. -/
def find? (cursor : Cursor) (piece : Text) (stop : Nat) : Option Nat :=
  if cursor.offset ≤ min stop cursor.source.length then
    Text.findFrom piece cursor.offset (cursor.sliceTo stop)
  else none

def skipPadding (cursor : Cursor) : Cursor :=
  { cursor with offset := cursor.offset + (cursor.remaining.takeWhile isPadding).length }

def skipLineEnd (cursor : Cursor) : Cursor :=
  { cursor with offset := cursor.offset + (LineEnd.ofText cursor.remaining).text.length }

def skipToLineEnd (cursor : Cursor) : Cursor :=
  { cursor with offset := cursor.offset + (PhysicalLine.ofText cursor.remaining).content.length }

def place (cursor : Cursor) : Place := .ofOffset cursor.source cursor.offset

def line (cursor : Cursor) : PhysicalLine := .ofText cursor.remaining

def skipLine (cursor : Cursor) : Cursor :=
  { cursor with offset := cursor.offset + cursor.line.size }

variable {α : Type}

/-- The outcome of a recognizer here. What is matched comes with its text and its span. -/
def run (recognizer : Recognizer α) (cursor : Cursor) : Outcome (Located α) :=
  match recognizer cursor.remaining with
  | .absent => .absent
  | .refused refusal => .refused (refusal.shift cursor.offset)
  | .matched content size =>
    .matched ⟨content, cursor.remaining.take size, some (.ofSize cursor.offset size)⟩
      (cursor.offset + size)

/-- The first match among the offsets from the cursor up to but not including `stop`. -/
def findFirst (recognizer : Recognizer α) (cursor : Cursor) (stop : Nat) :
    Option (Located α × Nat) :=
  (List.range' cursor.offset (stop - cursor.offset)).findSome? fun offset =>
    ((cursor.moveTo offset).run recognizer).matched?

end Cursor

end Playscript
