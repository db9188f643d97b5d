import Playscript.Diagnostic.Family
import Playscript.Diagnostic.Report

/-!
# Complaints and failures

A complaint is about one offset of a source and has a short form on one line. A failure is the
complaint that ended an attempt to read, made into a diagnostic.
-/

namespace Playscript

structure Complaint where
  message : Text
  expected : List Text
  code : Code
  source : Text
  offset : Nat
  deriving DecidableEq, Repr

namespace Complaint

/-- Line, column and message, and in parentheses what was expected. -/
def format (c : Complaint) : Text :=
  let place := Place.ofOffset c.source c.offset
  let quotes := c.expected.map fun piece => '\'' :: (piece ++ ['\''])
  Text.ofNat place.line ++ [':'] ++ Text.ofNat place.column ++ ": ".toList ++ c.message ++
    if c.expected.isEmpty then [] else " (expected: ".toList ++ Text.commaSeparated quotes ++ [')']

end Complaint

/-- The end of an attempt to read: what is wrong, where, and what was left to read. -/
structure Failure where
  diagnostic : Diagnostic
  offset : Nat
  remaining : Text
  place : Place
  deriving DecidableEq, Repr

namespace Failure

def ofComplaint (c : Complaint) : Failure :=
  { diagnostic := .ofLocation c.code c.message (.ofOffset c.source c.offset)
    offset := c.offset
    remaining := c.source.drop c.offset
    place := .ofOffset c.source c.offset }

def family (failure : Failure) : Family := .ofCode failure.diagnostic.code

def message (failure : Failure) : Text := failure.diagnostic.format

end Failure

end Playscript
