import Playscript.Diagnostic.Code
import Playscript.Diagnostic.Location

/-!
# Diagnostics

A diagnostic says what went wrong, how badly, where, and what to do about it.
-/

namespace Playscript

inductive Severity where
  | error
  | warning
  deriving DecidableEq, Repr

def Severity.word : Severity → Text
  | error => "error".toList
  | warning => "warning".toList

structure Diagnostic where
  code : Code
  message : Text
  location : Option Location := none
  hint : Option Text := none
  severity : Severity := .error
  deriving DecidableEq, Repr

namespace Diagnostic

def headline (d : Diagnostic) : Text :=
  d.severity.word ++ ['['] ++ d.code.name ++ "]: ".toList ++ d.message

def locationLine (location : Location) : Text :=
  "  --> line ".toList ++ .ofNat location.line ++ ", column ".toList ++ .ofNat location.column

def hintLine (hint : Text) : Text := "  = help: ".toList ++ hint

/-- The headline, the location and the hint, one line each. An empty hint is not shown. -/
def lines (d : Diagnostic) : List Text :=
  d.headline :: (d.location.toList.map locationLine ++
    (d.hint.toList.filter (!·.isEmpty)).map hintLine)

def format (d : Diagnostic) : Text := ['\n'].intercalate d.lines

def ofLocation (code : Code) (message : Text) (location : Location) : Diagnostic :=
  ⟨code, message, some location, code.hint?, .error⟩

def ofNumbers (code : Code) (message : Text) (offset line column : Int) :
    Except LocationError Diagnostic :=
  (Location.ofNumbers offset offset line column).map (ofLocation code message)

def unexpectedEnd (offset : Int) : Diagnostic :=
  ⟨.unexpectedEnd, "Unexpected EOF at position ".toList ++ .ofInt offset, none,
    some "Check for unterminated constructs".toList, .error⟩

end Diagnostic

end Playscript
