import Playscript.Document.Node

/-!
# Equal nodes

Two nodes are alike if they agree in kind and in every field, where parameters count as a mapping.
The fingerprint of a node leaves out parameters and the kind, at any depth.
-/

namespace Playscript

def Line.alike : Line → Line → Bool
  | tag form name p, tag form' name' p' => form == form' && name == name' && p.alike p'
  | a, b => a == b

namespace Located

variable {α : Type}

def alike (same : α → α → Bool) (a b : Located α) : Bool :=
  same a.content b.content && a.raw == b.raw && a.span == b.span

def allAlike (same : α → α → Bool) : List (Located α) → List (Located α) → Bool
  | [], [] => true
  | a :: as, b :: bs => alike same a b && allAlike same as bs
  | _, _ => false

end Located

def Document.alike : Document → Document → Bool
  | empty, empty => true
  | script as, script bs => Located.allAlike Line.alike as bs
  | _, _ => false

def Node.alike : Node → Node → Bool
  | document a, document b => a.alike Document.alike b
  | line a, line b => a.alike Line.alike b
  | token a, token b => a == b
  | _, _ => false

/-- The fields that count, in order. -/
abbrev FieldPrint := List (Option Text)

structure Fingerprint where
  whole : Located FieldPrint
  lines : List (Located FieldPrint)
  deriving DecidableEq, Repr

def Line.fieldPrint : Line → FieldPrint
  | comment body => [some body]
  | blockComment body => [some body]
  | cue name emotion => [some name, emotion]
  | narration => []
  | label name alternate => [some name, alternate]
  | tag _ name _ => [some name]
  | prose text => [some text]

def Token.fieldPrint : Token → FieldPrint
  | identifier name => [some name]
  | quotation value mark => [some value, some mark]
  | parameter key .flag => [some key, none]
  | parameter key (.text value) => [some key, some value]
  | parameter key (.foreign display) => [some key, some display]

def Node.fingerprint : Node → Fingerprint
  | document d => ⟨d.map fun _ => [], d.content.lines.map (·.map Line.fieldPrint)⟩
  | line l => ⟨l.map Line.fieldPrint, []⟩
  | token t => ⟨t.map Token.fieldPrint, []⟩

end Playscript
