import Playscript.Document.Parameters
import Playscript.Span

/-!
# Documents

A document is empty or a script, and a script is a list of lines. Tokens are the smaller pieces that
lines are made of. Each of them comes with the source text it was read from, and where that stood.
-/

namespace Playscript

/-- A tag takes one physical line after `@`, or stands between brackets. -/
inductive TagForm where
  | line
  | bracket
  deriving DecidableEq, Repr

inductive Line where
  | comment (body : Text)
  | blockComment (body : Text)
  | cue (name : Text) (emotion : Option Text)
  | narration
  | label (name : Text) (alternate : Option Text)
  | tag (form : TagForm) (name : Text) (parameters : Parameters)
  | prose (text : Text)
  deriving DecidableEq, Repr

inductive Token where
  | identifier (name : Text)
  | quotation (value mark : Text)
  | parameter (key : Text) (value : Value)
  deriving DecidableEq, Repr

/-- What was read, the source text it was read from, and the place of that text. -/
structure Located (α : Type) where
  content : α
  raw : Text
  span : Option Span
  deriving DecidableEq, Repr

def Located.map {α β : Type} (f : α → β) (a : Located α) : Located β :=
  ⟨f a.content, a.raw, a.span⟩

inductive Document where
  | empty
  | script (lines : List (Located Line))
  deriving DecidableEq, Repr

def Document.lines : Document → List (Located Line)
  | empty => []
  | script lines => lines

inductive Node where
  | document (document : Located Document)
  | line (line : Located Line)
  | token (token : Located Token)
  deriving DecidableEq, Repr

inductive Kind where
  | empty
  | script
  | comment
  | blockComment
  | cue
  | narration
  | label
  | lineTag
  | bracketTag
  | prose
  | identifier
  | quotation
  | parameter
  deriving DecidableEq, Repr

namespace Kind

def all : List Kind :=
  [empty, script, comment, blockComment, cue, narration, label, lineTag, bracketTag, prose,
   identifier, quotation, parameter]

/-- The word that tells nodes of this kind apart in data. -/
def word : Kind → Text
  | empty => "empty".toList
  | script => "scenario".toList
  | comment => "line-comment".toList
  | blockComment => "block-comment".toList
  | cue => "character-declaration".toList
  | narration => "narrative".toList
  | label => "label".toList
  | lineTag => "single-line-tag".toList
  | bracketTag => "multi-line-tag".toList
  | prose => "bare-text".toList
  | identifier => "identifier".toList
  | quotation => "quoted-string".toList
  | parameter => "key-value-pair".toList

end Kind

def Line.kind : Line → Kind
  | comment _ => .comment
  | blockComment _ => .blockComment
  | cue _ _ => .cue
  | narration => .narration
  | label _ _ => .label
  | tag .line _ _ => .lineTag
  | tag .bracket _ _ => .bracketTag
  | prose _ => .prose

def Token.kind : Token → Kind
  | identifier _ => .identifier
  | quotation _ _ => .quotation
  | parameter _ _ => .parameter

def Document.kind : Document → Kind
  | empty => .empty
  | script _ => .script

namespace Node

def kind : Node → Kind
  | document d => d.content.kind
  | line l => l.content.kind
  | token t => t.content.kind

def raw : Node → Text
  | document d => d.raw
  | line l => l.raw
  | token t => t.raw

def span : Node → Option Span
  | document d => d.span
  | line l => l.span
  | token t => t.span

def lines? : Node → Option (List (Located Line))
  | document d => some d.content.lines
  | line _ => none
  | token _ => none

end Node

end Playscript
