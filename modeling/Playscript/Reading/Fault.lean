import Playscript.Diagnostic.Complaint
import Playscript.Document.Node
import Playscript.Sigil

/-!
# Faults

What can be wrong with a construct once its sigil is there. Each fault has a message, a list of what
would have been accepted, and a code.
-/

namespace Playscript

inductive Fault where
  | notIdentifier
  | openComment
  | shortComment
  | textAfterComment
  | namelessCue
  | secondEmotion
  | missingEmotion
  | missingLabel
  | malformedLabel
  | malformedAlternate
  | textAfterLabel
  | missingTagName
  | malformedTagName
  | emptyTag
  | namelessTag
  | textInTagName (form : TagForm)
  | missingKey
  | missingValue (key : Text)
  | openQuote (key : Text) (mark : Char)
  | textAfterQuote (key : Text)
  | repeatedKey (key : Text)
  | unrecognizedLine
  | noProgress (rule : Text)
  | noLines
  deriving DecidableEq, Repr

namespace Fault

def message : Fault → Text
  | notIdentifier =>
    "Expected identifier (must start with an ASCII letter or underscore)".toList
  | openComment => "Unterminated block comment".toList
  | shortComment => "Block comment must span more than one line".toList
  | textAfterComment => "Closing '*/' must end its line".toList
  | namelessCue => "Character name is empty".toList
  | secondEmotion => "Character declaration has more than one ':'".toList
  | missingEmotion => "Emotion after ':' is empty".toList
  | missingLabel => "Label has no name".toList
  | malformedLabel => "Label name must be ASCII letters or underscores".toList
  | malformedAlternate => "Label alternate must be ASCII letters or underscores".toList
  | textAfterLabel => "Unexpected content after label".toList
  | missingTagName => "Single-line tag has no name".toList
  | malformedTagName => "Tag name must be ASCII letters or underscores".toList
  | emptyTag => "Multi-line tag is empty".toList
  | namelessTag => "Multi-line tag has no tag name".toList
  | textInTagName _ => "Unexpected character in tag name".toList
  | missingKey => "Parameter has '=' but no key".toList
  | missingValue key => "Parameter '".toList ++ key ++ "' has '=' but no value".toList
  | openQuote key _ => "Unterminated quoted value for parameter '".toList ++ key ++ ['\'']
  | textAfterQuote key =>
    "Unexpected character after quoted value of parameter '".toList ++ key ++ ['\'']
  | repeatedKey key => "Duplicate parameter '".toList ++ key ++ ['\'']
  | unrecognizedLine => "No rule matches this line".toList
  | noProgress rule => "Rule ".toList ++ rule ++ " matched without consuming input".toList
  | noLines => "Scenario produced no lines".toList

def letters : List Text := ["a-z".toList, "A-Z".toList, ['_']]

def expected : Fault → List Text
  | notIdentifier | missingLabel | malformedLabel | malformedAlternate | missingTagName
  | malformedTagName | namelessTag => letters
  | openComment => [Mark.commentClose]
  | textAfterComment => ["line end".toList]
  | namelessCue => ["name".toList]
  | missingEmotion => ["emotion".toList]
  | textAfterLabel => [[Mark.alternate], "line end".toList]
  | emptyTag => ["tag".toList]
  | textInTagName _ | textAfterQuote _ => [[' ']]
  | missingKey => ["key".toList]
  | missingValue _ => ["value".toList]
  | openQuote _ mark => [[mark]]
  | shortComment | secondEmotion | repeatedKey _ | unrecognizedLine | noProgress _ | noLines => []

def code : Fault → Code
  | notIdentifier => .identifier
  | openComment | shortComment | textAfterComment => .blockComment
  | namelessCue | secondEmotion | missingEmotion => .cue
  | missingLabel | malformedLabel | malformedAlternate | textAfterLabel => .label
  | missingTagName | malformedTagName | textInTagName .line => .lineTag
  | emptyTag | namelessTag | textInTagName .bracket => .bracketTag
  | missingKey | missingValue _ | openQuote _ _ | textAfterQuote _ | repeatedKey _ => .parameter
  | unrecognizedLine => .unrecognizedLine
  | noProgress _ => .noProgress
  | noLines => .emptyDocument

def complaint (fault : Fault) (source : Text) (offset : Nat) : Complaint :=
  ⟨fault.message, fault.expected, fault.code, source, offset⟩

end Fault

end Playscript
