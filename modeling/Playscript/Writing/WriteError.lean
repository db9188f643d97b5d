import Playscript.Document.Node

/-!
# What cannot be written

A document can hold texts that no script expresses. Each such case has its message, which shows the
text on one line.
-/

namespace Playscript

inductive Part where
  | comment
  | cue
  | labelName
  | labelAlternate
  | tagName
  | value (key : Text)
  | prose
  deriving DecidableEq, Repr

def Part.words : Part → Text
  | comment => "Line comment".toList
  | cue => "Character declaration".toList
  | labelName => "Label name".toList
  | labelAlternate => "Label alternate".toList
  | tagName => "Single-line tag name".toList
  | value key => "Value of parameter '".toList ++ key ++ ['\'']
  | prose => "Bare text".toList

inductive WriteError where
  | lineBreak (part : Part) (text : Text)
  | notName (part : Part) (text : Text)
  | notIdentifier (text : Text)
  | commentClose
  | shortComment
  | malformedCueName (name : Text)
  | cueNameEndsInSpace (name : Text)
  | malformedEmotion (text : Text)
  | malformedKey (text : Text)
  | foreignValue (key display : Text)
  | bothQuotes (key value : Text)
  | bracketClose (tag : Text)
  | noLines
  deriving DecidableEq, Repr

def WriteError.message : WriteError → Text
  | lineBreak part text => part.words ++ " cannot contain a line break: ".toList ++ text.quoted
  | notName part text =>
    part.words ++ " must be one or more ASCII letters or underscores, got ".toList ++ text.quoted
  | notIdentifier text => "Multi-line tag name must be an identifier, got ".toList ++ text.quoted
  | commentClose => "Block comment body cannot contain '*/'".toList
  | shortComment => "Block comment body must contain a line break".toList
  | malformedCueName name =>
    "Character name must be non-empty without ':', got ".toList ++ name.quoted
  | cueNameEndsInSpace name =>
    "Character name cannot end with whitespace, got ".toList ++ name.quoted
  | malformedEmotion text =>
    "Emotion must be non-empty without ':' or trailing whitespace, got ".toList ++ text.quoted
  | malformedKey key =>
    "Parameter key must be non-empty without blanks or '=', got ".toList ++ key.quoted
  | foreignValue key display =>
    "Parameter '".toList ++ key ++ "' must be True or a string, got ".toList ++ display
  | bothQuotes key value =>
    (Part.value key).words ++ " needs quoting but contains both quote marks: ".toList ++
      value.quoted
  | bracketClose tag => "Multi-line tag '".toList ++ tag ++ "' cannot contain ']'".toList
  | noLines => "Scenario must have at least one line (use EMPTY for an empty document)".toList

end Playscript
