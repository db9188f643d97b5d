import Playscript.Text.Number

/-!
# Diagnostic codes

Every failure carries a code. Codes below 3100 are about the document as a whole, the others about
one construct, and a hint says what that construct should look like.
-/

namespace Playscript

inductive Code where
  | unexpectedEnd
  | unrecognizedLine
  | noProgress
  | emptyDocument
  | identifier
  | label
  | cue
  | lineTag
  | bracketTag
  | parameter
  | blockComment
  deriving DecidableEq, Repr

namespace Code

def all : List Code :=
  [unexpectedEnd, unrecognizedLine, noProgress, emptyDocument, identifier, label, cue, lineTag,
   bracketTag, parameter, blockComment]

def number : Code → Nat
  | unexpectedEnd => 3001
  | unrecognizedLine => 3002
  | noProgress => 3003
  | emptyDocument => 3004
  | identifier => 3101
  | label => 3102
  | cue => 3103
  | lineTag => 3104
  | bracketTag => 3105
  | parameter => 3106
  | blockComment => 3107

def name : Code → Text
  | unexpectedEnd => "UNEXPECTED_EOF".toList
  | unrecognizedLine => "UNRECOGNIZED_LINE".toList
  | noProgress => "NO_PROGRESS".toList
  | emptyDocument => "EMPTY_SCENARIO".toList
  | identifier => "INVALID_IDENTIFIER".toList
  | label => "INVALID_LABEL".toList
  | cue => "INVALID_CHARACTER_DECLARATION".toList
  | lineTag => "INVALID_SINGLE_LINE_TAG".toList
  | bracketTag => "INVALID_MULTI_LINE_TAG".toList
  | parameter => "INVALID_PARAMETER".toList
  | blockComment => "INVALID_BLOCK_COMMENT".toList

def hint? : Code → Option Text
  | unexpectedEnd => none
  | unrecognizedLine => some "Every line must be a comment, cue, label, tag or text".toList
  | noProgress => some "A recognizer matched without consuming input".toList
  | emptyDocument => some "A non-empty scenario must contain at least one line".toList
  | identifier => some "Identifiers are [A-Za-z_][A-Za-z0-9_]*".toList
  | label => some "Write labels as *name or *name|alternate (letters and _)".toList
  | cue => some "Write cues as #, #Name or #Name:Emotion".toList
  | lineTag => some "Write single-line tags as @tag param key=value".toList
  | bracketTag => some "Write multi-line tags as [tag param key=value]".toList
  | parameter => some "Keep each key=value on one line; quote values containing spaces".toList
  | blockComment => some "Open with /* and close with */ at the end of a later line".toList

end Code

end Playscript
