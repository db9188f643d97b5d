import Playscript.Reading.Token
import Playscript.Text.PhysicalLine
import Playscript.Writing.WriteError

/-!
# Writing

Each line is written from its content alone, so the text it once was read from does not matter. A
value is quoted and prose is escaped only where it would not be read back as it is.
-/

namespace Playscript

/-- Whether a value would not be read back without quotes. -/
def Text.needsQuotes : Text → Bool
  | [] => true
  | c :: rest => Mark.quotes.contains c || (c :: rest).any isSpace

/-- Whether prose would not be read back without the escape. -/
def Text.needsEscape (text : Text) : Bool :=
  text != text.trim || Sigil.all.any fun sigil => (sigil.strip? text).isSome

namespace Entry

def writeValue (key value : Text) : Except WriteError Text :=
  if value.hasBreak then .error (.lineBreak (.value key) value)
  else if !value.needsQuotes then .ok value
  else
    match Mark.quotes.find? (!value.contains ·) with
    | some mark => .ok (mark :: (value ++ [mark]))
    | none => .error (.bothQuotes key value)

def write (entry : Entry) : Except WriteError Text :=
  if entry.1.isEmpty || !entry.1.all Recognizer.isKeyChar then .error (.malformedKey entry.1)
  else
    match entry.2 with
    | .flag => .ok entry.1
    | .text value => (writeValue entry.1 value).map (entry.1 ++ Mark.assign :: ·)
    | .foreign display => .error (.foreignValue entry.1 display)

end Entry

def Parameters.writeAfter (name : Text) (parameters : Parameters) : Except WriteError Text :=
  (parameters.entries.mapM Entry.write).map fun parts => [' '].intercalate (name :: parts)

namespace Line

def writeCue (name : Text) (emotion : Option Text) : Except WriteError Text :=
  if name.hasBreak then .error (.lineBreak .cue name)
  else if name.isEmpty || name.contains Mark.emotion then .error (.malformedCueName name)
  else
    match emotion with
    | none =>
      if name.endsInSpace then .error (.cueNameEndsInSpace name)
      else .ok (Sigil.cue.text ++ name)
    | some emotion =>
      if emotion.hasBreak then .error (.lineBreak .cue emotion)
      else if emotion.isEmpty || emotion.contains Mark.emotion || emotion.endsInSpace then
        .error (.malformedEmotion emotion)
      else .ok (Sigil.cue.text ++ name ++ Mark.emotion :: emotion)

def writeLabel (name : Text) (alternate : Option Text) : Except WriteError Text :=
  if !name.isName then .error (.notName .labelName name)
  else
    match alternate with
    | none => .ok (Sigil.label.text ++ name)
    | some alternate =>
      if !alternate.isName then .error (.notName .labelAlternate alternate)
      else .ok (Sigil.label.text ++ name ++ Mark.alternate :: alternate)

def writeTag (form : TagForm) (name : Text) (parameters : Parameters) : Except WriteError Text :=
  match form with
  | .line =>
    if !name.isName then .error (.notName .tagName name)
    else (parameters.writeAfter name).map (Sigil.lineTag.text ++ ·)
  | .bracket =>
    if !name.isIdentifier then .error (.notIdentifier name)
    else
      match parameters.writeAfter name with
      | .error error => .error error
      | .ok body =>
        if body.contains Mark.bracketClose then .error (.bracketClose name)
        else .ok (Sigil.bracketTag.text ++ body ++ [Mark.bracketClose])

def write : Line → Except WriteError Text
  | comment body =>
    if body.hasBreak then .error (.lineBreak .comment body) else .ok (Sigil.comment.text ++ body)
  | blockComment body =>
    if Text.hasPiece Mark.commentClose body then .error .commentClose
    else if !body.hasBreak then .error .shortComment
    else .ok (Sigil.blockComment.text ++ body ++ Mark.commentClose)
  | cue name emotion => writeCue name emotion
  | narration => .ok Sigil.cue.text
  | label name alternate => writeLabel name alternate
  | tag form name parameters => writeTag form name parameters
  | prose text =>
    if text.hasBreak then .error (.lineBreak .prose text)
    else if text.needsEscape then .ok (Sigil.escape.text ++ text)
    else .ok text

def writeEnded (line : Line) : Except WriteError Text := line.write.map (· ++ ['\n'])

end Line

def Document.write : Document → Except WriteError Text
  | empty => .ok []
  | script [] => .error .noLines
  | script lines => (lines.mapM (Line.writeEnded ·.content)).map List.flatten

end Playscript
