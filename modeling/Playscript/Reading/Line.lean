import Playscript.Reading.Parameters
import Playscript.Text.PhysicalLine

/-!
# Lines

One recognizer for each construct. All but prose look for their sigil first and find nothing
without it; a bracket tag also needs its closing bracket. After that a malformed line is refused.
-/

namespace Playscript.Recognizer

def comment : Recognizer Line := fun text =>
  match Sigil.comment.strip? text with
  | none => .absent
  | some rest =>
    let line := PhysicalLine.ofText rest
    .matched (.comment line.content) (1 + line.size)

/-- Must cover a line break, and be alone on the line where it closes. -/
def blockComment : Recognizer Line := fun text =>
  match Sigil.blockComment.strip? text with
  | none => .absent
  | some rest =>
    match Text.cut? Mark.commentClose rest with
    | none => .refused ⟨.openComment, 0⟩
    | some (body, after) =>
      let line := PhysicalLine.ofText after
      if !body.hasBreak then .refused ⟨.shortComment, 0⟩
      else if !line.isPadding then
        .refused ⟨.textAfterComment, body.length + 4 + (after.takeWhile isPadding).length⟩
      else .matched (.blockComment body) (body.length + 4 + line.size)

/-- Spaces at the end do not count. Without anything else the cue is narration. -/
def cue : Recognizer Line := fun text =>
  match Sigil.cue.strip? text with
  | none => .absent
  | some rest =>
    let line := PhysicalLine.ofText rest
    let content := line.content.trimRight
    if content.isEmpty then .matched .narration (1 + line.size)
    else
      match Text.cutAt? Mark.emotion content with
      | none => .matched (.cue content none) (1 + line.size)
      | some (name, emotion) =>
        if name.isEmpty then .refused ⟨.namelessCue, 1⟩
        else
          match Text.cutAt? Mark.emotion emotion with
          | some (first, _) => .refused ⟨.secondEmotion, name.length + 2 + first.length⟩
          | none =>
            if emotion.isEmpty then .refused ⟨.missingEmotion, name.length + 2⟩
            else .matched (.cue name (some emotion)) (1 + line.size)

def label : Recognizer Line := fun text =>
  match Sigil.label.strip? text with
  | none => .absent
  | some rest =>
    let line := PhysicalLine.ofText rest
    let name := line.content.takeWhile isNameChar
    let after := line.content.dropWhile isNameChar
    if name.isEmpty then
      .refused ⟨if line.content.isBlank then .missingLabel else .malformedLabel, 1⟩
    else
      match Text.after? [Mark.alternate] after with
      | none =>
        if after.all isPadding then .matched (.label name none) (1 + line.size)
        else .refused ⟨.textAfterLabel, name.length + 1⟩
      | some rest =>
        let alternate := rest.takeWhile isNameChar
        if alternate.isEmpty then .refused ⟨.malformedAlternate, name.length + 2⟩
        else if (rest.dropWhile isNameChar).all isPadding then
          .matched (.label name (some alternate)) (1 + line.size)
        else .refused ⟨.textAfterLabel, name.length + 2 + alternate.length⟩

def tagBody (form : TagForm) (name body : Text) (offset stop : Nat) : Outcome Line :=
  if !atTokenEnd body then .refused ⟨.textInTagName form, offset⟩
  else
    match Parameters.read body with
    | .error refusal => .refused (refusal.shift offset)
    | .ok parameters => .matched (.tag form name parameters) stop

def lineTag : Recognizer Line := fun text =>
  match Sigil.lineTag.strip? text with
  | none => .absent
  | some rest =>
    let line := PhysicalLine.ofText rest
    let name := line.content.takeWhile isNameChar
    if name.isEmpty then
      .refused ⟨if line.content.isEmpty then .missingTagName else .malformedTagName, 1⟩
    else tagBody .line name (line.content.dropWhile isNameChar) (name.length + 1) (1 + line.size)

/-- The name is the first identifier inside the brackets, where line breaks count as spaces. The
rest of the line belongs to the tag only if it is padding. -/
def bracketTag : Recognizer Line := fun text =>
  match Sigil.bracketTag.strip? text with
  | none => .absent
  | some rest =>
    match Text.cutAt? Mark.bracketClose rest with
    | none => .absent
    | some (inside, after) =>
      let body := inside.foldBreaks
      let skipped := body.takeWhile (!isNameChar ·)
      let named := body.dropWhile (!isNameChar ·)
      if body.isBlank then .refused ⟨.emptyTag, 0⟩
      else if named.isEmpty then
        .refused ⟨.namelessTag, 1 + (body.takeWhile isSpace).length⟩
      else
        let name := named.takeWhile isIdentifierChar
        let line := PhysicalLine.ofText after
        tagBody .bracket name (named.dropWhile isIdentifierChar)
          (1 + skipped.length + name.length)
          (inside.length + 2 + if line.isPadding then line.size else 0)

/-- Any line is prose. The escape keeps the rest of the line as it stands. -/
def prose : Recognizer Line := fun text =>
  if text.isEmpty then .absent
  else
    let line := PhysicalLine.ofText text
    match Sigil.escape.strip? line.content with
    | some kept => .matched (.prose kept) line.size
    | none => .matched (.prose line.content.trim) line.size

end Playscript.Recognizer
