import Playscript.Text.Blank

/-!
# Physical lines

LF, CR and CRLF end a line, and so does the end of the text. The first line of a text is its
content and its ending; what follows it is the rest of the text.
-/

namespace Playscript

def isBreak (c : Char) : Bool := c == '\n' || c == '\r'

inductive LineEnd where
  | lf
  | crlf
  | cr
  | missing
  deriving DecidableEq, Repr

namespace LineEnd

def text : LineEnd → Text
  | lf => ['\n']
  | crlf => ['\r', '\n']
  | cr => ['\r']
  | missing => []

/-- The line end at the very start of a text. CRLF is one line end. -/
def ofText : Text → LineEnd
  | '\n' :: _ => lf
  | '\r' :: '\n' :: _ => crlf
  | '\r' :: _ => cr
  | _ => missing

end LineEnd

structure PhysicalLine where
  content : Text
  ending : LineEnd
  deriving DecidableEq, Repr

namespace PhysicalLine

def ofText (text : Text) : PhysicalLine :=
  ⟨text.takeWhile (!isBreak ·), .ofText (text.dropWhile (!isBreak ·))⟩

def text (line : PhysicalLine) : Text := line.content ++ line.ending.text

def size (line : PhysicalLine) : Nat := line.content.length + line.ending.text.length

def isPadding (line : PhysicalLine) : Bool := line.content.all Playscript.isPadding

end PhysicalLine

namespace Text

def hasBreak (text : Text) : Bool := text.any isBreak

/-- Every CR and every LF becomes one space, so offsets stay what they were. -/
def foldBreaks (text : Text) : Text := text.map fun c => if isBreak c then ' ' else c

@[simp] theorem length_foldBreaks (text : Text) : text.foldBreaks.length = text.length := by
  simp [foldBreaks]

end Text

namespace LineEnd

theorem text_ofText_append_drop (text : Text) :
    (ofText text).text ++ text.drop (ofText text).text.length = text := by
  unfold ofText
  split <;> simp [LineEnd.text]

end LineEnd

namespace PhysicalLine

theorem drop_size (text : Text) : text.drop (ofText text).size =
    (text.dropWhile (!isBreak ·)).drop (ofText text).ending.text.length := by
  simp [ofText, size, ← List.drop_drop, Text.drop_length_takeWhile]

theorem text_append_drop (text : Text) :
    (ofText text).text ++ text.drop (ofText text).size = text := by
  rw [drop_size, PhysicalLine.text, List.append_assoc]
  simp only [ofText, LineEnd.text_ofText_append_drop, List.takeWhile_append_dropWhile]

end PhysicalLine

end Playscript
