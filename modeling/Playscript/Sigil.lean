import Playscript.Text.Basic

/-!
# Sigils and marks

A sigil opens a line and says what it is; the escape opens a line of prose that is kept as it
stands. Marks divide a line further.
-/

namespace Playscript

inductive Sigil where
  | comment
  | blockComment
  | bracketTag
  | label
  | cue
  | lineTag
  | escape
  deriving DecidableEq, Repr

namespace Sigil

def text : Sigil → Text
  | comment => [';']
  | blockComment => ['/', '*']
  | bracketTag => ['[']
  | label => ['*']
  | cue => ['#']
  | lineTag => ['@']
  | escape => ['_']

def all : List Sigil := [comment, blockComment, bracketTag, label, cue, lineTag, escape]

def strip? (sigil : Sigil) (text : Text) : Option Text := Text.after? sigil.text text

theorem strip?_eq_some_iff {sigil : Sigil} {text rest : Text} :
    sigil.strip? text = some rest ↔ text = sigil.text ++ rest :=
  Text.after?_eq_some_iff

end Sigil

namespace Mark

def commentClose : Text := ['*', '/']
def bracketClose : Char := ']'
def alternate : Char := '|'
def emotion : Char := ':'
def assign : Char := '='
def quotes : List Char := ['\'', '"']

end Mark

end Playscript
