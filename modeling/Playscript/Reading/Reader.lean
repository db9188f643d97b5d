import Playscript.Reading.Composition

/-!
# Readers

A reader has a limit on the size of a source and a list of rules. Reading gives the document or says
why there is none, and keeps a record of its progress.
-/

namespace Playscript

structure Reader where
  /-- No limit if not positive. -/
  maxSourceSize : Int
  rules : List Rule

inductive ReadError where
  | oversized (size limit : Nat)
  | malformed (failure : Failure)
  deriving DecidableEq, Repr

def ReadError.message : ReadError → Text
  | oversized size limit =>
    "Source size (".toList ++ .grouped size ++ " characters) exceeds maximum (".toList ++
      .grouped limit ++ (" characters). Configure max_source_size in ScenarioParser constructor" ++
      " to increase limit.").toList
  | malformed failure => failure.message

inductive Event where
  | started (size : Nat)
  | finished (lineCount : Nat)
  | rejected (complaint : Complaint)
  deriving DecidableEq, Repr

def Event.message : Event → Text
  | started size => "Parsing scenario source (".toList ++ .ofNat size ++ " characters)".toList
  | finished lineCount => "Parsed scenario: ".toList ++ .ofNat lineCount ++ " lines".toList
  | rejected complaint => "Rejected scenario source: ".toList ++ complaint.format

structure Reading where
  result : Except ReadError (Located Document)
  events : List Event

namespace Reader

def defaultMaxSourceSize : Nat := 10 * 1024 * 1024

def standard : Reader := ⟨defaultMaxSourceSize, Rule.standard⟩

def unlimited (rules : List Rule) : Reader := ⟨0, rules⟩

def excludes (reader : Reader) (size : Nat) : Prop :=
  0 < reader.maxSourceSize ∧ reader.maxSourceSize < size

instance (reader : Reader) (size : Nat) : Decidable (reader.excludes size) :=
  inferInstanceAs (Decidable (_ ∧ _))

def reject (source : Text) (complaint : Complaint) : Reading :=
  ⟨.error (.malformed (.ofComplaint complaint)), [.started source.length, .rejected complaint]⟩

/-- The limit comes first, then the empty source, then the lines. A script has at least one. -/
def read (reader : Reader) (source : Text) : Reading :=
  if reader.excludes source.length then
    ⟨.error (.oversized source.length reader.maxSourceSize.toNat), []⟩
  else if source.isEmpty then ⟨.ok ⟨.empty, [], none⟩, []⟩
  else
    let composition := Composition.ofText reader.rules 0 source
    match composition.refusal with
    | none =>
      if composition.lines.isEmpty then reject source (Fault.noLines.complaint source 0)
      else
        ⟨.ok ⟨.script composition.lines, source, some (.ofSize 0 source.length)⟩,
          [.started source.length, .finished composition.lines.length]⟩
    | some refusal => reject source (refusal.fault.complaint source refusal.offset)

def parse (reader : Reader) (source : Text) : Except ReadError (Located Document) :=
  (reader.read source).result

end Reader

end Playscript
