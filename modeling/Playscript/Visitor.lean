import Playscript.Document.Node

/-!
# Visitors

A visitor is built level by level, and each level adds handlers for named kinds of nodes. With each
level a table is drawn up anew that leads from the names of kinds to the members that handle them. A
kind that stands in the table is handled by the deepest level that has its member. What was chosen
for a kind is kept in a cache.
-/

namespace Playscript

def Kind.name : Kind → Text
  | empty => "Empty".toList
  | script => "Scenario".toList
  | comment => "LineComment".toList
  | blockComment => "BlockComment".toList
  | cue => "CharacterDeclaration".toList
  | narration => "Narrative".toList
  | label => "Label".toList
  | lineTag => "SingleLineTag".toList
  | bracketTag => "MultiLineTag".toList
  | prose => "BareText".toList
  | identifier => "Identifier".toList
  | quotation => "QuotedString".toList
  | parameter => "KeyValuePair".toList

/-- Handles the nodes of a kind, and goes on to their lines if it descends. -/
structure Handler where
  name : Text
  descends : Bool
  deriving DecidableEq, Repr

namespace Handler

/-- How the name of a member begins if it handles a kind. The name of the kind follows. -/
def mark : Text := "visit_".toList

def member (handler : Handler) : Text := mark ++ handler.name

end Handler

abbrev Level := List Handler

structure Choice where
  level : Nat
  handler : Handler
  deriving DecidableEq, Repr

structure Call where
  level : Nat
  name : Text
  raw : Text
  deriving DecidableEq, Repr

/-- A visit gives back the node itself, or says which handler took it. -/
inductive Answer where
  | same
  | taken (level : Nat) (name : Text)
  deriving DecidableEq, Repr

abbrev Cache := List (Kind × Option Choice)

structure Visit where
  calls : List Call
  answer : Answer
  cache : Cache
  deriving DecidableEq, Repr

inductive Visitor where
  | base
  | extend (parent : Visitor) (level : Level)
  deriving DecidableEq, Repr

/-- From the name of a kind to the name of the member that handles it. -/
abbrev Table := List (Text × Text)

/-- A table names a member that no level has. -/
structure MissingMember where
  name : Text
  deriving DecidableEq, Repr

def Text.insertSorted (text : Text) : List Text → List Text
  | [] => [text]
  | first :: rest =>
    if List.lex first text then first :: insertSorted text rest else text :: first :: rest

/-- Texts in the order of their code points, each once. -/
def Text.sorted (texts : List Text) : List Text := texts.eraseDups.foldr insertSorted []

def Table.ofMembers (members : List Text) : Table :=
  members.filterMap fun member =>
    if member = "visit".toList then none else (Text.after? Handler.mark member).map (·, member)

namespace Visitor

def ofLevels (levels : List Level) : Visitor := levels.foldl extend base

def depth : Visitor → Nat
  | base => 0
  | extend parent _ => parent.depth + 1

def memberNames : Visitor → List Text
  | base => ["generic_visit".toList, "visit".toList]
  | extend parent level => level.map Handler.member ++ parent.memberNames

/-- Each level starts from an empty table. -/
def table : Visitor → Table
  | base => []
  | extend parent level => Table.ofMembers (Text.sorted (extend parent level).memberNames)

/-- Of two members with this name the deeper one, and in one level the later one. -/
def member? : Visitor → Text → Option Choice
  | base, _ => none
  | extend parent level, name =>
    match level.reverse.find? (·.member == name) with
    | some handler => some ⟨parent.depth, handler⟩
    | none => parent.member? name

/-- The handler of a kind, if its name stands in the table. -/
def choose (visitor : Visitor) (kind : Kind) : Except MissingMember (Option Choice) :=
  match visitor.table.lookup kind.name with
  | none => .ok none
  | some name =>
    match visitor.member? name with
    | none => .error ⟨name⟩
    | some choice => .ok (some choice)

def dispatch (visitor : Visitor) (cache : Cache) (kind : Kind) :
    Except MissingMember (Option Choice × Cache) :=
  match cache.lookup kind with
  | some choice => .ok (choice, cache)
  | none => do
    let choice ← visitor.choose kind
    return (choice, (kind, choice) :: cache)

end Visitor

namespace Choice

def call (choice : Choice) (raw : Text) : Call := ⟨choice.level, choice.handler.name, raw⟩

/-- Without a handler the lines are visited all the same. -/
def descends (choice? : Option Choice) : Bool := choice?.all (·.handler.descends)

def answer (choice? : Option Choice) : Answer :=
  match choice? with
  | none => .same
  | some choice =>
    if choice.handler.descends then .same else .taken choice.level choice.handler.name

end Choice

namespace Visitor

def visitLines (visitor : Visitor) (cache : Cache) :
    List (Located Line) → Except MissingMember (List Call × Cache)
  | [] => return ([], cache)
  | line :: lines => do
    let (choice, cache) ← visitor.dispatch cache line.content.kind
    let (calls, cache) ← visitLines visitor cache lines
    return ((choice.map (·.call line.raw)).toList ++ calls, cache)

def visit (visitor : Visitor) (cache : Cache) (node : Node) : Except MissingMember Visit := do
  let (choice, cache) ← visitor.dispatch cache node.kind
  let lines := if Choice.descends choice then node.lines?.getD [] else []
  let (calls, cache) ← visitor.visitLines cache lines
  return ⟨(choice.map (·.call node.raw)).toList ++ calls, Choice.answer choice, cache⟩

def visitAll (visitor : Visitor) (cache : Cache) : List Node → Except MissingMember (List Visit)
  | [] => return []
  | node :: nodes => do
    let first ← visitor.visit cache node
    let others ← visitAll visitor first.cache nodes
    return first :: others

end Visitor

def Cache.names (cache : Cache) : List Text := Text.sorted (cache.map (·.1.name))

end Playscript
