import Playscript.Text.Number
import Playscript.Text.Quoted

/-!
# Parameter values

In a script a parameter is a flag or has a text as its value. A program may put other data in
its place; of such data only the display is kept, since no script can express it.
-/

namespace Playscript

inductive Datum where
  | null
  | bool (value : Bool)
  | integer (value : Int)
  | text (value : Text)
  | list (items : List Datum)
  | record (fields : List (Text × Datum))
  deriving Inhabited, Repr

namespace Datum

mutual

def display : Datum → Text
  | null => "None".toList
  | bool true => "True".toList
  | bool false => "False".toList
  | integer n => .ofInt n
  | text t => t.quoted
  | list items => '[' :: (Text.commaSeparated (displayItems items) ++ [']'])
  | record fields => '\x7b' :: (Text.commaSeparated (displayFields fields) ++ ['\x7d'])

def displayItems : List Datum → List Text
  | [] => []
  | item :: items => display item :: displayItems items

def displayFields : List (Text × Datum) → List Text
  | [] => []
  | (key, item) :: fields => (key.quoted ++ ": ".toList ++ display item) :: displayFields fields

end

end Datum

inductive Value where
  | flag
  | text (value : Text)
  | foreign (display : Text)
  deriving DecidableEq, Repr

/-- The flag is `true`. -/
def Value.ofDatum : Datum → Value
  | .bool true => .flag
  | .text t => .text t
  | datum => .foreign datum.display

end Playscript
