/-!
# Plain data values

Records leave and enter the library as plain data values: the values that the common text formats
for data have in common.  Of numbers only the whole ones from zero up occur in records; any other
number is a value that no record reads.

The readers here are the ones from which the readers of records are put together.  A reader answers
with nothing when the value does not have the shape it wants.
-/

namespace CommandGrammar
namespace Exchange

/-- A plain data value. -/
inductive Value where
  | null
  | bool (value : Bool)
  | number (value : Nat)
  /-- A number that is negative or not whole. -/
  | otherNumber
  | text (value : String)
  | list (items : List Value)
  | object (fields : List (String × Value))
  deriving Inhabited

namespace Value

/-- The largest number that fits into 64 bits. -/
def maxNumber : Nat := UInt64.size - 1

/-- Reads a number that fits into 64 bits. -/
def number? : Value → Option Nat
  | .number value => if value ≤ maxNumber then some value else none
  | _ => none

/-- Reads a truth value. -/
def bool? : Value → Option Bool
  | .bool value => some value
  | _ => none

/-- Reads a text. -/
def text? : Value → Option String
  | .text value => some value
  | _ => none

/-- Reads a list whose items are all read by the reader given. -/
def list? {α : Type} (read : Value → Option α) : Value → Option (List α)
  | .list items => items.mapM read
  | _ => none

/-- The field of an object with a name. -/
def field? (name : String) (fields : List (String × Value)) : Option Value :=
  (fields.find? fun field => field.1 == name).map Prod.snd

/-- Reads the one field of a record: of an object by its name, other fields being ignored, or of a
list of one item. -/
def record1? {α : Type} (name : String) (read : Value → Option α) : Value → Option α
  | .object fields => do read (← field? name fields)
  | .list [item] => read item
  | _ => none

/-- Reads the two fields of a record: of an object by their names, other fields being ignored, or of
a list of two items by their order. -/
def record2? {α β : Type} (name₁ : String) (read₁ : Value → Option α) (name₂ : String)
    (read₂ : Value → Option β) : Value → Option (α × β)
  | .object fields => do
    let first ← read₁ (← field? name₁ fields)
    let second ← read₂ (← field? name₂ fields)
    return (first, second)
  | .list [item₁, item₂] => do
    let first ← read₁ item₁
    let second ← read₂ item₂
    return (first, second)
  | _ => none

/-- A choice as it is read: the name of what is chosen and the value that goes with it.  A bare name
goes without a value. -/
def choice? : Value → Option (String × Option Value)
  | .text name => some (name, none)
  | .object [(name, value)] => some (name, some value)
  | _ => none

/-- Whether nothing goes with a choice; a null value counts as nothing. -/
def isBare : Option Value → Bool
  | none => true
  | some .null => true
  | _ => false

/-- A choice that something goes with. -/
def choice (name : String) (value : Value) : Value := .object [(name, value)]

/-- A list of texts. -/
def texts (items : List String) : Value := .list (items.map .text)

end Value

end Exchange
end CommandGrammar
