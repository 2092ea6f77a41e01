import SourceSurvey.Text.Basic

/-! JSON values and their two printed forms: compact, and laid out with two spaces per level. An
object prints its fields in the order it holds them. Text is quoted with the short escapes where
there is one, and a control character without one is written with four hexadecimal digits. -/

namespace SourceSurvey.Json

inductive Value where
  | null
  | bool (b : Bool)
  | number (n : Nat)
  | text (t : Text)
  | array (items : List Value)
  | object (fields : List (Text × Value))

namespace Value

def ofOption {α : Type} (encode : α → Value) : Option α → Value
  | none => null
  | some a => encode a

def ofList {α : Type} (encode : α → Value) (items : List α) : Value := array (items.map encode)

/-- An array of texts. -/
def texts (ts : List Text) : Value := ofList text ts

/-- An object of the fields that are there. -/
def record (fields : List (Option (Text × Value))) : Value := object (fields.filterMap id)

end Value

/-- A field that is always there. -/
def field (name : String) (value : Value) : Option (Text × Value) := some (name.toList, value)

/-- A field that is left out when there is no value. -/
def fieldOf? {α : Type} (name : String) (encode : α → Value) (value : Option α) :
    Option (Text × Value) :=
  value.map fun a => (name.toList, encode a)

/-- A field that is left out when the list is empty. -/
def fieldOfList {α : Type} (name : String) (encode : α → Value) : List α → Option (Text × Value)
  | [] => none
  | items => some (name.toList, Value.ofList encode items)

/-- A field that is left out when it is false. -/
def flag (name : String) (value : Bool) : Option (Text × Value) :=
  if value then some (name.toList, .bool true) else none

/-! ### Printing -/

def hexDigit (n : Nat) : Char := (Nat.digitChar (n % 16))

/-- One character as it stands between quotes. -/
def escape (c : Char) : Text :=
  if c = '"' then ['\\', '"']
  else if c = '\\' then ['\\', '\\']
  else if c = '\n' then ['\\', 'n']
  else if c = '\r' then ['\\', 'r']
  else if c = '\t' then ['\\', 't']
  else if c.toNat = 8 then ['\\', 'b']
  else if c.toNat = 12 then ['\\', 'f']
  else if c.toNat < 32 then ['\\', 'u', '0', '0', hexDigit (c.toNat / 16), hexDigit c.toNat]
  else [c]

def quote (t : Text) : Text := ['"'] ++ t.flatMap escape ++ ['"']

mutual

/-- A value without blanks. -/
def compact : Value → Text
  | .null => "null".toList
  | .bool b => (if b then "true" else "false").toList
  | .number n => Nat.toDigits 10 n
  | .text t => quote t
  | .array items => ['['] ++ compactItems items ++ [']']
  | .object fields => ['{'] ++ compactFields fields ++ ['}']

def compactItems : List Value → Text
  | [] => []
  | [item] => compact item
  | item :: items => compact item ++ [','] ++ compactItems items

def compactFields : List (Text × Value) → Text
  | [] => []
  | [(name, value)] => quote name ++ [':'] ++ compact value
  | (name, value) :: fields => quote name ++ [':'] ++ compact value ++ [','] ++ compactFields fields

end

/-- A line break and the indentation of a level. -/
def lineBreak (level : Nat) : Text := '\n' :: List.replicate (2 * level) ' '

mutual

/-- A value laid out from a level of indentation; an empty array or object stays closed. -/
def prettyFrom (level : Nat) : Value → Text
  | .null => "null".toList
  | .bool b => (if b then "true" else "false").toList
  | .number n => Nat.toDigits 10 n
  | .text t => quote t
  | .array [] => ['[', ']']
  | .array (item :: items) =>
      ['['] ++ prettyItems (level + 1) (item :: items) ++ lineBreak level ++ [']']
  | .object [] => ['{', '}']
  | .object (f :: fields) =>
      ['{'] ++ prettyFields (level + 1) (f :: fields) ++ lineBreak level ++ ['}']

def prettyItems (level : Nat) : List Value → Text
  | [] => []
  | [item] => lineBreak level ++ prettyFrom level item
  | item :: items => lineBreak level ++ prettyFrom level item ++ [','] ++ prettyItems level items

def prettyFields (level : Nat) : List (Text × Value) → Text
  | [] => []
  | [(name, value)] => lineBreak level ++ quote name ++ [':', ' '] ++ prettyFrom level value
  | (name, value) :: fields =>
    lineBreak level ++ quote name ++ [':', ' '] ++ prettyFrom level value ++ [','] ++
      prettyFields level fields

end

def pretty (v : Value) : Text := prettyFrom 0 v

end SourceSurvey.Json
