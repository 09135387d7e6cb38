/- # Value -- JSON values and their two written forms

`Value.compact` writes a value without blanks; `Value.pretty` writes one item or entry a line, indented by
two blanks a level, with empty containers on one line.  Texts escape the quote, the backslash and the
characters below the blank, and keep all others. -/
import PointsTo.Text.Quoted

set_option autoImplicit false

namespace PointsTo.Json

/-- A JSON value to be written.  A fraction is given by its decimal text. -/
inductive Value
  | null
  | bool (value : Bool)
  | natural (value : Nat)
  | decimal (digits : String)
  | text (value : String)
  | array (items : List Value)
  | object (entries : List (String × Value))
  deriving Inhabited

/-! ## Texts -/

/-- The written form of one character of a text. -/
def escapedChar (c : Char) : String :=
  match c with
  | '"' => "\\\""
  | '\\' => "\\\\"
  | '\x08' => "\\b"
  | '\x0c' => "\\f"
  | '\n' => "\\n"
  | '\r' => "\\r"
  | '\t' => "\\t"
  | _ =>
    if c < ' ' then
      "\\u00" ++ (if c.toNat < 16 then "0" else "") ++ hexadecimal c.toNat
    else c.toString

/-- A text as JSON. -/
def escaped (text : String) : String :=
  "\"" ++ String.join (text.toList.map escapedChar) ++ "\""

/-! ## Values -/

/-- The written form of a value without parts. -/
def Value.leafText : Value → String
  | .bool value => if value then "true" else "false"
  | .natural value => toString value
  | .decimal digits => digits
  | .text value => escaped value
  | _ => "null"

mutual

/-- A value without blanks. -/
def Value.compact : Value → String
  | .array items => "[" ++ compactItems items ++ "]"
  | .object entries => "\x7b" ++ compactEntries entries ++ "\x7d"
  | leaf => leaf.leafText

/-- Items with commas between them. -/
def compactItems : List Value → String
  | [] => ""
  | [value] => value.compact
  | value :: rest => value.compact ++ "," ++ compactItems rest

/-- Entries with commas between them. -/
def compactEntries : List (String × Value) → String
  | [] => ""
  | [(key, value)] => escaped key ++ ":" ++ value.compact
  | (key, value) :: rest => escaped key ++ ":" ++ value.compact ++ "," ++ compactEntries rest

end

/-- A line break followed by the blanks of an indentation level. -/
def lineAt (level : Nat) : String := "\n" ++ String.ofList (List.replicate (2 * level) ' ')

mutual

/-- A value whose parts stand at an indentation level above `level`. -/
def Value.prettyAt (level : Nat) : Value → String
  | .array [] => "[]"
  | .array items => "[" ++ prettyItems (level + 1) items ++ lineAt level ++ "]"
  | .object [] => "\x7b\x7d"
  | .object entries => "\x7b" ++ prettyEntries (level + 1) entries ++ lineAt level ++ "\x7d"
  | leaf => leaf.leafText

/-- Items, each on a line of its own. -/
def prettyItems (level : Nat) : List Value → String
  | [] => ""
  | [value] => lineAt level ++ value.prettyAt level
  | value :: rest => lineAt level ++ value.prettyAt level ++ "," ++ prettyItems level rest

/-- Entries, each on a line of its own. -/
def prettyEntries (level : Nat) : List (String × Value) → String
  | [] => ""
  | [(key, value)] => lineAt level ++ escaped key ++ ": " ++ value.prettyAt level
  | (key, value) :: rest =>
    lineAt level ++ escaped key ++ ": " ++ value.prettyAt level ++ "," ++ prettyEntries level rest

end

/-- A value on indented lines. -/
def Value.pretty (value : Value) : String := value.prettyAt 0

/-! ## Building values -/

/-- The value of an optional part, null when it is absent. -/
def Value.ofOption {α : Type} (write : α → Value) : Option α → Value
  | some a => write a
  | none => .null

/-- The array of a list. -/
def Value.ofList {α : Type} (write : α → Value) (items : List α) : Value := .array (items.map write)

/-- The array of a list of texts. -/
def Value.texts (items : List String) : Value := Value.ofList .text items

/-- The array of a list of naturals. -/
def Value.naturals (items : List Nat) : Value := Value.ofList .natural items

end PointsTo.Json
