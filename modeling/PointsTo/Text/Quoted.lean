/- # Quoted -- quoted labels and bracketed lists

A label is written between double quotes.  A quote and a backslash get a backslash, the usual control
characters their short escapes, and every other character without a visible form of its own is written
as its code point in hexadecimal between braces.  `listed` and `braced` write element texts with commas
between square brackets and between braces. -/
import PointsTo.Text.Visible

set_option autoImplicit false

namespace PointsTo

/-- The lower-case hexadecimal digits of a number. -/
def hexadecimal (n : Nat) : String := String.ofList (Nat.toDigits 16 n)

/-! ## Labels -/

/-- The written form of one character of a label. -/
def quotedChar (c : Char) : String :=
  match c with
  | '"' => "\\\""
  | '\\' => "\\\\"
  | '\n' => "\\n"
  | '\r' => "\\r"
  | '\t' => "\\t"
  | '\x00' => "\\0"
  | _ => if isVisible c then c.toString else "\\u\x7b" ++ hexadecimal c.toNat ++ "\x7d"

/-- A text between double quotes. -/
def quoted (text : String) : String :=
  "\"" ++ String.join (text.toList.map quotedChar) ++ "\""

/-! ## Lists -/

/-- `[a, b, c]`. -/
def listed (elements : List String) : String := "[" ++ ", ".intercalate elements ++ "]"

/-- `{a, b, c}`. -/
def braced (elements : List String) : String := "\x7b" ++ ", ".intercalate elements ++ "\x7d"

/-- The display name of a number in a named numbering, `Name(3)`. -/
def numbered (name : String) (n : Nat) : String := name ++ "(" ++ toString n ++ ")"

end PointsTo
