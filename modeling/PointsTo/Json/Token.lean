/- # Token -- the words of a JSON text

`Token.scan` cuts a text into tokens and says whether it could be cut to its end.  A text in quotes is
kept as the characters it denotes; one with half of a surrogate pair denotes no characters, and its token
says so, because such a text is harmless where nobody reads it.  A number is kept as a decimal with the
leading digits that fit 64 bits, which is what its range is judged by. -/
import PointsTo.Number.Binary64

set_option autoImplicit false

namespace PointsTo.Json

/-- A number as written: its sign, its leading digits and the power of ten that scales them. -/
structure Numeral where
  negative : Bool
  digits : Nat
  scale : Int
  deriving DecidableEq, Repr

namespace Numeral

/-- Whether the number is in the binary64 range. -/
def inRange (n : Numeral) : Bool := !Binary64.overflowsScaled n.digits n.scale

/-- The natural number, for a numeral written without sign, fraction and exponent. -/
def toNat? (n : Numeral) : Option Nat :=
  if n.negative ∨ n.scale ≠ 0 then none else some n.digits

end Numeral

/-- The words of a JSON text. -/
inductive Token
  | openArray | closeArray | openObject | closeObject | colon | comma
  | null
  | bool (value : Bool)
  | number (value : Numeral)
  /-- The denoted text, or nothing when an escape names half of a surrogate pair. -/
  | text (value : Option String)
  deriving DecidableEq, Repr

/-! ## Texts in quotes -/

/-- A part of a text in quotes: a character, or a 16-bit unit named by an escape. -/
inductive Piece
  | char (c : Char)
  | unit (value : Nat)
  deriving DecidableEq, Repr

/-- The value of a hexadecimal digit. -/
def hexDigit? (c : Char) : Option Nat :=
  if '0' ≤ c ∧ c ≤ '9' then some (c.toNat - '0'.toNat)
  else if 'a' ≤ c ∧ c ≤ 'f' then some (c.toNat - 'a'.toNat + 10)
  else if 'A' ≤ c ∧ c ≤ 'F' then some (c.toNat - 'A'.toNat + 10)
  else none

/-- The value of four hexadecimal digits. -/
def hexUnit? (a b c d : Char) : Option Nat := do
  let a ← hexDigit? a
  let b ← hexDigit? b
  let c ← hexDigit? c
  let d ← hexDigit? d
  return ((a * 16 + b) * 16 + c) * 16 + d

/-- The character of a one-letter escape. -/
def shortEscape? : Char → Option Char
  | '"' => some '"'
  | '\\' => some '\\'
  | '/' => some '/'
  | 'b' => some '\x08'
  | 'f' => some '\x0c'
  | 'n' => some '\n'
  | 'r' => some '\r'
  | 't' => some '\t'
  | _ => none

/-- The pieces up to the closing quote, newest first, and what follows the quote. -/
def scanPieces (pieces : List Piece) : List Char → Option (List Piece × List Char)
  | [] => none
  | '"' :: rest => some (pieces, rest)
  | '\\' :: 'u' :: a :: b :: c :: d :: rest =>
    match hexUnit? a b c d with
    | some value => scanPieces (.unit value :: pieces) rest
    | none => none
  | '\\' :: e :: rest =>
    match shortEscape? e with
    | some c => scanPieces (.char c :: pieces) rest
    | none => none
  | c :: rest => if c = '\\' ∨ c < ' ' then none else scanPieces (.char c :: pieces) rest

/-- The characters that pieces denote: a high and a low unit in a row make one character, and a unit
without its other half none. -/
def denoted : List Piece → Option (List Char)
  | [] => some []
  | .char c :: rest => (denoted rest).map (c :: ·)
  | .unit high :: .unit low :: rest =>
    if 0xd800 ≤ high ∧ high < 0xdc00 then
      if 0xdc00 ≤ low ∧ low < 0xe000 then
        (denoted rest).map (Char.ofNat ((high - 0xd800) * 0x400 + (low - 0xdc00) + 0x10000) :: ·)
      else none
    else if 0xdc00 ≤ high ∧ high < 0xe000 then none
    else (denoted (.unit low :: rest)).map (Char.ofNat high :: ·)
  | .unit value :: rest =>
    if 0xd800 ≤ value ∧ value < 0xe000 then none
    else (denoted rest).map (Char.ofNat value :: ·)

/-! ## Numbers -/

/-- The value of a row of decimal digits. -/
def digitsValue (digits : List Char) : Nat :=
  digits.foldl (fun value c => value * 10 + (c.toNat - '0'.toNat)) 0

/-- The longest run of leading digits whose value fits 64 bits, and the digits it leaves out. -/
def leadingDigits (value : Nat) : List Char → Nat × List Char
  | [] => (value, [])
  | c :: rest =>
    let next := value * 10 + (c.toNat - '0'.toNat)
    if next < 0x10000000000000000 then leadingDigits next rest else (value, c :: rest)

/-- The numeral of a sign, whole digits, fraction digits and an exponent. -/
def numeral (negative : Bool) (whole fraction : List Char) (exponent : Int) : Numeral :=
  let (value, left) := leadingDigits 0 whole
  if left.isEmpty then
    let (value, dropped) := leadingDigits value fraction
    ⟨negative, value, exponent - (fraction.length - dropped.length : Nat)⟩
  else ⟨negative, value, exponent + left.length⟩

/-- The digits at the front, and what follows them. -/
def spanDigits (cs : List Char) : List Char × List Char := cs.span Char.isDigit

/-- The exponent part of a number, zero when there is none. -/
def scanExponent (cs : List Char) : Option (Int × List Char) :=
  match cs with
  | c :: rest =>
    if c = 'e' ∨ c = 'E' then
      let (negative, rest) := match rest with
        | '-' :: rest => (true, rest)
        | '+' :: rest => (false, rest)
        | _ => (false, rest)
      let (digits, rest) := spanDigits rest
      if digits.isEmpty then none
      else
        let value : Int := digitsValue digits
        some (if negative then -value else value, rest)
    else some (0, cs)
  | [] => some (0, [])

/-- A number after its sign.  A leading zero stands alone, and a point has digits on both sides. -/
def scanNumber (negative : Bool) (cs : List Char) : Option (Numeral × List Char) := do
  let (whole, rest) := spanDigits cs
  if whole.isEmpty ∨ (1 < whole.length ∧ whole.head? = some '0') then none
  else
    let (fraction, rest) ← match rest with
      | '.' :: rest =>
        let (fraction, rest) := spanDigits rest
        if fraction.isEmpty then none else some (fraction, rest)
      | _ => some ([], rest)
    let (exponent, rest) ← scanExponent rest
    return (numeral negative whole fraction exponent, rest)

/-! ## Tokens -/

/-- Whether a character separates tokens. -/
def isBlank (c : Char) : Bool := c = ' ' || c = '\n' || c = '\t' || c = '\r'

/-- The characters after a word that must come next. -/
def after? (word cs : List Char) : Option (List Char) :=
  if word.isPrefixOf cs then some (cs.drop word.length) else none

/-- The token that starts with the character `c`, and what follows it. -/
def scanToken (c : Char) (rest : List Char) : Option (Token × List Char) :=
  match c with
  | '[' => some (.openArray, rest)
  | ']' => some (.closeArray, rest)
  | '\x7b' => some (.openObject, rest)
  | '\x7d' => some (.closeObject, rest)
  | ':' => some (.colon, rest)
  | ',' => some (.comma, rest)
  | 'n' => (after? "ull".toList rest).map (Token.null, ·)
  | 't' => (after? "rue".toList rest).map (Token.bool true, ·)
  | 'f' => (after? "alse".toList rest).map (Token.bool false, ·)
  | '"' => (scanPieces [] rest).map fun (pieces, rest) =>
      (Token.text ((denoted pieces.reverse).map String.ofList), rest)
  | '-' => (scanNumber true rest).map fun (n, rest) => (Token.number n, rest)
  | _ =>
    if c.isDigit then (scanNumber false (c :: rest)).map fun (n, rest) => (Token.number n, rest)
    else none

/-- The tokens of a text, and whether it was cut to its end.  Every round takes a character at least, so
the length of the text bounds the rounds. -/
def scanTokens : Nat → Array Token → List Char → Array Token × Bool
  | _, tokens, [] => (tokens, true)
  | 0, tokens, _ => (tokens, false)
  | rounds + 1, tokens, c :: rest =>
    if isBlank c then scanTokens rounds tokens rest
    else
      match scanToken c rest with
      | some (token, rest) => scanTokens rounds (tokens.push token) rest
      | none => (tokens, false)

/-- The tokens of a text, and whether it was cut to its end. -/
def Token.scan (text : String) : Array Token × Bool :=
  let cs := text.toList
  scanTokens cs.length #[] cs

end PointsTo.Json
