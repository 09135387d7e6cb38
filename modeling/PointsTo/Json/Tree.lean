/- # Tree -- a JSON text read up to its first fault

`Tree.read` turns a text into a tree that keeps the order and the repetitions of object entries.  A text
with a fault still has a tree: everything before the fault, with the containers around it marked as not
closed.  A reader that walks the tree in order meets its own complaints and the fault of the text in the
order in which they stand in the text.

The tree is built from the tokens with an explicit stack of open containers, so nesting is bounded by
nothing. -/
import PointsTo.Json.Token

set_option autoImplicit false

namespace PointsTo.Json

/-- A JSON value, or as much of one as stands before a fault. -/
inductive Tree
  | null
  | bool (value : Bool)
  | number (value : Numeral)
  /-- A text, or nothing when an escape in it names half of a surrogate pair. -/
  | text (value : Option String)
  | array (items : List Tree) (closed : Bool)
  | object (entries : List (Option String × Tree)) (closed : Bool)
  /-- The place of the fault. -/
  | damaged

namespace Tree

/-- Whether the fault of the text lies outside this value. -/
def isIntact : Tree → Bool
  | .array _ closed => closed
  | .object _ closed => closed
  | .damaged => false
  | _ => true

end Tree

/-! ## Building -/

/-- An open container: what it holds so far, newest first. -/
inductive Frame
  | items (seen : List Tree)
  /-- The entries so far, and the key whose value is being read. -/
  | entries (seen : List (Option String × Tree)) (key : Option (Option String))

/-- What may stand next. -/
inductive Expected
  /-- A value. -/
  | value
  /-- A value or the end of the array. -/
  | itemOrClose
  /-- A key. -/
  | key
  /-- A key or the end of the object. -/
  | keyOrClose
  /-- The colon after a key. -/
  | colon
  /-- A comma or the end of the container; at the outermost level nothing. -/
  | more
  deriving DecidableEq

/-- The state between two tokens. -/
structure Builder where
  stack : List Frame := []
  expected : Expected := .value
  root : Option Tree := none

namespace Builder

/-- Puts a finished value where it belongs. -/
def put (b : Builder) (value : Tree) : Builder :=
  match b.stack with
  | [] => ⟨[], .more, some value⟩
  | .items seen :: outer => ⟨.items (value :: seen) :: outer, .more, b.root⟩
  | .entries seen key :: outer =>
    ⟨.entries ((key.join, value) :: seen) none :: outer, .more, b.root⟩

/-- Whether a value may stand next. -/
def expectsValue (b : Builder) : Bool := b.expected = .value || b.expected = .itemOrClose

/-- Opens a container. -/
def push (b : Builder) (frame : Frame) (expected : Expected) : Option Builder :=
  if b.expectsValue then some ⟨frame :: b.stack, expected, b.root⟩ else none

/-- Takes a value that is one token long. -/
def leaf (b : Builder) (value : Tree) : Option Builder :=
  if b.expectsValue then some (b.put value) else none

/-- The state after one more token, or nothing when the token cannot stand here. -/
def next (b : Builder) (token : Token) : Option Builder :=
  match token with
  | .openArray => b.push (.items []) .itemOrClose
  | .openObject => b.push (.entries [] none) .keyOrClose
  | .null => b.leaf .null
  | .bool value => b.leaf (.bool value)
  | .number value => b.leaf (.number value)
  | .text value =>
    match b.expected, b.stack with
    | .key, .entries seen _ :: outer
    | .keyOrClose, .entries seen _ :: outer =>
      some ⟨.entries seen (some value) :: outer, .colon, b.root⟩
    | _, _ => b.leaf (.text value)
  | .colon => if b.expected = .colon then some { b with expected := .value } else none
  | .comma =>
    match b.expected, b.stack with
    | .more, .items _ :: _ => some { b with expected := .value }
    | .more, .entries _ _ :: _ => some { b with expected := .key }
    | _, _ => none
  | .closeArray =>
    match b.stack with
    | .items seen :: outer =>
      if b.expected = .more ∨ b.expected = .itemOrClose then
        some (put ⟨outer, .value, b.root⟩ (.array seen.reverse true))
      else none
    | _ => none
  | .closeObject =>
    match b.stack with
    | .entries seen _ :: outer =>
      if b.expected = .more ∨ b.expected = .keyOrClose then
        some (put ⟨outer, .value, b.root⟩ (.object seen.reverse true))
      else none
    | _ => none

/-- The innermost open container as a value that was not closed.  A key without its value gets the place
of the fault as its value. -/
def Frame.cut (inner : Option Tree) : Frame → Tree
  | .items seen => .array (inner.toList.reverse ++ seen).reverse false
  | .entries seen none => .object seen.reverse false
  | .entries seen (some key) => .object (seen.reverse ++ [(key, inner.getD .damaged)]) false

/-- The tree of a text that stops before it is complete. -/
def cut (b : Builder) : Tree :=
  match b.stack.foldl (fun inner frame => some (Frame.cut inner frame)) none with
  | some tree => tree
  | none => b.root.getD .damaged

end Builder

/-- Consumes tokens as long as they may stand; says whether all were consumed. -/
def buildFrom (b : Builder) : List Token → Builder × Bool
  | [] => (b, true)
  | token :: rest =>
    match b.next token with
    | some b => buildFrom b rest
    | none => (b, false)

/-- A read text: the tree of its value, and whether the value was all there was. -/
structure Document where
  root : Tree
  complete : Bool

/-- Reads a text. -/
def Tree.read (text : String) : Document :=
  let (tokens, cutToEnd) := Token.scan text
  let (b, consumed) := buildFrom {} tokens.toList
  let whole := cutToEnd && consumed && b.stack.isEmpty && b.root.isSome
  ⟨b.cut, whole⟩

end PointsTo.Json
