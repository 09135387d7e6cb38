/- # Reader -- program descriptions in JSON

`Description.ofText` reads a description.  Statements are read in two stages: a statement is first taken as
a whole, where nesting and numbers are bounded, and then interpreted by its kind. -/
import PointsTo.Description.Basic
import PointsTo.Description.Record

set_option autoImplicit false

namespace PointsTo

open Json (Tree)

/-! ## Statements -/

/-- The kinds of statements. -/
inductive StatementKind
  | new | copy | load | store | loadArray | storeArray | invoke | ret | nop
  deriving DecidableEq, Repr

/-- The kind of a name. -/
def StatementKind.ofName? : String → Option StatementKind
  | "new" => some .new
  | "copy" => some .copy
  | "load" => some .load
  | "store" => some .store
  | "load_array" => some .loadArray
  | "store_array" => some .storeArray
  | "invoke" => some .invoke
  | "return" => some .ret
  | "nop" => some .nop
  | _ => none

/-- The levels of containers that may stand inside a statement: 127 in a document, of which the document,
its classes, a class, its methods, a method, its body and the statement take seven. -/
def statementDepth : Nat := 120

/-- Whether a value inside a statement can be taken as a whole: it is JSON, nested at most `depth` levels,
with numbers in range and texts of whole characters. -/
def isReadable : Nat → Tree → Bool
  | _, .damaged => false
  | _, .text value => value.isSome
  | _, .number value => value.inRange
  | _, .null => true
  | _, .bool _ => true
  | 0, .array _ _ => false
  | 0, .object _ _ => false
  | depth + 1, .array items closed => closed && items.all (isReadable depth)
  | depth + 1, .object entries closed =>
    closed && entries.all fun (key, value) => key.isSome && isReadable depth value

/-- The kind that a value names. -/
def readKind (tree : Tree) : Except ShapeFault StatementKind := do
  let name ← readText tree
  match StatementKind.ofName? name with
  | some kind => return kind
  | none => throw (.unknownVariant name)

/-- A call kind: its name, or an object whose only key is its name and whose value is empty. -/
def readCallKind (tree : Tree) : Except ShapeFault CallKind := do
  let (name, content) ← match tree with
    | .text (some name) => pure (name, none)
    | .object [(some name, content)] _ => pure (name, some content)
    | .object _ _ => throw .invalidValue
    | other => throw (wrongType other)
  match CallKind.ofName? name, content with
  | none, _ => throw (.unknownVariant name)
  | some kind, none => return kind
  | some kind, some .null => return kind
  | some kind, some (.object [] _) => return kind
  | some _, some _ => throw .invalidType

/-- The parts of a statement of any kind. -/
structure StatementParts where
  lhs : String := ""
  rhs : String := ""
  base : Option String := none
  array : String := ""
  field : String := ""
  type : String := ""
  call : CallKind := .static
  owner : String := ""
  method : String := ""
  receiver : Option String := none
  args : List String := []
  result : Option String := none
  value : Option String := none

namespace StatementParts

/-- The statement of a kind with these parts. -/
def toStatement (s : StatementParts) : StatementKind → StatementDescription
  | .new => .new s.lhs s.type
  | .copy => .copy s.lhs s.rhs
  | .load => .load s.lhs s.base s.field
  | .store => .store s.base s.field s.rhs
  | .loadArray => .loadArray s.lhs s.array
  | .storeArray => .storeArray s.array s.rhs
  | .invoke => .invoke s.call s.owner s.method s.receiver s.args s.result
  | .ret => .ret s.value
  | .nop => .nop

def lhsField : FieldLayout StatementParts := .needed "lhs" readText fun s x => { s with lhs := x }
def rhsField : FieldLayout StatementParts := .needed "rhs" readText fun s x => { s with rhs := x }
def baseField : FieldLayout StatementParts := .nullable "base" readText fun s x => { s with base := x }
def arrayField : FieldLayout StatementParts := .needed "base" readText fun s x => { s with array := x }
def fieldField : FieldLayout StatementParts := .needed "field" readText fun s x => { s with field := x }
def typeField : FieldLayout StatementParts := .needed "type" readText fun s x => { s with type := x }

/-- The fields of a statement in declared order. -/
def fieldsOf : StatementKind → List (FieldLayout StatementParts)
  | .new => [lhsField, typeField]
  | .copy => [lhsField, rhsField]
  | .load => [lhsField, baseField, fieldField]
  | .store => [baseField, fieldField, rhsField]
  | .loadArray => [lhsField, arrayField]
  | .storeArray => [arrayField, rhsField]
  | .invoke =>
    [.needed "call" readCallKind fun s x => { s with call := x },
     .needed "class" readText fun s x => { s with owner := x },
     .needed "method" readText fun s x => { s with method := x },
     .nullable "receiver" readText fun s x => { s with receiver := x },
     .defaulted "args" (readList readText) fun s x => { s with args := x },
     .nullable "result" readText fun s x => { s with result := x }]
  | .ret => [.nullable "var" readText fun s x => { s with value := x }]
  | .nop => []

end StatementParts

/-- The statement of a kind whose fields are in an object or array that was taken as a whole. -/
def interpretStatement (kind : StatementKind) (tree : Tree) : Except ShapeFault StatementDescription := do
  let layout : Layout StatementParts := ⟨StatementParts.fieldsOf kind, .invalidLength⟩
  let parts ← layout.read {} tree
  return parts.toStatement kind

/-- Takes the entries of a statement: its kind, if it was met, and the others in order. -/
def takeEntries (kind : Option StatementKind) (others : List (Option String × Tree)) :
    List (Option String × Tree) →
      Except ShapeFault (Option StatementKind × List (Option String × Tree))
  | [] => .ok (kind, others.reverse)
  | (none, _) :: _ => .error .notJson
  | (some "kind", tree) :: rest =>
    match kind, readKind tree with
    | some _, _ => .error (.duplicateField "kind")
    | none, .ok kind => takeEntries (some kind) others rest
    | none, .error fault => .error fault
  | (some key, tree) :: rest =>
    if isReadable statementDepth tree then takeEntries kind ((some key, tree) :: others) rest
    else .error .notJson

/-- A statement. -/
def readStatement : Tree → Except ShapeFault StatementDescription
  | .object entries closed => do
    let (kind, others) ← takeEntries none [] entries
    if !closed then throw .notJson
    match kind with
    | some kind => interpretStatement kind (.object others true)
    | none => throw (.missingField "kind")
  | .array [] closed => throw (if closed then .missingField "kind" else .notJson)
  | .array (first :: others) closed => do
    let kind ← readKind first
    if !closed || !others.all (isReadable statementDepth) then throw .notJson
    interpretStatement kind (.array others true)
  | other => .error (wrongType other)

/-! ## Declarations -/

/-- The layout of a field. -/
def FieldDescription.layout : Layout FieldDescription where
  fields :=
    [.needed "name" readText fun d x => { d with name := x },
     .defaulted "static" readBool fun d x => { d with isStatic := x }]

/-- The layout of a method. -/
def MethodDescription.layout : Layout MethodDescription where
  fields :=
    [.needed "name" readText fun d x => { d with name := x },
     .defaulted "subsignature" (readOption readText) fun d x => { d with subsignature := x },
     .defaulted "params" (readList readText) fun d x => { d with params := x },
     .defaulted "static" readBool fun d x => { d with isStatic := x },
     .defaulted "abstract" readBool fun d x => { d with isAbstract := x },
     .defaulted "body" (readList readStatement) fun d x => { d with body := x }]

/-- The layout of a class. -/
def ClassDescription.layout : Layout ClassDescription where
  fields :=
    [.needed "name" readText fun d x => { d with name := x },
     .defaulted "super" (readOption readText) fun d x => { d with super := x },
     .defaulted "interfaces" (readList readText) fun d x => { d with interfaces := x },
     .defaulted "interface" readBool fun d x => { d with isInterface := x },
     .defaulted "abstract" readBool fun d x => { d with isAbstract := x },
     .defaulted "fields" (readList (FieldDescription.layout.read {})) fun d x => { d with fields := x },
     .defaulted "methods" (readList (MethodDescription.layout.read {}))
       fun d x => { d with methods := x }]

/-- The layout of an entry. -/
def EntryDescription.layout : Layout EntryDescription where
  fields :=
    [.needed "class" readText fun d x => { d with owner := x },
     .needed "method" readText fun d x => { d with method := x }]

/-- The layout of a program. -/
def Description.layout : Layout Description where
  fields :=
    [.needed "classes" (readList (ClassDescription.layout.read {})) fun d x => { d with classes := x },
     .needed "entry" (EntryDescription.layout.read {}) fun d x => { d with entry := x }]

/-- The description in a tree. -/
def Description.ofTree (tree : Tree) : Except ShapeFault Description := Description.layout.read {} tree

/-- The description in a text. -/
def Description.ofText (text : String) : Except ShapeFault Description := do
  let document := Tree.read text
  let description ← Description.ofTree document.root
  if document.complete then return description else throw .notJson

end PointsTo
