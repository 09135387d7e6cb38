/- # Record -- records with named fields in a JSON tree

A record is written as an object, its fields in any order, or as an array of its fields in their declared
order.  `Layout` says what the fields of a record are and `Layout.read` reads one in the order of the text,
so of several faults the first in the text is reported. -/
import PointsTo.Json.Tree

set_option autoImplicit false

namespace PointsTo

open Json (Tree)

/-- Why a text does not describe what it should. -/
inductive ShapeFault
  /-- The text is not JSON. -/
  | notJson
  | missingField (name : String)
  | duplicateField (name : String)
  | unknownVariant (name : String)
  | invalidType
  | invalidValue
  | invalidLength (count : Nat)
  deriving DecidableEq, Repr

/-- The wording of a fault. -/
def ShapeFault.message : ShapeFault → String
  | .notJson => "syntax"
  | .missingField name => "missing field `" ++ name ++ "`"
  | .duplicateField name => "duplicate field `" ++ name ++ "`"
  | .unknownVariant name => "unknown variant `" ++ name ++ "`"
  | .invalidType => "invalid type"
  | .invalidValue => "invalid value"
  | .invalidLength count => "invalid length " ++ toString count

/-! ## Single values -/

/-- The fault of a value of the wrong type.  A damaged value, a text without characters and a number
outside its range are faults of the text itself. -/
def wrongType : Tree → ShapeFault
  | .damaged => .notJson
  | .text none => .notJson
  | .number value => if value.inRange then .invalidType else .notJson
  | _ => .invalidType

/-- A text. -/
def readText : Tree → Except ShapeFault String
  | .text (some value) => .ok value
  | other => .error (wrongType other)

/-- A truth value. -/
def readBool : Tree → Except ShapeFault Bool
  | .bool value => .ok value
  | other => .error (wrongType other)

/-- A value that may be null. -/
def readOption {α : Type} (read : Tree → Except ShapeFault α) : Tree → Except ShapeFault (Option α)
  | .null => .ok none
  | other => (read other).map some

/-- A list. -/
def readList {α : Type} (read : Tree → Except ShapeFault α) : Tree → Except ShapeFault (List α)
  | .array items closed => do
    let values ← items.mapM read
    if closed then return values else throw .notJson
  | other => .error (wrongType other)

/-! ## Records -/

/-- A field of a record under construction. -/
structure FieldLayout (σ : Type) where
  name : String
  /-- Whether an object must have the field. -/
  required : Bool
  /-- Whether an array must have the field. -/
  positional : Bool
  put : σ → Tree → Except ShapeFault σ

/-- The fields of a record in declared order, and the fault of an array of too many elements. -/
structure Layout (σ : Type) where
  fields : List (FieldLayout σ)
  tooLong : Nat → ShapeFault := fun _ => .notJson

namespace FieldLayout

variable {σ α : Type}

/-- A field that must be present. -/
def needed (name : String) (read : Tree → Except ShapeFault α) (set : σ → α → σ) : FieldLayout σ :=
  ⟨name, true, true, fun s tree => (read tree).map (set s)⟩

/-- A field that may be left out. -/
def defaulted (name : String) (read : Tree → Except ShapeFault α) (set : σ → α → σ) :
    FieldLayout σ :=
  ⟨name, false, false, fun s tree => (read tree).map (set s)⟩

/-- A field that may be left out of an object but not of an array. -/
def nullable (name : String) (read : Tree → Except ShapeFault α) (set : σ → Option α → σ) :
    FieldLayout σ :=
  ⟨name, false, true, fun s tree => (readOption read tree).map (set s)⟩

end FieldLayout

namespace Layout

variable {σ : Type}

/-- Reads the entries of an object.  Unknown fields only have to be JSON. -/
def readEntries (l : Layout σ) (s : σ) (seen : List String) :
    List (Option String × Tree) → Except ShapeFault (σ × List String)
  | [] => .ok (s, seen)
  | (none, _) :: _ => .error .notJson
  | (some key, tree) :: rest =>
    match l.fields.find? fun f => f.name = key with
    | none => if tree.isIntact then readEntries l s seen rest else .error .notJson
    | some f =>
      if key ∈ seen then .error (.duplicateField key)
      else
        match f.put s tree with
        | .ok s => readEntries l s (key :: seen) rest
        | .error fault => .error fault

/-- Reads the elements of an array; `index` is the position of the next field. -/
def readItems (s : σ) (index : Nat) (closed : Bool) (tooLong : ShapeFault) :
    List (FieldLayout σ) → List Tree → Except ShapeFault σ
  | f :: fields, tree :: rest =>
    match f.put s tree with
    | .ok s => readItems s (index + 1) closed tooLong fields rest
    | .error fault => .error fault
  | f :: fields, [] =>
    if !closed then .error .notJson
    else if f.positional then .error (.invalidLength index)
    else readItems s (index + 1) closed tooLong fields []
  | [], [] => if closed then .ok s else .error .notJson
  | [], _ :: _ => .error tooLong

/-- Reads a record, starting from the values of the fields that may be left out. -/
def read (l : Layout σ) (start : σ) : Tree → Except ShapeFault σ
  | .object entries closed => do
    let (s, seen) ← l.readEntries start [] entries
    if !closed then throw .notJson
    match l.fields.find? fun f => f.required && !seen.contains f.name with
    | some f => throw (.missingField f.name)
    | none => return s
  | .array items closed => readItems start 0 closed (l.tooLong items.length) l.fields items
  | other => .error (wrongType other)

end Layout

end PointsTo
