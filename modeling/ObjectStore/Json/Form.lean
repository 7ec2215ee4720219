import ObjectStore.Json.Value

/-
How values of a type are written as JSON. A record is an object with its fields in order, and
is also read from an array of its fields; members that it does not know are passed over, but no
field may be given twice. A choice is an object whose one member is named for the case, or the
bare name where the case holds nothing.
-/
namespace ObjectStore

structure Form (α : Type) where
  read : Json → Option α
  write : α → Json

namespace Form

def below (limit : Nat) : Form Nat where
  read
    | .number (some n) => if n < limit then some n else none
    | _ => none
  write n := .number (some n)

def map (f : Form α) (view : α → β) (fields : β → α) : Form β where
  read j := (f.read j).map view
  write b := f.write (fields b)

def word16 : Form UInt16 := (below UInt16.size).map Nat.toUInt16 UInt16.toNat
def word32 : Form UInt32 := (below UInt32.size).map Nat.toUInt32 UInt32.toNat
def word64 : Form UInt64 := (below UInt64.size).map Nat.toUInt64 UInt64.toNat

def option (f : Form α) : Form (Option α) where
  read
    | .null => some none
    | j => (f.read j).map some
  write
    | none => .null
    | some a => f.write a

def list (f : Form α) : Form (List α) where
  read
    | .array items => items.mapM f.read
    | _ => none
  write items := .array (items.map f.write)

/-- A field of a record: its name, and the value it has when it is left out. -/
structure Field where
  name : String
  whenAbsent : Option Json

def required (name : String) : Field := ⟨name, none⟩
def defaulted (name : String) (value : Json) : Field := ⟨name, some value⟩

def valuesOf (members : List (Option String × Json)) (name : String) : List Json :=
  members.filterMap fun m => if m.1 = some name then some m.2 else none

def fieldIn (members : List (Option String × Json)) (field : Field) : Option Json :=
  match valuesOf members field.name with
  | [] => field.whenAbsent
  | [value] => some value
  | _ => none

/-- The first fields as given, the others as they are when left out. -/
def inOrder : List Field → List Json → Option (List Json)
  | [], [] => some []
  | [], _ :: _ => none
  | field :: fields, [] => do return (← field.whenAbsent) :: (← inOrder fields [])
  | _ :: fields, item :: items => do return item :: (← inOrder fields items)

/-- The values of the fields of a record, in order. -/
def fieldValues (fields : List Field) : Json → Option (List Json)
  | .object members =>
      if members.any fun m => m.1.isNone then none else fields.mapM (fieldIn members)
  | .array items => inOrder fields items
  | _ => none

/-- A record, given by the reading and the writing of its field values. -/
def record (fields : List Field) (read : List Json → Option α) (write : α → List Json) :
    Form α where
  read j := do read (← fieldValues fields j)
  write a := .object ((fields.map fun f => some f.name).zip (write a))

/-- The name of a case and what it holds, if anything is there. -/
def case? : Json → Option (String × Option Json)
  | .string (some name) => some (name, none)
  | .object [(some name, value)] => some (name, some value)
  | _ => none

/-- Whether a case that holds nothing is given rightly: by its name, or with a null. -/
def isBare : Option Json → Bool
  | none => true
  | some .null => true
  | _ => false

def caseOf (name : String) (value : Json) : Json := .object [(some name, value)]

def names (cases : List (String × α)) (nameOf : α → String) : Form α where
  read j := do
    let (name, held) ← case? j
    if isBare held then cases.lookup name else none
  write a := .string (some (nameOf a))

/-- The text of the value that a text holds, in its shortest form. -/
def normalize (f : Form α) (text : String) : Option String := do
  return (f.write (← f.read (← Json.parse? text))).text

end Form

end ObjectStore
