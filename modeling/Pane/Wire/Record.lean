import Pane.Table
import Pane.Wire.Json

/-!
# Records in JSON

A record with named fields is written as an object.  It is also read from an array that lists the
fields in their order; trailing fields may be left out there, as any field may in an object.
Whether a missing field is an error depends on the field.  Unknown members of an object do not
matter, but a known one must not be repeated.

* `Record.read?`, `Record.readObject?` — the fields of a value, with or without the array form.
* `Record.required?`, `Record.optional?`, `Record.nullable?` — one field.
-/

namespace Pane.Wire

/-- The fields of a record that are present. -/
abbrev Record := List (String × Json)

def string? : Json → Option String
  | .str s => some s
  | _ => none

def stringOrNull? : Json → Option (Option String)
  | .null => some none
  | .str s => some (some s)
  | _ => none

def bool? : Json → Option Bool
  | .bool b => some b
  | _ => none

def boolOrNull? : Json → Option (Option Bool)
  | .null => some none
  | .bool b => some (some b)
  | _ => none

def uint32? : Json → Option UInt32
  | .int n => if 0 ≤ n ∧ n < 4294967296 then some (UInt32.ofNat n.toNat) else none
  | _ => none

namespace Record

/-- Whether no known name occurs twice. -/
def unrepeated (names : List String) (members : List (String × Json)) : Bool :=
  names.all fun name => (members.filter fun m => m.1 = name).length ≤ 1

def readObject? (names : List String) : Json → Option Record
  | .obj members => if unrepeated names members then some members else none
  | _ => none

/-- The fields of an object, or of an array that lists them in order. -/
def read? (names : List String) : Json → Option Record
  | .arr items => if items.length ≤ names.length then some (names.zip items) else none
  | v => readObject? names v

variable {α : Type}

/-- A field that must be present. -/
def required? (r : Record) (name : String) (decode? : Json → Option α) : Option α :=
  (r.lookup name).bind decode?

/-- A field that has a value of its own when it is absent. -/
def optional? (r : Record) (name : String) (decode? : Json → Option α) (absent : α) : Option α :=
  match r.lookup name with
  | some v => decode? v
  | none => some absent

/-- A string that may be null or absent. -/
def nullable? (r : Record) (name : String) : Option (Option String) :=
  r.optional? name stringOrNull? none

end Record

/-! ## Members and tables -/

/-- A member that is left out when there is no value. -/
def presentMember (name : String) : Option String → List (String × Json)
  | some s => [(name, .str s)]
  | none => []

def tableToJson {α : Type} (encode : α → Json) (t : Table α) : Json :=
  .obj (t.entries.map fun (k, v) => (k, encode v))

/-- The pairs of a list of members, each value read. -/
def pairs? {α : Type} (decode? : Json → Option α) :
    List (String × Json) → Option (List (String × α))
  | [] => some []
  | (k, v) :: rest =>
    match decode? v, pairs? decode? rest with
    | some x, some xs => some ((k, x) :: xs)
    | _, _ => none

/-- The table of an object; of a repeated name the last value counts. -/
def table? {α : Type} (decode? : Json → Option α) : Json → Option (Table α)
  | .obj members => (pairs? decode? members).map Table.ofList
  | _ => none

end Pane.Wire
