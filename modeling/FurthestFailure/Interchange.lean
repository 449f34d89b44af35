import FurthestFailure.Settings
import FurthestFailure.Trail

/-! # The form in which records travel

A record is written with all its fields by name. It is read from its fields in any order, others
ignored, or from a list of its fields in the order of their declaration. A field that is left out by
name has the value that its type has for such a field, if it has one, and a field of settings its
default; only settings are also read from a list that breaks off early. Numbers are integers from 0
below 2^64.
-/
namespace FurthestFailure
set_option autoImplicit false

inductive Datum where
  | null
  | bool (b : Bool)
  | integer (n : Int)
  | fraction (digits : String)
  | text (s : String)
  | list (items : List Datum)
  | record (fields : List (String × Datum))
  deriving Repr, Inhabited

namespace Datum

/-- The fields of the given names, those that are not there included. A list has an item for each of
them, unless it `mayEnd` early. -/
def fields? (mayEnd : Bool) (names : List String) : Datum → Option (List (Option Datum))
  | record fields => some (names.map (List.lookup · fields))
  | list items =>
    if items.length ≤ names.length ∧ (mayEnd ∨ items.length = names.length) then
      some (items.map some ++ List.replicate (names.length - items.length) none)
    else none
  | _ => none

end Datum

structure Codec (α : Type) where
  write : α → Datum
  read? : Datum → Option α
  /-- The value of a field that is left out; most types have none. -/
  absent? : Option α := none

namespace Codec
variable {α : Type}

def natural : Codec Nat where
  write n := .integer n
  read?
    | .integer n => if 0 ≤ n ∧ n < UInt64.size then some n.toNat else none
    | _ => none

def bool : Codec Bool where
  write := .bool
  read?
    | .bool b => some b
    | _ => none

def text : Codec String where
  write := .text
  read?
    | .text s => some s
    | _ => none

def list (item : Codec α) : Codec (List α) where
  write xs := .list (xs.map item.write)
  read?
    | .list items => items.mapM item.read?
    | _ => none

/-- Reads a field that may have been left out. -/
def readField? (c : Codec α) : Option Datum → Option α
  | none => c.absent?
  | some d => c.read? d

/-- As `c`, where a field that is left out has a default. -/
def defaulting (c : Codec α) (default : α) : Codec α := { c with absent? := some default }

def position : Codec Position where
  write p := .record [("index", natural.write p.index), ("line", natural.write p.line),
    ("column", natural.write p.column)]
  read? d := do
    let [index, line, column] ← d.fields? false ["index", "line", "column"] | none
    return ⟨← natural.readField? index, ← natural.readField? line, ← natural.readField? column⟩

def range : Codec Range where
  write r := .record [("from", position.write r.start), ("to", position.write r.stop)]
  read? d := do
    let [start, stop] ← d.fields? false ["from", "to"] | none
    return ⟨← position.readField? start, ← position.readField? stop⟩

def marker (value : Codec α) : Codec (Marker α) where
  write m := .record [("value", value.write m.value), ("range", range.write m.range)]
  read? d := do
    let [v, r] ← d.fields? false ["value", "range"] | none
    return ⟨← value.readField? v, ← range.readField? r⟩

def namedMarker (value : Codec α) : Codec (NamedMarker α) where
  write m := .record [("value", value.write m.value), ("name", text.write m.name),
    ("range", range.write m.range)]
  read? d := do
    let [v, name, r] ← d.fields? false ["value", "name", "range"] | none
    return ⟨← value.readField? v, ← text.readField? name, ← range.readField? r⟩

def failureReport : Codec FailureReport where
  write r := .record [("furthest", position.write r.furthest),
    ("expected", (list text).write r.expected)]
  read? d := do
    let [furthest, expected] ← d.fields? false ["furthest", "expected"] | none
    return ⟨← position.readField? furthest, ← (list text).readField? expected⟩

def settings : Codec Settings where
  write s := .record [("source_name", text.write s.sourceName), ("require_eof", bool.write s.requireEnd),
    ("report_furthest_on_success", bool.write s.reportOnSuccess)]
  read? d := do
    let [name, requireEnd, report] ←
      d.fields? true ["source_name", "require_eof", "report_furthest_on_success"] | none
    let default : Settings := {}
    return ⟨← (text.defaulting default.sourceName).readField? name,
      ← (bool.defaulting default.requireEnd).readField? requireEnd,
      ← (bool.defaulting default.reportOnSuccess).readField? report⟩

end Codec
end FurthestFailure
