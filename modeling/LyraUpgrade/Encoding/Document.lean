import Mathlib.Data.List.Perm.Basic
import LyraUpgrade.Encoding.Json

/-!
# Documents and typed records

A document is what a JSON text says in a dynamically typed language: integers and other
numbers are told apart, and truth values are neither.  A typed record is read from it by
readers, one for each type, that fail on everything else.

A record accepts exactly its own fields, each of them once; an optional field may be
missing, but when it is there it is read like any other.

## Main definitions

* `Document` — the values.
* `Document.string`, `Document.unsigned`, `Document.elements` — readers.
* `Document.record`, `required`, `optionalField`, `nullableField` — the fields of a record.
* `Json.toDocument` — what the text of a value says.
-/

namespace Encoding

inductive Document
  | null
  | bool (b : Bool)
  | int (n : Int)
  /-- A number that is written with a fraction or an exponent. -/
  | float (value : Rat)
  | str (s : String)
  | list (elements : List Document)
  | dict (entries : List (String × Document))

/-- The entries of a dictionary. -/
abbrev Entries := List (String × Document)

namespace Document

def string : Document → Option String
  | .str s => some s
  | _ => none

def boolean : Document → Option Bool
  | .bool b => some b
  | _ => none

/-- An unsigned integer of at most `bound`. -/
def unsigned (bound : ℕ) : Document → Option ℕ
  | .int n => if 0 ≤ n ∧ n ≤ bound then some n.toNat else none
  | _ => none

/-- A list, element by element. -/
def elements {α : Type} (read : Document → Option α) : Document → Option (List α)
  | .list xs => xs.mapM read
  | _ => none

/-- A dictionary with fields among the known ones, each at most once. -/
def record (known : List String) : Document → Option Entries
  | .dict entries =>
      if (entries.map (·.1)).Nodup ∧ ∀ key ∈ entries.map (·.1), key ∈ known then some entries
      else none
  | _ => none

end Document

/-- A field that has to be there. -/
def required {α : Type} (entries : Entries) (key : String) (read : Document → Option α) :
    Option α :=
  (entries.lookup key).bind read

/-- A field that may be missing. -/
def optionalField {α : Type} (entries : Entries) (key : String) (read : Document → Option α) :
    Option (Option α) :=
  match entries.lookup key with
  | none => some none
  | some value => (read value).map some

/-! ## When readers succeed -/

section

variable {entries : Entries} {known : List String}

theorem Document.unsigned_int {bound : ℕ} {n : ℕ} (h : n ≤ bound) :
    Document.unsigned bound (.int n) = some n := by
  rw [Document.unsigned, if_pos ⟨Int.natCast_nonneg n, by exact_mod_cast h⟩]
  rfl

theorem Document.record_dict (hnodup : (entries.map (·.1)).Nodup)
    (hknown : ∀ key ∈ entries.map (·.1), key ∈ known) :
    Document.record known (.dict entries) = some entries :=
  if_pos ⟨hnodup, hknown⟩

end

/-! ## Values as documents -/

mutual

/-- The document a value is. -/
def Json.toDocument : Json → Document
  | .null => .null
  | .bool b => .bool b
  | .num n => .int n
  | .str s => .str s
  | .arr vs => .list (toDocuments vs)
  | .obj ms => .dict (toEntries ms)

def Json.toDocuments : List Json → List Document
  | [] => []
  | v :: vs => v.toDocument :: toDocuments vs

def Json.toEntries : List (String × Json) → Entries
  | [] => []
  | (k, v) :: ms => (k, v.toDocument) :: toEntries ms

end

/-- `Option::deserialize`. -/
def Document.nullable {α : Type} (read : Document → Option α) : Document → Option (Option α)
  | .null => some none
  | value => (read value).map some

/-- A field of type `Option`: missing and `null` are the same. -/
def nullableField {α : Type} (entries : Entries) (key : String) (read : Document → Option α) :
    Option (Option α) :=
  match entries.lookup key with
  | none => some none
  | some value => value.nullable read

theorem Document.nullable_of_ne {α : Type} {read : Document → Option α} {value : Document}
    {a : α} (hread : read value = some a) (hnull : value ≠ .null) :
    value.nullable read = some (some a) := by
  cases value with
  | null => exact absurd rfl hnull
  | bool | int | float | str | list | dict =>
      show (read _).map some = _
      rw [hread]
      rfl

end Encoding
