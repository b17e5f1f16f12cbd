import Tabula.Value

/-!
# Overlaying values

One value laid over another: objects combine field by field, arrays are joined, and
anything else is covered. Fields of the base keep their positions and new fields
follow in the order of the upper value.
-/

namespace Tabula

mutual

/-- The value `base` with another value laid over it. -/
def Value.overlay (base : Value) : Value → Value
  | .obj upper =>
      match base with
      | .obj fields => .obj (Fields.overlay fields upper)
      | _ => .obj upper
  | .arr upper =>
      match base with
      | .arr items => .arr (items ++ upper)
      | _ => .arr upper
  | upper => upper

/-- Lays fields over `base` one after another. -/
def Fields.overlay (base : Fields) : List (String × Value) → Fields
  | [] => base
  | field :: rest => Fields.overlay (Fields.overlayField base field) rest

/-- Lays one field over `base`. A container combines with the value that is there; a
scalar takes its place. -/
def Fields.overlayField (base : Fields) : String × Value → Fields
  | (name, value) =>
      match Entries.get? base name with
      | some existing =>
          Entries.put base name (if value.isContainer then existing.overlay value else value)
      | none => Entries.put base name value

end

/-- The value wrapped in one object per path segment, the last segment innermost. -/
def Value.nested : List String → Value → Value
  | [], value => value
  | segment :: rest, value => .obj [(segment, Value.nested rest value)]

/-- Moves the field `key` down a path: its value, nested below the first segment, is
laid over whatever that segment holds, or appended under it. Without the field, or
without a path, nothing changes. -/
def Fields.unfold (fields : Fields) (key : String) : List String → Fields
  | [] => fields
  | root :: rest =>
      match Entries.get? fields key with
      | none => fields
      | some value =>
          let remaining := Entries.erase fields key
          let branch := Value.nested rest value
          match Entries.get? remaining root with
          | some existing => Entries.put remaining root (existing.overlay branch)
          | none => Entries.put remaining root branch

/-- What a field `root` becomes when a value is moved below it. -/
def Fields.branch (fields : Fields) (root : String) (rest : List String) (value : Value) :
    Value :=
  match Entries.get? fields root with
  | some existing => existing.overlay (Value.nested rest value)
  | none => Value.nested rest value

theorem Fields.unfold_of_get?_eq_none {fields : Fields} {key : String}
    (absent : Entries.get? fields key = none) (segments : List String) :
    Fields.unfold fields key segments = fields := by
  cases segments with
  | nil => rfl
  | cons root rest => rw [Fields.unfold, absent]

theorem Fields.unfold_cons_of_get?_eq_some {fields : Fields} {key : String} {value : Value}
    (found : Entries.get? fields key = some value) (root : String) (rest : List String) :
    Fields.unfold fields key (root :: rest) =
      Entries.put (Entries.erase fields key) root
        (Fields.branch (Entries.erase fields key) root rest value) := by
  rw [Fields.unfold, found]
  unfold Fields.branch
  dsimp only
  cases Entries.get? (Entries.erase fields key) root <;> rfl

/-- Below a root other than its own key, a field moves without a trace elsewhere. -/
theorem Fields.get?_unfold_cons {fields : Fields} {key root : String} (differ : key ≠ root)
    {value : Value} (found : Entries.get? fields key = some value) (rest : List String)
    (wanted : String) :
    Entries.get? (Fields.unfold fields key (root :: rest)) wanted =
      if root = wanted then some (Fields.branch fields root rest value)
      else if key = wanted then none else Entries.get? fields wanted := by
  have sameBranch : Fields.branch (Entries.erase fields key) root rest value =
      Fields.branch fields root rest value := by
    rw [Fields.branch, Fields.branch, Entries.get?_erase, if_neg differ]
  rw [Fields.unfold_cons_of_get?_eq_some found, Entries.get?_put, Entries.get?_erase, sameBranch]

@[simp]
theorem Value.nested_nil (value : Value) : Value.nested [] value = value := rfl

theorem Value.nested_cons (segment : String) (rest : List String) (value : Value) :
    Value.nested (segment :: rest) value = .obj [(segment, Value.nested rest value)] := rfl

end Tabula
