import Tabula.Proofs.Value.Leaves

/-!
# The fields of an overlay

An overlay has the fields of both objects. A field of the upper object is laid over the
field of the base under the same name, if there is one, and every other field of the base
stays as it is.
-/

namespace Tabula

namespace Value

mutual

/-- What holds of a value as soon as it holds of the fields of that value holds of all values. -/
theorem fieldsInduction {motive : Value → Prop}
    (leaf : ∀ value, value.fields? = none → motive value)
    (obj : ∀ fields : Fields, (∀ field ∈ fields, motive field.2) → motive (.obj fields)) :
    (value : Value) → motive value
  | .obj fields => obj fields (fieldsInduction_fields leaf obj fields)
  | .null | .bool _ | .num _ | .str _ | .arr _ => leaf _ rfl

theorem fieldsInduction_fields {motive : Value → Prop}
    (leaf : ∀ value, value.fields? = none → motive value)
    (obj : ∀ fields : Fields, (∀ field ∈ fields, motive field.2) → motive (.obj fields)) :
    (fields : List (String × Value)) → ∀ field ∈ fields, motive field.2
  | [] => List.forall_mem_nil _
  | field :: rest => List.forall_mem_cons.mpr
      ⟨fieldsInduction_field leaf obj field, fieldsInduction_fields leaf obj rest⟩

theorem fieldsInduction_field {motive : Value → Prop}
    (leaf : ∀ value, value.fields? = none → motive value)
    (obj : ∀ fields : Fields, (∀ field ∈ fields, motive field.2) → motive (.obj fields)) :
    (field : String × Value) → motive field.2
  | (_, value) => fieldsInduction leaf obj value

end

end Value

/-- A value laid over a field that may be missing. -/
def Value.overlaid (base? : Option Value) (value : Value) : Value :=
  match base? with
  | some base => base.overlay value
  | none => value

namespace Fields

variable {upper : Fields} {name : String}

theorem overlayField_eq_put (base : Fields) (name : String) (value : Value) :
    overlayField base (name, value) =
      Entries.put base name (Value.overlaid (Entries.get? base name) value) := by
  rw [overlayField]
  cases Entries.get? base name with
  | none => rfl
  | some existing =>
      dsimp only [Value.overlaid]
      cases container : value.isContainer with
      | true => rw [if_pos rfl]
      | false =>
          rw [if_neg Bool.false_ne_true, Value.overlay_of_isContainer_eq_false existing container]

/-- An overlay holds the upper fields, each laid over the field of the base, and the other
fields of the base. -/
theorem get?_overlay (distinct : Entries.Distinct upper) (base : Fields) (wanted : String) :
    Entries.get? (overlay base upper) wanted =
      match Entries.get? upper wanted with
      | some value => some (Value.overlaid (Entries.get? base wanted) value)
      | none => Entries.get? base wanted := by
  induction upper generalizing base with
  | nil => rfl
  | cons field rest ih =>
      obtain ⟨name, value⟩ := field
      obtain ⟨fresh, restDistinct⟩ := List.nodup_cons.mp distinct
      rw [overlay, ih restDistinct, overlayField_eq_put, Entries.get?_put, Entries.get?_cons]
      by_cases same : name = wanted
      · subst same
        have absent : Entries.get? rest name = none := Entries.get?_eq_none_iff.mpr fresh
        rw [absent, if_pos rfl, if_pos rfl]
      · rw [if_neg same, if_neg same]

theorem mem_keys_overlay (base upper : Fields) :
    name ∈ Entries.keys (overlay base upper) ↔
      name ∈ Entries.keys base ∨ name ∈ Entries.keys upper := by
  induction upper generalizing base with
  | nil => simp [overlay, Entries.keys]
  | cons field rest ih =>
      obtain ⟨other, value⟩ := field
      rw [overlay, ih, overlayField_eq_put, Entries.mem_keys_put]
      simp only [Entries.keys, List.map_cons, List.mem_cons]
      rw [or_comm (a := name = other), or_assoc]

/-- The fields of the base come first, in their order, and then the new ones in theirs. -/
theorem keys_overlay (distinct : Entries.Distinct upper) (base : Fields) :
    Entries.keys (overlay base upper) =
      Entries.keys base ++ (Entries.keys upper).filter (· ∉ Entries.keys base) := by
  induction upper generalizing base with
  | nil => simp [overlay, Entries.keys]
  | cons field rest ih =>
      obtain ⟨name, value⟩ := field
      obtain ⟨fresh, restDistinct⟩ := List.nodup_cons.mp distinct
      rw [overlay, ih restDistinct, overlayField_eq_put, Entries.keys_put, Entries.keys_cons,
        List.filter_cons]
      by_cases present : name ∈ Entries.keys base
      · simp only [present, if_true, not_true_eq_false, decide_false, Bool.false_eq_true, if_false]
      · have sameNew : (Entries.keys rest).filter (· ∉ Entries.keys base ++ [name]) =
            (Entries.keys rest).filter (· ∉ Entries.keys base) := by
          apply List.filter_congr
          intro other otherMem
          have differ : other ≠ name := fun same => fresh (same ▸ otherMem)
          simp [differ]
        rw [if_neg present, sameNew]
        simp [present]

end Fields

end Tabula
