import Mathlib.Data.List.Perm.Basic
import Tabula.Value.Overlay

/-!
# Leaves

The leaves of a value are the values other than objects that one comes to through the
fields of objects, each with the names on the way. Laying a value over a place covers the
leaves above and below that place and leaves all others as they are, so the leaves can be
followed through any number of overlays.
-/

namespace Tabula

/-- A value with the names of the fields that lead to it. -/
abbrev Leaf :=
  List String × Value

/-- A leaf as it is found one field further up. -/
def Leaf.under (name : String) (leaf : Leaf) : Leaf :=
  (name :: leaf.1, leaf.2)

/-- Whether one of two paths goes on where the other ends, or they are the same. -/
def Leaf.Meets (first second : List String) : Prop :=
  first <+: second ∨ second <+: first

instance (first second : List String) : Decidable (Leaf.Meets first second) :=
  inferInstanceAs (Decidable (_ ∨ _))

mutual

/-- The leaves of a value. A value other than an object is its own leaf. -/
def Value.leaves : Value → List Leaf
  | .obj fields => Fields.leaves fields
  | value => [([], value)]

/-- The leaves of an object, field by field. -/
def Fields.leaves : List (String × Value) → List Leaf
  | [] => []
  | field :: rest => Fields.fieldLeaves field ++ Fields.leaves rest

/-- The leaves of one field. -/
def Fields.fieldLeaves : String × Value → List Leaf
  | (name, value) => (Value.leaves value).map (Leaf.under name)

end

namespace Leaf

theorem meets_cons {first second : String} {path other : List String} :
    Meets (first :: path) (second :: other) ↔ first = second ∧ Meets path other := by
  unfold Meets
  rw [List.cons_prefix_cons, List.cons_prefix_cons, eq_comm (a := second), and_or_left]

theorem meets_nil_left (path : List String) : Meets [] path :=
  Or.inl List.nil_prefix

theorem meets_nil_right (path : List String) : Meets path [] :=
  Or.inr List.nil_prefix

end Leaf

/-! ## Entries up to their order -/

namespace Entries

variable {κ α : Type} [DecidableEq κ] {entries : Entries κ α}

theorem erase_of_not_mem {key : κ} (fresh : key ∉ keys entries) : erase entries key = entries := by
  apply List.filter_eq_self.mpr
  intro entry entryMem
  rw [decide_eq_true_iff]
  rintro rfl
  exact fresh (List.mem_map_of_mem entryMem)

theorem erase_cons_self {key : κ} {rest : Entries κ α} (fresh : key ∉ keys rest) (content : α) :
    erase ((key, content) :: rest) key = rest := by
  rw [erase, List.filter_cons, if_neg (by simp), ← erase, erase_of_not_mem fresh]

theorem put_perm (distinct : Distinct entries) (key : κ) (content : α) :
    (put entries key content).Perm (erase entries key ++ [(key, content)]) := by
  induction entries with
  | nil => exact List.Perm.refl _
  | cons entry rest ih =>
      obtain ⟨other, old⟩ := entry
      obtain ⟨fresh, restDistinct⟩ := List.nodup_cons.mp distinct
      rw [put, erase, List.filter_cons]
      by_cases same : other = key
      · subst same
        rw [if_pos rfl, if_neg (by simp), ← erase, erase_of_not_mem fresh]
        exact (List.perm_append_singleton _ _).symm
      · rw [if_neg same, if_pos (by simpa using same), ← erase]
        exact (ih restDistinct).cons _

theorem put_of_get?_eq_some {key : κ} {content : α} (found : get? entries key = some content) :
    put entries key content = entries := by
  induction entries with
  | nil => cases found
  | cons entry rest ih =>
      obtain ⟨other, old⟩ := entry
      rw [get?_cons] at found
      rw [put]
      split
      · rename_i same
        rw [if_pos same] at found
        cases found
        rfl
      · rename_i differ
        rw [if_neg differ] at found
        rw [ih found]

theorem perm_erase_append (distinct : Distinct entries) {key : κ} {content : α}
    (found : get? entries key = some content) :
    entries.Perm (erase entries key ++ [(key, content)]) := by
  conv => lhs; rw [← put_of_get?_eq_some found]
  exact put_perm distinct key content

end Entries

/-! ## Objects without repeated names -/

namespace Value

theorem wellFormedFields_iff {fields : Fields} :
    WellFormedFields fields ↔ ∀ field ∈ fields, field.2.WellFormed := by
  induction fields with
  | nil => simp [WellFormedFields]
  | cons field rest ih =>
      obtain ⟨name, value⟩ := field
      rw [WellFormedFields, WellFormedField, ih, List.forall_mem_cons]

theorem wellFormedItems_iff {items : List Value} :
    WellFormedItems items ↔ ∀ item ∈ items, item.WellFormed := by
  induction items with
  | nil => simp [WellFormedItems]
  | cons item rest ih => rw [WellFormedItems, ih, List.forall_mem_cons]

theorem wellFormed_obj_iff {fields : Fields} :
    (obj fields).WellFormed ↔
      Entries.Distinct fields ∧ ∀ field ∈ fields, field.2.WellFormed := by
  rw [WellFormed, wellFormedFields_iff]

theorem wellFormed_of_get?_eq_some {fields : Fields} {name : String} {value : Value}
    (wellFormed : (obj fields).WellFormed) (found : Entries.get? fields name = some value) :
    value.WellFormed :=
  (wellFormed_obj_iff.mp wellFormed).2 (name, value) (Entries.mem_of_get?_eq_some found)

theorem wellFormed_put {fields : Fields} {name : String} {value : Value}
    (wellFormed : (obj fields).WellFormed) (valueFormed : value.WellFormed) :
    (obj (Entries.put fields name value)).WellFormed := by
  obtain ⟨distinct, formed⟩ := wellFormed_obj_iff.mp wellFormed
  apply wellFormed_obj_iff.mpr
  refine ⟨Entries.distinct_put distinct name value, fun field fieldMem => ?_⟩
  rcases List.mem_append.mp ((Entries.put_perm distinct name value).mem_iff.mp fieldMem) with
    old | new
  · exact formed field (List.mem_of_mem_filter old)
  · rw [List.mem_singleton.mp new]
    exact valueFormed

theorem wellFormed_erase {fields : Fields} (wellFormed : (obj fields).WellFormed)
    (name : String) : (obj (Entries.erase fields name)).WellFormed := by
  obtain ⟨distinct, formed⟩ := wellFormed_obj_iff.mp wellFormed
  apply wellFormed_obj_iff.mpr
  exact ⟨Entries.distinct_erase distinct name,
    fun field fieldMem => formed field (List.mem_of_mem_filter fieldMem)⟩

mutual

/-- Laying a value over another repeats no name. -/
theorem wellFormed_overlay (base : Value) (formed : base.WellFormed) :
    (upper : Value) → upper.WellFormed → (base.overlay upper).WellFormed
  | .obj upper, upperFormed => by
      cases base with
      | obj fields =>
          exact wellFormed_overlayFields fields formed upper (wellFormed_obj_iff.mp upperFormed).2
      | _ => exact upperFormed
  | .arr upper, upperFormed => by
      cases base with
      | arr items =>
          rw [overlay, WellFormed, wellFormedItems_iff]
          intro item itemMem
          rcases List.mem_append.mp itemMem with old | new
          · exact wellFormedItems_iff.mp formed item old
          · exact wellFormedItems_iff.mp upperFormed item new
      | _ => exact upperFormed
  | .null, upperFormed | .bool _, upperFormed | .num _, upperFormed | .str _, upperFormed =>
      upperFormed

theorem wellFormed_overlayFields (base : Fields) (formed : (obj base).WellFormed) :
    (upper : List (String × Value)) → (∀ field ∈ upper, field.2.WellFormed) →
      (obj (Fields.overlay base upper)).WellFormed
  | [], _ => formed
  | field :: rest, upperFormed =>
      wellFormed_overlayFields _
        (wellFormed_overlayField base formed field (upperFormed field List.mem_cons_self)) rest
        fun other otherMem => upperFormed other (List.mem_cons_of_mem field otherMem)

theorem wellFormed_overlayField (base : Fields) (formed : (obj base).WellFormed) :
    (field : String × Value) → field.2.WellFormed →
      (obj (Fields.overlayField base field)).WellFormed
  | (name, value), valueFormed => by
      rw [Fields.overlayField]
      split
      · rename_i existing found
        apply wellFormed_put formed
        split
        · exact wellFormed_overlay existing (wellFormed_of_get?_eq_some formed found) value
            valueFormed
        · exact valueFormed
      · exact wellFormed_put formed valueFormed

end

theorem wellFormed_nested {value : Value} (formed : value.WellFormed) (path : List String) :
    (nested path value).WellFormed := by
  induction path with
  | nil => exact formed
  | cons name rest ih =>
      rw [nested_cons, wellFormed_obj_iff]
      exact ⟨List.pairwise_singleton _ name, List.forall_mem_singleton.mpr ih⟩

end Value

theorem Fields.wellFormed_branch {fields : Fields} (formed : (Value.obj fields).WellFormed)
    {value : Value} (valueFormed : value.WellFormed) (root : String) (rest : List String) :
    (Fields.branch fields root rest value).WellFormed := by
  have nestedFormed := Value.wellFormed_nested valueFormed rest
  unfold Fields.branch
  split
  · rename_i existing found
    exact Value.wellFormed_overlay existing (Value.wellFormed_of_get?_eq_some formed found) _
      nestedFormed
  · exact nestedFormed

/-! ## The leaves of an object -/

namespace Fields

variable {fields : Fields} {name : String} {value : Value} {leaf : Leaf}

theorem leaves_eq_flatMap (fields : Fields) : leaves fields = fields.flatMap fieldLeaves := by
  induction fields with
  | nil => rfl
  | cons field rest ih => rw [leaves, ih, List.flatMap_cons]

theorem leaves_perm {other : Fields} (perm : fields.Perm other) :
    (leaves fields).Perm (leaves other) := by
  rw [leaves_eq_flatMap, leaves_eq_flatMap]
  exact perm.flatMap_right fieldLeaves

theorem leaves_concat (fields : Fields) (name : String) (value : Value) :
    leaves (fields ++ [(name, value)]) =
      leaves fields ++ value.leaves.map (Leaf.under name) := by
  rw [leaves_eq_flatMap, leaves_eq_flatMap, List.flatMap_append, List.flatMap_singleton,
    fieldLeaves]

theorem mem_leaves :
    leaf ∈ leaves fields ↔
      ∃ name value, (name, value) ∈ fields ∧ ∃ below ∈ value.leaves, below.under name = leaf := by
  rw [leaves_eq_flatMap, List.mem_flatMap]
  constructor
  · rintro ⟨⟨name, value⟩, fieldMem, leafMem⟩
    exact ⟨name, value, fieldMem, List.mem_map.mp leafMem⟩
  · rintro ⟨name, value, fieldMem, leafMem⟩
    exact ⟨(name, value), fieldMem, List.mem_map.mpr leafMem⟩

/-- The leaves without a field are those that do not start at it. -/
theorem leaves_erase (fields : Fields) (name : String) :
    leaves (Entries.erase fields name) =
      (leaves fields).filter fun leaf => leaf.1.head? ≠ some name := by
  induction fields with
  | nil => rfl
  | cons field rest ih =>
      obtain ⟨other, value⟩ := field
      rw [Entries.erase, List.filter_cons, ← Entries.erase, leaves, List.filter_append, ← ih,
        fieldLeaves, List.filter_map]
      by_cases same : other = name
      · simp [same, Leaf.under, Function.comp_def]
      · simp [same, Leaf.under, Function.comp_def, leaves, fieldLeaves]

theorem leaves_put_perm (distinct : Entries.Distinct fields) (name : String) (value : Value) :
    (leaves (Entries.put fields name value)).Perm
      (leaves (Entries.erase fields name) ++ value.leaves.map (Leaf.under name)) := by
  rw [← leaves_concat]
  exact leaves_perm (Entries.put_perm distinct name value)

theorem leaves_perm_of_get?_eq_some (distinct : Entries.Distinct fields)
    (found : Entries.get? fields name = some value) :
    (leaves fields).Perm
      (leaves (Entries.erase fields name) ++ value.leaves.map (Leaf.under name)) := by
  rw [← leaves_concat]
  exact leaves_perm (Entries.perm_erase_append distinct found)

end Fields

/-! ## Leaves under an overlay -/

/-- The leaves that stay when a value is laid over the place `path`. -/
def Leaf.besides (path : List String) (leaves : List Leaf) : List Leaf :=
  leaves.filter fun leaf => ¬ Leaf.Meets leaf.1 path

theorem Leaf.besides_append (path : List String) (first second : List Leaf) :
    besides path (first ++ second) = besides path first ++ besides path second :=
  List.filter_append first second

theorem Leaf.besides_map_under (name : String) (rest : List String) (leaves : List Leaf) :
    besides (name :: rest) (leaves.map (under name)) = (besides rest leaves).map (under name) := by
  rw [besides, besides, List.filter_map]
  congr 1
  apply List.filter_congr
  intro leaf _
  simp [under, meets_cons]

/-- Nothing outside the field `name` meets a path that starts there. -/
theorem Leaf.besides_leaves_erase (fields : Fields) (name : String) (rest : List String) :
    besides (name :: rest) (Fields.leaves (Entries.erase fields name)) =
      Fields.leaves (Entries.erase fields name) := by
  apply List.filter_eq_self.mpr
  intro leaf leafMem
  obtain ⟨other, value, fieldMem, below, _, rfl⟩ := Fields.mem_leaves.mp leafMem
  have differ : other ≠ name := by simpa using (List.mem_filter.mp fieldMem).2
  simp [under, meets_cons, differ]

namespace Value

variable {value : Value}

theorem leaves_of_fields?_eq_none (noObject : value.fields? = none) :
    value.leaves = [([], value)] := by
  cases value with
  | obj fields => cases noObject
  | _ => rfl

theorem leaves_nested (noObject : value.fields? = none) (path : List String) :
    (nested path value).leaves = [(path, value)] := by
  induction path with
  | nil => exact leaves_of_fields?_eq_none noObject
  | cons name rest ih =>
      rw [nested_cons, leaves, Fields.leaves, Fields.fieldLeaves, ih]
      rfl

theorem eq_obj_of_fields?_eq_some {fields : Fields} (found : value.fields? = some fields) :
    value = obj fields := by
  cases value with
  | obj other =>
      cases found
      rfl
  | _ => cases found

theorem obj_overlay_of_fields?_eq_none (fields : Fields) (noObject : value.fields? = none) :
    (obj fields).overlay value = value := by
  cases value with
  | obj upper => cases noObject
  | _ => rfl

theorem fields?_eq_none_of_isContainer_eq_false (scalar : value.isContainer = false) :
    value.fields? = none := by
  cases value with
  | obj fields => cases scalar
  | _ => rfl

theorem overlay_of_isContainer_eq_false (base : Value) (scalar : value.isContainer = false) :
    base.overlay value = value := by
  cases value with
  | arr items => cases scalar
  | obj fields => cases scalar
  | _ => rfl

theorem overlay_nested_of_fields?_eq_none {base : Value} (noObject : base.fields? = none)
    (name : String) (rest : List String) (value : Value) :
    base.overlay (nested (name :: rest) value) = nested (name :: rest) value := by
  cases base with
  | obj fields => cases noObject
  | _ => rfl

theorem overlay_obj_nested (fields : Fields) (name : String) (rest : List String)
    (value : Value) :
    (obj fields).overlay (nested (name :: rest) value) =
      obj (Entries.put fields name (Fields.branch fields name rest value)) := by
  rw [nested_cons, overlay, Fields.overlay, Fields.overlay, Fields.overlayField, Fields.branch]
  cases Entries.get? fields name with
  | none => rfl
  | some existing =>
      dsimp only
      split
      · rfl
      · rename_i scalar
        rw [overlay_of_isContainer_eq_false existing (Bool.eq_false_iff.mpr scalar)]

end Value

/-- What happens to the leaves of an object when a value is laid over a place below the field
`name`, if it is known what happens to those of the field. -/
theorem Fields.leaves_put_branch_of {fields : Fields} (distinct : Entries.Distinct fields)
    {name : String} {rest : List String} {value : Value} (noObject : value.fields? = none)
    (below : ∀ existing, Entries.get? fields name = some existing →
      (existing.overlay (Value.nested rest value)).leaves.Perm
        (Leaf.besides rest existing.leaves ++ [(rest, value)])) :
    (leaves (Entries.put fields name (branch fields name rest value))).Perm
      (Leaf.besides (name :: rest) (leaves fields) ++ [(name :: rest, value)]) := by
  apply (leaves_put_perm distinct name _).trans
  unfold branch
  cases found : Entries.get? fields name with
  | none =>
      have absent := Entries.erase_of_not_mem (Entries.get?_eq_none_iff.mp found)
      have nothingMet := Leaf.besides_leaves_erase fields name rest
      rw [absent] at nothingMet ⊢
      rw [nothingMet, Value.leaves_nested noObject]
      exact List.Perm.refl _
  | some existing =>
      have split : (Leaf.besides (name :: rest) (leaves fields)).Perm
          (leaves (Entries.erase fields name) ++
            (Leaf.besides rest existing.leaves).map (Leaf.under name)) := by
        have filtered := (leaves_perm_of_get?_eq_some distinct found).filter
          fun leaf => ¬ Leaf.Meets leaf.1 (name :: rest)
        rw [List.filter_append] at filtered
        rw [← Leaf.besides_map_under, ← Leaf.besides_leaves_erase fields name rest]
        exact filtered
      apply List.Perm.trans _ (split.append_right _).symm
      rw [List.append_assoc]
      apply List.Perm.append_left
      exact ((below existing found).map (Leaf.under name)).trans (by simp [Leaf.under])

/-- A value laid over a place covers the leaves above and below that place and leaves all
others as they are. -/
theorem Value.leaves_overlay_nested {base value : Value} {path : List String}
    (formed : base.WellFormed) (noObject : value.fields? = none)
    (fresh : path ∉ base.leaves.map Prod.fst) :
    (base.overlay (nested path value)).leaves.Perm
      (Leaf.besides path base.leaves ++ [(path, value)]) := by
  induction path generalizing base with
  | nil =>
      cases isObject : base.fields? with
      | none => simp [leaves_of_fields?_eq_none isObject] at fresh
      | some fields =>
          rw [eq_obj_of_fields?_eq_some isObject, nested_nil,
            obj_overlay_of_fields?_eq_none fields noObject, leaves_of_fields?_eq_none noObject]
          simp [Leaf.besides, Leaf.meets_nil_right]
  | cons name rest ih =>
      cases isObject : base.fields? with
      | none =>
          rw [overlay_nested_of_fields?_eq_none isObject, leaves_nested noObject,
            leaves_of_fields?_eq_none isObject]
          simp [Leaf.besides, Leaf.meets_nil_left]
      | some fields =>
          obtain rfl := eq_obj_of_fields?_eq_some isObject
          obtain ⟨distinct, _⟩ := wellFormed_obj_iff.mp formed
          rw [overlay_obj_nested]
          apply Fields.leaves_put_branch_of distinct noObject
          intro existing found
          apply ih (wellFormed_of_get?_eq_some formed found)
          intro there
          apply fresh
          obtain ⟨leaf, leafMem, rfl⟩ := List.mem_map.mp there
          have upMem : Leaf.under name leaf ∈ Fields.leaves fields := Fields.mem_leaves.mpr
            ⟨name, existing, Entries.mem_of_get?_eq_some found, leaf, leafMem, rfl⟩
          exact List.mem_map_of_mem upMem

/-- The same for a field of an object: the value is laid over what the field holds. -/
theorem Fields.leaves_put_branch {fields : Fields} {name : String} {rest : List String}
    {value : Value} (formed : (Value.obj fields).WellFormed) (noObject : value.fields? = none)
    (fresh : name :: rest ∉ (leaves fields).map Prod.fst) :
    (leaves (Entries.put fields name (branch fields name rest value))).Perm
      (Leaf.besides (name :: rest) (leaves fields) ++ [(name :: rest, value)]) := by
  have overlaid := Value.leaves_overlay_nested formed noObject fresh
  rw [Value.overlay_obj_nested] at overlaid
  exact overlaid

end Tabula
