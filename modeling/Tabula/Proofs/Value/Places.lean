import Tabula.Proofs.Value.Overlay

/-!
# Places

A place in a value is reached through the fields of objects. Laid over a base, a value keeps its
leaves in their places, arrays behind those that the base has there. Where the value has a gap,
the base shows through.
-/

namespace Tabula

namespace Value

/-- The value at the place that a path of field names leads to. -/
def at? : Value → List String → Option Value
  | value, [] => some value
  | obj fields, name :: rest => (Entries.get? fields name).bind fun field => field.at? rest
  | _, _ :: _ => none
termination_by structural _ path => path

/-- Nothing is at a place, and nothing but objects is on the way there. -/
def Gap (value : Value) (path : List String) : Prop :=
  value.at? path = none ∧
    ∀ front, front <+: path → ∀ held, value.at? front = some held → ∃ fields, held = obj fields

/-- The items of the array at a place, if there is one. -/
def itemsAt (value : Value) (path : List String) : List Value :=
  ((value.at? path).bind items?).getD []

/-- A value, behind other items if it is an array. -/
def behind (front : List Value) : Value → Value
  | arr items => arr (front ++ items)
  | value => value

variable {base upper leaf : Value} {fields : Fields} {name : String} {path rest : List String}

@[simp]
theorem at?_nil (value : Value) : value.at? [] = some value := by
  cases value <;> rfl

@[simp]
theorem at?_obj_cons (fields : Fields) (name : String) (rest : List String) :
    (obj fields).at? (name :: rest) =
      (Entries.get? fields name).bind fun field => field.at? rest := rfl

@[simp]
theorem behind_nil (value : Value) : behind [] value = value := by
  cases value <;> rfl

theorem behind_behind (front middle : List Value) (value : Value) :
    behind front (behind middle value) = behind (front ++ middle) value := by
  cases value <;> simp [behind]

theorem fields?_behind (front : List Value) (value : Value) :
    (behind front value).fields? = value.fields? := by
  cases value <;> rfl

/-! ## Gaps -/

theorem not_gap_nil (value : Value) : ¬ value.Gap [] := by
  rintro ⟨absent, _⟩
  rw [at?_nil] at absent
  cases absent

/-- Only objects have gaps. -/
theorem Gap.exists_eq_obj (gap : base.Gap path) : ∃ fields, base = obj fields :=
  gap.2 [] List.nil_prefix base (at?_nil base)

theorem gap_obj_cons_iff :
    (obj fields).Gap (name :: rest) ↔
      ∀ held, Entries.get? fields name = some held → held.Gap rest := by
  constructor
  · rintro ⟨absent, objects⟩ held found
    rw [at?_obj_cons, found] at absent
    refine ⟨absent, fun front isFront inner innerFound => ?_⟩
    apply objects (name :: front) (List.cons_prefix_cons.mpr ⟨rfl, isFront⟩)
    rw [at?_obj_cons, found]
    exact innerFound
  · intro gaps
    constructor
    · rw [at?_obj_cons]
      cases found : Entries.get? fields name with
      | none => rfl
      | some held => exact (gaps held found).1
    · intro front isFront inner innerFound
      cases front with
      | nil =>
          cases innerFound
          exact ⟨fields, rfl⟩
      | cons other front =>
          obtain ⟨rfl, isRestFront⟩ := List.cons_prefix_cons.mp isFront
          rw [at?_obj_cons] at innerFound
          obtain ⟨held, found, below⟩ := Option.bind_eq_some_iff.mp innerFound
          exact (gaps held found).2 front isRestFront inner below

/-! ## Overlays -/

/-- A leaf of the upper value stays in its place. -/
theorem at?_overlay_of_leaf (formed : upper.WellFormed) (found : upper.at? path = some leaf)
    (isLeaf : leaf.fields? = none) (base : Value) :
    (base.overlay upper).at? path = some (leaf.behind (base.itemsAt path)) := by
  induction path generalizing base upper with
  | nil =>
      rw [at?_nil, Option.some.injEq] at found
      subst found
      rw [at?_nil]
      cases upper with
      | obj fields => cases isLeaf
      | arr items => cases base <;> rfl
      | _ => rfl
  | cons name rest ih =>
      cases upper with
      | obj fields =>
          obtain ⟨distinct, _⟩ := wellFormed_obj_iff.mp formed
          rw [at?_obj_cons] at found
          obtain ⟨held, heldFound, below⟩ := Option.bind_eq_some_iff.mp found
          have heldFormed := wellFormed_of_get?_eq_some formed heldFound
          cases base with
          | obj baseFields =>
              rw [overlay, at?_obj_cons, Fields.get?_overlay distinct, heldFound, itemsAt,
                at?_obj_cons]
              cases Entries.get? baseFields name with
              | none => simpa [overlaid] using below
              | some under => exact ih heldFormed below under
          | _ => simpa [overlay, heldFound, itemsAt, at?] using below
      | _ => cases found

/-- Where the upper value has a gap, the base shows through. -/
theorem at?_overlay_of_gap (formed : upper.WellFormed) (gap : upper.Gap path) (base : Value) :
    (base.overlay upper).at? path = base.at? path := by
  induction path generalizing base upper with
  | nil => exact absurd gap (not_gap_nil upper)
  | cons name rest ih =>
      obtain ⟨fields, rfl⟩ := gap.exists_eq_obj
      obtain ⟨distinct, _⟩ := wellFormed_obj_iff.mp formed
      cases base with
      | obj baseFields =>
          rw [overlay, at?_obj_cons, at?_obj_cons, Fields.get?_overlay distinct]
          cases found : Entries.get? fields name with
          | none => rfl
          | some held =>
              have heldGap := gap_obj_cons_iff.mp gap held found
              cases Entries.get? baseFields name with
              | none => exact heldGap.1
              | some under => exact ih (wellFormed_of_get?_eq_some formed found) heldGap under
      | _ => exact gap.1

/-- A gap in both values stays one. -/
theorem gap_overlay (formed : upper.WellFormed) (gap : upper.Gap path) (baseGap : base.Gap path) :
    (base.overlay upper).Gap path := by
  induction path generalizing base upper with
  | nil => exact absurd gap (not_gap_nil upper)
  | cons name rest ih =>
      obtain ⟨fields, rfl⟩ := gap.exists_eq_obj
      obtain ⟨baseFields, rfl⟩ := baseGap.exists_eq_obj
      obtain ⟨distinct, _⟩ := wellFormed_obj_iff.mp formed
      rw [gap_obj_cons_iff] at gap baseGap
      rw [overlay, gap_obj_cons_iff]
      intro held isHeld
      rw [Fields.get?_overlay distinct] at isHeld
      cases found : Entries.get? fields name with
      | none =>
          rw [found] at isHeld
          exact baseGap held isHeld
      | some value =>
          rw [found] at isHeld
          cases isHeld
          cases baseFound : Entries.get? baseFields name with
          | none => exact gap value found
          | some under =>
              exact ih (wellFormed_of_get?_eq_some formed found) (gap value found)
                (baseGap under baseFound)

end Value

end Tabula
