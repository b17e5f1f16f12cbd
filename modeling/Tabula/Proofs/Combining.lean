import Tabula.Proofs.Value.Overlay

/-!
# What an overlay is

An overlay is made field by field, on an object that changes on the way, and a scalar is set
without a look at what it covers. All the same the two values alone tell, at every depth, which
fields there are, in which order, and what each of them holds. A value that is changed in place,
one field at a time, becomes the same.
-/

namespace Tabula

namespace Value

/-- One value combined with another, as it looks at every depth. Objects have the fields of both,
those of the base in front; a field that both have holds the two values combined. Arrays are
joined, and any other value takes the place of the base. -/
inductive Combines : (base upper result : Value) → Prop where
  | objects {base upper result : Fields}
      (keys : Entries.keys result =
        Entries.keys base ++ (Entries.keys upper).filter (· ∉ Entries.keys base))
      (baseOnly : ∀ name, name ∉ Entries.keys upper →
        Entries.get? result name = Entries.get? base name)
      (upperOnly : ∀ name, name ∉ Entries.keys base →
        Entries.get? result name = Entries.get? upper name)
      (shared : ∀ name below above value, Entries.get? base name = some below →
        Entries.get? upper name = some above → Entries.get? result name = some value →
          Combines below above value) :
      Combines (.obj base) (.obj upper) (.obj result)
  | arrays (base upper : List Value) : Combines (.arr base) (.arr upper) (.arr (base ++ upper))
  | covered {base upper : Value} (notObjects : base.fields? = none ∨ upper.fields? = none)
      (notArrays : base.items? = none ∨ upper.items? = none) : Combines base upper upper

variable {base upper result : Value}

theorem combines_overlay (upperFormed : upper.WellFormed) (base : Value) :
    Combines base upper (base.overlay upper) := by
  induction upper using fieldsInduction generalizing base with
  | leaf upper noObject =>
      cases upper with
      | obj fields => cases noObject
      | arr items =>
          cases base with
          | arr below => exact .arrays below items
          | _ => exact .covered (.inr rfl) (.inl rfl)
      | _ => exact .covered (.inr rfl) (.inr rfl)
  | obj fields ih =>
      cases base with
      | obj below =>
          obtain ⟨distinct, fieldsFormed⟩ := wellFormed_obj_iff.mp upperFormed
          refine .objects (Fields.keys_overlay distinct below) ?_ ?_ ?_
          · intro name absent
            rw [Fields.get?_overlay distinct, Entries.get?_eq_none_iff.mpr absent]
          · intro name absent
            rw [Fields.get?_overlay distinct, Entries.get?_eq_none_iff.mpr absent]
            cases Entries.get? fields name <;> rfl
          · intro name lower top value lowerFound topFound found
            rw [Fields.get?_overlay distinct, topFound, lowerFound] at found
            cases found
            have topMem := Entries.mem_of_get?_eq_some topFound
            exact ih (name, top) topMem (fieldsFormed _ topMem) lower
      | _ => exact .covered (.inl rfl) (.inr rfl)

/-- There is one way to combine two values. -/
theorem Combines.eq_overlay (combines : Combines base upper result) (formed : base.WellFormed)
    (upperFormed : upper.WellFormed) : result = base.overlay upper := by
  induction combines with
  | @objects base upper result keys baseOnly upperOnly shared ih =>
      obtain ⟨distinct, _⟩ := wellFormed_obj_iff.mp formed
      obtain ⟨upperDistinct, _⟩ := wellFormed_obj_iff.mp upperFormed
      have sameKeys : Entries.keys result = Entries.keys (Fields.overlay base upper) :=
        keys.trans (Fields.keys_overlay upperDistinct base).symm
      have resultDistinct : Entries.Distinct result := by
        rw [Entries.Distinct, sameKeys]
        have overlayFormed := wellFormed_overlay (.obj base) formed (.obj upper) upperFormed
        exact (wellFormed_obj_iff.mp overlayFormed).1
      apply congrArg obj
      apply Entries.eq_of_keys_eq resultDistinct sameKeys
      intro name nameMem
      rw [Fields.get?_overlay upperDistinct]
      cases above : Entries.get? upper name with
      | none => exact baseOnly name (Entries.get?_eq_none_iff.mp above)
      | some top =>
          cases below : Entries.get? base name with
          | none => exact (upperOnly name (Entries.get?_eq_none_iff.mp below)).trans above
          | some lower =>
              obtain ⟨value, found⟩ := Entries.exists_get?_eq_some nameMem
              rw [found, ih name lower top value below above found
                (wellFormed_of_get?_eq_some formed below)
                (wellFormed_of_get?_eq_some upperFormed above)]
              rfl
  | arrays base upper => rfl
  | @covered base upper notObjects notArrays =>
      cases upper with
      | obj fields =>
          cases base with
          | obj below => simp [fields?] at notObjects
          | _ => rfl
      | arr items =>
          cases base with
          | arr below => simp [items?] at notArrays
          | _ => rfl
      | _ => rfl

end Value

/-! ## In place -/

mutual

/-- Lays a value over the one at hand, which is changed where it stands. -/
def Value.layInPlace : Value → StateM Value Unit
  | .obj upper => do
      match ← get with
      | .obj fields => set (Value.obj ((Fields.layInPlace upper).run fields).2)
      | _ => set (Value.obj upper)
  | .arr upper => do
      match ← get with
      | .arr items => set (Value.arr (items ++ upper))
      | _ => set (Value.arr upper)
  | upper => set upper

/-- Lays fields over the object at hand, one after another. -/
def Fields.layInPlace : List (String × Value) → StateM Fields Unit
  | [] => pure ()
  | field :: rest => do
      Fields.layFieldInPlace field
      Fields.layInPlace rest

/-- Lays one field over the object at hand. If the field is there, a container is laid over what
it holds; in all other cases it is set. -/
def Fields.layFieldInPlace : String × Value → StateM Fields Unit
  | (name, value) => do
      match Entries.get? (← get) name with
      | some existing =>
          if value.isContainer then
            modify fun fields => Entries.put fields name ((Value.layInPlace value).run existing).2
          else
            modify fun fields => Entries.put fields name value
      | none => modify fun fields => Entries.put fields name value

end

mutual

theorem Value.run_layInPlace (base : Value) :
    (upper : Value) → (Value.layInPlace upper).run base = ((), base.overlay upper)
  | .obj upper => by
      cases base with
      | obj fields =>
          have laid : (Value.layInPlace (.obj upper)).run (.obj fields) =
              ((), .obj ((Fields.layInPlace upper).run fields).2) := rfl
          rw [laid, Fields.run_layInPlace fields upper]
          rfl
      | _ => rfl
  | .arr upper => by cases base <;> rfl
  | .null | .bool _ | .num _ | .str _ => rfl

theorem Fields.run_layInPlace (base : Fields) : (upper : List (String × Value)) →
    (Fields.layInPlace upper).run base = ((), Fields.overlay base upper)
  | [] => rfl
  | field :: rest => by
      rw [Fields.layInPlace, StateT.run_bind, Fields.run_layFieldInPlace base field]
      exact Fields.run_layInPlace _ rest

theorem Fields.run_layFieldInPlace (base : Fields) : (field : String × Value) →
    (Fields.layFieldInPlace field).run base = ((), Fields.overlayField base field)
  | (name, value) => by
      rw [Fields.layFieldInPlace, StateT.run_bind, StateT.run_get, Fields.overlayField]
      dsimp only [bind, pure]
      cases Entries.get? base name with
      | none => rfl
      | some existing =>
          dsimp only
          rw [Value.run_layInPlace existing value]
          cases value.isContainer <;> rfl

end

namespace Value

/-- An overlay is the one value that combines the two, at every depth, and a value on which the
upper one is laid in place becomes it. -/
theorem overlay_exact {base upper : Value} (formed : base.WellFormed)
    (upperFormed : upper.WellFormed) :
    (∀ result, Combines base upper result ↔ result = base.overlay upper) ∧
      (layInPlace upper).run base = ((), base.overlay upper) := by
  refine ⟨fun result => ⟨fun combines => combines.eq_overlay formed upperFormed, ?_⟩,
    run_layInPlace base upper⟩
  rintro rfl
  exact combines_overlay upperFormed base

/-- A value with an array and a scalar two levels down, and one level down two fields that change
their kind under `revision`. -/
def draft : Value :=
  .obj [("b", .obj [("x", .obj [("m", .str "1"), ("n", .arr [.str "p"])]), ("y", .null)]),
    ("a", .str "2"), ("s", .obj [("u", .bool true)])]

/-- What is laid over `draft`. -/
def revision : Value :=
  .obj [("c", .arr []), ("b", .obj [("z", .obj []),
    ("x", .obj [("n", .arr [.null]), ("m", .str "3")])]), ("s", .str "4"), ("a", .obj [("v", .null)])]

theorem overlay_exact_draft :
    draft.WellFormed ∧ revision.WellFormed ∧
      Combines draft revision
        (.obj [("b", .obj [("x", .obj [("m", .str "3"), ("n", .arr [.str "p", .null])]),
            ("y", .null), ("z", .obj [])]),
          ("a", .obj [("v", .null)]), ("s", .str "4"), ("c", .arr [])]) ∧
        (layInPlace revision).run draft = ((), draft.overlay revision) := by
  have formed : draft.WellFormed := by
    simp [draft, WellFormed, WellFormedFields, WellFormedField, WellFormedItems,
      Entries.Distinct, Entries.keys]
  have revisionFormed : revision.WellFormed := by
    simp [revision, WellFormed, WellFormedFields, WellFormedField, WellFormedItems,
      Entries.Distinct, Entries.keys]
  obtain ⟨combines, laid⟩ := overlay_exact formed revisionFormed
  exact ⟨formed, revisionFormed, (combines _).mpr (by decide), laid⟩

end Value

end Tabula
