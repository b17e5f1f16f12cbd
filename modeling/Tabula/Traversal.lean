/-!
# Traversals with a carried state

Maps over a list from left to right, each step seeing what the steps before it left
behind. The first step that fails ends the traversal. The list is built up in reverse,
so long lists need no deep recursion; the equations below hide that.
-/

namespace Tabula

variable {α β ε σ : Type}

/-- Continues a traversal whose results so far are `done`, last one first. -/
def mapCarryFrom (step : σ → α → Except ε (β × σ)) (done : List β) (state : σ) :
    List α → Except ε (List β × σ)
  | [] => .ok (done.reverse, state)
  | item :: rest =>
      match step state item with
      | .error fault => .error fault
      | .ok (result, next) => mapCarryFrom step (result :: done) next rest

/-- Maps `step` over a list, carrying a state along; stops at the first failure. -/
def mapCarry (step : σ → α → Except ε (β × σ)) (state : σ) (items : List α) :
    Except ε (List β × σ) :=
  mapCarryFrom step [] state items

theorem mapCarryFrom_eq (step : σ → α → Except ε (β × σ)) (done : List β) (state : σ)
    (items : List α) :
    mapCarryFrom step done state items =
      (mapCarry step state items).map fun outcome => (done.reverse ++ outcome.1, outcome.2) := by
  induction items generalizing done state with
  | nil => simp [mapCarry, mapCarryFrom, Except.map]
  | cons item rest ih =>
      rw [mapCarry, mapCarryFrom, mapCarryFrom]
      cases step state item with
      | error fault => rfl
      | ok outcome =>
          obtain ⟨result, next⟩ := outcome
          dsimp only
          rw [ih (result :: done) next, ih [result] next]
          cases mapCarry step next rest with
          | error fault => rfl
          | ok tail => simp [Except.map]

@[simp]
theorem mapCarry_nil (step : σ → α → Except ε (β × σ)) (state : σ) :
    mapCarry step state [] = .ok ([], state) := rfl

theorem mapCarry_cons (step : σ → α → Except ε (β × σ)) (state : σ) (item : α)
    (rest : List α) :
    mapCarry step state (item :: rest) =
      match step state item with
      | .error fault => .error fault
      | .ok (result, next) =>
          (mapCarry step next rest).map fun outcome => (result :: outcome.1, outcome.2) := by
  rw [mapCarry, mapCarryFrom]
  cases step state item with
  | error fault => rfl
  | ok outcome =>
      obtain ⟨result, next⟩ := outcome
      dsimp only
      rw [mapCarryFrom_eq]
      rfl

/-- A traversal succeeds if and only if its first step and the traversal of the rest do. -/
theorem mapCarry_cons_eq_ok_iff {step : σ → α → Except ε (β × σ)} {state : σ} {item : α}
    {rest : List α} {outcome : List β × σ} :
    mapCarry step state (item :: rest) = .ok outcome ↔
      ∃ result next later, step state item = .ok (result, next) ∧
        mapCarry step next rest = .ok later ∧ outcome = (result :: later.1, later.2) := by
  rw [mapCarry_cons]
  cases here : step state item with
  | error fault => simp
  | ok first =>
      obtain ⟨result, next⟩ := first
      dsimp only
      cases behind : mapCarry step next rest with
      | error fault => simp [behind, Except.map]
      | ok later =>
          constructor
          · rintro ⟨⟩
            exact ⟨result, next, later, rfl, behind, rfl⟩
          · rintro ⟨_, _, _, ⟨⟩, laterEq, rfl⟩
            obtain rfl := Except.ok.inj (behind.symm.trans laterEq)
            rfl

/-- A traversal fails if and only if one of its steps does, after all steps in front of it have
succeeded. -/
theorem mapCarry_eq_error_iff {step : σ → α → Except ε (β × σ)} {state : σ} {items : List α}
    {fault : ε} :
    mapCarry step state items = .error fault ↔
      ∃ before item behind outcome, items = before ++ item :: behind ∧
        mapCarry step state before = .ok outcome ∧ step outcome.2 item = .error fault := by
  induction items generalizing state with
  | nil => simp
  | cons first rest ih =>
      rw [mapCarry_cons]
      constructor
      · intro failed
        cases here : step state first with
        | error early =>
            rw [here] at failed
            cases failed
            exact ⟨[], first, rest, ([], state), rfl, rfl, here⟩
        | ok outcome =>
            obtain ⟨result, next⟩ := outcome
            rw [here] at failed
            dsimp only at failed
            cases later : mapCarry step next rest with
            | ok outcome =>
                rw [later] at failed
                cases failed
            | error late =>
                rw [later] at failed
                cases failed
                obtain ⟨before, item, behind, outcome, rfl, passed, stepFailed⟩ := ih.mp later
                exact ⟨first :: before, item, behind, (result :: outcome.1, outcome.2), rfl,
                  mapCarry_cons_eq_ok_iff.mpr ⟨result, next, outcome, here, passed, rfl⟩,
                  stepFailed⟩
      · rintro ⟨before, item, behind, outcome, divided, passed, stepFailed⟩
        cases before with
        | nil =>
            obtain ⟨rfl, rfl⟩ := List.cons.inj divided
            cases passed
            rw [stepFailed]
        | cons earlier before =>
            obtain ⟨rfl, rfl⟩ := List.cons.inj divided
            obtain ⟨result, next, later, here, passedLater, rfl⟩ :=
              mapCarry_cons_eq_ok_iff.mp passed
            have failed : mapCarry step next (before ++ item :: behind) = .error fault :=
              ih.mpr ⟨before, item, behind, later, rfl, passedLater, stepFailed⟩
            rw [here]
            exact congrArg (Except.map _) failed
/-- A traversal that never fails and leaves the state as it is. -/
theorem mapCarry_eq_map {step : σ → α → Except ε (β × σ)} {result : α → β} {state : σ}
    (step_eq : ∀ item, step state item = .ok (result item, state)) (items : List α) :
    mapCarry step state items = .ok (items.map result, state) := by
  induction items with
  | nil => rfl
  | cons item rest ih =>
      rw [mapCarry_cons, step_eq]
      dsimp only
      rw [ih]
      rfl

/-! ## Traversals whose failures depend on the items alone -/

/-- A value, unless there is a fault. -/
def okUnless (fault? : Option ε) (value : α) : Except ε α :=
  match fault? with
  | some fault => .error fault
  | none => .ok value

@[simp]
theorem okUnless_none (value : α) : okUnless (none : Option ε) value = .ok value := rfl

@[simp]
theorem okUnless_some (fault : ε) (value : α) : okUnless (some fault) value = .error fault := rfl

theorem okUnless_eq_ok_iff {fault? : Option ε} {value result : α} :
    okUnless fault? value = .ok result ↔ fault? = none ∧ value = result := by
  cases fault? <;> simp

theorem okUnless_eq_error_iff {fault? : Option ε} {value : α} {fault : ε} :
    okUnless fault? value = .error fault ↔ fault? = some fault := by
  cases fault? <;> simp

theorem map_okUnless (change : α → β) (fault? : Option ε) (value : α) :
    (okUnless fault? value).map change = okUnless fault? (change value) := by
  cases fault? <;> rfl

/-- A fold whose steps fail independently of the state fails with the fault of the first
faulty item. -/
theorem foldlM_eq_okUnless {step : σ → α → Except ε σ} {fault? : α → Option ε}
    {next : σ → α → σ}
    (step_eq : ∀ state item, step state item = okUnless (fault? item) (next state item))
    (state : σ) (items : List α) :
    items.foldlM step state = okUnless (items.findSome? fault?) (items.foldl next state) := by
  induction items generalizing state with
  | nil => rfl
  | cons item rest ih =>
      rw [List.foldlM_cons, step_eq, List.findSome?_cons, List.foldl_cons]
      cases fault? item with
      | some fault => rfl
      | none => exact ih (next state item)

/-- A traversal whose steps fail, and give their results, independently of the state is a
map that fails with the fault of the first faulty item. -/
theorem mapCarry_eq_okUnless {step : σ → α → Except ε (β × σ)} {fault? : α → Option ε}
    {result : α → β} {next : σ → α → σ}
    (step_eq : ∀ state item,
      step state item = okUnless (fault? item) (result item, next state item))
    (state : σ) (items : List α) :
    mapCarry step state items =
      okUnless (items.findSome? fault?) (items.map result, items.foldl next state) := by
  induction items generalizing state with
  | nil => rfl
  | cons item rest ih =>
      rw [mapCarry_cons, step_eq, List.findSome?_cons]
      cases fault? item with
      | some fault => rfl
      | none =>
          rw [okUnless_none]
          dsimp only
          rw [ih, map_okUnless]
          rfl

end Tabula
