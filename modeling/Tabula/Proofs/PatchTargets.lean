import Tabula.Proofs.Filling

/-!
# Targets of patches

Two readings of a table name agree. A patch is matched against the beginning of a name, while the
base of a name is what stands in front of its first option delimiter. If there is no option
delimiter in what follows the marker of a patch, the tables that the patch matches are those that
have it as their base, and the patch is applied to the first of them.
-/

namespace Tabula

namespace TableName

/-- The name of the patch for the tables with a base. -/
def patchFor (d : Delimiters) (base : String) : String :=
  String.ofList (d.patch :: base.toList)

/-- Among some tables, the first one with an option block behind a base. -/
structure FirstOf (d : Delimiters) (base : String) (names : List String) (name : String) :
    Prop where
  ofBase : base? d name = some base
  first : ∃ front behind, names = front ++ name :: behind ∧
    ∀ other ∈ front, base? d other ≠ some base

variable {d : Delimiters} {base name : String} {names : List String}

theorem isPatchTarget_patchFor_iff :
    isPatchTarget d (patchFor d base) name = true ↔
      ∃ block, name.toList = base.toList ++ d.tableOption :: block := by
  rw [isPatchTarget_eq_true_iff, patchFor, String.toList_ofList]
  constructor
  · rintro ⟨text, block, same, divided⟩
    cases same
    exact ⟨block, divided⟩
  · rintro ⟨block, divided⟩
    exact ⟨base.toList, block, rfl, divided⟩

/-- A name has a base if the patch for the base matches it, and the base has no option delimiter. -/
theorem base?_eq_some_iff_isPatchTarget :
    base? d name = some base ↔
      d.tableOption ∉ base.toList ∧ isPatchTarget d (patchFor d base) name = true := by
  rw [base?_eq_some_iff, isPatchTarget_patchFor_iff]

theorem isPatchTarget_iff_base? (free : d.tableOption ∉ base.toList) :
    isPatchTarget d (patchFor d base) name = true ↔ base? d name = some base := by
  rw [base?_eq_some_iff_isPatchTarget, and_iff_right free]

/-- Behind an option delimiter of its own a patch is matched against the option block. -/
example : isPatchTarget {} (patchFor {} "T$a") "T$a$b" = true ∧ base? {} "T$a$b" = some "T" :=
  ⟨by decide, by decide⟩

/-- The table that a patch finds is the first one of its base. -/
theorem find?_isPatchTarget_eq_some_iff (free : d.tableOption ∉ base.toList) :
    names.find? (isPatchTarget d (patchFor d base)) = some name ↔ FirstOf d base names name := by
  have passed_iff : ∀ other, (!isPatchTarget d (patchFor d base) other) = true ↔
      base? d other ≠ some base := fun other => by
    rw [Bool.not_eq_true', ← Bool.not_eq_true, isPatchTarget_iff_base? free]
  rw [List.find?_eq_some_iff_append, isPatchTarget_iff_base? free]
  simp only [passed_iff]
  exact ⟨fun ⟨ofBase, first⟩ => ⟨ofBase, first⟩, fun ⟨ofBase, first⟩ => ⟨ofBase, first⟩⟩

end TableName

namespace Store

open TableName

/-- Patching comes to a patch with a single row. The names in front of it are done by then, and
those behind it are left. -/
structure ComesTo (settings : Settings) (names : List String) (patch : String) (row : Value)
    (behind : List String) (store reached : Store) (applied : Nat) : Prop where
  isPatch : kind settings patch = .patch
  hasRow : reached.rows? patch = some [row]
  done : ∃ front, names = front ++ patch :: behind ∧
    store.applyPatchesFrom settings names 0 front = (reached, .ok applied)

variable {settings : Settings} {store reached : Store} {names behind : List String}
  {base patch table : String} {row : Value} {document : Fields} {applied : Nat}

theorem ComesTo.applyPatches_eq
    (comes : ComesTo settings names patch row behind store reached applied) :
    store.applyPatches settings names =
      reached.applyPatchesFrom settings names applied (patch :: behind) := by
  obtain ⟨front, divided, done⟩ := comes.done
  calc
    store.applyPatches settings names
        = store.applyPatchesFrom settings names 0 (front ++ patch :: behind) := by
          rw [applyPatches, ← divided]
    _ = reached.applyPatchesFrom settings names applied (patch :: behind) :=
          applyPatchesFrom_append done (patch :: behind)

/-- The row of a patch comes to lie under the document of the first table of its base. -/
theorem applyPatch?_of_firstOf (free : settings.delimiters.tableOption ∉ base.toList)
    (isPatch : kind settings (patchFor settings.delimiters base) = .patch)
    (hasRow : store.rows? (patchFor settings.delimiters base) = some [row])
    (first : FirstOf settings.delimiters base names table)
    (stored : store.document? table = some document) :
    ∃ patched, row.overlay (.obj document) = .obj patched ∧
      store.applyPatch? settings names (patchFor settings.delimiters base) =
        .ok (some (store.putDocument table patched)) := by
  have found := (find?_isPatchTarget_eq_some_iff free).mpr first
  have aims : store.aim? settings names (patchFor settings.delimiters base) = some (table, row) :=
    aim?_eq_some_iff.mpr ⟨isPatch, hasRow, found, document, stored⟩
  obtain ⟨held, patched, heldStored, overlaid, applies⟩ := applyPatch?_of_aim? aims
  rw [stored] at heldStored
  cases heldStored
  exact ⟨patched, overlaid, applies⟩

/-- Without a document for the first table of its base a patch is not applied, not even to a later
table of this base. -/
theorem applyPatch?_of_firstOf_missing (free : settings.delimiters.tableOption ∉ base.toList)
    (hasRow : store.rows? (patchFor settings.delimiters base) = some [row])
    (missing : ∀ table, FirstOf settings.delimiters base names table →
      store.document? table = none) :
    store.applyPatch? settings names (patchFor settings.delimiters base) = .ok none := by
  have aimless : store.aim? settings names (patchFor settings.delimiters base) = none := by
    apply Option.eq_none_iff_forall_ne_some.mpr
    rintro ⟨table, aimed⟩ aims
    obtain ⟨_, _, found, document, stored⟩ := aim?_eq_some_iff.mp aims
    rw [missing table ((find?_isPatchTarget_eq_some_iff free).mp found)] at stored
    cases stored
  rcases applyPatch?_of_atMostOne hasRow (Nat.le_refl 1) with
    idle | ⟨target, _, _, patched, applies⟩
  · exact idle
  · exact absurd applies (applyPatch?_ne_of_aimless aimless _)

/-- A patch without an option delimiter behind its marker matches the names that have the rest of
it as their base, and no others. So when it has its turn, its row comes to lie under the document of
the first table with an option block behind this base. Nothing is done if there is no such table,
or no document for it. -/
theorem applyPatches_patchFor (settings : Settings) {base : String}
    (free : settings.delimiters.tableOption ∉ base.toList) :
    (∀ name, isPatchTarget settings.delimiters (patchFor settings.delimiters base) name = true ↔
        base? settings.delimiters name = some base) ∧
      ∀ names row behind store reached applied,
        ComesTo settings names (patchFor settings.delimiters base) row behind store reached
            applied →
          (∀ table document, FirstOf settings.delimiters base names table →
            reached.document? table = some document →
              ∃ patched, row.overlay (.obj document) = .obj patched ∧
                store.applyPatches settings names =
                  (reached.putDocument table patched).applyPatchesFrom settings names
                    (applied + 1) behind) ∧
            ((∀ table, FirstOf settings.delimiters base names table →
                reached.document? table = none) →
              store.applyPatches settings names =
                reached.applyPatchesFrom settings names applied behind) := by
  refine ⟨fun name => isPatchTarget_iff_base? free, ?_⟩
  intro names row behind store reached applied comes
  rw [comes.applyPatches_eq, applyPatchesFrom]
  constructor
  · intro table document first stored
    obtain ⟨patched, overlaid, applies⟩ :=
      applyPatch?_of_firstOf free comes.isPatch comes.hasRow first stored
    exact ⟨patched, overlaid, by rw [applies]⟩
  · intro missing
    rw [applyPatch?_of_firstOf_missing free comes.hasRow missing]

/-- Names with one base and names that only begin with it, and a patch for the empty base. -/
def assortment : List String :=
  ["!", "Items", "ItemsExtra$key=x", "!Items", "Items$sort$key=list", "Items$key=b", "$key=all"]

/-- Documents for all of these tables, with a row in either patch. -/
def stock : Store where
  rowsField := "data"
  documents :=
    [("!", [("data", .arr [.obj [("year", .str "1999")]])]),
     ("Items", [("data", .arr [])]),
     ("ItemsExtra$key=x", [("data", .arr [])]),
     ("!Items", [("data", .arr [.obj [("version", .str "2")]])]),
     ("Items$sort$key=list", [("data", .arr [.null])]),
     ("Items$key=b", [("data", .arr [])]),
     ("$key=all", [("data", .arr [])])]

/-- The documents when the patch for the empty base is applied. -/
def dated : Store :=
  stock.putDocument "$key=all" [("year", .str "1999"), ("data", .arr [])]

theorem applyPatches_patchFor_assortment :
    '$' ∉ "Items".toList ∧
      ComesTo {} assortment (patchFor {} "Items") (.obj [("version", .str "2")])
          ["Items$sort$key=list", "Items$key=b", "$key=all"] stock dated 1 ∧
        FirstOf {} "Items" assortment "Items$sort$key=list" ∧
          isPatchTarget {} "!Items" "ItemsExtra$key=x" = false ∧
            stock.applyPatches {} assortment =
              (dated.putDocument "Items$sort$key=list"
                [("version", .str "2"), ("data", .arr [.null])], .ok 2) := by
  have free : '$' ∉ "Items".toList := by decide
  have comes : ComesTo {} assortment (patchFor {} "Items") (.obj [("version", .str "2")])
      ["Items$sort$key=list", "Items$key=b", "$key=all"] stock dated 1 :=
    { isPatch := by decide
      hasRow := by decide +kernel
      done := ⟨["!", "Items", "ItemsExtra$key=x"], by decide, by decide +kernel⟩ }
  have first : FirstOf {} "Items" assortment "Items$sort$key=list" :=
    { ofBase := by decide
      first := ⟨["!", "Items", "ItemsExtra$key=x", "!Items"], ["Items$key=b", "$key=all"],
        by decide, by decide⟩ }
  obtain ⟨matches_iff, has_turn⟩ := applyPatches_patchFor {} free
  have other : ¬ base? {} "ItemsExtra$key=x" = some "Items" := by decide
  obtain ⟨patched, overlaid, applies⟩ := (has_turn _ _ _ _ _ _ comes).1 _ _ first rfl
  cases overlaid
  refine ⟨free, comes, first, ?_, applies⟩
  rw [← Bool.not_eq_true]
  exact fun isTarget => other ((matches_iff _).mp isTarget)

end Store

end Tabula
