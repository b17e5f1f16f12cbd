import Tabula.Proofs.Run.PatchRows
import Tabula.Proofs.Value.Places

/-!
# Patches fill gaps

Which tables the patches aim at, and with which rows, can be read off the store before any patch
is applied, as long as no patch is aimed at itself. A document that is aimed at keeps its leaves
in their places. A leaf of a patch is found in its place if the document, and every patch that
came before, has a gap there. Arrays alone grow: each patch puts its own items in front.
-/

namespace Tabula

namespace Fields

variable {document after row : Fields} {rows before below : List Fields} {path : List String}
  {leaf : Value}

/-- The items that rows have in arrays at one place, those of the last row first. -/
def itemsBelow (path : List String) (rows : List Fields) : List Value :=
  rows.reverse.flatMap fun row => (Value.obj row).itemsAt path

/-- A leaf of a row falls into a gap: neither the document nor any row that came before has a
value at its place, or anything but objects on the way there. -/
structure FallsIntoGap (document : Fields) (before : List Fields) (row : Fields)
    (path : List String) (leaf : Value) : Prop where
  found : (Value.obj row).at? path = some leaf
  isLeaf : leaf.fields? = none
  gap : (Value.obj document).Gap path
  gaps : ∀ other ∈ before, (Value.obj other).Gap path

/-- A document after rows have filled its gaps, one after another. Its leaves are in their places,
and so are the leaves of a row that fell into a gap. Arrays come to stand behind the items that
later rows have in the same place. -/
structure FillsGaps (document : Fields) (rows : List Fields) (after : Fields) : Prop where
  kept : ∀ path leaf, (Value.obj document).at? path = some leaf → leaf.fields? = none →
    (Value.obj after).at? path = some (leaf.behind (itemsBelow path rows))
  gained : ∀ before row below path leaf, rows = before ++ row :: below →
    FallsIntoGap document before row path leaf →
      (Value.obj after).at? path = some (leaf.behind (itemsBelow path below))

/-- Every leaf of a row that falls into a gap, where no array is for it to come in front of, is
found in its place as it is. -/
def GainsAsIs (document : Fields) (rows : List Fields) (after : Fields) : Prop :=
  ∀ before row below path leaf, rows = before ++ row :: below →
    FallsIntoGap document before row path leaf → (Value.obj after).at? path = some leaf

theorem at?_laidOver_of_leaf (formed : (Value.obj document).WellFormed)
    (rowsFormed : ∀ row ∈ rows, (Value.obj row).WellFormed)
    (found : (Value.obj document).at? path = some leaf) (isLeaf : leaf.fields? = none) :
    (Value.obj (laidOver document rows)).at? path = some (leaf.behind (itemsBelow path rows)) := by
  induction rows generalizing document leaf with
  | nil => simpa [laidOver, itemsBelow] using found
  | cons row rest ih =>
      rw [List.forall_mem_cons] at rowsFormed
      have next := Value.at?_overlay_of_leaf formed found isLeaf (.obj row)
      have nextLeaf := (Value.fields?_behind ((Value.obj row).itemsAt path) leaf).trans isLeaf
      rw [laidOver_cons, ih (wellFormed_overlay_row formed rowsFormed.1) rowsFormed.2 next nextLeaf,
        Value.behind_behind]
      simp [itemsBelow]

theorem gap_laidOver (formed : (Value.obj document).WellFormed)
    (rowsFormed : ∀ row ∈ rows, (Value.obj row).WellFormed)
    (gap : (Value.obj document).Gap path) (rowGaps : ∀ row ∈ rows, (Value.obj row).Gap path) :
    (Value.obj (laidOver document rows)).Gap path := by
  induction rows generalizing document with
  | nil => exact gap
  | cons row rest ih =>
      rw [List.forall_mem_cons] at rowsFormed rowGaps
      exact ih (wellFormed_overlay_row formed rowsFormed.1) rowsFormed.2
        (Value.gap_overlay formed gap rowGaps.1) rowGaps.2

/-- A document laid over rows has its gaps filled by them. -/
theorem fillsGaps_laidOver (formed : (Value.obj document).WellFormed)
    (rowsFormed : ∀ row ∈ rows, (Value.obj row).WellFormed) :
    FillsGaps document rows (laidOver document rows) where
  kept := fun _ _ found isLeaf => at?_laidOver_of_leaf formed rowsFormed found isLeaf
  gained := by
    rintro before row below path leaf rfl ⟨found, isLeaf, gap, rowGaps⟩
    obtain ⟨beforeFormed, restFormed⟩ := List.forall_mem_append.mp rowsFormed
    obtain ⟨rowFormed, belowFormed⟩ := List.forall_mem_cons.mp restFormed
    have upperFormed := wellFormed_laidOver formed beforeFormed
    have shows : (Value.obj (overlay row (laidOver document before))).at? path = some leaf :=
      (Value.at?_overlay_of_gap upperFormed (gap_laidOver formed beforeFormed gap rowGaps)
        (.obj row)).trans found
    rw [laidOver_append, laidOver_cons]
    exact at?_laidOver_of_leaf (wellFormed_overlay_row upperFormed rowFormed) belowFormed shows
      isLeaf

end Fields

namespace Store

/-- What a patch table aims at: the first table that it matches, if that has a document. The patch
must have a single row, which comes with it. -/
def aim? (settings : Settings) (names : List String) (store : Store) (patch : String) :
    Option (String × Value) :=
  match TableName.kind settings patch, store.rows? patch,
      names.find? (TableName.isPatchTarget settings.delimiters patch) with
  | .patch, some [row], some target => (store.document? target).map fun _ => (target, row)
  | _, _, _ => none

/-- What the patches among the tables `pending` aim at, in order. -/
def aims (settings : Settings) (names : List String) (store : Store) (pending : List String) :
    List (String × Value) :=
  pending.filterMap (store.aim? settings names)

/-- The objects among the rows that are aimed at a table. -/
def rowsAimedAt (table : String) (aims : List (String × Value)) : List Fields :=
  aims.filterMap fun aim => if aim.1 = table then aim.2.fields? else none

/-- No patch table is the target of a patch. -/
def Unchained (settings : Settings) (names pending : List String) : Prop :=
  ∀ patch ∈ pending, TableName.kind settings patch = .patch →
    ∀ target ∈ names.find? (TableName.isPatchTarget settings.delimiters patch),
      TableName.kind settings target ≠ .patch

instance (settings : Settings) (names pending : List String) :
    Decidable (Unchained settings names pending) :=
  inferInstanceAs (Decidable (∀ patch ∈ pending, TableName.kind settings patch = .patch →
    ∀ target ∈ names.find? (TableName.isPatchTarget settings.delimiters patch),
      TableName.kind settings target ≠ .patch))

variable {settings : Settings} {store patched : Store} {names pending : List String}
  {patch target table : String} {row : Value} {document : Fields}

theorem wellFormed_of_documents
    (formed : ∀ entry ∈ store.documents, (Value.obj entry.2).WellFormed) : store.WellFormed :=
  fun table document stored => formed (table, document) (Entries.mem_of_get?_eq_some stored)

theorem aim?_eq_some_iff :
    store.aim? settings names patch = some (target, row) ↔
      TableName.kind settings patch = .patch ∧ store.rows? patch = some [row] ∧
        names.find? (TableName.isPatchTarget settings.delimiters patch) = some target ∧
          ∃ document, store.document? target = some document := by
  unfold aim?
  constructor
  · intro aims
    split at aims
    · rename_i isPatch hasRow found
      obtain ⟨document, stored, same⟩ := Option.map_eq_some_iff.mp aims
      cases same
      exact ⟨isPatch, hasRow, found, document, stored⟩
    · cases aims
  · rintro ⟨isPatch, hasRow, found, document, stored⟩
    rw [isPatch, hasRow, found]
    simp [stored]

/-- A patch that has a target is applied to it. -/
theorem applyPatch?_of_aim? (aims : store.aim? settings names patch = some (target, row)) :
    ∃ document laid, store.document? target = some document ∧
      row.overlay (.obj document) = .obj laid ∧
        store.applyPatch? settings names patch = .ok (some (store.putDocument target laid)) := by
  obtain ⟨isPatch, hasRow, found, document, stored⟩ := aim?_eq_some_iff.mp aims
  obtain ⟨laid, overlaid⟩ := exists_overlay_obj row document
  refine ⟨document, laid, stored, overlaid, ?_⟩
  rw [applyPatch?, if_neg (not_not_intro isPatch), hasRow]
  simp only [found, stored, overlaid]

/-- A patch without an aim is not applied. -/
theorem applyPatch?_ne_of_aimless (aimless : store.aim? settings names patch = none)
    (next : Store) : store.applyPatch? settings names patch ≠ .ok (some next) := by
  intro applied
  obtain ⟨isPatch, row, target, old, _, hasRow, found, stored, _, _⟩ := applyPatch?_eq_some applied
  have aims : store.aim? settings names patch = some (target, row) :=
    aim?_eq_some_iff.mpr ⟨isPatch, hasRow, found, old, stored⟩
  rw [aimless] at aims
  cases aims

/-- A new document for a table that is no patch changes no aim. -/
theorem aim?_putDocument {old : Fields} (noPatch : TableName.kind settings target ≠ .patch)
    (stored : store.document? target = some old) (document : Fields) (patch : String) :
    (store.putDocument target document).aim? settings names patch =
      store.aim? settings names patch := by
  ext ⟨wanted, row⟩
  have sameStored : (∃ held, (store.putDocument target document).document? wanted = some held) ↔
      ∃ held, store.document? wanted = some held := by
    rw [document?_putDocument]
    by_cases same : target = wanted
    · simp [← same, stored]
    · rw [if_neg same]
  rw [aim?_eq_some_iff, aim?_eq_some_iff, sameStored]
  apply and_congr_right
  intro isPatch
  have differ : target ≠ patch := fun same => noPatch (same ▸ isPatch)
  rw [rows?_putDocument_of_ne store document differ]

theorem aims_putDocument {old : Fields} (noPatch : TableName.kind settings target ≠ .patch)
    (stored : store.document? target = some old) (document : Fields) (pending : List String) :
    (store.putDocument target document).aims settings names pending =
      store.aims settings names pending := by
  have same : (store.putDocument target document).aim? settings names =
      store.aim? settings names :=
    funext (aim?_putDocument noPatch stored document)
  rw [aims, aims, same]

/-- Patching that succeeds does what all patches aim at before the first is applied. -/
theorem applyPatchesFrom_eq_ok {applied count : Nat}
    (unchained : Unchained settings names pending)
    (done : store.applyPatchesFrom settings names applied pending = (patched, .ok count)) :
    count = applied + (store.aims settings names pending).length ∧
      (∀ table, store.patchRowsFrom settings names table pending =
        rowsAimedAt table (store.aims settings names pending)) ∧
      ∀ table, (∀ row, (table, row) ∉ store.aims settings names pending) →
        patched.document? table = store.document? table := by
  induction pending generalizing store applied with
  | nil =>
      cases done
      exact ⟨rfl, fun _ => rfl, fun _ _ => rfl⟩
  | cons patch rest ih =>
      obtain ⟨here, restUnchained⟩ := List.forall_mem_cons.mp unchained
      rw [applyPatchesFrom] at done
      simp only [patchRowsFrom]
      cases aimed : store.aim? settings names patch with
      | none =>
          rw [aims, List.filterMap_cons_none aimed, ← aims]
          cases outcome : store.applyPatch? settings names patch with
          | error fault =>
              rw [outcome] at done
              cases done
          | ok next? =>
              cases next? with
              | none =>
                  rw [outcome] at done
                  exact ih restUnchained done
              | some next => exact absurd outcome (applyPatch?_ne_of_aimless aimed next)
      | some aim =>
          obtain ⟨target, row⟩ := aim
          obtain ⟨isPatch, hasRow, found, _⟩ := aim?_eq_some_iff.mp aimed
          obtain ⟨document, laid, stored, _, applies⟩ := applyPatch?_of_aim? aimed
          have noPatch := here isPatch target found
          rw [applies] at done ⊢
          -- What is left to do is found in the new store, where the aims are still the same.
          obtain ⟨counted, rows, untouched⟩ := ih restUnchained done
          rw [aims_putDocument noPatch stored] at counted rows untouched
          rw [aims, List.filterMap_cons_some aimed, ← aims]
          refine ⟨?_, fun table => ?_, fun table notAimed => ?_⟩
          · rw [counted, List.length_cons]
            omega
          · dsimp only
            rw [found, rows table, hasRow, rowsAimedAt, rowsAimedAt, List.filterMap_cons]
            by_cases own : target = table
            · cases isObject : row.fields? <;> simp [own, isObject]
            · simp [own]
          · have differ : target ≠ table := fun same =>
              notAimed row (same ▸ List.mem_cons_self)
            rw [untouched table (fun other inside => notAimed other
              (List.mem_cons_of_mem _ inside)), document?_putDocument, if_neg differ]

/-- Patching that succeeds applies every patch that has a target, and changes the documents of
these targets alone. A target keeps its leaves and gains those that fall into its gaps. -/
theorem applyPatches_fillsGaps {count : Nat} (formed : store.WellFormed)
    (unchained : Unchained settings names names)
    (done : store.applyPatches settings names = (patched, .ok count)) :
    count = (store.aims settings names names).length ∧
      (∀ table, (∀ row, (table, row) ∉ store.aims settings names names) →
        patched.document? table = store.document? table) ∧
      ∀ table document, store.document? table = some document →
        ∃ after, patched.document? table = some after ∧
          document.FillsGaps (rowsAimedAt table (store.aims settings names names)) after := by
  obtain ⟨counted, rows, untouched⟩ := applyPatchesFrom_eq_ok unchained done
  rw [Nat.zero_add] at counted
  refine ⟨counted, untouched, fun table document stored => ?_⟩
  have laidOver : patched.document? table =
      some (document.laidOver (store.patchRowsFrom settings names table names)) := by
    have patchedStore : (store.applyPatchesFrom settings names 0 names).1 = patched :=
      congrArg Prod.fst done
    rw [← patchedStore]
    exact document?_applyPatchesFrom_eq_laidOver stored 0
  rw [rows table] at laidOver
  have rowsFormed : ∀ row ∈ rowsAimedAt table (store.aims settings names names),
      (Value.obj row).WellFormed := by
    rw [← rows table]
    exact formed.patchRowsFrom
  exact ⟨_, laidOver, Fields.fillsGaps_laidOver (formed table document stored) rowsFormed⟩

/-- The names of three tables with the same beginning and of one that stands alone. -/
def kin : List String :=
  ["T$a$b", "!T", "!T$a", "!U"]

/-- A document with two patches for it and one patch that has no target. -/
def profile : Store where
  rowsField := "data"
  documents :=
    [("T$a$b",
      [("meta", .obj [("by", .str "x"), ("tags", .arr [.str "c"])]), ("data", .arr [])]),
     ("!T",
      [("data", .arr
        [.obj [("meta", .obj [("by", .str "y"), ("on", .str "d"), ("tags", .arr [.str "a"])])]])]),
     ("!T$a",
      [("data", .arr
        [.obj [("meta", .obj [("on", .str "e"), ("tags", .arr [.str "b"])]), ("of", .null)]])]),
     ("!U", [("data", .arr [.obj [("meta", .null)]])])]

theorem applyPatches_fillsGaps_profile :
    profile.WellFormed ∧ Unchained {} kin kin ∧
      ∃ patched after,
        profile.applyPatches {} kin = (patched, .ok 2) ∧
          patched.document? "T$a$b" = some after ∧
            (Value.obj after).at? ["meta", "tags"] =
                some (.arr [.str "b", .str "a", .str "c"]) ∧
              (Value.obj after).at? ["meta", "by"] = some (.str "x") ∧
                (Value.obj after).at? ["meta", "on"] = some (.str "d") := by
  have formed : profile.WellFormed := by
    apply wellFormed_of_documents
    simp [profile, Value.WellFormed, Value.WellFormedItems, Value.WellFormedFields,
      Value.WellFormedField, Entries.Distinct, Entries.keys]
  have unchained : Unchained {} kin kin := by decide +kernel
  have done : profile.applyPatches {} kin = ((profile.applyPatches {} kin).1, .ok 2) := by
    decide +kernel
  have rows : rowsAimedAt "T$a$b" (profile.aims {} kin kin) =
      [[("meta", .obj [("by", .str "y"), ("on", .str "d"), ("tags", .arr [.str "a"])])],
       [("meta", .obj [("on", .str "e"), ("tags", .arr [.str "b"])]), ("of", .null)]] := by
    decide +kernel
  obtain ⟨_, _, fills⟩ := applyPatches_fillsGaps formed unchained done
  obtain ⟨after, stored, fillsGaps⟩ := fills "T$a$b" _ rfl
  rw [rows] at fillsGaps
  refine ⟨formed, unchained, _, after, done, stored, ?_, ?_, ?_⟩
  · exact fillsGaps.kept ["meta", "tags"] (.arr [.str "c"]) rfl rfl
  · exact fillsGaps.kept ["meta", "by"] (.str "x") rfl rfl
  · have gap : (Value.obj
          [("meta", .obj [("by", .str "x"), ("tags", .arr [.str "c"])]), ("data", .arr [])]).Gap
        ["meta", "on"] := by
      rw [Value.gap_obj_cons_iff]
      rintro held ⟨⟩
      rw [Value.gap_obj_cons_iff]
      rintro held ⟨⟩
    exact fillsGaps.gained [] _ _ ["meta", "on"] (.str "d") rfl
      ⟨rfl, rfl, gap, List.forall_mem_nil _⟩

/-- A document without tags, under which two patches have some. -/
def untagged : Store where
  rowsField := "data"
  documents :=
    [("T$a$b", [("data", .arr [])]),
     ("!T", [("data", .arr [.obj [("tags", .arr [.str "a"])]])]),
     ("!T$a", [("data", .arr [.obj [("tags", .arr [.str "b"])]])])]

/-- An array that has filled a gap is not left alone: a later patch puts its own items in front. -/
theorem not_gainsAsIs_untagged :
    untagged.WellFormed ∧ Unchained {} kin kin ∧
      ∃ patched document after,
        untagged.applyPatches {} kin = (patched, .ok 2) ∧
          untagged.document? "T$a$b" = some document ∧ patched.document? "T$a$b" = some after ∧
            ¬ Fields.GainsAsIs document (rowsAimedAt "T$a$b" (untagged.aims {} kin kin)) after := by
  have formed : untagged.WellFormed := by
    apply wellFormed_of_documents
    simp [untagged, Value.WellFormed, Value.WellFormedItems, Value.WellFormedFields,
      Value.WellFormedField, Entries.Distinct, Entries.keys]
  refine ⟨formed, by decide +kernel, (untagged.applyPatches {} kin).1, [("data", .arr [])],
    [("tags", .arr [.str "b", .str "a"]), ("data", .arr [])], by decide +kernel, rfl,
    by decide +kernel, ?_⟩
  have rows : rowsAimedAt "T$a$b" (untagged.aims {} kin kin) =
      [[("tags", .arr [.str "a"])], [("tags", .arr [.str "b"])]] := by
    decide +kernel
  have gap : (Value.obj [("data", .arr [])]).Gap ["tags"] := by
    rw [Value.gap_obj_cons_iff]
    rintro held ⟨⟩
  rw [rows]
  intro asIs
  have found := asIs [] _ _ ["tags"] (.arr [.str "a"]) rfl ⟨rfl, rfl, gap, List.forall_mem_nil _⟩
  simp [Entries.get?_cons] at found

end Store

end Tabula
