import Mathlib.Data.List.Basic
import Tabula.Proofs.Run.Outcome
import Tabula.Proofs.Run.Patching

/-!
# The violations of a workbook

A workbook breaks the rules by repeated table names, by faulty keys and by patch tables
with several rows. A run succeeds exactly when there is no violation, and otherwise fails
with the first one in that order.
-/

namespace Tabula

/-- The names that stand behind an equal name, in order. -/
def repeats (names : List String) : List String :=
  (names.zipIdx.filter fun entry => entry.1 ∈ names.take entry.2).map Prod.fst

theorem firstRepeated?_eq_find? (before names : List String) :
    firstRepeated? before names =
      ((names.zipIdx before.length).find?
        fun entry => entry.1 ∈ (before.reverse ++ names).take entry.2).map Prod.fst := by
  induction names generalizing before with
  | nil => rfl
  | cons name rest ih =>
      rw [firstRepeated?, List.zipIdx_cons, List.find?_cons]
      have front : (before.reverse ++ name :: rest).take before.length = before.reverse :=
        List.take_left' List.length_reverse
      by_cases repeated : name ∈ before
      · simp [repeated, front]
      · rw [if_neg repeated, ih]
        simp [repeated, front]

theorem firstRepeated?_eq_head?_repeats (names : List String) :
    firstRepeated? [] names = (repeats names).head? := by
  rw [firstRepeated?_eq_find?, repeats, List.head?_map, List.head?_filter]
  rfl

namespace Workbook

variable {settings : Settings} {workbook : Workbook}

/-- The faults of the keys of a workbook, in table, row and column order. -/
def keyFaults (settings : Settings) (workbook : Workbook) : List Fault :=
  workbook.tables.flatMap fun table => table.rows.flatMap fun row =>
    (Entries.keys row).filterMap (Column.fault? settings.delimiters workbook.names table.name)

/-- All violations of a workbook: first the repeated names, then the faults of the keys,
then the patch tables with several rows. -/
def violations (settings : Settings) (workbook : Workbook) : List Fault :=
  (repeats workbook.names).map .repeatedTable ++ workbook.keyFaults settings ++
    workbook.tables.filterMap (Table.patchFault? settings)

/-- The rules for a workbook that can be resolved. -/
structure Accepted (settings : Settings) (workbook : Workbook) : Prop where
  /-- Table names are unique. -/
  names : workbook.names.Nodup
  /-- Every key has a meaning, and every link leads to a table of the workbook. -/
  keys : ∀ table ∈ workbook.tables, ∀ row ∈ table.rows, ∀ key ∈ Entries.keys row,
    ∃ column, Column.ofKey settings.delimiters key = .ok column ∧
      ∀ link, column = .link link → link.target ∈ workbook.names
  /-- Every patch table has at most one row. -/
  patches : ∀ table ∈ workbook.tables, TableName.kind settings table.name = .patch →
    table.rows.length ≤ 1

end Workbook

theorem Table.patchFault?_eq_none_iff {settings : Settings} {table : Table} :
    table.patchFault? settings = none ↔
      (TableName.kind settings table.name = .patch → table.rows.length ≤ 1) := by
  unfold patchFault?
  split
  · rename_i several
    simp only [reduceCtorEq, false_iff]
    intro atMostOne
    have := atMostOne several.1
    omega
  · rename_i notSeveral
    simp only [true_iff]
    intro isPatch
    by_contra several
    exact notSeveral ⟨isPatch, by omega⟩

namespace Workbook

variable {settings : Settings} {workbook : Workbook}

theorem keyFault?_eq_head?_keyFaults :
    workbook.keyFault? settings = (workbook.keyFaults settings).head? := by
  rw [keyFaults, List.head?_flatMap, keyFault?]
  apply congrArg (List.findSome? · workbook.tables)
  funext table
  rw [List.head?_flatMap, Table.fault?]
  apply congrArg (List.findSome? · table.rows)
  funext row
  rw [List.head?_filterMap, Fields.fault?]

/-- There is no violation exactly when all the rules hold. -/
theorem violations_eq_nil_iff : workbook.violations settings = [] ↔ workbook.Accepted settings := by
  have noRepeats : (repeats workbook.names).map Fault.repeatedTable = [] ↔
      workbook.names.Nodup := by
    rw [List.map_eq_nil_iff, ← List.head?_eq_none_iff, ← firstRepeated?_eq_head?_repeats,
      firstRepeated?_eq_none_iff]
    simp
  have noKeyFaults : workbook.keyFaults settings = [] ↔
      ∀ table ∈ workbook.tables, ∀ row ∈ table.rows, ∀ key ∈ Entries.keys row,
        ∃ column, Column.ofKey settings.delimiters key = .ok column ∧
          ∀ link, column = .link link → link.target ∈ workbook.names := by
    simp only [keyFaults, List.flatMap_eq_nil_iff, List.filterMap_eq_nil_iff,
      Column.fault?_eq_none_iff]
  have noPatchFaults : workbook.tables.filterMap (Table.patchFault? settings) = [] ↔
      ∀ table ∈ workbook.tables, TableName.kind settings table.name = .patch →
        table.rows.length ≤ 1 := by
    simp only [List.filterMap_eq_nil_iff, Table.patchFault?_eq_none_iff]
  rw [violations, List.append_eq_nil_iff, List.append_eq_nil_iff, noRepeats, noKeyFaults,
    noPatchFaults]
  constructor
  · rintro ⟨⟨names, keys⟩, patches⟩
    exact ⟨names, keys, patches⟩
  · rintro ⟨names, keys, patches⟩
    exact ⟨⟨names, keys⟩, patches⟩

/-- While no patch is the target of a patch, a run fails with the first violation. -/
theorem exists_publish_eq_okUnless
    (noPatchTarget : ∀ table ∈ workbook.tables, ∀ target,
      TableName.isPatchTarget settings.delimiters table.name target = true →
        TableName.kind settings target ≠ .patch) :
    ∃ publication,
      workbook.publish settings = okUnless (workbook.violations settings).head? publication := by
  rw [violations, List.head?_append, List.head?_append, List.head?_map,
    ← firstRepeated?_eq_head?_repeats, ← keyFault?_eq_head?_keyFaults, List.head?_filterMap,
    publish_eq]
  let nothing : Publication := { artifacts := [], tables := 0, settlement := {}, patches := 0 }
  cases unique : firstRepeated? [] workbook.names with
  | some name => exact ⟨nothing, rfl⟩
  | none =>
      cases faultless : workbook.keyFault? settings with
      | some fault => exact ⟨nothing, rfl⟩
      | none =>
          have stored : ∀ table ∈ workbook.tables, TableName.kind settings table.name = .patch →
              ∃ rows, (workbook.settledStore settings).rows? table.name = some rows ∧
                rows.length = table.rows.length := by
            intro table tableMem _
            refine ⟨_, rows?_settledStore (firstRepeated?_eq_none_iff.mp unique).1 tableMem, ?_⟩
            rw [List.length_map]
          have counts : ∃ patches,
              ((workbook.settledStore settings).applyPatches settings workbook.names).2 =
                okUnless (workbook.tables.findSome? (Table.patchFault? settings)) patches :=
            Store.exists_applyPatchesFrom_eq stored noPatchTarget 0
          obtain ⟨patches, counted⟩ := counts
          cases outcome : (workbook.settledStore settings).applyPatches settings workbook.names with
          | mk patched result =>
              rw [outcome] at counted
              dsimp only at counted
              subst counted
              cases workbook.tables.findSome? (Table.patchFault? settings) with
              | some fault => exact ⟨nothing, rfl⟩
              | none => exact ⟨_, rfl⟩

/-- A run succeeds exactly when all the rules hold, and otherwise fails with the first
violation. -/
theorem publish_first_violation (settings : Settings) (workbook : Workbook)
    (markerDiffers : settings.delimiters.patch ≠ settings.delimiters.tableOption)
    (oneMarker : ∀ table ∈ workbook.tables,
      ¬ [settings.delimiters.patch, settings.delimiters.patch] <+: table.name.toList) :
    ((∃ publication, workbook.publish settings = .ok publication) ↔
        workbook.Accepted settings) ∧
      ∀ fault, workbook.publish settings = .error fault ↔
        (workbook.violations settings).head? = some fault := by
  have noPatchTarget : ∀ table ∈ workbook.tables, ∀ target,
      TableName.isPatchTarget settings.delimiters table.name target = true →
        TableName.kind settings target ≠ .patch :=
    fun table tableMem _ isTarget =>
      TableName.kind_ne_patch_of_isPatchTarget markerDiffers (oneMarker table tableMem) isTarget
  obtain ⟨publication, outcome⟩ := exists_publish_eq_okUnless noPatchTarget
  rw [outcome]
  constructor
  · rw [← violations_eq_nil_iff, ← List.head?_eq_none_iff]
    constructor
    · rintro ⟨result, succeeded⟩
      exact (okUnless_eq_ok_iff.mp succeeded).1
    · intro noViolation
      exact ⟨publication, okUnless_eq_ok_iff.mpr ⟨noViolation, rfl⟩⟩
  · intro fault
    exact okUnless_eq_error_iff

/-- A workbook with two faulty keys and a patch table with two rows. -/
def threefoldFaulty : Workbook :=
  { tables :=
      [{ name := "!B", rows := [[("x", .null)], [("y", .null)]] },
       { name := "A"
         rows :=
           [[("a.b", .str "1"), ("a", .str "2"), ("l:B$ref=id", .str "x")],
            [("a.b", .str "1"), ("m:B", .str "x"), ("n:C$ref=id", .str "x")]] },
       { name := "B", rows := [[("id", .str "x")]] }] }

set_option maxRecDepth 4000 in
theorem publish_first_violation_threefoldFaulty :
    threefoldFaulty.violations {} =
        [.noMatchOption "A" "m:B", .unknownTarget "A" "n:C$ref=id" "C",
          .severalPatchRows "!B" 2] ∧
      threefoldFaulty.publish {} = .error (.noMatchOption "A" "m:B") ∧
      ¬ threefoldFaulty.Accepted {} := by
  have violated : threefoldFaulty.violations {} =
      [.noMatchOption "A" "m:B", .unknownTarget "A" "n:C$ref=id" "C",
        .severalPatchRows "!B" 2] := by rfl
  have decided := publish_first_violation {} threefoldFaulty (by decide) (by decide)
  have failed : threefoldFaulty.publish {} = .error (.noMatchOption "A" "m:B") :=
    (decided.2 _).mpr (by rw [violated]; rfl)
  refine ⟨violated, failed, fun accepted => ?_⟩
  obtain ⟨publication, succeeded⟩ := decided.1.mpr accepted
  rw [failed] at succeeded
  cases succeeded

end Workbook

end Tabula
