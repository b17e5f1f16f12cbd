import Tabula.Proofs.Flattening
import Tabula.Proofs.Run.PatchRows
import Tabula.Proofs.Value.Grouping

/-!
# Unfolded rows and patched documents in groups

Unfolding the paths of a row lays one branch after another over its plain fields, and patching
lays a document over one row after another. Where these objects have one shape, they may be laid
over each other in any groups, with the same outcome.
-/

namespace Tabula

namespace Fields

/-- The object that holds a value at a path and nothing else. -/
def alongPath : List String → Value → Fields
  | [], _ => []
  | root :: rest, value => [(root, Value.nested rest value)]

/-- What a row is put together from: the fields that are no paths, and a branch for every path,
in column order. -/
def parts (d : Delimiters) (row : Fields) : List Fields :=
  (row.filter fun entry => !Column.isPath d entry.1) ::
    (row.filter fun entry => Column.isPath d entry.1).map fun entry =>
      alongPath (Column.pathOf d entry.1) entry.2

/-- A record some of whose paths have been unfolded: `settled` are its fields that are no paths, and
`todo` are the paths that are left. -/
structure PartlyUnfolded (d : Delimiters) (settled todo record : Fields) : Prop where
  distinct : Entries.Distinct record
  settled : (record.filter fun entry => !Column.isPath d entry.1) = settled
  todo : (record.filter fun entry => Column.isPath d entry.1) = todo

section Unfolding

variable {d : Delimiters} {settled todo record row : Fields} {key : String} {value : Value}

theorem PartlyUnfolded.mem (partly : PartlyUnfolded d settled ((key, value) :: todo) record) :
    (key, value) ∈ record ∧ Column.isPath d key = true := by
  have entryMem : (key, value) ∈ record.filter fun entry => Column.isPath d entry.1 := by
    rw [partly.todo]
    exact List.mem_cons_self
  exact List.mem_filter.mp entryMem

/-- Without its next path a record has one path less. -/
theorem PartlyUnfolded.erase (partly : PartlyUnfolded d settled ((key, value) :: todo) record) :
    PartlyUnfolded d settled todo (Entries.erase record key) := by
  have path := partly.mem.2
  obtain ⟨distinct, isSettled, isTodo⟩ := partly
  constructor
  · exact Entries.distinct_erase distinct key
  · have notSettled : key ∉ Entries.keys settled := by
      rw [← isSettled, Entries.keys_filter_key (fun name => !Column.isPath d name),
        List.mem_filter]
      simp [path]
    rw [← Entries.erase_filter_key (fun name => !Column.isPath d name), isSettled,
      Entries.erase_of_not_mem notSettled]
  · have paths : (Entries.keys ((key, value) :: todo)).Nodup := by
      rw [← isTodo, Entries.keys_filter_key]
      exact List.Pairwise.filter _ distinct
    rw [← Entries.erase_filter_key, isTodo, Entries.erase_cons_self (List.nodup_cons.mp paths).1]

/-- Unfolding a path lays its branch over the fields that are no paths. -/
theorem PartlyUnfolded.step (partly : PartlyUnfolded d settled ((key, value) :: todo) record) :
    PartlyUnfolded d (overlay settled (alongPath (Column.pathOf d key) value)) todo
      (unfoldColumn d record key) := by
  obtain ⟨inRecord, path⟩ := partly.mem
  obtain ⟨erasedDistinct, erasedSettled, erasedTodo⟩ := partly.erase
  have found := (Entries.mem_iff_get?_eq_some partly.distinct).mp inRecord
  obtain ⟨root, rest, read, rootFree⟩ := Column.exists_pathOf_eq_cons path
  have rootNoPath : Column.isPath d root = false := by
    rw [← Bool.not_eq_true]
    exact fun rootPath => rootFree (Column.mem_of_isPath rootPath)
  have unfolds : unfoldColumn d record key = Entries.put (Entries.erase record key) root
      (branch (Entries.erase record key) root rest value) := by
    rw [unfoldColumn, read]
    exact unfold_cons_of_get?_eq_some found root rest
  -- The root is no path, so it holds the same in the record and among the settled fields.
  have sameBranch : branch (Entries.erase record key) root rest value =
      branch settled root rest value := by
    have sameField := Entries.get?_filter_key (fun name => !Column.isPath d name)
      (Entries.erase record key) (by simpa using rootNoPath : (!Column.isPath d root) = true)
    rw [erasedSettled] at sameField
    rw [branch, branch, sameField]
  have overlaid := Value.obj.inj (Value.overlay_obj_nested settled root rest value)
  rw [unfolds, sameBranch]
  constructor
  · exact Entries.distinct_put erasedDistinct root _
  · rw [Entries.filter_put_of_kept (fun name => !Column.isPath d name) _ (by simp [rootNoPath]),
      erasedSettled, Column.pathOf_of_path read]
    exact overlaid.symm
  · rw [Entries.filter_put_of_dropped _ _ rootNoPath, erasedTodo]

/-- Unfolding all paths lays their branches over the other fields, one after another. -/
theorem PartlyUnfolded.unfoldColumns (partly : PartlyUnfolded d settled todo record) :
    PartlyUnfolded d
      ((todo.map fun entry => alongPath (Column.pathOf d entry.1) entry.2).foldl overlay settled) []
      (Fields.unfoldColumns d (Entries.keys todo) record) := by
  induction todo generalizing settled record with
  | nil => exact partly
  | cons entry rest ih => exact ih partly.step

theorem unfolded_eq_foldl (distinct : Entries.Distinct row) :
    unfolded d row = (parts d row).foldl overlay [] := by
  have start : PartlyUnfolded d _ _ row := ⟨distinct, rfl, rfl⟩
  have done := start.unfoldColumns
  rw [Entries.keys_filter_key, unfoldColumns_filter_isPath, ← unfolded] at done
  have noPathLeft : ((unfolded d row).filter fun entry => !Column.isPath d entry.1) =
      unfolded d row := by
    apply List.filter_eq_self.mpr
    intro entry entryMem
    have noPath := List.filter_eq_nil_iff.mp done.todo entry entryMem
    simpa using noPath
  have bareDistinct : Entries.Distinct (row.filter fun entry => !Column.isPath d entry.1) := by
    rw [Entries.Distinct, Entries.keys_filter_key (fun name => !Column.isPath d name)]
    exact List.Pairwise.filter _ distinct
  rw [parts, List.foldl_cons, overlay_nil_left bareDistinct, ← done.settled, noPathLeft]

end Unfolding

/-- Fields that come out of the given objects in whatever groups these are laid over each other, if
they have one shape. -/
def MergedFrom (members : List Fields) (fields : Fields) : Prop :=
  Fit members → ∀ grouping : Grouping, grouping.members = members → grouping.merged = fields

end Fields

/-- An object that is laid over rows, one after another, comes out of a grouping. -/
theorem Grouping.exists_merged_eq_laidOver (grouping : Grouping) (rows : List Fields) :
    ∃ patched : Grouping, patched.members = rows.reverse ++ grouping.members ∧
      patched.merged = Fields.laidOver grouping.merged rows := by
  induction rows generalizing grouping with
  | nil => exact ⟨grouping, rfl, rfl⟩
  | cons row rest ih =>
      obtain ⟨patched, members, merged⟩ := ih (.join (.single row) grouping)
      refine ⟨patched, ?_, merged⟩
      rw [members, List.reverse_cons, List.append_assoc]
      rfl

theorem Fields.mergedFrom_merged (grouping : Grouping) :
    MergedFrom grouping.members grouping.merged :=
  fun fit _ same => Grouping.merged_eq_of_members_eq same (same.symm ▸ fit)

theorem Fields.mergedFrom_unfolded (d : Delimiters) {row : Fields}
    (distinct : Entries.Distinct row) : MergedFrom (parts d row) (unfolded d row) := by
  intro fit grouping same
  rw [unfolded_eq_foldl distinct, ← same, grouping.merged_eq_foldl (same.symm ▸ fit)]

theorem Fields.mergedFrom_laidOver (document : Fields) (rows : List Fields) :
    MergedFrom (rows.reverse ++ [document]) (laidOver document rows) := by
  obtain ⟨patched, members, merged⟩ :=
    (Grouping.single document).exists_merged_eq_laidOver rows
  have patchedMerged := mergedFrom_merged patched
  rw [members, merged] at patchedMerged
  exact patchedMerged

/-- Overlays of objects of one shape may be grouped in any way. They are associative, the object
without fields is neutral, and the shape is kept. So the plain fields of a row and the branches of
its paths may be laid over each other in any groups, and so may a document and the rows of its
patches. -/
theorem Fields.overlay_regroups {first second third : Fields} (fit : Fit [first, second, third]) :
    overlay (overlay first second) third = overlay first (overlay second third) ∧
      (overlay first [] = first ∧ overlay [] first = first) ∧
      (Value.obj (overlay first second)).Compatible (.obj third) ∧
      (∀ grouping : Grouping, MergedFrom grouping.members grouping.merged) ∧
      (∀ (settings : Settings) (known : List String) (store : Store) (table : String)
        (backlog : Backlog) (row : Fields), Entries.Distinct row →
          (∀ key ∈ Entries.keys row, ∃ column,
            Column.ofKey settings.delimiters key = .ok column) →
          links settings.delimiters row = [] →
            ∃ record, Progress.resolveRow settings known store table backlog row =
                .ok (record, backlog) ∧
              MergedFrom (parts settings.delimiters row) record) ∧
      ∀ (settings : Settings) (names : List String) (store : Store) (table : String)
        (document : Fields), store.document? table = some document →
          ∃ patched, (store.applyPatches settings names).1.document? table = some patched ∧
            MergedFrom ((store.patchRowsFrom settings names table names).reverse ++ [document])
              patched := by
  have formed := fit.formed first List.mem_cons_self
  obtain ⟨distinct, _⟩ := Value.wellFormed_obj_iff.mp formed
  have shape := (fit.overlay []).compatible
  refine ⟨fit.overlay_assoc, ⟨rfl, overlay_nil_left distinct⟩, ?_, mergedFrom_merged, ?_, ?_⟩
  · exact (List.pairwise_cons.mp shape).1 third List.mem_cons_self
  · intro settings known store table backlog row rowDistinct meaning noLinks
    exact ⟨_, Progress.resolveRow_of_links_eq_nil meaning noLinks, mergedFrom_unfolded _ rowDistinct⟩
  · intro settings names store table document stored
    exact ⟨_, Store.document?_applyPatchesFrom_eq_laidOver stored 0, mergedFrom_laidOver _ _⟩

/-- Three objects of one shape. Any two of them share fields that the third one does not have. -/
def layers : List Fields :=
  [[("meta", .obj [("by", .str "x"), ("tags", .arr [.str "p"])]), ("id", .str "1")],
    [("meta", .obj [("tags", .arr [.str "q"]), ("on", .null)]), ("more", .arr [.bool true])],
    [("more", .arr []), ("id", .null), ("meta", .obj [("on", .str "d"), ("by", .str "y")])]]

theorem Fields.overlay_regroups_layers :
    Fit layers ∧ ∃ first second third, layers = [first, second, third] ∧
      overlay first (overlay second third) =
          [("meta", .obj [("by", .str "y"), ("tags", .arr [.str "p", .str "q"]), ("on", .str "d")]),
            ("id", .null), ("more", .arr [.bool true])] ∧
        overlay (overlay first second) third = overlay first (overlay second third) ∧
          (Value.obj (overlay first second)).Compatible (.obj third) := by
  have fit : Fit layers := by
    constructor
    · simp [layers, Value.WellFormed, Value.WellFormedFields, Value.WellFormedField,
        Value.WellFormedItems, Entries.Distinct, Entries.keys]
    · have lower : (Value.obj [("by", .str "x"), ("tags", .arr [.str "p"])]).Compatible
          (.obj [("tags", .arr [.str "q"]), ("on", .null)]) :=
        .of_fields (by simp [Entries.get?_cons, Value.Compatible.arrays])
      have outer : (Value.obj [("by", .str "x"), ("tags", .arr [.str "p"])]).Compatible
          (.obj [("on", .str "d"), ("by", .str "y")]) :=
        .of_fields (by simpa [Entries.get?_cons] using Value.Compatible.scalars rfl rfl)
      have upper : (Value.obj [("tags", .arr [.str "q"]), ("on", .null)]).Compatible
          (.obj [("on", .str "d"), ("by", .str "y")]) :=
        .of_fields (by simpa [Entries.get?_cons] using Value.Compatible.scalars rfl rfl)
      simp only [layers, List.pairwise_cons, List.forall_mem_cons]
      refine ⟨⟨.of_fields ?_, .of_fields ?_, by simp⟩, ⟨.of_fields ?_, by simp⟩, by simp⟩
      · simp [Entries.get?_cons, lower]
      · simpa [Entries.get?_cons, outer] using Value.Compatible.scalars rfl rfl
      · simp [Entries.get?_cons, upper, Value.Compatible.arrays]
  obtain ⟨assoc, _, shape, _⟩ := overlay_regroups fit
  exact ⟨fit, _, _, _, rfl, by decide, assoc, shape⟩

end Tabula
