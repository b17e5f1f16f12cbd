import Mathlib.Data.List.Nodup
import Tabula.Proofs.Row.Unfolding
import Tabula.Proofs.Value.Leaves

/-!
# Flattening a resolved row

A row of plain columns and paths can be read off its resolved form: every cell is a leaf
at its path, unless a column behind it claims a place above or below. Plain columns count
as standing in front of all paths, since they are in the record before the first path is
unfolded. So nothing is lost when no path continues another.
-/

namespace Tabula

namespace Column

/-- The path of a column: the segments of a path key, and any other key by itself. -/
def pathOf (d : Delimiters) (key : String) : List String :=
  match of? d key with
  | some (.path segments) => segments
  | _ => [key]

section PathOf

variable {d : Delimiters} {key : String}

theorem isPath_eq_true_iff :
    isPath d key = true ↔ ∃ segments, ofKey d key = .ok (.path segments) := by
  rw [isPath]
  constructor
  · intro isPath
    split at isPath
    · rename_i segments read
      exact ⟨segments, of?_eq_some_iff.mp read⟩
    · cases isPath
  · rintro ⟨segments, read⟩
    rw [of?_eq_some_iff.mpr read]

theorem pathOf_of_path {segments : List String} (read : ofKey d key = .ok (.path segments)) :
    pathOf d key = segments := by
  rw [pathOf, of?_eq_some_iff.mpr read]

theorem pathOf_of_isPath_eq_false (noPath : isPath d key = false) : pathOf d key = [key] := by
  unfold pathOf
  split
  · rename_i segments read
    rw [isPath_eq_true_iff.mpr ⟨segments, of?_eq_some_iff.mp read⟩] at noPath
    cases noPath
  · rfl

/-- Joining the path of a column by the delimiter gives its key back. -/
theorem intercalate_pathOf (d : Delimiters) (key : String) :
    [d.path].intercalate ((pathOf d key).map String.toList) = key.toList := by
  cases path : isPath d key with
  | true =>
      obtain ⟨segments, read⟩ := isPath_eq_true_iff.mp path
      obtain ⟨_, rfl⟩ := ofKey_eq_path_iff.mp read
      rw [pathOf_of_path read, List.map_map]
      have asChars : String.toList ∘ String.ofList = id := by
        funext text
        exact String.toList_ofList
      rw [asChars, List.map_id, List.intercalate_splitOn]
  | false =>
      rw [pathOf_of_isPath_eq_false path]
      simp

theorem pathOf_injective (d : Delimiters) : Function.Injective (pathOf d) := by
  intro first second same
  rw [← String.toList_inj, ← intercalate_pathOf d first, same, intercalate_pathOf]

/-- A path starts with a name that is free of the path delimiter. -/
theorem exists_pathOf_eq_cons (path : isPath d key = true) :
    ∃ root rest, ofKey d key = .ok (.path (root :: rest)) ∧ d.path ∉ root.toList := by
  obtain ⟨segments, read⟩ := isPath_eq_true_iff.mp path
  cases segments with
  | nil => exact absurd rfl (segments_ne_nil read)
  | cons root rest =>
      refine ⟨root, rest, read, ?_⟩
      obtain ⟨_, pieces⟩ := ofKey_eq_path_iff.mp read
      have rootMem : root ∈ (key.toList.splitOn d.path).map String.ofList := by
        rw [pieces]
        exact List.mem_cons_self
      obtain ⟨piece, pieceMem, rfl⟩ := List.mem_map.mp rootMem
      rw [String.toList_ofList]
      exact Text.not_mem_of_mem_splitOn pieceMem

theorem mem_of_isPath (path : isPath d key = true) : d.path ∈ key.toList := by
  obtain ⟨segments, read⟩ := isPath_eq_true_iff.mp path
  exact (ofKey_eq_path_iff.mp read).1

end PathOf

end Column

namespace Leaf

/-- One of two paths properly continues the other. -/
def Obstructs (first second : List String) : Prop :=
  first ≠ second ∧ Meets first second

instance (first second : List String) : Decidable (Obstructs first second) :=
  inferInstanceAs (Decidable (_ ∧ _))

/-- The leaves that no later one obstructs. -/
def surviving : List Leaf → List Leaf
  | [] => []
  | leaf :: later =>
      if ∃ other ∈ later, Obstructs other.1 leaf.1 then surviving later
      else leaf :: surviving later

theorem surviving_concat (leaves : List Leaf) (last : Leaf) :
    surviving (leaves ++ [last]) =
      (surviving leaves).filter (fun leaf => ¬ Obstructs last.1 leaf.1) ++ [last] := by
  induction leaves with
  | nil => simp [surviving]
  | cons leaf later ih =>
      rw [List.cons_append, surviving, surviving, ih]
      by_cases hidden : ∃ other ∈ later, Obstructs other.1 leaf.1
      · have stillHidden : ∃ other ∈ later ++ [last], Obstructs other.1 leaf.1 := by
          obtain ⟨other, otherMem, obstructs⟩ := hidden
          exact ⟨other, List.mem_append_left _ otherMem, obstructs⟩
        rw [if_pos hidden, if_pos stillHidden]
      · rw [if_neg hidden, List.filter_cons]
        by_cases obstructs : Obstructs last.1 leaf.1
        · have nowHidden : ∃ other ∈ later ++ [last], Obstructs other.1 leaf.1 :=
            ⟨last, by simp, obstructs⟩
          rw [if_pos nowHidden, if_neg (by simpa using obstructs)]
        · have stillSeen : ¬ ∃ other ∈ later ++ [last], Obstructs other.1 leaf.1 := by
            rintro ⟨other, otherMem, otherObstructs⟩
            rcases List.mem_append.mp otherMem with before | here
            · exact hidden ⟨other, before, otherObstructs⟩
            · rw [List.mem_singleton.mp here] at otherObstructs
              exact obstructs otherObstructs
          rw [if_neg stillSeen, if_pos (by simpa using obstructs), List.cons_append]

theorem mem_of_mem_surviving {leaves : List Leaf} {leaf : Leaf}
    (member : leaf ∈ surviving leaves) : leaf ∈ leaves := by
  induction leaves with
  | nil => cases member
  | cons first later ih =>
      rw [surviving] at member
      split at member
      · exact List.mem_cons_of_mem first (ih member)
      · rcases List.mem_cons.mp member with rfl | behind
        · exact List.mem_cons_self
        · exact List.mem_cons_of_mem first (ih behind)

/-- Where no path continues another, all leaves survive. -/
theorem surviving_eq_self {leaves : List Leaf}
    (apart : ∀ leaf ∈ leaves, ∀ other ∈ leaves, ¬ Obstructs other.1 leaf.1) :
    surviving leaves = leaves := by
  induction leaves with
  | nil => rfl
  | cons leaf later ih =>
      have seen : ¬ ∃ other ∈ later, Obstructs other.1 leaf.1 := by
        rintro ⟨other, otherMem, obstructs⟩
        exact apart leaf List.mem_cons_self other (List.mem_cons_of_mem leaf otherMem) obstructs
      rw [surviving, if_neg seen, ih]
      intro first firstMem second secondMem
      exact apart first (List.mem_cons_of_mem leaf firstMem) second
        (List.mem_cons_of_mem leaf secondMem)

end Leaf

namespace Fields

/-- A cell of a row at the path of its column. -/
def cell (d : Delimiters) (entry : String × Value) : Leaf :=
  (Column.pathOf d entry.1, entry.2)

/-- The cells of a row at their paths: those of the plain columns first, and then those of
the paths, in column order. -/
def cells (d : Delimiters) (row : Fields) : List Leaf :=
  (row.filter fun entry => !Column.isPath d entry.1).map (cell d) ++
    (row.filter fun entry => Column.isPath d entry.1).map (cell d)

theorem cells_perm (d : Delimiters) (row : Fields) :
    (cells d row).Perm (row.map (cell d)) := by
  rw [cells, ← List.map_append]
  apply List.Perm.map
  have split := List.filter_append_perm (fun entry => !Column.isPath d entry.1) row
  simpa using split

section Unfolding

variable {d : Delimiters} {record : Fields} {key : String} {value : Value}

/-- A field that is a leaf by itself can be looked up. -/
theorem get?_of_mem_leaves (distinct : Entries.Distinct record)
    (leafMem : ([key], value) ∈ leaves record) : Entries.get? record key = some value := by
  obtain ⟨name, content, fieldMem, below, belowMem, same⟩ := mem_leaves.mp leafMem
  obtain ⟨path, leafValue⟩ := below
  rw [Leaf.under, Prod.mk.injEq, List.cons.injEq] at same
  obtain ⟨⟨rfl, rfl⟩, rfl⟩ := same
  have contentEq : content = leafValue := by
    cases isObject : content.fields? with
    | none =>
        rw [Value.leaves_of_fields?_eq_none isObject, List.mem_singleton] at belowMem
        exact (Prod.mk.inj belowMem).2.symm
    | some fields =>
        rw [Value.eq_obj_of_fields?_eq_some isObject] at belowMem
        obtain ⟨_, _, _, _, _, impossible⟩ := mem_leaves.mp belowMem
        cases impossible
  rw [← contentEq]
  exact (Entries.mem_iff_get?_eq_some distinct).mp fieldMem

/-- The cells of a row under their keys. -/
def bareCells (row : Fields) : List Leaf :=
  row.map fun entry => ([entry.1], entry.2)

/-- A record some of whose cells have been unfolded: the leaves `settled` are at their places
as far as they survive, and the path cells `todo` still stand under their keys. -/
structure Underway (d : Delimiters) (settled : List Leaf) (todo record : Fields) : Prop where
  formed : (Value.obj record).WellFormed
  leaves : (leaves record).Perm (Leaf.surviving settled ++ bareCells todo)
  nodup : (settled.map Prod.fst ++ todo.map fun entry => Column.pathOf d entry.1).Nodup
  starts : ∀ leaf ∈ settled, ∃ root rest, leaf.1 = root :: rest ∧ d.path ∉ root.toList

/-- What is left of a record without the next path cell: the leaves that have settled, and
the cells behind it. -/
theorem Underway.leaves_erase {settled : List Leaf} {todo : Fields}
    (underway : Underway d settled ((key, value) :: todo) record)
    (path : Column.isPath d key = true) :
    (Fields.leaves (Entries.erase record key)).Perm
      (Leaf.surviving settled ++ bareCells todo) := by
  have settledStay : ∀ leaf ∈ Leaf.surviving settled, leaf.1.head? ≠ some key := by
    intro leaf leafMem starts
    obtain ⟨root, rest, leafEq, free⟩ :=
      underway.starts leaf (Leaf.mem_of_mem_surviving leafMem)
    rw [leafEq, List.head?_cons, Option.some.injEq] at starts
    exact free (starts ▸ Column.mem_of_isPath path)
  have todoStay : ∀ leaf ∈ bareCells todo, leaf.1.head? ≠ some key := by
    intro leaf leafMem starts
    obtain ⟨entry, entryMem, rfl⟩ := List.mem_map.mp leafMem
    rw [List.head?_cons, Option.some.injEq] at starts
    have todoNodup := (List.nodup_append.mp underway.nodup).2.1
    apply (List.nodup_cons.mp todoNodup).1
    exact List.mem_map.mpr ⟨entry, entryMem, by rw [starts]⟩
  have stay : ∀ leaf ∈ Leaf.surviving settled ++ bareCells todo,
      (decide (leaf.1.head? ≠ some key)) = true := by
    intro leaf leafMem
    rw [decide_eq_true_iff]
    exact (List.mem_append.mp leafMem).elim (settledStay leaf) (todoStay leaf)
  have withoutKey : (Leaf.surviving settled ++ bareCells ((key, value) :: todo)).filter
      (fun leaf => leaf.1.head? ≠ some key) = Leaf.surviving settled ++ bareCells todo := by
    rw [bareCells, List.map_cons, ← bareCells, List.filter_append, List.filter_cons,
      if_neg (by simp), ← List.filter_append]
    exact List.filter_eq_self.mpr stay
  rw [Fields.leaves_erase, ← withoutKey]
  exact underway.leaves.filter _

/-- The next path cell has a path that no leaf has had so far. -/
theorem Underway.not_mem_settled {settled : List Leaf} {todo : Fields}
    (underway : Underway d settled ((key, value) :: todo) record) :
    Column.pathOf d key ∉ settled.map Prod.fst := fun there =>
  (List.nodup_append.mp underway.nodup).2.2 _ there _ (by simp) rfl

/-- The leaves that stand where the next path cell goes are the ones that it obstructs. -/
theorem Underway.besides_surviving {settled : List Leaf} {todo : Fields}
    (underway : Underway d settled ((key, value) :: todo) record) :
    Leaf.besides (Column.pathOf d key) (Leaf.surviving settled) =
      (Leaf.surviving settled).filter
        fun leaf => ¬ Leaf.Obstructs (Column.pathOf d key) leaf.1 := by
  apply List.filter_congr
  intro leaf leafMem
  have differ : Column.pathOf d key ≠ leaf.1 := fun same =>
    underway.not_mem_settled (same ▸ List.mem_map_of_mem (Leaf.mem_of_mem_surviving leafMem))
  rw [decide_eq_decide, Leaf.Obstructs, and_iff_right differ, Leaf.Meets, Leaf.Meets, or_comm]

/-- No path cell stands where a path leads, for its key holds the delimiter. -/
theorem besides_bareCells {todo : Fields}
    (paths : ∀ entry ∈ todo, Column.isPath d entry.1 = true) {root : String}
    (rootFree : d.path ∉ root.toList) (rest : List String) :
    Leaf.besides (root :: rest) (bareCells todo) = bareCells todo := by
  apply List.filter_eq_self.mpr
  intro leaf leafMem
  obtain ⟨entry, entryMem, rfl⟩ := List.mem_map.mp leafMem
  rw [decide_eq_true_iff]
  intro meets
  obtain ⟨same, _⟩ := Leaf.meets_cons.mp meets
  exact rootFree (same ▸ Column.mem_of_isPath (paths entry entryMem))

/-- Unfolding one path cell settles it and covers what it obstructs. -/
theorem Underway.step {settled : List Leaf} {todo : Fields}
    (underway : Underway d settled ((key, value) :: todo) record)
    (path : Column.isPath d key = true) (noObject : value.fields? = none)
    (paths : ∀ entry ∈ todo, Column.isPath d entry.1 = true) :
    Underway d (settled ++ [cell d (key, value)]) todo (unfoldColumn d record key) := by
  obtain ⟨distinct, _⟩ := Value.wellFormed_obj_iff.mp underway.formed
  have found : Entries.get? record key = some value := by
    apply get?_of_mem_leaves distinct
    apply underway.leaves.mem_iff.mpr
    simp [bareCells]
  obtain ⟨root, rest, read, rootFree⟩ := Column.exists_pathOf_eq_cons path
  have pathEq := Column.pathOf_of_path read
  have unfolds : unfoldColumn d record key = Entries.put (Entries.erase record key) root
      (branch (Entries.erase record key) root rest value) := by
    rw [unfoldColumn, read]
    exact unfold_cons_of_get?_eq_some found root rest
  have formed := Value.wellFormed_erase underway.formed key
  have valueFormed := Value.wellFormed_of_get?_eq_some underway.formed found
  have erased := underway.leaves_erase path
  have todoStays := besides_bareCells paths rootFree rest
  have settledStays := underway.besides_surviving
  have notSettled := underway.not_mem_settled
  rw [pathEq] at settledStays notSettled
  have fresh : root :: rest ∉ (Fields.leaves (Entries.erase record key)).map Prod.fst := by
    intro there
    rw [(erased.map Prod.fst).mem_iff, List.map_append, List.mem_append] at there
    rcases there with inSettled | inTodo
    · obtain ⟨leaf, leafMem, leafEq⟩ := List.mem_map.mp inSettled
      exact notSettled (leafEq ▸ List.mem_map_of_mem (Leaf.mem_of_mem_surviving leafMem))
    · obtain ⟨leaf, leafMem, leafEq⟩ := List.mem_map.mp inTodo
      rw [← todoStays] at leafMem
      have apart : ¬ Leaf.Meets leaf.1 (root :: rest) := by
        simpa using (List.mem_filter.mp leafMem).2
      exact apart (Or.inl (leafEq ▸ List.prefix_rfl))
  constructor
  · rw [unfolds]
    exact Value.wellFormed_put formed (wellFormed_branch formed valueFormed root rest)
  · rw [unfolds, Leaf.surviving_concat, cell, pathEq, ← settledStays]
    calc
      List.Perm _ (Leaf.besides (root :: rest) (Fields.leaves (Entries.erase record key)) ++
          [(root :: rest, value)]) := leaves_put_branch formed noObject fresh
      List.Perm _ (Leaf.besides (root :: rest) (Leaf.surviving settled ++ bareCells todo) ++
          [(root :: rest, value)]) := (erased.filter _).append_right _
      List.Perm _ (Leaf.besides (root :: rest) (Leaf.surviving settled) ++
          [(root :: rest, value)] ++ bareCells todo) := by
        rw [Leaf.besides_append, todoStays, List.append_assoc, List.append_assoc]
        exact List.perm_append_comm.append_left _
  · rw [List.map_append, List.append_assoc]
    exact underway.nodup
  · intro leaf leafMem
    rcases List.mem_append.mp leafMem with before | here
    · exact underway.starts leaf before
    · rw [List.mem_singleton.mp here, cell, pathEq]
      exact ⟨root, rest, rfl, rootFree⟩

/-- Unfolding all path cells settles all of them. -/
theorem Underway.unfoldColumns {settled : List Leaf} {todo : Fields}
    (underway : Underway d settled todo record)
    (paths : ∀ entry ∈ todo, Column.isPath d entry.1 = true)
    (noObjects : ∀ entry ∈ todo, entry.2.fields? = none) :
    Underway d (settled ++ todo.map (cell d)) []
      (Fields.unfoldColumns d (Entries.keys todo) record) := by
  induction todo generalizing settled record with
  | nil => simpa [Fields.unfoldColumns, Entries.keys] using underway
  | cons entry rest ih =>
      obtain ⟨key, value⟩ := entry
      rw [List.forall_mem_cons] at paths noObjects
      have next := underway.step paths.1 noObjects.1 paths.2
      have done := ih next paths.2 noObjects.2
      rw [List.append_assoc] at done
      exact done

/-- Different columns have different paths. -/
theorem nodup_cells {row : Fields} (distinct : Entries.Distinct row) :
    ((cells d row).map Prod.fst).Nodup := by
  rw [((cells_perm d row).map Prod.fst).nodup_iff, List.map_map]
  have asKeys : Prod.fst ∘ cell d = Column.pathOf d ∘ (Prod.fst : String × Value → String) := rfl
  rw [asKeys, ← List.map_map]
  exact List.Nodup.map (Column.pathOf_injective d) distinct

/-- A row without objects has its cells for leaves. -/
theorem leaves_eq_bareCells {row : Fields} (noObjects : ∀ entry ∈ row, entry.2.fields? = none) :
    leaves row = bareCells row := by
  rw [leaves_eq_flatMap, bareCells, List.map_eq_flatMap]
  apply List.flatMap_congr
  rintro ⟨name, content⟩ entryMem
  rw [fieldLeaves, Value.leaves_of_fields?_eq_none (noObjects _ entryMem)]
  rfl

/-- Cells under their keys do not obstruct each other. -/
theorem surviving_bareCells (row : Fields) :
    Leaf.surviving (bareCells row) = bareCells row := by
  apply Leaf.surviving_eq_self
  simp only [bareCells, List.forall_mem_map]
  rintro first _ second _ ⟨differ, meets⟩
  obtain ⟨same, _⟩ := Leaf.meets_cons.mp meets
  exact differ (by rw [same])

/-- A row whose paths are still to be unfolded. -/
theorem underway_start {row : Fields} (formed : (Value.obj row).WellFormed)
    (noObjects : ∀ entry ∈ row, entry.2.fields? = none)
    (plain : ∀ key ∈ Entries.keys row, Column.isPath d key = false →
      Column.ofKey d key = .ok .plain) :
    Underway d ((row.filter fun entry => !Column.isPath d entry.1).map (cell d))
      (row.filter fun entry => Column.isPath d entry.1) row := by
  obtain ⟨distinct, _⟩ := Value.wellFormed_obj_iff.mp formed
  have noPath : ∀ entry ∈ row.filter (fun entry => !Column.isPath d entry.1),
      Column.isPath d entry.1 = false := by
    intro entry entryMem
    simpa using (List.mem_filter.mp entryMem).2
  have plainCells : (row.filter fun entry => !Column.isPath d entry.1).map (cell d) =
      bareCells (row.filter fun entry => !Column.isPath d entry.1) := by
    apply List.map_congr_left
    intro entry entryMem
    rw [cell, Column.pathOf_of_isPath_eq_false (noPath entry entryMem)]
  constructor
  · exact formed
  · rw [plainCells, surviving_bareCells, leaves_eq_bareCells noObjects, bareCells, bareCells,
      bareCells, ← List.map_append]
    apply List.Perm.map
    have split := List.filter_append_perm (fun entry => !Column.isPath d entry.1) row
    simpa using split.symm
  · have paths : ((cells d row).map Prod.fst).Nodup := nodup_cells distinct
    rw [cells, List.map_append] at paths
    simpa [Function.comp_def, cell] using paths
  · rw [plainCells]
    intro leaf leafMem
    obtain ⟨entry, entryMem, rfl⟩ := List.mem_map.mp leafMem
    have keyMem : entry.1 ∈ Entries.keys row :=
      List.mem_map_of_mem (List.mem_filter.mp entryMem).1
    have keyPlain := plain entry.1 keyMem (noPath entry entryMem)
    exact ⟨entry.1, [], rfl, (Column.ofKey_eq_plain_iff.mp keyPlain).1⟩

end Unfolding

end Fields

namespace Progress

variable {settings : Settings} {known : List String} {store : Store} {table : String}
  {backlog : Backlog} {row : Fields}

/-- A row without links is unfolded and nothing else, and nothing of it has to wait. -/
theorem resolveRow_of_links_eq_nil
    (meaning : ∀ key ∈ Entries.keys row, ∃ column,
      Column.ofKey settings.delimiters key = .ok column)
    (noLinks : Fields.links settings.delimiters row = []) :
    resolveRow settings known store table backlog row =
      .ok (Fields.unfolded settings.delimiters row, backlog) := by
  have noLink : ∀ key ∈ Entries.keys row, ∀ link,
      Column.ofKey settings.delimiters key ≠ .ok (.link link) := by
    intro key keyMem link read
    have linkMem := Fields.mem_links.mpr ⟨key, keyMem, read⟩
    rw [noLinks] at linkMem
    cases linkMem
  have faultless : Fields.fault? settings.delimiters known table row = none := by
    apply List.findSome?_eq_none_iff.mpr
    intro key keyMem
    obtain ⟨column, read⟩ := meaning key keyMem
    refine Column.fault?_eq_none_iff.mpr ⟨column, read, fun link isLink => ?_⟩
    exact absurd (isLink ▸ read) (noLink key keyMem link)
  have nothingWaits : store.postponed settings table row = [] := by
    rw [Store.postponed, List.map_eq_nil_iff, List.filter_eq_nil_iff]
    intro key keyMem waits
    obtain ⟨link, read, _⟩ := Store.postpones_eq_true_iff.mp waits
    exact noLink key keyMem link read
  rw [resolveRow_eq, faultless, okUnless_none, nothingWaits,
    Store.applyColumns_of_links_eq_nil noLinks]
  rfl

end Progress

namespace Fields

variable {d : Delimiters} {row : Fields}

/-- The leaves of an unfolded row are its cells, as far as they survive. -/
theorem leaves_unfolded_perm (formed : (Value.obj row).WellFormed)
    (noObjects : ∀ entry ∈ row, entry.2.fields? = none)
    (plain : ∀ key ∈ Entries.keys row, Column.isPath d key = false →
      Column.ofKey d key = .ok .plain) :
    (leaves (unfolded d row)).Perm (Leaf.surviving (cells d row)) := by
  have done := (underway_start formed noObjects plain).unfoldColumns
    (fun entry entryMem => by simpa using (List.mem_filter.mp entryMem).2)
    (fun entry entryMem => noObjects entry (List.mem_filter.mp entryMem).1)
  have pathKeys : Entries.keys (row.filter fun entry => Column.isPath d entry.1) =
      (Entries.keys row).filter (Column.isPath d) := by
    rw [Entries.keys, Entries.keys, List.filter_map]
    rfl
  have survive := done.leaves
  rw [pathKeys, unfoldColumns_filter_isPath, ← cells, bareCells, List.map_nil,
    List.append_nil] at survive
  exact survive

/-- If no path of a row continues another, all cells survive. -/
theorem surviving_cells
    (apart : ∀ key ∈ Entries.keys row, ∀ other ∈ Entries.keys row,
      Column.pathOf d key <+: Column.pathOf d other → key = other) :
    Leaf.surviving (cells d row) = cells d row := by
  apply Leaf.surviving_eq_self
  intro leaf leafMem other otherMem
  rw [(cells_perm d row).mem_iff] at leafMem otherMem
  obtain ⟨entry, entryMem, rfl⟩ := List.mem_map.mp leafMem
  obtain ⟨otherEntry, otherEntryMem, rfl⟩ := List.mem_map.mp otherMem
  have keyMem : entry.1 ∈ Entries.keys row := List.mem_map_of_mem entryMem
  have otherKeyMem : otherEntry.1 ∈ Entries.keys row := List.mem_map_of_mem otherEntryMem
  rintro ⟨differ, before | behind⟩
  · exact differ (congrArg (Column.pathOf d) (apart _ otherKeyMem _ keyMem before))
  · exact differ (congrArg (Column.pathOf d) (apart _ keyMem _ otherKeyMem behind).symm)

end Fields

namespace Progress

/-- Flattening undoes the unfolding of paths. A row of plain columns and paths is resolved
without a fault and without anything to wait for. Its leaves are the cells that no later
cell obstructs, each at the path of its column; if no path continues another, they are all
the cells of the row. -/
theorem resolveRow_leaves (settings : Settings) (known : List String) (store : Store)
    (table : String) (backlog : Backlog) {row : Fields} (formed : (Value.obj row).WellFormed)
    (roles : ∀ key ∈ Entries.keys row, Column.ofKey settings.delimiters key = .ok .plain ∨
      ∃ segments, Column.ofKey settings.delimiters key = .ok (.path segments))
    (noObjects : ∀ entry ∈ row, entry.2.fields? = none) :
    ∃ record, resolveRow settings known store table backlog row = .ok (record, backlog) ∧
      (Fields.leaves record).Perm
        (Leaf.surviving (Fields.cells settings.delimiters row)) ∧
      ((∀ key ∈ Entries.keys row, ∀ other ∈ Entries.keys row,
          Column.pathOf settings.delimiters key <+: Column.pathOf settings.delimiters other →
            key = other) →
        (Fields.leaves record).Perm
          (row.map fun entry => (Column.pathOf settings.delimiters entry.1, entry.2))) := by
  have meaning : ∀ key ∈ Entries.keys row, ∃ column,
      Column.ofKey settings.delimiters key = .ok column := by
    intro key keyMem
    rcases roles key keyMem with plain | ⟨segments, path⟩
    · exact ⟨.plain, plain⟩
    · exact ⟨.path segments, path⟩
  have noLinks : Fields.links settings.delimiters row = [] := by
    apply List.eq_nil_iff_forall_not_mem.mpr
    intro link linkMem
    obtain ⟨key, keyMem, read⟩ := Fields.mem_links.mp linkMem
    rcases roles key keyMem with plain | ⟨segments, path⟩
    · cases read.symm.trans plain
    · cases read.symm.trans path
  have plain : ∀ key ∈ Entries.keys row, Column.isPath settings.delimiters key = false →
      Column.ofKey settings.delimiters key = .ok .plain := by
    intro key keyMem noPath
    rcases roles key keyMem with plain | path
    · exact plain
    · rw [Column.isPath_eq_true_iff.mpr path] at noPath
      cases noPath
  have survive := Fields.leaves_unfolded_perm formed noObjects plain
  refine ⟨_, resolveRow_of_links_eq_nil meaning noLinks, survive, fun apart => ?_⟩
  rw [Fields.surviving_cells apart] at survive
  exact survive.trans (Fields.cells_perm settings.delimiters row)

/-- A row in which a path covers a plain cell, a later path covers an earlier one, and two
paths share a root. -/
def overgrown : Fields :=
  [("a.b", .str "1"), ("a", .str "2"), ("c..d", .arr [.null]), ("a.b.e", .str "3"),
    ("c", .null), ("a.f", .bool true), ("g", .str "4")]

theorem resolveRow_leaves_overgrown :
    ∃ record, resolveRow {} [] { rowsField := "data" } "T" .empty overgrown =
        .ok (record, .empty) ∧
      (Fields.leaves record).Perm
        [(["g"], .str "4"), (["c", "", "d"], .arr [.null]), (["a", "b", "e"], .str "3"),
          (["a", "f"], .bool true)] := by
  have formed : (Value.obj overgrown).WellFormed := by
    simp [overgrown, Value.WellFormed, Value.WellFormedFields, Value.WellFormedField,
      Value.WellFormedItems, Entries.Distinct, Entries.keys]
  have roles : ∀ key ∈ Entries.keys overgrown, Column.ofKey {} key = .ok .plain ∨
      ∃ segments, Column.ofKey {} key = .ok (.path segments) := by
    simp only [overgrown, Entries.keys, List.map_cons, List.map_nil, List.forall_mem_cons]
    exact ⟨.inr ⟨_, rfl⟩, .inl rfl, .inr ⟨_, rfl⟩, .inr ⟨_, rfl⟩, .inl rfl, .inr ⟨_, rfl⟩,
      .inl rfl, by simp⟩
  obtain ⟨record, resolved, survive, _⟩ :=
    resolveRow_leaves {} [] { rowsField := "data" } "T" .empty formed roles (by decide)
  exact ⟨record, resolved, survive⟩

end Progress

end Tabula
