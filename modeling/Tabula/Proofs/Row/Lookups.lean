import Mathlib.Data.List.Perm.Basic
import Tabula.Proofs.Row.Edit

/-!
# Links of a record in any order

What a link column does to a record is seen in the look-ups of its keys. Links that set
different fields and read nothing but their own cells commute on these look-ups, so the
order in which they are applied is only seen in the order of the keys. Link columns that the
record does not have do nothing.
-/

namespace Tabula

/-- A link key whose options, and whose cell in the record, hold no bracket. -/
def Fields.FreeLink (d : Delimiters) (record : Fields) (key : String) : Prop :=
  ∃ link, Column.ofKey d key = .ok (.link link) ∧
    (∀ option ∈ link.options, '[' ∉ option.2.toList) ∧
      ∀ cell, Entries.get? record key = some cell → '[' ∉ cell.cellText.toList

/-- No two of the given columns create the same field. -/
def Column.FieldsApart (d : Delimiters) (columns : List String) : Prop :=
  ∀ key ∈ columns, ∀ other ∈ columns, createdBy? d key = createdBy? d other → key = other

instance (d : Delimiters) (columns : List String) : Decidable (Column.FieldsApart d columns) :=
  inferInstanceAs (Decidable (∀ key ∈ columns, ∀ other ∈ columns,
    Column.createdBy? d key = Column.createdBy? d other → key = other))

namespace Store

variable {settings : Settings} {store : Store} {record row : Fields} {key other : String}
  {columns others : List String} {lookup : String → Option Value}

/-- The field that a link key sets, and what it sets it to for a cell of `row`, if its target
has rows. -/
def linkedField? (settings : Settings) (store : Store) (row : Fields) (key : String)
    (cell : Value) : Option (String × Value) :=
  match Column.ofKey settings.delimiters key with
  | .ok (.link link) =>
      (store.rows? link.target).map fun targetRows =>
        (link.field, .arr (link.linkedRows settings row cell targetRows))
  | _ => none

/-- Look-ups after the key has given way to a field, if there is one to set. -/
def moved (key : String) (made : Option (String × Value)) (lookup : String → Option Value) :
    String → Option Value :=
  match made with
  | some (field, content) => fun name =>
      if field = name then some content else if key = name then none else lookup name
  | none => lookup

/-- The change that a link column makes to the look-ups of a record, its placeholders filled
in from `row`. -/
def linkLookups (settings : Settings) (store : Store) (row : Fields)
    (lookup : String → Option Value) (key : String) : String → Option Value :=
  moved key ((lookup key).bind (store.linkedField? settings row key)) lookup

theorem moved_of_ne {made : Option (String × Value)} {name : String} (notKey : key ≠ name)
    (notField : ∀ set ∈ made, set.1 ≠ name) : moved key made lookup name = lookup name := by
  cases made with
  | none => rfl
  | some set => exact (if_neg (notField set rfl)).trans (if_neg notKey)

theorem moved_comm {made otherMade : Option (String × Value)} (differ : key ≠ other)
    (keyApart : ∀ set ∈ otherMade, set.1 ≠ key) (otherApart : ∀ set ∈ made, set.1 ≠ other)
    (fieldsApart : ∀ set ∈ made, ∀ otherSet ∈ otherMade, set.1 ≠ otherSet.1) :
    moved other otherMade (moved key made lookup) =
      moved key made (moved other otherMade lookup) := by
  cases made with
  | none => rfl
  | some set =>
      cases otherMade with
      | none => rfl
      | some otherSet =>
          have keyNotField := keyApart otherSet rfl
          have otherNotField := otherApart set rfl
          have fieldsDiffer := fieldsApart set rfl otherSet rfl
          funext name
          simp only [moved]
          grind

theorem exists_of_linkedField?_eq_some {cell : Value} {set : String × Value}
    (linked : store.linkedField? settings row key cell = some set) :
    ∃ link, Column.ofKey settings.delimiters key = .ok (.link link) ∧ link.field = set.1 := by
  unfold linkedField? at linked
  split at linked
  · rename_i link read
    obtain ⟨targetRows, _, rfl⟩ := Option.map_eq_some_iff.mp linked
    exact ⟨link, read, rfl⟩
  · cases linked

theorem createdBy?_of_mem_linkedField? {cell : Option Value} {set : String × Value}
    (made : set ∈ cell.bind (store.linkedField? settings row key)) :
    Column.createdBy? settings.delimiters key = some set.1 := by
  obtain ⟨_, _, linked⟩ := Option.bind_eq_some_iff.mp made
  obtain ⟨link, read, fieldEq⟩ := exists_of_linkedField?_eq_some linked
  rw [Column.createdBy?_of_link read, fieldEq]

/-- What a link column sets is no link key. -/
theorem ne_of_mem_linkedField? {cell : Option Value} {set : String × Value}
    (made : set ∈ cell.bind (store.linkedField? settings row key))
    (isLink : Column.isLink settings.delimiters other = true) : set.1 ≠ other := by
  obtain ⟨_, _, linked⟩ := Option.bind_eq_some_iff.mp made
  obtain ⟨link, read, fieldEq⟩ := exists_of_linkedField?_eq_some linked
  rw [← fieldEq]
  exact (Column.ne_of_isLink isLink (Column.ofKey_field read)).symm

/-- A link column leaves the look-ups of other link keys alone. -/
theorem linkLookups_of_isLink (differ : key ≠ other)
    (isLink : Column.isLink settings.delimiters other = true) :
    store.linkLookups settings row lookup key other = lookup other :=
  moved_of_ne differ fun _ made => ne_of_mem_linkedField? made isLink

/-- Link columns with different fields commute. -/
theorem linkLookups_comm (isLink : Column.isLink settings.delimiters key = true)
    (otherIsLink : Column.isLink settings.delimiters other = true)
    (apart : Column.createdBy? settings.delimiters key =
      Column.createdBy? settings.delimiters other → key = other) :
    store.linkLookups settings row (store.linkLookups settings row lookup key) other =
      store.linkLookups settings row (store.linkLookups settings row lookup other) key := by
  by_cases same : key = other
  · rw [same]
  · have otherKept : store.linkLookups settings row lookup key other = lookup other :=
      linkLookups_of_isLink same otherIsLink
    have kept : store.linkLookups settings row lookup other key = lookup key :=
      linkLookups_of_isLink (Ne.symm same) isLink
    rw [linkLookups, otherKept, eq_comm, linkLookups, kept, eq_comm]
    apply moved_comm same
    · exact fun set made => ne_of_mem_linkedField? made isLink
    · exact fun set made => ne_of_mem_linkedField? made otherIsLink
    · intro set made otherSet otherMade equal
      apply same
      apply apart
      rw [createdBy?_of_mem_linkedField? made, createdBy?_of_mem_linkedField? otherMade, equal]

/-- A link that reads nothing but its own cell does to a record what it does to its
look-ups. -/
theorem get?_applyColumn_of_freeLink (free : Fields.FreeLink settings.delimiters record key) :
    Entries.get? (store.applyColumn settings record key) =
      store.linkLookups settings row (Entries.get? record) key := by
  obtain ⟨link, read, optionsFree, cellFree⟩ := free
  funext name
  cases found : Entries.get? record key with
  | none => rw [applyColumn_of_absent found, linkLookups, found, Option.bind_none, moved]
  | some cell =>
      cases stored : store.rows? link.target with
      | none =>
          rw [applyColumn_of_postpones (postpones_eq_true_iff.mpr ⟨link, read, stored⟩),
            linkLookups, found, Option.bind_some, linkedField?, read]
          dsimp only
          rw [stored]
          rfl
      | some targetRows =>
          rw [applyColumn_of_link read stored, Link.get?_embed found, linkLookups, found,
            Option.bind_some, linkedField?, read,
            Link.linkedRows_of_not_mem optionsFree (cellFree cell found) record row]
          dsimp only
          rw [stored]
          rfl

/-- Applying a link column gives no link key a new cell. -/
theorem get?_of_get?_applyColumn {cell : Value}
    (isLink : Column.isLink settings.delimiters key = true)
    (otherIsLink : Column.isLink settings.delimiters other = true)
    (found : Entries.get? (store.applyColumn settings record key) other = some cell) :
    Entries.get? record other = some cell := by
  rcases applyColumn_eq_or settings store record key with same | ⟨name, value, creates, changed⟩
  · rwa [same] at found
  · obtain ⟨link, read⟩ := Column.isLink_eq_true_iff.mp isLink
    obtain rfl := Option.some_inj.mp ((Column.createdBy?_of_link read).symm.trans creates)
    have notField := Column.ne_of_isLink otherIsLink (Column.ofKey_field read)
    rw [changed, Entries.get?_put, if_neg (Ne.symm notField), Entries.get?_erase] at found
    split at found
    · cases found
    · exact found

/-- Applying a link column leaves the others free. -/
theorem freeLink_applyColumn (free : Fields.FreeLink settings.delimiters record key)
    (otherFree : Fields.FreeLink settings.delimiters record other) :
    Fields.FreeLink settings.delimiters (store.applyColumn settings record key) other := by
  obtain ⟨link, read, _⟩ := free
  obtain ⟨otherLink, otherRead, optionsFree, cellFree⟩ := otherFree
  refine ⟨otherLink, otherRead, optionsFree, fun cell found => cellFree cell ?_⟩
  exact get?_of_get?_applyColumn (Column.isLink_eq_true_iff.mpr ⟨link, read⟩)
    (Column.isLink_eq_true_iff.mpr ⟨otherLink, otherRead⟩) found

/-- Free links that are applied one after another do to a record what they do to its
look-ups. -/
theorem get?_foldl_applyColumn
    (free : ∀ key ∈ columns, Fields.FreeLink settings.delimiters record key) :
    Entries.get? (columns.foldl (store.applyColumn settings) record) =
      columns.foldl (store.linkLookups settings row) (Entries.get? record) := by
  induction columns generalizing record with
  | nil => rfl
  | cons key rest ih =>
      rw [List.forall_mem_cons] at free
      rw [List.foldl_cons, List.foldl_cons, ← get?_applyColumn_of_freeLink free.1]
      exact ih fun other otherMem => freeLink_applyColumn free.1 (free.2 other otherMem)

theorem distinct_foldl_applyColumn (distinct : Entries.Distinct record) :
    Entries.Distinct (columns.foldl (store.applyColumn settings) record) :=
  List.foldlRecOn columns (store.applyColumn settings) distinct
    fun _ isDistinct _ _ => distinct_applyColumn isDistinct

/-- In which order free links with different fields are applied is seen in the order of the
fields alone. -/
theorem foldl_applyColumn_perm (perm : columns.Perm others)
    (free : ∀ key ∈ columns, Fields.FreeLink settings.delimiters record key)
    (apart : Column.FieldsApart settings.delimiters columns)
    (distinct : Entries.Distinct record) :
    (columns.foldl (store.applyColumn settings) record).Perm
      (others.foldl (store.applyColumn settings) record) := by
  have isLink : ∀ key ∈ columns, Column.isLink settings.delimiters key = true := by
    intro key keyMem
    obtain ⟨link, read, _⟩ := free key keyMem
    exact Column.isLink_eq_true_iff.mpr ⟨link, read⟩
  have sameLookups : columns.foldl (store.linkLookups settings record) (Entries.get? record) =
      others.foldl (store.linkLookups settings record) (Entries.get? record) := by
    apply perm.foldl_eq'
    intro key keyMem other otherMem lookup
    exact linkLookups_comm (isLink key keyMem) (isLink other otherMem)
      (apart key keyMem other otherMem)
  rw [← get?_foldl_applyColumn free,
    ← get?_foldl_applyColumn fun key keyMem => free key (perm.mem_iff.mpr keyMem)] at sameLookups
  exact Entries.perm_of_get?_eq (distinct_foldl_applyColumn distinct)
    (distinct_foldl_applyColumn distinct) (congrFun sameLookups)

end Store

/-! ## Link keys that a record does not have -/

namespace Fields

variable {settings : Settings} {store : Store} {record : Fields} {key : String}
  {among : List String}

/-- All link keys of the record are among the given keys. -/
def LinkKeysAmong (d : Delimiters) (among : List String) (record : Fields) : Prop :=
  ∀ key ∈ Entries.keys record, Column.isLink d key = true → key ∈ among

theorem LinkKeysAmong.applyColumn (bounded : LinkKeysAmong settings.delimiters among record)
    (creates : ∀ name, Column.createdBy? settings.delimiters key = some name →
      Column.isLink settings.delimiters name = true → name ∈ among) :
    LinkKeysAmong settings.delimiters among (store.applyColumn settings record key) := by
  rcases Store.applyColumn_eq_or settings store record key with
    same | ⟨created, value, made, changed⟩
  · rw [same]
    exact bounded
  · intro name present isLink
    rw [changed, Entries.mem_keys_put, Entries.mem_keys_erase] at present
    rcases present with rfl | ⟨_, old⟩
    · exact creates name made isLink
    · exact bounded name old isLink

/-- A link creates no link key. -/
theorem LinkKeysAmong.applyColumn_link
    (bounded : LinkKeysAmong settings.delimiters among record)
    (isLink : Column.isLink settings.delimiters key = true) :
    LinkKeysAmong settings.delimiters among (store.applyColumn settings record key) := by
  apply bounded.applyColumn
  intro name made nameIsLink
  obtain ⟨link, read⟩ := Column.isLink_eq_true_iff.mp isLink
  obtain rfl := Option.some_inj.mp ((Column.createdBy?_of_link read).symm.trans made)
  exact absurd rfl (Column.ne_of_isLink nameIsLink (Column.ofKey_field read))

end Fields

namespace Store

variable {settings : Settings} {store : Store} {record row : Fields} {key : String}
  {columns : List String}

/-- The columns of a row create no link keys but the roots of its paths. -/
theorem linkKeysAmong_applyColumns (row : Fields) :
    Fields.LinkKeysAmong settings.delimiters
      (Entries.keys row ++ Fields.roots settings.delimiters row)
      (store.applyColumns settings row) := by
  apply List.foldlRecOn (Entries.keys row) (store.applyColumn settings)
  · exact fun key keyMem _ => List.mem_append_left _ keyMem
  · intro record bounded key keyMem
    apply bounded.applyColumn
    intro name made isLink
    have created := Fields.mem_roots_or_mem_linkFields.mpr ⟨key, keyMem, made⟩
    rcases created with root | field
    · exact List.mem_append_right _ root
    · obtain ⟨_, _, link, read, rfl⟩ := Fields.mem_linkFields.mp field
      exact absurd rfl (Column.ne_of_isLink isLink (Column.ofKey_field read))

/-- Link columns of which the record has no key can be left out. -/
theorem foldl_applyColumn_filter {among : List String}
    (isLink : ∀ key ∈ columns, Column.isLink settings.delimiters key = true)
    (bounded : Fields.LinkKeysAmong settings.delimiters among record) :
    columns.foldl (store.applyColumn settings) record =
      (columns.filter (· ∈ among)).foldl (store.applyColumn settings) record := by
  induction columns generalizing record with
  | nil => rfl
  | cons key rest ih =>
      rw [List.forall_mem_cons] at isLink
      rw [List.foldl_cons, List.filter_cons]
      by_cases inside : key ∈ among
      · rw [if_pos (decide_eq_true inside), List.foldl_cons]
        exact ih isLink.2 (bounded.applyColumn_link isLink.1)
      · have absent : key ∉ Entries.keys record :=
          fun present => inside (bounded key present isLink.1)
        rw [if_neg (by simpa using inside),
          applyColumn_of_absent (Entries.get?_eq_none_iff.mpr absent)]
        exact ih isLink.2 bounded

/-- The cell of a link that waits stays as it is while the columns of its row are applied,
unless a path writes over it. -/
theorem get?_applyColumns_of_postpones (waits : store.postpones settings key = true)
    (notRoot : key ∉ Fields.roots settings.delimiters row) :
    Entries.get? (store.applyColumns settings row) key = Entries.get? row key := by
  let kept : Fields → Prop := fun record => Entries.get? record key = Entries.get? row key
  apply List.foldlRecOn (motive := kept) (Entries.keys row) (store.applyColumn settings) rfl
  intro record isKept column columnMem
  show Entries.get? (store.applyColumn settings record column) key = _
  by_cases own : column = key
  · rw [own, applyColumn_of_postpones waits]
    exact isKept
  · rcases applyColumn_eq_or settings store record column with
      same | ⟨created, value, made, changed⟩
    · rw [same]
      exact isKept
    · have notCreated : created ≠ key := by
        rintro rfl
        obtain ⟨link, read, _⟩ := postpones_eq_true_iff.mp waits
        have createdByRow := Fields.mem_roots_or_mem_linkFields.mpr ⟨column, columnMem, made⟩
        obtain ⟨_, _, other, otherRead, fieldEq⟩ :=
          Fields.mem_linkFields.mp (createdByRow.resolve_left notRoot)
        have plain := Column.ofKey_field otherRead
        rw [fieldEq, read] at plain
        cases plain
      rw [changed, Entries.get?_put, if_neg notCreated, Entries.get?_erase, if_neg own]
      exact isKept

end Store

end Tabula
