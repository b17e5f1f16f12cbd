import Tabula.Csv.Table
import Tabula.Proofs.HeaderNames
import Tabula.Proofs.Renaming

/-!
# The rows of a delimited text

The names of a header are distinct, so no field of a record overwrites another, and a row holds
the fields that have a value under the names of their columns. A text is read into a table if and
only if all its records are valid texts and there are no more rows than allowed.
-/

namespace Tabula

namespace Sheet

variable {names : List String}

theorem distinct_cellsByName (distinct : names.Nodup) (cells : List (Option Value)) :
    Entries.Distinct (cellsByName names cells) := by
  have within : (Entries.keys (cellsByName names cells)).Sublist names := by
    induction names generalizing cells with
    | nil => exact List.Sublist.refl []
    | cons name names ih =>
        have later := (List.nodup_cons.mp distinct).2
        cases cells with
        | nil => exact List.nil_sublist _
        | cons cell cells =>
            cases cell with
            | none => exact (ih later cells).cons name
            | some value => exact (ih later cells).cons_cons name
  exact within.nodup distinct

theorem cellsByName_append {others : List String} {cells : List (Option Value)}
    (sameLength : names.length = cells.length) (otherCells : List (Option Value)) :
    cellsByName (names ++ others) (cells ++ otherCells) =
      cellsByName names cells ++ cellsByName others otherCells := by
  rw [cellsByName, List.zip_append sameLength, List.filterMap_append]
  rfl

/-- A row has a record if one of its cells under the header is present, and holds these cells. -/
theorem record?_eq (distinct : names.Nodup) (cells : List (Option Value)) :
    record? names cells =
      if cellsByName names cells = [] then none else some (cellsByName names cells) := by
  rw [record?, Entries.collect_of_distinct (distinct_cellsByName distinct cells)]
  cases cellsByName names cells <;> rfl

end Sheet

namespace Csv

/-- The names of the columns of a header. -/
def fieldNames (header : List String) : List String :=
  Sheet.headerNames (header.map typed)

theorem nodup_fieldNames (header : List String) : (fieldNames header).Nodup :=
  Sheet.nodup_headerNames _

/-- The rows of records under the names of their columns. Records without a value are no rows. -/
def rowsUnder (names : List String) (data : List (List String)) : List Fields :=
  (data.map fun fields => Sheet.cellsByName names (fields.map typed)).filter (· ≠ [])

/-- The names of the columns in which a record has a field that is not empty. -/
def filledColumns (names fields : List String) : List String :=
  ((names.zip fields).filter fun pair => pair.2 ≠ "").map Prod.fst

theorem typed_eq_none_iff {text : String} : typed text = none ↔ text = "" := by
  unfold typed
  split
  · rename_i empty
    exact iff_of_true rfl empty
  · rename_i nonempty
    split <;> simp [nonempty]

theorem keys_cellsByName (names fields : List String) :
    Entries.keys (Sheet.cellsByName names (fields.map typed)) = filledColumns names fields := by
  induction names generalizing fields with
  | nil => rfl
  | cons name names ih =>
      cases fields with
      | nil => rfl
      | cons text fields =>
          have later := ih fields
          rw [Sheet.cellsByName, Entries.keys, filledColumns] at later ⊢
          rw [List.map_cons, List.zip_cons_cons, List.filterMap_cons, List.zip_cons_cons,
            List.filter_cons]
          cases value : typed text with
          | none =>
              have empty := typed_eq_none_iff.mp value
              simpa [empty] using later
          | some value =>
              have nonempty : text ≠ "" := fun empty => by
                rw [typed_eq_none_iff.mpr empty] at value
                cases value
              simpa [nonempty] using later

theorem keys_rowsUnder (names : List String) (data : List (List String)) :
    (rowsUnder names data).map Entries.keys =
      (data.map (filledColumns names)).filter (· ≠ []) := by
  have sameEmpty (row : Fields) : decide (Entries.keys row ≠ []) = decide (row ≠ []) := by
    simp [Entries.keys]
  have columns : data.map (filledColumns names) = (data.map fun fields =>
      Sheet.cellsByName names (fields.map typed)).map Entries.keys := by
    rw [List.map_map]
    exact List.map_congr_left fun fields _ => (keys_cellsByName names fields).symm
  rw [columns, rowsUnder]
  generalize (data.map fun fields => Sheet.cellsByName names (fields.map typed)) = rows
  rw [List.filter_map]
  exact congrArg (List.map Entries.keys) (List.filter_congr fun row _ => (sameEmpty row).symm)

/-- The rows are the records of the lines that have one. -/
theorem rowsUnder_eq {names : List String} (distinct : names.Nodup) (data : List (List String)) :
    rowsUnder names data =
      data.filterMap fun fields => Sheet.record? names (fields.map typed) := by
  induction data with
  | nil => rfl
  | cons fields data ih =>
      rw [rowsUnder] at ih ⊢
      rw [List.map_cons, List.filter_cons, List.filterMap_cons, Sheet.record?_eq distinct]
      by_cases empty : Sheet.cellsByName names (fields.map typed) = []
      · simpa [empty] using ih
      · simpa [empty] using ih

/-- A field that has a value makes a row of its record, and stands there between the fields of the
columns around its own. -/
theorem exists_rowsUnder_eq {names left : List String} {key : String} (right : List String)
    (distinct : names.Nodup) (column : names[left.length]? = some key) :
    ∃ front behind, ∀ text value, typed text = some value →
      Entries.Distinct (front ++ (key, value) :: behind) ∧
        ∀ earlier later, rowsUnder names (earlier ++ (left ++ text :: right) :: later) =
          rowsUnder names earlier ++
            (front ++ (key, value) :: behind) :: rowsUnder names later := by
  obtain ⟨inside, rfl⟩ := List.getElem?_eq_some_iff.mp column
  refine ⟨Sheet.cellsByName (names.take left.length) (left.map typed),
    Sheet.cellsByName (names.drop (left.length + 1)) (right.map typed),
    fun text value isValue => ?_⟩
  have row : Sheet.cellsByName names ((left ++ text :: right).map typed) =
      Sheet.cellsByName (names.take left.length) (left.map typed) ++
        (names[left.length], value) ::
          Sheet.cellsByName (names.drop (left.length + 1)) (right.map typed) := by
    conv_lhs => rw [← List.take_append_drop left.length names,
      List.drop_eq_getElem_cons inside, List.map_append, List.map_cons, isValue]
    rw [Sheet.cellsByName_append (by simp [Nat.le_of_lt inside])]
    rfl
  constructor
  · rw [← row]
    exact Sheet.distinct_cellsByName distinct _
  · intro earlier later
    rw [rowsUnder, List.map_append, List.map_cons, row, List.filter_append, List.filter_cons,
      if_pos (by simp)]
    rfl

variable {maxRows : Nat} {names : List String} {rest : List Record}

theorem readRow_eq_ok_iff {index : Nat} {record : Record} {result : Option Fields × Nat} :
    readRow maxRows names index record = .ok result ↔
      index < maxRows ∧ ∃ fields, record = some fields ∧
        result = (Sheet.record? names (fields.map typed), index + 1) := by
  unfold readRow
  split
  · rename_i reached
    simp [Nat.not_lt.mpr reached]
  · rename_i within
    cases record with
    | none => simp
    | some fields => simp [Nat.not_le.mp within, eq_comm]

theorem mapCarry_readRow_eq_ok_iff {index : Nat} {outcome : List (Option Fields) × Nat} :
    mapCarry (readRow maxRows names) index rest = .ok outcome ↔
      ∃ data : List (List String), rest = data.map some ∧
        (data ≠ [] → index + data.length ≤ maxRows) ∧
          outcome = (data.map fun fields => Sheet.record? names (fields.map typed),
            index + data.length) := by
  induction rest generalizing index outcome with
  | nil =>
      rw [mapCarry_nil]
      constructor
      · rintro ⟨⟩
        exact ⟨[], rfl, by simp, rfl⟩
      · rintro ⟨data, noData, _, rfl⟩
        obtain rfl := List.map_eq_nil_iff.mp noData.symm
        rfl
  | cons record rest ih =>
      rw [mapCarry_cons_eq_ok_iff]
      constructor
      · rintro ⟨_, _, _, here, later, rfl⟩
        obtain ⟨within, fields, rfl, resultEq⟩ := readRow_eq_ok_iff.mp here
        obtain ⟨rfl, rfl⟩ := Prod.mk.inj resultEq
        obtain ⟨data, rfl, few, rfl⟩ := ih.mp later
        refine ⟨fields :: data, rfl, fun _ => ?_, ?_⟩
        · cases data with
          | nil => exact within
          | cons _ _ =>
              have enough := few (by simp)
              rw [List.length_cons]
              omega
        · rw [List.map_cons, List.length_cons, Nat.add_right_comm, Nat.add_assoc]
      · rintro ⟨data, dataEq, few, rfl⟩
        cases data with
        | nil => cases dataEq
        | cons fields data =>
            obtain ⟨rfl, rfl⟩ := List.cons.inj dataEq
            have enough := few (by simp)
            rw [List.length_cons] at enough
            refine ⟨_, _, _, readRow_eq_ok_iff.mpr ⟨by omega, fields, rfl, rfl⟩,
              ih.mpr ⟨data, rfl, fun _ => by omega, rfl⟩, ?_⟩
            rw [List.map_cons, List.length_cons, Nat.add_right_comm, Nat.add_assoc]

/-- A text with a header is read into a table if and only if the other records are texts and there
are no more of them than allowed. -/
theorem tableOfRecords_eq_ok_iff {name : String} {header : List String} {table : Table} :
    tableOfRecords name maxRows (some header :: rest) = .ok table ↔
      ∃ data : List (List String), rest = data.map some ∧ data.length ≤ maxRows ∧
        table = { name, rows := rowsUnder (fieldNames header) data } := by
  have rowsEq (data : List (List String)) :
      (data.map fun fields => Sheet.record? (fieldNames header) (fields.map typed)).filterMap id =
        rowsUnder (fieldNames header) data := by
    rw [rowsUnder_eq (nodup_fieldNames header), List.filterMap_map]
    rfl
  rw [tableOfRecords, ← fieldNames]
  constructor
  · intro read
    cases called : mapCarry (readRow maxRows (fieldNames header)) 0 rest with
    | error fault =>
        rw [called] at read
        cases read
    | ok outcome =>
        rw [called] at read
        cases read
        obtain ⟨data, rfl, few, rfl⟩ := mapCarry_readRow_eq_ok_iff.mp called
        refine ⟨data, rfl, ?_, congrArg (fun rows => { name, rows : Table }) (rowsEq data)⟩
        cases data with
        | nil => exact Nat.zero_le maxRows
        | cons _ _ => simpa using few (by simp)
  · rintro ⟨data, rfl, few, rfl⟩
    rw [mapCarry_readRow_eq_ok_iff.mpr ⟨data, rfl, fun _ => by omega, rfl⟩]
    exact congrArg (fun rows => Except.ok { name, rows : Table }) (rowsEq data)

end Csv

end Tabula
