import Mathlib.Data.List.Basic
import Tabula.Proofs.Sheet.Lines

/-!
# Rows up to the first fault

The records of a delimited text are read one after another, blank ones included, and the first of
them that is no valid text or one too many ends the reading. Which of the two faults comes first is
a matter of their positions alone: a record is counted before it is looked at. Without a fault all
fields under the header are there, each in the row of its record and under the name of its column.
-/

namespace Tabula.Csv

variable {name : String} {maxRows : Nat} {names header : List String} {rest : List Record}
  {fault : Source.Fault}

/-- What becomes of a list of records with valid and invalid ones. -/
inductive Reads (name : String) (maxRows : Nat) :
    List Record → Except Source.Fault Table → Prop where
  | nothing : Reads name maxRows [] (.ok { name, rows := [] })
  | badHeader (rest : List Record) : Reads name maxRows (none :: rest) (.error .csv)
  /-- The first invalid data record stands within the limit. -/
  | badRecord (header : List String) (valid : List (List String)) (rest : List Record)
      (within : valid.length < maxRows) :
      Reads name maxRows (some header :: (valid.map some ++ none :: rest)) (.error .csv)
  /-- There are more data records than allowed, and no invalid one stands within the limit. -/
  | tooMany (header : List String) (rest : List Record) (exceeded : maxRows < rest.length)
      (valid : none ∉ rest.take maxRows) :
      Reads name maxRows (some header :: rest) (.error (.tooManyRows maxRows (maxRows + 1)))
  /-- All records are valid, and no more than allowed. -/
  | table (header : List String) (data : List (List String)) (rows : List Fields)
      (few : data.length ≤ maxRows)
      (areRows : Sheet.AreRows (fun text => text ≠ "") (fun text value => typed text = some value)
        (fieldNames header) data rows) :
      Reads name maxRows (some header :: data.map some) (.ok { name, rows })

theorem readsAs_typed :
    Sheet.ReadsAs typed (fun text => text ≠ "") (fun text value => typed text = some value) where
  filled_eq text := by
    cases isValue : typed text with
    | none => simpa using typed_eq_none_iff.mp isValue
    | some value =>
        have nonempty : text ≠ "" := fun empty => by
          rw [typed_eq_none_iff.mpr empty] at isValue
          cases isValue
        simpa using nonempty
  shows_iff _ _ := Iff.rfl

theorem areRows_typed_iff (distinct : names.Nodup) {data : List (List String)}
    {rows : List Fields} :
    Sheet.AreRows (fun text => text ≠ "") (fun text value => typed text = some value) names data
        rows ↔
      rows = rowsUnder names data := by
  rw [readsAs_typed.areRows_iff distinct, rowsUnder_eq distinct]

theorem exists_map_some_eq {records : List Record} (valid : none ∉ records) :
    ∃ data : List (List String), records = data.map some := by
  induction records with
  | nil => exact ⟨[], rfl⟩
  | cons record rest ih =>
      rw [List.mem_cons, not_or] at valid
      obtain ⟨data, rfl⟩ := ih valid.2
      cases record with
      | none => exact absurd rfl valid.1
      | some fields => exact ⟨fields :: data, rfl⟩

/-- A record is counted before it is looked at. -/
theorem readRow_eq_error_iff {index : Nat} {record : Record} :
    readRow maxRows names index record = .error fault ↔
      (maxRows ≤ index ∧ fault = .tooManyRows maxRows (index + 1)) ∨
        (index < maxRows ∧ record = none ∧ fault = .csv) := by
  unfold readRow
  split
  · rename_i reached
    simp [reached, Nat.not_lt.mpr reached, eq_comm]
  · rename_i within
    cases record with
    | none => simp [within, Nat.not_le.mp within, eq_comm]
    | some fields => simp [within]

/-- Below a header it is the first record that is invalid, or the first beyond the limit, that
makes the reading fail. -/
theorem tableOfRecords_eq_error_iff :
    tableOfRecords name maxRows (some header :: rest) = .error fault ↔
      (∃ valid : List (List String), ∃ behind, valid.length < maxRows ∧
        rest = valid.map some ++ none :: behind ∧ fault = .csv) ∨
      (maxRows < rest.length ∧ none ∉ rest.take maxRows ∧
        fault = .tooManyRows maxRows (maxRows + 1)) := by
  have failed_iff : tableOfRecords name maxRows (some header :: rest) = .error fault ↔
      mapCarry (readRow maxRows (fieldNames header)) 0 rest = .error fault := by
    rw [tableOfRecords, ← fieldNames]
    cases mapCarry (readRow maxRows (fieldNames header)) 0 rest <;> simp [Except.map]
  rw [failed_iff, mapCarry_eq_error_iff]
  constructor
  · rintro ⟨before, record, behind, outcome, rfl, passed, stopped⟩
    obtain ⟨valid, rfl, few, rfl⟩ := mapCarry_readRow_eq_ok_iff.mp passed
    rw [Nat.zero_add] at few
    rcases readRow_eq_error_iff.mp stopped with ⟨reached, rfl⟩ | ⟨within, rfl, rfl⟩
    · right
      simp only [Nat.zero_add] at reached ⊢
      have atLimit : valid.length = maxRows := by
        cases valid with
        | nil => exact (Nat.le_zero.mp reached).symm
        | cons _ _ => exact Nat.le_antisymm (few (by simp)) reached
      refine ⟨by simp; omega, ?_, by rw [atLimit]⟩
      rw [List.take_left' (by rw [List.length_map, atLimit])]
      simp
    · left
      exact ⟨valid, behind, by simpa using within, rfl, rfl⟩
  · rintro (⟨valid, behind, within, rfl, rfl⟩ | ⟨exceeded, noneInvalid, rfl⟩)
    · refine ⟨_, none, behind, _, rfl,
        mapCarry_readRow_eq_ok_iff.mpr ⟨valid, rfl, fun _ => by omega, rfl⟩, ?_⟩
      exact readRow_eq_error_iff.mpr (Or.inr ⟨by simpa using within, rfl, rfl⟩)
    · obtain ⟨valid, validEq⟩ := exists_map_some_eq noneInvalid
      have length : valid.length = maxRows := by
        rw [← List.length_map some, ← validEq, List.length_take]
        omega
      refine ⟨_, rest[maxRows], rest.drop (maxRows + 1), _, ?_,
        mapCarry_readRow_eq_ok_iff.mpr ⟨valid, rfl, fun _ => by omega, rfl⟩, ?_⟩
      · rw [← validEq, ← List.drop_eq_getElem_cons, List.take_append_drop]
      · refine readRow_eq_error_iff.mpr (Or.inl ⟨by simp [length], by simp [length]⟩)

theorem reads_tableOfRecords (name : String) (maxRows : Nat) (records : List Record) :
    Reads name maxRows records (tableOfRecords name maxRows records) := by
  cases records with
  | nil => exact .nothing
  | cons first rest =>
      cases first with
      | none => exact .badHeader rest
      | some header =>
          cases read : tableOfRecords name maxRows (some header :: rest) with
          | ok table =>
              obtain ⟨data, rfl, few, rfl⟩ := tableOfRecords_eq_ok_iff.mp read
              exact .table header data _ few ((areRows_typed_iff (nodup_fieldNames header)).mpr rfl)
          | error fault =>
              rcases tableOfRecords_eq_error_iff.mp read with
                ⟨valid, behind, within, rfl, rfl⟩ | ⟨exceeded, valid, rfl⟩
              · exact .badRecord header valid behind within
              · exact .tooMany header rest exceeded valid

/-- Nothing else becomes of a list of records. -/
theorem Reads.outcome_eq {records : List Record} {outcome : Except Source.Fault Table}
    (reads : Reads name maxRows records outcome) :
    tableOfRecords name maxRows records = outcome := by
  cases reads with
  | nothing => rfl
  | badHeader rest => rfl
  | badRecord header valid rest within =>
      exact tableOfRecords_eq_error_iff.mpr (Or.inl ⟨valid, rest, within, rfl, rfl⟩)
  | tooMany header rest exceeded valid =>
      exact tableOfRecords_eq_error_iff.mpr (Or.inr ⟨exceeded, valid, rfl⟩)
  | table header data rows few areRows =>
      obtain rfl := (areRows_typed_iff (nodup_fieldNames header)).mp areRows
      exact tableOfRecords_eq_ok_iff.mpr ⟨data, rfl, few, rfl⟩

/-- Any list of records, and so any delimited text, is read as described and in no other way: into
no rows if it is empty, with a fault for an invalid header, an invalid record within the limit or
else too many records, and otherwise into the rows of its data records. The names of the columns
are distinct, so all fields under the header are kept. -/
theorem tableOfRecords_exact (name : String) :
    (∀ maxRows records outcome,
      tableOfRecords name maxRows records = outcome ↔ Reads name maxRows records outcome) ∧
    (∀ dialect bytes outcome,
      Csv.table name dialect bytes = outcome ↔
        Reads name dialect.maxRows (records dialect bytes.toList) outcome) ∧
    ∀ header, (fieldNames header).length = header.length ∧ (fieldNames header).Nodup := by
  have read_iff (maxRows : Nat) (records : List Record) (outcome : Except Source.Fault Table) :
      tableOfRecords name maxRows records = outcome ↔ Reads name maxRows records outcome := by
    constructor
    · rintro rfl
      exact reads_tableOfRecords name maxRows records
    · exact Reads.outcome_eq
  refine ⟨read_iff, fun dialect bytes => read_iff dialect.maxRows _, fun header => ?_⟩
  have length := Sheet.length_headerNames (header.map typed)
  rw [List.length_map] at length
  exact ⟨length, nodup_fieldNames header⟩

/-- A record beyond the limit is not looked at. -/
example : tableOfRecords "T" 1 [some ["a", "b"], some ["", ""], none] =
    .error (.tooManyRows 1 2) := by
  decide +kernel

end Tabula.Csv
