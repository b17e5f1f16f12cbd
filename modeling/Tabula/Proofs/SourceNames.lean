import Tabula.Conversion
import Tabula.Proofs.File.Joins
import Tabula.Proofs.FirstFault

/-!
# Names of sources

A conversion accepts the files that are called by a stem without a dot and the extension of a
format in lower case, in whatever directory. Its check cuts the file name at the first dot, while
a reader cuts it at the last one, for the format as for the name of a table. A name that passes
the check has one dot, so both cut it alike.
-/

namespace Tabula

namespace File.Path

variable {path name : String}

theorem toList_dotted (stem extension : String) :
    (stem ++ "." ++ extension).toList = stem.toList ++ '.' :: extension.toList := by
  rw [String.toList_append, String.toList_append, List.append_assoc]
  rfl

/-- A name is split at its last dot, unless nothing stands in front of it. -/
theorem splitName_eq_some_iff {stem extension : String} :
    splitName name = (stem, some extension) ↔
      name = stem ++ "." ++ extension ∧ stem ≠ "" ∧ '.' ∉ extension.toList := by
  unfold splitName
  constructor
  · intro split
    cases divided : Text.cut? '.' name.toList.reverse with
    | none =>
        rw [divided] at split
        cases split
    | some ends =>
        obtain ⟨behind, ahead⟩ := ends
        obtain ⟨reversed, free⟩ := Text.cut?_eq_some_iff.mp divided
        rw [divided] at split
        dsimp only at split
        split at split
        · cases split
        · rename_i nonempty
          cases split
          refine ⟨?_, by simpa using nonempty, by simpa using free⟩
          rw [← String.toList_inj, toList_dotted, ← List.reverse_inj, reversed]
          simp
  · rintro ⟨rfl, nonempty, free⟩
    have divided : Text.cut? '.' (stem ++ "." ++ extension).toList.reverse =
        some (extension.toList.reverse, stem.toList.reverse) :=
      Text.cut?_eq_some_iff.mpr ⟨by simp, by simpa using free⟩
    rw [divided]
    simp [nonempty]

/-- A part that is longer than two dots names a step. -/
theorem fileName?_eq_some {parents : List String} (divided : parts path = parents ++ [name])
    (long : 2 < name.length) : fileName? path = some name := by
  have differs : ∀ short : String, short.length ≤ 2 → name ≠ short := by
    rintro short isShort rfl
    omega
  have isStep : isStep name = true := by
    rw [Path.isStep, Bool.and_eq_true, decide_eq_true_iff, decide_eq_true_iff]
    exact ⟨differs "" (by decide), differs "." (by decide)⟩
  have last : (steps path).getLast? = some name := by
    rw [steps, divided, List.filter_append, List.filter_singleton, isStep, cond_true,
      List.getLast?_concat]
  rw [fileName?, last]
  exact if_neg (differs ".." (by decide))

end File.Path

namespace Csv

theorem reads_table (name : String) (dialect : Dialect) (bytes : ByteArray) :
    Reads name dialect.maxRows (records dialect bytes.toList) (table name dialect bytes) :=
  reads_tableOfRecords name dialect.maxRows (records dialect bytes.toList)

/-- A table has the name that it is read under. -/
theorem Reads.name_eq {name : String} {maxRows : Nat} {records : List Record} {table : Table}
    (reads : Reads name maxRows records (.ok table)) : table.name = name := by
  cases reads with
  | nothing => rfl
  | table header data rows few areRows => rfl

theorem Reads.ne_extension {name : String} {maxRows : Nat} {records : List Record}
    {fault : Source.Fault} (reads : Reads name maxRows records (.error fault)) (found : String) :
    fault ≠ .extension found := by
  cases reads <;> exact nofun

end Csv

namespace Source

open File

variable {path stem : String} {format : Format} {dialect : Csv.Dialect}
  {found : Except File.Fault Node}

/-- How the extension of a format is spelled. -/
def Format.spelling : Format → String
  | workbook => "xlsx"
  | csv => "csv"

/-- A file is called by a stem without a dot and the extension of a format. -/
structure Named (path stem : String) (format : Format) : Prop where
  fileName : Path.fileName? path = some (stem ++ "." ++ format.spelling)
  nonempty : stem ≠ ""
  free : '.' ∉ stem.toList

theorem Format.dot_not_mem_spelling (format : Format) : '.' ∉ format.spelling.toList := by
  cases format <;> decide

theorem slash_not_mem (noSlash : '/' ∉ stem.toList) :
    '/' ∉ (stem ++ "." ++ format.spelling).toList := by
  rw [Path.toList_dotted, List.mem_append, List.mem_cons, not_or, not_or]
  exact ⟨noSlash, by decide, by cases format <;> decide⟩

/-- A part that is called like a source is the name of a file. -/
theorem named_of_parts (parents : List String) (nonempty : stem ≠ "") (free : '.' ∉ stem.toList)
    (divided : Path.parts path = parents ++ [stem ++ "." ++ format.spelling]) :
    Named path stem format where
  fileName := by
    refine Path.fileName?_eq_some divided ?_
    have long : 2 < format.spelling.length := by cases format <;> decide
    rw [String.length_append]
    omega
  nonempty := nonempty
  free := free

/-- The name of a source has one dot. -/
theorem Named.count_eq (named : Named path stem format) :
    (stem ++ "." ++ format.spelling).toList.count '.' = 1 := by
  rw [Path.toList_dotted, Text.count_append_cons named.free,
    List.count_eq_zero_of_not_mem format.dot_not_mem_spelling]

theorem Named.splitName_eq (named : Named path stem format) :
    Path.splitName (stem ++ "." ++ format.spelling) = (stem, some format.spelling) :=
  Path.splitName_eq_some_iff.mpr ⟨rfl, named.nonempty, format.dot_not_mem_spelling⟩

theorem Named.stem_eq (named : Named path stem format) : Path.stem path = stem := by
  rw [Path.stem, named.fileName]
  dsimp only
  rw [named.splitName_eq]

theorem Named.ofPath_eq (named : Named path stem format) : Format.ofPath path = .ok format := by
  have extension : Path.extension path = format.spelling := by
    rw [Path.extension, named.fileName]
    dsimp only
    rw [named.splitName_eq]
    rfl
  rw [Format.ofPath, extension]
  cases format <;> rfl

theorem readCsv_eq_ok {workbook : Workbook}
    (isRead : readCsv dialect path found = .ok workbook) :
    ∃ table, workbook = { tables := [table] } ∧ table.name = Path.stem path := by
  unfold readCsv at isRead
  split at isRead
  · cases isRead
  · rename_i data
    cases tableEq : Csv.table (Path.stem path) dialect data with
    | error fault =>
        rw [tableEq] at isRead
        cases isRead
    | ok table =>
        rw [tableEq] at isRead
        cases isRead
        have reads := Csv.reads_table (Path.stem path) dialect data
        rw [tableEq] at reads
        exact ⟨table, rfl, reads.name_eq⟩
  · cases isRead

theorem Named.read_eq_readCsv (named : Named path stem .csv) :
    read dialect path found = readCsv dialect path found := by
  unfold read
  rw [named.ofPath_eq]

/-- Only the format of a path can have an unknown extension. -/
theorem ofPath_eq_of_read_eq {extension : String}
    (failed : read dialect path found = .error (.extension extension)) :
    Format.ofPath path = .error (.extension extension) := by
  unfold read at failed
  split at failed
  · rename_i fault unknown
    cases failed
    exact unknown
  · unfold readWorkbook Sheet.workbook Sheet.workbookOf at failed
    split at failed
    · split at failed <;> cases failed
    · cases failed
  · unfold readCsv at failed
    split at failed
    · cases failed
    · rename_i data
      have reads := Csv.reads_table (Path.stem path) dialect data
      cases tableEq : Csv.table (Path.stem path) dialect data with
      | error fault =>
          rw [tableEq] at failed reads
          cases failed
          exact absurd rfl (reads.ne_extension extension)
      | ok table =>
          rw [tableEq] at failed
          cases failed
    · cases failed

end Source

namespace Conversion

open File Source

variable {path : String} {options : Options} {limit : Nat} {tree : Tree}

/-- A name of a source is cut at its only dot. -/
theorem checkName_eq_ok_iff :
    checkName path = .ok () ↔ ∃ stem format, Named path stem format := by
  have accepted_iff : checkName path = .ok () ↔ isSourceName path = true := by
    unfold checkName
    split <;> simp [*]
  rw [accepted_iff, isSourceName]
  constructor
  · intro accepted
    split at accepted
    · rename_i stem extension divided
      obtain ⟨name, fileName, divided⟩ := Option.bind_eq_some_iff.mp divided
      obtain ⟨nameEq, free⟩ := Text.cut?_eq_some_iff.mp divided
      have spelled : name = String.ofList stem ++ "." ++ String.ofList extension := by
        rw [← String.toList_inj, nameEq]
        simp
      have named : ∀ format : Format, String.ofList extension = format.spelling →
          stem ≠ [] → Named path (String.ofList stem) format := fun format isFormat nonempty =>
        ⟨by rw [fileName, spelled, isFormat], by simpa using nonempty, by simpa using free⟩
      simp only [Bool.and_eq_true, Bool.or_eq_true, decide_eq_true_iff] at accepted
      obtain ⟨nonempty, isWorkbook | isCsv⟩ := accepted
      · exact ⟨_, .workbook, named .workbook isWorkbook nonempty⟩
      · exact ⟨_, .csv, named .csv isCsv nonempty⟩
    · cases accepted
  · rintro ⟨stem, format, named⟩
    have divided : (Path.fileName? path).bind (fun name => Text.cut? '.' name.toList) =
        some (stem.toList, format.spelling.toList) := by
      rw [named.fileName]
      exact Text.cut?_eq_some_iff.mpr ⟨by simp, named.free⟩
    rw [divided]
    have nonempty : stem.toList ≠ [] := by simpa using named.nonempty
    cases format <;> simp [nonempty, Format.spelling]

/-- A conversion never finds that the extension of its input is unknown. -/
theorem run_ne_extension (extension : String) :
    (run options limit tree).2 ≠ .error (.source (.extension extension)) := by
  intro failed
  rcases run_eq_error failed with unprepared | ⟨_, other⟩
  · rcases prepare_eq_error unprepared with
      other | ⟨accepted, ⟨_, other⟩ | ⟨node, _, other | unmade⟩⟩
    · cases other
    · cases other
    · cases other
    · rcases artifactsOf_eq_error unmade with ⟨_, same, unread⟩ | ⟨_, other⟩
      · cases same
        obtain ⟨stem, format, named⟩ := checkName_eq_ok_iff.mp accepted
        have unknown := ofPath_eq_of_read_eq unread
        rw [named.ofPath_eq] at unknown
        cases unknown
      · cases other
  · cases other

/-- The check of a name and the readers agree. What is accepted are the files that are called by a
non-empty stem without a dot and the extension of a format in lower case, in any directory. Their
names have one dot, the format is the one spelled behind it, and a delimited text becomes one table
that is named by the stem. So no conversion finds an unknown extension. -/
theorem checkName_exact :
    (∀ path, checkName path = .ok () ↔ ∃ stem format, Named path stem format) ∧
      (∀ path stem format, Named path stem format →
        (stem ++ "." ++ format.spelling).toList.count '.' = 1 ∧
          Format.ofPath path = .ok format ∧
          (format = .csv → ∀ dialect found,
            Source.read dialect path found = Source.readCsv dialect path found ∧
              ∀ workbook, Source.readCsv dialect path found = .ok workbook →
                workbook.names = [stem])) ∧
      (∀ (directory stem : String) (format : Format),
        stem ≠ "" → '.' ∉ stem.toList → '/' ∉ stem.toList →
          Named (stem ++ "." ++ format.spelling) stem format ∧
            Named (directory ++ "/" ++ (stem ++ "." ++ format.spelling)) stem format) ∧
      ∀ options limit tree extension,
        (run options limit tree).2 ≠ .error (.source (.extension extension)) := by
  refine ⟨fun path => checkName_eq_ok_iff, fun path stem format named =>
    ⟨named.count_eq, named.ofPath_eq, ?_⟩, fun directory stem format nonempty free noSlash =>
    ⟨?_, ?_⟩, fun options limit tree extension => run_ne_extension extension⟩
  · rintro rfl dialect found
    refine ⟨named.read_eq_readCsv, fun workbook isRead => ?_⟩
    obtain ⟨table, rfl, name⟩ := readCsv_eq_ok isRead
    rw [named.stem_eq] at name
    exact congrArg (fun name => [name]) name
  · exact named_of_parts [] nonempty free (Path.parts_of_free (slash_not_mem noSlash))
  · refine named_of_parts (Path.parts directory) nonempty free ?_
    rw [Path.parts_append_slash, Path.parts_of_free (slash_not_mem noSlash)]

/-- A reader looks behind the last dot alone, and in any case. -/
example :
    Format.ofPath "book.v2.XLSX" = .ok .workbook ∧
      checkName "book.v2.XLSX" = .error (.inputName "book.v2.XLSX") :=
  ⟨by rfl, by rfl⟩

end Conversion

end Tabula
