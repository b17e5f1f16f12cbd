import Tabula.Proofs.Csv.Rows
import Tabula.Proofs.Csv.Typing

/-!
# Header texts as field names

The fields of a header are typed like all others, and a column gets the text of the value. So a
header gives its texts as names if typing keeps all of them, and only then: a header text that is a
numeral is written anew, also where it is a path or differs from another text as a text alone.
-/

namespace Tabula.Csv

variable {text : String}

/-- A column asks for its header text if typing keeps it. No number asks for the name of an empty
header cell, since that is no numeral. -/
theorem baseName_typed_eq_iff (nonempty : text ≠ "") :
    Sheet.baseName (typed text) = text ↔ Keeps text := by
  cases isValue : typed text with
  | none => exact absurd (typed_eq_none_iff.mp isValue) nonempty
  | some value =>
      rw [Keeps, isValue, Option.map_some, Option.some.injEq, Sheet.baseName]
      split
      · rename_i noText
        rw [noText]
        constructor
        · rintro rfl
          have kept : Keeps Sheet.emptyName := keeps_of_foreign (c := '_') (by decide) (by decide)
          rw [Keeps, isValue, Option.map_some, Option.some.injEq, noText] at kept
          exact kept
        · exact fun empty => absurd empty.symm nonempty
      · rfl

/-- A header text that is a name among others, where its column asks for another one, would end in
a number behind a bar, and no numeral does. -/
theorem keeps_of_names {taken : List String} (nonempty : text ≠ "")
    (names : Sheet.Names taken (Sheet.baseName (typed text)) text) : Keeps text := by
  generalize baseEq : Sheet.baseName (typed text) = base at names
  cases names with
  | own _ => exact (baseName_typed_eq_iff nonempty).mp baseEq
  | numbered _ _ _ _ _ =>
      refine keeps_of_foreign (c := '_') ?_ (by decide)
      simp [Sheet.numbered, String.toList_append]

/-- The names are the header texts if and only if typing keeps each of these. -/
theorem fieldNames_eq_iff {header : List String} (nonempty : ∀ text ∈ header, text ≠ "")
    (distinct : header.Nodup) : fieldNames header = header ↔ ∀ text ∈ header, Keeps text := by
  constructor
  · intro same text textMem
    obtain ⟨i, inside, rfl⟩ := List.getElem_of_mem textMem
    have inCells : i < (header.map typed).length := by rwa [List.length_map]
    obtain ⟨name, found, names⟩ := Sheet.exists_names (header.map typed) ⟨i, inCells⟩
    rw [← fieldNames, same] at found names
    obtain rfl : header[i] = name := by
      rw [List.getElem?_eq_getElem inside] at found
      exact Option.some.inj found
    exact keeps_of_names (nonempty _ textMem) (by simpa using names)
  · intro kept
    have bases : (header.map typed).map Sheet.baseName = header := by
      rw [List.map_map]
      conv_rhs => rw [← List.map_id header]
      exact List.map_congr_left fun text textMem =>
        (baseName_typed_eq_iff (nonempty text textMem)).mpr (kept text textMem)
    rw [fieldNames, Sheet.headerNames_of_nodup (by rwa [bases]), bases]

/-- In the rows of a delimited text, the fields are named as the columns of its header are, in
column order. These names are the header texts if and only if each of them is the text of the value
it is typed as. So is every text that is no number, such as one with a character that numerals do
not have, and every integer within a signed word as it is usually written. An integer that is
written otherwise, with a plus sign or with needless zeros, is not. -/
theorem table_fieldNames (name : String) (dialect : Dialect) (bytes : ByteArray)
    {header : List String} {rest : List Record}
    (isHeader : records dialect bytes.toList = some header :: rest)
    (nonempty : ∀ text ∈ header, text ≠ "") (distinct : header.Nodup) :
    (∀ table, Csv.table name dialect bytes = .ok table →
        ∃ data : List (List String), rest = data.map some ∧
          table.rows.map Entries.keys =
            (data.map (filledColumns (fieldNames header))).filter (· ≠ [])) ∧
      (fieldNames header = header ↔ ∀ text ∈ header, Keeps text) ∧
      ∀ text ∈ header,
        (Keeps text ↔ ∀ number, number? text.toList = some number → number.cellText = text) ∧
        ((∃ c ∈ text.toList, Decimal.isNumeralChar c = false) → Keeps text) ∧
        ∀ value, Number.isSignedWord value = true →
          (text = integerText value → Keeps text) ∧
            (integerOfChars? text.toList = some value → text ≠ integerText value →
              ¬ Keeps text) := by
  refine ⟨fun table read => ?_, fieldNames_eq_iff nonempty distinct, fun text textMem => ?_⟩
  · rw [Csv.table, isHeader, tableOfRecords_eq_ok_iff] at read
    obtain ⟨data, rfl, _, rfl⟩ := read
    exact ⟨data, rfl, keys_rowsUnder (fieldNames header) data⟩
  · refine ⟨keeps_iff (nonempty text textMem),
      fun ⟨_, inside, foreign⟩ => keeps_of_foreign inside foreign, fun value isWord => ⟨?_, ?_⟩⟩
    · rintro rfl
      exact keeps_integerText isWord
    · exact fun read => mt (keeps_integer_iff read isWord).mp

/-- A delimited text whose header has a path, a link and a number. -/
def prices : ByteArray :=
  "2024,price.amount,cat:Categories$ref=id\n1,5,\"A,B\"\n".toUTF8

theorem table_fieldNames_prices :
    records {} prices.toList =
        [some ["2024", "price.amount", "cat:Categories$ref=id"], some ["1", "5", "A,B"]] ∧
      fieldNames ["2024", "price.amount", "cat:Categories$ref=id"] =
        ["2024", "price.amount", "cat:Categories$ref=id"] ∧
      Csv.table "Products" {} prices =
        .ok
          { name := "Products"
            rows :=
              [[("2024", .num (.integer 1)), ("price.amount", .num (.integer 5)),
                ("cat:Categories$ref=id", .str "A,B")]] } := by
  have isHeader : records {} prices.toList =
      [some ["2024", "price.amount", "cat:Categories$ref=id"], some ["1", "5", "A,B"]] := by
    decide +kernel
  obtain ⟨_, kept, each⟩ :=
    table_fieldNames "Products" {} prices isHeader (by decide) (by decide)
  refine ⟨isHeader, kept.mpr fun text textMem => ?_, by decide +kernel⟩
  obtain ⟨_, foreign, written⟩ := each text textMem
  simp only [List.mem_cons, List.not_mem_nil, or_false] at textMem
  rcases textMem with rfl | rfl | rfl
  · exact (written 2024 (by decide)).1 (by decide)
  · exact foreign ⟨'p', by decide, by decide⟩
  · exact foreign ⟨':', by decide, by decide⟩

/-- Of two paths that are the same number one is renamed after the other, and leading zeros are
lost. -/
theorem not_keepsHeader_months :
    records {} "2024.1,2024.10,007\nx,y,z\n".toUTF8.toList =
        [some ["2024.1", "2024.10", "007"], some ["x", "y", "z"]] ∧
      ["2024.1", "2024.10", "007"].Nodup ∧
      Csv.table "T" {} "2024.1,2024.10,007\nx,y,z\n".toUTF8 =
        .ok
          { name := "T"
            rows := [[("2024.1", .str "x"), ("2024.1_1", .str "y"), ("7", .str "z")]] } ∧
      fieldNames ["2024.1", "2024.10", "007"] ≠ ["2024.1", "2024.10", "007"] := by
  decide +kernel

end Tabula.Csv
