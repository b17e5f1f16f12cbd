import Mathlib.Data.List.Basic
import Tabula.Proofs.Csv.Rows

/-!
# Fields in a gap

A gap of a delimited text is a place for one field below the header: a field starts there, and what
stands behind it ends a field. Whatever field is written into a gap, the fields around it and the
other records stay the same. A text is written as it is, if it is not empty and none of its
characters has a meaning between fields, or else between quotes.
-/

namespace Tabula.Csv

/-! ### The bytes of a text -/

/-- The bytes of a text. -/
def textBytes (text : String) : List UInt8 :=
  text.toUTF8.data.toList

theorem textBytes_eq_flatMap (text : String) :
    textBytes text = text.toList.flatMap String.utf8EncodeChar := by
  conv_lhs => rw [textBytes, ← String.ofList_toList (s := text)]
  rw [String.toUTF8_eq_toByteArray]
  exact List.toList_data_toByteArray

theorem fieldText_textBytes {text : String} (trims : Bool) (trimmed : Text.trim text = text) :
    fieldText trims (textBytes text) = some text := by
  have read : String.fromUTF8? ⟨(textBytes text).toArray⟩ = some text := by
    rw [textBytes, Array.toArray_toList, String.toUTF8_eq_toByteArray, String.fromUTF8?,
      dif_pos text.isValidUTF8]
    rfl
  rw [fieldText, read, Option.map_some, trimmed, ite_self]

/-- A byte below `0x80` stands for an ASCII character. -/
theorem eq_of_mem_utf8EncodeChar {c d : Char} (ascii : c.toNat < 0x80)
    (inside : c.toUInt8 ∈ String.utf8EncodeChar d) : c = d := by
  have small : c.toUInt8.toNat = c.toNat := by
    rw [Char.toUInt8, UInt32.toNat_toUInt8]
    exact Nat.mod_eq_of_lt (by have := ascii; simp only [Char.toNat] at this; omega)
  have notLeading (a b : UInt8) (high : 0x80 ≤ b.toNat) : c.toUInt8 ≠ a ||| b := by
    intro equal
    have bound : b.toNat ≤ (a ||| b).toNat := by
      rw [UInt8.toNat_or]
      exact Nat.right_le_or
    rw [← equal, small] at bound
    omega
  rcases Char.utf8Size_eq d with size | size | size | size
  · rw [String.utf8EncodeChar_eq_singleton size, List.mem_singleton] at inside
    have asciiToo : d.val.toNat ≤ 0x7f :=
      UInt32.le_iff_toNat_le.mp (Char.utf8Size_eq_one_iff.mp size)
    have sameByte := congrArg UInt8.toNat inside
    rw [small, UInt32.toNat_toUInt8] at sameByte
    apply Char.ext
    apply UInt32.toNat_inj.mp
    rw [show c.toNat = c.val.toNat from rfl] at sameByte
    omega
  · rw [String.utf8EncodeChar_eq_cons_cons size] at inside
    simp [notLeading] at inside
  · rw [String.utf8EncodeChar_eq_cons_cons_cons size] at inside
    simp [notLeading] at inside
  · rw [String.utf8EncodeChar_eq_cons_cons_cons_cons size] at inside
    simp [notLeading] at inside

theorem mem_toList_of_mem_textBytes {text : String} (c : Char) (ascii : c.toNat < 0x80)
    (inside : c.toUInt8 ∈ textBytes text) : c ∈ text.toList := by
  rw [textBytes_eq_flatMap, List.mem_flatMap] at inside
  obtain ⟨d, dMem, inside⟩ := inside
  rwa [eq_of_mem_utf8EncodeChar ascii inside]

theorem toList_toByteArray (bytes : List UInt8) : bytes.toByteArray.toList = bytes := by
  have loop (array : ByteArray) (i : Nat) (done : List UInt8) :
      ByteArray.toList.loop array i done = done.reverse ++ array.data.toList.drop i := by
    fun_induction ByteArray.toList.loop array i done with
    | case1 i done inside ih =>
        have within : i < array.data.toList.length := by simpa using inside
        rw [ih, List.drop_eq_getElem_cons within]
        simp [ByteArray.get!, inside]
    | case2 i done outside =>
        rw [List.drop_eq_nil_of_le (by simpa using Nat.le_of_not_lt outside), List.append_nil]
  rw [ByteArray.toList, loop]
  simp

/-! ### Reading a field -/

namespace Position

/-- Whether a field starts at the next byte. -/
def startsField : Position → Bool
  | betweenRecords => true
  | fieldStart => true
  | _ => false

end Position

namespace Splitter

variable {delimiter byte : UInt8} {s : Splitter} {bytes : List UInt8} {field : RawField}

/-- Where a field starts none is open, and between records there is no record either. -/
structure Tidy (s : Splitter) : Prop where
  noField : s.position.startsField = true → s.field = []
  noFields : s.position = .betweenRecords → s.fields = []

theorem Tidy.read (tidy : s.Tidy) : (s.read delimiter byte).Tidy := by
  obtain ⟨noField, noFields⟩ := tidy
  constructor
  · unfold Splitter.read readFirst readPlain endField endRecord take
    grind [Position.startsField]
  · unfold Splitter.read readFirst readPlain endField endRecord take
    grind

theorem tidy_foldl_read (bytes : List UInt8) :
    (bytes.foldl (read delimiter) {}).Tidy :=
  List.foldlRecOn bytes (read delimiter) ⟨fun _ => rfl, fun _ => rfl⟩ fun _ tidy _ _ => tidy.read

/-- The ways to write a field: as it is, or between quotes. -/
inductive Writes (delimiter : UInt8) : (written : List UInt8) → RawField → Prop where
  | plain {field : RawField} :
      field ≠ [] →
        (∀ byte ∈ field, byte ≠ quote ∧ byte ≠ delimiter ∧ isLineEnd byte = false) →
          Writes delimiter field field
  | quoted {field : RawField} : quote ∉ field → Writes delimiter (quote :: field ++ [quote]) field

theorem foldl_read_inField (inField : s.position = .inField)
    (free : ∀ byte ∈ bytes, byte ≠ delimiter ∧ isLineEnd byte = false) :
    bytes.foldl (read delimiter) s = { s with field := bytes.reverse ++ s.field } := by
  induction bytes generalizing s with
  | nil => rfl
  | cons byte bytes ih =>
      rw [List.forall_mem_cons] at free
      have first : s.read delimiter byte = s.take .inField byte := by
        rw [read, inField]
        dsimp only
        rw [readPlain, if_neg free.1.1, free.1.2, if_neg Bool.false_ne_true]
      rw [List.foldl_cons, first, ih rfl free.2, take, List.reverse_cons, List.append_assoc]
      simp [inField]

theorem foldl_read_inQuotes (inQuotes : s.position = .inQuotes) (free : quote ∉ bytes) :
    bytes.foldl (read delimiter) s = { s with field := bytes.reverse ++ s.field } := by
  induction bytes generalizing s with
  | nil => rfl
  | cons byte bytes ih =>
      rw [List.mem_cons, not_or] at free
      have first : s.read delimiter byte = s.take .inQuotes byte := by
        rw [read, inQuotes]
        exact if_neg (Ne.symm free.1)
      rw [List.foldl_cons, first, ih rfl free.2, take, List.reverse_cons, List.append_assoc]
      simp [inQuotes]

/-- At the start of a field, what is not the end of a record is its first byte. -/
theorem read_of_startsField (starts : s.position.startsField = true)
    (noLineEnd : isLineEnd byte = false) :
    s.read delimiter byte = s.readFirst delimiter byte := by
  rw [read]
  cases position : s.position with
  | betweenRecords => simp [noLineEnd]
  | fieldStart => rfl
  | inField => simp [position, Position.startsField] at starts
  | inQuotes => simp [position, Position.startsField] at starts
  | behindQuote => simp [position, Position.startsField] at starts

/-- A field that has been read stands open. -/
theorem foldl_read_of_writes (tidy : s.Tidy) (starts : s.position.startsField = true)
    (writes : Writes delimiter bytes field) :
    ∃ position, (position = .inField ∨ position = .behindQuote) ∧
      bytes.foldl (read delimiter) s = { s with position, field := field.reverse } := by
  have noField := tidy.noField starts
  cases writes with
  | plain nonempty free =>
      obtain ⟨byte, rest, rfl⟩ := List.exists_cons_of_ne_nil nonempty
      rw [List.forall_mem_cons] at free
      obtain ⟨⟨noQuote, noDelimiter, noLineEnd⟩, restFree⟩ := free
      have first : s.read delimiter byte = s.take .inField byte := by
        rw [read_of_startsField starts noLineEnd, readFirst, if_neg noQuote, readPlain,
          if_neg noDelimiter, noLineEnd, if_neg Bool.false_ne_true]
      refine ⟨.inField, Or.inl rfl, ?_⟩
      rw [List.foldl_cons, first, foldl_read_inField rfl fun byte byteMem =>
        (restFree byte byteMem).2, take, noField, List.reverse_cons]
  | quoted free =>
      have first : s.read delimiter quote = { s with position := .inQuotes } := by
        rw [read_of_startsField starts (by decide), readFirst, if_pos rfl]
      refine ⟨.behindQuote, Or.inr rfl, ?_⟩
      rw [List.cons_append, List.foldl_cons, first, List.foldl_append,
        foldl_read_inQuotes rfl free, List.foldl_cons, List.foldl_nil, read]
      dsimp only
      rw [if_pos rfl, noField, List.append_nil]

/-- No record ends without a line end. -/
theorem records_foldl_read (noLineEnd : ∀ byte ∈ bytes, isLineEnd byte = false) :
    (bytes.foldl (read delimiter) s).records = s.records := by
  induction bytes generalizing s with
  | nil => rfl
  | cons byte bytes ih =>
      rw [List.forall_mem_cons] at noLineEnd
      rw [List.foldl_cons, ih noLineEnd.2]
      unfold read readFirst readPlain endField take
      grind

/-! ### Reading on -/

/-- What has been read with other records in front. -/
def behind (records : List RawRecord) (s : Splitter) : Splitter :=
  { s with records := s.records ++ records }

/-- What has been read with other fields at the start of the open record. -/
def within (fields : List RawField) (s : Splitter) : Splitter :=
  { s with fields := s.fields ++ fields }

theorem readPlain_behind (records : List RawRecord) :
    (s.behind records).readPlain delimiter byte = (s.readPlain delimiter byte).behind records := by
  unfold readPlain
  split
  · rfl
  · split <;> rfl

theorem read_behind (records : List RawRecord) :
    (s.behind records).read delimiter byte = (s.read delimiter byte).behind records := by
  have plain : (s.behind records).readPlain delimiter byte = _ := readPlain_behind records
  have first : (s.behind records).readFirst delimiter byte =
      (s.readFirst delimiter byte).behind records := by
    unfold readFirst
    split
    · rfl
    · exact plain
  rw [read, read, show (s.behind records).position = s.position from rfl]
  cases s.position with
  | betweenRecords =>
      dsimp only
      split
      · rfl
      · exact first
  | fieldStart => exact first
  | inField => exact plain
  | inQuotes =>
      dsimp only
      split <;> rfl
  | behindQuote =>
      dsimp only
      split
      · rfl
      · exact plain

theorem foldl_read_behind (records : List RawRecord) :
    bytes.foldl (read delimiter) (s.behind records) =
      (bytes.foldl (read delimiter) s).behind records := by
  induction bytes generalizing s with
  | nil => rfl
  | cons byte bytes ih => rw [List.foldl_cons, read_behind, ih, List.foldl_cons]

theorem finish_behind (records : List RawRecord) :
    (s.behind records).finish = records.reverse ++ s.finish := by
  unfold finish behind endRecord
  cases s.position <;> simp

/-- A byte that ends the open record ends it whatever fields it has in front, and any other byte
goes on in it. -/
def GoesOn (s : Splitter) (step : Splitter → UInt8 → Splitter) (byte : UInt8) : Prop :=
  (∀ fields, step (s.within fields) byte = (s.within fields).endRecord) ∨
    (step s byte).position ≠ .betweenRecords ∧ (step s byte).records = s.records ∧
      ∀ fields, step (s.within fields) byte = (step s byte).within fields

theorem goesOn_readPlain : s.GoesOn (readPlain delimiter) byte := by
  unfold GoesOn readPlain
  by_cases ends : byte = delimiter
  · simp [ends, endField, within]
  · cases isLineEnd byte <;> simp [ends, take, within]

theorem goesOn_read (delimiter byte : UInt8) (inside : s.position ≠ .betweenRecords) :
    s.GoesOn (read delimiter) byte := by
  have plain : s.GoesOn (readPlain delimiter) byte := goesOn_readPlain
  unfold GoesOn at plain ⊢
  simp only [read, readFirst, show ∀ fields, (s.within fields).position = s.position from
    fun _ => rfl]
  cases position : s.position with
  | betweenRecords => exact absurd position inside
  | fieldStart =>
      by_cases opens : byte = quote
      · simp [opens, within]
      · simpa [opens] using plain
  | inField => exact plain
  | inQuotes => by_cases closes : byte = quote <;> simp [closes, within, take]
  | behindQuote =>
      by_cases doubled : byte = quote
      · simp [doubled, within, take]
      · simpa [doubled] using plain

theorem endRecord_within (fields : List RawField) (noRecords : s.records = []) :
    (s.within fields).endRecord =
      behind [fields.reverse ++ (s.fields.reverse ++ [s.field.reverse])] {} := by
  simp [within, endRecord, behind, noRecords]

/-- Fields in front of an open record are fields of the record that it becomes, and have no part in
anything else. -/
theorem exists_finish_eq (delimiter : UInt8) (bytes : List UInt8)
    (inside : s.position ≠ .betweenRecords) (noRecords : s.records = []) :
    ∃ right after, ∀ fields, (bytes.foldl (read delimiter) (s.within fields)).finish =
      (fields.reverse ++ right) :: after := by
  induction bytes generalizing s with
  | nil =>
      refine ⟨s.fields.reverse ++ [s.field.reverse], [], fun fields => ?_⟩
      have finished : (s.within fields).finish = (s.within fields).endRecord.records.reverse := by
        unfold finish
        cases position : s.position <;> simp_all [within]
      rw [List.foldl_nil, finished, endRecord_within fields noRecords]
      simp [behind]
  | cons byte bytes ih =>
      -- The byte that ends the record is the only one to look at the fields in front.
      rcases goesOn_read delimiter byte inside with ends | ⟨stillInside, sameRecords, goesOn⟩
      · refine ⟨s.fields.reverse ++ [s.field.reverse],
          (bytes.foldl (read delimiter) {}).finish, fun fields => ?_⟩
        rw [List.foldl_cons, ends, endRecord_within fields noRecords, foldl_read_behind,
          finish_behind]
        rfl
      · obtain ⟨right, after, finished⟩ := ih stillInside (sameRecords.trans noRecords)
        exact ⟨right, after, fun fields => by rw [List.foldl_cons, goesOn, finished]⟩

/-- Behind an open field, the end of the text ends it, and so do a delimiter and a line end. What
follows is the same for every open field. -/
theorem exists_finish_of_open (notQuote : delimiter ≠ quote)
    (ends : ∀ byte ∈ bytes.head?, byte = delimiter ∨ isLineEnd byte = true) :
    ∃ right after, ∀ s : Splitter, s.position = .inField ∨ s.position = .behindQuote →
      (bytes.foldl (read delimiter) s).finish =
        s.records.reverse ++ (s.fields.reverse ++ s.field.reverse :: right) :: after := by
  have readPlain_eq {s : Splitter} {byte : UInt8} (noQuote : byte ≠ quote)
      (isOpen : s.position = .inField ∨ s.position = .behindQuote) :
      s.read delimiter byte = s.readPlain delimiter byte := by
    rcases isOpen with position | position
    · rw [read, position]
    · rw [read, position]
      exact if_neg noQuote
  cases bytes with
  | nil =>
      refine ⟨[], [], fun s isOpen => ?_⟩
      rcases isOpen with position | position <;> simp [finish, position, endRecord]
  | cons byte bytes =>
      have closes := ends byte rfl
      by_cases isDelimiter : byte = delimiter
      · -- Behind the delimiter, all that depends on the open field is in front.
        let opening : Splitter := { position := .fieldStart }
        obtain ⟨right, after, finished⟩ :=
          opening.exists_finish_eq delimiter bytes Position.noConfusion rfl
        refine ⟨right, after, fun s isOpen => ?_⟩
        have first : s.read delimiter byte =
            (opening.within (s.field.reverse :: s.fields)).behind s.records := by
          rw [readPlain_eq (isDelimiter ▸ notQuote) isOpen, readPlain, if_pos isDelimiter]
          simp [opening, endField, within, behind]
        rw [List.foldl_cons, first, foldl_read_behind, finish_behind, finished]
        simp
      · have lineEnd := closes.resolve_left isDelimiter
        have noQuote : byte ≠ quote := by
          rintro rfl
          cases lineEnd
        refine ⟨[], (bytes.foldl (read delimiter) {}).finish, fun s isOpen => ?_⟩
        have first : s.read delimiter byte =
            behind ((s.fields.reverse ++ [s.field.reverse]) :: s.records) {} := by
          rw [readPlain_eq noQuote isOpen, readPlain, if_neg isDelimiter, if_pos lineEnd]
          simp [endRecord, behind]
        rw [List.foldl_cons, first, foldl_read_behind, finish_behind]
        simp

end Splitter

/-! ### Gaps -/

/-- What has been read in front of a gap. -/
def readUpTo (delimiter : UInt8) (front : List UInt8) : Splitter :=
  (dropByteOrderMark front).foldl (Splitter.read delimiter) {}

/-- A place for one field below the header of a delimited text. -/
structure Gap (delimiter : UInt8) (front back : List UInt8) : Prop where
  starts : (readUpTo delimiter front).position.startsField = true
  belowHeader : (readUpTo delimiter front).records ≠ []
  ends : ∀ byte ∈ back.head?, byte = delimiter ∨ Splitter.isLineEnd byte = true

theorem dropByteOrderMark_of_unmarked {bytes : List UInt8}
    (unmarked : ¬ [0xef, 0xbb, 0xbf] <+: bytes) : dropByteOrderMark bytes = bytes := by
  unfold dropByteOrderMark
  split
  · exact absurd ⟨_, rfl⟩ unmarked
  · rfl

/-- No part of a byte order mark is a record, so none ends behind one. -/
theorem dropByteOrderMark_append {delimiter : UInt8} {front : List UInt8}
    (records : (readUpTo delimiter front).records ≠ []) (back : List UInt8) :
    dropByteOrderMark (front ++ back) = dropByteOrderMark front ++ back := by
  by_cases marked : [0xef, 0xbb, 0xbf] <+: front
  · obtain ⟨rest, rfl⟩ := marked
    rfl
  · have unmarked : ¬ [0xef, 0xbb, 0xbf] <+: front ++ back := by
      intro whole
      have part : front <+: [0xef, 0xbb, 0xbf] :=
        (List.prefix_or_prefix_of_prefix whole (List.prefix_append front back)).resolve_left marked
      have noLineEnd : ∀ byte ∈ ([0xef, 0xbb, 0xbf] : List UInt8),
          Splitter.isLineEnd byte = false := by
        simp [Splitter.isLineEnd]
      rw [readUpTo, dropByteOrderMark_of_unmarked marked, Splitter.records_foldl_read
        fun byte byteMem => noLineEnd byte (part.subset byteMem)] at records
      exact records rfl
    rw [dropByteOrderMark_of_unmarked unmarked, dropByteOrderMark_of_unmarked marked]

namespace Gap

variable {delimiter : UInt8} {front back written : List UInt8} {field : RawField}

/-- Whatever is written into a gap, the fields around it and the other records are the same. -/
theorem exists_split_eq (gap : Gap delimiter front back) (notQuote : delimiter ≠ Splitter.quote) :
    ∃ right after, ∀ written field, Splitter.Writes delimiter written field →
      split delimiter (front ++ written ++ back) =
        (readUpTo delimiter front).records.reverse ++
          ((readUpTo delimiter front).fields.reverse ++ field :: right) :: after := by
  obtain ⟨right, after, finished⟩ := Splitter.exists_finish_of_open notQuote gap.ends
  refine ⟨right, after, fun written field writes => ?_⟩
  obtain ⟨position, isOpen, opened⟩ :=
    Splitter.foldl_read_of_writes (Splitter.tidy_foldl_read _) gap.starts writes
  rw [split, List.append_assoc, dropByteOrderMark_append gap.belowHeader, List.foldl_append,
    List.foldl_append, opened, finished _ isOpen, List.reverse_reverse]
  rfl

end Gap

/-! ### Tables of texts with a gap -/

/-- The byte between fields, unless a dialect has another one. -/
def comma : UInt8 :=
  (Dialect.delimiter {}).toUInt8

/-- A text between quotes. -/
def quoted (text : String) : List UInt8 :=
  Splitter.quote :: textBytes text ++ [Splitter.quote]

/-- The delimited text with a field written into a gap. -/
def filled (front written back : List UInt8) : ByteArray :=
  (front ++ written ++ back).toByteArray

section Writing

variable {text : String}

/-- A text without commas, quotes and line ends is written as it is. -/
theorem writes_textBytes (nonempty : text ≠ "")
    (free : ∀ c ∈ [',', '"', '\n', '\r'], c ∉ text.toList) :
    Splitter.Writes comma (textBytes text) (textBytes text) := by
  have absent (c : Char) (special : c ∈ [',', '"', '\n', '\r']) : c.toUInt8 ∉ textBytes text := by
    intro inside
    have ascii : c.toNat < 0x80 := by
      simp only [List.mem_cons, List.not_mem_nil, or_false] at special
      rcases special with rfl | rfl | rfl | rfl <;> decide
    exact free c special (mem_toList_of_mem_textBytes c ascii inside)
  apply Splitter.Writes.plain
  · intro noBytes
    apply nonempty
    rw [textBytes_eq_flatMap, List.flatMap_eq_nil_iff] at noBytes
    rw [← String.toList_eq_nil_iff, List.eq_nil_iff_forall_not_mem]
    exact fun c inside => String.utf8EncodeChar_ne_nil (noBytes c inside)
  · intro byte byteMem
    refine ⟨?_, ?_, ?_⟩
    · rintro rfl
      exact absent '"' (by decide) byteMem
    · rintro rfl
      exact absent ',' (by decide) byteMem
    · rw [Splitter.isLineEnd, Bool.or_eq_false_iff, decide_eq_false_iff_not,
        decide_eq_false_iff_not]
      constructor
      · rintro rfl
        exact absent '\n' (by decide) byteMem
      · rintro rfl
        exact absent '\r' (by decide) byteMem

/-- A text without quotes can be written between quotes. -/
theorem writes_quoted (free : '"' ∉ text.toList) :
    Splitter.Writes comma (quoted text) (textBytes text) := by
  apply Splitter.Writes.quoted
  intro inside
  exact free (mem_toList_of_mem_textBytes '"' (by decide) inside)

end Writing

theorem recordTexts_append_cons {trims : Bool} {left right : RawRecord} {field : RawField}
    {texts : List String} :
    recordTexts trims (left ++ field :: right) = some texts ↔
      ∃ front text back, recordTexts trims left = some front ∧
        fieldText trims field = some text ∧ recordTexts trims right = some back ∧
          texts = front ++ text :: back := by
  rw [recordTexts, List.mapM_append, List.mapM_cons]
  simp only [Option.bind_eq_bind, Option.pure_def, Option.bind_eq_some_iff, Option.some.injEq]
  constructor
  · rintro ⟨front, frontEq, _, ⟨text, textEq, back, backEq, rfl⟩, rfl⟩
    exact ⟨front, text, back, frontEq, textEq, backEq, rfl⟩
  · rintro ⟨front, text, back, frontEq, textEq, backEq, rfl⟩
    exact ⟨front, frontEq, _, ⟨text, textEq, back, backEq, rfl⟩, rfl⟩

theorem length_recordTexts {trims : Bool} {record : RawRecord} {texts : List String}
    (read : recordTexts trims record = some texts) : texts.length = record.length := by
  induction record generalizing texts with
  | nil =>
      obtain rfl : [] = texts := by simpa [recordTexts] using read
      rfl
  | cons field record ih =>
      obtain ⟨front, text, back, frontEq, _, backEq, rfl⟩ :=
        recordTexts_append_cons.mp ((List.nil_append (field :: record)).symm ▸ read)
      obtain rfl : [] = front := by simpa [recordTexts] using frontEq
      rw [List.nil_append, List.length_cons, ih backEq, List.length_cons]

/-- The first record in front of a gap is the first one of every text with that gap. -/
theorem Gap.exists_records_eq_cons {front back : List UInt8} {header : List String}
    (gap : Gap comma front back) (isHeader : (records {} front).head? = some (some header)) :
    ∃ first rest, (readUpTo comma front).records.reverse = first :: rest ∧
      recordTexts true first = some header := by
  obtain ⟨first, rest, recordsEq⟩ := List.exists_cons_of_ne_nil
    (List.reverse_ne_nil_iff.mpr gap.belowHeader)
  refine ⟨first, rest, recordsEq, ?_⟩
  have starts : (split comma front).head? = some first := by
    rw [split, ← readUpTo, Splitter.finish]
    split
    · rw [recordsEq]
      rfl
    · rw [Splitter.endRecord, List.reverse_cons, recordsEq]
      rfl
  rw [records, List.head?_map, ← comma, starts] at isHeader
  exact Option.some.inj isHeader

/-- With one text in a gap a delimited text is read into a table. Then it is so with any other text
in the gap, and the rows are read off the same records save for this text. -/
theorem Gap.exists_table_eq {name : String} {front back : List UInt8} {header : List String}
    (gap : Gap comma front back) (isHeader : (records {} front).head? = some (some header))
    {written : List UInt8} {field : RawField} (writes : Splitter.Writes comma written field)
    {table : Table} (read : Csv.table name {} (filled front written back) = .ok table) :
    ∃ earlier left right later, left.length = (readUpTo comma front).fields.length ∧
      ∀ written text, Splitter.Writes comma written (textBytes text) → Text.trim text = text →
        Csv.table name {} (filled front written back) =
          .ok
            { name
              rows := rowsUnder (fieldNames header)
                (earlier ++ (left ++ text :: right) :: later) } := by
  obtain ⟨first, rest, recordsEq, firstTexts⟩ := gap.exists_records_eq_cons isHeader
  obtain ⟨right, after, splitEq⟩ := gap.exists_split_eq (by decide)
  have recordsOf {written : List UInt8} {field : RawField}
      (writes : Splitter.Writes comma written field) :
      records {} (filled front written back).toList =
        some header :: (rest.map (recordTexts true) ++
          recordTexts true ((readUpTo comma front).fields.reverse ++ field :: right) ::
            after.map (recordTexts true)) := by
    rw [records, filled, toList_toByteArray, ← comma, splitEq written field writes, recordsEq,
      List.cons_append, List.map_cons, firstTexts, List.map_append, List.map_cons]
  rw [Csv.table, recordsOf writes, tableOfRecords_eq_ok_iff] at read
  obtain ⟨data, dataEq, few, _⟩ := read
  obtain ⟨earlier, behind, rfl, earlierEq, behindEq⟩ := List.map_eq_append_iff.mp dataEq.symm
  obtain ⟨texts, later, rfl, textsEq, laterEq⟩ := List.map_eq_cons_iff.mp behindEq
  obtain ⟨leftTexts, _, rightTexts, leftEq, _, rightEq, rfl⟩ :=
    recordTexts_append_cons.mp textsEq.symm
  refine ⟨earlier, leftTexts, rightTexts, later, ?_, fun written text writes trimmed => ?_⟩
  · rw [length_recordTexts leftEq, List.length_reverse]
  · have here := recordTexts_append_cons.mpr
      ⟨leftTexts, text, rightTexts, leftEq, fieldText_textBytes true trimmed, rightEq, rfl⟩
    rw [Csv.table, recordsOf writes, tableOfRecords_eq_ok_iff, here, ← earlierEq, ← laterEq]
    refine ⟨earlier ++ (leftTexts ++ text :: rightTexts) :: later, ?_, ?_, rfl⟩
    · rw [List.map_append, List.map_cons]
    · simpa using few

end Tabula.Csv
