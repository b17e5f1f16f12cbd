import Tabula.Key.Column
import Tabula.Value

/-!
# The roles of the keys of a row

A plain key stays in its row. A path key and a link key leave it, and each creates a
field in exchange: the first segment of the path, or the field of the link. In a row
where no key holds both delimiters, the created fields are plain keys again, so nothing
that is created can be mistaken for a path or a link.
-/

namespace Tabula

namespace Column

/-- The meaning of a key, if it has one. -/
def of? (d : Delimiters) (key : String) : Option Column :=
  (ofKey d key).toOption

/-- The first segment of a path. -/
def root? : Column → Option String
  | .path segments => segments.head?
  | _ => none

/-- The link of a link column. -/
def link? : Column → Option Link
  | .link found => some found
  | _ => none

/-- Whether a key is a path key. -/
def isPath (d : Delimiters) (key : String) : Bool :=
  match of? d key with
  | some (.path _) => true
  | _ => false

/-- Whether a key is a link key. -/
def isLink (d : Delimiters) (key : String) : Bool :=
  match of? d key with
  | some (.link _) => true
  | _ => false

/-- The field that a column creates in its row. -/
def created? : Column → Option String
  | .plain => none
  | .path segments => segments.head?
  | .link found => some found.field

/-- The field that the column of a key creates in its row. -/
def createdBy? (d : Delimiters) (key : String) : Option String :=
  (of? d key).bind created?

@[simp]
theorem of?_eq_some_iff {d : Delimiters} {key : String} {column : Column} :
    of? d key = some column ↔ ofKey d key = .ok column := by
  rw [of?]
  cases ofKey d key <;> simp [Except.toOption]

theorem isLink_eq_true_iff {d : Delimiters} {key : String} :
    isLink d key = true ↔ ∃ link, ofKey d key = .ok (.link link) := by
  rw [isLink]
  constructor
  · intro isLink
    split at isLink
    · rename_i link read
      exact ⟨link, of?_eq_some_iff.mp read⟩
    · cases isLink
  · rintro ⟨link, read⟩
    rw [of?_eq_some_iff.mpr read]

theorem isLink_eq_false_of_plain {d : Delimiters} {key : String}
    (plain : ofKey d key = .ok .plain) : isLink d key = false := by
  rw [isLink, of?_eq_some_iff.mpr plain]

/-- A link key is not plain. -/
theorem ne_of_isLink {d : Delimiters} {key plain : String} (isLinkKey : isLink d key = true)
    (isPlain : ofKey d plain = .ok .plain) : key ≠ plain := by
  rintro rfl
  rw [isLink_eq_false_of_plain isPlain] at isLinkKey
  cases isLinkKey

theorem isPath_eq_false_of_link {d : Delimiters} {key : String} {link : Link}
    (read : ofKey d key = .ok (.link link)) : isPath d key = false := by
  rw [isPath, of?_eq_some_iff.mpr read]

theorem createdBy?_eq_some_iff {d : Delimiters} {key name : String} :
    createdBy? d key = some name ↔
      ∃ column, ofKey d key = .ok column ∧ column.created? = some name := by
  rw [createdBy?, Option.bind_eq_some_iff]
  simp only [of?_eq_some_iff]

theorem createdBy?_eq_none_of_plain {d : Delimiters} {key : String}
    (plain : ofKey d key = .ok .plain) : createdBy? d key = none := by
  rw [createdBy?, of?_eq_some_iff.mpr plain]
  rfl

/-- A key with a meaning that creates nothing is plain. -/
theorem eq_plain_of_createdBy?_eq_none {d : Delimiters} {key : String} {column : Column}
    (read : ofKey d key = .ok column) (nothing : createdBy? d key = none) :
    column = .plain := by
  rw [createdBy?, of?_eq_some_iff.mpr read] at nothing
  cases column with
  | plain => rfl
  | path segments =>
      have noSegments : segments = [] := List.head?_eq_none_iff.mp nothing
      exact absurd noSegments (segments_ne_nil read)
  | link link => cases nothing

theorem createdBy?_of_link {d : Delimiters} {key : String} {link : Link}
    (read : ofKey d key = .ok (.link link)) : createdBy? d key = some link.field := by
  rw [createdBy?, of?_eq_some_iff.mpr read]
  rfl

/-- What a key without one of the two delimiters creates is a plain key. -/
theorem plain_of_createdBy? {d : Delimiters} {key name : String}
    (unmixed : ¬ (d.path ∈ key.toList ∧ d.link ∈ key.toList))
    (creates : createdBy? d key = some name) : ofKey d name = .ok .plain := by
  obtain ⟨column, read, made⟩ := createdBy?_eq_some_iff.mp creates
  cases column with
  | plain => cases made
  | path segments =>
      have noLink : d.link ∉ key.toList := fun linkMem =>
        unmixed ⟨(ofKey_eq_path_iff.mp read).1, linkMem⟩
      exact ofKey_segment read noLink (List.mem_of_mem_head? made)
  | link link =>
      cases made
      exact ofKey_field read

/-- A key that creates a field is no plain key. -/
theorem ne_of_createdBy? {d : Delimiters} {key name plain : String}
    (creates : createdBy? d key = some name) (isPlain : ofKey d plain = .ok .plain) :
    key ≠ plain := by
  rintro rfl
  rw [createdBy?_eq_none_of_plain isPlain] at creates
  cases creates

end Column

namespace Fields

/-- No key of the row holds both the path and the link delimiter. -/
def Unmixed (d : Delimiters) (row : Fields) : Prop :=
  ∀ key ∈ Entries.keys row, ¬ (d.path ∈ key.toList ∧ d.link ∈ key.toList)

instance (d : Delimiters) (row : Fields) : Decidable (Unmixed d row) :=
  inferInstanceAs (Decidable (∀ key ∈ Entries.keys row, _))

/-- The plain keys of a row, in column order. -/
def plainKeys (d : Delimiters) (row : Fields) : List String :=
  (Entries.keys row).filter fun key => Column.of? d key = some .plain

/-- The first segments of the path keys of a row, in column order. -/
def roots (d : Delimiters) (row : Fields) : List String :=
  (Entries.keys row).filterMap fun key => (Column.of? d key).bind Column.root?

/-- The links of the link keys of a row, in column order. -/
def links (d : Delimiters) (row : Fields) : List Link :=
  (Entries.keys row).filterMap fun key => (Column.of? d key).bind Column.link?

/-- The fields that the link keys of a row create, in column order. -/
def linkFields (d : Delimiters) (row : Fields) : List String :=
  (links d row).map Link.field

theorem mem_plainKeys {d : Delimiters} {row : Fields} {name : String} :
    name ∈ plainKeys d row ↔ name ∈ Entries.keys row ∧ Column.ofKey d name = .ok .plain := by
  rw [plainKeys, List.mem_filter, decide_eq_true_iff, Column.of?_eq_some_iff]

theorem mem_roots {d : Delimiters} {row : Fields} {name : String} :
    name ∈ roots d row ↔ ∃ key ∈ Entries.keys row, ∃ segments,
      Column.ofKey d key = .ok (.path segments) ∧ segments.head? = some name := by
  rw [roots, List.mem_filterMap]
  simp only [Option.bind_eq_some_iff, Column.of?_eq_some_iff]
  constructor
  · rintro ⟨key, keyMem, column, read, root⟩
    cases column with
    | path segments => exact ⟨key, keyMem, segments, read, root⟩
    | plain => cases root
    | link link => cases root
  · rintro ⟨key, keyMem, segments, read, root⟩
    exact ⟨key, keyMem, .path segments, read, root⟩

theorem mem_links {d : Delimiters} {row : Fields} {link : Link} :
    link ∈ links d row ↔
      ∃ key ∈ Entries.keys row, Column.ofKey d key = .ok (.link link) := by
  rw [links, List.mem_filterMap]
  simp only [Option.bind_eq_some_iff, Column.of?_eq_some_iff]
  constructor
  · rintro ⟨key, keyMem, column, read, isLink⟩
    cases column with
    | plain => cases isLink
    | path segments => cases isLink
    | link other =>
        cases isLink
        exact ⟨key, keyMem, read⟩
  · rintro ⟨key, keyMem, read⟩
    exact ⟨key, keyMem, .link link, read, rfl⟩

theorem mem_linkFields {d : Delimiters} {row : Fields} {name : String} :
    name ∈ linkFields d row ↔ ∃ key ∈ Entries.keys row, ∃ link,
      Column.ofKey d key = .ok (.link link) ∧ link.field = name := by
  rw [linkFields, List.mem_map]
  simp only [mem_links]
  constructor
  · rintro ⟨link, ⟨key, keyMem, read⟩, rfl⟩
    exact ⟨key, keyMem, link, read, rfl⟩
  · rintro ⟨key, keyMem, link, read, rfl⟩
    exact ⟨link, ⟨key, keyMem, read⟩, rfl⟩

/-- A key that creates a field is not itself the field of a link. -/
theorem not_mem_linkFields_of_createdBy? {d : Delimiters} {key name : String} (row : Fields)
    (creates : Column.createdBy? d key = some name) : key ∉ linkFields d row := by
  intro member
  obtain ⟨_, _, link, read, rfl⟩ := mem_linkFields.mp member
  exact Column.ne_of_createdBy? creates (Column.ofKey_field read) rfl

/-- What a key other than a link creates is a root. -/
theorem mem_roots_of_createdBy? {d : Delimiters} {row : Fields} {key name : String}
    (keyMem : key ∈ Entries.keys row) (noLink : Column.isLink d key = false)
    (creates : Column.createdBy? d key = some name) : name ∈ roots d row := by
  obtain ⟨column, read, made⟩ := Column.createdBy?_eq_some_iff.mp creates
  cases column with
  | plain => cases made
  | path segments => exact mem_roots.mpr ⟨key, keyMem, segments, read, made⟩
  | link link =>
      rw [Column.isLink_eq_true_iff.mpr ⟨link, read⟩] at noLink
      cases noLink

/-- The roots and the link fields of a row are what its keys create. -/
theorem mem_roots_or_mem_linkFields {d : Delimiters} {row : Fields} {name : String} :
    name ∈ roots d row ∨ name ∈ linkFields d row ↔
      ∃ key ∈ Entries.keys row, Column.createdBy? d key = some name := by
  rw [mem_roots, mem_linkFields]
  simp only [Column.createdBy?_eq_some_iff]
  constructor
  · rintro (⟨key, keyMem, segments, read, root⟩ | ⟨key, keyMem, link, read, rfl⟩)
    · exact ⟨key, keyMem, .path segments, read, root⟩
    · exact ⟨key, keyMem, .link link, read, rfl⟩
  · rintro ⟨key, keyMem, column, read, made⟩
    cases column with
    | plain => cases made
    | path segments => exact Or.inl ⟨key, keyMem, segments, read, made⟩
    | link link =>
        cases made
        exact Or.inr ⟨key, keyMem, link, read, rfl⟩

end Fields

end Tabula
