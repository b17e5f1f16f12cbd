import Tabula.Key.Options
import Tabula.Key.Settings

/-!
# Column keys

The key of a column says what becomes of its cells. A key with a path delimiter is a
path, whatever else it holds. A key without path and link delimiters is plain. All
others have to be links: a field and a target table around the one link delimiter,
and an option block that names the field to match on.
-/

namespace Tabula

/-- A link key: cells of this column name rows of the target table. -/
structure Link where
  /-- The field that receives the linked rows. -/
  field : String
  /-- The table whose rows are linked. -/
  target : String
  /-- The options as written, placeholders not filled in. -/
  options : Options
deriving DecidableEq, Repr

/-- The meaning of a column key. -/
inductive Column where
  | plain
  | path (segments : List String)
  | link (link : Link)
deriving DecidableEq, Repr

/-- Why a key that holds a link delimiter is not a link. -/
inductive KeyFault where
  /-- The only link delimiter stands in the option block, before this text. -/
  | noTarget (text : String)
  /-- More than one link delimiter stands before the option block. -/
  | severalTargets
  /-- No option names the field to match on. -/
  | noMatchOption
deriving DecidableEq, Repr

namespace Link

/-- The option that names the field of the target table to match on. -/
def matchOption : String := "ref"

/-- The option for the text put before every token of a cell. -/
def beforeOption : String := "ref_prefix"

/-- The option for the text put after every token of a cell. -/
def afterOption : String := "ref_suffix"

/-- Reads a key that holds a link delimiter and no path delimiter. -/
def ofKey (d : Delimiters) (key : List Char) : Except KeyFault Link :=
  let (head, options) := match Text.cut? d.linkOption key with
    | some (head, block) => (head, Options.ofBlock d.linkOption block)
    | none => (key, [])
  match Text.cut? d.link head with
  | none =>
      let rest := (key.dropWhile (· ≠ d.link)).tail
      .error (.noTarget (String.ofList (rest.takeWhile (· ≠ d.linkOption))))
  | some (field, target) =>
      if d.link ∈ target then
        .error .severalTargets
      else if (Options.last? options matchOption).isNone then
        .error .noMatchOption
      else
        .ok { field := String.ofList field, target := String.ofList target, options }

/-- A link key starts with its field, which is free of the link delimiter, and that
delimiter. -/
theorem exists_key_eq_of_ofKey {d : Delimiters} {key : List Char} {link : Link}
    (read : ofKey d key = .ok link) :
    d.link ∉ link.field.toList ∧ ∃ rest, key = link.field.toList ++ d.link :: rest := by
  have headSplit : ∃ head tail, key = head ++ tail ∧ ∃ field target,
      Text.cut? d.link head = some (field, target) ∧ link.field = String.ofList field := by
    unfold ofKey at read
    cases block : Text.cut? d.linkOption key with
    | none =>
        rw [block] at read
        cases cut : Text.cut? d.link key with
        | none => simp [cut] at read
        | some parts =>
            obtain ⟨field, target⟩ := parts
            simp only [cut] at read
            split at read
            · cases read
            · split at read
              · cases read
              · cases read
                exact ⟨key, [], by simp, field, target, cut, rfl⟩
    | some parts =>
        obtain ⟨head, options⟩ := parts
        rw [block] at read
        cases cut : Text.cut? d.link head with
        | none => simp [cut] at read
        | some parts =>
            obtain ⟨field, target⟩ := parts
            simp only [cut] at read
            split at read
            · cases read
            · split at read
              · cases read
              · cases read
                exact ⟨head, d.linkOption :: options, (Text.cut?_eq_some_iff.mp block).1,
                  field, target, cut, rfl⟩
  obtain ⟨head, tail, keyEq, field, target, cut, fieldEq⟩ := headSplit
  obtain ⟨headEq, free⟩ := Text.cut?_eq_some_iff.mp cut
  rw [fieldEq, String.toList_ofList]
  exact ⟨free, target ++ tail, by rw [keyEq, headEq]; simp⟩

end Link

namespace Column

/-- The meaning of a key, or why it has none. -/
def ofKey (d : Delimiters) (key : String) : Except KeyFault Column :=
  let text := key.toList
  if d.path ∈ text then
    .ok (.path ((text.splitOn d.path).map String.ofList))
  else if d.link ∈ text then
    (Link.ofKey d text).map .link
  else
    .ok .plain

theorem ofKey_eq_plain_iff {d : Delimiters} {key : String} :
    ofKey d key = .ok .plain ↔ d.path ∉ key.toList ∧ d.link ∉ key.toList := by
  unfold ofKey
  by_cases path : d.path ∈ key.toList
  · simp [path]
  · by_cases link : d.link ∈ key.toList
    · cases read : Link.ofKey d key.toList <;> simp [path, link, read, Except.map]
    · simp [path, link]

theorem ofKey_eq_path_iff {d : Delimiters} {key : String} {segments : List String} :
    ofKey d key = .ok (.path segments) ↔
      d.path ∈ key.toList ∧ (key.toList.splitOn d.path).map String.ofList = segments := by
  unfold ofKey
  by_cases path : d.path ∈ key.toList
  · simp [path]
  · by_cases link : d.link ∈ key.toList
    · cases read : Link.ofKey d key.toList <;> simp [path, link, read, Except.map]
    · simp [path, link]

theorem ofKey_eq_link_iff {d : Delimiters} {key : String} {link : Link} :
    ofKey d key = .ok (.link link) ↔
      d.path ∉ key.toList ∧ d.link ∈ key.toList ∧ Link.ofKey d key.toList = .ok link := by
  unfold ofKey
  by_cases path : d.path ∈ key.toList
  · simp [path]
  · by_cases delimited : d.link ∈ key.toList
    · cases read : Link.ofKey d key.toList <;> simp [path, delimited, read, Except.map]
    · simp [path, delimited]

/-- The field of a link key is a plain key. -/
theorem ofKey_field {d : Delimiters} {key : String} {link : Link}
    (read : ofKey d key = .ok (.link link)) : ofKey d link.field = .ok .plain := by
  obtain ⟨noPath, _, readLink⟩ := ofKey_eq_link_iff.mp read
  obtain ⟨free, rest, keyEq⟩ := Link.exists_key_eq_of_ofKey readLink
  rw [ofKey_eq_plain_iff]
  rw [keyEq, List.mem_append, not_or] at noPath
  exact ⟨noPath.1, free⟩

/-- The segments of a path key without link delimiter are plain keys. -/
theorem ofKey_segment {d : Delimiters} {key segment : String} {segments : List String}
    (read : ofKey d key = .ok (.path segments)) (unmixed : d.link ∉ key.toList)
    (member : segment ∈ segments) : ofKey d segment = .ok .plain := by
  obtain ⟨_, rfl⟩ := ofKey_eq_path_iff.mp read
  obtain ⟨piece, pieceMem, rfl⟩ := List.mem_map.mp member
  rw [ofKey_eq_plain_iff, String.toList_ofList]
  constructor
  · exact Text.not_mem_of_mem_splitOn pieceMem
  · exact fun linkMem => unmixed (Text.mem_of_mem_splitOn pieceMem linkMem)

/-- A path key has at least one segment. -/
theorem segments_ne_nil {d : Delimiters} {key : String} {segments : List String}
    (read : ofKey d key = .ok (.path segments)) : segments ≠ [] := by
  obtain ⟨_, rfl⟩ := ofKey_eq_path_iff.mp read
  rw [ne_eq, List.map_eq_nil_iff]
  exact List.splitOn_ne_nil d.path key.toList

end Column

end Tabula
