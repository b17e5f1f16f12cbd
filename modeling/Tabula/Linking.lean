import Tabula.Backlog
import Tabula.Fault
import Tabula.Key.Placeholder
import Tabula.Store

/-!
# Linking rows

A link cell holds a list of tokens. Every row of the target table whose match field
has the text of one of the tokens is embedded, in the order of the target table and
without its hidden fields. Links into a table without rows so far are postponed.
-/

namespace Tabula

namespace Link

/-- The options of a link with their placeholders filled in from one row. -/
structure Matching where
  /-- The field of the target rows that is compared with the tokens. -/
  field : String
  /-- The text before every token. -/
  before : Option String
  /-- The text after every token. -/
  behind : Option String
deriving DecidableEq, Repr

/-- Fills in the options of a link for one row. A missing match field is the empty
name. -/
def matching (link : Link) (record : Fields) : Matching :=
  let filled := link.options.map fun option => (option.1, Placeholder.fill record option.2)
  { field := (Options.last? filled matchOption).getD ""
    before := Options.last? filled beforeOption
    behind := Options.last? filled afterOption }

/-- The text that a match field must have for a token: the token between the texts
before and after it, placeholders filled in. -/
def Matching.decorate (matching : Matching) (record : Fields) (token : String) : String :=
  Placeholder.fill record (matching.before.getD "" ++ token ++ matching.behind.getD "")

/-- The decorated tokens of a cell. -/
def tokens (settings : Settings) (link : Link) (record : Fields) (cell : Value) : List String :=
  (cell.cellText.toList.splitOn settings.delimiters.list).map fun token =>
    (link.matching record).decorate record (String.ofList token)

/-- Whether a target row has the match field with the text of a token. -/
def accepts (field : String) (tokens : List String) (row : Fields) : Bool :=
  match Entries.get? row field with
  | some value => value.cellText ∈ tokens
  | none => false

/-- A row as it is embedded in other tables. -/
def visible (settings : Settings) (row : Fields) : Fields :=
  row.filter fun field => !settings.isHidden field.1

/-- The embedded rows of a cell, in the order of the target table. -/
def linkedRows (settings : Settings) (link : Link) (record : Fields) (cell : Value)
    (targetRows : List Value) : List Value :=
  let wanted := link.tokens settings record cell
  let field := (link.matching record).field
  ((targetRows.filterMap Value.fields?).filter (accepts field wanted)).map fun row =>
    .obj (visible settings row)

/-- What became of one link cell. -/
inductive Outcome where
  /-- The given number of rows is embedded. -/
  | linked (count : Nat)
  /-- The target has no rows yet. -/
  | postponed
  /-- The row has no such cell. -/
  | absent
deriving DecidableEq, Repr

/-- Resolves the link of the column `key` in a row of the table `origin`. Only a linked
row changes: the cell goes away and the embedded rows are set as the link's field. -/
def resolve (settings : Settings) (known : List String) (store : Store) (origin key : String)
    (link : Link) (record : Fields) : Except Fault (Outcome × Fields) :=
  if link.target ∉ known then
    .error (.unknownTarget origin key link.target)
  else
    match store.rows? link.target, Entries.get? record key with
    | none, _ => .ok (.postponed, record)
    | some _, none => .ok (.absent, record)
    | some targetRows, some cell =>
        let rows := link.linkedRows settings record cell targetRows
        .ok (.linked rows.length, Entries.put (Entries.erase record key) link.field (.arr rows))

/-- Resolves a link and puts its column on the backlog when it is postponed. -/
def resolveOrPostpone (settings : Settings) (known : List String) (store : Store)
    (origin key : String) (link : Link) (record : Fields) (backlog : Backlog) :
    Except Fault (Outcome × Fields × Backlog) :=
  match link.resolve settings known store origin key record with
  | .error fault => .error fault
  | .ok (.postponed, unchanged) => .ok (.postponed, unchanged, backlog.push ⟨origin, key⟩)
  | .ok (outcome, changed) => .ok (outcome, changed, backlog)

section Brackets

variable {settings : Settings} {link : Link}

/-- Options without brackets are filled in the same way for every row. -/
theorem matching_of_not_mem (free : ∀ option ∈ link.options, '[' ∉ option.2.toList)
    (record : Fields) :
    link.matching record =
      { field := (Options.last? link.options matchOption).getD ""
        before := Options.last? link.options beforeOption
        behind := Options.last? link.options afterOption } := by
  have filled : (link.options.map fun option =>
      (option.1, Placeholder.fill record option.2)) = link.options := by
    conv => rhs; rw [← List.map_id link.options]
    apply List.map_congr_left
    intro option optionMem
    rw [Placeholder.fill_of_not_mem record (free option optionMem)]
    rfl
  rw [matching, filled]

/-- A missing option holds no bracket either. -/
theorem not_mem_last? (free : ∀ option ∈ link.options, '[' ∉ option.2.toList) (name : String) :
    '[' ∉ ((Options.last? link.options name).getD "").toList := by
  cases found : Options.last? link.options name with
  | none => simp
  | some value => exact free (name, value) (Options.mem_of_last?_eq_some found)

/-- Around a token without brackets, options without brackets are put as they are. -/
theorem decorate_of_not_mem (free : ∀ option ∈ link.options, '[' ∉ option.2.toList)
    {token : String} (tokenFree : '[' ∉ token.toList) (record : Fields) :
    (link.matching record).decorate record token =
      (Options.last? link.options beforeOption).getD "" ++ token ++
        (Options.last? link.options afterOption).getD "" := by
  have before := not_mem_last? free beforeOption
  have behind := not_mem_last? free afterOption
  rw [matching_of_not_mem free, Matching.decorate]
  apply Placeholder.fill_of_not_mem
  rw [String.toList_append, String.toList_append, List.mem_append, List.mem_append, not_or, not_or]
  exact ⟨⟨before, tokenFree⟩, behind⟩

/-- Which rows a cell links depends on the cell alone when neither the options nor the cell
hold a bracket. -/
theorem linkedRows_of_not_mem (free : ∀ option ∈ link.options, '[' ∉ option.2.toList)
    {cell : Value} (cellFree : '[' ∉ cell.cellText.toList) (record other : Fields)
    (targetRows : List Value) :
    link.linkedRows settings record cell targetRows =
      link.linkedRows settings other cell targetRows := by
  have sameMatching : link.matching record = link.matching other := by
    rw [matching_of_not_mem free, matching_of_not_mem free]
  have sameTokens : link.tokens settings record cell = link.tokens settings other cell := by
    apply List.map_congr_left
    intro token tokenMem
    have tokenFree : '[' ∉ (String.ofList token).toList := by
      rw [String.toList_ofList]
      exact fun inside => cellFree (Text.mem_of_mem_splitOn tokenMem inside)
    rw [decorate_of_not_mem free tokenFree, decorate_of_not_mem free tokenFree]
  rw [linkedRows, linkedRows, sameMatching, sameTokens]

end Brackets

section Resolve

variable {settings : Settings} {known : List String} {store : Store} {origin key : String}
  {link : Link} {record : Fields}

theorem resolve_of_not_mem (unknown : link.target ∉ known) :
    link.resolve settings known store origin key record =
      .error (.unknownTarget origin key link.target) := by
  rw [resolve, if_pos unknown]

theorem resolve_of_rows?_eq_none (target : link.target ∈ known)
    (noRows : store.rows? link.target = none) :
    link.resolve settings known store origin key record = .ok (.postponed, record) := by
  rw [resolve, if_neg (not_not_intro target), noRows]

theorem resolve_of_present (target : link.target ∈ known) {targetRows : List Value}
    (stored : store.rows? link.target = some targetRows) {cell : Value}
    (found : Entries.get? record key = some cell) :
    link.resolve settings known store origin key record =
      .ok (.linked (link.linkedRows settings record cell targetRows).length,
        Entries.put (Entries.erase record key) link.field
          (.arr (link.linkedRows settings record cell targetRows))) := by
  rw [resolve, if_neg (not_not_intro target), stored, found]

end Resolve

end Link

end Tabula
