import Mathlib.Data.List.DropRight
import Tabula.Proofs.Csv.Gaps
import Tabula.Proofs.Csv.Typing
import Tabula.Proofs.KeyGrammar
import Tabula.Proofs.Run.OneCell

/-!
# Lists in the cells of a link

A cell with a list of texts links the rows that cells with the single texts link, taken together in
table order. In a delimited text the single texts are typed and the list is not, so this holds of
texts that typing keeps; and it is seen in the emitted row as long as no other link to the same
field is settled later.
-/

namespace Tabula

namespace Text

variable {text other : String}

/-- A text is trimmed if it neither starts nor ends with a blank. -/
theorem trim_eq_self_iff : trim text = text ↔
    (∀ c ∈ text.toList.head?, isBlank c = false) ∧
      ∀ c ∈ text.toList.getLast?, isBlank c = false := by
  have atFront (chars : List Char) : chars.dropWhile isBlank = chars ↔
      ∀ c ∈ chars.head?, isBlank c = false := by
    cases chars <;> simp [List.dropWhile_eq_self_iff]
  have atEnd (chars : List Char) : chars.rdropWhile isBlank = chars ↔
      ∀ c ∈ chars.getLast?, isBlank c = false := by
    rw [← List.head?_reverse, ← atFront, List.rdropWhile, List.reverse_eq_iff]
  have trimEq : trim text = text ↔
      (text.toList.dropWhile isBlank).rdropWhile isBlank = text.toList := by
    rw [← String.toList_inj, trim, String.toList_ofList, List.rdropWhile]
  rw [trimEq, ← atFront, ← atEnd]
  constructor
  · intro whole
    have front : text.toList.dropWhile isBlank = text.toList := by
      apply (List.dropWhile_suffix isBlank).eq_of_length_le
      calc text.toList.length
          = ((text.toList.dropWhile isBlank).rdropWhile isBlank).length := by rw [whole]
        _ ≤ (text.toList.dropWhile isBlank).length :=
          (List.rdropWhile_prefix isBlank _).length_le
    exact ⟨front, by rwa [front] at whole⟩
  · rintro ⟨front, behind⟩
    rw [front, behind]

end Text

/-- A text that a list can hold and a field as well: it is not empty, has no blanks at its ends, and
is free of commas, quotes, opening brackets and line ends. -/
structure IsItem (text : String) : Prop where
  nonempty : text ≠ ""
  trimmed : Text.trim text = text
  free : ∀ c ∈ [',', '"', '[', '\n', '\r'], c ∉ text.toList

theorem isItem_iff {text : String} :
    IsItem text ↔ text ≠ "" ∧ Text.trim text = text ∧
      [',', '"', '[', '\n', '\r'].all (· ∉ text.toList) = true := by
  rw [List.all_eq_true]
  simp only [decide_eq_true_eq]
  exact ⟨fun ⟨nonempty, trimmed, free⟩ => ⟨nonempty, trimmed, free⟩,
    fun ⟨nonempty, trimmed, free⟩ => ⟨nonempty, trimmed, free⟩⟩

instance (text : String) : Decidable (IsItem text) :=
  decidable_of_iff _ isItem_iff.symm

namespace IsItem

variable {text other : String}

theorem writes (isItem : IsItem text) :
    Csv.Splitter.Writes Csv.comma (Csv.textBytes text) (Csv.textBytes text) :=
  Csv.writes_textBytes isItem.nonempty fun c special => isItem.free c (by
    simp only [List.mem_cons, List.not_mem_nil, or_false] at special ⊢
    tauto)

theorem exists_toList_eq_cons (isItem : IsItem text) : ∃ c rest, text.toList = c :: rest :=
  List.exists_cons_of_ne_nil fun noChars => isItem.nonempty (String.toList_eq_nil_iff.mp noChars)

theorem trim_list (isItem : IsItem text) (otherIsItem : IsItem other) :
    Text.trim (text ++ "," ++ other) = text ++ "," ++ other := by
  obtain ⟨first, rest, charsEq⟩ := isItem.exists_toList_eq_cons
  obtain ⟨otherFirst, otherRest, otherCharsEq⟩ := otherIsItem.exists_toList_eq_cons
  have front := (Text.trim_eq_self_iff.mp isItem.trimmed).1
  have behind := (Text.trim_eq_self_iff.mp otherIsItem.trimmed).2
  rw [Text.trim_eq_self_iff, String.toList_append, String.toList_append]
  constructor
  · rw [charsEq] at front ⊢
    exact front
  · rw [List.getLast?_append_of_ne_nil _ (by simp [otherCharsEq])]
    exact behind

end IsItem

namespace Link

variable {settings : Settings} {link : Link} {record left right : Fields} {cell : Value}
  {field key : String} {tokens others : List String} {row : Fields}

/-- The positions of the rows that a cell links. -/
def positions (settings : Settings) (link : Link) (record : Fields) (cell : Value)
    (rows : List Fields) : List Nat :=
  (List.range rows.length).filter fun position =>
    (rows[position]?).any (accepts (link.matching record).field
      (link.tokens settings record cell))

/-- The rows at given positions as they are embedded. -/
def embeddedAt (settings : Settings) (rows : List Fields) (positions : List Nat) : List Value :=
  positions.filterMap fun position => (rows[position]?).map fun row => .obj (visible settings row)

theorem linkedRows_eq_embeddedAt (rows : List Fields) :
    link.linkedRows settings record cell (rows.map .obj) =
      embeddedAt settings rows (link.positions settings record cell rows) := by
  have atPositions (rows : List Fields) :
      (List.range rows.length).filterMap (rows[·]?) = rows := by
    induction rows using List.reverseRecOn with
    | nil => rfl
    | append_singleton rows row ih =>
        have before : (List.range rows.length).filterMap ((rows ++ [row])[·]?) = rows := by
          conv_rhs => rw [← ih]
          apply List.filterMap_congr
          intro position inside
          exact List.getElem?_append_left (List.mem_range.mp inside)
        rw [List.length_append, List.length_singleton, List.range_succ, List.filterMap_append,
          before]
        simp
  have objects : (rows.map Value.obj).filterMap Value.fields? = rows := by
    rw [List.filterMap_map]
    exact List.filterMap_some
  rw [linkedRows, objects, embeddedAt, positions, List.filterMap_filter]
  conv_lhs => rw [← atPositions rows, List.filter_filterMap, List.map_filterMap]
  apply List.filterMap_congr
  intro position _
  cases rows[position]? with
  | none => rfl
  | some row =>
      rw [Option.filter_some, Option.any_some]
      split <;> rfl

/-- Rows that are kin match the same tokens, unless these are empty or hold a bracket as the texts
of linked rows do. -/
theorem accepts_eq_of_kin (kin : Fields.Kin key left right) (differ : field ≠ key)
    (plain : ∀ token ∈ tokens, token ≠ "" ∧ '[' ∉ token.toList) :
    accepts field tokens left = accepts field tokens right := by
  have unmatched {record : Fields} {rows : List Fields}
      (linked : Entries.get? record field = some (.arr (rows.map .obj))) :
      accepts field tokens record = false := by
    rw [accepts, linked]
    dsimp only
    rw [decide_eq_false_iff_not]
    intro isToken
    obtain ⟨nonempty, noBracket⟩ := plain _ isToken
    cases rows with
    | nil => exact nonempty rfl
    | cons row rows =>
        apply noBracket
        rw [Value.cellText, Value.cellTexts_eq_map, String.toList_intercalate]
        cases rows <;> simp [Value.cellText, List.intercalate]
  rcases kin.cells field differ with same | ⟨first, second, leftLinked, rightLinked⟩
  · rw [accepts, accepts, same]
  · rw [unmatched leftLinked, unmatched rightLinked]

theorem accepts_append : accepts field (tokens ++ others) row =
    (accepts field tokens row || accepts field others row) := by
  unfold accepts
  cases Entries.get? row field with
  | none => rfl
  | some value => simp [List.mem_append]

/-- A link by the field `id`, with nothing around its tokens. -/
def byId (field target : String) : Link :=
  { field, target, options := [("ref", "id")] }

theorem matching_byId (field target : String) (record : Fields) :
    (byId field target).matching record = { field := "id", before := none, behind := none } :=
  matching_of_not_mem (by simp [byId]) record

theorem tokens_byId {target : String} (noBracket : '[' ∉ cell.cellText.toList) :
    (byId field target).tokens {} record cell =
      (cell.cellText.toList.splitOn ',').map String.ofList := by
  apply List.map_congr_left
  intro piece pieceMem
  have pieceFree : '[' ∉ (String.ofList piece).toList := by
    rw [String.toList_ofList]
    exact fun inside => noBracket (Text.mem_of_mem_splitOn pieceMem inside)
  rw [decorate_of_not_mem (by simp [byId]) pieceFree]
  show "" ++ String.ofList piece ++ "" = _
  rw [String.empty_append, String.append_empty]

end Link

namespace IsItem

variable {text other field target : String} {record : Fields} {cell : Value}

/-- A cell with the text of an item asks for this text. -/
theorem tokens_eq (isItem : IsItem text) (cellText : cell.cellText = text) :
    (Link.byId field target).tokens {} record cell = [text] := by
  rw [Link.tokens_byId (cellText ▸ isItem.free '[' (by decide)), cellText,
    List.splitOn_eq_singleton (isItem.free ',' (by decide)), List.map_singleton, String.ofList_toList]

/-- A cell with a list of two items asks for both. -/
theorem tokens_list_eq (isItem : IsItem text) (otherIsItem : IsItem other)
    (cellText : cell.cellText = text ++ "," ++ other) :
    (Link.byId field target).tokens {} record cell = [text, other] := by
  have chars : cell.cellText.toList = text.toList ++ ',' :: other.toList := by
    rw [cellText, String.toList_append, String.toList_append, List.append_assoc]
    rfl
  have noBracket : '[' ∉ cell.cellText.toList := by
    simp [chars, isItem.free '[' (by decide), otherIsItem.free '[' (by decide)]
  rw [Link.tokens_byId noBracket, chars,
    List.splitOn_append_cons_self_of_not_mem (isItem.free ',' (by decide)),
    List.splitOn_eq_singleton (otherIsItem.free ',' (by decide)), List.map_cons, List.map_singleton,
    String.ofList_toList, String.ofList_toList]

end IsItem

namespace Table

variable {table left right : Table} {key field : String} {link : Link} {index : Nat}
  {row : Fields} {positions others : List Nat}

/-- A field of an emitted row, when a table is run alone. -/
def emitted? (table : Table) (index : Nat) (field : String) : Option Value := do
  let publication ← (table.alone.publish {}).toOption
  let artifact ← publication.artifacts.find? (·.name = table.name)
  let document ← artifact.document.fields?
  let rows ← (← Entries.get? document "data").items?
  Entries.get? (← (← rows[index]?).fields?) field

/-- A row of a table that is run alone links the rows at given positions: these are the rows that
its cell asks for when the link has its turn, and they are emitted in the field of the link. -/
structure LinksRows (table : Table) (key : String) (link : Link) (index : Nat)
    (positions : List Nat) : Prop where
  asked : ∃ record cell, (table.alone.rowsInTurn {} ⟨table.name, key⟩)[index]? = some record ∧
    Entries.get? record key = some cell ∧
      positions = link.positions {} record cell (table.alone.rowsInTurn {} ⟨table.name, key⟩)
  emitted : table.emitted? index link.field =
    some (.arr (Link.embeddedAt {} (table.alone.rowsInTurn {} ⟨table.name, key⟩) positions))

/-- A regular table without option block that is run alone is emitted with its resolved rows. -/
theorem emitted?_eq (regular : TableName.kind {} table.name = .regular)
    (bare : '$' ∉ table.name.toList) (faultless : table.alone.keyFault? {} = none)
    (rowAt : table.rows[index]? = some row) (field : String) :
    table.emitted? index field =
      Entries.get? (table.alone.resolvedRow {} table.name row) field := by
  have noPatch : ∀ other ∈ table.alone.tables, TableName.kind {} other.name ≠ .patch := by
    rw [alone, List.forall_mem_singleton, regular]
    decide
  obtain ⟨publication, published⟩ := (Workbook.exists_publish_eq_ok_iff noPatch).mpr
    ⟨table.nodup_names_alone, faultless⟩
  have emits (rows : List Fields) : table.artifact? {} rows =
      some { name := table.name, document := .obj [("data", .arr (rows.map .obj))] } := by
    rw [artifact?, regular, TableName.parts?_eq_none bare]
    rfl
  have artifacts : publication.artifacts =
      [{ name := table.name
         document := .obj
          [("data",
            .arr ((table.rows.map (table.alone.resolvedRow {} table.name)).map .obj))] }] := by
    rw [Workbook.artifacts_of_no_patch noPatch published]
    show [table].filterMap _ = _
    rw [List.filterMap_cons, List.filterMap_nil, emits]
  simp [emitted?, published, artifacts, Except.toOption, Value.fields?, Entries.get?_cons,
    Value.items?, rowAt]

theorem linksRows_positions (regular : TableName.kind {} table.name = .regular)
    (bare : '$' ∉ table.name.toList) (faultless : table.alone.keyFault? {} = none)
    (rowAt : table.rows[index]? = some row) (keyMem : key ∈ Entries.keys row)
    (read : Column.ofKey {} key = .ok (.link link)) (self : link.target = table.name)
    (last : table.alone.SetsLast {} ⟨table.name, key⟩ link.field row) :
    ∃ cell, Entries.get? (table.alone.rowInTurn {} ⟨table.name, key⟩ row) key = some cell ∧
      table.LinksRows key link index
        (link.positions {} (table.alone.rowInTurn {} ⟨table.name, key⟩ row) cell
          (table.alone.rowsInTurn {} ⟨table.name, key⟩)) := by
  have isLink : Column.isLink {} key = true := Column.isLink_eq_true_iff.mpr ⟨link, read⟩
  have waits : (⟨table.name, key⟩ : Pending) ∈ (table.alone.firstPass {}).backlog.entries :=
    mem_entries_alone (List.mem_of_getElem? rowAt) keyMem isLink
  have present : key ∈ Entries.keys (table.alone.rowInTurn {} ⟨table.name, key⟩ row) :=
    Workbook.mem_keys_rowInTurn (postpones_alone isLink) keyMem
  obtain ⟨cell, found⟩ := Entries.exists_get?_eq_some present
  have inTurn : table.alone.rowsInTurn {} ⟨table.name, key⟩ =
      table.rows.map (table.alone.rowInTurn {} ⟨table.name, key⟩) :=
    Workbook.rowsInTurn_eq table.nodup_names_alone table.mem_alone rfl
  have stored : (table.alone.storeInTurn {} ⟨table.name, key⟩).rows? link.target =
      some ((table.alone.rowsInTurn {} ⟨table.name, key⟩).map .obj) := by
    rw [self, inTurn]
    exact Workbook.rows?_storeInTurn table.nodup_names_alone table.mem_alone rfl
  refine ⟨cell, found, ⟨_, cell, ?_, found, rfl⟩, ?_⟩
  · rw [inTurn, List.getElem?_map, rowAt]
    rfl
  · rw [emitted?_eq regular bare faultless rowAt, ← Link.linkedRows_eq_embeddedAt]
    exact Workbook.get?_resolvedRow_of_setsLast waits read stored last found

/-- Linked rows stand in table order. -/
theorem LinksRows.eq_filter (linked : table.LinksRows key link index positions) :
    positions = (List.range table.rows.length).filter (· ∈ positions) := by
  obtain ⟨record, cell, _, _, rfl⟩ := linked.asked
  conv_lhs => rw [Link.positions, length_rowsInTurn_alone rfl]
  apply List.filter_congr
  intro position inside
  rw [Link.positions, length_rowsInTurn_alone rfl]
  simp [List.mem_range.mp inside]

/-- Which rows are linked is seen in the rows as they are in the turn of the link. -/
theorem LinksRows.positions_eq (leftLinks : left.LinksRows key link index positions)
    (rightLinks : right.LinksRows key link index others)
    (sameRows : left.alone.rowsInTurn {} ⟨left.name, key⟩ =
      right.alone.rowsInTurn {} ⟨right.name, key⟩) : positions = others := by
  obtain ⟨record, cell, recordAt, found, rfl⟩ := leftLinks.asked
  obtain ⟨other, otherCell, otherAt, otherFound, rfl⟩ := rightLinks.asked
  rw [← sameRows, recordAt] at otherAt
  obtain rfl := Option.some.inj otherAt
  rw [found] at otherFound
  obtain rfl := Option.some.inj otherFound
  rw [sameRows]

end Table

/-- What is the same of related items is the same at every position. -/
theorem any_getElem?_of_forall₂ {α β : Type} {related : α → β → Prop} {items : List α}
    {others : List β} (all : List.Forall₂ related items others) {p : α → Bool} {q : β → Bool}
    (same : ∀ item other, related item other → p item = q other) (position : Nat) :
    (items[position]?).any p = (others[position]?).any q := by
  induction all generalizing position with
  | nil => rfl
  | cons here _ ih =>
      cases position with
      | zero => simpa using same _ _ here
      | succ position => simpa using ih position

/-! ### Lists against items -/

namespace Table

variable {name field key text other : String} {earlier later : List Fields}
  {row first second variant : Fields} {list cell otherCell : Value}

/-- The target of a link is no name with an option block. -/
theorem not_mem_target {link : Link} (read : Column.ofKey {} key = .ok (.link link)) :
    '$' ∉ link.target.toList := by
  cases (Column.ofKey_eq_iff (by decide)).mp read with
  | link _ _ _ targetFree _ _ => exact targetFree.2

section Around

variable (read : Column.ofKey {} key = .ok (.link (Link.byId field name)))
  (regular : TableName.kind {} name = .regular)
  (faultless : (around name earlier later row).alone.keyFault? {} = none)
  (last : (around name earlier later row).alone.SetsLast {} ⟨name, key⟩ field row)
  (same : Fields.SameBut key row variant) (present : key ∈ Entries.keys row)
include read regular faultless last same present

/-- Whatever the cell of the link is, the row links the rows that it asks for. -/
theorem exists_linksRows_around :
    ∃ cell, Entries.get? ((around name earlier later variant).alone.rowInTurn {} ⟨name, key⟩
        variant) key = some cell ∧
      (around name earlier later variant).LinksRows key (Link.byId field name) earlier.length
        ((Link.byId field name).positions {}
          ((around name earlier later variant).alone.rowInTurn {} ⟨name, key⟩ variant) cell
          ((around name earlier later variant).alone.rowsInTurn {} ⟨name, key⟩)) := by
  have tablesSame := sameBut_around name earlier later same
  have rowAt : (around name earlier later variant).rows[earlier.length]? = some variant := by
    rw [around, List.getElem?_append_right (Nat.le_refl _), Nat.sub_self]
    rfl
  exact linksRows_positions regular (not_mem_target read)
    (tablesSame.keyFault?_eq.symm.trans faultless) rowAt (same.keys ▸ present) read rfl
    ((tablesSame.setsLast_iff same).mp last)

/-- With a path below the key the cell is the same whatever it was. -/
theorem linksRows_of_root {links : List Nat} (distinct : Entries.Distinct row)
    (isRoot : key ∈ Fields.roots {} row)
    (linked : (around name earlier later row).LinksRows key (Link.byId field name) earlier.length
      links) :
    (around name earlier later variant).LinksRows key (Link.byId field name) earlier.length
      links := by
  have isLink : Column.isLink {} key = true := Column.isLink_eq_true_iff.mpr ⟨_, read⟩
  obtain ⟨_, _, variantLinked⟩ := exists_linksRows_around read regular faultless last same present
  let empty : Store := { rowsField := Settings.rowsField {} }
  have sameRow : empty.applyColumns {} row = empty.applyColumns {} variant :=
    Store.applyColumns_eq_of_root (fun _ => rfl) isLink same distinct isRoot
  have sameStart : (around name earlier later row).unlinkedRows {} =
      (around name earlier later variant).unlinkedRows {} := by
    simp only [unlinkedRows, around, List.map_append, List.map_cons]
    rw [sameRow]
  have sameRows : (around name earlier later row).alone.rowsInTurn {} ⟨name, key⟩ =
      (around name earlier later variant).alone.rowsInTurn {} ⟨name, key⟩ :=
    (sameBut_around name earlier later same).rowsInTurn_eq rfl sameStart
  rwa [linked.positions_eq variantLinked sameRows]

/-- Without such a path the positions are those of rows with a field `id` of which the text is among
the tokens of the cell. -/
theorem linksRows_of_not_root (notRoot : key ∉ Fields.roots {} row) {tokens : List String}
    (cellAt : Entries.get? variant key = some cell)
    (asks : ∀ record, (Link.byId field name).tokens {} record cell = tokens) :
    (around name earlier later variant).LinksRows key (Link.byId field name) earlier.length
      ((List.range (earlier ++ row :: later).length).filter fun position =>
        (((around name earlier later variant).alone.rowsInTurn {} ⟨name, key⟩)[position]?).any
          (Link.accepts "id" tokens)) := by
  have isLink : Column.isLink {} key = true := Column.isLink_eq_true_iff.mpr ⟨_, read⟩
  obtain ⟨turnCell, found, linked⟩ :=
    exists_linksRows_around read regular faultless last same present
  have variantNotRoot : key ∉ Fields.roots {} variant := by
    rwa [Fields.roots, ← same.keys]
  have sameCell : Entries.get? ((around name earlier later variant).alone.rowInTurn {}
      ⟨name, key⟩ variant) key = Entries.get? variant key :=
    get?_rowInTurn_alone isLink variantNotRoot
  obtain rfl := Option.some.inj (cellAt.symm.trans (sameCell.symm.trans found))
  rw [Link.positions, Link.matching_byId, asks, length_rowsInTurn_alone rfl] at linked
  simpa [around] using linked

end Around

/-- Rows with the cells of two items, in place of a row with the list of both, link the rows that
this row links, and nothing else. -/
theorem exists_linksRows_of_list (isItem : IsItem text) (otherIsItem : IsItem other)
    (read : Column.ofKey {} key = .ok (.link (Link.byId field name)))
    (regular : TableName.kind {} name = .regular) (distinct : Entries.Distinct row)
    (firstSame : Fields.SameBut key row first) (secondSame : Fields.SameBut key row second)
    (listAt : Entries.get? row key = some list) (listText : list.cellText = text ++ "," ++ other)
    (cellAt : Entries.get? first key = some cell) (cellText : cell.cellText = text)
    (otherCellAt : Entries.get? second key = some otherCell)
    (otherCellText : otherCell.cellText = other)
    (faultless : (around name earlier later row).alone.keyFault? {} = none)
    (last : (around name earlier later row).alone.SetsLast {} ⟨name, key⟩ field row) :
    ∃ links otherLinks,
      (around name earlier later first).LinksRows key (Link.byId field name) earlier.length links ∧
        (around name earlier later second).LinksRows key (Link.byId field name) earlier.length
            otherLinks ∧
          (around name earlier later row).LinksRows key (Link.byId field name) earlier.length
            ((List.range (earlier ++ row :: later).length).filter fun position =>
              position ∈ links ∨ position ∈ otherLinks) := by
  have isLink : Column.isLink {} key = true := Column.isLink_eq_true_iff.mpr ⟨_, read⟩
  have present : key ∈ Entries.keys row := Entries.mem_keys_of_get?_eq_some listAt
  -- A path below the key writes over the cell, and then all three rows ask for the same.
  by_cases isRoot : key ∈ Fields.roots {} row
  · obtain ⟨_, _, linked⟩ := exists_linksRows_around read regular faultless last
      (Fields.SameBut.refl key row) present
    refine ⟨_, _, linksRows_of_root read regular faultless last firstSame present distinct isRoot
      linked, linksRows_of_root read regular faultless last secondSame present distinct isRoot
      linked, ?_⟩
    have bounded := linked.eq_filter
    simp only [or_self]
    rwa [bounded] at linked
  · refine ⟨_, _,
      linksRows_of_not_root read regular faultless last firstSame present isRoot cellAt
        fun _ => isItem.tokens_eq cellText,
      linksRows_of_not_root read regular faultless last secondSame present isRoot otherCellAt
        fun _ => otherIsItem.tokens_eq otherCellText, ?_⟩
    have linked := linksRows_of_not_root read regular faultless last (Fields.SameBut.refl key row)
      present isRoot listAt fun _ => isItem.tokens_list_eq otherIsItem listText
    have notId : "id" ≠ key := (Column.ne_of_isLink isLink (by decide)).symm
    have plain {item : String} (isItem : IsItem item) :
        ∀ token ∈ [item], token ≠ "" ∧ '[' ∉ token.toList :=
      List.forall_mem_singleton.mpr ⟨isItem.nonempty, isItem.free '[' (by decide)⟩
    have sameMatches {variant : Fields} (same : Fields.SameBut key row variant) {item : String}
        (isItem : IsItem item) (position : Nat) :
        (((around name earlier later row).alone.rowsInTurn {} ⟨name, key⟩)[position]?).any
            (Link.accepts "id" [item]) =
          (((around name earlier later variant).alone.rowsInTurn {} ⟨name, key⟩)[position]?).any
            (Link.accepts "id" [item]) :=
      any_getElem?_of_forall₂
        ((sameBut_around name earlier later same).kin_rowsInTurn isLink faultless rfl)
        (fun _ _ kin => Link.accepts_eq_of_kin kin notId (plain isItem)) position
    convert linked using 1
    apply List.filter_congr
    intro position inside
    have both (record : Fields) : Link.accepts "id" ([text] ++ [other]) record =
        (Link.accepts "id" [text] record || Link.accepts "id" [other] record) :=
      Link.accepts_append
    rw [List.singleton_append] at both
    simp only [List.mem_filter, inside, true_and, ← sameMatches firstSame isItem,
      ← sameMatches secondSame otherIsItem]
    cases ((around name earlier later row).alone.rowsInTurn {} ⟨name, key⟩)[position]? with
    | none => rfl
    | some record => simp [both]

end Table

namespace Csv

variable {name key field text other : String} {front back : List UInt8} {header : List String}
  {table : Table}

theorem isContainer_of_typed {value : Value} (isValue : typed text = some value) :
    value.isContainer = false := by
  unfold typed at isValue
  split at isValue
  · cases isValue
  · split at isValue <;> cases isValue <;> rfl

/-- A text that typing keeps has a value with this text. -/
theorem exists_typed_eq_of_keeps (kept : Keeps text) :
    ∃ value, typed text = some value ∧ value.cellText = text :=
  Option.map_eq_some_iff.mp kept

/-- Texts that have a value and differ in a gap alone are read into tables that differ in one cell
alone. -/
theorem Gap.exists_around (gap : Gap comma front back)
    (isHeader : (records {} front).head? = some (some header))
    (isColumn : (fieldNames header)[(readUpTo comma front).fields.length]? = some key)
    {written : List UInt8} {field : RawField} (writes : Splitter.Writes comma written field)
    (read : Csv.table name {} (filled front written back) = .ok table) :
    ∃ earlier later, ∃ rowOf : Value → Fields,
      (∀ written text value, Splitter.Writes comma written (textBytes text) →
        Text.trim text = text → typed text = some value →
          Csv.table name {} (filled front written back) =
              .ok (Table.around name earlier later (rowOf value)) ∧
            Entries.Distinct (rowOf value) ∧ Entries.get? (rowOf value) key = some value) ∧
        ∀ text other value otherValue, typed text = some value → typed other = some otherValue →
          Fields.SameBut key (rowOf value) (rowOf otherValue) := by
  obtain ⟨before, left, right, after, leftLength, tableEq⟩ :=
    gap.exists_table_eq isHeader writes read
  rw [← leftLength] at isColumn
  obtain ⟨start, rest, rowsEq⟩ :=
    exists_rowsUnder_eq right (Sheet.nodup_headerNames _) isColumn
  refine ⟨rowsUnder (fieldNames header) before, rowsUnder (fieldNames header) after,
    fun value => start ++ (key, value) :: rest,
    fun written text value writes trimmed isValue => ?_,
    fun text other value otherValue isValue isOtherValue =>
      Fields.sameBut_append_cons (rowsEq text value isValue).1 (isContainer_of_typed isValue)
        (isContainer_of_typed isOtherValue)⟩
  obtain ⟨distinct, rowsOf⟩ := rowsEq text value isValue
  refine ⟨?_, distinct, ?_⟩
  · rw [tableEq written text writes trimmed]
    exact congrArg (fun rows => Except.ok { name, rows : Table }) (rowsOf before after)
  · exact (Entries.mem_iff_get?_eq_some distinct).mp (by simp)

/-- A delimited text has a gap for a cell of a link, and is read into a table with the list of two
texts in the gap. Then it is read with either text alone as well, into tables that differ in this
cell. If one of the tables can be run alone, the others can, and as long as no link to the same
field is settled later, the row with the list links, in table order, the rows that the rows with the
single texts link. -/
theorem table_listCell (gap : Gap comma front back)
    (isHeader : (records {} front).head? = some (some header))
    (isColumn : (fieldNames header)[(readUpTo comma front).fields.length]? = some key)
    (isLink : Column.ofKey {} key = .ok (.link (Link.byId field name)))
    (regular : TableName.kind {} name = .regular) (isItem : IsItem text)
    (otherIsItem : IsItem other) (kept : Keeps text) (otherKept : Keeps other)
    (read : Csv.table name {} (filled front (quoted (text ++ "," ++ other)) back) = .ok table) :
    ∃ earlier later row first second,
      table = Table.around name earlier later row ∧
        Csv.table name {} (filled front (textBytes text) back) =
            .ok (Table.around name earlier later first) ∧
          Csv.table name {} (filled front (textBytes other) back) =
              .ok (Table.around name earlier later second) ∧
            (Entries.get? row key = typed (text ++ "," ++ other) ∧
              Entries.get? first key = typed text ∧ Entries.get? second key = typed other) ∧
              (Fields.SameBut key row first ∧ Fields.SameBut key row second) ∧
                ∀ variant ∈ [row, first, second], ∀ publication,
                  (Table.around name earlier later variant).alone.publish {} = .ok publication →
                    table.alone.SetsLast {} ⟨name, key⟩ field row →
                      ∃ links otherLinks,
                        (Table.around name earlier later first).LinksRows key
                            (Link.byId field name) earlier.length links ∧
                          (Table.around name earlier later second).LinksRows key
                              (Link.byId field name) earlier.length otherLinks ∧
                            table.LinksRows key (Link.byId field name) earlier.length
                              ((List.range table.rows.length).filter fun position =>
                                position ∈ links ∨ position ∈ otherLinks) := by
  have noQuote : '"' ∉ (text ++ "," ++ other).toList := by
    simp [isItem.free '"' (by decide), otherIsItem.free '"' (by decide)]
  obtain ⟨list, isList, listText⟩ := exists_typed_eq_of_keeps
    (keeps_of_foreign (c := ',') (by simp) (by decide) : Keeps (text ++ "," ++ other))
  obtain ⟨cell, isCell, cellText⟩ := exists_typed_eq_of_keeps kept
  obtain ⟨otherCell, isOtherCell, otherCellText⟩ := exists_typed_eq_of_keeps otherKept
  obtain ⟨earlier, later, rowOf, reads, same⟩ :=
    gap.exists_around isHeader isColumn (writes_quoted noQuote) read
  obtain ⟨listRead, distinct, listAt⟩ := reads _ _ list (writes_quoted noQuote)
    (isItem.trim_list otherIsItem) isList
  obtain ⟨cellRead, _, cellAt⟩ := reads _ _ cell isItem.writes isItem.trimmed isCell
  obtain ⟨otherRead, _, otherCellAt⟩ :=
    reads _ _ otherCell otherIsItem.writes otherIsItem.trimmed isOtherCell
  obtain rfl := Except.ok.inj (read.symm.trans listRead)
  refine ⟨earlier, later, rowOf list, rowOf cell, rowOf otherCell, rfl, cellRead, otherRead,
    ⟨listAt.trans isList.symm, cellAt.trans isCell.symm, otherCellAt.trans isOtherCell.symm⟩,
    ⟨same _ _ _ _ isList isCell, same _ _ _ _ isList isOtherCell⟩,
    fun variant variantMem publication published last => ?_⟩
  have variantSame : Fields.SameBut key (rowOf list) variant := by
    simp only [List.mem_cons, List.not_mem_nil, or_false] at variantMem
    rcases variantMem with rfl | rfl | rfl
    · exact same _ _ _ _ isList isList
    · exact same _ _ _ _ isList isCell
    · exact same _ _ _ _ isList isOtherCell
  have faultless := (Table.sameBut_around name earlier later variantSame).keyFault?_eq.trans
    (Workbook.publish_eq_ok published).2.1
  exact Table.exists_linksRows_of_list isItem otherIsItem isLink regular distinct
    (same _ _ _ _ isList isCell) (same _ _ _ _ isList isOtherCell) listAt listText cellAt cellText
    otherCellAt otherCellText faultless last

/-- The bytes in front of the cell of a link in the last row. -/
def familyFront : List UInt8 :=
  textBytes "id,f:T$ref=id\n1,\nb,\nz,"

/-- A family of delimited texts: the cell of the last row varies. -/
def family (written : List UInt8) : ByteArray :=
  filled familyFront written (textBytes "\n")

/-- The table of the family with a list in that cell. -/
def familyTable : Table where
  name := "T"
  rows :=
    [[("id", .num (.integer 1))], [("id", .str "b")],
      [("id", .str "z"), ("f:T$ref=id", .str "1,b")]]

theorem table_listCell_family :
    ∃ earlier later first second links otherLinks,
      Csv.table "T" {} (family (quoted "1,b")) = .ok familyTable ∧
        Csv.table "T" {} (family (textBytes "1")) = .ok (Table.around "T" earlier later first) ∧
          Csv.table "T" {} (family (textBytes "b")) =
              .ok (Table.around "T" earlier later second) ∧
            (Table.around "T" earlier later first).LinksRows "f:T$ref=id" (Link.byId "f" "T")
                earlier.length links ∧
              (Table.around "T" earlier later second).LinksRows "f:T$ref=id" (Link.byId "f" "T")
                  earlier.length otherLinks ∧
                familyTable.LinksRows "f:T$ref=id" (Link.byId "f" "T") earlier.length
                    ((List.range familyTable.rows.length).filter fun position =>
                      position ∈ links ∨ position ∈ otherLinks) ∧
                  familyTable.emitted? 2 "f" =
                    some (.arr [.obj [("id", .num (.integer 1))], .obj [("id", .str "b")]]) := by
  have gap : Gap comma familyFront (textBytes "\n") :=
    { starts := by decide +kernel
      belowHeader := by decide +kernel
      ends := by
        intro byte isHead
        obtain rfl : 10 = byte := Option.some.inj isHead
        exact Or.inr rfl }
  have isHeader : (records {} familyFront).head? = some (some ["id", "f:T$ref=id"]) := by
    decide +kernel
  have isColumn : (fieldNames ["id", "f:T$ref=id"])[(readUpTo comma familyFront).fields.length]? =
      some "f:T$ref=id" := by decide +kernel
  have isLink : Column.ofKey {} "f:T$ref=id" = .ok (.link (Link.byId "f" "T")) := by
    decide +kernel
  have isItem : IsItem "1" := by decide +kernel
  have otherIsItem : IsItem "b" := by decide +kernel
  have read : Csv.table "T" {} (family (quoted "1,b")) = .ok familyTable := by decide +kernel
  have noPatch : ∀ table ∈ familyTable.alone.tables, TableName.kind {} table.name ≠ .patch := by
    decide +kernel
  obtain ⟨publication, published⟩ := (Workbook.exists_publish_eq_ok_iff noPatch).mpr
    ⟨familyTable.nodup_names_alone, by decide +kernel⟩
  obtain ⟨earlier, later, row, first, second, tableEq, firstRead, secondRead, _, _, linked⟩ :=
    table_listCell gap isHeader isColumn isLink (by decide) isItem otherIsItem (by decide +kernel)
      (by decide +kernel) read
  have lastToSet : familyTable.alone.SetsLast {} ⟨"T", "f:T$ref=id"⟩ "f" row := by
    have nothingBehind : familyTable.alone.settledBehind {} ⟨"T", "f:T$ref=id"⟩ = [] := by
      decide +kernel
    rw [Workbook.SetsLast, nothingBehind]
    exact fun _ inside => absurd inside List.not_mem_nil
  obtain ⟨links, otherLinks, firstLinks, secondLinks, listLinks⟩ :=
    linked row List.mem_cons_self publication (tableEq ▸ published) lastToSet
  exact ⟨earlier, later, first, second, links, otherLinks, read, firstRead, secondRead, firstLinks,
    secondLinks, listLinks, by decide +kernel⟩

/-- Delimited texts with two links to one field, the second of which looks for the text of a single
linked row there. -/
def rivals (written : List UInt8) : ByteArray :=
  filled (textBytes "id,f:T$ref=id,f:T$ref=f\na,,\nb,,\nz,") written
    (textBytes ",[object Object]\n")

/-- What the last of three rows is emitted with in the field of the links. -/
def lastEmitted (text : ByteArray) : Option Value :=
  (Csv.table "T" {} text).toOption.bind fun table => table.emitted? 2 "f"

/-- A field with a leading zero is the number without it, and in a list it is not. So the row with
the list does not link the row that the text alone links. And where a link to the same field is
settled later, what it finds depends on the rows that have been linked. -/
theorem not_listCell_padded :
    (∀ text ∈ ["01", "a", "b"], IsItem text) ∧
      (lastEmitted (family (textBytes "01")) =
          some (.arr [.obj [("id", .num (.integer 1))]]) ∧
        lastEmitted (family (textBytes "b")) = some (.arr [.obj [("id", .str "b")]]) ∧
          lastEmitted (family (quoted "01,b")) = some (.arr [.obj [("id", .str "b")]])) ∧
        (Keeps "a" ∧ Keeps "b") ∧
          (lastEmitted (rivals (textBytes "a")) =
              some (.arr [.obj [("id", .str "z"), ("f:T$ref=f", .str "[object Object]"),
                ("f", .arr [.obj [("id", .str "a")]])]]) ∧
            lastEmitted (rivals (quoted "a,b")) = some (.arr [])) := by
  decide +kernel

end Csv

end Tabula
