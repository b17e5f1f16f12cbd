import Mathlib.Data.List.Pairwise
import Tabula.Proofs.Row.Unfolding
import Tabula.Proofs.Run.Consumption

/-!
# Paths and links in any order

Links touch their own keys and their own fields, and paths touch neither. If in addition
no link reads the record around its cell, and the targets of links have the same rows
whenever they are looked at, then a record is determined by its row and by which columns
have been applied, not by when.
-/

namespace Tabula

namespace Fields

/-- A row whose links stay out of each other's way and out of the way of its paths. Plain
keys may well be the fields of links. -/
structure Separable (d : Delimiters) (row : Fields) : Prop where
  distinct : Entries.Distinct row
  unmixed : Unmixed d row
  /-- No two links have the same field. -/
  fieldsNodup : (linkFields d row).Nodup
  /-- The field of a link is not a root. -/
  fieldsApart : ∀ field ∈ linkFields d row, field ∉ roots d row
  /-- No option value of a link holds a bracket. -/
  optionsFree : ∀ link ∈ links d row, ∀ option ∈ link.options, '[' ∉ option.2.toList
  /-- No cell of a link holds a bracket. -/
  cellsFree : ∀ entry ∈ row, Column.isLink d entry.1 = true → '[' ∉ entry.2.cellText.toList

instance (d : Delimiters) (row : Fields) : Decidable (Separable d row) :=
  decidable_of_iff
    (Entries.Distinct row ∧ Unmixed d row ∧ (linkFields d row).Nodup ∧
      (∀ field ∈ linkFields d row, field ∉ roots d row) ∧
      (∀ link ∈ links d row, ∀ option ∈ link.options, '[' ∉ option.2.toList) ∧
      ∀ entry ∈ row, Column.isLink d entry.1 = true → '[' ∉ entry.2.cellText.toList)
    ⟨fun ⟨distinct, unmixed, nodup, apart, options, cells⟩ =>
        ⟨distinct, unmixed, nodup, apart, options, cells⟩,
      fun ⟨distinct, unmixed, nodup, apart, options, cells⟩ =>
        ⟨distinct, unmixed, nodup, apart, options, cells⟩⟩

/-- What the given columns make of a row when the rows of every target are `flat`: links
have put in their fields what they link, unapplied links are untouched, and every other
field is as the paths alone leave it. -/
structure Interleaved (settings : Settings) (flat : String → List Value) (row : Fields)
    (applied : List String) (record : Fields) : Prop where
  linked : ∀ key ∈ applied, ∀ link cell,
    Column.ofKey settings.delimiters key = .ok (.link link) →
      Entries.get? row key = some cell →
        Entries.get? record key = none ∧
          Entries.get? record link.field =
            some (.arr (link.linkedRows settings row cell (flat link.target)))
  waiting : ∀ key, Column.isLink settings.delimiters key = true →
    (key ∉ applied ∨ key ∉ Entries.keys row) →
      Entries.get? record key = Entries.get? row key
  others : ∀ name, Column.isLink settings.delimiters name = false →
    name ∉ linkFields settings.delimiters row →
      Entries.get? record name =
        Entries.get? (unfoldColumns settings.delimiters applied row) name

section Interleaved

variable {settings : Settings} {flat : String → List Value} {row record : Fields}
  {applied : List String} {key : String}

/-- Without repeated fields, a link key is determined by the field of its link. -/
theorem key_eq_of_field_eq {d : Delimiters} (nodup : (linkFields d row).Nodup) {other : String}
    (keyMem : key ∈ Entries.keys row) (otherMem : other ∈ Entries.keys row)
    {link otherLink : Link} (read : Column.ofKey d key = .ok (.link link))
    (otherRead : Column.ofKey d other = .ok (.link otherLink))
    (sameField : link.field = otherLink.field) : key = other := by
  let fieldOf : String → Option String := fun key =>
    ((Column.of? d key).bind Column.link?).map Link.field
  have apart : (Entries.keys row).Pairwise fun first second =>
      ∀ field, fieldOf first = some field → ∀ field', fieldOf second = some field' →
        field ≠ field' := by
    rw [linkFields, links, List.map_filterMap, List.Nodup, List.pairwise_filterMap] at nodup
    exact nodup
  have symmetric : Std.Symm fun first second =>
      ∀ field, fieldOf first = some field → ∀ field', fieldOf second = some field' →
        field ≠ field' :=
    ⟨fun _ _ differ field found field' found' => Ne.symm (differ field' found' field found)⟩
  have fieldOf_eq : ∀ {key : String} {link : Link}, Column.ofKey d key = .ok (.link link) →
      fieldOf key = some link.field := by
    intro key link read
    show ((Column.of? d key).bind Column.link?).map Link.field = some link.field
    rw [Column.of?_eq_some_iff.mpr read]
    rfl
  by_contra differ
  exact apart.forall keyMem otherMem differ _ (fieldOf_eq read) _ (fieldOf_eq otherRead) sameField

theorem Interleaved.start : Interleaved settings flat row [] row := by
  constructor
  · intro key keyMem
    cases keyMem
  · intro key _ _
    rfl
  · intro name _ _
    rfl

/-- What is not applied after another column was not applied before it. -/
theorem untouched_of_concat {other : String}
    (untouched : other ∉ applied ++ [key] ∨ other ∉ Entries.keys row) :
    other ∉ applied ∨ other ∉ Entries.keys row := by
  rcases untouched with notApplied | notInRow
  · exact Or.inl fun before => notApplied (List.mem_append_left [key] before)
  · exact Or.inr notInRow

/-- A column that changes nothing has no effect, unless it is a link that is still there. -/
theorem Interleaved.skip (interleaved : Interleaved settings flat row applied record)
    (idle : unfoldColumn settings.delimiters
        (unfoldColumns settings.delimiters applied row) key =
      unfoldColumns settings.delimiters applied row)
    (gone : Column.isLink settings.delimiters key = true → key ∈ Entries.keys row →
      key ∈ applied) :
    Interleaved settings flat row (applied ++ [key]) record := by
  constructor
  · intro other otherMem link cell read found
    rcases List.mem_append.mp otherMem with before | last
    · exact interleaved.linked other before link cell read found
    · obtain rfl := List.mem_singleton.mp last
      have inRow := Entries.mem_keys_of_get?_eq_some found
      have before := gone (Column.isLink_eq_true_iff.mpr ⟨link, read⟩) inRow
      exact interleaved.linked other before link cell read found
  · intro other isLink untouched
    exact interleaved.waiting other isLink (untouched_of_concat untouched)
  · intro name noLink noField
    rw [unfoldColumns_concat, idle]
    exact interleaved.others name noLink noField

/-- A path column leaves the links alone and does to all other fields what it does to them
without links. -/
theorem Interleaved.move (interleaved : Interleaved settings flat row applied record)
    {root : String} (creates : Column.createdBy? settings.delimiters key = some root)
    (noLink : Column.isLink settings.delimiters key = false)
    (rootPlain : Column.ofKey settings.delimiters root = .ok .plain)
    (rootApart : root ∉ linkFields settings.delimiters row) :
    Interleaved settings flat row (applied ++ [key])
      (unfoldColumn settings.delimiters record key) := by
  have notField := not_mem_linkFields_of_createdBy? row creates
  have linkKept : ∀ {other : String}, Column.isLink settings.delimiters other = true →
      other ≠ key ∧ Entries.get? (unfoldColumn settings.delimiters record key) other =
        Entries.get? record other := by
    intro other isLink
    have notKey : other ≠ key := by
      rintro rfl
      rw [noLink] at isLink
      cases isLink
    exact ⟨notKey, get?_unfoldColumn_of_ne creates notKey (Column.ne_of_isLink isLink rootPlain)⟩
  constructor
  · intro other otherMem link cell read found
    obtain ⟨notKey, keyKept⟩ := linkKept (Column.isLink_eq_true_iff.mpr ⟨link, read⟩)
    have inRow := Entries.mem_keys_of_get?_eq_some found
    have fieldMem : link.field ∈ linkFields settings.delimiters row :=
      mem_linkFields.mpr ⟨other, inRow, link, read, rfl⟩
    have fieldKept : Entries.get? (unfoldColumn settings.delimiters record key) link.field =
        Entries.get? record link.field := by
      apply get?_unfoldColumn_of_ne creates
      · exact fun same => notField (same ▸ fieldMem)
      · exact fun same => rootApart (same ▸ fieldMem)
    rw [keyKept, fieldKept]
    rcases List.mem_append.mp otherMem with before | last
    · exact interleaved.linked other before link cell read found
    · exact absurd (List.mem_singleton.mp last) notKey
  · intro other isLink untouched
    rw [(linkKept isLink).2]
    exact interleaved.waiting other isLink (untouched_of_concat untouched)
  · intro name nameNoLink noField
    let shared : String → Prop := fun name =>
      Column.isLink settings.delimiters name = false ∧
        name ∉ linkFields settings.delimiters row
    have agree : ∀ name, shared name → Entries.get? record name =
        Entries.get? (unfoldColumns settings.delimiters applied row) name :=
      fun name both => interleaved.others name both.1 both.2
    have rootShared : shared root := ⟨Column.isLink_eq_false_of_plain rootPlain, rootApart⟩
    rw [unfoldColumns_concat]
    exact get?_unfoldColumn_congr agree creates (Column.ne_of_createdBy? creates rootPlain)
      ⟨noLink, notField⟩ rootShared ⟨nameNoLink, noField⟩

/-- A link that is still there has not been applied, and its cell is that of the row. -/
theorem Interleaved.get?_row (interleaved : Interleaved settings flat row applied record)
    (inRow : key ∈ Entries.keys row) {link : Link}
    (read : Column.ofKey settings.delimiters key = .ok (.link link)) {cell : Value}
    (found : Entries.get? record key = some cell) : Entries.get? row key = some cell := by
  have notApplied : key ∉ applied := by
    intro before
    obtain ⟨rowCell, rowFound⟩ := Entries.exists_get?_eq_some inRow
    rw [(interleaved.linked key before link rowCell read rowFound).1] at found
    cases found
  rw [← interleaved.waiting key (Column.isLink_eq_true_iff.mpr ⟨link, read⟩) (Or.inl notApplied)]
  exact found

/-- What a cell of a separable row links does not depend on the record around it. -/
theorem Separable.linkedRows_eq {d : Delimiters} (separable : Separable d row) {link : Link}
    (read : Column.ofKey d key = .ok (.link link)) {cell : Value}
    (found : Entries.get? row key = some cell) (record : Fields) (targetRows : List Value) :
    link.linkedRows settings record cell targetRows =
      link.linkedRows settings row cell targetRows := by
  have inRow := Entries.mem_keys_of_get?_eq_some found
  apply Link.linkedRows_of_not_mem
  · exact separable.optionsFree link (mem_links.mpr ⟨key, inRow, read⟩)
  · exact separable.cellsFree (key, cell) (Entries.mem_of_get?_eq_some found)
      (Column.isLink_eq_true_iff.mpr ⟨link, read⟩)

/-- A link column that is still there puts in its field what it links. -/
theorem Interleaved.embed (separable : Separable settings.delimiters row)
    (inRow : key ∈ Entries.keys row)
    (interleaved : Interleaved settings flat row applied record) {link : Link}
    (read : Column.ofKey settings.delimiters key = .ok (.link link)) {cell : Value}
    (found : Entries.get? record key = some cell) :
    Interleaved settings flat row (applied ++ [key])
      (link.embed settings (flat link.target) record key) := by
  have isLink : Column.isLink settings.delimiters key = true :=
    Column.isLink_eq_true_iff.mpr ⟨link, read⟩
  have rowFound := interleaved.get?_row inRow read found
  have fieldPlain := Column.ofKey_field read
  have embedded : ∀ name,
      Entries.get? (link.embed settings (flat link.target) record key) name =
        if link.field = name then
          some (.arr (link.linkedRows settings row cell (flat link.target)))
        else if key = name then none else Entries.get? record name := by
    intro name
    rw [Link.get?_embed found, separable.linkedRows_eq read rowFound]
  constructor
  · intro other otherMem otherLink otherCell otherRead otherFound
    have notField : link.field ≠ other :=
      (Column.ne_of_isLink (Column.isLink_eq_true_iff.mpr ⟨otherLink, otherRead⟩) fieldPlain).symm
    by_cases same : key = other
    · subst same
      rw [read] at otherRead
      cases otherRead
      rw [rowFound] at otherFound
      cases otherFound
      constructor
      · rw [embedded, if_neg notField, if_pos rfl]
      · rw [embedded, if_pos rfl]
    · have before : other ∈ applied := by
        rcases List.mem_append.mp otherMem with before | last
        · exact before
        · exact absurd (List.mem_singleton.mp last).symm same
      have otherField : link.field ≠ otherLink.field := by
        intro sameField
        have otherInRow := Entries.mem_keys_of_get?_eq_some otherFound
        exact same
          (key_eq_of_field_eq separable.fieldsNodup inRow otherInRow read otherRead sameField)
      have keyNotField : key ≠ otherLink.field :=
        Column.ne_of_isLink isLink (Column.ofKey_field otherRead)
      obtain ⟨gone, there⟩ :=
        interleaved.linked other before otherLink otherCell otherRead otherFound
      constructor
      · rw [embedded, if_neg notField, if_neg same, gone]
      · rw [embedded, if_neg otherField, if_neg keyNotField, there]
  · intro other otherIsLink untouched
    have differ : key ≠ other := by
      rintro rfl
      rcases untouched with notLater | notInRow
      · exact notLater (List.mem_append_right applied List.mem_cons_self)
      · exact notInRow inRow
    rw [embedded, if_neg (Column.ne_of_isLink otherIsLink fieldPlain).symm, if_neg differ]
    exact interleaved.waiting other otherIsLink (untouched_of_concat untouched)
  · intro name noLink noField
    have notThisField : link.field ≠ name := by
      rintro rfl
      exact noField (mem_linkFields.mpr ⟨key, inRow, link, read, rfl⟩)
    have notKey : key ≠ name := by
      rintro rfl
      rw [isLink] at noLink
      cases noLink
    rw [embedded, if_neg notThisField, if_neg notKey, unfoldColumns_concat,
      unfoldColumn_of_isPath_eq_false (Column.isPath_eq_false_of_link read)]
    exact interleaved.others name noLink noField

section Step

variable {store : Store}

/-- Applying a link column, if its target has the rows that it should have. -/
theorem Interleaved.step_link (separable : Separable settings.delimiters row)
    (consumed : Consumed settings.delimiters row applied record)
    (interleaved : Interleaved settings flat row applied record)
    (ready : store.postpones settings key = false)
    (targets : ∀ link ∈ links settings.delimiters row, ∀ targetRows,
      store.rows? link.target = some targetRows → targetRows = flat link.target) {link : Link}
    (read : Column.ofKey settings.delimiters key = .ok (.link link)) :
    Interleaved settings flat row (applied ++ [key]) (store.applyColumn settings record key) := by
  cases found : Entries.get? record key with
  | some cell =>
      have present := Entries.mem_keys_of_get?_eq_some found
      have inRow := consumed.mem_row separable.unmixed present (Column.createdBy?_of_link read)
      obtain ⟨targetRows, stored⟩ := Store.exists_rows?_of_postpones_eq_false read ready
      obtain rfl := targets link (mem_links.mpr ⟨key, inRow, read⟩) targetRows stored
      rw [Store.applyColumn_of_link read stored]
      exact interleaved.embed separable inRow read found
  | none =>
      rw [Store.applyColumn_of_absent found]
      apply interleaved.skip
      · exact unfoldColumn_of_isPath_eq_false (Column.isPath_eq_false_of_link read)
      · intro isLink inRow
        by_contra notApplied
        rw [interleaved.waiting key isLink (Or.inl notApplied), Entries.get?_eq_none_iff] at found
        exact found inRow

/-- Applying a column other than a link. -/
theorem Interleaved.step_other (separable : Separable settings.delimiters row)
    (consumed : Consumed settings.delimiters row applied record)
    (interleaved : Interleaved settings flat row applied record)
    (noLink : Column.isLink settings.delimiters key = false) :
    Interleaved settings flat row (applied ++ [key]) (store.applyColumn settings record key) := by
  have gone : Column.isLink settings.delimiters key = true →
      key ∈ Entries.keys row → key ∈ applied := by
    intro isLink
    rw [noLink] at isLink
    cases isLink
  rw [Store.applyColumn_of_isLink_eq_false noLink]
  cases creates : Column.createdBy? settings.delimiters key with
  | none =>
      rw [unfoldColumn_of_createdBy?_eq_none creates]
      exact interleaved.skip (unfoldColumn_of_createdBy?_eq_none creates) gone
  | some root =>
      cases found : Entries.get? record key with
      | some cell =>
          have present := Entries.mem_keys_of_get?_eq_some found
          have inRow := consumed.mem_row separable.unmixed present creates
          apply interleaved.move creates noLink
          · exact Column.plain_of_createdBy? (separable.unmixed key inRow) creates
          · intro fieldMem
            have rootMem := mem_roots_of_createdBy? inRow noLink creates
            exact separable.fieldsApart root fieldMem rootMem
      | none =>
          have notField := not_mem_linkFields_of_createdBy? row creates
          rw [unfoldColumn_of_absent found]
          apply interleaved.skip _ gone
          apply unfoldColumn_of_absent
          rw [← interleaved.others key noLink notField]
          exact found

/-- Applying any column, if the targets in the store have the rows that they should have. -/
theorem Interleaved.step (separable : Separable settings.delimiters row)
    (consumed : Consumed settings.delimiters row applied record)
    (interleaved : Interleaved settings flat row applied record)
    (ready : store.postpones settings key = false)
    (targets : ∀ link ∈ links settings.delimiters row, ∀ targetRows,
      store.rows? link.target = some targetRows → targetRows = flat link.target) :
    Interleaved settings flat row (applied ++ [key]) (store.applyColumn settings record key) := by
  cases isLink : Column.isLink settings.delimiters key with
  | true =>
      obtain ⟨link, read⟩ := Column.isLink_eq_true_iff.mp isLink
      exact interleaved.step_link separable consumed ready targets read
  | false => exact interleaved.step_other separable consumed isLink

end Step

/-- When all columns have been applied and the paths in the same order, the fields of the
record do not depend on when. -/
theorem Interleaved.get?_eq {other : Fields} {otherApplied : List String}
    (first : Interleaved settings flat row applied record)
    (second : Interleaved settings flat row otherApplied other)
    (all : ∀ key ∈ Entries.keys row, key ∈ applied)
    (otherAll : ∀ key ∈ Entries.keys row, key ∈ otherApplied)
    (samePaths : applied.filter (Column.isPath settings.delimiters) =
      otherApplied.filter (Column.isPath settings.delimiters)) (name : String) :
    Entries.get? record name = Entries.get? other name := by
  cases isLink : Column.isLink settings.delimiters name with
  | true =>
      obtain ⟨link, read⟩ := Column.isLink_eq_true_iff.mp isLink
      by_cases inRow : name ∈ Entries.keys row
      · obtain ⟨cell, found⟩ := Entries.exists_get?_eq_some inRow
        rw [(first.linked name (all name inRow) link cell read found).1,
          (second.linked name (otherAll name inRow) link cell read found).1]
      · rw [first.waiting name isLink (Or.inr inRow), second.waiting name isLink (Or.inr inRow)]
  | false =>
      by_cases field : name ∈ linkFields settings.delimiters row
      · obtain ⟨key, inRow, link, read, rfl⟩ := mem_linkFields.mp field
        obtain ⟨cell, found⟩ := Entries.exists_get?_eq_some inRow
        rw [(first.linked key (all key inRow) link cell read found).2,
          (second.linked key (otherAll key inRow) link cell read found).2]
      · rw [first.others name isLink field, second.others name isLink field,
          ← unfoldColumns_filter_isPath, samePaths, unfoldColumns_filter_isPath]

end Interleaved

end Fields

/-- Whatever the history of a separable row, paths and links stay apart. -/
theorem Reached.interleaved {settings : Settings} {good : Store → Prop}
    {flat : String → List Value} {row record : Fields} {applied : List String}
    (separable : Fields.Separable settings.delimiters row)
    (targets : ∀ store, good store → ∀ link ∈ Fields.links settings.delimiters row,
      ∀ targetRows, store.rows? link.target = some targetRows → targetRows = flat link.target)
    (reached : Reached settings good row applied record) :
    Fields.Interleaved settings flat row applied record := by
  induction reached with
  | start => exact Fields.Interleaved.start
  | step before isGood ready ih =>
      have consumed := before.consumed separable.unmixed
      exact ih.step separable consumed ready (targets _ isGood)

end Tabula
