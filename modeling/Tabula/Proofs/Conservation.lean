import Tabula.Proofs.Run.Consumption
import Tabula.Proofs.Run.Emission

/-!
# Rows are conserved

Once all columns of a row have been consumed, its record has the plain keys of the row,
in their order, and behind them the created fields that were not there before. No key of
a path or a link is left, and no plain cell is lost.
-/

namespace Tabula

namespace Fields

/-- What a run may do to a row on the way to a record. -/
structure Conserved (d : Delimiters) (row record : Fields) : Prop where
  /-- The keys are the plain keys, the roots of the paths and the fields of the links. -/
  mem_keys : ∀ name, name ∈ Entries.keys record ↔
    name ∈ plainKeys d row ∨ name ∈ roots d row ∨ name ∈ linkFields d row
  /-- The plain keys stand first, in column order. -/
  plainFirst : ∃ created, Entries.keys record = plainKeys d row ++ created ∧
    ∀ name ∈ created, name ∉ plainKeys d row
  /-- A plain key that is neither a root nor the field of a link keeps its cell. -/
  untouched : ∀ name ∈ plainKeys d row, name ∉ roots d row → name ∉ linkFields d row →
    Entries.get? record name = Entries.get? row name
  /-- No key is repeated. -/
  distinct : Entries.Distinct row → Entries.Distinct record

/-- When every column of a row has been applied, the row is conserved. -/
theorem Consumed.conserved {d : Delimiters} {row record : Fields} {applied : List String}
    (unmixed : Unmixed d row) (consumed : Consumed d row applied record)
    (all : ∀ key ∈ Entries.keys row, key ∈ applied)
    (meaning : ∀ key ∈ Entries.keys row, ∃ column, Column.ofKey d key = .ok column)
    (distinct : Entries.Distinct row → Entries.Distinct record) : Conserved d row record := by
  obtain ⟨⟨created, keysEq, createdIff⟩, kept⟩ := consumed
  have createsIff : ∀ name, Creates d row applied name ↔
      name ∈ roots d row ∨ name ∈ linkFields d row := fun name => creates_iff_of_all all
  have createdFresh : ∀ name ∈ created, name ∉ plainKeys d row := by
    intro name made plain
    exact ((createdIff name).mp made).1 (mem_plainKeys.mp plain).1
  rw [remainingKeys_eq_plainKeys all meaning] at keysEq
  constructor
  · intro name
    rw [keysEq, List.mem_append, createdIff, createsIff]
    constructor
    · rintro (plain | ⟨_, creates⟩)
      · exact Or.inl plain
      · exact Or.inr creates
    · rintro (plain | creates)
      · exact Or.inl plain
      · by_cases inRow : name ∈ Entries.keys row
        · exact Or.inl (mem_plainKeys.mpr
            ⟨inRow, ((createsIff name).mpr creates).plain unmixed⟩)
        · exact Or.inr ⟨inRow, creates⟩
  · exact ⟨created, keysEq, createdFresh⟩
  · intro name plain noRoot noLinkField
    apply kept name (mem_plainKeys.mp plain).2
    intro creates
    rcases (createsIff name).mp creates with root | linkField
    · exact noRoot root
    · exact noLinkField linkField
  · exact distinct

end Fields

namespace Workbook

variable {settings : Settings} {workbook : Workbook}

/-- A run without patches and mixed keys emits every table with its rows, in their order,
each of them conserved. -/
theorem publish_conserves_rows {publication : Publication}
    (noPatch : ∀ table ∈ workbook.tables, TableName.kind settings table.name ≠ .patch)
    (unmixed : ∀ table ∈ workbook.tables, ∀ row ∈ table.rows,
      Fields.Unmixed settings.delimiters row)
    (published : workbook.publish settings = .ok publication) :
    ∃ resolved : Table → Fields → Fields,
      publication.artifacts =
          workbook.tables.filterMap (fun table =>
            table.artifact? settings (table.rows.map (resolved table))) ∧
        ∀ table ∈ workbook.tables, ∀ row ∈ table.rows,
          Fields.Conserved settings.delimiters row (resolved table row) := by
  refine ⟨fun table => workbook.resolvedRow settings table.name,
    artifacts_of_no_patch noPatch published, fun table tableMem row rowMem => ?_⟩
  obtain ⟨unique, faultless, _⟩ := publish_eq_ok published
  have rowUnmixed := unmixed table tableMem row rowMem
  have reached : Reached settings (fun _ => True) row _
      (workbook.resolvedRow settings table.name row) :=
    reached_resolvedRow faultless trivial (fun _ _ _ _ => trivial) (fun _ _ _ _ => trivial) _ row
  apply (reached.consumed rowUnmixed).conserved rowUnmixed
  · intro key keyMem
    exact mem_history unique tableMem rowMem keyMem
  · intro key keyMem
    have keyFaultless := keyFault?_eq_none_iff.mp faultless table tableMem row rowMem key keyMem
    obtain ⟨column, read, _⟩ := Column.fault?_eq_none_iff.mp keyFaultless
    exact ⟨column, read⟩
  · exact fun distinct => reached.distinct distinct

/-- A row in which a root and the field of a link meet plain keys, and one link waits. -/
def colliding : Workbook :=
  { tables :=
      [{ name := "A"
         rows :=
           [[("a.b", .str "1"), ("id", .str "r"), ("a", .str "2"), ("l:B$ref=id", .str "x"),
             ("l", .str "old"), ("m:A$ref=id", .str "r"), ("n.o", .str "3")]] },
       { name := "B", rows := [[("id", .str "x"), ("c.d", .str "4")]] }] }

set_option maxRecDepth 4000 in
theorem publish_conserves_rows_colliding :
    ∃ publication, colliding.publish {} = .ok publication ∧
      ∃ resolved : Table → Fields → Fields,
        publication.artifacts =
            colliding.tables.filterMap (fun table =>
              table.artifact? {} (table.rows.map (resolved table))) ∧
          ∀ table ∈ colliding.tables, ∀ row ∈ table.rows,
            Fields.Conserved {} row (resolved table row) := by
  obtain ⟨publication, published⟩ :
      ∃ publication, colliding.publish {} = .ok publication := ⟨_, rfl⟩
  exact ⟨publication, published, publish_conserves_rows (by decide) (by decide) published⟩

end Workbook

end Tabula
