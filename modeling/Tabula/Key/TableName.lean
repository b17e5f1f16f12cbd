import Tabula.Key.Options
import Tabula.Key.Settings

/-!
# Table names

A table name may carry an option block after its base, `Items$key=list`. A hidden
name belongs to an internal table. The patch marker in front makes a table a patch
for the first table whose name continues the rest of it with an option block.
-/

namespace Tabula.TableName

/-- The option that names the field holding the rows of an emitted document. -/
def keyOption : String := "key"

/-- What a table is for. -/
inductive Kind where
  /-- Can be linked to and is never emitted. -/
  | internal
  /-- Adds fields to the document of another table and is never emitted. -/
  | patch
  | regular
deriving DecidableEq, Repr

/-- A table name taken apart. -/
structure Parts where
  base : String
  options : Options
deriving DecidableEq, Repr

/-- The base and the options of a name that carries an option block. -/
def parts? (d : Delimiters) (name : String) : Option Parts :=
  (Text.cut? d.tableOption name.toList).map fun (base, block) =>
    { base := String.ofList base, options := Options.ofBlock d.tableOption block }

/-- The base of a name that carries an option block. -/
def base? (d : Delimiters) (name : String) : Option String :=
  (parts? d name).map Parts.base

/-- The field that the rows of an emitted document are renamed to. -/
def Parts.rowsField? (parts : Parts) : Option String :=
  parts.options.last? keyOption

/-- The kind of a table. A hidden name is internal even behind a patch marker. -/
def kind (settings : Settings) (name : String) : Kind :=
  if settings.isHidden name then .internal
  else if name.toList.head? = some settings.delimiters.patch then .patch
  else .regular

/-- Whether the patch table `patch` applies to the table `candidate`: the patch name
without its marker is directly followed by an option block in the candidate. -/
def isPatchTarget (d : Delimiters) (patch candidate : String) : Bool :=
  match [d.patch].isPrefixOf? patch.toList with
  | none => false
  | some base =>
      match base.isPrefixOf? candidate.toList with
      | none => false
      | some rest => rest.head? = some d.tableOption

/-- A name without the delimiter of option blocks has none. -/
theorem parts?_eq_none {d : Delimiters} {name : String}
    (bare : d.tableOption ∉ name.toList) : parts? d name = none := by
  rw [parts?, Text.cut?_eq_none_iff.mpr bare]
  rfl

/-- A name is taken apart at its first option delimiter. -/
theorem parts?_eq_some_iff {d : Delimiters} {name : String} {parts : Parts} :
    parts? d name = some parts ↔
      d.tableOption ∉ parts.base.toList ∧
        ∃ block, name.toList = parts.base.toList ++ d.tableOption :: block ∧
          parts.options = Options.ofBlock d.tableOption block := by
  obtain ⟨base, options⟩ := parts
  rw [parts?, Option.map_eq_some_iff]
  constructor
  · rintro ⟨⟨front, block⟩, cut, made⟩
    cases made
    obtain ⟨divided, free⟩ := Text.cut?_eq_some_iff.mp cut
    exact ⟨by simpa using free, block, by simpa using divided, rfl⟩
  · rintro ⟨free, block, divided, rfl⟩
    exact ⟨(base.toList, block), Text.cut?_eq_some_iff.mpr ⟨divided, free⟩, by simp⟩

theorem base?_eq_none {d : Delimiters} {name : String} (bare : d.tableOption ∉ name.toList) :
    base? d name = none := by
  rw [base?, parts?_eq_none bare]
  rfl

/-- The base reaches up to the first option delimiter. -/
theorem base?_eq_some_iff {d : Delimiters} {base name : String} :
    base? d name = some base ↔
      d.tableOption ∉ base.toList ∧
        ∃ block, name.toList = base.toList ++ d.tableOption :: block := by
  rw [base?, Option.map_eq_some_iff]
  constructor
  · rintro ⟨parts, isParts, rfl⟩
    obtain ⟨free, block, divided, _⟩ := parts?_eq_some_iff.mp isParts
    exact ⟨free, block, divided⟩
  · rintro ⟨free, block, divided⟩
    exact ⟨⟨base, Options.ofBlock d.tableOption block⟩,
      parts?_eq_some_iff.mpr ⟨free, block, divided, rfl⟩, rfl⟩

end Tabula.TableName
