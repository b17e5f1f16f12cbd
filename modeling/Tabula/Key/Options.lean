import Tabula.Entries
import Tabula.Text.Split

/-!
# Option blocks

An option block is a run of `name=value` pieces separated by a delimiter. A piece
without an equals sign is a name with an empty value, and a value ends at the next
equals sign. When a name is given more than once, the last one counts.
-/

namespace Tabula

/-- The options of a block, in order, repeated names included. -/
abbrev Options :=
  List (String × String)

namespace Options

/-- The name and the value of one piece of a block. -/
def ofPiece (piece : List Char) : String × String :=
  match Text.cut? '=' piece with
  | some (name, rest) => (String.ofList name, String.ofList (rest.takeWhile (· ≠ '=')))
  | none => (String.ofList piece, "")

/-- The options of a block. -/
def ofBlock (delimiter : Char) (block : List Char) : Options :=
  (block.splitOn delimiter).map ofPiece

/-- The value of the last option with a given name. -/
def last? (options : Options) (name : String) : Option String :=
  Entries.get? options.reverse name

theorem mem_of_last?_eq_some {options : Options} {name value : String}
    (found : last? options name = some value) : (name, value) ∈ options :=
  List.mem_reverse.mp (Entries.mem_of_get?_eq_some found)

theorem last?_eq_none_iff {options : Options} {name : String} :
    last? options name = none ↔ name ∉ Entries.keys options := by
  rw [last?, Entries.get?_eq_none_iff, Entries.keys, List.map_reverse, List.mem_reverse,
    Entries.keys]

theorem last?_map (change : String → String) (options : Options) (name : String) :
    last? (options.map fun option => (option.1, change option.2)) name =
      (last? options name).map change := by
  rw [last?, last?, ← List.map_reverse, Entries.get?_map_content]

end Options

end Tabula
