import Mathlib.Data.List.Basic
import Mathlib.Data.List.Forall2
import Tabula.Proofs.Sheet.Lines
import Tabula.Sheet.Book

/-!
# No cell is lost

A grid is rectangular, so every cell below its header has a column there, and the names of the
columns are distinct. So a table has each cell that carries a value exactly once, in the row of its
line and under the name of its column, and lines without such a cell are no rows. A worksheet with
an empty grid is a table all the same.
-/

namespace Tabula.Sheet

/-- Whether a cell carries a value: it is not empty, not an empty text, not an error and not a
number or a time that is not finite. -/
def Cell.carries (cell : Cell) : Bool :=
  cell ∉ [Cell.empty, .text "", .error, .number none, .serial none]

/-- The value that is shown by a cell that carries one. -/
inductive Cell.Shows : Cell → Value → Prop where
  | text {content : String} (nonempty : content ≠ "") : Shows (.text content) (.str content)
  | bool (value : Bool) : Shows (.bool value) (.bool value)
  | integer (value : Int) : Shows (.integer value) (.num (.integer value))
  | number (finite : Double) : Shows (.number (some finite)) (.num (Number.ofDouble finite))
  | serial (finite : Double) : Shows (.serial (some finite)) (.num (Number.ofDouble finite))
  | timeText (content : String) : Shows (.timeText content) (.str content)

/-- All lines of a grid are equally long. -/
def Rectangular (grid : List (List Cell)) : Prop :=
  ∃ width, ∀ line ∈ grid, line.length = width

/-- The names of the columns below a header. -/
def columnNames (header : List Cell) : List String :=
  headerNames (header.map Cell.value?)

/-- Rows are those of a grid: none if it is empty, and otherwise one for each line below the header
with a cell that carries a value. The columns have different names, and no line is longer than the
header. -/
inductive ShowsGrid : List (List Cell) → List Fields → Prop where
  | empty : ShowsGrid [] []
  | headed {header : List Cell} {lines : List (List Cell)} {rows : List Fields}
      (distinct : (columnNames header).Nodup)
      (fits : ∀ line ∈ lines, line.length = (columnNames header).length)
      (areRows : List.Forall₂ (IsRow Cell.carries Cell.Shows (columnNames header))
        (lines.filter fun line => line.any Cell.carries) rows) :
      ShowsGrid (header :: lines) rows

/-- A table is that of a name: it has the name, and shows the grid that is found under it. -/
structure IsTable (gridNamed? : String → Option (List (List Cell))) (sheet : String)
    (table : Table) : Prop where
  name : table.name = sheet
  shown : ∃ grid, gridNamed? sheet = some grid ∧ ShowsGrid grid table.rows

theorem readsAs_value? : ReadsAs Cell.value? Cell.carries Cell.Shows where
  filled_eq cell := by
    cases cell with
    | text content => by_cases empty : content = "" <;> simp [Cell.carries, Cell.value?, empty]
    | number value => cases value <;> simp [Cell.carries, Cell.value?]
    | serial value => cases value <;> simp [Cell.carries, Cell.value?]
    | _ => simp [Cell.carries, Cell.value?]
  shows_iff cell value := by
    constructor
    · intro shows
      cases shows with
      | text nonempty => exact if_neg nonempty
      | _ => rfl
    · intro isValue
      cases cell with
      | empty => cases isValue
      | error => cases isValue
      | text content =>
          rw [Cell.value?] at isValue
          split at isValue
          · cases isValue
          · rename_i nonempty
            cases isValue
            exact .text nonempty
      | bool value =>
          cases isValue
          exact .bool value
      | integer value =>
          cases isValue
          exact .integer value
      | number value =>
          cases value with
          | none => cases isValue
          | some finite =>
              cases isValue
              exact .number finite
      | serial value =>
          cases value with
          | none => cases isValue
          | some finite =>
              cases isValue
              exact .serial finite
      | timeText content =>
          cases isValue
          exact .timeText content

/-- What is delivered as the used range of a worksheet is rectangular. -/
theorem rectangular_grid (cells : List (Placed Cell)) : Rectangular (grid cells) := by
  unfold grid
  split
  · exact ⟨0, List.forall_mem_nil _⟩
  · constructor
    intro line lineMem
    obtain ⟨down, _, rfl⟩ := List.mem_map.mp lineMem
    rw [List.length_map, List.length_range]

theorem length_columnNames (header : List Cell) :
    (columnNames header).length = header.length := by
  rw [columnNames, length_headerNames, List.length_map]

theorem name_tableOfGrid (name : String) (grid : List (List Cell)) :
    (tableOfGrid name grid).name = name := by
  cases grid <;> rfl

/-- The table of a rectangular grid shows all of it. -/
theorem showsGrid_tableOfGrid {grid : List (List Cell)} (rectangular : Rectangular grid)
    (name : String) : ShowsGrid grid (tableOfGrid name grid).rows := by
  cases grid with
  | nil => exact .empty
  | cons header lines =>
      obtain ⟨width, sameLength⟩ := rectangular
      have fits : ∀ line ∈ lines, line.length = (columnNames header).length := by
        intro line lineMem
        rw [length_columnNames, sameLength line (List.mem_cons_of_mem header lineMem),
          sameLength header List.mem_cons_self]
      have distinct : (columnNames header).Nodup := nodup_headerNames _
      have areRows : AreRows Cell.carries Cell.Shows (columnNames header) lines
          (tableOfGrid name (header :: lines)).rows :=
        (readsAs_value?.areRows_iff distinct).mpr rfl
      refine .headed distinct fits ?_
      rw [AreRows] at areRows
      have sameLines : (lines.filter fun line => line.any Cell.carries) = lines.filter fun line =>
          filledAt Cell.carries (columnNames header).length line ≠ [] := by
        apply List.filter_congr
        intro line lineMem
        rw [eq_comm, Bool.eq_iff_iff, decide_eq_true_iff]
        exact filledAt_ne_nil_iff (Nat.le_of_eq (fits line lineMem))
      rw [sameLines]
      exact areRows

/-- Where each item has a result, a list of items has the list of these results. -/
theorem exists_mapM_eq_some {α β : Type} {result? : α → Option β} {related : α → β → Prop}
    {items : List α} (each : ∀ item ∈ items, ∃ result, result? item = some result ∧
      related item result) :
    ∃ results, items.mapM result? = some results ∧ List.Forall₂ related items results := by
  induction items with
  | nil => exact ⟨[], rfl, .nil⟩
  | cons item items ih =>
      rw [List.forall_mem_cons] at each
      obtain ⟨⟨result, isResult, isRelated⟩, later⟩ := each
      obtain ⟨results, areResults, areRelated⟩ := ih later
      refine ⟨result :: results, ?_, .cons isRelated areRelated⟩
      rw [List.mapM_cons, isResult, areResults]
      rfl

/-- If a rectangular grid is delivered for each name, there is one table for each name, in order,
and it shows the grid of its name: all cells that carry a value, each once, in the row of its line
and under the name of its column. The used ranges of a readable workbook file are such grids. -/
theorem workbookOf_showsGrids :
    (∀ (gridNamed? : String → Option (List (List Cell))) (names : List String),
      (∀ name ∈ names, ∃ grid, gridNamed? name = some grid ∧ Rectangular grid) →
        ∃ tables, workbookOf gridNamed? names = .ok { tables } ∧
          List.Forall₂ (IsTable gridNamed?) names tables) ∧
    ∀ sheets : List Worksheet,
      (∀ sheet ∈ sheets, (cellsNamed? sheets sheet.name).isSome) →
        ∃ tables, workbook sheets = .ok { tables } ∧
          List.Forall₂ (IsTable fun name => (cellsNamed? sheets name).map grid)
            (sheets.map Worksheet.name) tables := by
  have shows (gridNamed? : String → Option (List (List Cell))) (names : List String)
      (delivered : ∀ name ∈ names, ∃ grid, gridNamed? name = some grid ∧ Rectangular grid) :
      ∃ tables, workbookOf gridNamed? names = .ok { tables } ∧
        List.Forall₂ (IsTable gridNamed?) names tables := by
    have each : ∀ name ∈ names, ∃ table,
        (gridNamed? name).map (tableOfGrid name) = some table ∧
          IsTable gridNamed? name table := by
      intro name nameMem
      obtain ⟨grid, isGrid, rectangular⟩ := delivered name nameMem
      exact ⟨tableOfGrid name grid, by rw [isGrid, Option.map_some], name_tableOfGrid name grid,
        grid, isGrid, showsGrid_tableOfGrid rectangular name⟩
    obtain ⟨tables, read, areTables⟩ := exists_mapM_eq_some each
    refine ⟨tables, ?_, areTables⟩
    rw [workbookOf, read]
  refine ⟨shows, fun sheets readable => shows _ _ ?_⟩
  rw [List.forall_mem_map]
  intro sheet sheetMem
  obtain ⟨cells, isSome⟩ := Option.isSome_iff_exists.mp (readable sheet sheetMem)
  exact ⟨grid cells, by rw [isSome, Option.map_some], rectangular_grid cells⟩

/-- Worksheets with an unnamed column, a repeated column name and a repeated worksheet name, with
cells that carry nothing, and with an empty grid. -/
def stockroom : List Worksheet :=
  [{ name := "Stock"
     cells :=
       [⟨0, 1, .text "id"⟩, ⟨0, 3, .text "id"⟩, ⟨1, 1, .numeral "7"⟩, ⟨1, 2, .text "loose"⟩,
        ⟨1, 3, .bool true⟩, ⟨2, 1, .error "#N/A"⟩, ⟨2, 2, .text ""⟩, ⟨3, 1, .numeral "NaN"⟩,
        ⟨3, 3, .timeText "2024-05-01"⟩] },
   { name := "Spare", cells := [⟨4, 4, .blank⟩] },
   { name := "Stock", cells := [] }]

/-- The rows of the stock. -/
def stock : List Fields :=
  [[("id", .num (.integer 7)), ("__EMPTY", .str "loose"), ("id_1", .bool true)],
   [("id_1", .str "2024-05-01")]]

theorem workbookOf_showsGrids_stockroom :
    List.Forall₂ (IsTable fun name => (cellsNamed? stockroom name).map grid)
        ["Stock", "Spare", "Stock"] [⟨"Stock", stock⟩, ⟨"Spare", []⟩, ⟨"Stock", stock⟩] ∧
      IsTable (fun _ => some [[.text "count"], [.integer 3]]) "Plan"
        ⟨"Plan", [[("count", .num (.integer 3))]]⟩ := by
  constructor
  · have readable : ∀ sheet ∈ stockroom, (cellsNamed? stockroom sheet.name).isSome := by
      decide +kernel
    obtain ⟨tables, read, areTables⟩ := workbookOf_showsGrids.2 stockroom readable
    have known : workbook stockroom =
        .ok { tables := [⟨"Stock", stock⟩, ⟨"Spare", []⟩, ⟨"Stock", stock⟩] } := by
      decide +kernel
    cases read.symm.trans known
    exact areTables
  · obtain ⟨tables, read, areTables⟩ :=
      workbookOf_showsGrids.1 (fun _ => some [[.text "count"], [.integer 3]]) ["Plan"]
        fun name _ => ⟨_, rfl, 1, by decide⟩
    cases read
    exact (List.forall₂_cons.mp areTables).1

end Tabula.Sheet
