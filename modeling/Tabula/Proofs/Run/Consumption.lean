import Mathlib.Data.List.Basic
import Tabula.Proofs.Run.History

/-!
# Consumed columns

A path or link column leaves its row exactly once, whenever it is applied, and what it
creates is a plain key that never leaves again. So at every point of a run the keys of a
record follow from the columns applied so far: those that stay, in column order, and
behind them the created fields that were not there before.
-/

namespace Tabula

namespace Fields

/-- The keys of a row that stay when the given columns are applied. -/
def remainingKeys (d : Delimiters) (row : Fields) (applied : List String) : List String :=
  (Entries.keys row).filter fun key => ¬ (key ∈ applied ∧ (Column.createdBy? d key).isSome)

/-- Whether one of the given columns is a column of the row that creates `name`. -/
def Creates (d : Delimiters) (row : Fields) (applied : List String) (name : String) : Prop :=
  ∃ key ∈ applied, key ∈ Entries.keys row ∧ Column.createdBy? d key = some name

/-- What the given columns have made of a row: their keys are gone, what they create is
there, behind the keys that stay, and no other plain key has changed. -/
structure Consumed (d : Delimiters) (row : Fields) (applied : List String) (record : Fields) :
    Prop where
  keys : ∃ created, Entries.keys record = remainingKeys d row applied ++ created ∧
    ∀ name, name ∈ created ↔ name ∉ Entries.keys row ∧ Creates d row applied name
  kept : ∀ name, Column.ofKey d name = .ok .plain → ¬ Creates d row applied name →
    Entries.get? record name = Entries.get? row name

section Consumed

variable {d : Delimiters} {row record : Fields} {applied : List String} {key name : String}

theorem mem_remainingKeys :
    name ∈ remainingKeys d row applied ↔
      name ∈ Entries.keys row ∧ ¬ (name ∈ applied ∧ (Column.createdBy? d name).isSome) := by
  rw [remainingKeys, List.mem_filter, decide_eq_true_iff]

theorem remainingKeys_concat :
    remainingKeys d row (applied ++ [key]) =
      if (Column.createdBy? d key).isSome then
        (remainingKeys d row applied).filter (· ≠ key)
      else remainingKeys d row applied := by
  split
  · rename_i creates
    rw [remainingKeys, remainingKeys, List.filter_filter]
    apply List.filter_congr
    intro other _
    by_cases same : other = key
    · simp [same, creates]
    · simp [same]
  · rename_i nothing
    apply List.filter_congr
    intro other _
    by_cases same : other = key
    · simp [same, nothing]
    · simp [same]

/-- A plain key of the row always stays. -/
theorem mem_remainingKeys_of_plain (plain : Column.ofKey d name = .ok .plain) :
    name ∈ remainingKeys d row applied ↔ name ∈ Entries.keys row := by
  rw [mem_remainingKeys, Column.createdBy?_eq_none_of_plain plain]
  simp

theorem filter_remainingKeys_append (creates : Column.createdBy? d key = some name)
    {created : List String} (apart : key ∉ created) :
    (remainingKeys d row applied ++ created).filter (· ≠ key) =
      remainingKeys d row (applied ++ [key]) ++ created := by
  have keepCreated : created.filter (· ≠ key) = created := by
    apply List.filter_eq_self.mpr
    intro other otherMem
    rw [decide_eq_true_iff]
    exact ne_of_mem_of_not_mem otherMem apart
  rw [List.filter_append, keepCreated, remainingKeys_concat, creates, Option.isSome_some,
    if_pos rfl]

theorem creates_concat :
    Creates d row (applied ++ [key]) name ↔
      Creates d row applied name ∨
        key ∈ Entries.keys row ∧ Column.createdBy? d key = some name := by
  constructor
  · rintro ⟨other, otherMem, inRow, creates⟩
    rcases List.mem_append.mp otherMem with before | last
    · exact Or.inl ⟨other, before, inRow, creates⟩
    · obtain rfl := List.mem_singleton.mp last
      exact Or.inr ⟨inRow, creates⟩
  · rintro (⟨other, before, inRow, creates⟩ | ⟨inRow, creates⟩)
    · exact ⟨other, List.mem_append_left [key] before, inRow, creates⟩
    · exact ⟨key, List.mem_append_right applied List.mem_cons_self, inRow, creates⟩

theorem creates_concat_of_createdBy? (inRow : key ∈ Entries.keys row) {root : String}
    (creates : Column.createdBy? d key = some root) :
    Creates d row (applied ++ [key]) name ↔ Creates d row applied name ∨ name = root := by
  rw [creates_concat, creates, Option.some_inj, and_iff_right inRow, eq_comm (b := name)]

/-- When all columns of a row have been applied, its plain keys are those that stay. -/
theorem remainingKeys_eq_plainKeys (all : ∀ key ∈ Entries.keys row, key ∈ applied)
    (meaning : ∀ key ∈ Entries.keys row, ∃ column, Column.ofKey d key = .ok column) :
    remainingKeys d row applied = plainKeys d row := by
  apply List.filter_congr
  intro key keyMem
  obtain ⟨column, read⟩ := meaning key keyMem
  rw [decide_eq_decide, and_iff_right (all key keyMem), Option.not_isSome_iff_eq_none]
  constructor
  · intro nothing
    obtain rfl := Column.eq_plain_of_createdBy?_eq_none read nothing
    exact Column.of?_eq_some_iff.mpr read
  · intro plain
    exact Column.createdBy?_eq_none_of_plain (Column.of?_eq_some_iff.mp plain)

/-- When all columns of a row have been applied, its roots and the fields of its links have
been created. -/
theorem creates_iff_of_all (all : ∀ key ∈ Entries.keys row, key ∈ applied) :
    Creates d row applied name ↔ name ∈ roots d row ∨ name ∈ linkFields d row := by
  rw [mem_roots_or_mem_linkFields]
  constructor
  · rintro ⟨key, _, inRow, creates⟩
    exact ⟨key, inRow, creates⟩
  · rintro ⟨key, inRow, creates⟩
    exact ⟨key, all key inRow, inRow, creates⟩

/-- What the columns of a row create is plain, if no key is mixed. -/
theorem Creates.plain (unmixed : Unmixed d row) (creates : Creates d row applied name) :
    Column.ofKey d name = .ok .plain := by
  obtain ⟨key, _, inRow, made⟩ := creates
  exact Column.plain_of_createdBy? (unmixed key inRow) made

theorem Consumed.start : Consumed d row [] row := by
  constructor
  · exact ⟨[], by simp [remainingKeys], by simp [Creates]⟩
  · intro name _ _
    rfl

/-- A key of the record that creates a field is a key of the row. -/
theorem Consumed.mem_row (unmixed : Unmixed d row) (consumed : Consumed d row applied record)
    (present : key ∈ Entries.keys record) (creates : Column.createdBy? d key = some name) :
    key ∈ Entries.keys row := by
  obtain ⟨⟨created, keysEq, createdIff⟩, _⟩ := consumed
  rw [keysEq] at present
  rcases List.mem_append.mp present with remaining | made
  · exact (mem_remainingKeys.mp remaining).1
  · have plain := ((createdIff key).mp made).2.plain unmixed
    rw [Column.createdBy?_eq_none_of_plain plain] at creates
    cases creates

/-- A column whose key is not there has no part in what has been consumed. -/
theorem Consumed.skip (consumed : Consumed d row applied record)
    (idle : (Column.createdBy? d key).isSome → key ∉ Entries.keys record) :
    Consumed d row (applied ++ [key]) record := by
  obtain ⟨⟨created, keysEq, createdIff⟩, kept⟩ := consumed
  have notRemaining : (Column.createdBy? d key).isSome → key ∉ remainingKeys d row applied := by
    intro creates remaining
    apply idle creates
    rw [keysEq]
    exact List.mem_append_left created remaining
  have sameKeys : remainingKeys d row (applied ++ [key]) = remainingKeys d row applied := by
    rw [remainingKeys_concat]
    split
    · rename_i creates
      apply List.filter_eq_self.mpr
      intro other remaining
      rw [decide_eq_true_iff]
      exact ne_of_mem_of_not_mem remaining (notRemaining creates)
    · rfl
  have sameCreates : ∀ name,
      Creates d row (applied ++ [key]) name ↔ Creates d row applied name := by
    intro name
    rw [creates_concat]
    constructor
    · rintro (before | ⟨inRow, creates⟩)
      · exact before
      · have inApplied : key ∈ applied := by
          by_contra notApplied
          apply notRemaining (by rw [creates]; rfl)
          exact mem_remainingKeys.mpr ⟨inRow, fun both => notApplied both.1⟩
        exact ⟨key, inApplied, inRow, creates⟩
    · exact Or.inl
  constructor
  · rw [sameKeys]
    simp only [sameCreates]
    exact ⟨created, keysEq, createdIff⟩
  · intro name plain notCreated
    exact kept name plain fun before => notCreated ((sameCreates name).mpr before)

/-- A column that takes its key out and sets what it creates is consumed. -/
theorem Consumed.move (unmixed : Unmixed d row) (consumed : Consumed d row applied record)
    (present : key ∈ Entries.keys record) (creates : Column.createdBy? d key = some name)
    (value : Value) :
    Consumed d row (applied ++ [key]) (Entries.put (Entries.erase record key) name value) := by
  have inRow := consumed.mem_row unmixed present creates
  have namePlain := Column.plain_of_createdBy? (unmixed key inRow) creates
  obtain ⟨⟨created, keysEq, createdIff⟩, kept⟩ := consumed
  have notCreated : key ∉ created := by
    intro made
    have plain := ((createdIff key).mp made).2.plain unmixed
    exact Column.ne_of_createdBy? creates plain rfl
  constructor
  · simp only [creates_concat_of_createdBy? inRow creates]
    rw [Entries.keys_put, Entries.keys_erase, keysEq,
      filter_remainingKeys_append creates notCreated]
    by_cases there : name ∈ remainingKeys d row (applied ++ [key]) ++ created
    · refine ⟨created, if_pos there, fun other => ?_⟩
      rw [createdIff]
      constructor
      · rintro ⟨fresh, before⟩
        exact ⟨fresh, Or.inl before⟩
      · rintro ⟨fresh, before | rfl⟩
        · exact ⟨fresh, before⟩
        · rw [List.mem_append, mem_remainingKeys_of_plain namePlain] at there
          exact (createdIff other).mp (there.resolve_left fresh)
    · refine ⟨created ++ [name], by rw [if_neg there, List.append_assoc], fun other => ?_⟩
      rw [List.mem_append, mem_remainingKeys_of_plain namePlain, not_or] at there
      rw [List.mem_append, List.mem_singleton, createdIff]
      constructor
      · rintro (⟨fresh, before⟩ | rfl)
        · exact ⟨fresh, Or.inl before⟩
        · exact ⟨there.1, Or.inr rfl⟩
      · rintro ⟨fresh, before | same⟩
        · exact Or.inl ⟨fresh, before⟩
        · exact Or.inr same
  · intro other plain notMade
    rw [creates_concat_of_createdBy? inRow creates, not_or] at notMade
    rw [Entries.get?_put, if_neg (Ne.symm notMade.2), Entries.get?_erase,
      if_neg (Column.ne_of_createdBy? creates plain)]
    exact kept other plain notMade.1

theorem Consumed.step {settings : Settings} {store : Store}
    (unmixed : Unmixed settings.delimiters row)
    (consumed : Consumed settings.delimiters row applied record)
    (ready : store.postpones settings key = false) :
    Consumed settings.delimiters row (applied ++ [key])
      (store.applyColumn settings record key) := by
  by_cases present : key ∈ Entries.keys record
  · cases creates : Column.createdBy? settings.delimiters key with
    | none =>
        rw [Store.applyColumn_of_createdBy?_eq_none creates]
        exact consumed.skip (by simp [creates])
    | some name =>
        obtain ⟨value, moved⟩ := Store.exists_applyColumn_eq_put creates ready present
        rw [moved]
        exact consumed.move unmixed present creates value
  · rw [Store.applyColumn_of_absent (Entries.get?_eq_none_iff.mpr present)]
    exact consumed.skip fun _ => present

end Consumed

end Fields

/-- Whatever the history of a row, the columns in it are consumed. -/
theorem Reached.consumed {settings : Settings} {good : Store → Prop} {row record : Fields}
    {applied : List String} (unmixed : Fields.Unmixed settings.delimiters row)
    (reached : Reached settings good row applied record) :
    Fields.Consumed settings.delimiters row applied record := by
  induction reached with
  | start => exact Fields.Consumed.start
  | step _ _ ready consumed => exact consumed.step unmixed ready

end Tabula
