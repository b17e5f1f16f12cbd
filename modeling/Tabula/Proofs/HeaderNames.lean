import Mathlib.Data.List.Induction
import Mathlib.Data.List.Nodup
import Mathlib.Data.List.Perm.Subperm
import Mathlib.Data.Nat.Find
import Tabula.Sheet.Header

/-!
# The names of a header

Numbered names of one base are different texts, so only as many of them can be taken as there are
names before a column. The search for a free number ends at the latest behind these, and the bound
that it is given never stops it early. So the names of a header are distinct, whatever its cells
are, also where a cell reads like a numbered name.
-/

namespace Tabula

theorem naturalText_injective {m n : Nat} (same : naturalText m = naturalText n) : m = n := by
  have digits : Nat.toDigits 10 m = Nat.toDigits 10 n := String.ofList_inj.mp same
  have values := congrArg (fun digits => Nat.ofDigitChars 10 digits 0) digits
  simpa using values

namespace Sheet

variable {taken : List String} {base : String} {n k : Nat}

theorem numbered_injective (base : String) : Function.Injective (numbered base) := by
  intro m n same
  have texts := congrArg String.toList same
  simp only [numbered, String.toList_append] at texts
  exact naturalText_injective (String.toList_inj.mp (List.append_cancel_left texts))

theorem numbered_ne_base (base : String) (n : Nat) : numbered base n ≠ base := by
  intro same
  have lengths := congrArg (fun name => name.toList.length) same
  simp only [numbered, String.toList_append, List.length_append] at lengths
  have bar : "_".toList.length = 1 := rfl
  omega

/-- Where the first numbered names of a base are all taken, beside others that are none of them,
there are as many taken names. -/
theorem length_add_le {others : List String} (distinct : others.Nodup) (among : others ⊆ taken)
    (apart : ∀ m, numbered base m ∉ others)
    (used : ∀ m, 1 ≤ m → m < k + 1 → numbered base m ∈ taken) :
    others.length + k ≤ taken.length := by
  have numberedNodup : ((List.range' 1 k).map (numbered base)).Nodup :=
    List.Nodup.map (numbered_injective base) List.nodup_range'
  have allNodup : (others ++ (List.range' 1 k).map (numbered base)).Nodup := by
    refine distinct.append numberedNodup fun name otherMem numberedMem => ?_
    obtain ⟨m, _, rfl⟩ := List.mem_map.mp numberedMem
    exact apart m otherMem
  have allTaken : others ++ (List.range' 1 k).map (numbered base) ⊆ taken := by
    refine List.append_subset.mpr ⟨among, ?_⟩
    intro name numberedMem
    obtain ⟨m, inRange, rfl⟩ := List.mem_map.mp numberedMem
    rw [List.mem_range'_1] at inRange
    exact used m inRange.1 (by omega)
  have counted := (List.subperm_of_subset allNodup allTaken).length_le
  simpa using counted

/-- Some number is free, and one of them is the least. -/
theorem exists_least_free (taken : List String) (base : String) :
    ∃ n, 1 ≤ n ∧ numbered base n ∉ taken ∧
      ∀ m, 1 ≤ m → m < n → numbered base m ∈ taken := by
  have someFree : ∃ n, 1 ≤ n ∧ numbered base n ∉ taken := by
    -- Otherwise more numbered names would be taken than there are names.
    by_contra allUsed
    have used : ∀ m, 1 ≤ m → m < taken.length + 1 + 1 → numbered base m ∈ taken :=
      fun m positive _ => by
        by_contra free
        exact allUsed ⟨m, positive, free⟩
    have counted := length_add_le List.nodup_nil (List.nil_subset taken) (by simp) used
    rw [List.length_nil] at counted
    omega
  classical
  refine ⟨Nat.find someFree, (Nat.find_spec someFree).1, (Nat.find_spec someFree).2, ?_⟩
  intro m positive smaller
  by_contra free
  exact Nat.find_min someFree smaller ⟨positive, free⟩

/-- The search stops at the least free number, if that is among its tries. -/
theorem firstFree_eq {tries start : Nat} (reached : start ≤ n) (enough : n ≤ start + tries)
    (free : numbered base n ∉ taken)
    (least : ∀ m, start ≤ m → m < n → numbered base m ∈ taken) :
    firstFree taken base tries start = numbered base n := by
  induction tries generalizing start with
  | zero =>
      obtain rfl : start = n := by omega
      rfl
  | succ tries ih =>
      rw [firstFree]
      split
      · rename_i used
        have passed : start ≠ n := by
          rintro rfl
          exact free used
        apply ih (by omega) (by omega)
        exact fun m later smaller => least m (by omega) smaller
      · rename_i unused
        have here : ¬ start < n := fun smaller => unused (least start (Nat.le_refl start) smaller)
        obtain rfl : start = n := by omega
        rfl

/-- The name of a column whose cell asks for the name `base`, behind columns with the names
`taken`: the base itself where it is new, and otherwise the base with the least number that is
free, which is no greater than the number of these columns. -/
inductive Names (taken : List String) (base : String) : (name : String) → Prop where
  | own (free : base ∉ taken) : Names taken base base
  | numbered {n : Nat} (repeated : base ∈ taken) (positive : 1 ≤ n) (few : n ≤ taken.length)
      (free : numbered base n ∉ taken)
      (least : ∀ m, 1 ≤ m → m < n → Sheet.numbered base m ∈ taken) :
      Names taken base (numbered base n)

theorem Names.not_mem {name : String} (names : Names taken base name) : name ∉ taken := by
  cases names with
  | own free => exact free
  | numbered _ _ _ free _ => exact free

/-- More tries than there are taken names find nothing else. -/
theorem firstFree_of_more (taken : List String) (base : String) (more : Nat) :
    firstFree taken base (taken.length + more) 1 = firstFree taken base taken.length 1 := by
  obtain ⟨n, positive, free, least⟩ := exists_least_free taken base
  have counted := length_add_le (k := n - 1) List.nodup_nil (List.nil_subset taken) (by simp)
    fun m isPositive smaller => least m isPositive (by omega)
  rw [List.length_nil] at counted
  rw [firstFree_eq positive (by omega) free least, firstFree_eq positive (by omega) free least]

theorem names_freshName (taken : List String) (base : String) :
    Names taken base (freshName taken base) := by
  rw [freshName]
  split
  · rename_i repeated
    obtain ⟨n, positive, free, least⟩ := exists_least_free taken base
    -- The base itself is a taken name beside the numbered ones.
    have counted := length_add_le (k := n - 1) (List.nodup_singleton base)
      (by simpa using repeated)
      (fun m => by simpa using numbered_ne_base base m)
      fun m isPositive smaller => least m isPositive (by omega)
    rw [List.length_singleton] at counted
    rw [firstFree_eq positive (by omega) free least]
    exact .numbered repeated positive (by omega) free least
  · rename_i free
    exact .own free

theorem headerNames_concat (cells : List (Option Value)) (cell : Option Value) :
    headerNames (cells ++ [cell]) =
      headerNames cells ++ [freshName (headerNames cells) (baseName cell)] := by
  rw [headerNames, List.foldl_append]
  rfl

theorem length_headerNames (cells : List (Option Value)) :
    (headerNames cells).length = cells.length := by
  induction cells using List.reverseRecOn with
  | nil => rfl
  | append_singleton cells cell ih => simp [headerNames_concat, ih]

theorem nodup_headerNames (cells : List (Option Value)) : (headerNames cells).Nodup := by
  induction cells using List.reverseRecOn with
  | nil => exact List.nodup_nil
  | append_singleton cells cell ih =>
      rw [headerNames_concat]
      refine ih.append (List.nodup_singleton _) ?_
      rw [List.disjoint_singleton]
      exact (names_freshName _ _).not_mem

theorem exists_names (cells : List (Option Value)) (i : Fin cells.length) :
    ∃ name, (headerNames cells)[i.val]? = some name ∧
      Names ((headerNames cells).take i.val) (baseName cells[i]) name := by
  induction cells using List.reverseRecOn with
  | nil => exact i.elim0
  | append_singleton cells cell ih =>
      have length := length_headerNames cells
      obtain ⟨i, inside⟩ := i
      rw [headerNames_concat]
      by_cases earlier : i < cells.length
      · obtain ⟨name, found, names⟩ := ih ⟨i, earlier⟩
        refine ⟨name, ?_, ?_⟩
        · rw [← found]
          exact List.getElem?_append_left (length.symm ▸ earlier)
        · simpa [List.take_append_of_le_length, length, Nat.le_of_lt earlier,
            List.getElem_append_left earlier] using names
      · obtain rfl : i = cells.length := by
          rw [List.length_append, List.length_singleton] at inside
          omega
        refine ⟨freshName (headerNames cells) (baseName cell), by simp [← length], ?_⟩
        have behind : (headerNames cells ++
            [freshName (headerNames cells) (baseName cell)]).take cells.length =
              headerNames cells := by
          rw [← length, List.take_left]
        simpa [behind] using names_freshName (headerNames cells) (baseName cell)

/-- Cells that ask for different names get them. -/
theorem headerNames_of_nodup {cells : List (Option Value)} (distinct : (cells.map baseName).Nodup) :
    headerNames cells = cells.map baseName := by
  induction cells using List.reverseRecOn with
  | nil => rfl
  | append_singleton cells cell ih =>
      rw [List.map_append, List.nodup_append] at distinct
      obtain ⟨earlier, _, apart⟩ := distinct
      have fresh : baseName cell ∉ cells.map baseName := fun repeated =>
        apart _ repeated _ List.mem_cons_self rfl
      rw [headerNames_concat, ih earlier, freshName, if_neg fresh, List.map_append]
      rfl

/-- Every cell of a header gets a name of its own: the one it asks for, or that with the least
number that makes it new among the names before. The search for this number is not cut short. -/
theorem headerNames_exact (cells : List (Option Value)) :
    (headerNames cells).length = cells.length ∧ (headerNames cells).Nodup ∧
      (∀ i : Fin cells.length, ∃ name, (headerNames cells)[i.val]? = some name ∧
        Names ((headerNames cells).take i.val) (baseName cells[i]) name) ∧
      ∀ taken base more,
        firstFree taken base (taken.length + more) 1 = firstFree taken base taken.length 1 :=
  ⟨length_headerNames cells, nodup_headerNames cells, exists_names cells, firstFree_of_more⟩

example : headerNames [some (.str "a_1"), none, some (.str "a"), some (.str "a"), some .null] =
    ["a_1", "__EMPTY", "a", "a_2", "__EMPTY_1"] := by
  decide +kernel

end Sheet

end Tabula
