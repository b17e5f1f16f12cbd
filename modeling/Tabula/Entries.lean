/-!
# Entries in order

A list of contents under keys, in the order in which the keys first appeared. Every
operation keeps keys distinct when they were: setting a present key keeps its
position, setting a new one appends it, and removal closes the gap.
-/

namespace Tabula

/-- Contents under keys, in order of first appearance. -/
abbrev Entries (κ α : Type) :=
  List (κ × α)

namespace Entries

variable {κ α : Type}

/-- The keys of the entries, in order. -/
def keys (entries : Entries κ α) : List κ :=
  entries.map Prod.fst

/-- No key occurs twice. -/
def Distinct (entries : Entries κ α) : Prop :=
  (keys entries).Nodup

theorem keys_cons (entry : κ × α) (rest : Entries κ α) :
    keys (entry :: rest) = entry.1 :: keys rest := rfl

theorem keys_filter_key (keep : κ → Bool) (entries : Entries κ α) :
    keys (entries.filter fun entry => keep entry.1) = (keys entries).filter keep := by
  rw [keys, keys, List.filter_map]
  rfl

variable [DecidableEq κ]

instance (entries : Entries κ α) : Decidable (Distinct entries) :=
  inferInstanceAs (Decidable (keys entries).Nodup)

/-- The content of the first entry with the given key. -/
def get? : Entries κ α → κ → Option α
  | [], _ => none
  | (key, content) :: rest, wanted => if key = wanted then some content else get? rest wanted

/-- Sets an entry: in place when the key is present, at the end when it is new. -/
def put : Entries κ α → κ → α → Entries κ α
  | [], key, content => [(key, content)]
  | (other, old) :: rest, key, content =>
      if other = key then (other, content) :: rest else (other, old) :: put rest key content

/-- The entries other than those with the given key. -/
def erase (entries : Entries κ α) (key : κ) : Entries κ α :=
  entries.filter fun entry => entry.1 ≠ key

/-- Collects entries one after another: a repeated key keeps its first position and
takes its last content. -/
def collect (entries : List (κ × α)) : Entries κ α :=
  entries.foldl (fun collected entry => put collected entry.1 entry.2) []

@[simp]
theorem get?_nil (key : κ) : get? ([] : Entries κ α) key = none := rfl

theorem get?_cons (key wanted : κ) (content : α) (rest : Entries κ α) :
    get? ((key, content) :: rest) wanted =
      if key = wanted then some content else get? rest wanted := rfl

theorem get?_append_cons {front behind : Entries κ α} {key : κ} (content : α)
    (fresh : key ∉ keys front) (wanted : κ) :
    get? (front ++ (key, content) :: behind) wanted =
      if key = wanted then some content else get? (front ++ behind) wanted := by
  induction front with
  | nil => rfl
  | cons entry front ih =>
      obtain ⟨other, inFront⟩ := entry
      rw [keys, List.map_cons, List.mem_cons, not_or] at fresh
      rw [List.cons_append, get?_cons, ih fresh.2, List.cons_append, get?_cons]
      by_cases same : other = wanted
      · rw [if_pos same, if_pos same, if_neg fun isKey => fresh.1 (isKey.trans same.symm)]
      · rw [if_neg same, if_neg same]

theorem get?_eq_none_iff {entries : Entries κ α} {key : κ} :
    get? entries key = none ↔ key ∉ keys entries := by
  induction entries with
  | nil => simp [keys]
  | cons entry rest ih =>
      obtain ⟨other, content⟩ := entry
      rw [get?_cons, keys, List.map_cons, List.mem_cons, not_or]
      by_cases same : other = key
      · simp [same]
      · rw [if_neg same, ih]
        exact ⟨fun absent => ⟨fun equal => same equal.symm, absent⟩, fun both => both.2⟩

theorem get?_put (entries : Entries κ α) (key wanted : κ) (content : α) :
    get? (put entries key content) wanted =
      if key = wanted then some content else get? entries wanted := by
  induction entries with
  | nil => rfl
  | cons entry rest ih =>
      obtain ⟨other, old⟩ := entry
      rw [put]
      by_cases same : other = key
      · subst same
        rw [if_pos rfl, get?_cons, get?_cons]
        by_cases found : other = wanted
        · simp [found]
        · simp [found]
      · rw [if_neg same, get?_cons, ih, get?_cons]
        by_cases found : other = wanted
        · subst found
          simp [Ne.symm same]
        · simp [found]

theorem keys_put_of_mem {entries : Entries κ α} {key : κ} (content : α)
    (present : key ∈ keys entries) : keys (put entries key content) = keys entries := by
  induction entries with
  | nil => simp [keys] at present
  | cons entry rest ih =>
      obtain ⟨other, old⟩ := entry
      rw [put]
      by_cases same : other = key
      · rw [if_pos same]
        rfl
      · rw [if_neg same]
        have tailPresent : key ∈ keys rest := by
          rcases List.mem_cons.mp present with equal | later
          · exact absurd equal.symm same
          · exact later
        exact congrArg (other :: ·) (ih tailPresent)

theorem put_eq_append_of_not_mem {entries : Entries κ α} {key : κ} (content : α)
    (fresh : key ∉ keys entries) :
    put entries key content = entries ++ [(key, content)] := by
  induction entries with
  | nil => rfl
  | cons entry rest ih =>
      obtain ⟨other, old⟩ := entry
      rw [keys, List.map_cons, List.mem_cons, not_or] at fresh
      rw [put, if_neg (Ne.symm fresh.1), ih fresh.2]
      rfl

theorem keys_erase (entries : Entries κ α) (key : κ) :
    keys (erase entries key) = (keys entries).filter (· ≠ key) := by
  rw [keys, erase, keys, List.filter_map]
  rfl

theorem mem_keys_iff_isSome_get? {entries : Entries κ α} {key : κ} :
    key ∈ keys entries ↔ (get? entries key).isSome := by
  rw [← Decidable.not_iff_not, ← get?_eq_none_iff]
  simp

theorem mem_keys_of_get?_eq_some {entries : Entries κ α} {key : κ} {content : α}
    (found : get? entries key = some content) : key ∈ keys entries := by
  rw [mem_keys_iff_isSome_get?, found]
  rfl

theorem exists_get?_eq_some {entries : Entries κ α} {key : κ} (present : key ∈ keys entries) :
    ∃ content, get? entries key = some content :=
  Option.isSome_iff_exists.mp (mem_keys_iff_isSome_get?.mp present)

theorem distinct_put {entries : Entries κ α} (distinct : Distinct entries) (key : κ)
    (content : α) : Distinct (put entries key content) := by
  by_cases present : key ∈ keys entries
  · rw [Distinct, keys_put_of_mem content present]
    exact distinct
  · rw [Distinct, put_eq_append_of_not_mem content present, keys, List.map_append]
    exact List.nodup_append.mpr
      ⟨distinct, by simp, fun old oldMem new newMem equal =>
        present (by
          have newKey : new = key := by simpa using newMem
          rw [← newKey, ← equal]
          exact oldMem)⟩

theorem distinct_erase {entries : Entries κ α} (distinct : Distinct entries) (key : κ) :
    Distinct (erase entries key) := by
  rw [Distinct, keys_erase]
  exact List.Pairwise.filter _ distinct

theorem keys_put (entries : Entries κ α) (key : κ) (content : α) :
    keys (put entries key content) =
      if key ∈ keys entries then keys entries else keys entries ++ [key] := by
  by_cases present : key ∈ keys entries
  · rw [if_pos present, keys_put_of_mem content present]
  · rw [if_neg present, put_eq_append_of_not_mem content present, keys, List.map_append]
    rfl

theorem mem_keys_put {entries : Entries κ α} {key name : κ} {content : α} :
    name ∈ keys (put entries key content) ↔ name = key ∨ name ∈ keys entries := by
  rw [keys_put]
  by_cases present : key ∈ keys entries
  · rw [if_pos present]
    constructor
    · exact Or.inr
    · rintro (rfl | old)
      · exact present
      · exact old
  · rw [if_neg present, List.mem_append, List.mem_singleton, or_comm]

theorem mem_keys_erase {entries : Entries κ α} {key name : κ} :
    name ∈ keys (erase entries key) ↔ name ≠ key ∧ name ∈ keys entries := by
  rw [keys_erase, List.mem_filter, and_comm]
  simp

theorem get?_erase (entries : Entries κ α) (key wanted : κ) :
    get? (erase entries key) wanted = if key = wanted then none else get? entries wanted := by
  induction entries with
  | nil => simp [erase]
  | cons entry rest ih =>
      obtain ⟨other, content⟩ := entry
      rw [erase] at ih ⊢
      rw [List.filter_cons, get?_cons]
      by_cases same : other = key
      · subst same
        rw [if_neg (by simp), ih]
        by_cases found : other = wanted
        · simp [found]
        · simp [found]
      · rw [if_pos (by simpa using same), get?_cons, ih]
        by_cases found : other = wanted
        · subst found
          simp [Ne.symm same]
        · simp [found]

theorem erase_put (entries : Entries κ α) (key : κ) (content : α) :
    erase (put entries key content) key = erase entries key := by
  induction entries with
  | nil => simp [put, erase]
  | cons entry rest ih =>
      obtain ⟨other, old⟩ := entry
      rw [put]
      by_cases same : other = key
      · rw [if_pos same, erase, erase, List.filter_cons, List.filter_cons]
        simp [same]
      · rw [erase] at ih ⊢
        rw [if_neg same, List.filter_cons, ih, erase, erase, List.filter_cons]

theorem mem_of_get?_eq_some {entries : Entries κ α} {key : κ} {content : α}
    (found : get? entries key = some content) : (key, content) ∈ entries := by
  induction entries with
  | nil => cases found
  | cons entry rest ih =>
      obtain ⟨other, old⟩ := entry
      rw [get?_cons] at found
      split at found
      · rename_i same
        cases found
        rw [same]
        exact List.mem_cons_self
      · exact List.mem_cons_of_mem _ (ih found)

theorem mem_iff_get?_eq_some {entries : Entries κ α} (distinct : Distinct entries) {key : κ}
    {content : α} : (key, content) ∈ entries ↔ get? entries key = some content := by
  induction entries with
  | nil => simp
  | cons entry rest ih =>
      obtain ⟨other, old⟩ := entry
      obtain ⟨fresh, restDistinct⟩ := List.nodup_cons.mp distinct
      rw [get?_cons, List.mem_cons, ih restDistinct]
      by_cases same : other = key
      · subst same
        have absent : get? rest other = none := get?_eq_none_iff.mpr fresh
        simp [absent, eq_comm]
      · simp [same, Ne.symm same]

theorem get?_map_content {β : Type} (change : α → β) (entries : Entries κ α) (key : κ) :
    get? (entries.map fun entry => (entry.1, change entry.2)) key =
      (get? entries key).map change := by
  induction entries with
  | nil => rfl
  | cons entry rest ih =>
      obtain ⟨other, content⟩ := entry
      rw [List.map_cons, get?_cons, get?_cons, ih]
      split <;> rfl

/-- Dropping entries by their keys does not touch the content of a key that is kept. -/
theorem get?_filter_key (keep : κ → Bool) (entries : Entries κ α) {key : κ}
    (kept : keep key = true) :
    get? (entries.filter fun entry => keep entry.1) key = get? entries key := by
  induction entries with
  | nil => rfl
  | cons entry rest ih =>
      obtain ⟨other, content⟩ := entry
      rw [List.filter_cons, get?_cons]
      by_cases same : other = key
      · subst same
        rw [if_pos kept, get?_cons]
        simp
      · rw [if_neg same]
        split
        · rw [get?_cons, if_neg same, ih]
        · exact ih

theorem filter_put_of_kept (keep : κ → Bool) (entries : Entries κ α) {key : κ}
    (kept : keep key = true) (content : α) :
    (put entries key content).filter (fun entry => keep entry.1) =
      put (entries.filter fun entry => keep entry.1) key content := by
  induction entries with
  | nil => simp [put, kept]
  | cons entry rest ih =>
      obtain ⟨other, old⟩ := entry
      rw [put, List.filter_cons]
      by_cases same : other = key
      · subst same
        simp [put, kept]
      · rw [if_neg same, List.filter_cons, ih]
        cases keep other <;> simp [put, same]

theorem filter_put_of_dropped (keep : κ → Bool) (entries : Entries κ α) {key : κ}
    (dropped : keep key = false) (content : α) :
    (put entries key content).filter (fun entry => keep entry.1) =
      entries.filter fun entry => keep entry.1 := by
  induction entries with
  | nil => simp [put, dropped]
  | cons entry rest ih =>
      obtain ⟨other, old⟩ := entry
      rw [put, List.filter_cons]
      by_cases same : other = key
      · subst same
        simp [dropped]
      · rw [if_neg same, List.filter_cons, ih]

theorem erase_filter_key (keep : κ → Bool) (entries : Entries κ α) (key : κ) :
    erase (entries.filter fun entry => keep entry.1) key =
      (erase entries key).filter fun entry => keep entry.1 := by
  simp only [erase, List.filter_filter, Bool.and_comm]

/-- Entries with the same keys in the same order and the same content under each are equal. -/
theorem eq_of_keys_eq {left right : Entries κ α}
    (distinct : Distinct left) (sameKeys : keys left = keys right)
    (same : ∀ key ∈ keys left, get? left key = get? right key) : left = right := by
  induction left generalizing right with
  | nil => exact (List.map_eq_nil_iff.mp sameKeys.symm).symm
  | cons entry rest ih =>
      cases right with
      | nil => cases sameKeys
      | cons otherEntry otherRest =>
          obtain ⟨key, content⟩ := entry
          obtain ⟨otherKey, otherContent⟩ := otherEntry
          obtain ⟨fresh, restDistinct⟩ := List.nodup_cons.mp distinct
          obtain ⟨rfl, restKeys⟩ := List.cons.inj sameKeys
          have here := same key List.mem_cons_self
          rw [get?_cons, get?_cons, if_pos rfl, if_pos rfl, Option.some.injEq] at here
          have restEq : rest = otherRest := by
            apply ih restDistinct restKeys
            intro wanted wantedMem
            have differ : key ≠ wanted := fun equal => fresh (equal ▸ wantedMem)
            have there := same wanted (List.mem_cons_of_mem key wantedMem)
            rwa [get?_cons, get?_cons, if_neg differ, if_neg differ] at there
          rw [here, restEq]

/-- Entries with distinct keys and the same content under every key differ in their order
alone. -/
theorem perm_of_get?_eq {left right : Entries κ α} (leftDistinct : Distinct left)
    (rightDistinct : Distinct right) (same : ∀ key, get? left key = get? right key) :
    left.Perm right := by
  have leftNodup : left.Nodup := List.Pairwise.of_map Prod.fst (fun _ _ differ equal =>
    differ (congrArg Prod.fst equal)) leftDistinct
  have rightNodup : right.Nodup := List.Pairwise.of_map Prod.fst (fun _ _ differ equal =>
    differ (congrArg Prod.fst equal)) rightDistinct
  rw [List.perm_ext_iff_of_nodup leftNodup rightNodup]
  rintro ⟨key, content⟩
  rw [mem_iff_get?_eq_some leftDistinct, mem_iff_get?_eq_some rightDistinct, same]

end Entries

end Tabula
