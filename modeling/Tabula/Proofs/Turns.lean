import Mathlib.Data.List.Forall2
import Tabula.Proofs.Embedding
import Tabula.Proofs.Row.Roles
import Tabula.Resolution

/-!
# Settling in turns

Settling takes the waiting columns one by one, over whatever the store holds. In its turn a
column is resolved in all rows of its table against the store as it stood when the turn began,
so no row sees what another one has become, not even where a table links to itself. No turn
gives a table rows or takes them away, and none touches the cells of another waiting column. So
which columns are settled, and which are left, can be read off the store before the first turn.
-/

namespace Tabula

/-- A value is an object with the given key. -/
def Value.Carries (key : String) (value : Value) : Prop :=
  ∃ fields, value = .obj fields ∧ key ∈ Entries.keys fields

theorem Value.carries_obj_iff {fields : Fields} {key : String} :
    (Value.obj fields).Carries key ↔ key ∈ Entries.keys fields := by
  simp [Value.Carries]

namespace Store

/-- A waiting column is stranded when its table has no rows, or when one of them carries the
column and its target has none. -/
def Strands (settings : Settings) (store : Store) (entry : Pending) : Prop :=
  store.rows? entry.table = none ∨
    ∃ link rows, Column.ofKey settings.delimiters entry.key = .ok (.link link) ∧
      store.rows? link.target = none ∧ store.rows? entry.table = some rows ∧
        ∃ row ∈ rows, row.Carries entry.key

/-- Two stores with the same documents, apart from the rows of the tables that are touched. -/
structure SameApart (touched : String → Prop) (store next : Store) : Prop where
  rowsField : next.rowsField = store.rowsField
  untouched : ∀ table, ¬ touched table → next.document? table = store.document? table
  keys : ∀ table, (next.document? table).map Entries.keys =
    (store.document? table).map Entries.keys
  fields : ∀ table name, name ≠ store.rowsField →
    (next.document? table).bind (fun document => Entries.get? document name) =
      (store.document? table).bind fun document => Entries.get? document name

namespace SameApart

variable {touched more : String → Prop} {store next final : Store}

theorem refl (touched : String → Prop) (store : Store) : SameApart touched store store :=
  ⟨rfl, fun _ _ => rfl, fun _ => rfl, fun _ _ _ => rfl⟩

theorem trans (first : SameApart touched store next) (second : SameApart touched next final) :
    SameApart touched store final where
  rowsField := second.rowsField.trans first.rowsField
  untouched := fun table apart =>
    (second.untouched table apart).trans (first.untouched table apart)
  keys := fun table => (second.keys table).trans (first.keys table)
  fields := fun table name differ =>
    (second.fields table name (by rwa [first.rowsField])).trans (first.fields table name differ)

theorem mono (same : SameApart touched store next) (covers : ∀ table, touched table → more table) :
    SameApart more store next where
  rowsField := same.rowsField
  untouched := fun table apart => same.untouched table fun isTouched =>
    apart (covers table isTouched)
  keys := same.keys
  fields := same.fields

theorem rows?_eq (same : SameApart touched store next) {table : String}
    (apart : ¬ touched table) : next.rows? table = store.rows? table := by
  rw [rows?, rows?, same.untouched table apart, same.rowsField]

end SameApart

/-- New rows for a table that has some leave all else as it is. -/
theorem sameApart_updateRows {store : Store} {table : String} {rows : List Value}
    (stored : store.rows? table = some rows) (resolved : List Value) :
    SameApart (· = table) store (store.updateRows table resolved) := by
  obtain ⟨document, found, items⟩ : ∃ document, store.document? table = some document ∧
      (Entries.get? document store.rowsField).bind Value.items? = some rows := by
    rw [rows?] at stored
    cases found : store.document? table with
    | none => simp [found] at stored
    | some document => exact ⟨document, rfl, by simpa [found] using stored⟩
  obtain ⟨value, hasRows, _⟩ := Option.bind_eq_some_iff.mp items
  have present : store.rowsField ∈ Entries.keys document :=
    Entries.mem_keys_of_get?_eq_some hasRows
  have documents (wanted : String) : (store.updateRows table resolved).document? wanted =
      if table = wanted then some (Entries.put document store.rowsField (.arr resolved))
      else store.document? wanted := by
    rw [updateRows, found]
    exact document?_putDocument store table wanted _
  refine ⟨rowsField_updateRows store table resolved, ?_, ?_, ?_⟩
  · intro wanted apart
    rw [documents, if_neg (Ne.symm apart)]
  · intro wanted
    rw [documents]
    split
    · rename_i same
      rw [← same, found, Option.map_some, Option.map_some, Entries.keys_put_of_mem _ present]
    · rfl
  · intro wanted name differ
    rw [documents]
    split
    · rename_i same
      rw [← same, found, Option.bind_some, Option.bind_some, Entries.get?_put,
        if_neg (Ne.symm differ)]
    · rfl

end Store

/-- The fate that a waiting column must have: link columns alone are tried, and the stranded ones
are left. -/
inductive Fate.Fits (settings : Settings) (store : Store) (entry : Pending) : Fate → Prop where
  | ignored (noLink : Column.isLink settings.delimiters entry.key = false) :
      Fits settings store entry .ignored
  | settled (isLink : Column.isLink settings.delimiters entry.key = true)
      (unstranded : ¬ store.Strands settings entry) : Fits settings store entry .settled
  | left (isLink : Column.isLink settings.delimiters entry.key = true)
      (stranded : store.Strands settings entry) : Fits settings store entry .left

namespace Settlement

/-- A settlement sorts the waiting columns over a store: every link column comes once, in the
order of arrival, and it is left if the store strands it. -/
structure Sorts (settings : Settings) (store : Store) (entries : List Pending)
    (settlement : Settlement) : Prop where
  settled : settlement.settled.Sublist entries
  left : settlement.left.Sublist entries
  links : ∀ entry ∈ settlement.settled ++ settlement.left,
    Column.isLink settings.delimiters entry.key = true
  once : ∀ entry ∈ entries, Column.isLink settings.delimiters entry.key = true →
    (settlement.settled ++ settlement.left).count entry = 1
  left_iff : ∀ entry ∈ entries, Column.isLink settings.delimiters entry.key = true →
    (entry ∈ settlement.left ↔ store.Strands settings entry)

variable {settings : Settings} {store next : Store} {entry : Pending} {entries : List Pending}
  {later : Settlement} {fate : Fate}

theorem sorts_nil : Sorts settings store [] {} where
  settled := .slnil
  left := .slnil
  links := by simp
  once := by simp
  left_iff := by simp

/-- A column is put before columns that are sorted already, if its turn decides nothing about
them. -/
theorem Sorts.record (sorts : later.Sorts settings next entries) (fresh : entry ∉ entries)
    (same : ∀ other ∈ entries, Column.isLink settings.delimiters other.key = true →
      (next.Strands settings other ↔ store.Strands settings other))
    (fits : fate.Fits settings store entry) :
    (Settlement.record entry fate later).Sorts settings store (entry :: entries) := by
  have notSettled : entry ∉ later.settled := fun inside => fresh (sorts.settled.mem inside)
  have notLeft : entry ∉ later.left := fun inside => fresh (sorts.left.mem inside)
  have absent : later.settled.count entry + later.left.count entry = 0 := by
    rw [List.count_eq_zero.mpr notSettled, List.count_eq_zero.mpr notLeft]
  have differs : ∀ other ∈ entries, other ≠ entry := fun other inside equal =>
    fresh (equal ▸ inside)
  cases fits with
  | ignored noLink =>
      refine ⟨sorts.settled.cons entry, sorts.left.cons entry, sorts.links, ?_, ?_⟩
      · rintro other (_ | ⟨_, inside⟩) isLink
        · rw [noLink] at isLink
          cases isLink
        · exact sorts.once other inside isLink
      · rintro other (_ | ⟨_, inside⟩) isLink
        · rw [noLink] at isLink
          cases isLink
        · exact (sorts.left_iff other inside isLink).trans (same other inside isLink)
  | settled isLink unstranded =>
      refine ⟨sorts.settled.cons_cons entry, sorts.left.cons entry, ?_, ?_, ?_⟩
      · rintro other (_ | ⟨_, inside⟩)
        · exact isLink
        · exact sorts.links other inside
      · rintro other (_ | ⟨_, inside⟩) otherLink
        · rw [Settlement.record, List.cons_append, List.count_cons_self, List.count_append, absent]
        · rw [Settlement.record, List.cons_append,
            List.count_cons_of_ne (differs other inside).symm]
          exact sorts.once other inside otherLink
      · rintro other (_ | ⟨_, inside⟩) otherLink
        · exact iff_of_false notLeft unstranded
        · exact (sorts.left_iff other inside otherLink).trans (same other inside otherLink)
  | left isLink stranded =>
      refine ⟨sorts.settled.cons entry, sorts.left.cons_cons entry, ?_, ?_, ?_⟩
      · intro other inside
        rcases List.mem_append.mp inside with settled | left
        · exact sorts.links other (List.mem_append_left _ settled)
        · rcases List.mem_cons.mp left with rfl | left
          · exact isLink
          · exact sorts.links other (List.mem_append_right _ left)
      · rintro other (_ | ⟨_, inside⟩) otherLink
        · rw [Settlement.record, List.count_append, List.count_cons_self, ← Nat.add_assoc, absent]
        · have once := sorts.once other inside otherLink
          rw [List.count_append] at once
          rw [Settlement.record, List.count_append,
            List.count_cons_of_ne (differs other inside).symm]
          exact once
      · rintro other (_ | ⟨_, inside⟩) otherLink
        · exact iff_of_true List.mem_cons_self stranded
        · rw [← same other inside otherLink, ← sorts.left_iff other inside otherLink]
          simp [Settlement.record, differs other inside]

end Settlement

namespace Backlog

/-- What becomes of one value among the rows of a waiting column: an object with the column is
resolved against the given store, and all else stays as it is. -/
inductive Resolves (settings : Settings) (known : List String) (store : Store) (entry : Pending)
    (link : Link) : Value → Value → Prop where
  | carried {fields after : Fields} {outcome : Link.Outcome}
      (carries : entry.key ∈ Entries.keys fields)
      (resolved : link.resolve settings known store entry.table entry.key fields =
        .ok (outcome, after)) :
      Resolves settings known store entry link (.obj fields) (.obj after)
  | other {value : Value} (lacks : ¬ value.Carries entry.key) :
      Resolves settings known store entry link value value

/-- One turn: a link column is resolved in every row of its table, each against the store as it
stands before the turn. Nothing else changes. -/
inductive Turn (settings : Settings) (known : List String) (store : Store) (entry : Pending) :
    Store → Prop where
  | idle (nothing : Column.isLink settings.delimiters entry.key = false ∨
      store.rows? entry.table = none) : Turn settings known store entry store
  | made {link : Link} {rows resolved : List Value} {next : Store}
      (read : Column.ofKey settings.delimiters entry.key = .ok (.link link))
      (stored : store.rows? entry.table = some rows)
      (each : List.Forall₂ (Resolves settings known store entry link) rows resolved)
      (now : next.rows? entry.table = some resolved)
      (frame : Store.SameApart (· = entry.table) store next) :
      Turn settings known store entry next

/-- The turns of several waiting columns, one after another. -/
inductive Turns (settings : Settings) (known : List String) :
    List Pending → Store → Store → Prop where
  | nil {store : Store} : Turns settings known [] store store
  | cons {entry : Pending} {rest : List Pending} {store next final : Store}
      (turn : Turn settings known store entry next)
      (later : Turns settings known rest next final) :
      Turns settings known (entry :: rest) store final

section OneRow

variable {settings : Settings} {known : List String} {store : Store} {entry : Pending}
  {link : Link} {row resolved : Value}

/-- A link that is resolved changes no key of its row but its own and that of its field. -/
theorem mem_keys_of_resolve {origin key name : String} {fields after : Fields}
    {outcome : Link.Outcome}
    (done : link.resolve settings known store origin key fields = .ok (outcome, after))
    (ownKey : name ≠ key) (ownField : name ≠ link.field) :
    name ∈ Entries.keys after ↔ name ∈ Entries.keys fields := by
  cases outcome with
  | linked count =>
      obtain ⟨_, rows, cell, _, _, _, rfl⟩ := Link.resolve_eq_linked_iff.mp done
      simp [Entries.mem_keys_put, Entries.mem_keys_erase, ownKey, ownField]
  | postponed =>
      obtain ⟨_, _, rfl⟩ := Link.resolve_eq_postponed_iff.mp done
      rfl
  | absent =>
      obtain ⟨_, _, _, rfl⟩ := Link.resolve_eq_absent_iff.mp done
      rfl

theorem Resolves.carries_iff (resolves : Resolves settings known store entry link row resolved)
    {name : String} (ownKey : name ≠ entry.key) (ownField : name ≠ link.field) :
    resolved.Carries name ↔ row.Carries name := by
  cases resolves with
  | carried carries done =>
      rw [Value.carries_obj_iff, Value.carries_obj_iff]
      exact mem_keys_of_resolve done ownKey ownField
  | other lacks => rfl

theorem settleRow_eq_ok {postponed after : Bool}
    (done : settleRow settings known store entry link postponed row = .ok (resolved, after)) :
    Resolves settings known store entry link row resolved ∧
      (after = true ↔ postponed = true ∨
        store.rows? link.target = none ∧ row.Carries entry.key) := by
  have passedOver (lacks : ¬ row.Carries entry.key)
      (same : (Except.ok (row, postponed) : Except Fault (Value × Bool)) =
        .ok (resolved, after)) :
      Resolves settings known store entry link row resolved ∧
        (after = true ↔ postponed = true ∨
          store.rows? link.target = none ∧ row.Carries entry.key) := by
    cases same
    exact ⟨.other lacks, by simp [lacks]⟩
  cases row with
  | obj fields =>
      rw [settleRow] at done
      rw [Value.carries_obj_iff] at passedOver ⊢
      by_cases carries : entry.key ∈ Entries.keys fields
      · rw [if_pos (Entries.mem_keys_iff_isSome_get?.mp carries)] at done
        cases called : link.resolve settings known store entry.table entry.key fields with
        | error fault =>
            rw [called] at done
            cases done
        | ok result =>
            obtain ⟨outcome, changed⟩ := result
            rw [called] at done
            cases done
            refine ⟨.carried carries called, ?_⟩
            cases outcome with
            | linked count =>
                obtain ⟨_, rows, _, stored, _⟩ := Link.resolve_eq_linked_iff.mp called
                simp [stored]
            | postponed =>
                obtain ⟨_, noRows, _⟩ := Link.resolve_eq_postponed_iff.mp called
                simp [noRows, carries]
            | absent =>
                obtain ⟨_, _, lacks, _⟩ := Link.resolve_eq_absent_iff.mp called
                exact absurd carries lacks
      · rw [if_neg (fun found => carries (Entries.mem_keys_iff_isSome_get?.mpr found))] at done
        exact passedOver carries done
  | _ => exact passedOver (by simp [Value.Carries]) done

/-- All rows of a column are resolved against one store. The column is found postponed when its
target has no rows and one of these rows carries it. -/
theorem settleRows_eq_ok {rows results : List Value} {postponed after : Bool}
    (done : mapCarry (settleRow settings known store entry link) postponed rows =
      .ok (results, after)) :
    List.Forall₂ (Resolves settings known store entry link) rows results ∧
      (after = true ↔ postponed = true ∨
        store.rows? link.target = none ∧ ∃ row ∈ rows, row.Carries entry.key) := by
  induction rows generalizing results postponed with
  | nil =>
      cases done
      exact ⟨.nil, by simp⟩
  | cons row rest ih =>
      rw [mapCarry_cons] at done
      cases here : settleRow settings known store entry link postponed row with
      | error fault =>
          rw [here] at done
          cases done
      | ok outcome =>
          obtain ⟨result, next⟩ := outcome
          rw [here] at done
          dsimp only at done
          cases later : mapCarry (settleRow settings known store entry link) next rest with
          | error fault =>
              rw [later] at done
              cases done
          | ok tail =>
              rw [later] at done
              cases done
              obtain ⟨resolves, nextIff⟩ := settleRow_eq_ok here
              obtain ⟨each, afterIff⟩ := ih later
              refine ⟨.cons resolves each, ?_⟩
              rw [afterIff, nextIff, or_assoc, ← and_or_left, List.exists_mem_cons_iff]

end OneRow

section OneTurn

variable {settings : Settings} {known : List String} {store next : Store} {entry other : Pending}

theorem Turn.sameApart (turn : Turn settings known store entry next) :
    Store.SameApart (· = entry.table) store next := by
  cases turn with
  | idle nothing => exact .refl _ store
  | made read stored each now frame => exact frame

/-- No turn gives a table rows or takes them away. -/
theorem Turn.rows?_eq_none_iff (turn : Turn settings known store entry next) (table : String) :
    next.rows? table = none ↔ store.rows? table = none := by
  by_cases own : table = entry.table
  · subst own
    cases turn with
    | idle nothing => rfl
    | made read stored each now frame => simp [stored, now]
  · rw [turn.sameApart.rows?_eq own]

/-- The rows of a table carry another link column after a turn if they did before. -/
theorem Turn.exists_carries_iff (turn : Turn settings known store entry next)
    (isLink : Column.isLink settings.delimiters other.key = true) (differ : other ≠ entry) :
    (∃ rows, next.rows? other.table = some rows ∧ ∃ row ∈ rows, row.Carries other.key) ↔
      ∃ rows, store.rows? other.table = some rows ∧ ∃ row ∈ rows, row.Carries other.key := by
  by_cases own : other.table = entry.table
  · cases turn with
    | idle nothing => rfl
    | @made link rows resolved _ read stored each now frame =>
        -- Two columns of one table differ in their keys, and no link column is the field of a
        -- link, so the turn leaves the other column alone in every row.
        have ownKey : other.key ≠ entry.key := fun sameKey => differ (by
          cases other
          cases entry
          simp_all)
        have ownField : other.key ≠ link.field :=
          Column.ne_of_isLink isLink (Column.ofKey_field read)
        have carried : (∃ row ∈ resolved, row.Carries other.key) ↔
            ∃ row ∈ rows, row.Carries other.key := by
          clear stored now frame
          induction each with
          | nil => rfl
          | cons resolves _ ih =>
              rw [List.exists_mem_cons_iff, List.exists_mem_cons_iff,
                resolves.carries_iff ownKey ownField, ih]
        rw [own, stored, now]
        simpa using carried
  · rw [turn.sameApart.rows?_eq own]

/-- A turn decides nothing about the columns that wait beside it. -/
theorem Turn.strands_iff (turn : Turn settings known store entry next)
    (isLink : Column.isLink settings.delimiters other.key = true) (differ : other ≠ entry) :
    next.Strands settings other ↔ store.Strands settings other := by
  have carried := turn.exists_carries_iff isLink differ
  simp only [Store.Strands, turn.rows?_eq_none_iff, exists_and_left, carried]

theorem settleEntry_eq_ok {fate : Fate}
    (done : settleEntry settings known store entry = .ok (fate, next)) :
    Turn settings known store entry next ∧ fate.Fits settings store entry := by
  rw [settleEntry] at done
  split at done
  · cases done
  · rename_i link read
    have isLink : Column.isLink settings.delimiters entry.key = true :=
      Column.isLink_eq_true_iff.mpr ⟨link, read⟩
    cases stored : store.rows? entry.table with
    | none =>
        rw [stored] at done
        cases done
        exact ⟨.idle (Or.inr stored), .left isLink (Or.inl stored)⟩
    | some rows =>
        rw [stored] at done
        dsimp only at done
        cases called : mapCarry (settleRow settings known store entry link) false rows with
        | error fault =>
            rw [called] at done
            cases done
        | ok outcome =>
            obtain ⟨resolved, postponed⟩ := outcome
            rw [called] at done
            cases done
            obtain ⟨each, postponedIff⟩ := settleRows_eq_ok called
            have strandsIff : store.Strands settings entry ↔ postponed = true := by
              rw [postponedIff]
              simp [Store.Strands, stored, read]
            refine ⟨.made read stored each ?_ (Store.sameApart_updateRows stored resolved), ?_⟩
            · rw [Store.rows?_updateRows, if_pos rfl]
            · cases postponed with
              | false => exact .settled isLink (fun stranded => by simp [strandsIff] at stranded)
              | true => exact .left isLink (strandsIff.mpr rfl)
  · rename_i column unlinked read
    cases done
    have notLink : Column.isLink settings.delimiters entry.key = false := by
      rw [← Bool.not_eq_true, Column.isLink_eq_true_iff]
      rintro ⟨link, readLink⟩
      rw [read] at readLink
      exact unlinked link (Except.ok.inj readLink)
    exact ⟨.idle (Or.inl notLink), .ignored notLink⟩

end OneTurn

section AllTurns

variable {settings : Settings} {known : List String} {store final : Store}
  {entries : List Pending} {settlement : Settlement}

theorem Turns.sameApart (turns : Turns settings known entries store final) :
    Store.SameApart (fun table => ∃ entry ∈ entries, entry.table = table) store final := by
  induction turns with
  | nil => exact .refl _ _
  | @cons entry rest _ _ _ turn later ih =>
      apply (turn.sameApart.mono _).trans (ih.mono _)
      · rintro table rfl
        exact ⟨entry, List.mem_cons_self, rfl⟩
      · rintro table ⟨waiting, waitingMem, rfl⟩
        exact ⟨waiting, List.mem_cons_of_mem entry waitingMem, rfl⟩

theorem settle_cons_eq_ok {entry : Pending}
    (done : settle settings known (entry :: entries) store = (final, .ok settlement)) :
    ∃ fate next later, settleEntry settings known store entry = .ok (fate, next) ∧
      settle settings known entries next = (final, .ok later) ∧
        settlement = Settlement.record entry fate later := by
  rw [settle] at done
  cases called : settleEntry settings known store entry with
  | error fault =>
      rw [called] at done
      cases done
  | ok outcome =>
      obtain ⟨fate, next⟩ := outcome
      rw [called] at done
      dsimp only at done
      cases rest : settle settings known entries next with
      | mk last result =>
          rw [rest] at done
          cases result with
          | error fault => cases done
          | ok later =>
              cases done
              exact ⟨fate, next, later, rfl, rest, rfl⟩

/-- The columns that wait are sorted turn by turn. Their turns come one after another, yet what
is decided for each can be read off the store before the first turn. -/
theorem settle_eq_ok (nodup : entries.Nodup)
    (done : settle settings known entries store = (final, .ok settlement)) :
    Turns settings known entries store final ∧ settlement.Sorts settings store entries := by
  induction entries generalizing store settlement with
  | nil =>
      cases done
      exact ⟨.nil, Settlement.sorts_nil⟩
  | cons entry rest ih =>
      obtain ⟨fresh, restNodup⟩ := List.nodup_cons.mp nodup
      obtain ⟨fate, next, later, here, there, rfl⟩ := settle_cons_eq_ok done
      obtain ⟨turn, fits⟩ := settleEntry_eq_ok here
      obtain ⟨turns, sorts⟩ := ih restNodup there
      refine ⟨.cons turn turns, sorts.record fresh ?_ fits⟩
      intro other inside isLink
      exact turn.strands_iff isLink (fun equal => fresh (equal ▸ inside))

end AllTurns

end Backlog

/-- Settling that succeeds empties the backlog and sorts the columns that waited, each in a turn
of its own, over the store as it was before the first turn. It touches no rows but those of
their tables. -/
theorem Progress.settle_turns {settings : Settings} {known : List String}
    {progress settled : Progress} {settlement : Settlement}
    (done : progress.settle settings known = (settled, .ok settlement)) :
    settled.backlog = .empty ∧
      settlement.Sorts settings progress.store progress.backlog.entries ∧
      Backlog.Turns settings known progress.backlog.entries progress.store settled.store ∧
      Store.SameApart (fun table => ∃ entry ∈ progress.backlog.entries, entry.table = table)
        progress.store settled.store := by
  rw [Progress.settle] at done
  cases called : Backlog.settle settings known progress.backlog.entries progress.store with
  | mk final result =>
      rw [called] at done
      cases done
      obtain ⟨turns, sorts⟩ := Backlog.settle_eq_ok progress.backlog.nodup called
      exact ⟨rfl, sorts, turns, turns.sameApart⟩

/-- Two rows of a table that links to itself. One of them has a link to a table that has no rows
yet, and no row has the other such link that waits. -/
def Progress.family : Progress where
  store :=
    { rowsField := "data"
      documents :=
        [("T",
          [("title", .str "family"),
            ("data", .arr
              [.obj [("id", .str "1"), ("of", .null), ("kids:T$ref=of", .str "1")],
                .obj [("id", .str "2"), ("of", .str "1"), ("kids:T$ref=of", .str "2"),
                  ("pets:P$ref=of", .str "2")]])])] }
  backlog :=
    { entries :=
        [⟨"T", "kids:T$ref=of"⟩, ⟨"T", "pets:P$ref=of"⟩, ⟨"T", "cars:P$ref=of"⟩,
          ⟨"U", "kids:T$ref=of"⟩, ⟨"T", "id"⟩]
      nodup := by decide }

/-- The family settled. The first row holds the second one as it stood when the turn began, with
its own link not resolved. -/
def Progress.settledFamily : Progress where
  store :=
    { rowsField := "data"
      documents :=
        [("T",
          [("title", .str "family"),
            ("data", .arr
              [.obj [("id", .str "1"), ("of", .null),
                  ("kids", .arr
                    [.obj [("id", .str "2"), ("of", .str "1"), ("kids:T$ref=of", .str "2"),
                      ("pets:P$ref=of", .str "2")]])],
                .obj [("id", .str "2"), ("of", .str "1"), ("pets:P$ref=of", .str "2"),
                  ("kids", .arr [])]])])] }
  backlog := .empty

theorem Progress.settle_turns_family :
    family.settle {} ["T", "U", "P"] =
        (settledFamily,
          .ok
            { settled := [⟨"T", "kids:T$ref=of"⟩, ⟨"T", "cars:P$ref=of"⟩]
              left := [⟨"T", "pets:P$ref=of"⟩, ⟨"U", "kids:T$ref=of"⟩] }) ∧
      family.store.Strands {} ⟨"T", "pets:P$ref=of"⟩ ∧
      ¬ family.store.Strands {} ⟨"T", "cars:P$ref=of"⟩ ∧
      Backlog.Turns {} ["T", "U", "P"] family.backlog.entries family.store
        settledFamily.store := by
  have done : family.settle {} ["T", "U", "P"] =
      (settledFamily,
        .ok
          { settled := [⟨"T", "kids:T$ref=of"⟩, ⟨"T", "cars:P$ref=of"⟩]
            left := [⟨"T", "pets:P$ref=of"⟩, ⟨"U", "kids:T$ref=of"⟩] }) := by
    decide +kernel
  obtain ⟨_, sorts, turns, _⟩ := settle_turns done
  have pets := sorts.left_iff ⟨"T", "pets:P$ref=of"⟩ (by decide) (by decide +kernel)
  have cars := sorts.left_iff ⟨"T", "cars:P$ref=of"⟩ (by decide) (by decide +kernel)
  exact ⟨done, pets.mp (by decide), fun stranded => absurd (cars.mpr stranded) (by decide), turns⟩

end Tabula
