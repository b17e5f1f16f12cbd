import Mathlib.Data.List.Basic
import Tabula.Linking

/-!
# What a link embeds

A link is resolved in one of four ways, and each of them can be told from the outside: by the
tables that there are, by the rows that the target has, and by the cell. A linked row keeps all
other fields in their order; its link field holds the rows of the target that the cell asks
for, in the order of the target and without hidden fields. The cell asks by the set of its
tokens, so their order and repetition do not matter, as long as no placeholder shows the cell
to itself.
-/

namespace Tabula

namespace Link

variable {settings : Settings} {link : Link} {record : Fields} {cell : Value}

/-- A row that the cell asks for has the match field, with the text that one of the tokens of
the cell is decorated to. -/
def AsksFor (settings : Settings) (link : Link) (record : Fields) (cell : Value)
    (row : Fields) : Prop :=
  ∃ tokens, Text.Divides settings.delimiters.list tokens cell.cellText.toList ∧
    ∃ token ∈ tokens, ∃ value, Entries.get? row (link.matching record).field = some value ∧
      value.cellText = (link.matching record).decorate record (String.ofList token)

/-- The rows that are asked for, one by one and without their hidden fields. All other values
are passed over. -/
inductive Embeds (settings : Settings) (asked : Fields → Prop) :
    List Value → List Value → Prop where
  | nil : Embeds settings asked [] []
  | passed {value : Value} {rows embedded : List Value}
      (unasked : ∀ row, value = .obj row → ¬ asked row)
      (later : Embeds settings asked rows embedded) :
      Embeds settings asked (value :: rows) embedded
  | taken {row : Fields} {rows embedded : List Value} (isAsked : asked row)
      (later : Embeds settings asked rows embedded) :
      Embeds settings asked (.obj row :: rows) (.obj (visible settings row) :: embedded)

/-- A record in which the cell under `key` has given way to embedded rows under `field`: the
field keeps its place when it was there beside the cell, and comes last otherwise, and all other
fields are as they were. -/
structure GivesWay (key field : String) (embedded : List Value) (record after : Fields) :
    Prop where
  keys : Entries.keys after =
    if field ∈ (Entries.keys record).filter (· ≠ key) then (Entries.keys record).filter (· ≠ key)
    else (Entries.keys record).filter (· ≠ key) ++ [field]
  rows : Entries.get? after field = some (.arr embedded)
  others : ∀ name, name ≠ field →
    Entries.get? after name = if name = key then none else Entries.get? record name

theorem accepts_iff {row : Fields} :
    accepts (link.matching record).field (link.tokens settings record cell) row = true ↔
      link.AsksFor settings record cell row := by
  unfold accepts AsksFor
  simp only [Text.divides_iff, exists_eq_left]
  cases Entries.get? row (link.matching record).field with
  | none => simp
  | some value => simp [tokens, eq_comm]

theorem linkedRows_cons_of_passed {value : Value}
    (unasked : ∀ row, value = .obj row → ¬ link.AsksFor settings record cell row)
    (rows : List Value) :
    link.linkedRows settings record cell (value :: rows) =
      link.linkedRows settings record cell rows := by
  unfold linkedRows
  cases value with
  | obj row =>
      have rejected := unasked row rfl
      rw [← accepts_iff] at rejected
      simp [Value.fields?, rejected]
  | _ => rfl

theorem linkedRows_cons_of_asksFor {row : Fields}
    (isAsked : link.AsksFor settings record cell row) (rows : List Value) :
    link.linkedRows settings record cell (.obj row :: rows) =
      .obj (visible settings row) :: link.linkedRows settings record cell rows := by
  unfold linkedRows
  rw [← accepts_iff] at isAsked
  simp [Value.fields?, isAsked]

/-- The embedded rows are those that the cell asks for. -/
theorem embeds_iff {rows embedded : List Value} :
    Embeds settings (link.AsksFor settings record cell) rows embedded ↔
      embedded = link.linkedRows settings record cell rows := by
  constructor
  · intro embeds
    induction embeds with
    | nil => rfl
    | passed unasked _ ih => rw [linkedRows_cons_of_passed unasked, ih]
    | taken isAsked _ ih => rw [linkedRows_cons_of_asksFor isAsked, ih]
  · rintro rfl
    induction rows with
    | nil => exact .nil
    | cons value rest ih =>
        by_cases asked : ∃ row, value = .obj row ∧ link.AsksFor settings record cell row
        · obtain ⟨row, rfl, isAsked⟩ := asked
          rw [linkedRows_cons_of_asksFor isAsked]
          exact .taken isAsked ih
        · have unasked : ∀ row, value = .obj row → ¬ link.AsksFor settings record cell row :=
            fun row isRow isAsked => asked ⟨row, isRow, isAsked⟩
          rw [linkedRows_cons_of_passed unasked]
          exact .passed unasked ih

theorem givesWay_put_erase (key field : String) (embedded : List Value) (record : Fields) :
    GivesWay key field embedded record
      (Entries.put (Entries.erase record key) field (.arr embedded)) where
  keys := by rw [Entries.keys_put, Entries.keys_erase]
  rows := by rw [Entries.get?_put, if_pos rfl]
  others := fun name differ => by
    rw [Entries.get?_put, if_neg (Ne.symm differ), Entries.get?_erase]
    simp [eq_comm]

/-- There is one such record. -/
theorem givesWay_iff {key field : String} {embedded : List Value} {after : Fields}
    (distinct : Entries.Distinct record) :
    GivesWay key field embedded record after ↔
      after = Entries.put (Entries.erase record key) field (.arr embedded) := by
  constructor
  · intro given
    have made := givesWay_put_erase key field embedded record
    have sameKeys := given.keys.trans made.keys.symm
    apply Eq.symm
    apply Entries.eq_of_keys_eq _ sameKeys.symm
    · intro name _
      by_cases same : name = field
      · rw [same, given.rows, made.rows]
      · rw [given.others name same, made.others name same]
    · exact Entries.distinct_put (Entries.distinct_erase distinct key) field _
  · rintro rfl
    exact givesWay_put_erase key field embedded record

/-! ## The order of the tokens -/

/-- A token between the texts before and after it, placeholders not filled in. -/
def Matching.frame (matching : Matching) (token : String) : String :=
  matching.before.getD "" ++ token ++ matching.behind.getD ""

/-- A placeholder that is filled in for the cell names the cell's own key. It stands in an
option that counts, or in a token between the texts before and after it. -/
def ShowsItself (settings : Settings) (link : Link) (key : String) (record : Fields)
    (cell : Value) : Prop :=
  (∃ name ∈ [matchOption, beforeOption, afterOption], ∃ text,
      Options.last? link.options name = some text ∧
        Placeholder.Mentions key.toList text.toList) ∨
    ∃ token ∈ cell.cellText.toList.splitOn settings.delimiters.list,
      Placeholder.Mentions key.toList
        ((link.matching record).frame (String.ofList token)).toList

/-- Two cells with the same tokens, each any number of times and in any order. -/
def SameTokens (settings : Settings) (cell other : Value) : Prop :=
  ∃ tokens others,
    Text.Divides settings.delimiters.list tokens cell.cellText.toList ∧
      Text.Divides settings.delimiters.list others other.cellText.toList ∧
        ∀ token, token ∈ tokens ↔ token ∈ others

/-- A linked record stays the same when its cell is replaced by one with the same tokens. -/
def IgnoresOrder (settings : Settings) (known : List String) (store : Store)
    (origin key : String) (link : Link) (record : Fields) (cell other : Value) : Prop :=
  Entries.get? record key = some cell → SameTokens settings cell other →
    ∀ count after,
      link.resolve settings known store origin key record = .ok (.linked count, after) →
        link.resolve settings known store origin key (Entries.put record key other) =
          .ok (.linked count, after)

/-- A key that is no placeholder name, such as one with the usual link delimiter, is never
shown to itself. -/
theorem not_showsItself {key : String}
    (noName : ∃ c ∈ key.toList, Placeholder.isNameChar c = false) :
    ¬ link.ShowsItself settings key record cell := by
  obtain ⟨c, inside, noNameChar⟩ := noName
  have unmentioned (text : List Char) : ¬ Placeholder.Mentions key.toList text := by
    rintro ⟨⟨_, nameChars⟩, _⟩
    rw [nameChars c inside] at noNameChar
    cases noNameChar
  rintro (⟨_, _, _, _, mentions⟩ | ⟨_, _, mentions⟩)
  · exact unmentioned _ mentions
  · exact unmentioned _ mentions

section Order

variable {key : String} {other : Value}

theorem matching_put (unshown : ¬ link.ShowsItself settings key record cell) :
    link.matching (Entries.put record key other) = link.matching record := by
  have filled : ∀ name ∈ [matchOption, beforeOption, afterOption],
      (Options.last? link.options name).map
          (Placeholder.fill (Entries.put record key other)) =
        (Options.last? link.options name).map (Placeholder.fill record) := by
    intro name counts
    cases found : Options.last? link.options name with
    | none => rfl
    | some text =>
        apply congrArg some
        apply Placeholder.fill_congr
        · intro wanted differ
          rw [Entries.get?_put, if_neg (Ne.symm differ)]
        · exact fun mentions => unshown (Or.inl ⟨name, counts, text, found, mentions⟩)
  have field := filled matchOption (by simp)
  have before := filled beforeOption (by simp)
  have behind := filled afterOption (by simp)
  simp only [matching, Options.last?_map, field, before, behind]

theorem mem_tokens_put (unshown : ¬ link.ShowsItself settings key record cell)
    (same : SameTokens settings cell other) (text : String) :
    text ∈ link.tokens settings (Entries.put record key other) other ↔
      text ∈ link.tokens settings record cell := by
  obtain ⟨tokens, others, divided, otherDivided, sameTokens⟩ := same
  obtain rfl := Text.divides_iff.mp divided
  obtain rfl := Text.divides_iff.mp otherDivided
  have decorated : ∀ token ∈ cell.cellText.toList.splitOn settings.delimiters.list,
      (link.matching record).decorate (Entries.put record key other) (String.ofList token) =
        (link.matching record).decorate record (String.ofList token) := by
    intro token tokenMem
    apply Placeholder.fill_congr
    · intro wanted differ
      rw [Entries.get?_put, if_neg (Ne.symm differ)]
    · exact fun mentions => unshown (Or.inr ⟨token, tokenMem, mentions⟩)
  rw [Link.tokens, Link.tokens, matching_put unshown, List.mem_map, List.mem_map]
  constructor
  · rintro ⟨token, tokenMem, rfl⟩
    have own := (sameTokens token).mpr tokenMem
    exact ⟨token, own, (decorated token own).symm⟩
  · rintro ⟨token, tokenMem, rfl⟩
    exact ⟨token, (sameTokens token).mp tokenMem, decorated token tokenMem⟩

theorem accepts_congr {field : String} {wanted others : List String}
    (same : ∀ text, text ∈ wanted ↔ text ∈ others) (row : Fields) :
    accepts field wanted row = accepts field others row := by
  unfold accepts
  cases Entries.get? row field with
  | none => rfl
  | some value => simp [same]

/-- A cell that is not shown to itself asks by the set of its tokens. -/
theorem linkedRows_put (unshown : ¬ link.ShowsItself settings key record cell)
    (same : SameTokens settings cell other) (rows : List Value) :
    link.linkedRows settings (Entries.put record key other) other rows =
      link.linkedRows settings record cell rows := by
  have sameAccepted : accepts (link.matching record).field
        (link.tokens settings (Entries.put record key other) other) =
      accepts (link.matching record).field (link.tokens settings record cell) :=
    funext (accepts_congr (mem_tokens_put unshown same))
  rw [linkedRows, linkedRows, matching_put unshown, sameAccepted]

end Order

section Outcomes

variable {known : List String} {store : Store} {origin key : String}

theorem resolve_eq_error_iff {fault : Fault} :
    link.resolve settings known store origin key record = .error fault ↔
      link.target ∉ known ∧ fault = .unknownTarget origin key link.target := by
  rw [resolve]
  by_cases target : link.target ∈ known
  · rw [if_neg (not_not_intro target)]
    cases store.rows? link.target <;> cases Entries.get? record key <;> simp [target]
  · simp [target, eq_comm]

theorem resolve_eq_postponed_iff {after : Fields} :
    link.resolve settings known store origin key record = .ok (.postponed, after) ↔
      link.target ∈ known ∧ store.rows? link.target = none ∧ after = record := by
  rw [resolve]
  by_cases target : link.target ∈ known
  · rw [if_neg (not_not_intro target)]
    cases store.rows? link.target <;> cases Entries.get? record key <;>
      simp [target, eq_comm]
  · simp [target]

theorem resolve_eq_absent_iff {after : Fields} :
    link.resolve settings known store origin key record = .ok (.absent, after) ↔
      link.target ∈ known ∧ (∃ rows, store.rows? link.target = some rows) ∧
        key ∉ Entries.keys record ∧ after = record := by
  rw [resolve, ← Entries.get?_eq_none_iff]
  by_cases target : link.target ∈ known
  · rw [if_neg (not_not_intro target)]
    cases store.rows? link.target <;> cases Entries.get? record key <;>
      simp [target, eq_comm]
  · simp [target]

theorem resolve_eq_linked_iff {count : Nat} {after : Fields} :
    link.resolve settings known store origin key record = .ok (.linked count, after) ↔
      link.target ∈ known ∧ ∃ rows cell, store.rows? link.target = some rows ∧
        Entries.get? record key = some cell ∧
          (link.linkedRows settings record cell rows).length = count ∧
            after = Entries.put (Entries.erase record key) link.field
              (.arr (link.linkedRows settings record cell rows)) := by
  rw [resolve]
  by_cases target : link.target ∈ known
  · rw [if_neg (not_not_intro target)]
    cases store.rows? link.target <;> cases Entries.get? record key <;>
      simp [target, eq_comm]
  · simp [target]

/-- A cell that is not shown to itself can be replaced by one with the same tokens. -/
theorem ignoresOrder {cell other : Value} (unshown : ¬ link.ShowsItself settings key record cell) :
    link.IgnoresOrder settings known store origin key record cell other := by
  intro found same count after resolved
  obtain ⟨target, rows, own, stored, ownFound, counted, rfl⟩ := resolve_eq_linked_iff.mp resolved
  obtain rfl := Option.some.inj (ownFound.symm.trans found)
  have nowFound : Entries.get? (Entries.put record key other) key = some other := by
    rw [Entries.get?_put, if_pos rfl]
  apply resolve_eq_linked_iff.mpr
  refine ⟨target, rows, other, stored, nowFound, ?_, ?_⟩
  · rw [linkedRows_put unshown same, counted]
  · rw [linkedRows_put unshown same, Entries.erase_put]

/-- Resolving a link is exact. It fails if and only if there is no table of the target's name;
otherwise the link is postponed if and only if the target has no rows, and passed over if and
only if the record has no such cell, both without a change. Otherwise the cell gives way to the
rows that it asks for, and only these, whatever the order and the number of its tokens. -/
theorem resolve_exact (settings : Settings) (known : List String) (store : Store)
    (origin key : String) (link : Link) {record : Fields} (distinct : Entries.Distinct record) :
    (∀ fault, link.resolve settings known store origin key record = .error fault ↔
        link.target ∉ known ∧ fault = .unknownTarget origin key link.target) ∧
      (∀ after, link.resolve settings known store origin key record = .ok (.postponed, after) ↔
        link.target ∈ known ∧ store.rows? link.target = none ∧ after = record) ∧
      (∀ after, link.resolve settings known store origin key record = .ok (.absent, after) ↔
        link.target ∈ known ∧ (∃ rows, store.rows? link.target = some rows) ∧
          key ∉ Entries.keys record ∧ after = record) ∧
      (∀ count after,
        link.resolve settings known store origin key record = .ok (.linked count, after) ↔
          link.target ∈ known ∧ ∃ rows cell embedded, store.rows? link.target = some rows ∧
            Entries.get? record key = some cell ∧
              Embeds settings (link.AsksFor settings record cell) rows embedded ∧
                embedded.length = count ∧ GivesWay key link.field embedded record after) ∧
      ∀ cell other, ¬ link.ShowsItself settings key record cell →
        link.IgnoresOrder settings known store origin key record cell other := by
  refine ⟨fun _ => resolve_eq_error_iff, fun _ => resolve_eq_postponed_iff,
    fun _ => resolve_eq_absent_iff, fun count after => ?_, fun _ _ => ignoresOrder⟩
  simp only [resolve_eq_linked_iff, embeds_iff, givesWay_iff distinct]
  constructor
  · rintro ⟨target, rows, cell, stored, found, counted, rfl⟩
    exact ⟨target, rows, cell, _, stored, found, rfl, counted, rfl⟩
  · rintro ⟨target, rows, cell, _, stored, found, rfl, counted, rfl⟩
    exact ⟨target, rows, cell, stored, found, counted, rfl⟩

/-- A link with texts around its tokens, the first of them filled in from the row. -/
def tagged : Link :=
  { field := "tags"
    target := "Tags"
    options := [("ref", "id"), ("ref_prefix", "[lang]_")] }

/-- Rows with and without the match field, some of them hidden in part, and no row. -/
def tags : Store :=
  Store.putRows { rowsField := "data" } "Tags"
    [.obj [("id", .str "en_b"), ("__n", .null), ("x", .str "1")], .str "en_a",
      .obj [("id", .str "de_a")], .obj [("x", .str "en_a")], .obj [("id", .str "en_a")]]

/-- A row in which the field of the link is there already. -/
def article (cell : String) : Fields :=
  [("lang", .str "en"), ("tags", .null), ("tags:Tags$ref=id$ref_prefix=[lang]_", .str cell)]

theorem resolve_exact_article :
    Entries.Distinct (article "a,b") ∧
      tagged.resolve {} ["Tags"] tags "T" "tags:Tags$ref=id$ref_prefix=[lang]_"
          (article "b,a,b") =
        .ok (.linked 2,
          [("lang", .str "en"),
            ("tags", .arr
              [.obj [("id", .str "en_b"), ("x", .str "1")], .obj [("id", .str "en_a")]])]) := by
  have distinct : Entries.Distinct (article "a,b") := by decide +kernel
  have unshown : ¬ tagged.ShowsItself {} "tags:Tags$ref=id$ref_prefix=[lang]_"
      (article "a,b") (.str "a,b") := not_showsItself ⟨':', by decide +kernel, by decide +kernel⟩
  have same : SameTokens {} (.str "a,b") (.str "b,a,b") := by
    refine ⟨[['a'], ['b']], [['b'], ['a'], ['b']], Text.divides_iff.mpr (by decide +kernel),
      Text.divides_iff.mpr (by decide +kernel), fun token => ?_⟩
    grind
  have resolved : tagged.resolve {} ["Tags"] tags "T" "tags:Tags$ref=id$ref_prefix=[lang]_"
        (article "a,b") =
      .ok (.linked 2,
        [("lang", .str "en"),
          ("tags", .arr
            [.obj [("id", .str "en_b"), ("x", .str "1")], .obj [("id", .str "en_a")]])]) := by
    decide +kernel
  obtain ⟨_, _, _, _, ignores⟩ := resolve_exact {} ["Tags"] tags "T"
    "tags:Tags$ref=id$ref_prefix=[lang]_" tagged distinct
  exact ⟨distinct, ignores (.str "a,b") (.str "b,a,b") unshown rfl same 2 _ resolved⟩

/-- Settings under which the key of a link can be the name of a placeholder. -/
def barred : Settings :=
  { delimiters := { link := '|', linkOption := '_' } }

/-- A link that matches on the field with the empty name. -/
def echo : Link :=
  { field := "f", target := "T", options := [("ref", "")] }

/-- Rows with a text and with what it is when its two tokens change places. -/
def echoes : Store :=
  Store.putRows { rowsField := "data" } "T"
    [.obj [("", .str "[f|T_ref],x")], .obj [("", .str "x,[f|T_ref]")], .obj [("", .str "x")]]

/-- A token that is a placeholder for its own cell becomes the text of the whole cell, and so
depends on the order of all tokens. -/
theorem not_ignoresOrder_echo :
    Column.ofKey barred.delimiters "f|T_ref" = .ok (.link echo) ∧
      ¬ echo.IgnoresOrder barred ["T", "O"] echoes "O" "f|T_ref"
        [("f|T_ref", .str "[f|T_ref],x")] (.str "[f|T_ref],x") (.str "x,[f|T_ref]") := by
  refine ⟨by decide +kernel, fun ignores => ?_⟩
  have same : SameTokens barred (.str "[f|T_ref],x") (.str "x,[f|T_ref]") := by
    refine ⟨["[f|T_ref]".toList, ['x']], [['x'], "[f|T_ref]".toList],
      Text.divides_iff.mpr (by decide +kernel), Text.divides_iff.mpr (by decide +kernel),
      fun token => ?_⟩
    grind
  have resolved : echo.resolve barred ["T", "O"] echoes "O" "f|T_ref"
        [("f|T_ref", .str "[f|T_ref],x")] =
      .ok (.linked 2,
        [("f", .arr [.obj [("", .str "[f|T_ref],x")], .obj [("", .str "x")]])]) := by
    decide +kernel
  have swapped : echo.resolve barred ["T", "O"] echoes "O" "f|T_ref"
        (Entries.put [("f|T_ref", .str "[f|T_ref],x")] "f|T_ref" (.str "x,[f|T_ref]")) =
      .ok (.linked 2,
        [("f", .arr [.obj [("", .str "x,[f|T_ref]")], .obj [("", .str "x")]])]) := by
    decide +kernel
  have equal := ignores rfl same 2 _ resolved
  rw [swapped] at equal
  simp at equal

end Outcomes

end Link

end Tabula
