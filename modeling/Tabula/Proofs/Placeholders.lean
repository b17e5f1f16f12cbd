import Mathlib.Data.List.Infix
import Tabula.Key.Placeholder

/-!
# What filling in replaces

A text is told apart here into its placeholders and the stretches between them, by where the
placeholders stand and not by a scan. Filling in a text replaces every placeholder whose name the
record has, once, and keeps everything else. So two texts can be filled in apart, unless the first
one ends in what may still become a placeholder.
-/

namespace Tabula.Placeholder

/-- A name that a placeholder can have. -/
def IsName (name : List Char) : Prop :=
  name ≠ [] ∧ ∀ c ∈ name, isNameChar c = true

instance (name : List Char) : Decidable (IsName name) :=
  decidable_of_iff (name ≠ [] ∧ name.all isNameChar = true)
    (and_congr_right fun _ => List.all_eq_true)

/-- A placeholder as it stands in a text. -/
def written (name : List Char) : List Char :=
  '[' :: name ++ [']']

/-- A text that ends in an opening bracket with name characters behind it, or with nothing. -/
def EndsOpen (text : List Char) : Prop :=
  ∃ name, (∀ c ∈ name, isNameChar c = true) ∧ '[' :: name <:+ text

theorem endsOpen_iff {text : List Char} :
    EndsOpen text ↔ (text.reverse.dropWhile isNameChar).head? = some '[' := by
  constructor
  · rintro ⟨name, named, front, rfl⟩
    have behind : ∀ c ∈ name.reverse, isNameChar c = true :=
      fun c inside => named c (List.mem_reverse.mp inside)
    rw [List.reverse_append, List.reverse_cons, List.append_assoc,
      List.dropWhile_append_of_pos behind]
    rfl
  · intro bracket
    obtain ⟨rest, dropped⟩ := List.head?_eq_some_iff.mp bracket
    refine ⟨(text.reverse.takeWhile isNameChar).reverse, fun c inside => ?_, rest.reverse, ?_⟩
    · exact List.all_eq_true.mp List.all_takeWhile c (List.mem_reverse.mp inside)
    · rw [← List.reverse_inj, List.reverse_append, List.reverse_cons, List.reverse_reverse,
        List.reverse_reverse, List.append_assoc, List.singleton_append, ← dropped,
        List.takeWhile_append_dropWhile]

instance (text : List Char) : Decidable (EndsOpen text) :=
  decidable_of_iff _ endsOpen_iff.symm

/-- What becomes of a text: a stretch without placeholders stays, the first placeholder behind it
gives way to the text of its field if the record has one, and the rest is filled in on its own. -/
inductive Filled (record : Fields) : (text result : List Char) → Prop where
  | bare {text : List Char} (unmentioned : ∀ name, ¬ Mentions name text) :
      Filled record text text
  | known {front name rest result : List Char} {value : Value}
      (unmentioned : ∀ other, ¬ Mentions other front) (isName : IsName name)
      (found : Entries.get? record (String.ofList name) = some value)
      (behind : Filled record rest result) :
      Filled record (front ++ written name ++ rest) (front ++ value.cellText.toList ++ result)
  | unknown {front name rest result : List Char}
      (unmentioned : ∀ other, ¬ Mentions other front) (isName : IsName name)
      (absent : Entries.get? record (String.ofList name) = none)
      (behind : Filled record rest result) :
      Filled record (front ++ written name ++ rest) (front ++ written name ++ result)

variable {record : Fields} {pending : Option (List Char)}
  {front back name other text rest otherRest : List Char}

/-! ### Where placeholders stand -/

theorem isNameChar_ne_bracket {c : Char} (nameChar : isNameChar c = true) : c ≠ '[' := by
  rintro rfl
  exact absurd nameChar (by decide)

/-- Behind its first character a placeholder holds no opening bracket. -/
theorem bracket_not_mem_tail_written (isName : IsName name) : '[' ∉ (written name).tail := by
  intro inside
  rcases List.mem_append.mp inside with inName | isClosing
  · exact isNameChar_ne_bracket (isName.2 _ inName) rfl
  · exact absurd isClosing (by decide)

/-- Of two placeholders in a text the second one begins behind the first one. -/
theorem length_written_le (isName : IsName name)
    (same : front ++ written name ++ rest = back ++ written other ++ otherRest)
    (before : front.length < back.length) :
    front.length + (written name).length ≤ back.length := by
  rw [List.append_assoc, List.append_assoc] at same
  obtain ⟨between, rfl, wholeEq⟩ : ∃ between, back = front ++ between ∧
      written name ++ rest = between ++ (written other ++ otherRest) := by
    rcases List.append_eq_append_iff.mp same with ⟨between, backEq, restEq⟩ | ⟨_, rfl, _⟩
    · exact ⟨between, backEq, restEq⟩
    · rw [List.length_append] at before
      omega
  rw [List.length_append] at before ⊢
  apply Nat.add_le_add_left
  by_contra short
  -- The bracket that opens the second placeholder would stand inside the first one.
  rcases List.append_eq_append_iff.mp wholeEq with ⟨more, rfl, _⟩ | ⟨inside, nameEq, openEq⟩
  · rw [List.length_append] at short
    omega
  · cases inside with
    | nil => simp [nameEq] at short
    | cons c inside =>
        obtain ⟨rfl, _⟩ := List.cons.inj openEq
        apply bracket_not_mem_tail_written isName
        rw [nameEq]
        cases between with
        | nil => exact absurd before (by simp)
        | cons _ between => simp

/-- A text without placeholders, or with a first one. -/
theorem exists_first (text : List Char) :
    (∀ name, ¬ Mentions name text) ∨
      ∃ front name rest, text = front ++ written name ++ rest ∧ IsName name ∧
        ∀ other, ¬ Mentions other front := by
  induction text with
  | nil =>
      left
      rintro name ⟨_, inside⟩
      exact absurd (List.infix_nil.mp inside) (by simp)
  | cons c text ih =>
      -- The first placeholder starts here or is the first one of the rest.
      by_cases here : ∃ name, IsName name ∧ written name <+: c :: text
      · obtain ⟨name, isName, rest, textEq⟩ := here
        refine Or.inr ⟨[], name, rest, textEq.symm, isName, ?_⟩
        rintro other ⟨_, inside⟩
        exact absurd (List.infix_nil.mp inside) (by simp)
      · rcases ih with unmentioned | ⟨front, name, rest, rfl, isName, unmentioned⟩
        · left
          rintro name ⟨isName, inside⟩
          rcases List.infix_cons_iff.mp inside with starts | later
          · exact here ⟨name, isName, starts⟩
          · exact unmentioned name ⟨isName, later⟩
        · refine Or.inr ⟨c :: front, name, rest, rfl, isName, ?_⟩
          rintro other ⟨otherName, inside⟩
          rcases List.infix_cons_iff.mp inside with starts | later
          · refine here ⟨other, otherName, starts.trans ?_⟩
            rw [List.append_assoc, ← List.cons_append]
            exact List.prefix_append _ _
          · exact unmentioned other ⟨otherName, later⟩

/-- Every text is filled in somehow. -/
theorem exists_filled (record : Fields) (text : List Char) :
    ∃ result, Filled record text result := by
  induction h : text.length using Nat.strong_induction_on generalizing text with
  | _ length ih =>
      rcases exists_first text with unmentioned | ⟨front, name, rest, rfl, isName, unmentioned⟩
      · exact ⟨text, .bare unmentioned⟩
      · have shorter : rest.length < length := by
          rw [← h]
          simp [written]
          omega
        obtain ⟨result, behind⟩ := ih rest.length shorter rest rfl
        cases found : Entries.get? record (String.ofList name) with
        | none => exact ⟨_, .unknown unmentioned isName found behind⟩
        | some value => exact ⟨_, .known unmentioned isName found behind⟩

/-! ### What the scan does -/

theorem EndsOpen.append_left (endsOpen : EndsOpen text) (front : List Char) :
    EndsOpen (front ++ text) := by
  obtain ⟨name, named, suffix⟩ := endsOpen
  exact ⟨name, named, suffix.trans (List.suffix_append front text)⟩

/-- A text is filled in without regard to what follows, unless it ends open. Then too, if it is
an opening bracket that follows. -/
theorem fillFrom_append (named : ∀ name ∈ pending, ∀ c ∈ name, isNameChar c = true)
    (closed : EndsOpen (opened pending ++ front) → back.head? = some '[') :
    fillFrom record pending (front ++ back) =
      fillFrom record pending front ++ fillFrom record none back := by
  have fresh : ∀ name ∈ some ([] : List Char), ∀ c ∈ name, isNameChar c = true := by
    rintro _ ⟨⟩ c ⟨⟩
  have nothing : ∀ name ∈ (none : Option (List Char)), ∀ c ∈ name, isNameChar c = true :=
    fun _ impossible => by cases impossible
  -- The scan may start inside an open bracket, so the induction is over every pending name.
  induction front generalizing pending with
  | nil =>
      cases pending with
      | none => simp [fillFrom]
      | some name =>
          have endsOpen : EndsOpen (opened (some name) ++ []) := by
            refine ⟨name.reverse, fun c inside => ?_, by simp [opened]⟩
            exact named name rfl c (List.mem_reverse.mp inside)
          obtain ⟨rest, rfl⟩ := List.head?_eq_some_iff.mp (closed endsOpen)
          rw [List.nil_append, fillFrom, fillFrom, fillFrom, if_neg (by decide),
            if_neg (by simp), if_pos rfl, if_pos rfl]
  | cons c front ih =>
      cases pending with
      | none =>
          rw [List.cons_append, fillFrom, fillFrom]
          split
          · rename_i bracket
            subst bracket
            exact ih fresh closed
          · rw [ih nothing fun endsOpen => closed (endsOpen.append_left [c]), List.cons_append]
      | some name =>
          have behind : fillFrom record none (front ++ back) =
              fillFrom record none front ++ fillFrom record none back :=
            ih nothing fun endsOpen => closed
              (by simpa [opened] using endsOpen.append_left ('[' :: name.reverse ++ [c]))
          rw [List.cons_append, fillFrom, fillFrom]
          split
          · rename_i nameChar
            apply ih
            · rintro _ ⟨⟩ other inside
              rcases List.mem_cons.mp inside with rfl | old
              · exact nameChar
              · exact named name rfl other old
            · exact fun endsOpen => closed (by simpa [opened] using endsOpen)
          · split
            · rw [behind, List.append_assoc]
            · split
              · rename_i bracket
                subst bracket
                rw [ih fresh fun endsOpen => closed
                  (by simpa [opened] using endsOpen.append_left ('[' :: name.reverse)),
                  List.append_assoc]
              · rw [behind]
                simp

/-- A record without fields replaces nothing. -/
theorem fillFrom_nil (pending : Option (List Char)) (text : List Char) :
    fillFrom [] pending text = opened pending ++ text := by
  induction text generalizing pending with
  | nil => cases pending <;> simp [fillFrom, opened]
  | cons c text ih =>
      cases pending with
      | none =>
          rw [fillFrom]
          split
          · rename_i bracket
            rw [ih, bracket]
            rfl
          · rw [ih]
            rfl
      | some name =>
          rw [fillFrom]
          split
          · simp [ih, opened]
          · split
            · rename_i closing
              simp [ih, opened, content, closing.1]
            · split
              · rename_i bracket
                simp [ih, opened, bracket]
              · simp [ih, opened]

/-- Without a placeholder a text stays as it is. -/
theorem fillFrom_of_unmentioned (unmentioned : ∀ name, ¬ Mentions name text) :
    fillFrom record none text = text := by
  have same : fillFrom record none text = fillFrom [] none text :=
    fillFrom_congr (fun _ impossible => by cases impossible)
      fun name mentions => absurd mentions (unmentioned name)
  rw [same, fillFrom_nil]
  rfl

theorem fillFrom_name (named : ∀ c ∈ name, isNameChar c = true) (before text : List Char) :
    fillFrom record (some before) (name ++ text) =
      fillFrom record (some (name.reverse ++ before)) text := by
  induction name generalizing before with
  | nil => rfl
  | cons c name ih =>
      rw [List.forall_mem_cons] at named
      rw [List.cons_append, fillFrom, if_pos named.1, ih named.2]
      simp

theorem fillFrom_written (isName : IsName name) (text : List Char) :
    fillFrom record none (written name ++ text) =
      content record name ++ fillFrom record none text := by
  have nonempty : name.reverse ++ [] ≠ [] := by simpa using isName.1
  rw [written, List.append_assoc, List.cons_append, fillFrom, if_pos rfl,
    fillFrom_name isName.2, List.singleton_append, fillFrom, if_neg (by decide),
    if_pos ⟨rfl, nonempty⟩, List.append_nil, List.reverse_reverse]

/-- A placeholder is replaced wherever it stands, whatever is around it. -/
theorem fillFrom_around (isName : IsName name) (front rest : List Char) :
    fillFrom record none (front ++ written name ++ rest) =
      fillFrom record none front ++ content record name ++ fillFrom record none rest := by
  rw [List.append_assoc, fillFrom_append (fun _ impossible => by cases impossible)
    (fun _ => rfl), fillFrom_written isName, List.append_assoc]

theorem Filled.fillFrom_eq {result : List Char} (filled : Filled record text result) :
    fillFrom record none text = result := by
  induction filled with
  | bare unmentioned => exact fillFrom_of_unmentioned unmentioned
  | known unmentioned isName found _ ih =>
      rw [fillFrom_around isName, fillFrom_of_unmentioned unmentioned, ih, content, found]
  | unknown unmentioned isName absent _ ih =>
      rw [fillFrom_around isName, fillFrom_of_unmentioned unmentioned, ih, content, absent]
      rfl

theorem fillFrom_eq_iff {result : List Char} :
    fillFrom record none text = result ↔ Filled record text result := by
  constructor
  · rintro rfl
    obtain ⟨result, filled⟩ := exists_filled record text
    rwa [filled.fillFrom_eq]
  · exact Filled.fillFrom_eq

/-- Filling in a text replaces its placeholders, and nothing else. They do not overlap, and each is
replaced wherever it stands. A text can be divided before it is filled in, unless its first part
ends open. -/
theorem fill_exact (record : Fields) :
    (∀ text result, fill record text = result ↔ Filled record text.toList result.toList) ∧
      (∀ front name rest back other otherRest : List Char, IsName name → IsName other →
        front ++ written name ++ rest = back ++ written other ++ otherRest →
          front.length < back.length → front.length + (written name).length ≤ back.length) ∧
      (∀ front name rest : String, IsName name.toList →
        fill record (front ++ ("[" ++ name ++ "]") ++ rest) =
          fill record front ++ fill record ("[" ++ name ++ "]") ++ fill record rest) ∧
      ∀ front back : String, ¬ EndsOpen front.toList →
        fill record (front ++ back) = fill record front ++ fill record back := by
  refine ⟨fun text result => ?_, fun _ _ _ _ _ _ isName _ => length_written_le isName,
    fun front name rest isName => ?_, fun front back closed => ?_⟩
  · rw [← fillFrom_eq_iff, fill, ← String.toList_inj, String.toList_ofList]
  · have whole : fillFrom record none (front.toList ++ written name.toList ++ rest.toList) = _ :=
      fillFrom_around isName front.toList rest.toList
    have alone : fillFrom record none ([] ++ written name.toList ++ []) = _ :=
      fillFrom_around isName [] []
    simp only [List.nil_append, List.append_nil, fillFrom] at alone
    simp only [fill, String.toList_append, ← String.ofList_append]
    rw [← alone] at whole
    exact congrArg String.ofList whole
  · rw [fill, fill, fill, String.toList_append, ← String.ofList_append,
      fillFrom_append (fun _ impossible => by cases impossible)
        (fun endsOpen => absurd endsOpen closed)]

/-- A record with a text that looks like a placeholder. -/
def letter : Fields :=
  [("to", .str "[n]"), ("n", .num (.integer 7))]

theorem fill_exact_letter :
    fill letter "[[to]] [n] [no] [" = "[[n]] 7 [no] [" ∧
      Filled letter "[[to]] [n] [no] [".toList "[[n]] 7 [no] [".toList ∧
      IsName "to".toList ∧ IsName "n".toList ∧
      "[".toList.length + (written "to".toList).length ≤ "[[to]] ".toList.length ∧
      fill letter ("[" ++ ("[" ++ "to" ++ "]") ++ "]") =
        fill letter "[" ++ fill letter ("[" ++ "to" ++ "]") ++ fill letter "]" ∧
      ¬ EndsOpen "[[to]]".toList ∧ EndsOpen "[to".toList ∧
      fill letter ("[[to]]" ++ " [n]") = fill letter "[[to]]" ++ fill letter " [n]" ∧
      fill letter ("[to" ++ "]") ≠ fill letter "[to" ++ fill letter "]" := by
  obtain ⟨filled, apart, around, divided⟩ := fill_exact letter
  have result : fill letter "[[to]] [n] [no] [" = "[[n]] 7 [no] [" := by decide +kernel
  have isName : IsName "to".toList := by decide
  have otherIsName : IsName "n".toList := by decide
  have closed : ¬ EndsOpen "[[to]]".toList := by decide
  refine ⟨result, (filled _ _).mp result, isName, otherIsName, ?_, around _ _ _ isName, closed,
    by decide, divided _ _ closed, by decide +kernel⟩
  exact apart "[".toList "to".toList "] [n]".toList "[[to]] ".toList "n".toList [] isName
    otherIsName (by decide) (by decide)

end Tabula.Placeholder
