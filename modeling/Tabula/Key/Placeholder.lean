import Tabula.Key.Settings
import Tabula.Value.CellText

/-!
# Placeholders

A placeholder is a name in square brackets, `[lang]`. Filling in a text replaces the
placeholders that name a field of a record by the cell text of that field; all other
brackets stay as they are, and what has been filled in is not looked at again.
-/

namespace Tabula.Placeholder

/-- A character of a placeholder name. -/
def isNameChar (c : Char) : Bool :=
  isWordChar c || c = '|'

/-- What a placeholder with the given name becomes. -/
def content (record : Fields) (name : List Char) : List Char :=
  match Entries.get? record (String.ofList name) with
  | some value => value.cellText.toList
  | none => '[' :: name ++ [']']

/-- Fills in the rest of a text. While a placeholder may be open, `pending` holds its
name so far, last character first. -/
def fillFrom (record : Fields) : (pending : Option (List Char)) → List Char → List Char
  | none, [] => []
  | none, c :: text =>
      if c = '[' then fillFrom record (some []) text else c :: fillFrom record none text
  | some name, [] => '[' :: name.reverse
  | some name, c :: text =>
      if isNameChar c then
        fillFrom record (some (c :: name)) text
      else if c = ']' ∧ name ≠ [] then
        content record name.reverse ++ fillFrom record none text
      else if c = '[' then
        '[' :: name.reverse ++ fillFrom record (some []) text
      else
        '[' :: name.reverse ++ c :: fillFrom record none text

/-- Replaces every placeholder of a text that names a field of the record. -/
def fill (record : Fields) (text : String) : String :=
  String.ofList (fillFrom record none text.toList)

/-- A text holds a placeholder with the given name. -/
def Mentions (name text : List Char) : Prop :=
  (name ≠ [] ∧ ∀ c ∈ name, isNameChar c = true) ∧ '[' :: name ++ [']'] <:+: text

instance (name text : List Char) : Decidable (Mentions name text) :=
  inferInstanceAs (Decidable (_ ∧ _))

theorem Mentions.append_left {name text : List Char} (mentions : Mentions name text)
    (front : List Char) : Mentions name (front ++ text) :=
  ⟨mentions.1, mentions.2.trans (List.suffix_append front text).isInfix⟩

/-- The text of a placeholder that may be open. -/
def opened : (pending : Option (List Char)) → List Char
  | none => []
  | some name => '[' :: name.reverse

theorem content_congr {record other : Fields} {name : List Char}
    (same : Entries.get? record (String.ofList name) =
      Entries.get? other (String.ofList name)) : content record name = content other name := by
  rw [content, content, same]

/-- What a text becomes depends on the fields alone that its placeholders name. -/
theorem fillFrom_congr {record other : Fields} {pending : Option (List Char)}
    {text : List Char} (named : ∀ name ∈ pending, ∀ c ∈ name, isNameChar c = true)
    (agree : ∀ name, Mentions name (opened pending ++ text) →
      Entries.get? record (String.ofList name) = Entries.get? other (String.ofList name)) :
    fillFrom record pending text = fillFrom other pending text := by
  induction text generalizing pending with
  | nil => cases pending <;> rfl
  | cons c text ih =>
      have nothing : ∀ name ∈ (none : Option (List Char)), ∀ c ∈ name, isNameChar c = true :=
        fun _ impossible => by cases impossible
      have fresh : ∀ name ∈ some ([] : List Char), ∀ c ∈ name, isNameChar c = true := by
        rintro _ ⟨⟩ c ⟨⟩
      cases pending with
      | none =>
          rw [fillFrom, fillFrom]
          split
          · rename_i bracket
            subst bracket
            exact ih fresh agree
          · exact congrArg (c :: ·) (ih nothing fun name mentions =>
              agree name (mentions.append_left [c]))
      | some name =>
          have whole : opened (some name) ++ c :: text = '[' :: name.reverse ++ c :: text := rfl
          have behind : fillFrom record none text = fillFrom other none text :=
            ih nothing fun other mentions => agree other
              (by simpa [opened] using mentions.append_left ('[' :: name.reverse ++ [c]))
          rw [fillFrom, fillFrom]
          split
          · rename_i nameChar
            apply ih
            · rintro _ ⟨⟩ other otherMem
              rcases List.mem_cons.mp otherMem with rfl | old
              · exact nameChar
              · exact named name rfl other old
            · intro found mentions
              exact agree found (by simpa [opened] using mentions)
          · split
            · rename_i closed
              obtain ⟨rfl, nonempty⟩ := closed
              have mentioned : Mentions name.reverse (opened (some name) ++ ']' :: text) := by
                refine ⟨⟨by simpa using nonempty, fun c inside => ?_⟩, [], text, by simp [opened]⟩
                exact named name rfl c (List.mem_reverse.mp inside)
              rw [content_congr (agree _ mentioned), behind]
            · split
              · rename_i bracket
                subst bracket
                have reopened := ih fresh fun other mentions => agree other
                  (by simpa [opened] using mentions.append_left ('[' :: name.reverse))
                rw [reopened]
              · rw [behind]

/-- Records that agree in all fields but one fill in a text the same way, unless a placeholder
names that field. -/
theorem fill_congr {record other : Fields} {key text : String}
    (agree : ∀ name, name ≠ key → Entries.get? record name = Entries.get? other name)
    (unnamed : ¬ Mentions key.toList text.toList) : fill record text = fill other text := by
  have same : fillFrom record none text.toList = fillFrom other none text.toList := by
    apply fillFrom_congr
    · exact fun _ impossible => by cases impossible
    · intro name mentions
      apply agree
      rintro rfl
      exact unnamed (by simpa [opened] using mentions)
  rw [fill, fill, same]

theorem fillFrom_of_not_mem (record : Fields) {text : List Char} (free : '[' ∉ text) :
    fillFrom record none text = text := by
  induction text with
  | nil => rfl
  | cons c text ih =>
      rw [List.mem_cons, not_or] at free
      rw [fillFrom, if_neg (Ne.symm free.1), ih free.2]

/-- A text without an opening bracket stays as it is. -/
theorem fill_of_not_mem (record : Fields) {text : String} (free : '[' ∉ text.toList) :
    fill record text = text := by
  rw [fill, fillFrom_of_not_mem record free, String.ofList_toList]

end Tabula.Placeholder
