import Mathlib.Data.List.Basic
import Tabula.Csv.Typing
import Tabula.Value.CellText

/-!
# Texts that typing keeps

A field text that is no numeral stays a text. A numeral becomes a number, and the text of that
number is the numeral only if it is written in the one way in which the number would be. So typing
keeps every text with a character that numerals do not have, and of the integers those without a
plus sign and without leading zeros.
-/

namespace Tabula

namespace Decimal

/-- A character that numerals are made of. -/
def isNumeralChar (c : Char) : Bool :=
  c.isDigit || c ∈ ['+', '-', '.', 'e', 'E']

variable {text : List Char} {c : Char}

theorem isNumeralChar_of_isDigit (digit : c.isDigit = true) : isNumeralChar c = true := by
  rw [isNumeralChar, digit, Bool.true_or]

theorem isNumeralChar_of_mem_takeWhile (inside : c ∈ text.takeWhile Char.isDigit) :
    isNumeralChar c = true :=
  isNumeralChar_of_isDigit (List.all_eq_true.mp List.all_takeWhile c inside)

/-- A text is its sign, if it has one, and the rest. -/
theorem isNumeralChar_or_mem_takeSign (inside : c ∈ text) :
    isNumeralChar c = true ∨ c ∈ (takeSign text).2 := by
  unfold takeSign
  split
  · rcases List.mem_cons.mp inside with rfl | later
    · exact Or.inl (by decide)
    · exact Or.inr later
  · rcases List.mem_cons.mp inside with rfl | later
    · exact Or.inl (by decide)
    · exact Or.inr later
  · exact Or.inr inside

theorem isNumeralChar_of_exponentPart? {exponent : Int}
    (read : exponentPart? text = some exponent) (inside : c ∈ text) : isNumeralChar c = true := by
  cases text with
  | nil => cases inside
  | cons letter rest =>
      rw [exponentPart?] at read
      dsimp only at read
      split at read
      · rename_i written
        obtain ⟨isLetter, _, digits⟩ := written
        rcases List.mem_cons.mp inside with rfl | later
        · rcases isLetter with rfl | rfl <;> decide
        · rcases isNumeralChar_or_mem_takeSign later with sign | digit
          · exact sign
          · exact isNumeralChar_of_isDigit (List.all_eq_true.mp digits c digit)
      · cases read

/-- Behind sign, digits and point of a numeral there is its exponent part. -/
theorem exists_exponentPart?_of_ofChars? {decimal : Decimal}
    (read : ofChars? text = some decimal) :
    ∃ behind exponent, exponentPart? behind = some exponent ∧
      ∀ c ∈ text, isNumeralChar c = true ∨ c ∈ behind := by
  have divided (p : Char → Bool) {c : Char} {text : List Char} (inside : c ∈ text) :
      c ∈ text.takeWhile p ∨ c ∈ text.dropWhile p := by
    rwa [← List.mem_append, List.takeWhile_append_dropWhile]
  rw [ofChars?] at read
  dsimp only at read
  split at read
  · rename_i rest pointed
    split at read
    · cases read
    · obtain ⟨exponent, exponentRead, _⟩ := Option.map_eq_some_iff.mp read
      refine ⟨_, exponent, exponentRead, fun c inside => ?_⟩
      rcases isNumeralChar_or_mem_takeSign inside with sign | inBody
      · exact Or.inl sign
      · rcases divided Char.isDigit inBody with whole | afterWhole
        · exact Or.inl (isNumeralChar_of_mem_takeWhile whole)
        · rw [pointed] at afterWhole
          rcases List.mem_cons.mp afterWhole with rfl | later
          · exact Or.inl (by decide)
          · exact (divided Char.isDigit later).imp_left isNumeralChar_of_mem_takeWhile
  · split at read
    · cases read
    · obtain ⟨exponent, exponentRead, _⟩ := Option.map_eq_some_iff.mp read
      refine ⟨_, exponent, exponentRead, fun c inside => ?_⟩
      rcases isNumeralChar_or_mem_takeSign inside with sign | inBody
      · exact Or.inl sign
      · exact (divided Char.isDigit inBody).imp_left isNumeralChar_of_mem_takeWhile

theorem isNumeralChar_of_ofChars? {decimal : Decimal} (read : ofChars? text = some decimal)
    (inside : c ∈ text) : isNumeralChar c = true := by
  obtain ⟨behind, exponent, exponentRead, divided⟩ := exists_exponentPart?_of_ofChars? read
  rcases divided c inside with numeral | later
  · exact numeral
  · exact isNumeralChar_of_exponentPart? exponentRead later

/-- What reads as an integer is made of the characters of numerals. -/
theorem isNumeralChar_of_integerOfChars? {value : Int} (read : integerOfChars? text = some value)
    (inside : c ∈ text) : isNumeralChar c = true := by
  rw [integerOfChars?] at read
  dsimp only at read
  split at read
  · rename_i written
    rcases isNumeralChar_or_mem_takeSign inside with sign | digit
    · exact sign
    · exact isNumeralChar_of_isDigit (List.all_eq_true.mp written.2 c digit)
  · cases read

end Decimal

/-! ### Integers as they are written -/

/-- Digits are read again, with a sign or without one. -/
theorem integerOfChars?_of_takeSign {text : List Char} {negative : Bool} {n : Nat}
    (signed : Decimal.takeSign text = (negative, Nat.toDigits 10 n)) :
    integerOfChars? text = some (if negative then -(n : Int) else n) := by
  have digits : (Nat.toDigits 10 n).all Char.isDigit = true :=
    List.all_eq_true.mpr fun c inside =>
      Nat.isDigit_of_mem_toDigits (by decide) (by decide) inside
  have value : Decimal.digitsValue (Nat.toDigits 10 n) = n := Nat.ofDigitChars_ten_toDigits
  rw [integerOfChars?, signed]
  dsimp only
  rw [if_pos ⟨Nat.toDigits_ne_nil, digits⟩, value]

theorem takeSign_toDigits (n : Nat) :
    Decimal.takeSign (Nat.toDigits 10 n) = (false, Nat.toDigits 10 n) := by
  have digits : ∀ c ∈ Nat.toDigits 10 n, c.isDigit = true :=
    fun c inside => Nat.isDigit_of_mem_toDigits (by decide) (by decide) inside
  unfold Decimal.takeSign
  split
  · rename_i isMinus
    exact absurd (digits '-' (isMinus ▸ List.mem_cons_self)) (by decide)
  · rename_i isPlus
    exact absurd (digits '+' (isPlus ▸ List.mem_cons_self)) (by decide)
  · rfl

/-- An integer is read again from its text. -/
theorem integerOfChars?_integerText (value : Int) :
    integerOfChars? (integerText value).toList = some value := by
  cases value with
  | ofNat n =>
      rw [integerText, naturalText, String.toList_ofList,
        integerOfChars?_of_takeSign (takeSign_toDigits n)]
      rfl
  | negSucc n =>
      have signed : Decimal.takeSign (integerText (Int.negSucc n)).toList =
          (true, Nat.toDigits 10 (n + 1)) := by
        rw [integerText, naturalText, String.toList_append, String.toList_ofList]
        simp [Decimal.takeSign]
      rw [integerOfChars?_of_takeSign signed]
      rfl

namespace Csv

/-- A text that is the text of the value it is typed as. -/
def Keeps (text : String) : Prop :=
  (typed text).map Value.cellText = some text

instance (text : String) : Decidable (Keeps text) :=
  inferInstanceAs (Decidable (_ = _))

variable {text : String}

theorem typed_of_number?_eq_none (nonempty : text ≠ "") (noNumber : number? text.toList = none) :
    typed text = some (.str text) := by
  rw [typed, if_neg nonempty, noNumber]

theorem typed_of_number?_eq_some {number : Number} (nonempty : text ≠ "")
    (isNumber : number? text.toList = some number) : typed text = some (.num number) := by
  rw [typed, if_neg nonempty, isNumber]

/-- A text is kept if and only if it is no number, or reads as the text of the number that it
is. -/
theorem keeps_iff (nonempty : text ≠ "") :
    Keeps text ↔ ∀ number, number? text.toList = some number → number.cellText = text := by
  rw [Keeps]
  cases isNumber : number? text.toList with
  | none => simp [typed_of_number?_eq_none nonempty isNumber, Value.cellText]
  | some number => simp [typed_of_number?_eq_some nonempty isNumber, Value.cellText]

theorem isNumeralChar_of_number? {text : List Char} {number : Number} {c : Char}
    (isNumber : number? text = some number) (inside : c ∈ text) :
    Decimal.isNumeralChar c = true := by
  have ofDecimal (isDecimal : decimalNumber? text = some number) :
      Decimal.isNumeralChar c = true := by
    rw [decimalNumber?] at isDecimal
    split at isDecimal
    · obtain ⟨double, isDouble, _⟩ := Option.map_eq_some_iff.mp isDecimal
      obtain ⟨decimal, read, _⟩ := Option.bind_eq_some_iff.mp isDouble
      exact Decimal.isNumeralChar_of_ofChars? read inside
    · cases isDecimal
  rw [number?] at isNumber
  split at isNumber
  · rename_i value read
    split at isNumber
    · exact Decimal.isNumeralChar_of_integerOfChars? read inside
    · exact ofDecimal isNumber
  · exact ofDecimal isNumber

/-- A text with a character that numerals do not have is kept. -/
theorem keeps_of_foreign {c : Char} (inside : c ∈ text.toList)
    (foreign : Decimal.isNumeralChar c = false) : Keeps text := by
  have nonempty : text ≠ "" := by
    rintro rfl
    cases inside
  rw [keeps_iff nonempty]
  intro number isNumber
  rw [isNumeralChar_of_number? isNumber inside] at foreign
  cases foreign

/-- An integer within a signed word is kept if and only if it is written as its text. -/
theorem keeps_integer_iff {value : Int} (read : integerOfChars? text.toList = some value)
    (isWord : Number.isSignedWord value = true) : Keeps text ↔ text = integerText value := by
  have nonempty : text ≠ "" := by
    rintro rfl
    cases read
  have isNumber : number? text.toList = some (.integer value) := by
    rw [number?, read]
    exact if_pos isWord
  simp [keeps_iff nonempty, isNumber, Number.cellText, eq_comm]

theorem keeps_integerText {value : Int} (isWord : Number.isSignedWord value = true) :
    Keeps (integerText value) :=
  (keeps_integer_iff (integerOfChars?_integerText value) isWord).mpr rfl

end Csv

end Tabula
