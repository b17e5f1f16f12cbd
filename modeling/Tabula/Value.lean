import Tabula.Entries
import Tabula.Number

/-!
# Document values

Cells, rows and documents share one value type. The fields of an object are an
ordered list of named entries: their order is part of the value.
-/

namespace Tabula

/-- A value of a cell or a document. -/
inductive Value where
  | null
  | bool (value : Bool)
  | num (value : Number)
  | str (text : String)
  | arr (items : List Value)
  | obj (fields : List (String × Value))
deriving Inhabited

/-- The named values of an object, a row or a document, in order. -/
abbrev Fields :=
  Entries String Value

namespace Value

/-- The fields of an object. -/
def fields? : Value → Option Fields
  | obj fields => some fields
  | _ => none

/-- The items of an array. -/
def items? : Value → Option (List Value)
  | arr items => some items
  | _ => none

/-- Whether a value holds other values. -/
def isContainer : Value → Bool
  | arr _ => true
  | obj _ => true
  | _ => false

mutual

/-- No object inside the value repeats a name. -/
def WellFormed : Value → Prop
  | arr items => WellFormedItems items
  | obj fields => Entries.Distinct fields ∧ WellFormedFields fields
  | _ => True

/-- Every item of an array is well formed. -/
def WellFormedItems : List Value → Prop
  | [] => True
  | item :: rest => WellFormed item ∧ WellFormedItems rest

/-- Every field value of an object is well formed. -/
def WellFormedFields : List (String × Value) → Prop
  | [] => True
  | field :: rest => WellFormedField field ∧ WellFormedFields rest

/-- The value of one field is well formed. -/
def WellFormedField : String × Value → Prop
  | (_, value) => WellFormed value

end

mutual

/-- Decides whether two values are the same, order of fields included. -/
def decideEq : (left right : Value) → Decidable (left = right)
  | null, null => isTrue rfl
  | bool a, bool b =>
      if same : a = b then isTrue (same ▸ rfl) else isFalse fun equal => same (bool.inj equal)
  | num a, num b =>
      if same : a = b then isTrue (same ▸ rfl) else isFalse fun equal => same (num.inj equal)
  | str a, str b =>
      if same : a = b then isTrue (same ▸ rfl) else isFalse fun equal => same (str.inj equal)
  | arr a, arr b =>
      match decideItemsEq a b with
      | isTrue same => isTrue (same ▸ rfl)
      | isFalse differ => isFalse fun equal => differ (arr.inj equal)
  | obj a, obj b =>
      match decideFieldsEq a b with
      | isTrue same => isTrue (same ▸ rfl)
      | isFalse differ => isFalse fun equal => differ (obj.inj equal)
  | null, bool _ | null, num _ | null, str _ | null, arr _ | null, obj _
  | bool _, null | bool _, num _ | bool _, str _ | bool _, arr _ | bool _, obj _
  | num _, null | num _, bool _ | num _, str _ | num _, arr _ | num _, obj _
  | str _, null | str _, bool _ | str _, num _ | str _, arr _ | str _, obj _
  | arr _, null | arr _, bool _ | arr _, num _ | arr _, str _ | arr _, obj _
  | obj _, null | obj _, bool _ | obj _, num _ | obj _, str _ | obj _, arr _ =>
      isFalse fun equal => by cases equal
termination_by structural left => left

/-- Decides whether two item lists are the same. -/
def decideItemsEq : (left right : List Value) → Decidable (left = right)
  | [], [] => isTrue rfl
  | a :: as, b :: bs =>
      match decideEq a b, decideItemsEq as bs with
      | isTrue head, isTrue tail => isTrue (head ▸ tail ▸ rfl)
      | isFalse differ, _ => isFalse fun equal => differ (List.cons.inj equal).1
      | _, isFalse differ => isFalse fun equal => differ (List.cons.inj equal).2
  | [], _ :: _ | _ :: _, [] => isFalse fun equal => by cases equal

/-- Decides whether two field lists are the same. -/
def decideFieldsEq : (left right : List (String × Value)) → Decidable (left = right)
  | [], [] => isTrue rfl
  | a :: as, b :: bs =>
      match decideFieldEq a b, decideFieldsEq as bs with
      | isTrue head, isTrue tail => isTrue (head ▸ tail ▸ rfl)
      | isFalse differ, _ => isFalse fun equal => differ (List.cons.inj equal).1
      | _, isFalse differ => isFalse fun equal => differ (List.cons.inj equal).2
  | [], _ :: _ | _ :: _, [] => isFalse fun equal => by cases equal

/-- Decides whether two fields are the same. -/
def decideFieldEq : (left right : String × Value) → Decidable (left = right)
  | (name, value), (otherName, otherValue) =>
      if sameName : name = otherName then
        match decideEq value otherValue with
        | isTrue sameValue => isTrue (sameName ▸ sameValue ▸ rfl)
        | isFalse differ => isFalse fun equal => differ (Prod.mk.inj equal).2
      else
        isFalse fun equal => sameName (Prod.mk.inj equal).1

end

instance : DecidableEq Value :=
  decideEq

end Value

end Tabula
