import Mathlib.Data.List.Forall2
import Tabula.Key.Options

/-!
# What is read from an option block

A block is read piece by piece. The name of an option reaches up to the first equals sign of its
piece, and the value from there up to the second one. So the options of a block give the block back
if none of its pieces has a second equals sign, and only then.
-/

namespace Tabula.Options

/-- An option that is read from a piece. The name reaches up to the first equals sign, and the value
stands to the rest as `valueOf` tells. Without an equals sign there is only a name. -/
inductive Reads (valueOf : (rest value : List Char) → Prop) :
    (piece : List Char) → (option : String × String) → Prop where
  | bare {name : String} (free : '=' ∉ name.toList) : Reads valueOf name.toList (name, "")
  | pair {name value : String} {rest : List Char} (free : '=' ∉ name.toList)
      (isValue : valueOf rest value.toList) :
      Reads valueOf (name.toList ++ '=' :: rest) (name, value)

/-- An option with the value that a piece has behind its first equals sign. -/
def ReadsWhole : (piece : List Char) → (option : String × String) → Prop :=
  Reads Eq

/-- An option whose value ends before the second equals sign of a piece. -/
def ReadsUpTo : (piece : List Char) → (option : String × String) → Prop :=
  Reads (Text.UpTo '=')

variable {delimiter : Char} {piece block : List Char} {option : String × String}

theorem readsUpTo_ofPiece (piece : List Char) : ReadsUpTo piece (ofPiece piece) := by
  unfold ofPiece
  cases cut : Text.cut? '=' piece with
  | none =>
      have free := Text.cut?_eq_none_iff.mp cut
      rw [← String.toList_ofList (l := piece)] at free
      have bare : ReadsUpTo (String.ofList piece).toList (String.ofList piece, "") := .bare free
      rwa [String.toList_ofList] at bare
  | some parts =>
      obtain ⟨name, rest⟩ := parts
      obtain ⟨rfl, free⟩ := Text.cut?_eq_some_iff.mp cut
      rw [← String.toList_ofList (l := name)] at free
      have pair : ReadsUpTo ((String.ofList name).toList ++ '=' :: rest)
          (String.ofList name, String.ofList (rest.takeWhile (· ≠ '='))) :=
        .pair free (by rw [String.toList_ofList, Text.upTo_iff])
      rwa [String.toList_ofList] at pair

theorem ReadsUpTo.not_mem (reads : ReadsUpTo piece option) : '=' ∉ option.2.toList := by
  cases reads with
  | bare _ => simp
  | pair _ isValue => exact isValue.free

/-- A piece gives its whole value if it does not have a second equals sign. -/
theorem ReadsUpTo.readsWhole (reads : ReadsUpTo piece option) (few : piece.count '=' ≤ 1) :
    ReadsWhole piece option := by
  cases reads with
  | bare free => exact .bare free
  | @pair name value rest free isValue =>
      obtain ⟨_, behind, rfl, starts⟩ := isValue
      refine .pair free ?_
      cases behind with
      | nil => exact List.append_nil _
      | cons c behind =>
          obtain rfl := starts c rfl
          simp only [List.count_append, List.count_cons_self] at few
          omega

/-- Where a value holds no equals sign, there is no second one in the piece that it is the whole
value of. -/
theorem ReadsWhole.count_le (whole : ReadsWhole piece option) (free : '=' ∉ option.2.toList) :
    piece.count '=' ≤ 1 := by
  cases whole with
  | bare nameFree => simp [List.count_eq_zero_of_not_mem nameFree]
  | pair nameFree isValue =>
      simp [isValue, List.count_eq_zero_of_not_mem nameFree, List.count_eq_zero_of_not_mem free]

theorem readsWhole_ofPiece_iff : ReadsWhole piece (ofPiece piece) ↔ piece.count '=' ≤ 1 :=
  ⟨fun whole => whole.count_le (readsUpTo_ofPiece piece).not_mem,
    (readsUpTo_ofPiece piece).readsWhole⟩

/-- The whole piece of an option holds a character other than the equals sign only where the piece
from which the option is read does. -/
theorem ReadsWhole.not_mem {text : List Char} {c : Char} (whole : ReadsWhole text option)
    (reads : ReadsUpTo piece option) (free : c ∉ piece) (differ : c ≠ '=') : c ∉ text := by
  cases reads with
  | bare _ =>
      cases whole with
      | bare _ => exact free
      | pair _ isValue => simp [isValue, free, differ]
  | pair _ isValue =>
      obtain ⟨_, behind, rfl, _⟩ := isValue
      simp only [List.mem_append, List.mem_cons, not_or] at free
      cases whole with
      | bare _ => exact free.1
      | pair _ isWhole =>
          rw [isWhole, List.mem_append, List.mem_cons, not_or, not_or]
          exact ⟨free.1, differ, free.2.2.1⟩

theorem forall₂_ofBlock_iff {reads : List Char → String × String → Prop} :
    List.Forall₂ reads (block.splitOn delimiter) (ofBlock delimiter block) ↔
      ∀ piece ∈ block.splitOn delimiter, reads piece (ofPiece piece) := by
  rw [ofBlock, List.forall₂_map_right_iff, List.forall₂_same]

/-- A block that is written from options, each of them as one piece. -/
def IsWritten (delimiter : Char) (options : Options) (block : List Char) : Prop :=
  ∃ texts, List.Forall₂ ReadsWhole texts options ∧ [delimiter].intercalate texts = block

/-- The texts from which a block is written back from its options are its pieces. -/
theorem eq_pieces_of_forall₂ {texts : List (List Char)} (differ : delimiter ≠ '=')
    (whole : List.Forall₂ ReadsWhole texts (ofBlock delimiter block))
    (joined : [delimiter].intercalate texts = block) : texts = block.splitOn delimiter := by
  apply Text.divides_iff.mp
  refine ⟨?_, fun text textMem => ?_, joined⟩
  · rintro rfl
    have noPieces := whole.length_eq
    rw [ofBlock, List.length_map, List.length_nil, eq_comm, List.length_eq_zero_iff] at noPieces
    exact List.splitOn_ne_nil delimiter block noPieces
  · obtain ⟨place, rfl⟩ := List.mem_iff_get.mp textMem
    have reads := whole.get place.isLt (whole.length_eq ▸ place.isLt)
    obtain ⟨piece, pieceMem, isRead⟩ := List.mem_map.mp (List.get_mem (ofBlock delimiter block) _)
    rw [← isRead] at reads
    exact reads.not_mem (readsUpTo_ofPiece piece) (Text.not_mem_of_mem_splitOn pieceMem) differ

/-- From every piece of a block one option is read, in order. Its value ends before the second
equals sign of the piece. So all values are whole, and the options give the block back, if no piece
has a second equals sign, and only then. -/
theorem ofBlock_reads (delimiter : Char) (block : List Char) :
    ∃ pieces, Text.Divides delimiter pieces block ∧
      List.Forall₂ ReadsUpTo pieces (ofBlock delimiter block) ∧
      (List.Forall₂ ReadsWhole pieces (ofBlock delimiter block) ↔
        ∀ piece ∈ pieces, piece.count '=' ≤ 1) ∧
      (IsWritten delimiter (ofBlock delimiter block) block ↔
        ∀ piece ∈ pieces, piece.count '=' ≤ 1) := by
  have whole_iff : List.Forall₂ ReadsWhole (block.splitOn delimiter)
      (ofBlock delimiter block) ↔ ∀ piece ∈ block.splitOn delimiter, piece.count '=' ≤ 1 := by
    simp only [forall₂_ofBlock_iff, readsWhole_ofPiece_iff]
  refine ⟨block.splitOn delimiter, Text.divides_iff.mpr rfl,
    forall₂_ofBlock_iff.mpr fun piece _ => readsUpTo_ofPiece piece, whole_iff, ?_⟩
  constructor
  · rintro ⟨texts, whole, joined⟩
    by_cases same : delimiter = '='
    · -- At the equals sign itself a block is divided into pieces that have none.
      subst same
      intro piece pieceMem
      rw [List.count_eq_zero_of_not_mem (Text.not_mem_of_mem_splitOn pieceMem)]
      exact Nat.zero_le 1
    · rw [eq_pieces_of_forall₂ same whole joined] at whole
      exact whole_iff.mp whole
  · intro few
    exact ⟨_, whole_iff.mpr few, List.intercalate_splitOn delimiter⟩

/-- The value of an option with an equals sign in it is cut there, and the block is lost. -/
theorem not_readsWhole_equation :
    ofBlock '$' "ref=id$ref_prefix=a=b".toList = [("ref", "id"), ("ref_prefix", "a")] ∧
      ¬ List.Forall₂ ReadsWhole ("ref=id$ref_prefix=a=b".toList.splitOn '$')
        (ofBlock '$' "ref=id$ref_prefix=a=b".toList) ∧
      ¬ IsWritten '$' (ofBlock '$' "ref=id$ref_prefix=a=b".toList)
        "ref=id$ref_prefix=a=b".toList := by
  have notWhole : ¬ List.Forall₂ ReadsWhole ("ref=id$ref_prefix=a=b".toList.splitOn '$')
      (ofBlock '$' "ref=id$ref_prefix=a=b".toList) := by
    simp only [forall₂_ofBlock_iff, readsWhole_ofPiece_iff]
    decide
  refine ⟨by decide, notWhole, ?_⟩
  rintro ⟨texts, whole, joined⟩
  rw [eq_pieces_of_forall₂ (by decide) whole joined] at whole
  exact notWhole whole

end Tabula.Options
