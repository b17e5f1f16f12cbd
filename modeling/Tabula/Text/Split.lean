/-!
# Cutting texts at a character

Two ways to cut a text at a delimiter: once, at its first occurrence, or everywhere. The
pieces between all delimiters are free of the delimiter and hold nothing but characters of
the text, and there is no other way to divide the text.
-/

namespace Tabula.Text

/-- The parts before and after the first occurrence of a delimiter. -/
def cut? (delimiter : Char) : List Char → Option (List Char × List Char)
  | [] => none
  | c :: text =>
      if c = delimiter then
        some ([], text)
      else
        (cut? delimiter text).map fun parts => (c :: parts.1, parts.2)

/-- A text is divided into tokens: joined by the delimiter, which none of them holds, they give
the text. -/
structure Divides (delimiter : Char) (tokens : List (List Char)) (text : List Char) : Prop where
  nonempty : tokens ≠ []
  free : ∀ token ∈ tokens, delimiter ∉ token
  joined : [delimiter].intercalate tokens = text

/-- A text reaches from the start of another one up to the first delimiter, or to the end if there
is none. -/
structure UpTo (delimiter : Char) (text front : List Char) : Prop where
  free : delimiter ∉ front
  behind : ∃ rest, text = front ++ rest ∧ ∀ c ∈ rest.head?, c = delimiter

theorem splitOn_cons_self (delimiter : Char) (text : List Char) :
    (delimiter :: text).splitOn delimiter = [] :: text.splitOn delimiter := by
  rw [List.splitOn_cons_eq_if_modifyHead, if_pos (beq_self_eq_true delimiter)]

theorem splitOn_cons_of_ne {delimiter c : Char} {text piece : List Char}
    {rest : List (List Char)} (differ : c ≠ delimiter)
    (divided : text.splitOn delimiter = piece :: rest) :
    (c :: text).splitOn delimiter = (c :: piece) :: rest := by
  rw [List.splitOn_cons_eq_if_modifyHead, if_neg (by simpa using differ), divided]
  rfl

/-- No piece holds the delimiter. -/
theorem not_mem_of_mem_splitOn {delimiter : Char} {text piece : List Char}
    (found : piece ∈ text.splitOn delimiter) : delimiter ∉ piece := by
  induction text generalizing piece with
  | nil =>
      rw [List.splitOn_nil, List.mem_singleton] at found
      rw [found]
      exact List.not_mem_nil
  | cons c text ih =>
      by_cases same : c = delimiter
      · subst same
        rw [splitOn_cons_self] at found
        rcases List.mem_cons.mp found with rfl | old
        · exact List.not_mem_nil
        · exact ih old
      · obtain ⟨front, rest, divided⟩ :=
          List.exists_cons_of_ne_nil (List.splitOn_ne_nil delimiter text)
        rw [divided] at ih
        rw [splitOn_cons_of_ne same divided] at found
        rcases List.mem_cons.mp found with rfl | old
        · rw [List.mem_cons, not_or]
          exact ⟨Ne.symm same, ih List.mem_cons_self⟩
        · exact ih (List.mem_cons_of_mem front old)

/-- A character other than the delimiter comes from the texts that are joined. -/
theorem mem_intercalate_iff {delimiter c : Char} {tokens : List (List Char)}
    (differ : c ≠ delimiter) :
    c ∈ [delimiter].intercalate tokens ↔ ∃ token ∈ tokens, c ∈ token := by
  induction tokens with
  | nil => simp [List.intercalate]
  | cons first rest ih =>
      cases rest with
      | nil => simp [List.intercalate]
      | cons second rest =>
          rw [List.intercalate_cons_cons, List.append_assoc, List.mem_append, List.singleton_append,
            List.mem_cons, or_iff_right differ, ih]
          simp

/-- The pieces hold characters of the text alone. -/
theorem mem_of_mem_splitOn {delimiter c : Char} {text piece : List Char}
    (found : piece ∈ text.splitOn delimiter) (inside : c ∈ piece) : c ∈ text := by
  have differ : c ≠ delimiter := by
    rintro rfl
    exact not_mem_of_mem_splitOn found inside
  have joined : [delimiter].intercalate (text.splitOn delimiter) = text :=
    List.intercalate_splitOn delimiter
  rw [← joined, mem_intercalate_iff differ]
  exact ⟨piece, found, inside⟩

theorem count_append_cons {delimiter : Char} {front : List Char} (free : delimiter ∉ front)
    (rest : List Char) :
    (front ++ delimiter :: rest).count delimiter = rest.count delimiter + 1 := by
  rw [List.count_append, List.count_eq_zero_of_not_mem free, List.count_cons_self, Nat.zero_add]

/-- Every delimiter starts one more piece. -/
theorem length_splitOn (delimiter : Char) (text : List Char) :
    (text.splitOn delimiter).length = text.count delimiter + 1 := by
  induction text with
  | nil => rfl
  | cons c text ih =>
      by_cases same : c = delimiter
      · subst same
        rw [splitOn_cons_self, List.length_cons, ih, List.count_cons_self]
      · obtain ⟨front, rest, divided⟩ :=
          List.exists_cons_of_ne_nil (List.splitOn_ne_nil delimiter text)
        rw [divided] at ih
        rw [splitOn_cons_of_ne same divided, List.count_cons_of_ne same]
        exact ih

/-- There is one way to divide a text: into its pieces. -/
theorem divides_iff {delimiter : Char} {tokens : List (List Char)} {text : List Char} :
    Divides delimiter tokens text ↔ tokens = text.splitOn delimiter := by
  constructor
  · rintro ⟨nonempty, free, rfl⟩
    exact (List.splitOn_intercalate delimiter free nonempty).symm
  · rintro rfl
    exact ⟨List.splitOn_ne_nil delimiter text, fun _ found => not_mem_of_mem_splitOn found,
      List.intercalate_splitOn delimiter⟩

/-- A text without delimiters extends the last piece of the text in front of it. -/
theorem exists_splitOn_append (delimiter : Char) (text : List Char) :
    ∃ front last, ∀ tail, delimiter ∉ tail →
      (text ++ tail).splitOn delimiter = front ++ [last ++ tail] := by
  induction text with
  | nil => exact ⟨[], [], fun tail free => List.splitOn_eq_singleton free⟩
  | cons c text ih =>
      obtain ⟨front, last, divided⟩ := ih
      by_cases same : c = delimiter
      · subst same
        refine ⟨[] :: front, last, fun tail free => ?_⟩
        rw [List.cons_append, splitOn_cons_self, divided tail free, List.cons_append]
      · cases front with
        | nil =>
            exact ⟨[], c :: last, fun tail free => splitOn_cons_of_ne same (divided tail free)⟩
        | cons first front =>
            exact ⟨(c :: first) :: front, last,
              fun tail free => splitOn_cons_of_ne same (divided tail free)⟩

theorem cut?_eq_none_iff {delimiter : Char} {text : List Char} :
    cut? delimiter text = none ↔ delimiter ∉ text := by
  induction text with
  | nil => simp [cut?]
  | cons c text ih =>
      rw [cut?]
      by_cases same : c = delimiter
      · simp [same]
      · simp [same, ih, Ne.symm same]

theorem cut?_eq_some_iff {delimiter : Char} {text front rest : List Char} :
    cut? delimiter text = some (front, rest) ↔
      text = front ++ delimiter :: rest ∧ delimiter ∉ front := by
  induction text generalizing front with
  | nil => simp [cut?]
  | cons c text ih =>
      rw [cut?]
      by_cases same : c = delimiter
      · subst same
        rw [if_pos rfl, Option.some.injEq, Prod.mk.injEq]
        constructor
        · rintro ⟨rfl, rfl⟩
          simp
        · rintro ⟨equal, absent⟩
          cases front with
          | nil => simpa using equal
          | cons first front =>
              rw [List.cons_append, List.cons.injEq] at equal
              exact absurd (by simp [equal.1]) absent
      · rw [if_neg same, Option.map_eq_some_iff]
        constructor
        · rintro ⟨⟨tailFront, tailRest⟩, found, equal⟩
          rw [Prod.mk.injEq] at equal
          obtain ⟨rfl, rfl⟩ := equal
          obtain ⟨textEq, absent⟩ := ih.mp found
          exact ⟨by rw [textEq]; rfl, by simp [absent, Ne.symm same]⟩
        · rintro ⟨equal, absent⟩
          cases front with
          | nil => exact absurd (List.cons.inj equal).1 same
          | cons first front =>
              rw [List.cons_append, List.cons.injEq] at equal
              rw [List.mem_cons, not_or] at absent
              exact ⟨(front, rest), ih.mpr ⟨equal.2, absent.2⟩, by rw [equal.1]⟩

theorem forall_decide_ne_of_not_mem {delimiter : Char} {front : List Char}
    (free : delimiter ∉ front) : ∀ c ∈ front, decide (c ≠ delimiter) = true := by
  intro c inside
  rw [decide_eq_true_iff]
  rintro rfl
  exact free inside

theorem upTo_of_not_mem {delimiter : Char} {text : List Char} (free : delimiter ∉ text) :
    UpTo delimiter text text :=
  ⟨free, [], (List.append_nil text).symm, fun _ isHead => by cases isHead⟩

/-- There is one such text. -/
theorem upTo_iff {delimiter : Char} {text front : List Char} :
    UpTo delimiter text front ↔ front = text.takeWhile (· ≠ delimiter) := by
  constructor
  · rintro ⟨free, rest, rfl, starts⟩
    rw [List.takeWhile_append_of_pos (forall_decide_ne_of_not_mem free)]
    cases rest with
    | nil => simp
    | cons c rest =>
        obtain rfl := starts c rfl
        simp
  · rintro rfl
    refine ⟨fun inside => ?_, text.dropWhile (· ≠ delimiter),
      List.takeWhile_append_dropWhile.symm, fun c isHead => ?_⟩
    · have isOther := List.all_eq_true.mp List.all_takeWhile delimiter inside
      simp at isOther
    · have stops := List.head?_dropWhile_not (fun c => decide (c ≠ delimiter)) text
      rw [Option.mem_def.mp isHead] at stops
      simpa using stops

end Tabula.Text
