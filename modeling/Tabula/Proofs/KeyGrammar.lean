import Tabula.Key.Column
import Tabula.Proofs.OptionBlocks

/-!
# The grammar of column keys

What a key means is told here by the texts around its delimiters. Every key is described by
exactly one meaning, or by one fault with its text, and that is what is read from it. In the other
direction a link can be written as a key from which it is read again.
-/

namespace Tabula

namespace Options

/-- An option is written as its name, an equals sign and its value. -/
def piece (option : String × String) : List Char :=
  option.1.toList ++ '=' :: option.2.toList

/-- A block is written with one piece for every option. -/
def written (delimiter : Char) (options : Options) : List Char :=
  [delimiter].intercalate (options.map piece)

variable {delimiter c : Char} {option : String × String} {options : Options}

theorem ofPiece_piece (free : '=' ∉ option.1.toList ∧ '=' ∉ option.2.toList) :
    ofPiece (piece option) = option := by
  have cut : Text.cut? '=' (piece option) = some (option.1.toList, option.2.toList) :=
    Text.cut?_eq_some_iff.mpr ⟨rfl, free.1⟩
  have whole := Text.upTo_iff.mp (Text.upTo_of_not_mem free.2)
  rw [ofPiece, cut]
  simp only [← whole, String.ofList_toList]

theorem not_mem_piece (free : c ∉ option.1.toList ∧ c ∉ option.2.toList) (differ : c ≠ '=') :
    c ∉ piece option := by
  rw [piece, List.mem_append, List.mem_cons, not_or, not_or]
  exact ⟨free.1, differ, free.2⟩

/-- Options are read again from the block in which they are written. -/
theorem ofBlock_written (nonempty : options ≠ [])
    (free : ∀ option ∈ options, ∀ c ∈ [delimiter, '='],
      c ∉ option.1.toList ∧ c ∉ option.2.toList) (differ : delimiter ≠ '=') :
    ofBlock delimiter (written delimiter options) = options := by
  have pieces : (written delimiter options).splitOn delimiter = options.map piece := by
    apply List.splitOn_intercalate
    · rw [List.forall_mem_map]
      exact fun option optionMem => not_mem_piece (free option optionMem delimiter (by simp)) differ
    · simpa using nonempty
  rw [ofBlock, pieces, List.map_map]
  conv_rhs => rw [← List.map_id options]
  apply List.map_congr_left
  exact fun option optionMem => ofPiece_piece (free option optionMem '=' (by simp))

theorem not_mem_written
    (free : ∀ option ∈ options, c ∉ option.1.toList ∧ c ∉ option.2.toList)
    (isNoDelimiter : c ≠ delimiter) (differ : c ≠ '=') : c ∉ written delimiter options := by
  rw [written, Text.mem_intercalate_iff isNoDelimiter]
  rintro ⟨text, textMem, inside⟩
  obtain ⟨option, optionMem, rfl⟩ := List.mem_map.mp textMem
  exact not_mem_piece (free option optionMem) differ inside

end Options

namespace Link

/-- A key has a head and options: the head ends before the first option delimiter, and the options
are read from the block behind it. A key without option delimiter is all head. -/
inductive Headed (delimiter : Char) : (key head : List Char) → Options → Prop where
  | bare {key : List Char} (free : delimiter ∉ key) : Headed delimiter key key []
  | block {head : List Char} (free : delimiter ∉ head) (block : List Char) :
      Headed delimiter (head ++ delimiter :: block) head (Options.ofBlock delimiter block)

theorem exists_headed (delimiter : Char) (key : List Char) :
    ∃ head options, Headed delimiter key head options := by
  by_cases inside : delimiter ∈ key
  · obtain ⟨head, block, rfl, free⟩ := List.eq_append_cons_of_mem inside
    exact ⟨head, _, .block free block⟩
  · exact ⟨key, [], .bare inside⟩

variable {d : Delimiters} {key head : List Char} {options : Options}

theorem Headed.subset {delimiter : Char} (headed : Headed delimiter key head options) :
    head ⊆ key := by
  cases headed with
  | bare _ => exact List.Subset.refl _
  | block _ _ => exact List.subset_append_left _ _

/-- Where there are options, there is a block that they are read from. -/
theorem Headed.exists_block {delimiter : Char} {name : String}
    (headed : Headed delimiter key head options) (named : name ∈ Entries.keys options) :
    ∃ block, key = head ++ delimiter :: block ∧ delimiter ∉ head ∧
      options = Options.ofBlock delimiter block := by
  cases headed with
  | bare _ => exact absurd named List.not_mem_nil
  | block free block => exact ⟨block, rfl, free, rfl⟩

/-- Without a link delimiter in its head a key has no target. -/
theorem ofKey_of_not_mem {front rest : List Char} (headed : Headed d.linkOption key head options)
    (free : d.link ∉ head) (first : key = front ++ d.link :: rest) (before : d.link ∉ front) :
    ofKey d key =
      .error (.noTarget (String.ofList (rest.takeWhile (· ≠ d.linkOption)))) := by
  have behind : (key.dropWhile (· ≠ d.link)).tail = rest := by
    rw [first, List.dropWhile_append_of_pos (Text.forall_decide_ne_of_not_mem before)]
    simp
  have uncut := Text.cut?_eq_none_iff.mpr free
  cases headed with
  | bare optionFree =>
      rw [ofKey, Text.cut?_eq_none_iff.mpr optionFree]
      simp only [uncut, behind]
  | block optionFree block =>
      rw [ofKey, Text.cut?_eq_some_iff.mpr ⟨rfl, optionFree⟩]
      simp only [uncut, behind]

/-- Otherwise field and target stand around the first link delimiter of the head. -/
theorem ofKey_of_target {field target : List Char}
    (headed : Headed d.linkOption key (field ++ d.link :: target) options)
    (free : d.link ∉ field) :
    ofKey d key =
      if d.link ∈ target then .error .severalTargets
      else if matchOption ∉ Entries.keys options then .error .noMatchOption
      else .ok { field := String.ofList field, target := String.ofList target, options } := by
  have cut : Text.cut? d.link (field ++ d.link :: target) = some (field, target) :=
    Text.cut?_eq_some_iff.mpr ⟨rfl, free⟩
  simp only [← Options.last?_eq_none_iff, ← Option.isNone_iff_eq_none]
  generalize headEq : field ++ d.link :: target = head at headed cut
  cases headed with
  | bare optionFree =>
      rw [ofKey, Text.cut?_eq_none_iff.mpr optionFree]
      simp only [cut]
  | block optionFree block =>
      rw [ofKey, Text.cut?_eq_some_iff.mpr ⟨rfl, optionFree⟩]
      simp only [cut]

end Link

namespace Column

/-- What a key means, or its fault, by the delimiters in it. -/
inductive Spells (d : Delimiters) (key : String) : Except KeyFault Column → Prop where
  /-- The segments are joined by the path delimiter. -/
  | path {segments : List String} (several : 2 ≤ segments.length)
      (divides : Text.Divides d.path (segments.map String.toList) key.toList) :
      Spells d key (.ok (.path segments))
  /-- There is neither a path nor a link delimiter. -/
  | plain (noPath : d.path ∉ key.toList) (noLink : d.link ∉ key.toList) :
      Spells d key (.ok .plain)
  /-- Field and target stand in front of a block of options, one of which is the match option. -/
  | link {link : Link} {block : List Char} (noPath : d.path ∉ key.toList)
      (spelled : key.toList =
        link.field.toList ++ d.link :: link.target.toList ++ d.linkOption :: block)
      (fieldFree : d.link ∉ link.field.toList ∧ d.linkOption ∉ link.field.toList)
      (targetFree : d.link ∉ link.target.toList ∧ d.linkOption ∉ link.target.toList)
      (isBlock : link.options = Options.ofBlock d.linkOption block)
      (matched : Link.matchOption ∈ Entries.keys link.options) :
      Spells d key (.ok (.link link))
  /-- The head holds two link delimiters or more. -/
  | severalTargets {head : List Char} {options : Options} (noPath : d.path ∉ key.toList)
      (headed : Link.Headed d.linkOption key.toList head options)
      (several : 2 ≤ head.count d.link) : Spells d key (.error .severalTargets)
  /-- The head holds one link delimiter, but there is no match option. -/
  | noMatchOption {head : List Char} {options : Options} (noPath : d.path ∉ key.toList)
      (headed : Link.Headed d.linkOption key.toList head options)
      (single : head.count d.link = 1)
      (unmatched : Link.matchOption ∉ Entries.keys options) : Spells d key (.error .noMatchOption)
  /-- The head holds no link delimiter. The text is what stands between the first one and the next
  option delimiter. -/
  | noTarget {head front rest : List Char} {options : Options} {text : String}
      (noPath : d.path ∉ key.toList)
      (headed : Link.Headed d.linkOption key.toList head options)
      (free : d.link ∉ head)
      (first : key.toList = front ++ d.link :: rest) (before : d.link ∉ front)
      (isText : Text.UpTo d.linkOption rest text.toList) :
      Spells d key (.error (.noTarget text))

variable {d : Delimiters} {key : String}

theorem divides_segments_iff {segments : List String} :
    Text.Divides d.path (segments.map String.toList) key.toList ↔
      (key.toList.splitOn d.path).map String.ofList = segments := by
  rw [Text.divides_iff]
  constructor
  · intro divided
    rw [← divided, List.map_map]
    simp
  · rintro rfl
    rw [List.map_map]
    simp

theorem ofKey_of_mem (noPath : d.path ∉ key.toList) (delimited : d.link ∈ key.toList) :
    ofKey d key = (Link.ofKey d key.toList).map .link := by
  simp [ofKey, noPath, delimited]

/-- A key with a link delimiter in its head spells a link, or it has one of two faults. -/
theorem exists_spells_of_target {field target : List Char} {options : Options}
    (noPath : d.path ∉ key.toList)
    (headed : Link.Headed d.linkOption key.toList (field ++ d.link :: target) options)
    (fieldFree : d.link ∉ field) : ∃ meaning, Spells d key meaning := by
  have count := Text.count_append_cons fieldFree target
  by_cases inTarget : d.link ∈ target
  · have occurs := List.count_pos_iff.mpr inTarget
    exact ⟨_, .severalTargets noPath headed (by omega)⟩
  · rw [List.count_eq_zero_of_not_mem inTarget] at count
    by_cases matched : Link.matchOption ∈ Entries.keys options
    · obtain ⟨block, keyEq, headFree, rfl⟩ := headed.exists_block matched
      rw [List.mem_append, List.mem_cons, not_or, not_or] at headFree
      refine ⟨.ok (.link ⟨.ofList field, .ofList target, _⟩),
        .link noPath ?_ ?_ ?_ rfl matched⟩
      · rw [String.toList_ofList, String.toList_ofList]
        exact keyEq
      · rw [String.toList_ofList]
        exact ⟨fieldFree, headFree.1⟩
      · rw [String.toList_ofList]
        exact ⟨inTarget, headFree.2.2⟩
    · exact ⟨_, .noMatchOption noPath headed count matched⟩

/-- Every key is described. -/
theorem exists_spells (d : Delimiters) (key : String) : ∃ meaning, Spells d key meaning := by
  by_cases path : d.path ∈ key.toList
  · refine ⟨_, .path ?_ (divides_segments_iff.mpr rfl)⟩
    have occurs := List.count_pos_iff.mpr path
    rw [List.length_map, Text.length_splitOn]
    omega
  · by_cases delimited : d.link ∈ key.toList
    · obtain ⟨head, options, headed⟩ := Link.exists_headed d.linkOption key.toList
      by_cases inHead : d.link ∈ head
      · obtain ⟨field, target, rfl, fieldFree⟩ := List.eq_append_cons_of_mem inHead
        exact exists_spells_of_target path headed fieldFree
      · obtain ⟨front, rest, first, before⟩ := List.eq_append_cons_of_mem delimited
        have upTo := Text.upTo_iff.mpr (Eq.refl (rest.takeWhile (· ≠ d.linkOption)))
        rw [← String.toList_ofList (l := rest.takeWhile _)] at upTo
        exact ⟨_, .noTarget path headed inHead first before upTo⟩
    · exact ⟨_, .plain path delimited⟩

/-- What describes a key is read from it. -/
theorem Spells.ofKey_eq {meaning : Except KeyFault Column} (spells : Spells d key meaning)
    (differ : d.link ≠ d.linkOption) : ofKey d key = meaning := by
  cases spells with
  | path several divides =>
      have count := congrArg List.length (Text.divides_iff.mp divides)
      rw [List.length_map, Text.length_splitOn] at count
      rw [ofKey_eq_path_iff, ← divides_segments_iff]
      exact ⟨List.count_pos_iff.mp (by omega), divides⟩
  | plain noPath noLink => exact ofKey_eq_plain_iff.mpr ⟨noPath, noLink⟩
  | @link link block noPath spelled fieldFree targetFree isBlock matched =>
      have headFree : d.linkOption ∉ link.field.toList ++ d.link :: link.target.toList := by
        rw [List.mem_append, List.mem_cons, not_or, not_or]
        exact ⟨fieldFree.2, differ.symm, targetFree.2⟩
      have headed := Link.Headed.block headFree block
      rw [← spelled, ← isBlock] at headed
      have inHead : d.link ∈ link.field.toList ++ d.link :: link.target.toList := by simp
      rw [ofKey_of_mem noPath (headed.subset inHead), Link.ofKey_of_target headed fieldFree.1,
        if_neg targetFree.1, if_neg (not_not_intro matched), String.ofList_toList,
        String.ofList_toList]
      rfl
  | @severalTargets head options noPath headed several =>
      have inHead : d.link ∈ head := List.count_pos_iff.mp (by omega)
      obtain ⟨field, target, rfl, fieldFree⟩ := List.eq_append_cons_of_mem inHead
      rw [Text.count_append_cons fieldFree] at several
      have inTarget : d.link ∈ target := List.count_pos_iff.mp (by omega)
      rw [ofKey_of_mem noPath (headed.subset inHead), Link.ofKey_of_target headed fieldFree,
        if_pos inTarget]
      rfl
  | @noMatchOption head options noPath headed single unmatched =>
      have inHead : d.link ∈ head := List.count_pos_iff.mp (by omega)
      obtain ⟨field, target, rfl, fieldFree⟩ := List.eq_append_cons_of_mem inHead
      rw [Text.count_append_cons fieldFree] at single
      have notInTarget : d.link ∉ target := List.count_eq_zero.mp (by omega)
      rw [ofKey_of_mem noPath (headed.subset inHead), Link.ofKey_of_target headed fieldFree,
        if_neg notInTarget, if_pos unmatched]
      rfl
  | @noTarget head front rest options text noPath headed free first before isText =>
      have inKey : d.link ∈ key.toList := by simp [first]
      rw [ofKey_of_mem noPath inKey, Link.ofKey_of_not_mem headed free first before,
        ← Text.upTo_iff.mp isText, String.ofList_toList]
      rfl

/-- A key has the one meaning or fault that describes it. -/
theorem ofKey_eq_iff {meaning : Except KeyFault Column} (differ : d.link ≠ d.linkOption) :
    ofKey d key = meaning ↔ Spells d key meaning := by
  constructor
  · rintro rfl
    obtain ⟨meaning, spells⟩ := exists_spells d key
    rwa [spells.ofKey_eq differ]
  · exact fun spells => spells.ofKey_eq differ

end Column

namespace Link

/-- A link is written as its field, its target and its options, with the delimiters between them. -/
def written (d : Delimiters) (link : Link) : String :=
  String.ofList (link.field.toList ++ d.link :: link.target.toList ++
    d.linkOption :: Options.written d.linkOption link.options)

/-- A link whose texts do not hold the delimiters that would divide them. Link delimiters may stand
in names and values of options. -/
structure Writable (d : Delimiters) (link : Link) : Prop where
  fieldFree : ∀ c ∈ [d.path, d.link, d.linkOption], c ∉ link.field.toList
  targetFree : ∀ c ∈ [d.path, d.link, d.linkOption], c ∉ link.target.toList
  optionsFree : ∀ option ∈ link.options, ∀ c ∈ [d.path, d.linkOption, '='],
    c ∉ option.1.toList ∧ c ∉ option.2.toList
  matched : matchOption ∈ Entries.keys link.options

/-- The key in which a link is written is described by the link. -/
theorem Writable.spells {d : Delimiters} {link : Link} (writable : Writable d link)
    (apart : [d.path, d.link, d.linkOption, '='].Nodup) :
    Column.Spells d (link.written d) (.ok (.link link)) := by
  obtain ⟨fieldFree, targetFree, optionsFree, matched⟩ := writable
  simp only [List.nodup_cons, List.mem_cons, List.not_mem_nil, or_false, not_or] at apart
  obtain ⟨⟨pathNotLink, pathNotOption, pathNotEquals⟩, _, optionNotEquals, _⟩ := apart
  simp only [List.forall_mem_cons] at fieldFree targetFree
  obtain ⟨fieldNoPath, fieldNoLink, fieldNoOption, _⟩ := fieldFree
  obtain ⟨targetNoPath, targetNoLink, targetNoOption, _⟩ := targetFree
  have nonempty : link.options ≠ [] := by
    intro noOptions
    rw [noOptions] at matched
    exact List.not_mem_nil matched
  have optionsRead :
      Options.ofBlock d.linkOption (Options.written d.linkOption link.options) = link.options := by
    apply Options.ofBlock_written nonempty ?_ optionNotEquals
    intro option optionMem c isDelimiter
    exact optionsFree option optionMem c (List.mem_cons_of_mem _ isDelimiter)
  have pathNotInOptions : d.path ∉ Options.written d.linkOption link.options := by
    apply Options.not_mem_written ?_ pathNotOption pathNotEquals
    exact fun option optionMem => optionsFree option optionMem d.path List.mem_cons_self
  refine .link ?_ String.toList_ofList ⟨fieldNoLink, fieldNoOption⟩ ⟨targetNoLink, targetNoOption⟩
    optionsRead.symm matched
  rw [written, String.toList_ofList]
  simp [fieldNoPath, targetNoPath, pathNotLink, pathNotOption, pathNotInOptions]

end Link

namespace Column

/-- A key is read as the one meaning or fault that describes it, as a path if and only if it holds
a path delimiter, and a link is read from the key in which it is written. -/
theorem ofKey_exact {d : Delimiters} (apart : [d.path, d.link, d.linkOption, '='].Nodup) :
    (∀ key meaning, ofKey d key = meaning ↔ Spells d key meaning) ∧
      (∀ key, (∃ segments, ofKey d key = .ok (.path segments)) ↔ d.path ∈ key.toList) ∧
      ∀ link : Link, link.Writable d → ofKey d (link.written d) = .ok (.link link) := by
  have differ : d.link ≠ d.linkOption := by
    intro same
    simp [same] at apart
  refine ⟨fun key meaning => ofKey_eq_iff differ, fun key => ?_, fun link writable => ?_⟩
  · simp [ofKey_eq_path_iff]
  · exact (ofKey_eq_iff differ).mpr (writable.spells apart)

/-- A link with a link delimiter in an option. -/
def namespaced : Link where
  field := "topic"
  target := "Topics"
  options := [("ref", "id"), ("ref_prefix", "urn:topic:")]

theorem ofKey_exact_namespaced :
    ['.', ':', '$', '='].Nodup ∧ namespaced.Writable {} ∧
      namespaced.written {} = "topic:Topics$ref=id$ref_prefix=urn:topic:" ∧
      ofKey {} "topic:Topics$ref=id$ref_prefix=urn:topic:" = .ok (.link namespaced) ∧
      Spells {} "topic$ref=id$ref_prefix=urn:topic:" (.error (.noTarget "topic:")) := by
  have apart : ['.', ':', '$', '='].Nodup := by decide
  have writable : namespaced.Writable {} :=
    { fieldFree := by simp [namespaced]
      targetFree := by simp [namespaced]
      optionsFree := by simp [namespaced]
      matched := by decide }
  have asWritten : namespaced.written {} = "topic:Topics$ref=id$ref_prefix=urn:topic:" := by decide
  obtain ⟨reads, _, readsWritten⟩ := ofKey_exact (d := {}) apart
  refine ⟨apart, writable, asWritten, ?_, ?_⟩
  · rw [← asWritten]
    exact readsWritten namespaced writable
  · exact (reads _ _).mp rfl

end Column

end Tabula
