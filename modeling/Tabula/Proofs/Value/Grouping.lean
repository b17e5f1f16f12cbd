import Tabula.Proofs.Value.Overlay

/-!
# Overlays in groups

Values of one shape differ in their scalars, in the items of their arrays and in the fields that
only one of them has. Laid over each other they keep that shape, and it makes no difference which
two of them come first, as long as their order is kept.
-/

namespace Tabula

namespace Value

/-- Two values have one shape: objects whose shared fields have one shape, two arrays, or two
scalars. -/
inductive Compatible : Value → Value → Prop where
  | objects {first second : Fields}
      (shared : ∀ name left right, Entries.get? first name = some left →
        Entries.get? second name = some right → Compatible left right) :
      Compatible (.obj first) (.obj second)
  | arrays (first second : List Value) : Compatible (.arr first) (.arr second)
  | scalars {first second : Value} (isScalar : first.isContainer = false)
      (otherIsScalar : second.isContainer = false) : Compatible first second

variable {first second third : Value} {left right : Fields} {name : String}

theorem Compatible.symm (fits : first.Compatible second) : second.Compatible first := by
  induction fits with
  | objects shared ih =>
      exact .objects fun name left right found otherFound => ih name right left otherFound found
  | arrays first second => exact .arrays second first
  | scalars isScalar otherIsScalar => exact .scalars otherIsScalar isScalar

theorem Compatible.of_fields
    (shared : ∀ field ∈ left, ∀ value, Entries.get? right field.1 = some value →
      field.2.Compatible value) : (obj left).Compatible (obj right) :=
  .objects fun name value other found otherFound =>
    shared (name, value) (Entries.mem_of_get?_eq_some found) other otherFound

theorem Compatible.of_get? (fits : (obj left).Compatible (obj right))
    (found : Entries.get? left name = some first)
    (otherFound : Entries.get? right name = some second) : first.Compatible second := by
  cases fits with
  | objects shared => exact shared name first second found otherFound
  | scalars isScalar _ => cases isScalar

/-- What fits two values fits the one laid over the other. -/
theorem Compatible.overlay (secondFormed : second.WellFormed) (fits : first.Compatible third)
    (secondFits : second.Compatible third) : (first.overlay second).Compatible third := by
  induction fits generalizing second with
  | @objects left right shared ih =>
      cases secondFits with
      | @objects upper _ upperShared =>
          obtain ⟨distinct, _⟩ := wellFormed_obj_iff.mp secondFormed
          refine .objects fun name value other found otherFound => ?_
          rw [Fields.get?_overlay distinct] at found
          cases above : Entries.get? upper name with
          | none =>
              rw [above] at found
              exact shared name value other found otherFound
          | some top =>
              have topFits := upperShared name top other above otherFound
              rw [above] at found
              cases below : Entries.get? left name with
              | none =>
                  rw [below] at found
                  cases found
                  exact topFits
              | some lower =>
                  rw [below] at found
                  cases found
                  exact ih name lower other below otherFound
                    (wellFormed_of_get?_eq_some secondFormed above) topFits
      | scalars _ isScalar => cases isScalar
  | arrays items others =>
      cases secondFits with
      | arrays upper _ => exact .arrays (items ++ upper) others
      | scalars _ isScalar => cases isScalar
  | scalars isScalar otherIsScalar =>
      cases secondFits with
      | objects _ => cases otherIsScalar
      | arrays _ _ => cases otherIsScalar
      | scalars secondIsScalar _ =>
          rw [overlay_of_isContainer_eq_false _ secondIsScalar]
          exact .scalars secondIsScalar otherIsScalar

/-- Of three values of one shape, the upper two or the lower two may be laid over each other
first. -/
theorem overlay_assoc (formed : first.WellFormed) (secondFormed : second.WellFormed)
    (thirdFormed : third.WellFormed) (lower : first.Compatible second)
    (outer : first.Compatible third) (upper : second.Compatible third) :
    (first.overlay second).overlay third = first.overlay (second.overlay third) := by
  induction lower generalizing third with
  | @objects base middle lowerShared ih =>
      cases upper with
      | @objects _ top upperShared =>
          obtain ⟨middleDistinct, _⟩ := wellFormed_obj_iff.mp secondFormed
          obtain ⟨topDistinct, _⟩ := wellFormed_obj_iff.mp thirdFormed
          have lowerFormed := wellFormed_overlay _ formed _ secondFormed
          have upperFormed := wellFormed_overlay _ secondFormed _ thirdFormed
          have allFormed := wellFormed_overlay _ lowerFormed _ thirdFormed
          obtain ⟨upperDistinct, _⟩ := wellFormed_obj_iff.mp upperFormed
          apply congrArg obj
          apply Entries.eq_of_keys_eq (wellFormed_obj_iff.mp allFormed).1
          · rw [Fields.keys_overlay topDistinct, Fields.keys_overlay middleDistinct,
              Fields.keys_overlay upperDistinct, Fields.keys_overlay topDistinct,
              List.filter_append, List.append_assoc, List.filter_filter]
            congr 2
            apply List.filter_congr
            intro name _
            by_cases inBase : name ∈ Entries.keys base <;> simp [inBase]
          · intro name _
            rw [Fields.get?_overlay topDistinct, Fields.get?_overlay middleDistinct,
              Fields.get?_overlay upperDistinct, Fields.get?_overlay topDistinct]
            cases inTop : Entries.get? top name with
            | none => rfl
            | some above =>
                cases inMiddle : Entries.get? middle name with
                | none => rfl
                | some between =>
                    cases inBase : Entries.get? base name with
                    | none => rfl
                    | some below =>
                        exact congrArg some (ih name below between inBase inMiddle
                          (wellFormed_of_get?_eq_some formed inBase)
                          (wellFormed_of_get?_eq_some secondFormed inMiddle)
                          (wellFormed_of_get?_eq_some thirdFormed inTop)
                          (outer.of_get? inBase inTop)
                          (upperShared name between above inMiddle inTop))
      | scalars isScalar _ => cases isScalar
  | arrays items middle =>
      cases upper with
      | arrays _ top => exact congrArg arr (List.append_assoc items middle top)
      | scalars isScalar _ => cases isScalar
  | scalars _ secondIsScalar =>
      cases upper with
      | objects _ => cases secondIsScalar
      | arrays _ _ => cases secondIsScalar
      | scalars _ thirdIsScalar =>
          rw [overlay_of_isContainer_eq_false _ thirdIsScalar,
            overlay_of_isContainer_eq_false _ thirdIsScalar,
            overlay_of_isContainer_eq_false _ thirdIsScalar]

end Value

namespace Fields

variable {fields lower upper : Fields} {behind members : List Fields}

theorem overlay_nil_left (distinct : Entries.Distinct fields) : overlay [] fields = fields := by
  have sameKeys : Entries.keys fields = Entries.keys (overlay [] fields) := by
    rw [keys_overlay distinct]
    simp [Entries.keys]
  apply Eq.symm
  apply Entries.eq_of_keys_eq distinct sameKeys
  intro name _
  rw [get?_overlay distinct]
  cases Entries.get? fields name <;> rfl

/-- Objects that all have one shape, each with each. -/
structure Fit (members : List Fields) : Prop where
  formed : ∀ fields ∈ members, (Value.obj fields).WellFormed
  compatible : members.Pairwise fun first second => (Value.obj first).Compatible (.obj second)

theorem Fit.sublist (fit : Fit members) {part : List Fields} (among : part.Sublist members) :
    Fit part :=
  ⟨fun fields inside => fit.formed fields (among.subset inside), fit.compatible.sublist among⟩

/-- An object without fields fits all others. -/
theorem Fit.cons_nil (fit : Fit members) : Fit ([] :: members) where
  formed := by
    refine List.forall_mem_cons.mpr ⟨?_, fit.formed⟩
    simp [Value.WellFormed, Value.WellFormedFields, Entries.Distinct, Entries.keys]
  compatible := by
    refine List.pairwise_cons.mpr ⟨fun fields _ => .objects ?_, fit.compatible⟩
    intro name value other found
    cases found

/-- Two neighbours may give way to the one laid over the other. -/
theorem Fit.overlay (before : List Fields) (fit : Fit (before ++ lower :: upper :: behind)) :
    Fit (before ++ overlay lower upper :: behind) := by
  obtain ⟨formed, compatible⟩ := fit
  obtain ⟨beforeFormed, restFormed⟩ := List.forall_mem_append.mp formed
  obtain ⟨lowerFormed, upperAndBehindFormed⟩ := List.forall_mem_cons.mp restFormed
  obtain ⟨upperFormed, behindFormed⟩ := List.forall_mem_cons.mp upperAndBehindFormed
  obtain ⟨beforeFit, restFit, acrossFit⟩ := List.pairwise_append.mp compatible
  obtain ⟨lowerFits, upperAndBehindFit⟩ := List.pairwise_cons.mp restFit
  obtain ⟨upperFits, behindFit⟩ := List.pairwise_cons.mp upperAndBehindFit
  have fitsBoth {other : Value} (lowerFits : (Value.obj lower).Compatible other)
      (upperFits : (Value.obj upper).Compatible other) :
      (Value.obj (Fields.overlay lower upper)).Compatible other :=
    lowerFits.overlay upperFormed upperFits
  constructor
  · have laidFormed := Value.wellFormed_overlay (.obj lower) lowerFormed (.obj upper) upperFormed
    exact List.forall_mem_append.mpr
      ⟨beforeFormed, List.forall_mem_cons.mpr ⟨laidFormed, behindFormed⟩⟩
  · refine List.pairwise_append.mpr ⟨beforeFit, List.pairwise_cons.mpr ⟨?_, behindFit⟩, ?_⟩
    · intro other otherMem
      exact fitsBoth (lowerFits other (List.mem_cons_of_mem upper otherMem))
        (upperFits other otherMem)
    · intro first firstMem other otherMem
      have firstFits := acrossFit first firstMem
      rcases List.mem_cons.mp otherMem with rfl | otherBehind
      · exact (fitsBoth (firstFits lower List.mem_cons_self).symm
          (firstFits upper (List.mem_cons_of_mem lower List.mem_cons_self)).symm).symm
      · exact firstFits other (List.mem_cons_of_mem lower (List.mem_cons_of_mem upper otherBehind))

theorem Fit.overlay_assoc {first second third : Fields}
    (fit : Fit (first :: second :: third :: behind)) :
    Fields.overlay (Fields.overlay first second) third =
      Fields.overlay first (Fields.overlay second third) := by
  obtain ⟨formed, compatible⟩ := fit
  simp only [List.forall_mem_cons, List.pairwise_cons] at formed compatible
  obtain ⟨firstFormed, secondFormed, thirdFormed, _⟩ := formed
  obtain ⟨⟨lower, outer, _⟩, ⟨upper, _⟩, _⟩ := compatible
  exact Value.obj.inj
    (Value.overlay_assoc firstFormed secondFormed thirdFormed lower outer upper)

end Fields

/-- An order in which objects are laid over each other, two at a time. -/
inductive Grouping where
  | single (fields : Fields)
  | join (lower upper : Grouping)

namespace Grouping

/-- The objects of a grouping, from the lowest to the uppermost. -/
def members : Grouping → List Fields
  | single fields => [fields]
  | join lower upper => lower.members ++ upper.members

/-- The object that comes out of a grouping. -/
def merged : Grouping → Fields
  | single fields => fields
  | join lower upper => Fields.overlay lower.merged upper.merged

/-- A whole group may give way to the object that comes out of it. -/
theorem fit_merged (grouping : Grouping) (before behind : List Fields)
    (fit : Fields.Fit (before ++ (grouping.members ++ behind))) :
    Fields.Fit (before ++ grouping.merged :: behind) := by
  induction grouping generalizing before behind with
  | single fields => exact fit
  | join lower upper ihLower ihUpper =>
      rw [members, List.append_assoc] at fit
      have lowerDone := ihLower before (upper.members ++ behind) fit
      rw [List.append_cons] at lowerDone
      have bothDone := ihUpper (before ++ [lower.merged]) behind lowerDone
      rw [← List.append_cons] at bothDone
      exact bothDone.overlay before

/-- What comes out of a group, laid over a base, is what its members make of the base one after
another. -/
theorem overlay_merged (grouping : Grouping) {base : Fields}
    (fit : Fields.Fit (base :: grouping.members)) :
    Fields.overlay base grouping.merged = grouping.members.foldl Fields.overlay base := by
  induction grouping generalizing base with
  | single fields => rfl
  | join lower upper ihLower ihUpper =>
      have lowerDone : Fields.Fit (base :: lower.merged :: upper.members) :=
        lower.fit_merged [base] upper.members fit
      have bothDone : Fields.Fit [base, lower.merged, upper.merged] :=
        upper.fit_merged [base, lower.merged] [] (by simpa using lowerDone)
      have lowerFit : Fields.Fit (base :: lower.members) :=
        fit.sublist ((List.sublist_append_left _ _).cons_cons base)
      rw [members, List.foldl_append, ← ihLower lowerFit,
        ← ihUpper (lowerDone.overlay []), bothDone.overlay_assoc]
      rfl

/-- However objects are grouped, what comes out is what they make of no fields at all one after
another. -/
theorem merged_eq_foldl (grouping : Grouping) (fit : Fields.Fit grouping.members) :
    grouping.merged = grouping.members.foldl Fields.overlay [] := by
  have mergedFit : Fields.Fit [grouping.merged] :=
    grouping.fit_merged [] [] (by simpa using fit)
  obtain ⟨distinct, _⟩ :=
    Value.wellFormed_obj_iff.mp (mergedFit.formed _ (List.mem_singleton_self _))
  rw [← grouping.overlay_merged fit.cons_nil, Fields.overlay_nil_left distinct]

theorem merged_eq_of_members_eq {first second : Grouping} (same : first.members = second.members)
    (fit : Fields.Fit first.members) : first.merged = second.merged := by
  rw [merged_eq_foldl first fit, merged_eq_foldl second (same ▸ fit), same]

end Grouping

end Tabula
