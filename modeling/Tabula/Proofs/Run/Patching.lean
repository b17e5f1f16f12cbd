import Mathlib.Data.List.Basic
import Tabula.Patching
import Tabula.Traversal
import Tabula.Workbook

/-!
# Faults of the patches

Applying the patches fails with the first patch table that has several rows. The number
of rows is that of the stored table, and since no patch is the target of a patch, it
stays what it was before the first patch was applied.
-/

namespace Tabula

/-- The fault of a patch table with several rows. -/
def Table.patchFault? (settings : Settings) (table : Table) : Option Fault :=
  if TableName.kind settings table.name = .patch ∧ 1 < table.rows.length then
    some (.severalPatchRows table.name table.rows.length)
  else none

namespace TableName

/-- A patch with its marker taken away is a text that is followed by an option delimiter in the
target. -/
theorem isPatchTarget_eq_true_iff {d : Delimiters} {patch candidate : String} :
    isPatchTarget d patch candidate = true ↔
      ∃ text block, patch.toList = d.patch :: text ∧
        candidate.toList = text ++ d.tableOption :: block := by
  unfold isPatchTarget
  constructor
  · intro isTarget
    split at isTarget
    · cases isTarget
    · rename_i text marked
      split at isTarget
      · cases isTarget
      · rename_i rest continued
        obtain ⟨block, rfl⟩ := List.head?_eq_some_iff.mp (of_decide_eq_true isTarget)
        exact ⟨text, block, (List.isPrefixOf?_eq_some_iff_append_eq.mp marked).symm,
          (List.isPrefixOf?_eq_some_iff_append_eq.mp continued).symm⟩
  · rintro ⟨text, block, marked, continued⟩
    have afterMarker : [d.patch].isPrefixOf? patch.toList = some text :=
      List.isPrefixOf?_eq_some_iff_append_eq.mpr marked.symm
    have afterText := List.isPrefixOf?_eq_some_iff_append_eq.mpr continued.symm
    simp [afterMarker, afterText]

theorem head?_eq_some_of_kind_eq_patch {settings : Settings} {name : String}
    (isPatch : kind settings name = .patch) :
    name.toList.head? = some settings.delimiters.patch := by
  unfold kind at isPatch
  split at isPatch
  · cases isPatch
  · split at isPatch
    · assumption
    · cases isPatch

/-- A patch with one marker has no patch for its target, unless the marker starts the
option blocks of table names. -/
theorem kind_ne_patch_of_isPatchTarget {settings : Settings} {patch target : String}
    (markerDiffers : settings.delimiters.patch ≠ settings.delimiters.tableOption)
    (oneMarker :
      ¬ [settings.delimiters.patch, settings.delimiters.patch] <+: patch.toList)
    (isTarget : isPatchTarget settings.delimiters patch target = true) :
    kind settings target ≠ .patch := by
  intro isPatch
  have marked := head?_eq_some_of_kind_eq_patch isPatch
  obtain ⟨text, block, patchEq, targetEq⟩ := isPatchTarget_eq_true_iff.mp isTarget
  rw [targetEq] at marked
  cases text with
  | nil =>
      rw [List.nil_append, List.head?_cons, Option.some.injEq] at marked
      exact markerDiffers marked.symm
  | cons first text =>
      rw [List.cons_append, List.head?_cons, Option.some.injEq] at marked
      subst marked
      exact oneMarker ⟨text, patchEq.symm⟩

end TableName

namespace Store

variable {settings : Settings} {names : List String} {store : Store} {name : String}

theorem applyPatch?_of_kind_ne (noPatch : TableName.kind settings name ≠ .patch) :
    store.applyPatch? settings names name = .ok none := by
  rw [applyPatch?, if_pos noPatch]

theorem applyPatch?_of_several {rows : List Value}
    (isPatch : TableName.kind settings name = .patch) (stored : store.rows? name = some rows)
    (several : 1 < rows.length) :
    store.applyPatch? settings names name = .error (.severalPatchRows name rows.length) := by
  rw [applyPatch?, if_neg (not_not_intro isPatch), stored]
  match rows, several with
  | _ :: _ :: _, _ => rfl

/-- A patch with at most one row either has nothing to do, or changes the document of its
target. -/
theorem applyPatch?_of_atMostOne {rows : List Value} (stored : store.rows? name = some rows)
    (atMostOne : rows.length ≤ 1) :
    store.applyPatch? settings names name = .ok none ∨
      ∃ target ∈ names, TableName.isPatchTarget settings.delimiters name target = true ∧
        ∃ document,
          store.applyPatch? settings names name =
            .ok (some (store.putDocument target document)) := by
  by_cases isPatch : TableName.kind settings name = .patch
  · rw [applyPatch?, if_neg (not_not_intro isPatch), stored]
    match rows, atMostOne with
    | [], _ => exact Or.inl rfl
    | [row], _ =>
        dsimp only
        cases found : names.find? (TableName.isPatchTarget settings.delimiters name) with
        | none => exact Or.inl rfl
        | some target =>
            dsimp only
            cases store.document? target with
            | none => exact Or.inl rfl
            | some document =>
                dsimp only
                split
                · rename_i patched _
                  exact Or.inr ⟨target, List.mem_of_find?_eq_some found,
                    List.find?_some found, patched, rfl⟩
                · exact Or.inl rfl
  · exact Or.inl (applyPatch?_of_kind_ne isPatch)

/-- Patches that do not target patches fail with the first of them that has several rows. -/
theorem exists_applyPatchesFrom_eq {pending : List Table}
    (stored : ∀ table ∈ pending, TableName.kind settings table.name = .patch →
      ∃ rows, store.rows? table.name = some rows ∧ rows.length = table.rows.length)
    (noPatchTarget : ∀ table ∈ pending, ∀ target,
      TableName.isPatchTarget settings.delimiters table.name target = true →
        TableName.kind settings target ≠ .patch)
    (applied : Nat) :
    ∃ patches,
      (store.applyPatchesFrom settings names applied (pending.map Table.name)).2 =
        okUnless (pending.findSome? (Table.patchFault? settings)) patches := by
  induction pending generalizing store applied with
  | nil => exact ⟨applied, rfl⟩
  | cons table rest ih =>
      have restStored : ∀ other ∈ rest, TableName.kind settings other.name = .patch →
          ∃ rows, store.rows? other.name = some rows ∧ rows.length = other.rows.length :=
        fun other member => stored other (List.mem_cons_of_mem table member)
      have restTargets : ∀ other ∈ rest, ∀ target,
          TableName.isPatchTarget settings.delimiters other.name target = true →
            TableName.kind settings target ≠ .patch :=
        fun other member => noPatchTarget other (List.mem_cons_of_mem table member)
      rw [List.map_cons, applyPatchesFrom, List.findSome?_cons, Table.patchFault?]
      by_cases isPatch : TableName.kind settings table.name = .patch
      · obtain ⟨rows, hasRows, sameLength⟩ := stored table List.mem_cons_self isPatch
        by_cases several : 1 < table.rows.length
        · rw [if_pos ⟨isPatch, several⟩,
            applyPatch?_of_several isPatch hasRows (sameLength ▸ several), sameLength]
          exact ⟨applied, rfl⟩
        · rw [if_neg (fun both => several both.2)]
          have atMostOne : rows.length ≤ 1 := by omega
          rcases applyPatch?_of_atMostOne hasRows atMostOne with
            nothing | ⟨target, _, isTarget, document, patched⟩
          · rw [nothing]
            exact ih restStored restTargets applied
          · rw [patched]
            have targetKind := noPatchTarget table List.mem_cons_self target isTarget
            have stillStored : ∀ other ∈ rest, TableName.kind settings other.name = .patch →
                ∃ rows, (store.putDocument target document).rows? other.name = some rows ∧
                  rows.length = other.rows.length := by
              intro other member otherPatch
              have differ : target ≠ other.name := fun equal => targetKind (equal ▸ otherPatch)
              rw [rows?_putDocument_of_ne store document differ]
              exact restStored other member otherPatch
            exact ih stillStored restTargets (applied + 1)
      · rw [if_neg (fun both => isPatch both.1), applyPatch?_of_kind_ne isPatch]
        exact ih restStored restTargets applied

/-- Patching goes on in the store that it has come to. -/
theorem applyPatchesFrom_append {reached : Store} {front : List String} {applied count : Nat}
    (done : store.applyPatchesFrom settings names applied front = (reached, .ok count))
    (behind : List String) :
    store.applyPatchesFrom settings names applied (front ++ behind) =
      reached.applyPatchesFrom settings names count behind := by
  induction front generalizing store applied with
  | nil =>
      cases done
      rfl
  | cons name rest ih =>
      rw [applyPatchesFrom] at done
      rw [List.cons_append, applyPatchesFrom]
      cases outcome : store.applyPatch? settings names name with
      | error fault =>
          rw [outcome] at done
          cases done
      | ok next? =>
          rw [outcome] at done
          cases next? with
          | none => exact ih done
          | some next => exact ih done

theorem applyPatchesFrom_of_no_patch {pending : List String}
    (noPatch : ∀ name ∈ pending, TableName.kind settings name ≠ .patch) (applied : Nat) :
    store.applyPatchesFrom settings names applied pending = (store, .ok applied) := by
  induction pending with
  | nil => rfl
  | cons name rest ih =>
      rw [applyPatchesFrom, applyPatch?_of_kind_ne (noPatch name List.mem_cons_self)]
      exact ih fun other member => noPatch other (List.mem_cons_of_mem name member)

/-- Without patch tables nothing is patched. -/
theorem applyPatches_of_no_patch
    (noPatch : ∀ name ∈ names, TableName.kind settings name ≠ .patch) :
    store.applyPatches settings names = (store, .ok 0) :=
  applyPatchesFrom_of_no_patch noPatch 0

end Store

end Tabula
