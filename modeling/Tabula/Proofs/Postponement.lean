import Tabula.Proofs.Run.Forward
import Tabula.Proofs.Run.Outcome

/-!
# Which links are postponed, and that settling them once is enough

A link waits exactly when it leads forward. Once every table is stored all of them can
be settled, so one pass over the backlog leaves nothing behind and cannot fail.
-/

namespace Tabula.Workbook

/-- A run settles the links that lead forward, each pair of a table and a key once and in
the order in which they first occur. It leaves none, and no pass over the backlog fails. -/
theorem publish_settlement (settings : Settings) (workbook : Workbook) :
    (∀ publication, workbook.publish settings = .ok publication →
      publication.settlement.left = [] ∧
        publication.settlement.settled = (workbook.forwardLinks settings).eraseDups ∧
        publication.settlement.settled.Nodup) ∧
      ∀ progress, workbook.resolveTables settings = .ok progress →
        ∃ settlement, (progress.settle settings workbook.names).2 = .ok settlement := by
  constructor
  · intro publication published
    obtain ⟨unique, faultless, patched, patches, _, rfl⟩ := publish_eq_ok published
    exact ⟨rfl, entries_firstPass_eq_forwardLinks unique faultless,
      (workbook.firstPass settings).backlog.nodup⟩
  · intro progress resolved
    rw [resolveTables_eq, okUnless_eq_ok_iff] at resolved
    obtain ⟨faultless, rfl⟩ := resolved
    rw [settle_firstPass faultless]
    exact ⟨_, rfl⟩

/-- Two tables with links to each other and to themselves. -/
def crossLinked : Workbook :=
  { tables :=
      [{ name := "A"
         rows := [[("id", .str "1"), ("b:B$ref=id", .str "x"), ("a:A$ref=id", .str "1")]] },
       { name := "B"
         rows :=
           [[("id", .str "x"), ("c.d", .null), ("a:A$ref=id", .str "2")],
            [("b:B$ref=id", .str "x"), ("a:A$ref=id", .str "1")]] }] }

set_option maxRecDepth 4000 in
theorem publish_settlement_crossLinked :
    ∃ publication, crossLinked.publish {} = .ok publication ∧
      publication.settlement.left = [] ∧
      publication.settlement.settled =
        [⟨"A", "b:B$ref=id"⟩, ⟨"A", "a:A$ref=id"⟩, ⟨"B", "b:B$ref=id"⟩] := by
  cases published : crossLinked.publish {} with
  | error fault =>
      have succeeds : (crossLinked.publish {}).isOk = true := by rfl
      rw [published] at succeeds
      cases succeeds
  | ok publication =>
      obtain ⟨nothingLeft, settled, _⟩ := (publish_settlement {} crossLinked).1 _ published
      have forward : (crossLinked.forwardLinks {}).eraseDups =
          [⟨"A", "b:B$ref=id"⟩, ⟨"A", "a:A$ref=id"⟩, ⟨"B", "b:B$ref=id"⟩] := by rfl
      exact ⟨publication, rfl, nothingLeft, settled.trans forward⟩

end Tabula.Workbook
