import Abyssal.Machine.Watermark
import Mathlib.Data.Prod.Lex

/-!
# The export of the audit trail

A row has the time at which its statement began, in microseconds, and a random id, and the cursor is
a position in the order of these pairs. But of two rows of the same microsecond the later may have
the smaller id, and a statement that began earlier may end later. Such a row is never handed over.

## Main results

* `exports_of_reached`: when every row is handed over.
-/

namespace Abyssal.Audit

open Machine Watermark

/-- `AuditCursor`: the time of a row and its id. -/
abbrev AuditCursor := ℕ ×ₗ ℕ

def batchSize : ℕ := 500

/-- A row becomes visible, the rows after the cursor are listed, handed over and the cursor is
stored, or a query fails. -/
def step : State AuditCursor → Event AuditCursor → State AuditCursor := State.step batchSize

/-- A sweep without a failure and without rows becoming visible meanwhile. -/
def exportOneBatch : State AuditCursor → State AuditCursor := State.tick batchSize

def baseline (rows : List AuditCursor) (newest : AuditCursor) : State AuditCursor :=
  ⟨rows, newest, [], none, [], []⟩

/-- The rows inserted since the baseline are handed over by the time the cursor passes them, and all
are after some sweeps. -/
structure Exports (s : State AuditCursor) : Prop where
  nonePassed : s.NonePassed
  handed : ∃ n, ∀ row ∈ s.inserted, row ∈ (exportOneBatch^[n] s).handed

/-- All rows are exported in every run in which each becomes visible above the cursor and the batch
under way. -/
theorem exports_of_reached {rows : List AuditCursor} {newest : AuditCursor}
    {s : State AuditCursor} (h : Reached step State.Ascends (baseline rows newest) s) :
    Exports s := by
  have hstart : (baseline rows newest).Followed :=
    ⟨List.forall_mem_nil _, List.forall_mem_nil _, List.forall_mem_nil _⟩
  have hfollowed : s.Followed := h.inv hstart fun _ e h hok => h.step e hok
  exact ⟨hfollowed.passed, s.remaining, hfollowed.handed_iterate (by decide) le_rfl⟩

instance (s : State AuditCursor) (e : Event AuditCursor) : Decidable (s.Ascends e) := by
  cases e <;> unfold State.Ascends <;> infer_instance

theorem exports_of_reached_two_rows : Exports
    ([.insert (toLex (5, 9)), .list, .hand, .store, .insert (toLex (6, 3))].foldl step
      (baseline [] (toLex (4, 0)))) :=
  exports_of_reached (reached_of_allows (by decide))

/-- An event of the same time with a smaller id is inserted after the other was exported. -/
theorem not_exports_of_tie : ¬ Exports
    ([.insert (toLex (5, 9)), .list, .hand, .store, .insert (toLex (5, 3))].foldl step
      (baseline [] (toLex (4, 0)))) := by
  intro h
  exact absurd (h.nonePassed (toLex (5, 3)) (by decide) (by decide)) (by decide)

end Abyssal.Audit
