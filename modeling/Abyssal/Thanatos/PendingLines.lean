import Mathlib.Data.List.Induction
import Mathlib.Data.List.Nodup

/-!
# Telemetry that waits to be sent

The agent keeps the lines it could not send yet, the oldest in front. With `MAX_PENDING` of them the
oldest is dropped for a new one. A flush sends batches of up to `BATCH_LINES` lines until one is
refused. Here every line goes with the number of lines that were pushed before it, which no code
reads.

## Main results

* `faithful_outgoing`: what is sent, in order.
-/

namespace Abyssal.Thanatos.Stream

open List

def maxPending : ℕ := 1000

def batchLines : ℕ := 50

variable {α : Type*}

structure Pending (α : Type*) where
  lines : List α
  dropped : ℕ

variable (p : Pending α)

def Pending.push (line : α) : Pending α :=
  if maxPending ≤ p.lines.length then ⟨p.lines.tail ++ [line], p.dropped + 1⟩
  else ⟨p.lines ++ [line], p.dropped⟩

/-- The line that a push drops. -/
def Pending.oldest : List α :=
  if maxPending ≤ p.lines.length then p.lines.head?.toList else []

/-- The batches that are accepted, from number `i` on, and the lines that are left. -/
def sendBatches (accepts : ℕ → Bool) (i : ℕ) (lines : List α) : List (List α) × List α :=
  if lines ≠ [] ∧ accepts i = true then
    let (sent, left) := sendBatches accepts (i + 1) (lines.drop batchLines)
    (lines.take batchLines :: sent, left)
  else ([], lines)
termination_by lines.length
decreasing_by
  have hpos := length_pos_of_ne_nil (by rename_i h; exact h.1 : lines ≠ [])
  rw [length_drop, batchLines]
  omega

def Pending.flush (accepts : ℕ → Bool) : List (List α) × Pending α :=
  let (sent, left) := sendBatches accepts 0 p.lines
  (sent, { p with lines := left })

inductive StreamEvent (α : Type*)
  | push (line : α)
  | flush (accepts : ℕ → Bool)

/-- The lines pushed so far, the batches that were accepted, the lines that were dropped, and what
waits. -/
structure Outgoing (α : Type*) where
  pushed : List α
  sent : List (List (α × ℕ))
  drops : List (α × ℕ)
  pending : Pending (α × ℕ)

def Outgoing.step (s : Outgoing α) : StreamEvent α → Outgoing α
  | .push line =>
    { s with
      pushed := s.pushed ++ [line]
      drops := s.drops ++ s.pending.oldest
      pending := s.pending.push (line, s.pushed.length) }
  | .flush accepts =>
    let (sent, pending) := s.pending.flush accepts
    { s with sent := s.sent ++ sent, pending := pending }

def outgoing (events : List (StreamEvent α)) : Outgoing α :=
  events.foldl Outgoing.step ⟨[], [], [], ⟨[], 0⟩⟩

/-- What was accepted, followed by what is still pending. -/
def Outgoing.kept (s : Outgoing α) : List (α × ℕ) := s.sent.flatten ++ s.pending.lines

theorem sendBatches_spec (accepts : ℕ → Bool) (i : ℕ) (lines : List α) :
    (sendBatches accepts i lines).1.flatten ++ (sendBatches accepts i lines).2 = lines ∧
      ∀ batch ∈ (sendBatches accepts i lines).1, batch.length ≤ batchLines := by
  fun_induction sendBatches accepts i lines with
  | case1 i lines h sent left hrest ih =>
    rw [hrest] at ih
    refine ⟨?_, forall_mem_cons.2 ⟨length_take_le _ _, ih.2⟩⟩
    rw [flatten_cons, append_assoc, ih.1, take_append_drop]
  | case2 => exact ⟨rfl, nofun⟩

/-- The lines that were pushed are those accepted or still pending, in their order, and those
dropped, each of them once. -/
structure Faithful (s : Outgoing α) : Prop where
  sublist : s.kept <+ s.pushed.zipIdx
  perm : s.kept ++ s.drops ~ s.pushed.zipIdx
  counted : s.drops.length = s.pending.dropped
  batches : ∀ batch ∈ s.sent, batch.length ≤ batchLines
  bounded : s.pending.lines.length ≤ maxPending

variable {s : Outgoing α}

theorem Pending.push_spec (line : α) :
    ∃ rest, p.lines = p.oldest ++ rest ∧
      p.push line = ⟨rest ++ [line], p.dropped + p.oldest.length⟩ ∧
      (p.lines.length ≤ maxPending → rest.length < maxPending) := by
  rw [oldest, push]
  split_ifs with hfull
  · obtain ⟨_, rest, hlines⟩ := exists_cons_of_length_pos (Nat.lt_of_lt_of_le (by decide) hfull)
    rw [hlines]
    exact ⟨rest, rfl, rfl, id⟩
  · exact ⟨p.lines, rfl, rfl, fun _ => Nat.lt_of_not_le hfull⟩

theorem Faithful.push (h : Faithful s) (line : α) : Faithful (s.step (.push line)) := by
  have hzip : (s.pushed ++ [line]).zipIdx = s.pushed.zipIdx ++ [(line, s.pushed.length)] := by
    simp [zipIdx_append]
  obtain ⟨rest, hlines, hpush, hlength⟩ := s.pending.push_spec (line, s.pushed.length)
  obtain ⟨hsublist, hperm, hcounted, hbatches, hbounded⟩ := h
  have hkept' : (s.step (.push line)).kept =
      s.sent.flatten ++ rest ++ [(line, s.pushed.length)] := by
    rw [Outgoing.step, Outgoing.kept, hpush, append_assoc]
  rw [Outgoing.kept, hlines] at hsublist hperm
  refine ⟨?_, ?_, ?_, hbatches, ?_⟩
  · have hrest := (Sublist.refl s.sent.flatten).append (sublist_append_right s.pending.oldest rest)
    rw [hkept', Outgoing.step, hzip]
    exact (hrest.trans hsublist).append (Sublist.refl _)
  · classical
    rw [hkept', Outgoing.step, hzip, perm_iff_count] at *
    intro x
    have hx := hperm x
    simp only [count_append] at hx ⊢
    omega
  · rw [Outgoing.step, hpush, length_append, hcounted]
  · rw [Outgoing.step, hpush, length_append]
    exact hlength hbounded

theorem Faithful.flush (h : Faithful s) (accepts : ℕ → Bool) :
    Faithful (s.step (.flush accepts)) := by
  obtain ⟨hflatten, hlengths⟩ := sendBatches_spec accepts 0 s.pending.lines
  have hkept : (s.step (.flush accepts)).kept = s.kept := by
    rw [Outgoing.step, Outgoing.kept, Outgoing.kept]
    conv_rhs => rw [← hflatten]
    simp [Pending.flush]
  refine ⟨hkept ▸ h.sublist, hkept ▸ h.perm, h.counted, ?_, ?_⟩
  · exact fun batch hbatch => (mem_append.1 hbatch).elim (h.batches batch) (hlengths batch)
  · have hlength := congrArg length hflatten
    rw [length_append] at hlength
    exact Nat.le_trans (Nat.le_of_add_left_le (Nat.le_of_eq hlength)) h.bounded

/-- After any run of pushes and flushes, and no line was sent twice. -/
theorem faithful_outgoing (events : List (StreamEvent α)) :
    Faithful (outgoing events) ∧ (outgoing events).sent.flatten.Nodup := by
  have h : Faithful (outgoing events) := by
    induction events using reverseRecOn with
    | nil => exact ⟨nil_sublist _, .nil, rfl, nofun, Nat.zero_le _⟩
    | append_singleton _ e ih =>
      rw [outgoing, foldl_concat]
      cases e with
      | push line => exact ih.push line
      | flush accepts => exact ih.flush accepts
  have hnodup : (outgoing events).pushed.zipIdx.Nodup := by
    refine Nodup.of_map Prod.snd ?_
    rw [zipIdx_map_snd]
    exact nodup_range'
  exact ⟨h, ((sublist_append_left _ _).trans h.sublist).nodup hnodup⟩

end Abyssal.Thanatos.Stream
