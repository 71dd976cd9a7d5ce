import Abyssal.Agent.Validators
import Mathlib.Data.List.Infix

/-!
# The processes of a packet capture

The agent asks `pgrep` for processes with the path of the capture's file in their command line, and
stops them with `pkill`. Neither program finds itself, but both are run through `sudo` while the
agent is elevated, and `sudo` has the same arguments. The path is a regular expression to them.

## Main results

* `found_exactly_iff`: when only the capture is found.
-/

namespace Abyssal.Scourge.Capture

open Text Agent List

/-- The arguments of a process, its program first. -/
abbrev Process := List Text

def validCaptureId (s : Text) : Bool :=
  s ≠ [] && byteLength s ≤ 128 && (splitAtText ".." s).isNone &&
    alphanumericOr ['.', '_', '-'] s

def pcap (id : Text) : Text :=
  "/var/lib/abyssal-arsenal/scourge/pcaps/" ++ id ++ ".pcap"

/-- Whether the text begins with the pattern, in which a dot stands for any character. -/
def matchesAt : Text → Text → Bool
  | [], _ => true
  | _ :: _, [] => false
  | p :: pattern, c :: text => (p = '.' || p = c) && matchesAt pattern text

def found (pattern : Text) (process : Process) : Bool :=
  (unwords process).tails.any (matchesAt pattern)

variable (elevated : Bool)

/-- The processes that a command meets, itself apart. -/
def others (command : Process) (processes : List Process) : List Process :=
  if elevated then ("sudo" :: "-n" :: command) :: processes else processes

def captureRunning (pcap : Text) (processes : List Process) : Bool :=
  (others elevated ["pgrep", "-f", pcap] processes).any (found pcap)

/-- The state that `capture_status` reports, with the processes that are left once a capture at its
size cap was stopped. -/
def captureStatus (id : Text) (processes : List Process) : Except String String :=
  if validCaptureId id then
    .ok (if captureRunning elevated (pcap id) processes then "running" else "done")
  else .error "invalid capture id"

/-- The processes that `capture_cancel` signals. -/
def captureCancel (id : Text) (processes : List Process) : List Process :=
  if validCaptureId id then
    (others elevated ["pkill", "-TERM", "-f", pcap id] processes).filter
      (found (pcap id))
  else []

/-- The process runs the capture that writes the file, or is `tcpdump` itself. -/
def Captures (id : Text) (process : Process) : Prop :=
  ["tcpdump".toList, "-i".toList, "any".toList, "-w".toList, pcap id] <:+: process

/-- A capture is reported as running exactly if a process is at it, and no other is signalled. -/
def Exact (id : Text) (processes : List Process) : Prop :=
  validCaptureId id = true →
    (captureStatus elevated id processes = .ok "running" ↔ ∃ p ∈ processes, Captures id p) ∧
      ∀ p ∈ captureCancel elevated id processes, Captures id p

private theorem matchesAt_append (pattern text : Text) : matchesAt pattern (pattern ++ text) := by
  induction pattern with
  | nil => exact matchesAt.eq_1 text
  | cons p pattern ih => simp [matchesAt, ih]

private theorem infix_unwords {w : Text} {ws : List Text} (h : w ∈ ws) : w <:+: unwords ws := by
  induction ws with
  | nil => cases h
  | cons v ws ih =>
    cases ws with
    | nil =>
      rw [mem_singleton.1 h, unwords, intercalate_singleton]
    | cons v' ws =>
      rw [unwords, intercalate_cons_cons]
      rcases mem_cons.1 h with rfl | h
      · rw [append_assoc]
        exact (prefix_append ..).isInfix
      · exact (ih h).trans (suffix_append ..).isInfix

variable {id pattern : Text} {process : Process}

theorem found_of_mem (h : pattern ∈ process) : found pattern process := by
  obtain ⟨before, after, happend⟩ := infix_unwords h
  refine any_eq_true.2 ⟨pattern ++ after, ?_, matchesAt_append pattern after⟩
  rw [mem_tails, ← happend, append_assoc]
  exact suffix_append ..

theorem Captures.found (h : Captures id process) : found (pcap id) process :=
  found_of_mem (h.subset (by simp))

private theorem not_captures_pkill (id : Text) : ¬ Captures id
    ["sudo".toList, "-n".toList, "pkill".toList, "-TERM".toList, "-f".toList, pcap id] := by
  intro h
  have hpath : "tcpdump".toList ≠ pcap id := fun heq => nomatch congrArg head? heq
  have hfixed : "tcpdump".toList ∉
      ["sudo".toList, "-n".toList, "pkill".toList, "-TERM".toList, "-f".toList] := by
    decide
  have hmem : "tcpdump".toList ∈ ["sudo".toList, "-n".toList, "pkill".toList, "-TERM".toList,
      "-f".toList] ++ [pcap id] := h.subset mem_cons_self
  rcases mem_append.1 hmem with hmem | hmem
  · exact hfixed hmem
  · exact hpath (mem_singleton.1 hmem)

/-- Exactly if the agent is not elevated and every process that has the path in its command line is
at the capture. -/
theorem found_exactly_iff (elevated : Bool) (id : Text) (processes : List Process) :
    Exact elevated id processes ↔ (validCaptureId id → elevated = false ∧
      ∀ p ∈ processes, found (pcap id) p → Captures id p) := by
  refine imp_congr_right fun hvalid => ?_
  rw [captureStatus, captureCancel, if_pos hvalid, if_pos hvalid]
  cases elevated with
  | true =>
    refine iff_of_false (fun h => not_captures_pkill id (h.2 _ ?_)) nofun
    exact mem_filter.2 ⟨mem_cons_self, found_of_mem (by simp)⟩
  | false =>
    have hrunning : captureRunning false (pcap id) processes ↔
        ∃ p ∈ processes, found (pcap id) p := any_eq_true
    constructor
    · exact fun h => ⟨rfl, fun p hp hfound => h.2 p (mem_filter.2 ⟨hp, hfound⟩)⟩
    · rintro ⟨-, h⟩
      refine ⟨?_, fun p hp => h p (mem_filter.1 hp).1 (mem_filter.1 hp).2⟩
      have hstate : (.ok (if captureRunning false (pcap id) processes then "running" else "done") :
          Except String String) = .ok "running" ↔ captureRunning false (pcap id) processes := by
        split_ifs with hany <;> simp [hany]
      rw [hstate, hrunning]
      exact exists_congr fun p => and_congr_right fun hp => ⟨h p hp, Captures.found⟩

/-- The check finds the `sudo` that it is run by, with no other process on the host. -/
theorem not_exact_of_elevated :
    captureStatus true "capture-1" [] = .ok "running" ∧ ¬ Exact true "capture-1" [] := by
  have hstatus : captureStatus true "capture-1" [] = .ok "running" := by
    decide +kernel
  refine ⟨hstatus, fun h => ?_⟩
  obtain ⟨_, hmem, -⟩ := (h (by decide)).1.1 hstatus
  cases hmem

end Abyssal.Scourge.Capture
