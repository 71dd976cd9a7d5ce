import Abyssal.Net.AddressText
import Abyssal.Table.Keyed
import Abyssal.Text.Layout
import Mathlib.Data.List.Infix

/-!
# The blocklist of addresses

An address is blocked by a rule in each of two chains of `nft`. To unblock it, the agent lists a
chain, takes the first line with the text of the address in it and deletes the rule by the handle at
the end of the line. What `nft` keeps are addresses, and the text is only what the request wrote.

## Main results

* `unblock_exact_iff`: when the right rules go.
-/

namespace Abyssal.Agent.Blocklist

open Text Net List Function IpAddr

inductive Chain where
  | input
  | output
  deriving DecidableEq

def Chain.name : Chain → String
  | input => "input"
  | output => "output"

def Chain.side : Chain → String
  | input => "saddr"
  | output => "daddr"

structure Rule where
  address : IpAddr
  handle : ℕ
  deriving DecidableEq

/-- The rules of the table. Handles are counted up. -/
structure Ruleset where
  rules : Chain → List Rule
  nextHandle : ℕ
  lt : ∀ chain, ∀ rule ∈ rules chain, rule.handle < nextHandle
  nodup : ∀ chain, ((rules chain).map Rule.handle).Nodup

namespace Ruleset

def empty : Ruleset where
  rules _ := []
  nextHandle := 1
  lt _ _ h := nomatch h
  nodup _ := nodup_nil

def add (s : Ruleset) (chain : Chain) (address : IpAddr) : Ruleset where
  rules := update s.rules chain (s.rules chain ++ [⟨address, s.nextHandle⟩])
  nextHandle := s.nextHandle + 1
  lt c rule h := by
    rw [update_apply] at h
    split_ifs at h with hc
    · rcases mem_append.1 h with h | h
      · exact Nat.lt_succ_of_lt (s.lt chain rule h)
      · rw [mem_singleton.1 h]
        exact Nat.lt_succ_self _
    · exact Nat.lt_succ_of_lt (s.lt c rule h)
  nodup c := by
    rw [update_apply]
    split_ifs with hc
    · rw [map_append, nodup_append]
      refine ⟨s.nodup chain, nodup_singleton _, ?_⟩
      rintro _ hold _ hnew rfl
      obtain ⟨rule, hrule, hhandle⟩ := mem_map.1 hold
      have hlt := s.lt chain rule hrule
      rw [hhandle, mem_singleton.1 hnew] at hlt
      exact Nat.lt_irrefl _ hlt
    · exact s.nodup c

def delete (s : Ruleset) (chain : Chain) (handle : ℕ) : Ruleset where
  rules := update s.rules chain ((s.rules chain).filter (·.handle ≠ handle))
  nextHandle := s.nextHandle
  lt c rule h := by
    rw [update_apply] at h
    split_ifs at h
    · exact s.lt chain rule (mem_of_mem_filter h)
    · exact s.lt c rule h
  nodup c := by
    rw [update_apply]
    split_ifs
    · exact (s.nodup chain).sublist (filter_sublist.map _)
    · exact s.nodup c

end Ruleset

/-- What the agent has `nft` do. -/
inductive Command where
  | skeleton
  | add (chain : Chain)
  | list (chain : Chain)
  | delete (chain : Chain)

variable (shown : IpAddr → Text) (fails : Command → Option String)

def family (address : IpAddr) : String := if address.isIpv4 then "ip" else "ip6"

variable (chain : Chain)

/-- The line of a rule as `nft -a` lists it, with the address as `nft` shows it. -/
def ruleLine (rule : Rule) : Text :=
  ("\t\t" ++ family rule.address ++ " " ++ chain.side ++ " ").toList ++ shown rule.address ++
    " drop # " ++ ("handle" ++ ' ' :: ofNat rule.handle)

def chainHead : List Text :=
  ["table inet abyssal_blocklist \x7b",
    ("\tchain " ++ chain.name ++ " \x7b # handle 1").toList,
    ("\t\ttype filter hook " ++ chain.name ++ " priority filter; policy accept;").toList]

/-- What `nft -a list chain` prints. -/
def listing (rules : List Rule) : List Text :=
  chainHead chain ++ rules.map (ruleLine shown chain) ++ ["\t\x7d".toList, "\x7d".toList]

variable (ip : Text)

def findHandle (lines : List Text) : Option ℕ :=
  lines.findSome? fun line =>
    if ip <:+: line then parseU32 (trim (afterLast "handle " line)) else none

def nftFindHandle (ip : Text) (rules : List Rule) : Option ℕ :=
  match fails (.list chain) with
  | some _ => none
  | none => findHandle ip (listing shown chain rules)

variable (s : Ruleset)

/-- What `nft_unblock_ip` does to one chain, and what it notes. -/
def unblockChain (chain : Chain) : Option (Except String Unit) × Ruleset :=
  match nftFindHandle shown fails chain ip (s.rules chain) with
  | none => (none, s)
  | some handle =>
    match fails (.delete chain) with
    | some e => (some (.error (chain.name ++ ": " ++ e)), s)
    | none => (some (.ok ()), s.delete chain handle)

def errorsOf (notes : List (Except String Unit)) : List String :=
  notes.filterMap fun
    | .error e => some e
    | .ok _ => none

def report (notes : List (Except String Unit)) : Except String String :=
  if errorsOf notes ≠ [] then .error ("; ".intercalate (errorsOf notes))
  else if notes ≠ [] then .ok ("Unblocked " ++ String.ofList ip ++ " (nftables).")
  else .ok (String.ofList ip ++ " wasn't blocked -- nothing to remove.")

def nftUnblockIp : Except String String × Ruleset :=
  let input := unblockChain shown fails ip s .input
  let output := unblockChain shown fails ip input.2 .output
  (report ip (input.1.toList ++ output.1.toList), output.2)

def unblockRemoteIp : Except String String × Ruleset :=
  match parse ip with
  | some _ => nftUnblockIp shown fails ip s
  | none => (.error ("refusing invalid IP address: " ++ String.ofList ip), s)

/-- `nft_block_ip`. `nft` takes the address that the text means. -/
def nftBlockIp (address : IpAddr) (s : Ruleset) : Except String String × Ruleset :=
  match fails .skeleton, fails (.add .input), fails (.add .output) with
  | some e, _, _ => (.error e, s)
  | none, some e, _ => (.error e, s)
  | none, none, some e => (.error e, s.add .input address)
  | none, none, none =>
    (.ok ("Blocked " ++ String.ofList ip ++ " (nftables, inbound and outbound).\n"),
      (s.add .input address).add .output address)

def blockRemoteIp : Except String String × Ruleset :=
  match parse ip with
  | some address => nftBlockIp fails ip address s
  | none => (.error ("refusing invalid IP address: " ++ String.ofList ip), s)

/-! ### What is found -/

/-- The agent would take the line of a rule for that of the address. -/
def isHit (ip : Text) (rule : Rule) : Bool :=
  ip <:+: ruleLine shown chain rule && rule.handle < 4294967296

/-- The rule that is found for the text of an address. -/
def found (chain : Chain) : Option Rule :=
  if (fails (.list chain)).isSome then none else (s.rules chain).find? (isHit shown chain ip)

variable {shown fails}

private theorem findSome?_eq_none {ip : Text} {a : IpAddr} (hip : parse ip = some a)
    {lines : List Text} (h : ∀ line ∈ lines, '.' ∉ line ∧ ':' ∉ line) :
    findHandle ip lines = none := by
  refine findSome?_eq_none_iff.2 fun line hline => if_neg fun hstands => ?_
  rcases separator_mem_of_parse hip with hmem | hmem
  · exact (h line hline).1 (hstands.subset hmem)
  · exact (h line hline).2 (hstands.subset hmem)

private theorem findHandle_rules (chain : Chain) (rules : List Rule) :
    findHandle ip (rules.map (ruleLine shown chain)) =
      (rules.find? (isHit shown chain ip)).map Rule.handle := by
  have hhandle (rule : Rule) :
      parseU32 (trim (afterLast "handle " (ruleLine shown chain rule))) =
        if rule.handle < 4294967296 then some rule.handle else none := by
    have hlast : afterLast "handle " (ruleLine shown chain rule) = ofNat rule.handle :=
      afterLast_append (not_mem_ofNat rfl _) _ "handle"
    rw [hlast, trim_of_forall fun c hc => isWhitespace_of_mem_ofNat hc, parseU32_ofNat]
  induction rules with
  | nil => rfl
  | cons rule _ ih =>
    rw [map_cons, findHandle, findSome?_cons, ← findHandle, ih, hhandle, find?_cons, isHit]
    by_cases hstands : ip <:+: ruleLine shown chain rule
    · by_cases hsmall : rule.handle < 4294967296
      · simp [hstands, hsmall]
      · simp [hstands, hsmall]
    · simp [hstands]

private theorem findHandle_listing {ip : Text} {a : IpAddr} (hip : parse ip = some a)
    (chain : Chain) (rules : List Rule) :
    findHandle ip (listing shown chain rules) =
      (rules.find? (isHit shown chain ip)).map Rule.handle := by
  have hhead : findHandle ip (chainHead chain) = none :=
    findSome?_eq_none hip (by cases chain <;> decide)
  have htail : findHandle ip ["\t\x7d", "\x7d"] = none :=
    findSome?_eq_none hip (by decide)
  have hrules := @findHandle_rules shown ip chain rules
  rw [findHandle] at hhead htail hrules ⊢
  rw [listing, findSome?_append, findSome?_append, hhead, htail, hrules]
  simp

/-! ### Unblocking -/

variable {ip : Text} {a : IpAddr} {s : Ruleset} {chain : Chain}

theorem nftFindHandle_eq (hip : parse ip = some a) :
    nftFindHandle shown fails chain ip (s.rules chain) =
      (found shown fails ip s chain).map Rule.handle := by
  rw [nftFindHandle, found]
  cases fails (.list chain) with
  | some => rfl
  | none => exact findHandle_listing hip chain _

/-- Nothing is found in the chain, or what is found can be deleted. -/
def Settles (shown : IpAddr → Text) (fails : Command → Option String) (ip : Text)
    (s : Ruleset) (chain : Chain) : Prop :=
  (found shown fails ip s chain).isSome = true → fails (.delete chain) = none

/-- The rules of the chain that are left when what is found has been deleted. -/
def remaining (shown : IpAddr → Text) (fails : Command → Option String) (ip : Text)
    (s : Ruleset) (chain : Chain) : List Rule :=
  (s.rules chain).filter fun rule => (found shown fails ip s chain).all (rule.handle ≠ ·.handle)

theorem unblockChain_spec (hip : parse ip = some a) :
    ((∀ note ∈ (unblockChain shown fails ip s chain).1.toList, note = .ok ()) ↔
        Settles shown fails ip s chain) ∧
      (Settles shown fails ip s chain →
        (unblockChain shown fails ip s chain).2.rules chain = remaining shown fails ip s chain) ∧
      ∀ other ≠ chain, (unblockChain shown fails ip s chain).2.rules other = s.rules other := by
  rw [unblockChain, nftFindHandle_eq hip, Settles, remaining]
  cases found shown fails ip s chain with
  | none => simp
  | some =>
    cases fails (.delete chain) with
    | some => simp
    | none => simp +contextual [Ruleset.delete]

private theorem report_eq_ok_iff {notes : List (Except String Unit)} :
    (∃ text, report ip notes = .ok text) ↔ ∀ note ∈ notes, note = .ok () := by
  have herrors : errorsOf notes = [] ↔ ∀ note ∈ notes, note = .ok () := by
    rw [errorsOf, filterMap_eq_nil_iff]
    refine forall₂_congr fun note _ => ?_
    cases note <;> simp
  rw [report, ← herrors]
  by_cases h : errorsOf notes = []
  · refine iff_of_true ?_ h
    rw [if_neg (not_not_intro h)]
    split_ifs <;> exact ⟨_, rfl⟩
  · simp [h]

/-- The second chain is as the first one's turn found it. -/
theorem unblockRemoteIp_spec (hip : parse ip = some a) (s : Ruleset) :
    ((∃ text, (unblockRemoteIp shown fails ip s).1 = .ok text) ↔
        ∀ chain, Settles shown fails ip s chain) ∧
      ((∀ chain, Settles shown fails ip s chain) → ∀ chain,
        (unblockRemoteIp shown fails ip s).2.rules chain = remaining shown fails ip s chain) := by
  obtain ⟨hnotes, hleft, hframe⟩ := @unblockChain_spec shown fails _ _ s .input hip
  obtain ⟨hnotes', hleft', hframe'⟩ :=
    @unblockChain_spec shown fails _ _ (unblockChain shown fails ip s .input).2 .output hip
  have hsame := hframe .output (by decide)
  have hfound : found shown fails ip (unblockChain shown fails ip s .input).2 .output =
      found shown fails ip s .output := by
    rw [found, found, hsame]
  rw [Settles, hfound, ← Settles] at hnotes' hleft'
  rw [remaining, hfound, hsame] at hleft'
  have hchains (P : Chain → Prop) : (∀ chain, P chain) ↔ P .input ∧ P .output :=
    ⟨fun h => ⟨h _, h _⟩, fun h chain => by cases chain; exacts [h.1, h.2]⟩
  rw [unblockRemoteIp, hip]
  refine ⟨?_, fun h => (hchains _).2 ⟨?_, hleft' (h .output)⟩⟩
  · rw [hchains, ← hnotes, ← hnotes', ← forall_mem_append]
    exact report_eq_ok_iff
  · exact (hframe' .input (by decide)).trans (hleft (h .input))

private theorem exact_iff (s : Ruleset) (chain : Chain) :
    remaining shown fails ip s chain = (s.rules chain).filter (·.address ≠ a) ↔
      (s.rules chain).filter (·.address = a) = (found shown fails ip s chain).toList := by
  have hfound : (found shown fails ip s chain).toList = (s.rules chain).filter fun rule =>
      (found shown fails ip s chain).any (rule.handle = ·.handle) := by
    cases h : found shown fails ip s chain with
    | none => simp
    | some =>
      rw [found, Option.ite_none_left_eq_some] at h
      exact (Table.filter_key_eq (s.nodup chain) (mem_of_find?_eq_some h.2)).symm
  rw [remaining, hfound, Table.filter_inj, Table.filter_inj]
  refine forall₂_congr fun rule _ => ?_
  cases found shown fails ip s chain with
  | none => simp
  | some other =>
    by_cases hhandle : rule.handle = other.handle <;> by_cases haddress : rule.address = a <;>
      simp [hhandle, haddress]

/-- A successful unblocking leaves just the rules of the other addresses if and only if what is
found for the text in each chain are the rules of its address. -/
theorem unblock_exact_iff (hip : parse ip = some a) (s : Ruleset) :
    ((∃ text, (unblockRemoteIp shown fails ip s).1 = .ok text) →
        ∀ chain, (unblockRemoteIp shown fails ip s).2.rules chain =
          (s.rules chain).filter (·.address ≠ a)) ↔
      (∀ chain, Settles shown fails ip s chain) → ∀ chain, (s.rules chain).filter (·.address = a) =
          (found shown fails ip s chain).toList := by
  obtain ⟨hok, hleft⟩ := @unblockRemoteIp_spec shown fails _ _ hip s
  rw [hok]
  refine forall_congr' fun hsettles => forall_congr' fun chain => ?_
  rw [hleft hsettles, exact_iff]

theorem unblock_exact_iff_blocked :
    (unblockRemoteIp display (fun _ => none) "10.0.0.1".toList
        (blockRemoteIp (fun _ => none) "10.0.0.1" .empty).2).2.rules .input = [] := by
  have hip : parse "10.0.0.1" = some (.v4 ⟨10, 0, 0, 1⟩) := by decide +kernel
  refine ((unblock_exact_iff hip _).2 ?_ ⟨"Unblocked 10.0.0.1 (nftables).", ?_⟩ .input).trans ?_
  · rintro - (_ | _) <;> decide +kernel
  · decide +kernel
  · decide +kernel

/-- Unblocking an address removes the rules of another one that begins with its text. -/
theorem unblock_removes_other :
    (unblockRemoteIp display (fun _ => none) "10.0.0.1".toList
        (blockRemoteIp (fun _ => none) "10.0.0.10" .empty).2).1 =
      .ok "Unblocked 10.0.0.1 (nftables)." ∧
    ((unblockRemoteIp display (fun _ => none) "10.0.0.1".toList
        (blockRemoteIp (fun _ => none) "10.0.0.10" .empty).2).2.rules .input) = [] := by
  decide +kernel

end Abyssal.Agent.Blocklist
