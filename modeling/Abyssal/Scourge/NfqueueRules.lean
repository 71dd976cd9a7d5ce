import Abyssal.Net.AddressText

/-!
# The chain of inline mode

Inline mode sends packets to the sensor through a chain of netfilter rules, whose first rules let
the traffic of the management pass by. The rule for the loopback looks at the interface a packet
came in by, which a packet that leaves the host does not have; the rule for SSH looks at the port
only, whatever the direction.

## Main results

* `lockout_iff`: the packets that are treated as meant.
-/

namespace Abyssal.Scourge.Nfqueue

open Net List

inductive Tool where
  | iptables
  | ip6tables
  deriving DecidableEq

def ipsChain : String := "SCOURGE_IPS"

def nfqueueNum : String := "0"

def rule (args : List String) : List String := ["-t", "mangle"] ++ args

def isIpv6 (ip : IpAddr) : Bool := !ip.isIpv4

/-- The argument lists of the tool, in the order in which they are run. -/
def nfqueueRules (tool : Tool) (cpIp : IpAddr) : List (List String) :=
  let cp := String.ofList cpIp.display
  [rule ["-N", ipsChain],
    rule ["-A", ipsChain, "-i", "lo", "-j", "ACCEPT"],
    rule ["-A", ipsChain, "-m", "conntrack", "--ctstate", "ESTABLISHED,RELATED", "-j",
      "ACCEPT"]] ++
  (if isIpv6 cpIp = (tool = .ip6tables : Bool) then
    [rule ["-A", ipsChain, "-s", cp, "-j", "ACCEPT"],
      rule ["-A", ipsChain, "-d", cp, "-j", "ACCEPT"]]
  else []) ++
  [rule ["-A", ipsChain, "-p", "tcp", "--dport", "22", "-j", "ACCEPT"],
    rule ["-A", ipsChain, "-j", "NFQUEUE", "--queue-num", nfqueueNum, "--queue-bypass"]] ++
  ["INPUT", "FORWARD", "OUTPUT"].map fun hook => rule ["-I", hook, "-j", ipsChain]

/-! ### Packets -/

inductive Hook where
  | input
  | forward
  | output
  deriving DecidableEq

/-- What the rules can ask of a packet. A packet on its way out has not come in. -/
structure Packet where
  hook : Hook
  inInterface : Option String
  outInterface : Option String
  ctState : String
  src : IpAddr
  dst : IpAddr
  protocol : String
  destPort : Option String
  no_inInterface : hook = .output → inInterface = none

/-- The target of a rule, if the packet matches it. -/
def target (p : Packet) : List String → Option String
  | "-i" :: interface :: rest => if p.inInterface = some interface then target p rest else none
  | "-m" :: _ :: rest => target p rest
  | "--ctstate" :: states :: rest =>
    if (Text.splitOn ',' states.toList).contains p.ctState.toList then target p rest else none
  | "-s" :: addr :: rest => if IpAddr.parse addr.toList = some p.src then target p rest else none
  | "-d" :: addr :: rest => if IpAddr.parse addr.toList = some p.dst then target p rest else none
  | "-p" :: protocol :: rest => if p.protocol = protocol then target p rest else none
  | "--dport" :: port :: rest => if p.destPort = some port then target p rest else none
  | "-j" :: name :: _ => some name
  | _ => none

/-- The target of the first rule of the chain that the packet matches. -/
def verdict (rules : List (List String)) (p : Packet) : Option String :=
  rules.findSome? fun
    | "-t" :: "mangle" :: "-A" :: chain :: args => if chain = ipsChain then target p args else none
    | _ => none

section

variable (cp : IpAddr) (p : Packet)

/-- What the rules before the one for SSH let pass. -/
def Managed : Prop :=
  p.inInterface = some "lo" ∨ (p.ctState = "ESTABLISHED" ∨ p.ctState = "RELATED") ∨
    p.src = cp ∨ p.dst = cp

def ToSshPort : Prop := p.protocol = "tcp" ∧ p.destPort = some "22"

/-- The traffic that must not reach the sensor. -/
def Exempt : Prop :=
  Managed cp p ∨ p.outInterface = some "lo" ∨
    p.hook = .input ∧ p.ctState = "NEW" ∧ ToSshPort p

/-- The rules for the family of the address. -/
def rulesFor : List (List String) :=
  nfqueueRules (if isIpv6 cp then .ip6tables else .iptables) cp

end

variable {cp : IpAddr} {p : Packet}

private theorem verdict_append (args : List String) (rules : List (List String)) :
    verdict (rule ("-A" :: ipsChain :: args) :: rules) p =
      (target p args).or (verdict rules p) := by
  rw [verdict, findSome?_cons]
  simp only [rule, cons_append, nil_append, if_true]
  cases target p args <;> rfl

private theorem verdict_rulesFor :
    (Managed cp p ∨ ToSshPort p) ∧ verdict (rulesFor cp) p = some "ACCEPT" ∨
      ¬(Managed cp p ∨ ToSshPort p) ∧ verdict (rulesFor cp) p = some "NFQUEUE" := by
  have hstates : Text.splitOn ',' "ESTABLISHED,RELATED" =
      ["ESTABLISHED".toList, "RELATED".toList] := by decide
  have hfamily : isIpv6 cp =
      decide ((if isIpv6 cp then Tool.ip6tables else .iptables) = .ip6tables) := by
    cases isIpv6 cp <;> rfl
  have hchain (rules) : verdict (rule ["-N", ipsChain] :: rules) p = verdict rules p := rfl
  rw [rulesFor, nfqueueRules, if_pos hfamily]
  simp only [cons_append, nil_append, hchain, verdict_append, target, hstates,
    String.toList_ofList, IpAddr.parse_display]
  have hstate : ["ESTABLISHED".toList, "RELATED".toList].contains p.ctState.toList ↔
      p.ctState = "ESTABLISHED" ∨ p.ctState = "RELATED" := by
    simp only [contains_iff_mem, mem_cons, not_mem_nil, or_false, String.toList_inj]
  simp only [Managed, ToSshPort, hstate, Option.some.injEq, eq_comm (a := cp)]
  split_ifs
  all_goals simp_all

/-- The rules do with a packet what is meant, unless it leaves by the loopback interface and no
other rule lets it pass, or goes to the port of SSH and is not exempt. -/
theorem lockout_iff (cp : IpAddr) (p : Packet) :
    ((Exempt cp p → verdict (rulesFor cp) p = some "ACCEPT") ∧
        (¬ Exempt cp p → verdict (rulesFor cp) p = some "NFQUEUE") ∧
        ∀ args ∈ rulesFor cp, ["-t", "mangle"] <+: args) ↔
      (p.outInterface = some "lo" → Managed cp p ∨ ToSshPort p) ∧ (ToSshPort p → Exempt cp p) := by
  have hmangle : ∀ args ∈ rulesFor cp, ["-t", "mangle"] <+: args := by
    rw [rulesFor, nfqueueRules]
    split_ifs
    all_goals simp [rule]
  have hother : some "ACCEPT" ≠ some "NFQUEUE" := by decide
  rcases @verdict_rulesFor cp p with ⟨haccept, heq⟩ | ⟨hqueue, heq⟩
  · simp only [heq, hother, Exempt]
    tauto
  · simp only [heq, hother.symm, Exempt]
    tauto

def loopbackOut : Packet :=
  ⟨.output, none, some "lo", "NEW", .v4 ⟨127, 0, 0, 1⟩, .v4 ⟨127, 0, 0, 1⟩, "tcp", some "9000",
    fun _ => rfl⟩

/-- A packet that leaves by the loopback interface is sent to the sensor. -/
theorem verdict_loopbackOut :
    verdict (rulesFor (.v4 ⟨10, 0, 0, 1⟩)) loopbackOut = some "NFQUEUE" := by
  decide +kernel

end Abyssal.Scourge.Nfqueue
