import Abyssal.Machine.Guarded
import Abyssal.Radius.Inventory

/-!
# RADIUS admission by MAC address

The server resolves a request to a MAC address, looks it up in the inventory and maps the trust it
finds, under a policy, to an accept or a reject. The administrator classifies rows, a row belongs to
an IP address, and its MAC is whatever was last seen there. So the state also records what was last
said of a device while it carried a MAC. `Faithful` excludes packets that announce another MAC at a
trusted device's address, and untrusted devices at new addresses.

## Main results

* `admission_of_faithful`: who is admitted in a faithful run.
-/

namespace Abyssal.Radius

open Option Function

/-! ## The server -/

structure RadiusPolicy where
  trustedVlan : ℕ
  quarantineVlan : ℕ
  untrustedAction : String
  unknownAction : String
  guestVlan : ℕ

inductive Decision where
  | accept (vlan : Option ℕ)
  | reject
  deriving DecidableEq

def RadiusPolicy.decide (p : RadiusPolicy) : Option TrustState → Decision
  | some .trusted => .accept (if p.trustedVlan > 0 then some p.trustedVlan else none)
  | some .untrusted =>
    if p.untrustedAction = "reject" then .reject
    -- with no quarantine VLAN there is no way to isolate, so the device is refused
    else if p.quarantineVlan > 0 then .accept (some p.quarantineVlan) else .reject
  | some .unknown | none =>
    if p.unknownAction = "reject" then .reject
    else if p.unknownAction = "guest" then
      .accept (if p.guestVlan > 0 then some p.guestVlan else none)
    else .accept none

theorem RadiusPolicy.decide_getD (p : RadiusPolicy) (trust : Option TrustState) :
    p.decide (some (trust.getD .unknown)) = p.decide trust := by
  cases trust <;> rfl

theorem RadiusPolicy.decide_untrusted (p : RadiusPolicy) :
    p.decide (some .untrusted) = .reject ∨
      p.decide (some .untrusted) = .accept (some p.quarantineVlan) := by
  rw [RadiusPolicy.decide]
  split_ifs
  · exact .inl rfl
  · exact .inr rfl
  · exact .inl rfl

def isAsciiHexdigit (c : Char) : Bool :=
  c.isDigit || ('a' ≤ c && c ≤ 'f') || ('A' ≤ c && c ≤ 'F')

def joinPairs : Text → Text
  | a :: b :: c :: rest => a :: b :: ':' :: joinPairs (c :: rest)
  | rest => rest

/-- A MAC in whatever punctuation a switch used, in lower case with colons, or nothing when
it is not twelve digits. -/
def normalizeMac (raw : Text) : Option Mac :=
  let hex := raw.filter isAsciiHexdigit
  if hex.length ≠ 12 then none else some (joinPairs (hex.map Char.toLower))

inductive MacResolution where
  | resolved (mac : Mac)
  | conflict
  | missing

/-- The MAC that a request authenticates: the one the switch saw, which a MAC given as user
name has to match. -/
def resolveMabMac : Option Mac → Option Mac → MacResolution
  | some c, some u => if c = u then .resolved c else .conflict
  | some c, none => .resolved c
  | none, some u => .resolved u
  | none, none => .missing

/-- An Access-Request from a known switch whose authenticator is right: the attributes that
the answer depends on. -/
structure AccessRequest where
  eapMessage : Bool
  userPassword : Bool
  chapPassword : Bool
  callingStationId : Option Text
  userName : Option Text

/-- The MAC a request asks about, if it is a request the server authorizes at all. -/
def AccessRequest.mabMac (req : AccessRequest) : Option Mac :=
  -- EAP and password requests are refused: there is no credential store to check them with
  if req.eapMessage then none
  else if req.userPassword || req.chapPassword then none
  else
    match resolveMabMac (req.callingStationId.bind normalizeMac)
        (req.userName.bind normalizeMac) with
    | .resolved mac => some mac
    | .conflict => none
    | .missing => none

/-- How the lookup made for a request ended: the database returned one of the newest rows,
or an error. -/
inductive Lookup where
  | found (pick : ℕ)
  | failed

/-- The trust state the server reads for a MAC; an error reads like an absent device. -/
def lookupTrust (v : Inventory) (mac : Mac) : Lookup → Option TrustState
  | .found pick => (v.findByMac mac pick).map Row.trustState
  | .failed => none

def handleAuth (v : Inventory) (lookup : Lookup) (p : RadiusPolicy) (req : AccessRequest) :
    Decision :=
  match req.mabMac with
  | some mac => p.decide (lookupTrust v mac lookup)
  | none => .reject

/-! ## Sightings and classifications -/

/-- The inventory, and for each MAC (in upper case) the last classification given to it. -/
structure State where
  inventory : Inventory
  given : Mac → Option TrustState

namespace State

def empty : State := ⟨.empty, fun _ => none⟩

def standing (s : State) (mac : Mac) : TrustState := (s.given (upper mac)).getD .unknown

theorem standing_congr (s : State) {mac mac' : Mac} (h : upper mac = upper mac') :
    s.standing mac = s.standing mac' := by
  rw [standing, h, standing]

end State

inductive Event where
  | arp (ip : String) (mac : Mac) (now : ℕ)
  | mdns (ip : String) (now : ℕ)
  | neighbour (ip : String) (mac : Mac) (now : ℕ)
  | scan (ip : String) (mac : Option Mac) (now : ℕ)
  | agentReport (ip : String) (mac : Mac)
  | classification (id : ℕ) (trust : TrustState)

/-- The record after a classification of a row: it is about the MAC that the row carries. -/
def State.giveTo (s : State) (row : Row) (trust : TrustState) : Mac → Option TrustState :=
  match row.macAddress with
  | some mac => update s.given (upper mac) (some trust)
  | none => s.given

def State.step (s : State) : Event → State
  | .arp ip mac now =>
    -- an ARP probe announces no address
    if ip = "0.0.0.0" then s else { s with inventory := s.inventory.touch ip mac now }
  | .mdns ip now => { s with inventory := s.inventory.noteSighting ip none now }
  | .neighbour ip mac now => { s with inventory := s.inventory.touch ip mac now }
  | .scan ip mac now => { s with inventory := s.inventory.upsert ip mac now }
  | .agentReport ip mac => { s with inventory := s.inventory.enrichFromAgent ip mac }
  | .classification id trust =>
    match s.inventory.findById id with
    | none => s
    | some row => ⟨s.inventory.classify id trust, s.giveTo row trust⟩

/-! ## Rows that speak for their MACs -/

namespace State

variable (s : State)

/-- The row speaks for the new MAC as well, and a classified MAC that it loses still has another
row. -/
def MovesFaithfully (ip : String) (mac : Option Mac → Option Mac) : Prop :=
  ∀ row ∈ s.inventory.rows, row.ipAddress = ip →
    (∀ m ∈ mac row.macAddress, row.Carries m ∨ row.trustState = s.standing m) ∧
    ∀ m ∈ row.macAddress, (mac row.macAddress).map upper = some (upper m) ∨
      s.standing m = .unknown ∨
      ∃ other ∈ s.inventory.rows, other.ipAddress ≠ ip ∧ other.Carries m

/-- A sighting at a new address may only be of a MAC that was not classified. -/
def ArrivesFaithfully (ip : String) (mac : Option Mac) : Prop :=
  (∀ row ∈ s.inventory.rows, row.ipAddress ≠ ip) → ∀ m ∈ mac, s.standing m = .unknown

/-- What a classification may do: every other row that carries the MAC already has that
trust state. -/
def ClassifiesFaithfully (id : ℕ) (trust : TrustState) : Prop :=
  ∀ row ∈ s.inventory.rows, row.id = id → ∀ m ∈ row.macAddress,
    ∀ other ∈ s.inventory.rows, other.id ≠ id → other.Carries m → other.trustState = trust

instance (ip : String) (mac : Option Mac → Option Mac) : Decidable (s.MovesFaithfully ip mac) :=
  inferInstanceAs (Decidable (∀ row ∈ s.inventory.rows, row.ipAddress = ip → _ ∧ _))

instance (ip : String) (mac : Option Mac) : Decidable (s.ArrivesFaithfully ip mac) :=
  inferInstanceAs (Decidable (_ → ∀ m ∈ mac, _))

instance (id : ℕ) (trust : TrustState) : Decidable (s.ClassifiesFaithfully id trust) :=
  inferInstanceAs (Decidable (∀ row ∈ s.inventory.rows, row.id = id → _))

end State

/-- The events that keep the classification of a row and that of the MAC it carries
together. -/
def Faithful (s : State) : Event → Prop
  | .arp ip mac _ => ip = "0.0.0.0" ∨
    s.MovesFaithfully ip (fun _ => some mac) ∧ s.ArrivesFaithfully ip (some mac)
  | .mdns _ _ => True
  | .neighbour ip mac _ =>
    s.MovesFaithfully ip (fun _ => some mac) ∧ s.ArrivesFaithfully ip (some mac)
  | .scan ip mac _ =>
    s.MovesFaithfully ip (fun old => mac.or old) ∧ s.ArrivesFaithfully ip mac
  | .agentReport ip mac => s.MovesFaithfully ip (fun _ => some mac)
  | .classification id trust => s.ClassifiesFaithfully id trust

instance (s : State) (e : Event) : Decidable (Faithful s e) :=
  match e with
  | .arp .. => inferInstanceAs (Decidable (_ ∨ _ ∧ _))
  | .mdns .. => inferInstanceAs (Decidable True)
  | .neighbour .. => inferInstanceAs (Decidable (_ ∧ _))
  | .scan .. => inferInstanceAs (Decidable (_ ∧ _))
  | .agentReport ip mac =>
    inferInstanceAs (Decidable (State.MovesFaithfully s ip fun _ => some mac))
  | .classification id trust =>
    inferInstanceAs (Decidable (State.ClassifiesFaithfully s id trust))

/-- Each row has the standing of its MAC, and a MAC that was classified has a row. -/
structure State.Settled (s : State) : Prop where
  trust_eq : ∀ row ∈ s.inventory.rows, ∀ mac, row.Carries mac →
    row.trustState = s.standing mac
  carried : ∀ mac, s.standing mac ≠ .unknown → ∃ row ∈ s.inventory.rows, row.Carries mac

namespace State.Settled

variable {s : State}

theorem empty : State.empty.Settled where
  trust_eq _ hrow := absurd hrow List.not_mem_nil
  carried _ h := absurd rfl h

open Inventory

variable {ip : String} {mac : Option Mac → Option Mac}

theorem update (h : s.Settled) (hmove : s.MovesFaithfully ip mac) (now : Option ℕ) :
    ({ s with inventory := s.inventory.update ip mac now } : State).Settled where
  trust_eq row hrow m hm := by
    obtain ⟨old, hold, rfl⟩ := mem_update.1 hrow
    rw [resight_trust]
    change old.trustState = s.standing m
    by_cases hip : old.ipAddress = ip
    · -- the row's new MAC is one that the row may speak for
      rw [resight, if_pos hip] at hm
      obtain ⟨m', hm', hup⟩ := map_eq_some_iff.1 hm
      rw [← s.standing_congr hup]
      rcases (hmove old hold hip).1 m' hm' with hcar | htrust
      · exact h.trust_eq old hold m' hcar
      · exact htrust
    · rw [resight, if_neg hip] at hm
      exact h.trust_eq old hold m hm
  carried m hm := by
    obtain ⟨old, hold, hcar⟩ := h.carried m hm
    by_cases hip : old.ipAddress = ip
    · obtain ⟨m₀, hm₀, hup⟩ := map_eq_some_iff.1 hcar
      rcases (hmove old hold hip).2 m₀ hm₀ with hkeep | hunknown | ⟨other, hother, hne, hcar'⟩
      · refine ⟨_, mem_update.2 ⟨old, hold, rfl⟩, ?_⟩
        rw [resight, if_pos hip]
        exact hkeep.trans (congrArg some hup)
      · exact absurd ((s.standing_congr hup).symm.trans hunknown) hm
      · refine ⟨_, mem_update.2 ⟨other, hother, rfl⟩, ?_⟩
        rw [resight, if_neg hne]
        exact hcar'.trans (congrArg some hup)
    · refine ⟨_, mem_update.2 ⟨old, hold, rfl⟩, ?_⟩
      rwa [resight, if_neg hip]

theorem insertOrUpdate (h : s.Settled)
    (hmove : s.MovesFaithfully ip mac) (harrive : s.ArrivesFaithfully ip (mac none)) (now : ℕ) :
    ({ s with inventory := s.inventory.insertOrUpdate ip mac now } : State).Settled := by
  rw [Inventory.insertOrUpdate]
  split_ifs with hnew
  · constructor
    · intro row hrow m hm
      rcases List.mem_cons.1 hrow with rfl | hold
      · obtain ⟨m', hm', hup⟩ := map_eq_some_iff.1 hm
        exact ((s.standing_congr hup).symm.trans (harrive hnew m' hm')).symm
      · exact h.trust_eq row hold m hm
    · intro m hm
      obtain ⟨row, hrow, hcar⟩ := h.carried m hm
      exact ⟨row, List.mem_cons_of_mem _ hrow, hcar⟩
  · exact h.update hmove _

variable {row : Row} {trust : TrustState} {v : Inventory}

private theorem standing_giveTo_of_carries {mac : Mac}
    (hcar : row.Carries mac) : (State.mk v (s.giveTo row trust)).standing mac = trust := by
  obtain ⟨m, hm, hup⟩ := map_eq_some_iff.1 hcar
  rw [State.giveTo, hm]
  change (Function.update s.given (upper m) (some trust) (upper mac)).getD .unknown = trust
  rw [hup, update_self]
  rfl

private theorem standing_giveTo_of_not_carries {mac : Mac} (hcar : ¬ row.Carries mac) :
    (State.mk v (s.giveTo row trust)).standing mac = s.standing mac := by
  rw [State.giveTo]
  split
  · next m hm =>
    have hne : upper mac ≠ upper m := fun heq => hcar (by rw [Row.Carries, hm, heq]; rfl)
    change (Function.update s.given (upper m) (some trust) (upper mac)).getD .unknown = _
    rw [update_of_ne hne]
    rfl
  · rfl

theorem classify (h : s.Settled) {id : ℕ} (hclass : s.ClassifiesFaithfully id trust)
    (hrow : s.inventory.findById id = some row) :
    (State.mk (s.inventory.classify id trust) (s.giveTo row trust)).Settled := by
  obtain ⟨hmem, hid⟩ := findById_eq_some_iff.1 hrow
  constructor
  · intro new hnew m hm
    obtain ⟨old, hold, rfl⟩ := mem_classify.1 hnew
    rw [Row.Carries, reclassify_mac] at hm
    by_cases hcar : row.Carries m
    · rw [standing_giveTo_of_carries hcar, reclassify]
      split_ifs with hold_id
      · rfl
      · obtain ⟨m', hm', hup⟩ := map_eq_some_iff.1 hcar
        exact hclass row hmem hid m' hm' old hold hold_id (hm.trans (congrArg some hup.symm))
    · rw [standing_giveTo_of_not_carries hcar, reclassify]
      split_ifs with hold_id
      · have heq : old = row := row_eq_of_id hold hmem (hold_id.trans hid.symm)
        exact absurd (heq ▸ hm) hcar
      · exact h.trust_eq old hold m hm
  · intro m hm
    have hold : ∃ old ∈ s.inventory.rows, old.Carries m := by
      by_cases hcar : row.Carries m
      · exact ⟨row, hmem, hcar⟩
      · rw [standing_giveTo_of_not_carries hcar] at hm
        exact h.carried m hm
    obtain ⟨old, hold, hcar⟩ := hold
    refine ⟨_, mem_classify.2 ⟨old, hold, rfl⟩, ?_⟩
    rwa [Row.Carries, reclassify_mac]

theorem movesFaithfully_id (s : State) (ip : String) : s.MovesFaithfully ip (fun old => old) := by
  intro row _ _
  exact ⟨fun m hm => .inl (Row.carries_of_mac hm), fun m hm => .inl (Row.carries_of_mac hm)⟩

theorem step (h : s.Settled) {e : Event} (he : Faithful s e) : (s.step e).Settled := by
  cases e with
  | arp _ _ now =>
    rw [State.step]
    split_ifs with hzero
    · exact h
    · obtain ⟨hmove, harrive⟩ := he.resolve_left hzero
      exact h.insertOrUpdate hmove harrive now
  | mdns ip now => exact h.insertOrUpdate (movesFaithfully_id s ip) (fun _ _ hm => nomatch hm) now
  | neighbour _ _ now => exact h.insertOrUpdate he.1 he.2 now
  | scan _ _ now =>
    refine h.insertOrUpdate he.1 ?_ now
    rw [or_none]
    exact he.2
  | agentReport ip mac =>
    have hmove : s.MovesFaithfully ip fun _ => some mac := he
    exact h.update hmove none
  | classification =>
    rw [State.step]
    split
    · exact h
    · next row hrow => exact h.classify he hrow

theorem decide_found (h : s.Settled) (p : RadiusPolicy) (mac : Mac) (pick : ℕ) :
    p.decide (lookupTrust s.inventory mac (.found pick)) = p.decide (s.given (upper mac)) := by
  rw [← p.decide_getD (s.given _)]
  change p.decide ((s.inventory.findByMac mac pick).map Row.trustState) =
    p.decide (some (s.standing mac))
  cases hfind : s.inventory.findByMac mac pick with
  | none =>
    -- a MAC without a row was never classified
    have hnone := findByMac_eq_none_iff.1 hfind
    have hunknown : s.standing mac = .unknown := by
      by_contra hne
      obtain ⟨row, hrow, hcar⟩ := h.carried mac hne
      exact hnone row hrow hcar
    rw [hunknown]
    rfl
  | some row =>
    obtain ⟨hrow, hcar⟩ := mem_of_findByMac hfind
    rw [← h.trust_eq row hrow mac hcar]
    rfl

end State.Settled

/-! ## The answers -/

/-- The answer is the one that the record determines, and an untrusted MAC is refused or put on the
quarantine VLAN. -/
def Admission (s : State) (lookup : Lookup) (p : RadiusPolicy) (req : AccessRequest) : Prop :=
  (∀ mac ∈ req.mabMac,
    handleAuth s.inventory lookup p req = p.decide (s.given (upper mac)) ∧
      (s.given (upper mac) = some .untrusted →
        handleAuth s.inventory lookup p req = .reject ∨
          handleAuth s.inventory lookup p req = .accept (some p.quarantineVlan))) ∧
    (req.mabMac = none → handleAuth s.inventory lookup p req = .reject)

instance (s : State) (lookup : Lookup) (p : RadiusPolicy) (req : AccessRequest) :
    Decidable (Admission s lookup p req) :=
  inferInstanceAs (Decidable ((∀ mac ∈ req.mabMac, _) ∧ (_ → _)))

/-- The lookup for a request succeeds, or is for a MAC that was not classified. -/
def LookupServes (s : State) (lookup : Lookup) (req : AccessRequest) : Prop :=
  lookup = .failed → ∀ mac ∈ req.mabMac, s.standing mac = .unknown

theorem State.Settled.decide_lookup {s : State} (h : s.Settled) (p : RadiusPolicy)
    {req : AccessRequest} {lookup : Lookup} (hlookup : LookupServes s lookup req) {mac : Mac}
    (hmac : mac ∈ req.mabMac) :
    p.decide (lookupTrust s.inventory mac lookup) = p.decide (s.given (upper mac)) := by
  cases lookup with
  | found pick => exact h.decide_found p mac pick
  | failed =>
    rw [← p.decide_getD (s.given _)]
    exact congrArg (p.decide ∘ some) (hlookup rfl mac hmac).symm

/-- Along faithful events, every request whose lookup serves it is answered as the classifications
of its MAC determine. -/
theorem admission_of_faithful {s : State}
    (h : Machine.Reached State.step Faithful State.empty s) (p : RadiusPolicy)
    (req : AccessRequest) {lookup : Lookup} (hlookup : LookupServes s lookup req) :
    Admission s lookup p req := by
  have hs : s.Settled := h.inv State.Settled.empty fun _ _ hs he => hs.step he
  constructor
  · intro mac hmac
    have hanswer : handleAuth s.inventory lookup p req = p.decide (s.given (upper mac)) := by
      rw [handleAuth, mem_def.1 hmac]
      exact hs.decide_lookup p hlookup hmac
    refine ⟨hanswer, fun hun => ?_⟩
    rw [hanswer, hun]
    exact p.decide_untrusted
  · intro hmac
    rw [handleAuth, hmac]

/-! ## Runs -/

def laptop : Mac := "aa:bb:cc:dd:ee:01"

def intruder : Mac := "aa:bb:cc:dd:ee:02"

def mabRequest (mac : Mac) : AccessRequest := ⟨false, false, false, some mac, none⟩

/-- Trusted devices go to VLAN 10, untrusted ones to VLAN 99, and unknown ones are admitted
without a VLAN. -/
def samplePolicy : RadiusPolicy := ⟨10, 99, "quarantine", "accept", 0⟩

/-- The state after a scan has found the laptop, the administrator has classified it, and
some further events. -/
def classifiedThen (trust : TrustState) (es : List Event) : State :=
  (.scan "10.0.0.5" (some laptop) 1 :: .classification 0 trust :: es).foldl State.step .empty

theorem admission_of_faithful_laptop :
    Admission (classifiedThen .untrusted [.mdns "10.0.0.5" 2, .arp "10.0.0.5" laptop 3])
      (.found 0) samplePolicy (mabRequest "AA-BB-CC-DD-EE-01") :=
  admission_of_faithful (Machine.reached_of_allows (by decide)) _ _ (fun h => nomatch h)

/-- An ARP packet gives its sender the trust of a laptop; an untrusted laptop at a new address is
unknown again; a failed lookup admits an untrusted laptop. -/
theorem not_admission :
    ¬ Admission (classifiedThen .trusted [.arp "10.0.0.5" intruder 2]) (.found 0)
        samplePolicy (mabRequest intruder) ∧
      ¬ Admission (classifiedThen .untrusted [.arp "10.0.0.6" laptop 2]) (.found 0)
        samplePolicy (mabRequest laptop) ∧
      ¬ Admission (classifiedThen .untrusted []) .failed samplePolicy (mabRequest laptop) := by
  decide

end Abyssal.Radius
