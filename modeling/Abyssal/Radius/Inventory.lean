import Abyssal.Table.Keyed
import Abyssal.Text.Basic

/-!
# Panopticon's device inventory

The inventory keeps one row per IP address. Its MAC is learnt from whatever speaks on the network,
its trust is written by an administrator. The lookup of the RADIUS server takes, of the rows with a
MAC, the one seen most recently. Texts that are only compared for equality are strings; a MAC
address is compared in upper case and is a list of characters.
-/

namespace Abyssal.Radius

open List

inductive TrustState where
  | unknown
  | trusted
  | untrusted
  deriving DecidableEq

abbrev Mac := Text

def upper (mac : Mac) : Mac := mac.map Char.toUpper

structure Row where
  id : ℕ
  ipAddress : String
  macAddress : Option Mac
  trustState : TrustState
  lastSeenAt : ℕ

/-- `row.Carries mac`: the row's MAC is `mac`, up to case. -/
def Row.Carries (row : Row) (mac : Mac) : Prop :=
  row.macAddress.map upper = some (upper mac)

instance (row : Row) (mac : Mac) : Decidable (row.Carries mac) :=
  inferInstanceAs (Decidable (_ = _))

theorem Row.carries_of_mac {row : Row} {mac : Mac} (h : row.macAddress = some mac) :
    row.Carries mac := by
  rw [Row.Carries, h]
  rfl

/-- The table of devices: no two rows share an id or an address, and ids are given out in
order. -/
structure Inventory where
  rows : List Row
  nextId : ℕ
  nodup_ip : (rows.map Row.ipAddress).Nodup
  nodup_id : (rows.map Row.id).Nodup
  id_lt : ∀ row ∈ rows, row.id < nextId

namespace Inventory

def empty : Inventory := ⟨[], 0, nodup_nil, nodup_nil, by simp⟩

variable (v : Inventory)

/-- Change rows in place, leaving their ids and addresses. -/
def mapRows (f : Row → Row) (hid : ∀ row, (f row).id = row.id)
    (hip : ∀ row, (f row).ipAddress = row.ipAddress) : Inventory where
  rows := v.rows.map f
  nextId := v.nextId
  nodup_ip := by
    rw [map_map, show Row.ipAddress ∘ f = Row.ipAddress from funext hip]
    exact v.nodup_ip
  nodup_id := by
    rw [map_map, show Row.id ∘ f = Row.id from funext hid]
    exact v.nodup_id
  id_lt := by
    intro row hrow
    obtain ⟨old, hold, rfl⟩ := mem_map.1 hrow
    rw [hid]
    exact v.id_lt old hold

variable (ip : String) (mac : Option Mac → Option Mac) (now : Option ℕ)

/-- The row that a sighting leaves of a row at its address. -/
def resight (row : Row) : Row :=
  if row.ipAddress = ip then
    { row with macAddress := mac row.macAddress, lastSeenAt := now.getD row.lastSeenAt }
  else row

@[simp] theorem resight_id (row : Row) : (resight ip mac now row).id = row.id := by
  rw [resight]; split_ifs <;> rfl

@[simp] theorem resight_ip (row : Row) : (resight ip mac now row).ipAddress = row.ipAddress := by
  rw [resight]; split_ifs <;> rfl

@[simp] theorem resight_trust (row : Row) :
    (resight ip mac now row).trustState = row.trustState := by
  rw [resight]; split_ifs <;> rfl

/-- `UPDATE … WHERE ip_address = ip`. -/
def update : Inventory :=
  v.mapRows (resight ip mac now) (resight_id ip mac now) (resight_ip ip mac now)

/-- `INSERT` of a row at a new address: its trust is the column's default. -/
def insert (mac : Option Mac) (now : ℕ) (h : ∀ row ∈ v.rows, row.ipAddress ≠ ip) : Inventory where
  rows := ⟨v.nextId, ip, mac, .unknown, now⟩ :: v.rows
  nextId := v.nextId + 1
  nodup_ip := by
    rw [map_cons, nodup_cons]
    refine ⟨fun hmem => ?_, v.nodup_ip⟩
    obtain ⟨row, hrow, hip⟩ := mem_map.1 hmem
    exact h row hrow hip
  nodup_id := by
    rw [map_cons, nodup_cons]
    refine ⟨fun hmem => ?_, v.nodup_id⟩
    obtain ⟨row, hrow, hid⟩ := mem_map.1 hmem
    exact absurd hid (v.id_lt row hrow).ne
  id_lt := by
    intro row hrow
    rcases mem_cons.1 hrow with rfl | hold
    · exact Nat.lt_succ_self _
    · exact (v.id_lt row hold).trans (Nat.lt_succ_self _)

/-- `INSERT … ON DUPLICATE KEY UPDATE`: the MAC written to a row already there is a
function of the one it has. -/
def insertOrUpdate (now : ℕ) : Inventory :=
  if h : ∀ row ∈ v.rows, row.ipAddress ≠ ip then v.insert ip (mac none) now h
  else v.update ip mac (some now)

/-- What a scan found at an address. A scan that saw no MAC keeps the one known. -/
def upsert (mac : Option Mac) (now : ℕ) : Inventory :=
  v.insertOrUpdate ip (fun old => mac.or old) now

/-- A passive sighting by ARP or in the kernel's neighbour table. -/
def touch (mac : Mac) (now : ℕ) : Inventory :=
  v.insertOrUpdate ip (fun _ => some mac) now

def noteSighting (mac : Option Mac) (now : ℕ) : Inventory :=
  v.insertOrUpdate ip (fun old => mac.or old) now

/-- It never creates a row and does not count as a sighting. -/
def enrichFromAgent (mac : Mac) : Inventory :=
  v.update ip (fun _ => some mac) none

variable (id : ℕ) (trust : TrustState)

def reclassify (row : Row) : Row :=
  if row.id = id then { row with trustState := trust } else row

@[simp] theorem reclassify_id (row : Row) : (reclassify id trust row).id = row.id := by
  rw [reclassify]; split_ifs <;> rfl

@[simp] theorem reclassify_ip (row : Row) :
    (reclassify id trust row).ipAddress = row.ipAddress := by
  rw [reclassify]; split_ifs <;> rfl

@[simp] theorem reclassify_mac (row : Row) :
    (reclassify id trust row).macAddress = row.macAddress := by
  rw [reclassify]; split_ifs <;> rfl

/-- An administrator's classification of the row with the given id. -/
def classify : Inventory :=
  v.mapRows (reclassify id trust) (reclassify_id id trust) (reclassify_ip id trust)

def findById : Option Row := v.rows.find? (·.id = id)

def withMac (mac : Mac) : List Row := v.rows.filter (·.Carries mac)

def newest (mac : Mac) : List Row :=
  (v.withMac mac).filter fun row => ∀ other ∈ v.withMac mac, other.lastSeenAt ≤ row.lastSeenAt

/-- Of the most recent rows that carry the MAC the database returns one; `pick` says which. -/
def findByMac (mac : Mac) (pick : ℕ) : Option Row :=
  (v.newest mac)[pick % (v.newest mac).length]?

variable {v} {row : Row}

theorem mem_update {ip : String} {mac : Option Mac → Option Mac} {now : Option ℕ} :
    row ∈ (v.update ip mac now).rows ↔ ∃ old ∈ v.rows, resight ip mac now old = row :=
  mem_map

theorem mem_classify {id : ℕ} {trust : TrustState} :
    row ∈ (v.classify id trust).rows ↔ ∃ old ∈ v.rows, reclassify id trust old = row :=
  mem_map

theorem row_eq_of_id {row' : Row} (h : row ∈ v.rows) (h' : row' ∈ v.rows)
    (hid : row.id = row'.id) : row = row' :=
  inj_on_of_nodup_map v.nodup_id h h' hid

theorem findById_eq_some_iff {id : ℕ} : v.findById id = some row ↔ row ∈ v.rows ∧ row.id = id :=
  Table.find?_eq_some_iff v.nodup_id

variable {mac : Mac}

theorem mem_withMac : row ∈ v.withMac mac ↔ row ∈ v.rows ∧ row.Carries mac := by
  rw [withMac, mem_filter, decide_eq_true_eq]

theorem newest_ne_nil (h : v.withMac mac ≠ []) : v.newest mac ≠ [] := by
  obtain ⟨row, hrow⟩ : ∃ row, row ∈ (v.withMac mac).argmax Row.lastSeenAt := by
    cases hmax : (v.withMac mac).argmax Row.lastSeenAt with
    | none => exact absurd (argmax_eq_none.1 hmax) h
    | some row => exact ⟨row, rfl⟩
  have hmem : row ∈ v.newest mac := by
    rw [newest, mem_filter, decide_eq_true_eq]
    exact ⟨argmax_mem hrow, fun other hother => le_of_mem_argmax hother hrow⟩
  exact ne_nil_of_mem hmem

theorem mem_of_findByMac {pick : ℕ}
    (h : v.findByMac mac pick = some row) : row ∈ v.rows ∧ row.Carries mac :=
  mem_withMac.1 (mem_filter.1 (mem_of_getElem? h)).1

theorem findByMac_eq_none_iff {pick : ℕ} :
    v.findByMac mac pick = none ↔ ∀ row ∈ v.rows, ¬ row.Carries mac := by
  rw [findByMac, getElem?_eq_none_iff]
  constructor
  · intro h row hrow hmac
    have hne := newest_ne_nil (ne_nil_of_mem (mem_withMac.2 ⟨hrow, hmac⟩))
    exact absurd h (Nat.not_le.2 (Nat.mod_lt _ (length_pos_of_ne_nil hne)))
  · intro h
    have hnil : v.newest mac = [] := by
      refine eq_nil_iff_forall_not_mem.2 fun row hrow => ?_
      obtain ⟨hrow', hmac⟩ := mem_withMac.1 (mem_filter.1 hrow).1
      exact h row hrow' hmac
    simp [hnil]

end Inventory

end Abyssal.Radius
