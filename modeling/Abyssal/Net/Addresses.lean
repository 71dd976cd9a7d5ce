import Abyssal.Net.Numerals

/-!
# Internet addresses as text

The two kinds of internet addresses, their bytes, the text they are shown as and the reader
of that text. A version 6 address is shown with its longest run of zero groups left out, and
with a dotted quad at its end where it maps a version 4 address.
-/

namespace Abyssal.Net

open List

/-! ## Addresses -/

structure Ipv4Addr where
  a : UInt8
  b : UInt8
  c : UInt8
  d : UInt8
  deriving DecidableEq

structure Ipv6Addr where
  segments : List UInt16
  length_segments : segments.length = 8
  deriving DecidableEq

inductive IpAddr
  | v4 (ip : Ipv4Addr)
  | v6 (ip : Ipv6Addr)
  deriving DecidableEq

def IpAddr.isIpv4 : IpAddr → Bool
  | .v4 _ => true
  | .v6 _ => false

/-! ## Bytes -/

def high (g : UInt16) : UInt8 := UInt8.ofNat (g.toNat / 256)

def low (g : UInt16) : UInt8 := UInt8.ofNat (g.toNat % 256)

def group (hi lo : UInt8) : UInt16 := UInt16.ofNat (hi.toNat * 256 + lo.toNat)

@[simp] theorem group_high_low (g : UInt16) : group (high g) (low g) = g := by
  have hg := g.toNat_lt
  apply UInt16.toNat_inj.1
  simp only [group, high, low, UInt16.toNat_ofNat', UInt8.toNat_ofNat']
  omega

def IpAddr.octets : IpAddr → List UInt8
  | .v4 ip => [ip.a, ip.b, ip.c, ip.d]
  | .v6 ip => ip.segments.flatMap fun g => [high g, low g]

def groups : List UInt8 → List UInt16
  | hi :: lo :: bytes => group hi lo :: groups bytes
  | _ => []

theorem length_groups (bytes : List UInt8) : (groups bytes).length = bytes.length / 2 := by
  induction bytes using groups.induct with
  | case1 _ _ _ ih =>
    rw [groups, length_cons, length_cons, length_cons]
    omega
  | case2 bytes h =>
    match bytes, h with
    | [], _ => rfl
    | [_], _ => simp [groups]
    | hi :: lo :: bytes, h => exact absurd rfl (h hi lo bytes)

theorem groups_flatMap (segments : List UInt16) :
    groups (segments.flatMap fun g => [high g, low g]) = segments := by
  induction segments with
  | nil => rfl
  | cons _ _ ih =>
    rw [flatMap_cons, cons_append, cons_append, nil_append, groups, ih, group_high_low]

def Ipv4Addr.ofOctets : List UInt8 → Option Ipv4Addr
  | [a, b, c, d] => some ⟨a, b, c, d⟩
  | _ => none

def Ipv6Addr.ofOctets (bytes : List UInt8) : Option Ipv6Addr :=
  if h : bytes.length = 16 then some ⟨groups bytes, by rw [length_groups, h]⟩ else none

variable (ip : Ipv6Addr)

theorem Ipv6Addr.length_octets : (IpAddr.octets (.v6 ip)).length = 16 := by
  have hlen : ∀ segments : List UInt16,
      (segments.flatMap fun g => [high g, low g]).length = 2 * segments.length := by
    intro segments
    induction segments with
    | nil => rfl
    | cons _ _ ih =>
      rw [flatMap_cons, length_append, length_cons, length_cons, length_nil, length_cons]
      omega
  rw [IpAddr.octets, hlen, ip.length_segments]

@[simp] theorem Ipv6Addr.ofOctets_octets : ofOctets (IpAddr.octets (.v6 ip)) = some ip := by
  rw [ofOctets, dif_pos ip.length_octets]
  congr
  exact groups_flatMap ip.segments

/-! ## Text -/

def Ipv4Addr.display (ip : Ipv4Addr) : Text :=
  showNumber 10 3 ip.a.toNat ++ '.' :: (showNumber 10 3 ip.b.toNat ++
    '.' :: (showNumber 10 3 ip.c.toNat ++ '.' :: showNumber 10 3 ip.d.toNat))

def showGroups : List UInt16 → Text
  | [] => []
  | g :: gs =>
    showNumber 16 4 g.toNat ++ gs.flatMap fun g => ':' :: showNumber 16 4 g.toNat

/-- A run of groups: where it begins and how many there are. -/
structure Span where
  start : ℕ
  len : ℕ

def longestZeroes (i : ℕ) (longest current : Span) : List UInt16 → Span
  | [] => longest
  | g :: gs =>
    if g = 0 then
      let current : Span :=
        ⟨if current.len = 0 then i else current.start, current.len + 1⟩
      longestZeroes (i + 1) (if longest.len < current.len then current else longest) current gs
    else longestZeroes (i + 1) longest ⟨0, 0⟩ gs

def Ipv6Addr.toIpv4Mapped : Option Ipv4Addr :=
  if ip.segments.take 6 = [0, 0, 0, 0, 0, 0xffff] then
    Ipv4Addr.ofOctets ((ip.segments.drop 6).flatMap fun g => [high g, low g])
  else none

def Ipv6Addr.display : Text :=
  match ip.toIpv4Mapped with
  | some ipv4 => "::ffff:" ++ ipv4.display
  | none =>
    let zeroes := longestZeroes 0 ⟨0, 0⟩ ⟨0, 0⟩ ip.segments
    if 1 < zeroes.len then
      showGroups (ip.segments.take zeroes.start) ++
        ':' :: ':' :: showGroups (ip.segments.drop (zeroes.start + zeroes.len))
    else showGroups ip.segments

def IpAddr.display : IpAddr → Text
  | .v4 ip => ip.display
  | .v6 ip => ip.display

/-! ## Reading -/

def readChar (c : Char) : Text → Option Text
  | [] => none
  | d :: s => if d = c then some s else none

/-- Reads something that a separator stands before, except at the first place. -/
def readSeparator {α : Type} (separator : Char) (index : ℕ)
    (inner : Text → Option (α × Text)) (s : Text) : Option (α × Text) :=
  if 0 < index then (readChar separator s).bind inner else inner s

def readOctet (s : Text) : Option (UInt8 × Text) :=
  (readNumber 10 3 false 256 s).map fun r => (UInt8.ofNat r.1, r.2)

def readGroup (s : Text) : Option (UInt16 × Text) :=
  (readNumber 16 4 true 65536 s).map fun r => (UInt16.ofNat r.1, r.2)

def readIpv4 (s : Text) : Option (Ipv4Addr × Text) := do
  let (a, s) ← readSeparator '.' 0 readOctet s
  let (b, s) ← readSeparator '.' 1 readOctet s
  let (c, s) ← readSeparator '.' 2 readOctet s
  let (d, s) ← readSeparator '.' 3 readOctet s
  some (⟨a, b, c, d⟩, s)

/-- Up to `left` groups, from index `i`. Where two are left they may stand as a dotted quad. -/
def readGroups (i : ℕ) : ℕ → Text → List UInt16 × Bool × Text
  | 0, s => ([], false, s)
  | left + 1, s =>
    match if 0 < left then readSeparator ':' i readIpv4 s else none with
    | some (ip, rest) => ([group ip.a ip.b, group ip.c ip.d], true, rest)
    | none =>
      match readSeparator ':' i readGroup s with
      | some (g, rest) =>
        let (gs, ipv4, rest) := readGroups (i + 1) left rest
        (g :: gs, ipv4, rest)
      | none => ([], false, s)

/-- Eight groups, or the groups before and after a double colon, which stands for at least one group
of zeros. -/
def readIpv6 (s : Text) : Option (Ipv6Addr × Text) :=
  let (head, headIpv4, rest) := readGroups 0 8 s
  if h : head.length = 8 then some (⟨head, h⟩, rest)
  else if headIpv4 then none
  else do
    let rest ← readChar ':' rest
    let rest ← readChar ':' rest
    let (tail, _, rest) := readGroups 0 (8 - (head.length + 1)) rest
    let segments := head ++ replicate (8 - tail.length - head.length) 0 ++ tail
    if h : segments.length = 8 then some (⟨segments, h⟩, rest) else none

def readIp (s : Text) : Option (IpAddr × Text) :=
  match readIpv4 s with
  | some (ip, rest) => some (.v4 ip, rest)
  | none => (readIpv6 s).map fun r => (.v6 r.1, r.2)

def IpAddr.parse (s : Text) : Option IpAddr :=
  match readIp s with
  | some (ip, []) => some ip
  | _ => none

end Abyssal.Net
