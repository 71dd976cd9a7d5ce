import Abyssal.Net.Addresses

/-!
# Reading the text of an internet address

An address is read back from the text it is shown as, and a text that reads as an address
has a colon or is made of decimal digits and dots.
-/

namespace Abyssal.Net

open List Option

/-! ## Dotted quads -/

variable {rest : Text}

open Nat

theorem readOctet_showNumber (n : UInt8) (h : Stops 10 rest) :
    readOctet (showNumber 10 3 n.toNat ++ rest) = some (n, rest) := by
  have hn := n.toNat_lt
  have hpow : n.toNat < Nat.pow 10 3 := Nat.lt_trans hn (by decide)
  rw [readOctet, readNumber_showNumber false (by decide) hpow hn h, map_some, UInt8.ofNat_toNat]

theorem readSeparator_cons {α : Type} (c : Char) (i : ℕ)
    (inner : Text → Option (α × Text)) (s : Text) :
    readSeparator c (i + 1) inner (c :: s) = inner s := by
  rw [readSeparator, if_pos i.succ_pos, readChar, if_pos rfl, bind_some]

variable {c : Char}

theorem stops_cons {radix : ℕ} (h : toDigit radix c = none) (s : Text) : Stops radix (c :: s) := by
  intro d hd
  rwa [← some.inj hd]

theorem stops_nil (radix : ℕ) : Stops radix [] := nofun

theorem readIpv4_display (ip : Ipv4Addr) (h : Stops 10 rest) :
    readIpv4 (ip.display ++ rest) = some (ip, rest) := by
  have hdot : ∀ s, Stops 10 ('.' :: s) := stops_cons (by decide)
  rw [readIpv4, Ipv4Addr.display]
  simp only [append_assoc, cons_append, bind_eq_bind]
  rw [readSeparator, if_neg (Nat.lt_irrefl 0), readOctet_showNumber ip.a (hdot _), bind_some]
  dsimp only
  rw [readSeparator_cons, readOctet_showNumber ip.b (hdot _), bind_some]
  dsimp only
  rw [readSeparator_cons, readOctet_showNumber ip.c (hdot _), bind_some]
  dsimp only
  rw [readSeparator_cons, readOctet_showNumber ip.d h, bind_some]

variable {s : Text}

theorem eq_cons_of_readChar (h : readChar c s = some rest) : s = c :: rest := by
  cases s with
  | nil => cases h
  | cons =>
    rw [readChar] at h
    split_ifs at h with hd
    rw [hd, some.inj h]

theorem eq_append_of_readOctet {n : UInt8} (h : readOctet s = some (n, rest)) :
    ∃ run, s = run ++ rest ∧ run ≠ [] ∧ ∀ c ∈ run, toDigit 10 c ≠ none := by
  rw [readOctet] at h
  obtain ⟨⟨_, _⟩, hread, hmr⟩ := map_eq_some_iff.1 h
  cases hmr
  exact eq_append_of_readNumber hread

theorem eq_cons_append_of_readSeparator {i : ℕ} {n : UInt8}
    (h : readSeparator '.' (i + 1) readOctet s = some (n, rest)) :
    ∃ run, s = '.' :: run ++ rest ∧ ∀ c ∈ run, toDigit 10 c ≠ none := by
  rw [readSeparator] at h
  obtain ⟨_, hchar, hread⟩ := bind_eq_some_iff.1 h
  obtain ⟨run, rfl, -, hrun⟩ := eq_append_of_readOctet hread
  exact ⟨run, eq_cons_of_readChar hchar, hrun⟩

theorem eq_append_of_readIpv4 {s rest : Text} {ip : Ipv4Addr} (h : readIpv4 s = some (ip, rest)) :
    ∃ run, s = run ++ rest ∧ '.' ∈ run ∧ ∀ c ∈ run, toDigit 10 c ≠ none ∨ c = '.' := by
  rw [readIpv4] at h
  simp only [bind_eq_bind, bind_eq_some_iff] at h
  obtain ⟨⟨_, _⟩, ha, ⟨_, _⟩, hb, ⟨_, _⟩, hc, ⟨_, _⟩, hd, hip⟩ := h
  cases hip
  rw [readSeparator] at ha
  obtain ⟨ra, rfl, -, hra⟩ := eq_append_of_readOctet ha
  obtain ⟨rb, rfl, hrb⟩ := eq_cons_append_of_readSeparator hb
  obtain ⟨rc, rfl, hrc⟩ := eq_cons_append_of_readSeparator hc
  obtain ⟨rd, rfl, hrd⟩ := eq_cons_append_of_readSeparator hd
  refine ⟨ra ++ '.' :: rb ++ '.' :: rc ++ '.' :: rd, by simp, by simp, ?_⟩
  intro e he
  simp only [mem_append, mem_cons] at he
  rcases he with ((he | rfl | he) | rfl | he) | rfl | he
  · exact .inl (hra e he)
  · exact .inr rfl
  · exact .inl (hrb e he)
  · exact .inr rfl
  · exact .inl (hrc e he)
  · exact .inr rfl
  · exact .inl (hrd e he)

theorem readIpv4_eq_none (h : '.' ∉ s) : readIpv4 s = none := by
  cases hread : readIpv4 s with
  | none => rfl
  | some r =>
    obtain ⟨_, hs, hdot, -⟩ := @eq_append_of_readIpv4 s r.2 r.1 hread
    exact absurd (hs ▸ mem_append_left _ hdot) h

theorem readIpv4_of_stops (h : Stops 10 s) : readIpv4 s = none := by
  rw [readIpv4, readSeparator, readOctet, readNumber_of_stops h]
  rfl

/-! ## Runs of groups -/

theorem readGroup_showNumber (g : UInt16) (h : Stops 16 rest) :
    readGroup (showNumber 16 4 g.toNat ++ rest) = some (g, rest) := by
  have hg : g.toNat < 65536 := g.toNat_lt
  have hpow : g.toNat < Nat.pow 16 4 := hg
  rw [readGroup, readNumber_showNumber true (by decide) hpow hg h, map_some, UInt16.ofNat_toNat]

/-- What may follow a run of groups: nothing, or a double colon. -/
def Ends (s : Text) : Prop := s = [] ∨ ∃ t, s = ':' :: ':' :: t

theorem Ends.stops (h : Ends s) : Stops 16 s := by
  rcases h with rfl | ⟨t, rfl⟩
  · exact stops_nil 16
  · exact stops_cons (by decide) _

theorem Ends.readSeparator_readGroup (h : Ends s) (i : ℕ) :
    readSeparator ':' i readGroup s = none := by
  have hnone : ∀ {t}, Stops 16 t → readGroup t = none := by
    intro t ht
    rw [readGroup, readNumber_of_stops ht, map_none]
  rw [readSeparator]
  split_ifs with hi
  · rcases h with rfl | ⟨t, rfl⟩
    · rfl
    · rw [readChar, if_pos rfl]
      exact hnone (stops_cons (by decide) _)
  · exact hnone h.stops

theorem readSeparator_readIpv4 (h : '.' ∉ s) (i : ℕ) : readSeparator ':' i readIpv4 s = none := by
  rw [readSeparator]
  split_ifs with hi
  · cases hchar : readChar ':' s with
    | none => rfl
    | some =>
      rw [bind_some]
      apply readIpv4_eq_none
      intro hmem
      rw [eq_cons_of_readChar hchar] at h
      exact h (mem_cons_of_mem _ hmem)
  · exact readIpv4_eq_none h

theorem readGroups_succ {i left : ℕ} {g : UInt16} (hdot : '.' ∉ s)
    (h : readSeparator ':' i readGroup s = some (g, rest)) :
    readGroups i (left + 1) s =
      (g :: (readGroups (i + 1) left rest).1, (readGroups (i + 1) left rest).2) := by
  rw [readGroups, readSeparator_readIpv4 hdot, ite_self, h]

theorem readGroups_of_ends (h : Ends s) (hdot : '.' ∉ s) (i left : ℕ) :
    readGroups i left s = ([], false, s) := by
  cases left with
  | zero => rfl
  | succ =>
    rw [readGroups, readSeparator_readIpv4 hdot, ite_self, h.readSeparator_readGroup]

def isAddressChar (c : Char) : Bool :=
  ('0' ≤ c && c ≤ '9') || ('a' ≤ c && c ≤ 'f') || c = ':' || c = '.'

theorem of_mem_showNumber {radix k n : ℕ} (hradix : 0 < radix ∧ radix ≤ 16)
    (h : c ∈ showNumber radix k n) : isAddressChar c ∧ c ≠ '.' := by
  have hall : ∀ e ∈ range 16, isAddressChar (digitChar e) ∧ digitChar e ≠ '.' := by decide
  obtain ⟨d, hd, rfl⟩ := mem_map.1 h
  exact hall d (mem_range.2 (Nat.lt_of_lt_of_le (lt_of_mem_digitsOf hradix.1 hd) hradix.2))

/-- The groups after the first one, with the colons before them. -/
def showTail (gs : List UInt16) : Text :=
  gs.flatMap fun g => ':' :: showNumber 16 4 g.toNat

theorem showTail_cons (g : UInt16) (gs : List UInt16) :
    showTail (g :: gs) = ':' :: (showNumber 16 4 g.toNat ++ showTail gs) := rfl

variable (gs : List UInt16)

variable {gs} in
theorem of_mem_showTail (h : c ∈ showTail gs) : isAddressChar c ∧ c ≠ '.' := by
  obtain ⟨_, -, h⟩ := mem_flatMap.1 h
  rcases mem_cons.1 h with rfl | h
  · decide
  · exact of_mem_showNumber (by decide) h

variable {gs} in
theorem of_mem_showGroups (h : c ∈ showGroups gs) : isAddressChar c ∧ c ≠ '.' := by
  cases gs with
  | nil => cases h
  | cons => exact (mem_append.1 h).elim (of_mem_showNumber (by decide)) of_mem_showTail

theorem dot_not_mem_showTail : '.' ∉ showTail gs := fun h => (of_mem_showTail h).2 rfl

theorem dot_not_mem_showGroups : '.' ∉ showGroups gs := fun h => (of_mem_showGroups h).2 rfl

theorem stops_showTail (h : Ends rest) : Stops 16 (showTail gs ++ rest) := by
  cases gs with
  | nil => exact h.stops
  | cons => exact stops_cons (by decide) _

theorem readGroups_showTail (hrest : Ends rest) (hdot : '.' ∉ rest)
    (gs : List UInt16) (i left : ℕ) (hleft : gs.length ≤ left) :
    readGroups (i + 1) left (showTail gs ++ rest) = (gs, false, rest) := by
  induction gs generalizing i left with
  | nil => exact readGroups_of_ends hrest hdot (i + 1) left
  | cons g gs ih =>
    cases left with
    | zero => exact absurd hleft (not_succ_le_zero _)
    | succ left =>
      have hread : readSeparator ':' (i + 1) readGroup (showTail (g :: gs) ++ rest) =
          some (g, showTail gs ++ rest) := by
        rw [showTail_cons, cons_append, readSeparator_cons, append_assoc,
          readGroup_showNumber g (stops_showTail gs hrest)]
      have hmem : '.' ∉ showTail (g :: gs) ++ rest :=
        fun h => (mem_append.1 h).elim (dot_not_mem_showTail _) hdot
      rw [readGroups_succ hmem hread, ih (i + 1) left (le_of_succ_le_succ hleft)]

theorem readGroups_showGroups {rest : Text} (hrest : Ends rest) (hdot : '.' ∉ rest)
    {gs : List UInt16} {left : ℕ} (hleft : gs.length ≤ left) :
    readGroups 0 left (showGroups gs ++ rest) = (gs, false, rest) := by
  cases gs with
  | nil => exact readGroups_of_ends hrest hdot 0 left
  | cons g gs =>
    cases left with
    | zero => exact absurd hleft (not_succ_le_zero _)
    | succ left =>
      have hread : readSeparator ':' 0 readGroup (showGroups (g :: gs) ++ rest) =
          some (g, showTail gs ++ rest) := by
        rw [showGroups, append_assoc, readSeparator]
        exact readGroup_showNumber g (stops_showTail gs hrest)
      have hmem : '.' ∉ showGroups (g :: gs) ++ rest :=
        fun h => (mem_append.1 h).elim (dot_not_mem_showGroups _) hdot
      rw [readGroups_succ hmem hread,
        readGroups_showTail hrest hdot gs 0 left (le_of_succ_le_succ hleft)]

/-! ## The run of zeros -/

def Span.Zeroes (z : Span) (segments : List UInt16) : Prop :=
  segments = segments.take z.start ++ replicate z.len 0 ++
    segments.drop (z.start + z.len)

theorem Span.zeroes_append (before after : List UInt16) (n : ℕ) :
    Span.Zeroes ⟨before.length, n⟩ (before ++ replicate n 0 ++ after) := by
  have hlen : before.length + n = (before ++ replicate n (0 : UInt16)).length := by
    rw [length_append, length_replicate]
  rw [Span.Zeroes]
  dsimp only
  rw [hlen, drop_left, append_assoc before, take_left, append_assoc]

theorem zeroes_longestZeroes {segments : List UInt16} (rest : List UInt16) :
    ∀ (before : List UInt16) (i : ℕ) (longest current : Span),
      segments = before ++ replicate current.len 0 ++ rest →
      i = before.length + current.len → (current.len ≠ 0 → current.start = before.length) →
      longest.Zeroes segments → (longestZeroes i longest current rest).Zeroes segments := by
  induction rest with
  | nil => exact fun _ _ _ _ _ _ _ h => h
  | cons g rest ih =>
    intro before i longest current hsegments hi hstart hlongest
    rw [longestZeroes]
    by_cases hg : g = 0
    · rw [if_pos hg]
      subst hg
      have hstart' : (if current.len = 0 then i else current.start) = before.length := by
        split_ifs with hlen
        · rw [hi, hlen, Nat.add_zero]
        · exact hstart hlen
      have hsegments' : segments = before ++ replicate (current.len + 1) 0 ++ rest := by
        rw [hsegments, replicate_succ', append_assoc, append_assoc, append_assoc]
        rfl
      refine ih before (i + 1) _ _ hsegments' (by dsimp only; omega) (fun _ => hstart') ?_
      rw [hstart']
      split_ifs
      · rw [hsegments']
        exact Span.zeroes_append before rest _
      · exact hlongest
    · rw [if_neg hg]
      refine ih (before ++ replicate current.len 0 ++ [g]) (i + 1) longest ⟨0, 0⟩ ?_ ?_
        (fun h => absurd rfl h) hlongest
      · rw [hsegments, replicate_zero, append_nil, append_assoc _ [g] rest]
        rfl
      · rw [hi, length_append, length_append, length_replicate]
        rfl

/-! ## Version 6 addresses -/

theorem Stops.decimal (h : Stops 16 s) : Stops 10 s := by
  intro c hc
  have h16 := h c hc
  simp only [toDigit] at h16 ⊢
  split_ifs at h16 ⊢ <;> first | rfl | omega

theorem readGroups_of_stops (h : Stops 16 s) (left : ℕ) : readGroups 0 left s = ([], false, s) := by
  cases left with
  | zero => rfl
  | succ =>
    have hipv4 : readSeparator ':' 0 readIpv4 s = none := readIpv4_of_stops h.decimal
    have hgroup : readSeparator ':' 0 readGroup s = none := by
      rw [readSeparator, if_neg (Nat.lt_irrefl 0), readGroup, readNumber_of_stops h, map_none]
    rw [readGroups, hipv4, ite_self, hgroup]

variable {ip : Ipv6Addr}

theorem readIpv6_of_doubleColon {middle : Text}
    {head tail : List UInt16} {ipv4 : Bool} {n : ℕ} (hn : 0 < n)
    (hip : ip.segments = head ++ replicate n 0 ++ tail)
    (hhead : readGroups 0 8 s = (head, false, ':' :: ':' :: middle))
    (htail : readGroups 0 (8 - (head.length + 1)) middle = (tail, ipv4, rest)) :
    readIpv6 s = some (ip, rest) := by
  have hlen := ip.length_segments
  rw [hip, length_append, length_append, length_replicate] at hlen
  have hzeroes : 8 - tail.length - head.length = n := by omega
  have hsegments : (head ++ replicate n 0 ++ tail).length = 8 := hip ▸ ip.length_segments
  rw [readIpv6, hhead]
  dsimp only
  rw [dif_neg (by omega), if_neg Bool.false_ne_true]
  simp only [readChar, if_true, bind_eq_bind, bind_some, htail, hzeroes]
  rw [dif_pos hsegments]
  congr
  exact hip.symm

theorem Ipv6Addr.segments_of_toIpv4Mapped {ipv4 : Ipv4Addr} (h : ip.toIpv4Mapped = some ipv4) :
    ip.segments = [] ++ replicate 5 0 ++ [0xffff, group ipv4.a ipv4.b, group ipv4.c ipv4.d] := by
  rw [toIpv4Mapped] at h
  split_ifs at h with htake
  have hlen : (ip.segments.drop 6).length = 2 := by rw [length_drop, ip.length_segments]
  obtain ⟨x, y, hxy⟩ := length_eq_two.1 hlen
  rw [hxy] at h
  obtain rfl : (⟨high x, low x, high y, low y⟩ : Ipv4Addr) = ipv4 := some.inj h
  rw [← take_append_drop 6 ip.segments, htake, hxy, group_high_low, group_high_low]
  rfl

theorem readGroups_mapped (ipv4 : Ipv4Addr) :
    readGroups 0 7 ("ffff:" ++ ipv4.display) =
      ([0xffff, group ipv4.a ipv4.b, group ipv4.c ipv4.d], true, []) := by
  have hfirst : readSeparator ':' 0 readIpv4 ("ffff:" ++ ipv4.display) = none :=
    readIpv4_of_stops (stops_cons (by decide) _)
  have hgroup : readSeparator ':' 0 readGroup ("ffff:" ++ ipv4.display) =
      some (0xffff, ':' :: ipv4.display) := by
    have htext : "ffff:" ++ ipv4.display =
        showNumber 16 4 (0xffff : UInt16).toNat ++ ':' :: ipv4.display := rfl
    rw [readSeparator]
    exact readGroup_showNumber 0xffff (stops_cons (by decide) ipv4.display)
  have hlast : readSeparator ':' 1 readIpv4 (':' :: ipv4.display) = some (ipv4, []) := by
    have hread := readIpv4_display ipv4 (stops_nil 10)
    rwa [append_nil] at hread
  have hmapped : readGroups 1 6 (':' :: ipv4.display) =
      ([group ipv4.a ipv4.b, group ipv4.c ipv4.d], true, []) := by
    rw [readGroups, if_pos (by decide), hlast]
  rw [readGroups, if_pos (by decide), hfirst, hgroup]
  dsimp only
  rw [hmapped]

theorem readIpv6_display (ip : Ipv6Addr) : readIpv6 ip.display = some (ip, []) := by
  rw [Ipv6Addr.display]
  cases hmapped : ip.toIpv4Mapped with
  | some ipv4 =>
    have hstops : Stops 16 ("::ffff:" ++ ipv4.display) := stops_cons (by decide) _
    exact readIpv6_of_doubleColon (n := 5) (by decide) (Ipv6Addr.segments_of_toIpv4Mapped hmapped)
      (readGroups_of_stops hstops 8) (readGroups_mapped ipv4)
  | none =>
    dsimp only
    have hzeroes : (longestZeroes 0 ⟨0, 0⟩ ⟨0, 0⟩ ip.segments).Zeroes ip.segments :=
      zeroes_longestZeroes ip.segments [] 0 ⟨0, 0⟩ ⟨0, 0⟩ rfl rfl (fun h => absurd rfl h)
        (Span.zeroes_append [] ip.segments 0)
    generalize longestZeroes 0 ⟨0, 0⟩ ⟨0, 0⟩ ip.segments = z at hzeroes
    split_ifs with hz
    · have hlen := congrArg length hzeroes
      rw [ip.length_segments, length_append, length_append, length_replicate] at hlen
      have hdot : '.' ∉ ':' :: ':' :: showGroups (ip.segments.drop (z.start + z.len)) := by
        intro h
        simp only [mem_cons] at h
        rcases h with h | h | h
        · cases h
        · cases h
        · exact dot_not_mem_showGroups _ h
      have htail := @readGroups_showGroups [] (.inl rfl) not_mem_nil
        (ip.segments.drop (z.start + z.len)) (8 - ((ip.segments.take z.start).length + 1))
        (by omega)
      rw [append_nil] at htail
      exact readIpv6_of_doubleColon (lt_of_succ_lt hz) hzeroes
        (readGroups_showGroups (.inr ⟨_, rfl⟩) hdot (by omega)) htail
    · have hread := @readGroups_showGroups [] (.inl rfl) not_mem_nil ip.segments 8
        (Nat.le_of_eq ip.length_segments)
      rw [append_nil] at hread
      rw [readIpv6, hread]
      exact dif_pos ip.length_segments

theorem Ipv6Addr.of_mem_display (hip : ip.toIpv4Mapped = none) (h : c ∈ ip.display) :
    isAddressChar c ∧ c ≠ '.' := by
  rw [display, hip] at h
  dsimp only at h
  split_ifs at h
  · simp only [mem_append, mem_cons] at h
    rcases h with h | rfl | rfl | h
    · exact of_mem_showGroups h
    · decide
    · decide
    · exact of_mem_showGroups h
  · exact of_mem_showGroups h

theorem stops_or_dot_not_mem_display (ip : Ipv6Addr) : Stops 10 ip.display ∨ '.' ∉ ip.display := by
  cases hip : ip.toIpv4Mapped with
  | some =>
    rw [Ipv6Addr.display, hip]
    exact .inl (stops_cons (by decide) _)
  | none => exact .inr fun h => (ip.of_mem_display hip h).2 rfl

open IpAddr

theorem IpAddr.parse_display (ip : IpAddr) : parse ip.display = some ip := by
  cases ip with
  | v4 ip =>
    have hread := readIpv4_display ip (stops_nil 10)
    rw [append_nil] at hread
    rw [parse, display, readIp, hread]
  | v6 ip =>
    have hipv4 : readIpv4 ip.display = none :=
      (stops_or_dot_not_mem_display ip).elim readIpv4_of_stops readIpv4_eq_none
    rw [parse, display, readIp, hipv4]
    dsimp only
    rw [readIpv6_display, map_some]

/-! ## What the texts are made of -/

theorem isAsciiGraphic_of_isAddressChar (h : isAddressChar c) : Text.isAsciiGraphic c := by
  have h0 : ('0' : Char).toNat = 48 := rfl
  have h9 : ('9' : Char).toNat = 57 := rfl
  have ha : ('a' : Char).toNat = 97 := rfl
  have hf : ('f' : Char).toNat = 102 := rfl
  simp only [isAddressChar, Bool.or_eq_true, Bool.and_eq_true, decide_eq_true_eq, Char.le_def,
    UInt32.le_iff_toNat_le, Char.toNat_val] at h
  rcases h with ((h | h) | rfl) | rfl
  · simp only [Text.isAsciiGraphic, Bool.and_eq_true, decide_eq_true_eq]
    omega
  · simp only [Text.isAsciiGraphic, Bool.and_eq_true, decide_eq_true_eq]
    omega
  · rfl
  · rfl

theorem Ipv4Addr.forall_mem_display (ip : Ipv4Addr) : ∀ c ∈ ip.display, isAddressChar c := by
  have hnumber : ∀ n, ∀ c ∈ showNumber 10 3 n, isAddressChar c :=
    fun n c hc => (of_mem_showNumber (by decide) hc).1
  intro c hc
  simp only [display, mem_append, mem_cons] at hc
  rcases hc with hc | rfl | hc | rfl | hc | rfl | hc
  · exact hnumber _ c hc
  · rfl
  · exact hnumber _ c hc
  · rfl
  · exact hnumber _ c hc
  · rfl
  · exact hnumber _ c hc

theorem IpAddr.forall_mem_display (ip : IpAddr) : ∀ c ∈ ip.display, isAddressChar c := by
  cases ip with
  | v4 ip => exact ip.forall_mem_display
  | v6 ip =>
    intro c hc
    cases hmapped : ip.toIpv4Mapped with
    | some ipv4 =>
      rw [display, Ipv6Addr.display, hmapped] at hc
      have hall : "::ffff:".toList.all isAddressChar := by decide
      exact (mem_append.1 hc).elim (all_eq_true.1 hall c) (ipv4.forall_mem_display c)
    | none => exact (ip.of_mem_display hmapped hc).1

theorem showNumber_ne_nil (radix k n : ℕ) : showNumber radix (k + 1) n ≠ [] :=
  fun h => digitsOf_ne_nil radix k n (map_eq_nil_iff.1 h)

theorem Ipv4Addr.getLast?_display (ip : Ipv4Addr) :
    ip.display.getLast? = (showNumber 10 3 ip.d.toNat).getLast? := by
  have hlast : ∀ (s : Text) (n : ℕ), (s ++ '.' :: showNumber 10 3 n).getLast? =
      (showNumber 10 3 n).getLast? := by
    intro s n
    rw [getLast?_append_cons, getLast?_cons_of_ne_nil (showNumber_ne_nil 10 2 n)]
  have hdisplay : ip.display = (showNumber 10 3 ip.a.toNat ++ '.' :: showNumber 10 3 ip.b.toNat ++
      '.' :: showNumber 10 3 ip.c.toNat) ++ '.' :: showNumber 10 3 ip.d.toNat := by
    simp [display]
  rw [hdisplay, hlast]

theorem IpAddr.getLast?_display (ip : IpAddr) (h : ip.display.getLast? = some c) : c ≠ '.' := by
  cases ip with
  | v4 ip =>
    rw [display, ip.getLast?_display] at h
    exact (of_mem_showNumber (by decide) (mem_of_getLast? h)).2
  | v6 ip =>
    rw [display] at h
    cases hmapped : ip.toIpv4Mapped with
    | some ipv4 =>
      rw [Ipv6Addr.display, hmapped] at h
      dsimp only at h
      have hlast : (showNumber 10 3 ipv4.d.toNat).getLast? ≠ none :=
        fun hnone => showNumber_ne_nil 10 2 _ (getLast?_eq_none_iff.1 hnone)
      rw [getLast?_append, ipv4.getLast?_display, or_of_isSome (isSome_iff_ne_none.2 hlast)] at h
      exact (of_mem_showNumber (by decide) (mem_of_getLast? h)).2
    | none => exact (ip.of_mem_display hmapped (mem_of_getLast? h)).2

theorem readGroups_of_colon_not_mem (h : ':' ∉ s) (i left : ℕ) :
    readGroups (i + 1) left s = ([], false, s) := by
  have hnone : ∀ {α : Type} (inner : Text → Option (α × Text)),
      readSeparator ':' (i + 1) inner s = none := by
    intro α inner
    rw [readSeparator, if_pos i.succ_pos]
    cases hchar : readChar ':' s with
    | none => rfl
    | some => exact absurd (eq_cons_of_readChar hchar ▸ mem_cons_self) h
  cases left with
  | zero => rfl
  | succ => rw [readGroups, hnone, ite_self, hnone]

theorem length_readGroups_of_colon_not_mem (h : ':' ∉ s) (left : ℕ) :
    (readGroups 0 left s).1.length ≤ 2 ∧ ':' ∉ (readGroups 0 left s).2.2 := by
  cases left with
  | zero => exact ⟨zero_le 2, h⟩
  | succ left =>
    rw [readGroups]
    split
    · next hread =>
      split_ifs at hread
      obtain ⟨run, rfl, -⟩ := eq_append_of_readIpv4 hread
      exact ⟨Nat.le_refl 2, fun hmem => h (mem_append_right run hmem)⟩
    · split
      · next hread =>
        obtain ⟨⟨_, _⟩, hnumber, hgroup⟩ := map_eq_some_iff.1 hread
        cases hgroup
        obtain ⟨run, rfl, -⟩ := eq_append_of_readNumber hnumber
        have hrest := fun hmem => h (mem_append_right run hmem)
        rw [readGroups_of_colon_not_mem hrest]
        exact ⟨le_succ 1, hrest⟩
      · exact ⟨zero_le 2, h⟩

theorem colon_mem_of_readIpv6 (h : readIpv6 s = some (ip, rest)) : ':' ∈ s := by
  by_contra hcolon
  obtain ⟨hlen, hrest⟩ := length_readGroups_of_colon_not_mem hcolon 8
  rw [readIpv6] at h
  dsimp only at h
  rw [dif_neg (by omega)] at h
  split at h
  · cases h
  · obtain ⟨_, hchar, -⟩ := bind_eq_some_iff.1 h
    exact hrest (eq_cons_of_readChar hchar ▸ mem_cons_self)

theorem colon_mem_or_of_parse {ip : IpAddr} (h : parse s = some ip) :
    ':' ∈ s ∨ ∀ c ∈ s, toDigit 10 c ≠ none ∨ c = '.' := by
  rw [parse] at h
  split at h
  · next hread =>
    rw [readIp] at hread
    split at hread
    · next hipv4 =>
      cases hread
      obtain ⟨_, hs, -, hrun⟩ := eq_append_of_readIpv4 hipv4
      rw [append_nil] at hs
      exact .inr (hs ▸ hrun)
    · obtain ⟨⟨_, _⟩, hipv6, -⟩ := map_eq_some_iff.1 hread
      exact .inl (colon_mem_of_readIpv6 hipv6)
  · cases h

theorem separator_mem_of_parse {s : Text} {ip : IpAddr} (h : parse s = some ip) :
    '.' ∈ s ∨ ':' ∈ s := by
  by_cases hdot : '.' ∈ s
  · exact .inl hdot
  · rw [parse, readIp, readIpv4_eq_none hdot] at h
    cases hread : readIpv6 s with
    | none => simp [hread] at h
    | some => exact .inr (colon_mem_of_readIpv6 hread)

end Abyssal.Net
