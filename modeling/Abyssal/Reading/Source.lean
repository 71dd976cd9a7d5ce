import Mathlib.Data.List.Basic

/-!
# Reading from a source

A source gives its items in order. One read returns as many as it likes, but no more than there
is room for, and none only if there is no room or nothing left. How the reads are split is a
parameter; what the functions below return does not depend on it.
-/

namespace Abyssal.Reading

open List

variable {β : Type*}

/-- A source: what is left, and how the reads to come are split. -/
structure Source (β : Type*) where
  rest : List β
  splits : ℕ → ℕ

namespace Source

def ready (s : Source β) : ℕ → ℕ
  | 0 => 0
  | room + 1 => s.splits 0 % (room + 1) + 1

variable (s : Source β) (room : ℕ)

theorem ready_le : s.ready room ≤ room := by
  cases room with
  | zero => exact Nat.le_refl 0
  | succ room => exact Nat.mod_lt _ room.succ_pos

theorem ready_pos (s : Source β) {room : ℕ} (h : 0 < room) : 0 < s.ready room := by
  cases room with
  | zero => exact absurd h (Nat.lt_irrefl 0)
  | succ => exact Nat.succ_pos _

def read : List β × Source β :=
  (s.rest.take (s.ready room), ⟨s.rest.drop (s.ready room), fun i => s.splits (i + 1)⟩)

/-- Reads until the room is full or nothing comes. -/
def readLoop : ℕ → Source β → ℕ → List β × Source β
  | 0, s, _ => ([], s)
  | fuel + 1, s, room =>
    if room = 0 then ([], s)
    else
      let (got, s) := s.read room
      if got.isEmpty then ([], s)
      else
        let (more, s) := readLoop fuel s (room - got.length)
        (got ++ more, s)

/-- Each read but the last returns something, so there are no more reads than there is room. -/
def readUpTo : List β × Source β := readLoop room s room

/-- Reads until the room is full; fails if the source ends before. -/
def readExact : Option (List β × Source β) :=
  let (got, s) := s.readUpTo room
  if got.length = room then some (got, s) else none

theorem readLoop_eq {fuel room : ℕ} (h : room ≤ fuel) (s : Source β) :
    (readLoop fuel s room).1 = s.rest.take room ∧
      (readLoop fuel s room).2.rest = s.rest.drop room := by
  induction fuel generalizing s room with
  | zero =>
    obtain rfl : room = 0 := Nat.le_zero.1 h
    exact ⟨rfl, rfl⟩
  | succ fuel ih =>
    rw [readLoop]
    split_ifs with hroom
    · subst hroom
      exact ⟨rfl, rfl⟩
    · have hpos := s.ready_pos (Nat.pos_of_ne_zero hroom)
      have hle := s.ready_le room
      dsimp only
      split_ifs with hempty
      · -- Nothing came, so nothing was left.
        have hnil : s.rest = [] := by
          rcases take_eq_nil_iff.1 (isEmpty_iff.1 hempty) with hzero | hnil
          · exact absurd hzero (Nat.ne_of_gt hpos)
          · exact hnil
        simp [read, hnil]
      · set got := (s.read room).1 with hgot
        have hlen : got.length ≤ s.ready room := length_take_le _ _
        have hgotpos : 0 < got.length := length_pos_iff.2 fun heq => hempty (isEmpty_iff.2 heq)
        have hsplit : s.rest = got ++ (s.read room).2.rest :=
          (take_append_drop (s.ready room) s.rest).symm
        have hfits : got.length ≤ room := Nat.le_trans hlen hle
        obtain ⟨hfst, hsnd⟩ := ih (show room - got.length ≤ fuel by omega) (s.read room).2
        constructor
        · change got ++ _ = _
          rw [hfst, hsplit, take_append, take_of_length_le hfits]
        · rw [hsnd, hsplit, drop_append, drop_of_length_le hfits, nil_append]

theorem readUpTo_fst : (s.readUpTo room).1 = s.rest.take room :=
  (readLoop_eq (Nat.le_refl room) s).1

theorem rest_readUpTo : (s.readUpTo room).2.rest = s.rest.drop room :=
  (readLoop_eq (Nat.le_refl room) s).2

theorem readExact_of_le {s : Source β} {room : ℕ} (h : room ≤ s.rest.length) :
    s.readExact room = some (s.rest.take room, (s.readUpTo room).2) := by
  rw [readExact]
  dsimp only
  rw [readUpTo_fst, length_take_of_le h, if_pos rfl]

theorem readExact_of_lt {s : Source β} {room : ℕ} (h : s.rest.length < room) :
    s.readExact room = none := by
  rw [readExact]
  dsimp only
  rw [readUpTo_fst, if_neg]
  have hlen := length_take_le' room s.rest
  omega

theorem read_one (s : Source β) :
    (s.read 1).1 = s.rest.take 1 ∧ (s.read 1).2.rest = s.rest.drop 1 := by
  have hone : s.ready 1 = 1 := by rw [ready, Nat.mod_one]
  rw [read, hone]
  exact ⟨rfl, rfl⟩

end Source

end Abyssal.Reading
