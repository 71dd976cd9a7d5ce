import Mathlib.Data.List.Basic

/-!
# Pairs of files that are replaced one file after the other

A pair is replaced by writing its key and then its certificate, each at once. An operation that
replaces some pairs leaves a certificate beside a key that is not its own exactly if it stops right
after it has written a key into a slot with a certificate of another key.
-/

namespace Abyssal.Files

/-!
## Operations that may stop half way

The script of an operation is the list of its actions together with its result. It may stop between
any two of them. The failure of an optional action is ignored.
-/

section Script

structure Script (A ε α : Type) where
  actions : List A
  result : Except ε α

namespace Script

variable {A ε α β : Type}

def perform (a : A) : Script A ε Unit := ⟨[a], .ok ()⟩

def compute (x : Except ε α) : Script A ε α := ⟨[], x⟩

instance : Monad (Script A ε) where
  pure a := ⟨[], .ok a⟩
  bind s f :=
    match s.result with
    | .ok a => ⟨s.actions ++ (f a).actions, (f a).result⟩
    | .error e => ⟨s.actions, .error e⟩

theorem bind_of_ok {s : Script A ε α} {a : α} (h : s.result = .ok a) (f : α → Script A ε β) :
    (s >>= f) = ⟨s.actions ++ (f a).actions, (f a).result⟩ := by
  show (match s.result with
    | .ok a => ⟨s.actions ++ (f a).actions, (f a).result⟩
    | .error e => ⟨s.actions, .error e⟩ : Script A ε β) = _
  rw [h]

theorem actions_bind_pure (s : Script A ε α) (g : α → β) :
    (s >>= fun a => (pure (g a) : Script A ε β)).actions = s.actions := by
  cases h : s.result with
  | error e =>
    show (match s.result with
      | .ok a => ⟨s.actions ++ [], .ok (g a)⟩
      | .error e => ⟨s.actions, .error e⟩ : Script A ε β).actions = s.actions
    rw [h]
  | ok =>
    rw [bind_of_ok h]
    exact List.append_nil s.actions

theorem isOk_bind_pure (s : Script A ε α) (g : α → β) :
    (s >>= fun a => (pure (g a) : Script A ε β)).result.isOk = s.result.isOk := by
  show (match s.result with
    | .ok a => ⟨s.actions ++ [], .ok (g a)⟩
    | .error e => ⟨s.actions, .error e⟩ : Script A ε β).result.isOk = s.result.isOk
  cases s.result <;> rfl

end Script

variable {A S : Type} (apply : A → S → S) (optional : A → Bool)

def run : List A → List Bool → S → S
  | a :: as, true :: fates, s => run as fates (apply a s)
  | a :: as, false :: fates, s => if optional a then run as fates s else s
  | _, _, s => s

def progress : List A → List Bool → ℕ
  | _ :: as, true :: fates => progress as fates + 1
  | a :: as, false :: fates => if optional a then progress as fates + 1 else 0
  | _, _ => 0

variable {apply optional}

@[simp] theorem run_nil (fates : List Bool) (s : S) : run apply optional [] fates s = s := by
  cases fates <;> rfl

@[simp] theorem progress_nil (fates : List Bool) : progress optional ([] : List A) fates = 0 := by
  cases fates <;> rfl

theorem run_cons (a : A) (as : List A) (fates : List Bool) (s : S) :
    run apply optional (a :: as) fates s = s ∧ progress optional (a :: as) fates = 0 ∨
      (∃ fates', run apply optional (a :: as) fates s = run apply optional as fates' (apply a s) ∧
        progress optional (a :: as) fates = progress optional as fates' + 1) ∨
      optional a ∧ ∃ fates', run apply optional (a :: as) fates s = run apply optional as fates' s ∧
          progress optional (a :: as) fates = progress optional as fates' + 1 := by
  match fates with
  | [] => exact .inl ⟨rfl, rfl⟩
  | true :: fates => exact .inr (.inl ⟨fates, rfl, rfl⟩)
  | false :: fates =>
    rw [progress]
    by_cases ha : optional a
    · exact .inr (.inr ⟨ha, fates, if_pos ha, if_pos ha⟩)
    · exact .inl ⟨if_neg ha, if_neg ha⟩

theorem run_cons_of_required {a : A} (ha : optional a = false) (as : List A)
    (fates : List Bool) (s : S) :
    run apply optional (a :: as) fates s = s ∧ progress optional (a :: as) fates = 0 ∨
      ∃ fates', run apply optional (a :: as) fates s = run apply optional as fates' (apply a s) ∧
        progress optional (a :: as) fates = progress optional as fates' + 1 := by
  rcases run_cons a as fates s with h | h | ⟨hopt, -⟩
  · exact .inl h
  · exact .inr h
  · rw [ha] at hopt
    cases hopt

theorem run_induction {P : S → Prop} {as : List A} (hstep : ∀ a ∈ as, ∀ s, P s → P (apply a s))
    (fates : List Bool) {s : S} (h : P s) : P (run apply optional as fates s) := by
  induction as generalizing fates s with
  | nil => rwa [run_nil]
  | cons a as ih =>
    have htail : ∀ b ∈ as, ∀ s, P s → P (apply b s) :=
      fun b hb => hstep b (List.mem_cons_of_mem _ hb)
    rcases run_cons a as fates s with ⟨hrun, -⟩ | ⟨fates', hrun, -⟩ | ⟨-, fates', hrun, -⟩
    · rwa [hrun]
    · rw [hrun]
      exact ih htail fates' (hstep a List.mem_cons_self s h)
    · rw [hrun]
      exact ih htail fates' h

theorem progress_le (as : List A) (fates : List Bool) : progress optional as fates ≤ as.length := by
  induction as generalizing fates with
  | nil => exact Nat.le_of_eq (progress_nil fates)
  | cons _ _ ih =>
    match fates with
    | [] => exact Nat.zero_le _
    | true :: fates => exact Nat.succ_le_succ (ih fates)
    | false :: fates =>
      rw [progress]
      split_ifs
      · exact Nat.succ_le_succ (ih fates)
      · exact Nat.zero_le _

end Script

/-! ## Pairs -/

open List Option

variable {Slot Key Cert Name : Type}

structure Store (Slot Key Cert Name : Type) where
  cert : Slot → Option Cert
  key : Slot → Option Key
  archive : List (Name × Cert)

structure Pair (Slot Key Cert : Type) where
  slot : Slot
  key : Key
  cert : Cert

/-! ## Keys beside certificates -/

section Belongs

variable (belongs : Key → Cert → Prop)

def Store.Agrees (s : Store Slot Key Cert Name) (slot : Slot) : Prop :=
  ∀ cert key, s.cert slot = some cert → s.key slot = some key → belongs key cert

def Store.Complete (s : Store Slot Key Cert Name) (slot : Slot) : Prop :=
  ∀ cert, s.cert slot = some cert → ∃ key, s.key slot = some key ∧ belongs key cert

/-- The slot of the pair has a certificate that the key of the pair does not belong to. -/
def Pair.Clashes (p : Pair Slot Key Cert) (s : Store Slot Key Cert Name) : Prop :=
  ∃ cert, s.cert p.slot = some cert ∧ ¬belongs p.key cert

/-- After so many actions that store pairs, the last thing was to write the key of a pair that
clashes. -/
def Parted (s : Store Slot Key Cert Name) : List (Pair Slot Key Cert) → ℕ → Prop
  | [], _ => False
  | p :: ps, k => k = 1 ∧ p.Clashes belongs s ∨ 2 ≤ k ∧ Parted s ps (k - 2)

variable {belongs}

theorem parted_congr {s s' : Store Slot Key Cert Name} {ps : List (Pair Slot Key Cert)}
    (h : ∀ p ∈ ps, s'.cert p.slot = s.cert p.slot) (k : ℕ) :
    Parted belongs s' ps k ↔ Parted belongs s ps k := by
  induction ps generalizing k with
  | nil => exact Iff.rfl
  | cons p _ ih =>
    rw [Parted, Parted, Pair.Clashes, Pair.Clashes, h p mem_cons_self,
      ih fun q hq => h q (mem_cons_of_mem _ hq)]

end Belongs

/-! ## Actions -/

/-- What is done to the files. A file is replaced at once. -/
inductive Action (Slot Key Cert Name : Type)
  | writeKey (slot : Slot) (key : Key)
  | writeCert (slot : Slot) (cert : Cert)
  | putAside (name : Name) (cert : Cert)
  | removeCert (slot : Slot)
  | removeKey (slot : Slot)

def Action.optional : Action Slot Key Cert Name → Bool
  | removeCert _ | removeKey _ => true
  | writeKey _ _ | writeCert _ _ | putAside _ _ => false

variable (p : Pair Slot Key Cert)

def Pair.store : List (Action Slot Key Cert Name) :=
  [.writeKey p.slot p.key, .writeCert p.slot p.cert]

def storeAll (ps : List (Pair Slot Key Cert)) : List (Action Slot Key Cert Name) :=
  ps.flatMap Pair.store

theorem storeAll_nil : (storeAll [] : List (Action Slot Key Cert Name)) = [] := rfl

theorem storeAll_cons (ps : List (Pair Slot Key Cert)) :
    (storeAll (p :: ps) : List (Action Slot Key Cert Name)) = p.store ++ storeAll ps := rfl

variable (actions : List (Action Slot Key Cert Name))

def Removals : Prop :=
  ∀ a ∈ actions, ∃ slot, a = .removeCert slot ∨ a = .removeKey slot

variable [DecidableEq Slot]

def Action.apply : Action Slot Key Cert Name → Store Slot Key Cert Name → Store Slot Key Cert Name
  | writeKey slot key, s =>
    { s with key := fun other => if other = slot then some key else s.key other }
  | writeCert slot cert, s =>
    { s with cert := fun other => if other = slot then some cert else s.cert other }
  | putAside name cert, s => { s with archive := s.archive ++ [(name, cert)] }
  | removeCert slot, s =>
    { s with cert := fun other => if other = slot then none else s.cert other }
  | removeKey slot, s =>
    { s with key := fun other => if other = slot then none else s.key other }

variable (s : Store Slot Key Cert Name)

def Store.after (fates : List Bool) : Store Slot Key Cert Name :=
  run Action.apply Action.optional actions fates s

def finished (fates : List Bool) : ℕ :=
  progress Action.optional actions fates

def Store.half (p : Pair Slot Key Cert) : Store Slot Key Cert Name :=
  (Action.writeKey p.slot p.key).apply s

def Store.put (p : Pair Slot Key Cert) : Store Slot Key Cert Name :=
  (Action.writeCert p.slot p.cert).apply (s.half p)

@[simp] theorem after_nil (fates : List Bool) : s.after [] fates = s := run_nil fates s

/-! ## One pair -/

@[simp] theorem cert_put (p : Pair Slot Key Cert) (slot : Slot) :
    (s.put p).cert slot = if slot = p.slot then some p.cert else s.cert slot := rfl

@[simp] theorem key_put (p : Pair Slot Key Cert) (slot : Slot) :
    (s.put p).key slot = if slot = p.slot then some p.key else s.key slot := rfl

@[simp] theorem cert_half (p : Pair Slot Key Cert) (slot : Slot) :
    (s.half p).cert slot = s.cert slot := rfl

@[simp] theorem key_half (p : Pair Slot Key Cert) (slot : Slot) :
    (s.half p).key slot = if slot = p.slot then some p.key else s.key slot := rfl

open Files.Action

theorem after_store_append (rest : List (Action Slot Key Cert Name))
    (fates : List Bool) (s : Store Slot Key Cert Name) :
    s.after (p.store ++ rest) fates = s ∧ finished (p.store ++ rest) fates = 0 ∨
      s.after (p.store ++ rest) fates = s.half p ∧ finished (p.store ++ rest) fates = 1 ∨
      ∃ fates', s.after (p.store ++ rest) fates = (s.put p).after rest fates' ∧
        finished (p.store ++ rest) fates = finished rest fates' + 2 := by
  have hkey : (writeKey p.slot p.key : Action Slot Key Cert Name).optional = false := rfl
  have hcert : (writeCert p.slot p.cert : Action Slot Key Cert Name).optional = false := rfl
  rcases run_cons_of_required hkey (writeCert p.slot p.cert :: rest) fates s with
    h | ⟨fates₁, hrun₁, hdone₁⟩
  · exact .inl h
  · rcases run_cons_of_required hcert rest fates₁ (s.half p) with
      ⟨hrun₂, hdone₂⟩ | ⟨fates₂, hrun₂, hdone₂⟩
    · exact .inr (.inl ⟨hrun₁.trans hrun₂, hdone₁.trans (congrArg (· + 1) hdone₂)⟩)
    · exact .inr (.inr ⟨fates₂, hrun₁.trans hrun₂, hdone₁.trans (congrArg (· + 1) hdone₂)⟩)

variable {belongs : Key → Cert → Prop}
  {s : Store Slot Key Cert Name} {slot : Slot} {p : Pair Slot Key Cert}

theorem agrees_put (hp : belongs p.key p.cert) (h : s.Agrees belongs slot) :
    (s.put p).Agrees belongs slot := by
  intro cert key hcert hkey
  rw [cert_put] at hcert
  rw [key_put] at hkey
  split_ifs at hcert hkey
  · rwa [← some.inj hcert, ← some.inj hkey]
  · exact h cert key hcert hkey

theorem complete_put (hp : belongs p.key p.cert) (h : s.Complete belongs slot) :
    (s.put p).Complete belongs slot := by
  intro cert hcert
  rw [cert_put] at hcert
  rw [key_put]
  split_ifs at hcert ⊢
  · rw [← some.inj hcert]
    exact ⟨p.key, rfl, hp⟩
  · exact h cert hcert

theorem agrees_half (hp : ¬p.Clashes belongs s) (h : s.Agrees belongs slot) :
    (s.half p).Agrees belongs slot := by
  intro cert key hcert hkey
  rw [cert_half] at hcert
  rw [key_half] at hkey
  split_ifs at hkey with hslot
  · subst hslot
    rw [← some.inj hkey]
    by_contra hbelongs
    exact hp ⟨cert, hcert, hbelongs⟩
  · exact h cert key hcert hkey

theorem complete_half (hp : ¬p.Clashes belongs s) (h : s.Complete belongs slot) :
    (s.half p).Complete belongs slot := by
  intro cert hcert
  rw [cert_half] at hcert
  rw [key_half]
  split_ifs with hslot
  · subst hslot
    refine ⟨p.key, rfl, ?_⟩
    by_contra hbelongs
    exact hp ⟨cert, hcert, hbelongs⟩
  · exact h cert hcert

theorem not_agrees_half (hp : p.Clashes belongs s) : ¬(s.half p).Agrees belongs p.slot := by
  obtain ⟨cert, hcert, hbelongs⟩ := hp
  intro hagrees
  refine hbelongs (hagrees cert p.key hcert ?_)
  rw [key_half, if_pos rfl]

theorem after_putAside_cons (name : Name) (cert : Cert) (rest : List (Action Slot Key Cert Name))
    (fates : List Bool) (s : Store Slot Key Cert Name) :
    s.after (.putAside name cert :: rest) fates = s ∧
        finished (.putAside name cert :: rest) fates = 0 ∨
      ∃ (t : Store Slot Key Cert Name) (fates' : List Bool), t.cert = s.cert ∧ t.key = s.key ∧
        s.after (.putAside name cert :: rest) fates = t.after rest fates' ∧
        finished (.putAside name cert :: rest) fates = finished rest fates' + 1 := by
  have haside : (putAside name cert : Action Slot Key Cert Name).optional = false := rfl
  rcases run_cons_of_required haside rest fates s with h | ⟨fates', hrun, hdone⟩
  · exact .inl h
  · exact .inr ⟨(putAside name cert).apply s, fates', rfl, rfl, hrun, hdone⟩

/-! ## Several pairs -/

theorem agrees_after_removals {tail : List (Action Slot Key Cert Name)} (htail : Removals tail)
    (fates : List Bool) (h : s.Agrees belongs slot) : (s.after tail fates).Agrees belongs slot := by
  refine run_induction (P := fun t : Store Slot Key Cert Name => t.Agrees belongs slot) ?_ fates h
  intro a ha t ht
  obtain ⟨other, rfl | rfl⟩ := htail a ha
  · intro cert key hcert hkey
    simp only [apply] at hcert hkey
    split_ifs at hcert
    exact ht cert key hcert hkey
  · intro cert key hcert hkey
    simp only [apply] at hcert hkey
    split_ifs at hkey
    exact ht cert key hcert hkey

theorem slot_after_removals {tail : List (Action Slot Key Cert Name)}
    (htail : ∀ a ∈ tail, ∃ other, other ≠ slot ∧ (a = .removeCert other ∨ a = .removeKey other))
    (fates : List Bool) (s : Store Slot Key Cert Name) :
    (s.after tail fates).cert slot = s.cert slot ∧ (s.after tail fates).key slot = s.key slot := by
  have hstep : ∀ a ∈ tail, ∀ t : Store Slot Key Cert Name,
      t.cert slot = s.cert slot ∧ t.key slot = s.key slot →
        (a.apply t).cert slot = s.cert slot ∧ (a.apply t).key slot = s.key slot := by
    intro a ha t ht
    obtain ⟨other, hne, rfl | rfl⟩ := htail a ha
    · exact ⟨(if_neg hne.symm).trans ht.1, ht.2⟩
    · exact ⟨ht.1, (if_neg hne.symm).trans ht.2⟩
  exact run_induction hstep fates ⟨rfl, rfl⟩

variable {ps : List (Pair Slot Key Cert)} {tail : List (Action Slot Key Cert Name)}

theorem parted_put (hp : p.slot ∉ ps.map Pair.slot) (k : ℕ) :
    Parted belongs (s.put p) ps k ↔ Parted belongs s ps k := by
  refine parted_congr (fun q hq => ?_) k
  rw [cert_put, if_neg]
  intro hslot
  exact hp (hslot ▸ mem_map_of_mem hq)

theorem agrees_after_iff (hslots : (ps.map Pair.slot).Nodup)
    (hps : ∀ p ∈ ps, belongs p.key p.cert) (htail : Removals tail)
    (hs : ∀ slot, s.Agrees belongs slot) (fates : List Bool) :
    (∀ slot, (s.after (storeAll ps ++ tail) fates).Agrees belongs slot) ↔
      ¬Parted belongs s ps (finished (storeAll ps ++ tail) fates) := by
  induction ps generalizing s fates with
  | nil => exact iff_of_true (fun slot => agrees_after_removals htail fates (hs slot)) id
  | cons p ps ih =>
    rw [map_cons, nodup_cons] at hslots
    rw [storeAll_cons, append_assoc, Parted]
    rcases after_store_append p (storeAll ps ++ tail) fates s with
      ⟨hafter, hdone⟩ | ⟨hafter, hdone⟩ | ⟨fates', hafter, hdone⟩
    · rw [hafter]
      exact iff_of_true hs (by omega)
    · rw [hafter, hdone]
      by_cases hclash : p.Clashes belongs s
      · exact iff_of_false (fun h => not_agrees_half hclash (h p.slot))
          (not_not_intro (.inl ⟨rfl, hclash⟩))
      · exact iff_of_true (fun slot => agrees_half hclash (hs slot)) (by tauto)
    · have hput : ∀ slot, (s.put p).Agrees belongs slot :=
        fun slot => agrees_put (hps p mem_cons_self) (hs slot)
      rw [hafter, hdone, ih hslots.2 (fun q hq => hps q (mem_cons_of_mem _ hq)) hput,
        parted_put hslots.1]
      constructor
      · rintro h (⟨hone, -⟩ | ⟨-, hparted⟩)
        · omega
        · exact h hparted
      · exact fun h hparted => h (.inr ⟨Nat.le_add_left 2 _, hparted⟩)

variable {fates : List Bool}

theorem complete_after (hslots : (ps.map Pair.slot).Nodup) (hps : ∀ p ∈ ps, belongs p.key p.cert)
    (htail : ∀ a ∈ tail, ∃ other, other ≠ slot ∧ (a = .removeCert other ∨ a = .removeKey other))
    (hs : s.Complete belongs slot)
    (h : ¬Parted belongs s ps (finished (storeAll ps ++ tail) fates)) :
    (s.after (storeAll ps ++ tail) fates).Complete belongs slot := by
  induction ps generalizing s fates with
  | nil =>
    have hslot := slot_after_removals htail fates s
    rwa [Store.Complete, storeAll_nil, nil_append, hslot.1, hslot.2]
  | cons p ps ih =>
    rw [map_cons, nodup_cons] at hslots
    rw [storeAll_cons, append_assoc] at h ⊢
    rcases after_store_append p (storeAll ps ++ tail) fates s with
      ⟨hafter, hdone⟩ | ⟨hafter, hdone⟩ | ⟨fates', hafter, hdone⟩
    · rwa [hafter]
    · rw [hafter]
      rw [hdone] at h
      exact complete_half (fun hclash => h (.inl ⟨rfl, hclash⟩)) hs
    · rw [hafter]
      refine ih hslots.2 (fun q hq => hps q (mem_cons_of_mem _ hq))
        (complete_put (hps p mem_cons_self) hs) fun hparted => h ?_
      rw [hdone]
      exact .inr ⟨Nat.le_add_left 2 _, (parted_put hslots.1 _).1 hparted⟩

theorem cert_after (htail : Removals tail) {cert : Cert}
    (h : (s.after (storeAll ps ++ tail) fates).cert slot = some cert) :
    s.cert slot = some cert ∨ ∃ p ∈ ps, p.slot = slot ∧ p.cert = cert := by
  let Known (t : Store Slot Key Cert Name) : Prop := ∀ cert, t.cert slot = some cert →
      s.cert slot = some cert ∨ ∃ p ∈ ps, p.slot = slot ∧ p.cert = cert
  have hstep : ∀ a ∈ storeAll ps ++ tail, ∀ t, Known t → Known (a.apply t) := by
    intro a ha t ht cert hcert
    rcases mem_append.1 ha with ha | ha
    · obtain ⟨p, hp, ha⟩ := mem_flatMap.1 ha
      rcases mem_cons.1 ha with rfl | ha
      · exact ht cert hcert
      · rw [mem_singleton.1 ha] at hcert
        simp only [apply] at hcert
        split_ifs at hcert with hslot
        · exact .inr ⟨p, hp, hslot.symm, some.inj hcert⟩
        · exact ht cert hcert
    · obtain ⟨other, rfl | rfl⟩ := htail a ha
      · simp only [apply] at hcert
        split_ifs at hcert
        exact ht cert hcert
      · exact ht cert hcert
  exact run_induction hstep fates (fun cert hcert => .inl hcert) cert h

theorem exists_after_of_finished
    (h : finished (storeAll ps ++ tail) fates = (storeAll ps ++ tail).length) :
    ∃ fates', s.after (storeAll ps ++ tail) fates = (ps.foldl Store.put s).after tail fates' := by
  induction ps generalizing s fates with
  | nil => exact ⟨fates, rfl⟩
  | cons p ps ih =>
    rw [storeAll_cons, append_assoc] at h ⊢
    rw [length_append, Pair.store, length_cons, length_singleton] at h
    rcases after_store_append p (storeAll ps ++ tail) fates s with
      ⟨-, hdone⟩ | ⟨-, hdone⟩ | ⟨fates', hafter, hdone⟩
    · exact absurd (hdone.symm.trans h) (by omega)
    · exact absurd (hdone.symm.trans h) (by omega)
    · have hrest : finished (storeAll ps ++ tail) fates' = (storeAll ps ++ tail).length := by
        have hboth := hdone.symm.trans h
        omega
      obtain ⟨fates'', hrest⟩ := @ih (s.put p) fates' hrest
      exact ⟨fates'', hafter.trans hrest⟩

theorem after_eq_of_finished (h : finished (storeAll ps : List (Action Slot Key Cert Name)) fates =
      (storeAll ps : List (Action Slot Key Cert Name)).length) :
    s.after (storeAll ps) fates = ps.foldl Store.put s := by
  rw [← append_nil (storeAll ps)] at h ⊢
  obtain ⟨_, hafter⟩ := exists_after_of_finished (s := s) h
  rw [hafter, after_nil]

end Abyssal.Files
