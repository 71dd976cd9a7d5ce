import Abyssal.Hosts.Enrollment

/-!
# What an enrollment may replace

An enrollment under the name of a host that is not connected deletes that host before it stores the
new one. A single-use token is consumed atomically, so it deletes at most one host. But a deployment
token, which many machines have, gets as far as deleting too. The pool has a ledger that no
statement reads: which enrollment consumed which token, stored which host and deleted which.

## Main results

* `authorized_of_findsConnected`: what may be deleted.
-/

namespace Abyssal.Hosts.Enrollment

open Resumption Resumption.Handler List Option Function Prod Rules

variable {Operation : Type}

/-! ## The ledger -/

/-- The server, and which enrollment consumed which token, stored which host, and deleted which
host. -/
structure Recorded (Operation : Type) where
  server : Server Operation
  spent : List (ThreadId × String)
  created : List (ThreadId × HostId)
  deleted : List (ThreadId × HostRow)

namespace Recorded

def record (s : Recorded Operation) (i : ThreadId) (after : Server Operation) :
    Op Operation → Recorded Operation
  | .consume h =>
    { s with
      server := after
      spent := if after.tokens h = s.server.tokens h then s.spent else (i, h) :: s.spent }
  | .insertHost row =>
    { s with
      server := after
      created :=
        match s.server.hosts.findById row.id, after.hosts.findById row.id with
        | none, some _ => (i, row.id) :: s.created
        | _, _ => s.created }
  | .deleteHost id =>
    { s with
      server := after
      deleted :=
        match s.server.hosts.findById id, after.hosts.findById id with
        | some row, none => if (i, id) ∈ s.created then s.deleted else (i, row) :: s.deleted
        | _, _ => s.deleted }
  | _ => { s with server := after }

def exec (sameName : String → String → Bool) (i : ThreadId) (op : Op Operation) (c : Outcome)
    (s : Recorded Operation) : Option (Recorded Operation × Option op.Answer) :=
  let (after, answer) := respond sameName op c s.server
  some (s.record i after op, answer)

end Recorded

inductive Activity (Operation : Type) where
  | enroll (req : Request)
  | other (change : Change Operation)

def Activity.code (setup : Setup) : Activity Operation →
    Prog (Op Operation) (fun op => Option op.Answer) (Except Failure (Option Response))
  | .enroll req => (do return some (← Enrollment.enroll setup req) : Page Operation _).run
  | .other change => (do execute .internal (.elsewhere change); return none : Page Operation _).run

/-- A host is deleted with a single-use token, and each of these leads to at most one deleted and
one stored host. -/
structure Authorized (s : Recorded Operation) : Prop where
  deleted : ∀ i row, (i, row) ∈ s.deleted →
    ∃ h t, (i, h) ∈ s.spent ∧ s.server.tokens h = some t ∧ t.reusable = false
  once : ∀ h t, s.server.tokens h = some t → t.reusable = false →
    s.deleted.countP (fun e => decide ((e.1, h) ∈ s.spent)) ≤ 1 ∧
      s.created.countP (fun e => decide ((e.1, h) ∈ s.spent)) ≤ 1

/-- An enrollment that consumed a reusable token finds the host that has its name connected. -/
def FindsConnected (i : ThreadId) (op : Op Operation) (_ : Outcome) (s : Recorded Operation) :
    Prop :=
  match op with
  | .isConnected id => ∀ e ∈ s.spent, e.1 = i → ∀ t ∈ s.server.tokens e.2, t.reusable = true →
      (s.server.registry.connections id).isSome = true
  | _ => True

/-! ## Tokens -/

def Server.TokensKept (s s' : Server Operation) : Prop :=
  ∀ h t, s.tokens h = some t → ∃ t', s'.tokens h = some t' ∧ t'.reusable = t.reusable ∧
    (t.usedAt ≠ none → t'.usedAt ≠ none)

theorem Server.TokensKept.of_eq {s s' : Server Operation} (h : s'.tokens = s.tokens) :
    s.TokensKept s' := fun x t ht => ⟨t, by rw [h, ht], rfl, fun hused => hused⟩

theorem Server.TokensKept.kinds {s s' : Server Operation} (hkept : s.TokensKept s') (h t)
    (ht : s.tokens h = some t) : ∃ t', s'.tokens h = some t' ∧ t'.reusable = t.reusable := by
  obtain ⟨t', ht', hkind, -⟩ := hkept h t ht
  exact ⟨t', ht', hkind⟩

variable (s : Server Operation)

theorem Server.consume_cases (h : String) :
    s.consume h = (s, false) ∨ ∃ t, s.tokens h = some t ∧ t.usable s.now ∧ s.consume h =
        ({ s with tokens := update s.tokens h (some (t.spend s.now)) }, true) := by
  unfold Server.consume
  cases ht : s.tokens h with
  | none => exact .inl rfl
  | some t =>
    cases husable : t.usable s.now with
    | true => exact .inr ⟨t, rfl, husable, by simp [husable]⟩
    | false => exact .inl (by simp [husable])

theorem EnrollmentToken.usedAt_spend {t : EnrollmentToken} {now : ℕ} :
    (t.spend now).reusable = false → (t.spend now).usedAt ≠ none := by
  intro hkind
  have hkind : t.reusable = false := hkind
  simp [spend, hkind]

theorem Server.tokensKept_consume (h : String) : s.TokensKept (s.consume h).1 := by
  rcases s.consume_cases h with hsame | ⟨t, ht, -, hdone⟩
  · exact .of_eq (by rw [hsame])
  · rw [hdone]
    intro x t' ht'
    rcases eq_or_ne x h with rfl | hne
    · cases ht.symm.trans ht'
      refine ⟨t.spend s.now, update_self .., rfl, fun hused => ?_⟩
      cases hkind : t.reusable with
      | true => simpa [EnrollmentToken.spend, hkind] using hused
      | false => exact EnrollmentToken.usedAt_spend hkind
    · exact ⟨t', (update_of_ne hne ..).trans ht', rfl, fun hused => hused⟩

theorem respond_consume_cases (sameName : String → String → Bool) (h : String) (c : Outcome)
    (s : Server Operation) :
    (respond sameName (.consume h) c s).1 = s ∨ ∃ t, s.tokens h = some t ∧ t.usable s.now ∧
        (respond sameName (.consume h) c s).1.tokens h = some (t.spend s.now) := by
  rcases settle_fst_cases c s (some (s.consume h)) with hsame | ⟨answer, hdone⟩
  · exact .inl hsame
  · have hfst : (respond sameName (.consume h) c s).1 = (s.consume h).1 :=
      (mk.inj (some.inj hdone)).1.symm
    rcases s.consume_cases h with heq | ⟨t, ht, husable, heq⟩
    · exact .inl (hfst.trans (congrArg fst heq))
    · refine .inr ⟨t, ht, husable, ?_⟩
      rw [hfst, heq]
      exact update_self ..

theorem Server.tokensKept_change (c : Change Operation) : s.TokensKept (s.change c) := by
  cases c with
  | surroundings => exact .of_eq rfl
  | mint h =>
    cases hnone : s.tokens h with
    | some => exact .of_eq (by simp [Server.change, hnone])
    | none =>
      simp only [Server.change, hnone]
      intro x t ht
      have hne : x ≠ h := by
        rintro rfl
        exact nomatch hnone.symm.trans ht
      exact ⟨t, (update_of_ne hne ..).trans ht, rfl, fun hused => hused⟩
  | revoke =>
    intro x t ht
    refine ⟨_, congrArg (Option.map _) ht, ?_⟩
    dsimp only
    split_ifs <;> exact ⟨rfl, fun hused => hused⟩

theorem tokensKept_respond (sameName : String → String → Bool) (op : Op Operation) (c : Outcome)
    (s : Server Operation) : s.TokensKept (respond sameName op c s).1 := by
  rcases settle_fst_cases (if op.isDatabase then c else .done) s (op.perform sameName s) with
    hsame | ⟨answer, hdone⟩
  · exact .of_eq (by rw [respond, hsame])
  · rw [← respond] at hdone
    generalize (respond sameName op c s).1 = s' at hdone
    cases op with
    | consume h =>
      exact (mk.inj (some.inj hdone)).1 ▸ s.tokensKept_consume h
    | elsewhere change =>
      cases hdone
      exact s.tokensKept_change change
    | insertHost =>
      obtain ⟨hosts, -, hs'⟩ := map_eq_some_iff.1 hdone
      cases hs'
      exact .of_eq rfl
    | _ =>
      cases hdone
      exact .of_eq rfl

/-! ## What one operation does -/

/-- Thread `i` has done nothing, and all tokens are there, of the same kinds. -/
structure Steady (i : ThreadId) (s s' : Recorded Operation) : Prop where
  spent : ∀ h, (i, h) ∈ s'.spent ↔ (i, h) ∈ s.spent
  created : ∀ id, (i, id) ∈ s'.created ↔ (i, id) ∈ s.created
  deleted : ∀ row, (i, row) ∈ s'.deleted ↔ (i, row) ∈ s.deleted
  kinds : ∀ h t, s.server.tokens h = some t →
    ∃ t', s'.server.tokens h = some t' ∧ t'.reusable = t.reusable

namespace Steady

variable {i : ThreadId} {s s' s'' : Recorded Operation}

theorem refl (i : ThreadId) (s : Recorded Operation) : Steady i s s :=
  ⟨fun _ => .rfl, fun _ => .rfl, fun _ => .rfl, fun _ t ht => ⟨t, ht, rfl⟩⟩

theorem trans (h : Steady i s s') (h' : Steady i s' s'') : Steady i s s'' where
  spent x := (h'.spent x).trans (h.spent x)
  created x := (h'.created x).trans (h.created x)
  deleted x := (h'.deleted x).trans (h.deleted x)
  kinds x t ht := by
    obtain ⟨t', ht', hkind⟩ := h.kinds x t ht
    obtain ⟨t'', ht'', hkind'⟩ := h'.kinds x t' ht'
    exact ⟨t'', ht'', hkind'.trans hkind⟩

end Steady

def Op.Silent : Op Operation → Prop
  | .consume _ | .insertHost _ | .deleteHost _ => False
  | _ => True

theorem record_of_silent {op : Op Operation} (hop : op.Silent) (s : Recorded Operation)
    (i : ThreadId) (after : Server Operation) :
    s.record i after op = { s with server := after } := by
  cases op with
  | consume | insertHost | deleteHost => exact hop.elim
  | _ => rfl

open Recorded

theorem steady_record {i j : ThreadId} (hne : j ≠ i) {s : Recorded Operation}
    {after : Server Operation} (hkept : s.server.TokensKept after) (op : Op Operation) :
    Steady j s (s.record i after op) := by
  have hkinds := hkept.kinds
  cases op with
  | consume =>
    refine ⟨fun x => ?_, fun _ => .rfl, fun _ => .rfl, hkinds⟩
    simp only [record]
    split_ifs
    · rfl
    · simp [hne]
  | insertHost =>
    refine ⟨fun _ => .rfl, fun x => ?_, fun _ => .rfl, hkinds⟩
    simp only [record]
    split
    · simp [hne]
    · rfl
  | deleteHost =>
    refine ⟨fun _ => .rfl, fun _ => .rfl, fun x => ?_, hkinds⟩
    simp only [record]
    split
    · split_ifs
      · rfl
      · simp [hne]
    · rfl
  | _ => exact ⟨fun _ => .rfl, fun _ => .rfl, fun _ => .rfl, hkinds⟩

/-! ## The invariant -/

def SingleUse (i : ThreadId) (s : Recorded Operation) : Prop :=
  ∃ h t, (i, h) ∈ s.spent ∧ s.server.tokens h = some t ∧ t.reusable = false

/-- Consumed single-use tokens are used up, by one thread, and a thread deletes and stores at most
one host, with a single-use token. -/
structure Sound (s : Recorded Operation) : Prop where
  spent : ∀ i h, (i, h) ∈ s.spent →
    ∃ t, s.server.tokens h = some t ∧ (t.reusable = false → t.usedAt ≠ none)
  once : ∀ i j h t, (i, h) ∈ s.spent → (j, h) ∈ s.spent → s.server.tokens h = some t →
    t.reusable = false → i = j
  deletes : (s.deleted.map fst).Nodup
  creates : (s.created.map fst).Nodup
  deleted : ∀ i row, (i, row) ∈ s.deleted → SingleUse i s

def Uncreated (i : ThreadId) (s : Recorded Operation) : Prop := ∀ id, (i, id) ∉ s.created

def Unsettled (i : ThreadId) (s : Recorded Operation) : Prop :=
  Uncreated i s ∧ ∀ row, (i, row) ∉ s.deleted

def Pre (i : ThreadId) (op : Op Operation) (s : Recorded Operation) : Prop :=
  match op with
  | .insertHost _ => Uncreated i s
  | .deleteHost id => (i, id) ∈ s.created ∨ Unsettled i s ∧ SingleUse i s
  | _ => True

namespace Sound

variable {i : ThreadId} {s s' : Recorded Operation} {h : String} {t : EnrollmentToken}

private theorem countP_le_one {α : Type} (hs : Sound s)
    (ht : s.server.tokens h = some t) (hkind : t.reusable = false) {l : List (ThreadId × α)}
    (hl : (l.map fst).Nodup) : l.countP (fun e => decide ((e.1, h) ∈ s.spent)) ≤ 1 := by
  by_cases hex : ∃ i, (i, h) ∈ s.spent
  · obtain ⟨i, hi⟩ := hex
    calc l.countP (fun e => decide ((e.1, h) ∈ s.spent))
        ≤ l.countP ((· == i) ∘ fst) := countP_mono_left fun e _ he => by
          simpa using hs.once e.1 i h t (of_decide_eq_true he) hi ht hkind
      _ = (l.map fst).count i := by rw [count, countP_map]
      _ ≤ 1 := nodup_iff_count_le_one.1 hl i
  · have hzero : l.countP (fun e => decide ((e.1, h) ∈ s.spent)) = 0 :=
      countP_eq_zero.2 fun e _ he => hex ⟨e.1, of_decide_eq_true he⟩
    omega

theorem authorized (hs : Sound s) : Authorized s where
  deleted := hs.deleted
  once _ _ ht hkind := ⟨hs.countP_le_one ht hkind hs.deletes, hs.countP_le_one ht hkind hs.creates⟩

theorem singleUse_of_kept (h : SingleUse i s) (hspent : s.spent ⊆ s'.spent)
    (hkept : s.server.TokensKept s'.server) : SingleUse i s' := by
  obtain ⟨x, t, hx, ht, hkind⟩ := h
  obtain ⟨t', ht', hkind', -⟩ := hkept x t ht
  exact ⟨x, t', hspent hx, ht', hkind'.trans hkind⟩

theorem of_kept (hs : Sound s) (hkept : s.server.TokensKept s'.server)
    (hspent : s'.spent = s.spent) (hdeletes : (s'.deleted.map fst).Nodup)
    (hcreates : (s'.created.map fst).Nodup)
    (hdeleted : ∀ i row, (i, row) ∈ s'.deleted → SingleUse i s') : Sound s' where
  spent i h hi := by
    rw [hspent] at hi
    obtain ⟨t, ht, hused⟩ := hs.spent i h hi
    obtain ⟨t', ht', hkind, hused'⟩ := hkept h t ht
    exact ⟨t', ht', fun hsingle => hused' (hused (hkind ▸ hsingle))⟩
  once i j h t' hi hj ht' hsingle := by
    rw [hspent] at hi hj
    obtain ⟨t, ht, -⟩ := hs.spent i h hi
    obtain ⟨t₁, ht₁, hkind, -⟩ := hkept h t ht
    cases ht₁.symm.trans ht'
    exact hs.once i j h t hi hj ht (hkind ▸ hsingle)
  deletes := hdeletes
  creates := hcreates
  deleted := hdeleted

variable {after : Server Operation}

theorem with_server (hs : Sound s)
    (hkept : s.server.TokensKept after) : Sound { s with server := after } :=
  hs.of_kept hkept rfl hs.deletes hs.creates fun j row hrow =>
    singleUse_of_kept (hs.deleted j row hrow) (Subset.refl _) hkept

theorem consume (hs : Sound s) (ht : s.server.tokens h = some t) (husable : t.usable s.server.now)
    (hkept : s.server.TokensKept after) (hafter : after.tokens h = some (t.spend s.server.now)) :
    Sound { s with server := after, spent := (i, h) :: s.spent } := by
  have hs₁ := hs.with_server hkept
  have hfirst : t.reusable = false → ∀ j, (j, h) ∉ s.spent := by
    intro hsingle j hj
    obtain ⟨t', ht', hused⟩ := hs.spent j h hj
    cases ht.symm.trans ht'
    simp only [EnrollmentToken.usable, hsingle, Bool.false_or, Bool.and_eq_true,
      isNone_iff_eq_none] at husable
    exact hused hsingle husable.2
  refine ⟨fun j x hj => ?_, fun j k x t' hj hk ht' hsingle => ?_, hs.deletes, hs.creates,
    fun j row hrow => ?_⟩
  · rcases mem_cons.1 hj with heq | hj
    · cases heq
      exact ⟨_, hafter, EnrollmentToken.usedAt_spend⟩
    · exact hs₁.spent j x hj
  · rcases mem_cons.1 hj with heq | hj' <;> rcases mem_cons.1 hk with heq' | hk'
    · rw [(mk.inj heq).1, (mk.inj heq').1]
    · cases heq
      cases hafter.symm.trans ht'
      exact absurd hk' (hfirst hsingle k)
    · cases heq'
      cases hafter.symm.trans ht'
      exact absurd hj' (hfirst hsingle j)
    · exact hs₁.once j k x t' hj' hk' ht' hsingle
  · exact singleUse_of_kept (hs.deleted j row hrow) (subset_cons_self ..) hkept

/-- **Every operation keeps the invariant**, where its precondition holds. -/
theorem record (hs : Sound s) {op : Op Operation} (hpre : Pre i op s)
    (sameName : String → String → Bool) (c : Outcome) :
    Sound (s.record i (respond sameName op c s.server).1 op) := by
  have hkept := tokensKept_respond sameName op c s.server
  have hdeleted : ∀ j row, (j, row) ∈ s.deleted →
      SingleUse j { s with server := (respond sameName op c s.server).1 } :=
    fun j row hrow => singleUse_of_kept (hs.deleted j row hrow) (Subset.refl _) hkept
  cases op with
  | consume h =>
    simp only [Recorded.record]
    split_ifs with hsame
    · exact hs.with_server hkept
    · rcases respond_consume_cases sameName h c s.server with heq | ⟨t, ht, husable, hafter⟩
      · exact absurd (congrArg (·.tokens h) heq) hsame
      · exact hs.consume ht husable hkept hafter
  | insertHost =>
    simp only [Recorded.record]
    split
    · have hnone : ∀ id, (i, id) ∉ s.created := hpre
      exact hs.of_kept hkept rfl hs.deletes
        (nodup_cons.2 ⟨by simpa using hnone, hs.creates⟩) hdeleted
    · exact hs.with_server hkept
  | deleteHost =>
    simp only [Recorded.record]
    split
    · split_ifs with hown
      · exact hs.with_server hkept
      · obtain ⟨⟨-, hnone⟩, hsingle⟩ := hpre.resolve_left hown
        refine hs.of_kept hkept rfl (nodup_cons.2 ⟨by simpa using hnone, hs.deletes⟩)
          hs.creates fun j row hrow => ?_
        rcases mem_cons.1 hrow with heq | hrow
        · rw [(mk.inj heq).1]
          exact singleUse_of_kept hsingle (Subset.refl _) hkept
        · exact hdeleted j row hrow
    · exact hs.with_server hkept
  | _ => exact hs.with_server hkept

end Sound

/-- The rules of the enrollments: what an operation may assume, and that nobody touches the
ledger of another. -/
def enrollmentRules (Operation : Type) : Rules ThreadId (Recorded Operation) (Op Operation) where
  inv := Sound
  pre := Pre
  rely := Steady
  guar i s s' := ∀ j, j ≠ i → Steady j s s'
  rely_refl := Steady.refl
  rely_trans := Steady.trans
  rely_of_guar hne _ _ hguar := hguar _ hne.symm

/-! ## The handler -/

section Programs

open Resumption.Rules

variable {setup : Setup} {i : ThreadId} {s s' : Recorded Operation} {op : Op Operation}

/-- What holds if the thread ends with a result, where deployment tokens find hosts connected. -/
abbrev Ends {α : Type} (setup : Setup) (i : ThreadId) (post : α → Recorded Operation → Prop)
    (h : Page Operation α) (s : Recorded Operation) : Prop :=
  (enrollmentRules Operation).wpOk (Recorded.exec setup.sameName) FindsConnected i post h s

theorem steady_of_silent (hop : op.Silent) {after : Server Operation}
    (hkept : s.server.TokensKept after) : Steady i s (s.record i after op) := by
  rw [record_of_silent hop]
  exact ⟨fun _ => .rfl, fun _ => .rfl, fun _ => .rfl, hkept.kinds⟩

theorem Op.Silent.pre (hop : op.Silent) : Pre i op s := by
  cases op with
  | insertHost | deleteHost => exact hop.elim
  | _ => trivial

/-- What holds after an operation that is carried out, whatever the other threads do then. -/
theorem ends_query {post : op.Answer → Recorded Operation → Prop} (failure : Failure)
    (hs : Sound s) (hpre : Pre i op s)
    (hstable : ∀ answer s s', Steady i s s' → post answer s → post answer s')
    (hpost : ∀ c after answer, FindsConnected i op c s → s.server.TokensKept after →
      op.perform setup.sameName s.server = some (after, answer) →
      post answer (s.record i after op)) : Ends setup i post (execute failure op) s := by
  refine wpOk_query hpre hstable fun c s' r hok hexec => ?_
  have hkept := tokensKept_respond setup.sameName op c s.server
  cases hexec
  refine ⟨hs.record hpre setup.sameName c, fun j hne => steady_record hne hkept op,
    fun answer hanswer => hpost c _ answer hok hkept ?_⟩
  exact (settle_eq_some.1 (Prod.ext rfl hanswer)).2

variable {F : Recorded Operation → Prop}

theorem ends_attempt (hs : Sound s) (hpre : Pre i op s) (hF : ∀ s s', Steady i s s' → F s → F s')
    (h : ∀ after, s.server.TokensKept after → F (s.record i after op)) :
    Ends setup i (fun _ s' => F s') (tryTo op) s := by
  refine wpOk_attempt hpre (fun _ s s' => hF s s') fun c s' r _ hexec => ?_
  have hkept := tokensKept_respond setup.sameName op c s.server
  cases hexec
  exact ⟨hs.record hpre setup.sameName c, fun j hne => steady_record hne hkept op, h _ hkept⟩

theorem ends_execute (failure : Failure) (op : Op Operation) (hop : op.Silent)
    (hF : ∀ s s', Steady i s s' → F s → F s') (hs : Sound s) (h : F s) :
    Ends setup i (fun answer s' => F s' ∧ ∃ server server',
      op.perform setup.sameName server = some (server', answer)) (execute failure op) s :=
  ends_query failure hs hop.pre (fun _ s s' hrely hpost => ⟨hF s s' hrely hpost.1, hpost.2⟩)
    fun _ after _ _ hkept hperform => ⟨hF s _ (steady_of_silent hop hkept) h, _, after, hperform⟩

theorem ends_tryTo (op : Op Operation) (hop : op.Silent)
    (hF : ∀ s s', Steady i s s' → F s → F s') (hs : Sound s) (h : F s) :
    Ends setup i (fun _ s' => F s') (tryTo op) s :=
  ends_attempt hs hop.pre hF fun _ hkept => hF s _ (steady_of_silent hop hkept) h

def Spender (i : ThreadId) (s : Recorded Operation) : Prop :=
  ∃ h t, (i, h) ∈ s.spent ∧ s.server.tokens h = some t

def Granted (i : ThreadId) (viaAat : Bool) (s : Recorded Operation) : Prop :=
  Unsettled i s ∧ (viaAat = false → Spender i s)

theorem Steady.uncreated (h : Steady i s s') (hs : Uncreated i s) :
    Uncreated i s' := fun id hid => hs id ((h.created id).1 hid)

theorem Steady.unsettled (h : Steady i s s') (hs : Unsettled i s) :
    Unsettled i s' := ⟨h.uncreated hs.1, fun row hrow => hs.2 row ((h.deleted row).1 hrow)⟩

theorem Steady.singleUse (h : Steady i s s') (hs : SingleUse i s) : SingleUse i s' := by
  obtain ⟨x, t, hx, ht, hkind⟩ := hs
  obtain ⟨t', ht', hkind'⟩ := h.kinds x t ht
  exact ⟨x, t', (h.spent x).2 hx, ht', hkind'.trans hkind⟩

variable {viaAat : Bool}

theorem Steady.granted (h : Steady i s s') (hs : Granted i viaAat s) : Granted i viaAat s' := by
  refine ⟨h.unsettled hs.1, fun hvia => ?_⟩
  obtain ⟨x, t, hx, ht⟩ := hs.2 hvia
  obtain ⟨t', ht', -⟩ := h.kinds x t ht
  exact ⟨x, t', (h.spent x).2 hx, ht'⟩

theorem ends_consume {h : String} (hs : Sound s) (hi : Unsettled i s) (failure : Failure) :
    Ends setup i (fun consumed s' => consumed = true → Granted i false s')
      (execute failure (.consume h)) s := by
  refine ends_query failure hs trivial (fun _ s s' hrely hpost hc => hrely.granted (hpost hc)) ?_
  rintro c after consumed - - hdone rfl
  refine ⟨hi, fun _ => ?_⟩
  rcases s.server.consume_cases h with hsame | ⟨t, ht, -, heq⟩
  · cases hsame.symm.trans (some.inj hdone)
  · cases heq.symm.trans (some.inj hdone)
    have hne : update s.server.tokens h (some (t.spend s.server.now)) h ≠ s.server.tokens h := by
      rw [update_self, ht]
      intro h
      have hcount := congrArg EnrollmentToken.useCount (some.inj h)
      simp [EnrollmentToken.spend] at hcount
    refine ⟨h, t.spend s.server.now, ?_, update_self ..⟩
    simp only [record, if_neg hne]
    exact mem_cons_self

private theorem ends_matchesDefault (token : Text) (hs : Sound s) (hi : Unsettled i s) :
    Ends setup i (fun _ s' => Unsettled i s') (matchesDefault setup token) s := by
  refine wpOk_bind hs (ends_execute aatUnavailable .readAat trivial
    (fun _ _ h => h.unsettled) hs hi) fun stored s' hs' ⟨hi', _⟩ => ?_
  cases stored with
  | none => exact wpOk_pure hi'
  | some =>
    dsimp only
    split
    · exact wpOk_throw _
    · exact wpOk_pure hi'
    · exact wpOk_pure hi'

private theorem ends_authorizeInstall (token : Text) (hs : Sound s) (hi : Unsettled i s) :
    Ends setup i (fun grant s' => Granted i grant.viaAat s') (authorizeInstall setup token) s := by
  refine wpOk_bind hs (ends_matchesDefault token hs hi) fun isDefault s' hs' hi' => ?_
  cases isDefault with
  | true =>
    refine wpOk_bind hs' (ends_execute .internal .readRequireApproval trivial
      (fun _ _ h => h.unsettled) hs' hi') fun required s'' _ ⟨hi'', _⟩ => ?_
    exact wpOk_pure ⟨hi'', nofun⟩
  | false =>
    refine wpOk_bind hs' (ends_execute aatUnavailable (.findActiveInstallToken _) trivial
      (fun _ _ h => h.unsettled) hs' hi') fun token s'' _ ⟨hi'', _⟩ => ?_
    cases token with
    | none => exact wpOk_throw _
    | some => exact wpOk_pure ⟨hi'', nofun⟩

theorem ends_authorize (token : Text) (hs : Sound s) (hi : Unsettled i s) :
    Ends setup i (fun grant s' => Granted i grant.viaAat s') (authorize setup token) s := by
  rw [authorize]
  split_ifs
  · exact ends_authorizeInstall token hs hi
  · refine wpOk_bind hs (ends_consume hs hi .internal) fun consumed s' hs' hi' => ?_
    cases consumed with
    | false => exact wpOk_throw _
    | true =>
      refine wpOk_bind hs' (ends_tryTo (.kind _) trivial (fun _ _ h => h.granted) hs'
        (hi' rfl)) fun kind s'' _ hi'' => ?_
      exact wpOk_pure hi''

theorem ends_isConnected (id : HostId) (hs : Sound s)
    (hi : Granted i viaAat s) (failure : Failure) :
    Ends setup i (fun connected s' => Unsettled i s' ∧
        (connected = false → viaAat = false → SingleUse i s'))
      (execute failure (.isConnected id)) s := by
  refine ends_query failure hs trivial (fun _ s s' hrely hpost => ⟨hrely.unsettled hpost.1,
    fun hno hvia => hrely.singleUse (hpost.2 hno hvia)⟩) ?_
  rintro c after connected hok - hperform
  refine ⟨hi.1, fun hno hvia => ?_⟩
  obtain ⟨h, t, hspent, ht⟩ := hi.2 hvia
  refine ⟨h, t, hspent, ?_⟩
  cases hperform
  refine ⟨ht, ?_⟩
  cases hkind : t.reusable with
  | false => rfl
  | true => exact nomatch hno.symm.trans (hok (i, h) hspent rfl t ht hkind)

private theorem ends_deleteHost {id : HostId} (hs : Sound s) (hi : Unsettled i s)
    (hsingle : SingleUse i s) (failure : Failure) :
    Ends setup i (fun _ s' => Uncreated i s') (execute failure (.deleteHost id)) s :=
  ends_query failure hs (.inr ⟨hi, hsingle⟩) (fun _ _ _ hrely => hrely.uncreated)
    fun _ _ _ _ _ _ => hi.1

theorem ends_makeRoom (name : String) (hs : Sound s) (hi : Granted i viaAat s) :
    Ends setup i (fun _ s' => Uncreated i s') (makeRoom viaAat name) s := by
  refine wpOk_bind hs (ends_execute .internal (.findByName name) trivial
    (fun _ _ h => h.granted) hs hi) fun existing s₁ hs₁ ⟨hi₁, _⟩ => ?_
  cases existing with
  | none => exact wpOk_pure hi₁.1.1
  | some existing =>
    refine wpOk_bind hs₁ (ends_isConnected existing.id hs₁ hi₁ .internal)
      fun connected s₂ hs₂ ⟨hi₂, hsingle⟩ => ?_
    cases connected with
    | true => exact wpOk_throw _
    | false =>
      cases viaAat with
      | true => exact wpOk_throw _
      | false =>
        refine wpOk_bind hs₂ (ends_deleteHost hs₂ hi₂ (hsingle rfl rfl) .internal)
          fun _ s₃ hs₃ hi₃ => ?_
        refine wpOk_bind hs₃ (ends_tryTo (.recordAudit _) trivial
          (fun _ _ h => h.uncreated) hs₃ hi₃) fun _ s₄ _ hi₄ => ?_
        exact wpOk_pure hi₄

theorem ends_insertHost (row : HostRow) (hs : Sound s) (hi : Uncreated i s) (failure : Failure) :
    Ends setup i (fun _ s' => (i, row.id) ∈ s'.created) (execute failure (.insertHost row)) s := by
  refine ends_query failure hs hi (fun _ _ _ hrely => (hrely.created row.id).2) ?_
  rintro _ after _ - - hperform
  obtain ⟨hosts, hhosts, heq⟩ := map_eq_some_iff.1 hperform
  cases heq
  obtain ⟨hbefore, hafter⟩ := HostTable.findById_of_insert hhosts
  simp only [record, hbefore, hafter]
  exact mem_cons_self

theorem ends_createHost (req : Request) (pendingApproval : Bool) (hs : Sound s)
    (hi : Uncreated i s) :
    Ends setup i (fun host s' => (i, host.id) ∈ s'.created)
      (createHost setup req pendingApproval) s := by
  refine wpOk_bind hs (ends_insertHost _ hs hi .internal) fun _ s₁ hs₁ hi₁ => ?_
  refine wpOk_bind hs₁ (ends_execute .internal (.findById req.hostId) trivial
    (fun _ _ h => (h.created req.hostId).2) hs₁ hi₁)
    fun host s₂ _ ⟨hi₂, server, server', hfind⟩ => ?_
  refine wpOk_found fun host hhost => ?_
  have hfound := (mk.inj (some.inj hfind)).2.trans hhost
  have hid : host.id = req.hostId := by simpa using find?_some hfound
  rwa [hid]

section Created

variable {id : HostId} (hs : Sound s) (hi : (i, id) ∈ s.created)
include hs hi

theorem ends_recordOrigin (grant : Grant) :
    Ends setup i (fun _ s' => (i, id) ∈ s'.created) (recordOrigin id grant) s := by
  refine wpOk_bind hs (ends_tryTo (.setEnrolledVia id _ _) trivial
    (fun _ _ h => (h.created id).2) hs hi) fun _ s₁ hs₁ hi₁ => ?_
  split
  · refine wpOk_bind hs₁ (ends_tryTo (.recordUse _) trivial
      (fun _ _ h => (h.created id).2) hs₁ hi₁) fun _ s₂ _ hi₂ => ?_
    exact wpOk_pure hi₂
  · exact wpOk_pure hi₁

theorem ends_storeControlPlane (flag : Bool) :
    Ends setup i (fun _ s' => (i, id) ∈ s'.created) (storeControlPlane id flag) s := by
  refine wpOk_bind hs (ends_tryTo (.updateControlPlane id flag) trivial
    (fun _ _ h => (h.created id).2) hs hi) fun changed s₁ hs₁ hi₁ => ?_
  rcases changed with _ | _ | _
  · exact wpOk_pure hi₁
  · refine wpOk_bind hs₁ (ends_tryTo (.findById id) trivial
      (fun _ _ h => (h.created id).2) hs₁ hi₁) fun _ s₂ _ hi₂ => ?_
    exact wpOk_pure hi₂
  · exact wpOk_pure hi₁

private theorem ends_deleteOwn : Ends setup i (fun _ _ => True) (tryTo (.deleteHost id)) s :=
  ends_attempt hs (.inl hi) (fun _ _ _ h => h) fun _ _ => trivial

theorem ends_flagControlPlane : Ends setup i (fun _ _ => True) (flagControlPlane id) s := by
  refine wpOk_bind hs (ends_storeControlPlane hs hi true) fun stored s₁ hs₁ hi₁ => ?_
  cases stored with
  | none =>
    refine wpOk_bind hs₁ (ends_deleteOwn hs₁ hi₁) fun _ _ _ _ => ?_
    exact wpOk_throw _
  | some =>
    exact wpOk_mono hs₁ (ends_execute .internal (.setControlPlane id true) trivial
      (F := fun _ => True) (fun _ _ _ h => h) hs₁ trivial) fun _ _ _ h => h.1

end Created

private theorem ends_confirm (req : Request) (grant : Grant) (host : HostRow) (hs : Sound s) :
    Ends setup i (fun _ _ => True) (confirm req grant host) s := by
  refine wpOk_bind hs (ends_tryTo (.recordAudit _) trivial (F := fun _ => True)
    (fun _ _ _ h => h) hs trivial) fun _ _ _ _ => ?_
  exact wpOk_pure trivial

private theorem ends_enroll (req : Request) (hs : Sound s) (hi : Unsettled i s) :
    Ends setup i (fun _ _ => True) (enroll setup req) s := by
  refine wpOk_bind hs (ends_authorize req.token hs hi) fun grant s₁ hs₁ hi₁ => ?_
  refine wpOk_bind hs₁ (ends_makeRoom req.name hs₁ hi₁) fun _ s₂ hs₂ hi₂ => ?_
  refine wpOk_bind hs₂ (ends_createHost req grant.pendingApproval hs₂ hi₂)
    fun host s₃ hs₃ hi₃ => ?_
  refine wpOk_bind hs₃ (ends_recordOrigin hs₃ hi₃ grant) fun _ s₄ hs₄ hi₄ => ?_
  dsimp only
  split_ifs
  · refine wpOk_bind hs₄ (ends_flagControlPlane hs₄ hi₄) fun _ s₅ hs₅ _ => ?_
    exact ends_confirm req grant host hs₅
  · exact ends_confirm req grant host hs₄

end Programs

/-! ## Main results -/

/-- Where enrollments with deployment tokens find hosts of their name connected, hosts are deleted
with single-use tokens, and each of these leads to at most one deleted and one stored host. -/
theorem authorized_of_findsConnected (setup : Setup) (server : Server Operation)
    {P : Pool ThreadId (Activity Operation) (Recorded Operation) (Op Operation)
      (fun op => Option op.Answer) (Except Failure (Option Response))}
    (h : Reach (Activity.code setup) (Recorded.exec setup.sameName) FindsConnected
      (.init ⟨server, [], [], []⟩) P) : Authorized P.shared := by
  have hcode : ∀ i (j : Activity Operation) s, Sound s → Unsettled i s →
      (enrollmentRules Operation).wp (Recorded.exec setup.sameName) FindsConnected i
        (fun _ _ => True) (j.code setup) s := by
    intro i j s hs hi
    cases j with
    | enroll req =>
      refine wp_mono hs (?_ : Ends setup i (fun _ _ => True) _ s) fun _ _ _ _ => trivial
      refine wpOk_bind hs (ends_enroll req hs hi) fun _ _ _ _ => ?_
      exact wpOk_pure trivial
    | other change =>
      refine wp_mono hs (?_ : Ends setup i (fun _ _ => True) _ s) fun _ _ _ _ => trivial
      refine wpOk_bind hs (ends_execute .internal (.elsewhere change) trivial
        (F := fun _ => True) (fun _ _ _ h => h) hs trivial) fun _ _ _ _ => ?_
      exact wpOk_pure trivial
  have hsound : Sound (⟨server, [], [], []⟩ : Recorded Operation) :=
    ⟨by simp, by simp, .nil, .nil, by simp⟩
  have hholds : Rules.Holds (enrollmentRules Operation) (Recorded.exec setup.sameName)
      FindsConnected Unsettled (fun _ _ _ _ => True) P :=
    reach hsound (fun i => ⟨by simp [Uncreated], by simp⟩)
      (fun i s s' _ hrely hi => hrely.unsettled hi) hcode h
  exact Sound.authorized hholds.inv

instance (i : ThreadId) (op : Op Operation) (c : Outcome) (s : Recorded Operation) :
    Decidable (FindsConnected i op c s) := by
  unfold FindsConnected
  cases op <;> infer_instance

def webServer : HostRow := ⟨5, "web01", "w", false, false, none, none⟩

def oldToken (reusable : Bool) : EnrollmentToken := ⟨3, reusable, false, 60, none, none, 0⟩

def withWebServer (reusable : Bool) : Recorded Unit :=
  ⟨serverWith (String.ofList ['d']) (oldToken reusable) ⟨[webServer], by decide⟩, [], [], []⟩

/-- The token is consumed, its kind read, and the host found, disconnected, and deleted. -/
def replaceWebServer : List (Event ThreadId (Activity Unit) Outcome) :=
  .start 0 (.enroll ⟨['d'], "web01", 6, ['c']⟩) :: replicate 5 (.run 0 .done)

theorem authorized_of_findsConnected_single :
    ∃ P, Reach (Activity.code plainSetup) (Recorded.exec plainSetup.sameName) FindsConnected
        (.init (withWebServer false)) P ∧
      P.shared.deleted = [(0, webServer)] ∧ Authorized P.shared := by
  obtain ⟨P, hP, hdeleted⟩ : ∃ P, Reach (Activity.code plainSetup)
      (Recorded.exec plainSetup.sameName) FindsConnected (.init (withWebServer false)) P ∧
        P.shared.deleted = [(0, webServer)] :=
    exists_reach_of_fires replaceWebServer (by decide)
  exact ⟨P, hP, hdeleted, authorized_of_findsConnected plainSetup _ hP⟩

/-- With a deployment token the same machine replaces the host just as well. -/
theorem not_authorized_of_deployment :
    ∃ P, Reach (Activity.code plainSetup) (Recorded.exec plainSetup.sameName)
        (fun _ _ _ _ => True) (.init (withWebServer true)) P ∧ ¬ Authorized P.shared := by
  obtain ⟨P, hP, hdeleted, hspent⟩ : ∃ P, Reach (Activity.code plainSetup)
      (Recorded.exec plainSetup.sameName) (fun _ _ _ _ => True) (.init (withWebServer true)) P ∧
        P.shared.deleted = [(0, webServer)] ∧
        ∀ e ∈ P.shared.spent, (P.shared.server.tokens e.2).all (·.reusable) :=
    exists_reach_of_fires replaceWebServer (by decide)
  refine ⟨P, hP, fun hauth => ?_⟩
  obtain ⟨h, _, hh, ht, hsingle⟩ := hauth.deleted 0 webServer (hdeleted ▸ mem_cons_self)
  have hreusable := hspent (0, h) hh
  rw [ht, all_some, hsingle] at hreusable
  cases hreusable

end Abyssal.Hosts.Enrollment
