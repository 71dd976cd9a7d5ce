import Abyssal.Hosts.PendingTable

/-!
# The end of a connection

The registry is keyed by the host alone, so `unregister` removes whatever connection the host has by
then and drops every call that waits for the host. A host that reconnected meanwhile loses its new
connection.

## Main results

* `newestKept_of_exitsAlone`: it is kept if no handler unregisters its host while a newer connection
  of it is live.
-/

namespace Abyssal.Hosts

open Resumption Function State

variable {Operation : Type} {s s' : State Operation} {i j : ThreadId}

def Op.unregistered : Op Operation → Option HostId
  | .removeConnection host => some host
  | .retainPending host => some host
  | _ => none

/-- A thread unregisters a host only while no newer connection of the host is live. -/
def ExitsAlone (i : ThreadId) (op : Op Operation) (_ : Choice) (s : State Operation) : Prop :=
  ∀ host ∈ op.unregistered, ∀ j ∈ s.latest host, j = i ∨ s.live j = false

instance (i : ThreadId) (op : Op Operation) (c : Choice) (s : State Operation) :
    Decidable (ExitsAlone i op c s) :=
  inferInstanceAs (Decidable (∀ host ∈ op.unregistered, ∀ j ∈ s.latest host, _))

/-- The newest connection of a host is registered while its handler serves it, and a call on it has
been answered or is pending. -/
structure NewestKept (s : State Operation) : Prop where
  registered : ∀ host j, s.latest host = some j → s.live j = true →
    ∃ conn, s.connections host = some conn ∧ conn.chan = j
  pending : ∀ i t, s.calls i = some t → t.stage = .inserted ∨ t.stage = .awaiting →
    s.latest t.host = some t.chan → s.live t.chan = true →
    (∃ o, s.oneshots i = .sent o) ∨
      s.oneshots i = .waiting ∧ ∃ r, t.request = some r ∧ ⟨r, t.host, i⟩ ∈ s.pending

/-- The part of `NewestKept` that the pending table does not imply. -/
structure Newest (s : State Operation) : Prop where
  registered : ∀ host j, s.latest host = some j → s.live j = true →
    ∃ conn, s.connections host = some conn ∧ conn.chan = j
  answerable : ∀ i t, s.calls i = some t → t.stage = .inserted ∨ t.stage = .awaiting →
    s.latest t.host = some t.chan → s.live t.chan = true →
    (∃ o, s.oneshots i = .sent o) ∨ s.oneshots i = .waiting

theorem Newest.kept (h : Newest s) (hs : Wf s) : NewestKept s where
  registered := h.registered
  pending i t ht hstage hlatest hlive := by
    refine (h.answerable i t ht hstage hlatest hlive).imp_right fun hw => ⟨hw, ?_⟩
    obtain ⟨-, r, ⟨_, ht', rfl, hr⟩, he⟩ := hs.waiting i hw
    cases ht.symm.trans ht'
    exact ⟨r, hr, he⟩

theorem newest_new (protection : ControlPlaneProtection) :
    Newest (new protection : State Operation) := by
  constructor <;> simp [new]

theorem Newest.setStage (h : Newest s) {f : CallTrack → Stage}
    (hf : ∀ t, s.calls i = some t → f t = .inserted ∨ f t = .awaiting →
      t.stage = .inserted ∨ t.stage = .awaiting) : Newest (s.setStage i f) where
  registered := h.registered
  answerable j t ht hstage hlatest hlive := by
    rcases eq_or_ne j i with rfl | hne
    · obtain ⟨t', ht', rfl⟩ : ∃ t', s.calls j = some t' ∧ { t' with stage := f t' } = t := by
        simpa [setStage, track] using ht
      exact h.answerable j t' ht' (hf t' ht' hstage) hlatest hlive
    · refine h.answerable j t ?_ hstage hlatest hlive
      simpa [State.setStage, State.track, hne] using ht

theorem Newest.removeEntries (h : Newest s) {p : PendingEntry → Bool}
    (hp : ∀ e ∈ s.pending, p e → ∀ t, s.calls e.waiter = some t →
      t.stage = .inserted ∨ t.stage = .awaiting → s.latest t.host = some t.chan →
      s.live t.chan → False) : Newest (s.removeEntries p) where
  registered := h.registered
  answerable j t ht hstage hlatest hlive := by
    rcases h.answerable j t ht hstage hlatest hlive with ⟨o, ho⟩ | hw
    · exact .inl ⟨o, removeEntries_oneshots_eq_sent.mpr ho⟩
    · refine .inr (removeEntries_oneshots_eq_waiting.mpr ⟨hw, ?_⟩)
      rintro e he hpe rfl
      exact hp e he hpe t ht hstage hlatest hlive

private theorem live_of_update (hlive : update s.live i false j) : j ≠ i ∧ s.live j := by
  rcases eq_or_ne j i with rfl | hne
  · simp at hlive
  · exact ⟨hne, by simpa [hne] using hlive⟩

theorem Effect.newest {op : Op Operation} {c : Choice} (he : Effect i s op s') (hs : Wf s)
    (hpre : pre i op s) (hok : ExitsAlone i op c s) (h : Newest s) : Newest s' := by
  cases he with
  | quiet hq =>
    refine ⟨fun host j => ?_, fun j t => ?_⟩
    · rw [hq.latest, hq.live, hq.connections]
      exact h.registered host j
    · rw [hq.calls, hq.latest, hq.live, hq.oneshots]
      exact h.answerable j t
  | insertConnection host =>
    have hf : Fresh i s := hpre
    refine ⟨fun host' j hlatest hlive => ?_, fun j t ht hstage hlatest hlive => ?_⟩
    · rcases eq_or_ne host' host with rfl | hne
      · obtain rfl : i = j := by simpa using hlatest
        exact ⟨_, update_self .., rfl⟩
      · simp only [update_of_ne hne] at hlatest ⊢
        have hji : j ≠ i := fun hji => hf.latest host' (hji ▸ hlatest)
        exact h.registered host' j hlatest (by simpa [hji] using hlive)
    · have hchan : t.chan ≠ i := hf.calls j t ht
      have hne : t.host ≠ host := by
        rintro rfl
        exact hchan (by simpa using hlatest.symm)
      exact h.answerable j t ht hstage (by simpa [hne] using hlatest)
        (by simpa [hchan] using hlive)
  | removeConnection host =>
    refine ⟨fun host' j hlatest hlive => ?_, fun j t ht hstage hlatest hlive => ?_⟩
    · obtain ⟨hji, hj⟩ := live_of_update hlive
      have hne : host' ≠ host := by
        rintro rfl
        rcases hok host' rfl j hlatest with heq | hend
        · exact hji heq
        · cases hj.symm.trans hend
      simpa [hne] using h.registered host' j hlatest hj
    · exact h.answerable j t ht hstage hlatest (live_of_update hlive).2
  | retainPending host =>
    have hrest : Newest ({ s with live := update s.live i false } : State Operation) :=
      ⟨fun host' j hlatest hlive => h.registered host' j hlatest (live_of_update hlive).2,
        fun j t ht hstage hlatest hlive =>
          h.answerable j t ht hstage hlatest (live_of_update hlive).2⟩
    have hkept := hrest.removeEntries (p := fun e => e.host = host) ?_
    · exact ⟨hkept.registered, hkept.answerable⟩
    intro e hmem hhost t ht hstage hlatest hlive
    obtain ⟨hchan, hj⟩ := live_of_update hlive
    obtain ⟨t', ht', hhost', -⟩ := hs.entry e hmem
    cases ht.symm.trans ht'
    have hhost : e.host = host := by simpa using hhost
    rcases hok host rfl t.chan (by rw [← hhost, ← hhost']; exact hlatest) with heq | hend
    · exact hchan heq
    · cases hj.symm.trans hend
  | resolve e outcome =>
    refine ⟨h.registered, fun j t ht hstage hlatest hlive => ?_⟩
    have hj := h.answerable j t ht hstage hlatest hlive
    rcases eq_or_ne j e.waiter with rfl | hne
    · simp only [answer, update_self]
      split_ifs with hw
      · exact .inl ⟨outcome, rfl⟩
      · exact hj
    · simpa only [answer, update_of_ne hne] using hj
  | lookup =>
    refine ⟨h.registered, fun j t ht hstage hlatest hlive => ?_⟩
    rcases eq_or_ne j i with rfl | hne
    · obtain rfl : _ = t := by simpa using ht
      simp at hstage
    · exact h.answerable j t (by simpa [hne] using ht) hstage hlatest hlive
  | insertPending =>
    refine ⟨h.registered, fun j t ht hstage hlatest hlive => ?_⟩
    rcases eq_or_ne j i with rfl | hne
    · exact .inr (update_self ..)
    · simp only [track, update_of_ne hne] at ht ⊢
      exact h.answerable j t ht hstage hlatest hlive
  | send =>
    obtain ⟨host, _, t, ht, -, -, -, hstage⟩ := hpre
    have hkept := h.setStage (i := i) (f := fun _ => .awaiting) fun t' ht' _ => by
      cases ht.symm.trans ht'
      exact .inl hstage
    exact ⟨hkept.registered, hkept.answerable⟩
  | sendFailed | elapse | await => exact h.setStage fun _ _ hstage => by simp at hstage
  | removePending requestId =>
    refine h.removeEntries fun e hmem hid t ht hstage _ _ => ?_
    obtain ⟨host, _, t', ht', hrest⟩ := hpre
    have hid : e.requestId = requestId := by simpa using hid
    have hwaiter : e.waiter = i :=
      hs.unique _ _ _ _ _ (hs.entry e hmem) ⟨t', ht', rfl, by rw [hid]; exact hrest.2.2.1⟩
    cases (hwaiter ▸ ht).symm.trans ht'
    rcases hstage with hstage | hstage <;> simp [hstage, Stage.IsOver] at hrest

/-- The newest connection of every host is kept in every run whose threads unregister a host only
while no newer connection of it is live. -/
theorem newestKept_of_exitsAlone {T : OperationTable Operation}
    {protection : ControlPlaneProtection} {P : HostPool Operation}
    (h : Reaches T protection ExitsAlone P) : NewestKept P.shared := by
  have hinv := Rules.inv_of_pre (I := Newest)
    (fun _ => holds_of_reaches) (fun _ _ _ _ _ => trivial)
    (fun i op c s s' r hs hpre hI hok hexec => (effect_of_exec hexec).newest hs hpre hok hI)
    .refl (newest_new protection) h
  exact hinv.2.kept (holds_of_reaches hinv.1).inv

theorem newestKept_of_exitsAlone_second_connection :
    ∃ P, Reaches pingTable ⟨∅, none⟩ ExitsAlone P ∧
      (P.shared.latest 0 = some 2 ∧ P.shared.live 2 ∧ P.shared.oneshots 3 = .waiting) ∧
      NewestKept P.shared := by
  obtain ⟨P, hP, hnewest⟩ : ∃ P, Reaches pingTable ⟨∅, none⟩ ExitsAlone P ∧
      P.shared.latest 0 = some 2 ∧ P.shared.live 2 ∧ P.shared.oneshots 3 = .waiting :=
    exists_reach_of_fires (connect 1 0 1 ++ [.run 1 .hangUp, .run 1 .go, .run 1 .go] ++
      connect 2 0 1 ++ dispatchPing 3 0) (by decide)
  exact ⟨P, hP, hnewest, newestKept_of_exitsAlone hP⟩

/-- After a reconnect, the end of the old connection unregisters the new one, and fails the call
that waits on it. -/
theorem not_newestKept_after_reconnect :
    ¬ ∀ P, Reaches pingTable ⟨∅, none⟩ (fun _ _ _ _ => True) P → NewestKept P.shared := by
  intro hall
  obtain ⟨P, hP, hlatest, hlive, hgone⟩ :
      ∃ P, Reaches pingTable ⟨∅, none⟩ (fun _ _ _ _ => True) P ∧
        P.shared.latest 0 = some 2 ∧ P.shared.live 2 ∧ P.shared.connections 0 = none :=
    exists_reach_of_fires (connect 1 0 1 ++ connect 2 0 1 ++ dispatchPing 3 0 ++
      [.run 1 .hangUp, .run 1 .go, .run 1 .go]) (by decide)
  obtain ⟨_, hconn, -⟩ := (hall P hP).registered 0 2 hlatest hlive
  cases hgone.symm.trans hconn

end Abyssal.Hosts
