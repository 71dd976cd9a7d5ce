import Abyssal.Thanatos.Correlation

/-!
# One alert for a burst

A finding with a text that the host had before, however long ago, does not go in. The rule for one
host then sends its message all the same, with every scan, since no finding starts the cooldown; the
rules across hosts stay silent.

## Main results

* `alerted_iff_freshTexts`: when a burst gives one alert.
-/

namespace Abyssal.Thanatos

open Table List EventTable

variable (setup : Setup) (scan : Scan)

/-! ### What an alert changes for a host -/

namespace Store

def correlationFindings (s : Store) (host : HostId) : ℕ :=
  s.events.rows.countP fun event => event.host = host && event.isCorrelation setup

def messages (s : Store) (host : HostId) : ℕ :=
  s.dispatched.countP fun message => message.about = host && message.recipients ≠ []

end Store

/-- The event table has no row with the hash of the alert's finding. -/
def Fresh (s : Store) (alert : Alert) : Prop :=
  setup.lineHash alert.host correlationSource alert.rawLine ∉ s.events.hashes

instance (s : Store) (alert : Alert) : Decidable (Fresh setup s alert) :=
  inferInstanceAs (Decidable (¬_))

def Scan.audience : ℕ := if scan.recipients = [] then 0 else 1

theorem isCorrelation_event (alert : Alert) : (alert.event setup scan).isCorrelation setup :=
  setup.sameText_correlation

theorem since_event {minutes : ℕ} (h : 0 < minutes) (alert : Alert) :
    (alert.event setup scan).since scan.now minutes := by
  have hfloor : wholeSeconds scan.now ≤ scan.now := Nat.div_mul_le_self _ _
  have hlt : wholeSeconds scan.now < scan.now + minutes * 60000000 := by omega
  exact decide_eq_true hlt

namespace Store

variable {setup scan} {s : Store} {alert : Alert} (always : Bool)

theorem raise_of_recent (h : s.recent setup scan alert.host) :
    (s.raise setup scan always alert).1 = s := by
  rw [raise, if_pos h]

theorem raise_of_fresh (h : s.recent setup scan alert.host = false) (hfresh : Fresh setup s alert) :
    ∃ events : EventTable, events.rows = alert.event setup scan :: s.events.rows ∧
      (s.raise setup scan always alert).1 = { s with events := events }.notify scan alert := by
  have hnew : (s.events.insertIfNew (alert.event setup scan)).2 := decide_eq_true hfresh
  refine ⟨(s.events.insertIfNew (alert.event setup scan)).1, addNew_of_notMem hfresh, ?_⟩
  simp [raise, h, hnew]

theorem raise_of_stale (h : s.recent setup scan alert.host = false)
    (hstale : ¬Fresh setup s alert) :
    (s.raise setup scan always alert).1 = if always then s.notify scan alert else s := by
  have hold : s.events.insertIfNew (alert.event setup scan) = (s.events, false) :=
    insertIfNew_of_mem (not_not.1 hstale)
  simp only [raise, h, Bool.false_eq_true, if_false, hold, Bool.false_or]
  split_ifs
  all_goals rfl

/-- An alert leaves the store, sends its message, or goes in and sends its message. -/
theorem raise_cases {P : Store → Prop} (hsame : P s) (hnotify : P (s.notify scan alert))
    (hinsert : ∀ events : EventTable, events.rows = alert.event setup scan :: s.events.rows →
      P ({ s with events := events }.notify scan alert)) :
    P (s.raise setup scan always alert).1 := by
  cases hrecent : s.recent setup scan alert.host with
  | true => rwa [raise_of_recent always hrecent]
  | false =>
    by_cases hfresh : Fresh setup s alert
    · obtain ⟨events, hrows, heq⟩ := raise_of_fresh always hrecent hfresh
      rw [heq]
      exact hinsert events hrows
    · rw [raise_of_stale always hrecent hfresh]
      split_ifs
      · exact hnotify
      · exact hsame

end Store

/-- What a host has: whether it has a recent finding, the number of its findings, and the
number of messages about it. -/
structure Standing where
  recent : Bool
  findings : ℕ
  messages : ℕ

def Standing.raised (st : Standing) (audience : ℕ) : Standing :=
  ⟨true, st.findings + 1, st.messages + audience⟩

namespace Store

def standing (s : Store) (host : HostId) : Standing where
  recent := s.recent setup scan host
  findings := s.correlationFindings setup host
  messages := s.messages host

variable {setup scan} {s : Store} {alert : Alert} (always : Bool) {host : HostId}

theorem standing_notify :
    (s.notify scan alert).standing setup scan host = { s.standing setup scan host with
      messages := s.messages host + if alert.host = host then scan.audience else 0 } := by
  unfold notify Scan.audience
  split_ifs with hnobody hhost hhost
  · rfl
  · rfl
  · simp [standing, recent, correlationFindings, messages, Alert.notification, hnobody, hhost]
  · simp [standing, recent, correlationFindings, messages, Alert.notification, hhost]

theorem standing_insert {events : EventTable}
    (h : events.rows = alert.event setup scan :: s.events.rows) :
    { s with events := events }.standing setup scan host = if alert.host = host then
        ⟨true, s.correlationFindings setup host + 1, s.messages host⟩
      else s.standing setup scan host := by
  have hcorrelation := isCorrelation_event setup scan alert
  have hsince := since_event setup scan s.settings.windowMinutes_pos alert
  have hevent : (alert.event setup scan).host = alert.host := rfl
  split_ifs with hhost
  · simp [standing, recent, correlationFindings, messages, hasRecentCorrelationEvent, h,
      hcorrelation, hsince, hevent, hhost]
  · simp [standing, recent, correlationFindings, messages, hasRecentCorrelationEvent, h,
      hevent, hhost]

theorem standing_raise_of_ne (h : alert.host ≠ host) :
    (s.raise setup scan always alert).1.standing setup scan host = s.standing setup scan host := by
  refine raise_cases (P := fun s' => s'.standing setup scan host = _) always rfl ?_
    fun events hrows => ?_
  · rw [standing_notify, if_neg h]
    rfl
  · rw [standing_notify, if_neg h, standing_insert hrows, if_neg h]
    rfl

theorem fresh_raise_of_ne {other : Alert} (h : alert.host ≠ other.host) :
    Fresh setup (s.raise setup scan always alert).1 other ↔ Fresh setup s other := by
  have hhash : setup.lineHash other.host correlationSource other.rawLine ≠
      (alert.event setup scan).lineHash := fun heq => h (setup.host_eq_of_lineHash heq).symm
  refine raise_cases (P := fun s' => Fresh setup s' other ↔ _) always Iff.rfl
    (by rw [Fresh, Fresh, events_notify]) fun events hrows => ?_
  rw [Fresh, Fresh, events_notify, hashes, hrows, map_cons, mem_cons,
    or_iff_right hhash, hashes]

theorem standing_raise_of_fresh (h : s.recent setup scan alert.host = false)
    (hfresh : Fresh setup s alert) :
    (s.raise setup scan always alert).1.standing setup scan alert.host =
      (s.standing setup scan alert.host).raised scan.audience := by
  obtain ⟨_, hrows, heq⟩ := raise_of_fresh always h hfresh
  rw [heq, standing_notify, if_pos rfl, standing_insert hrows, if_pos rfl]
  rfl

def raiseAll (setup : Setup) (scan : Scan) (s : Store) (alerts : List Alert) : Store :=
  alerts.foldl (fun s alert => (s.raise setup scan false alert).1) s

/-- Some alert for the host has a new text. -/
abbrev News (setup : Setup) (s : Store) (alerts : List Alert) (host : HostId) : Prop :=
  ∃ alert ∈ alerts, alert.host = host ∧ Fresh setup s alert

/-- The first alert with a new text goes in, and starts the cooldown for the others. -/
theorem standing_raiseAll (s : Store) (alerts : List Alert) :
    (s.raiseAll setup scan alerts).standing setup scan host =
      if s.recent setup scan host = false ∧ News setup s alerts host then
        (s.standing setup scan host).raised scan.audience else s.standing setup scan host := by
  induction alerts generalizing s with
  | nil => simp [raiseAll]
  | cons alert alerts ih =>
    change ((s.raise setup scan false alert).1.raiseAll setup scan alerts).standing _ _ _ = _
    rw [ih]
    by_cases hhost : alert.host = host
    · subst hhost
      cases hrecent : s.recent setup scan alert.host with
      | true => simp [raise_of_recent false hrecent, hrecent]
      | false =>
        by_cases hfresh : Fresh setup s alert
        · have hfirst := standing_raise_of_fresh false hrecent hfresh
          have hnow : (s.raise setup scan false alert).1.recent setup scan alert.host = true :=
            congrArg Standing.recent hfirst
          simp [hnow, hfirst, hfresh]
        · simp [News, raise_of_stale false hrecent hfresh, hrecent, hfresh]
    · have hsame : (s.raise setup scan false alert).1.standing setup scan host =
          s.standing setup scan host := standing_raise_of_ne false hhost
      have hrecent : (s.raise setup scan false alert).1.recent setup scan host =
          s.recent setup scan host := congrArg Standing.recent hsame
      have hnews : News setup (s.raise setup scan false alert).1 alerts host ↔
          News setup s (alert :: alerts) host := by
        simp only [News, exists_mem_cons_iff, hhost, false_and, false_or]
        refine exists_congr fun other => and_congr_right fun _ => and_congr_right fun hother => ?_
        exact fresh_raise_of_ne false (hother ▸ hhost)
      simp only [hsame, hrecent, hnews]

end Store

/-! ### What the rules call for -/

variable (s : Store)

def hostAlerts : List Alert :=
  if s.recentHigh setup scan < s.settings.threshold then []
  else [hostAlert scan s.settings (s.recentHigh setup scan)]

def crossHostAlerts : List Alert :=
  burstRule.alerts setup scan s ++ usernameRule.alerts setup scan s

def calledAlerts (p : Progress) : List Alert :=
  if p.aborted then [] else hostAlerts setup scan p.store ++ crossHostAlerts setup scan p.store

namespace Store

private theorem settings_raise (always : Bool) (s : Store) (alert : Alert) :
    (s.raise setup scan always alert).1.settings = s.settings := by
  unfold raise notify
  dsimp only
  split_ifs
  all_goals rfl

private theorem listRecentHighSeverityAllHosts_raise (always : Bool) (s : Store) (alert : Alert)
    (minutes : ℕ) :
    (s.raise setup scan always alert).1.events.listRecentHighSeverityAllHosts setup scan.now
        minutes = s.events.listRecentHighSeverityAllHosts setup scan.now minutes := by
  refine raise_cases (P := fun s' => s'.events.listRecentHighSeverityAllHosts _ _ _ = _) always
    rfl (by rw [events_notify]) fun events hrows => ?_
  rw [events_notify, listRecentHighSeverityAllHosts,
    listRecentHighSeverityAllHosts, hrows]
  simp [isCorrelation_event setup scan alert]

end Store

namespace CrossHostRule

variable (rule : CrossHostRule)

theorem alerts_raise (always : Bool) (s : Store) (alert : Alert) :
    rule.alerts setup scan (s.raise setup scan always alert).1 = rule.alerts setup scan s := by
  simp [alerts, Store.settings_raise, Store.listRecentHighSeverityAllHosts_raise]

private theorem alerts_raiseAll (s : Store) (called : List Alert) :
    rule.alerts setup scan (s.raiseAll setup scan called) = rule.alerts setup scan s := by
  induction called generalizing s with
  | nil => rfl
  | cons alert _ ih => exact (ih _).trans (rule.alerts_raise setup scan false s alert)

private theorem check_fst (s : Store) :
    (rule.check setup scan s).1 = s.raiseAll setup scan (rule.alerts setup scan s) := by
  have hfold : ∀ (called : List Alert) (acc : Store × Bool),
      (called.foldl (raiseNext setup scan) acc).1 = acc.1.raiseAll setup scan called := by
    intro called
    induction called with
    | nil => exact fun _ => rfl
    | cons alert _ ih => exact fun acc => ih (raiseNext setup scan acc alert)
  exact hfold _ (s, false)

end CrossHostRule

theorem ingestScan_fst : (ingestScan setup scan s).1 = let p := persistScanOutput setup scan s
      if p.aborted then p.store
      else (checkAndRaiseAlert setup scan p.store).1.raiseAll setup scan
        (crossHostAlerts setup scan p.store) := by
  have halerts : ∀ (rule : CrossHostRule) (s : Store),
      rule.alerts setup scan (checkAndRaiseAlert setup scan s).1 = rule.alerts setup scan s := by
    intro rule s
    unfold checkAndRaiseAlert
    split_ifs
    · rfl
    · exact rule.alerts_raise setup scan true s _
  dsimp only [ingestScan]
  split_ifs
  · rfl
  · change (usernameRule.check setup scan (burstRule.check setup scan _).1).1 = _
    rw [CrossHostRule.check_fst, CrossHostRule.check_fst, CrossHostRule.alerts_raiseAll, halerts,
      halerts, crossHostAlerts, Store.raiseAll, Store.raiseAll, Store.raiseAll, foldl_append]

/-! ### The alerts of an ingestion -/

namespace Store

def checked : Store :=
  (checkAndRaiseAlert setup scan s).1.raiseAll setup scan (crossHostAlerts setup scan s)

theorem hostAlerts_cases :
    hostAlerts setup scan s = [] ∧ (checkAndRaiseAlert setup scan s).1 = s ∨
      ∃ alert, hostAlerts setup scan s = [alert] ∧
        (checkAndRaiseAlert setup scan s).1 = (s.raise setup scan true alert).1 := by
  unfold hostAlerts checkAndRaiseAlert
  split_ifs
  · exact .inl ⟨rfl, rfl⟩
  · exact .inr ⟨_, rfl, rfl⟩

variable {setup scan} {s : Store} {host : HostId}

/-- The alert of the scanned host, if its text is old, is a message without a finding. -/
abbrev Again (setup : Setup) (scan : Scan) (s : Store) (host : HostId) : Prop :=
  ∃ alert ∈ hostAlerts setup scan s, alert.host = host ∧ ¬Fresh setup s alert

private theorem standing_checkAndRaiseAlert_of_recent (h : s.recent setup scan host) :
    (checkAndRaiseAlert setup scan s).1.standing setup scan host = s.standing setup scan host := by
  obtain ⟨-, heq⟩ | ⟨alert, -, heq⟩ := hostAlerts_cases setup scan s
  · rw [heq]
  · rw [heq]
    by_cases hhost : alert.host = host
    · rw [raise_of_recent true (hhost ▸ h)]
    · exact standing_raise_of_ne true hhost

theorem standing_checkAndRaiseAlert (h : s.recent setup scan host = false) :
    News setup s (hostAlerts setup scan s) host ∧ ¬Again setup scan s host ∧
        (checkAndRaiseAlert setup scan s).1.standing setup scan host =
          (s.standing setup scan host).raised scan.audience ∨
      ¬News setup s (hostAlerts setup scan s) host ∧
        (checkAndRaiseAlert setup scan s).1.standing setup scan host =
          { s.standing setup scan host with
            messages := s.messages host + if Again setup scan s host then scan.audience else 0 } ∧
        ∀ alert : Alert, alert.host = host →
          (Fresh setup (checkAndRaiseAlert setup scan s).1 alert ↔ Fresh setup s alert) := by
  obtain ⟨hnil, heq⟩ | ⟨alert, hsingle, heq⟩ := hostAlerts_cases setup scan s
  · rw [heq]
    exact .inr ⟨by simp [hnil], by simp [hnil, standing], fun _ _ => Iff.rfl⟩
  rw [heq]
  by_cases hhost : alert.host = host
  · subst hhost
    by_cases hfresh : Fresh setup s alert
    · have hfirst := standing_raise_of_fresh true h hfresh
      exact .inl ⟨⟨alert, by simp [hsingle], rfl, hfresh⟩, by simp [hsingle, hfresh], hfirst⟩
    · rw [raise_of_stale true h hfresh, if_pos rfl]
      refine .inr ⟨by simp [hsingle, hfresh], by simp [standing_notify, hsingle, hfresh], ?_⟩
      exact fun other _ => by rw [Fresh, Fresh, events_notify]
  · refine .inr ⟨by simp [hsingle, hhost], ?_, ?_⟩
    · rw [standing_raise_of_ne true hhost]
      simp [standing, hsingle, hhost]
    · exact fun other hother => fresh_raise_of_ne true (hother ▸ hhost)

theorem standing_checked_of_recent (h : s.recent setup scan host) :
    (s.checked setup scan).standing setup scan host = s.standing setup scan host := by
  have hfirst := standing_checkAndRaiseAlert_of_recent h
  have hrecent : (checkAndRaiseAlert setup scan s).1.recent setup scan host = true :=
    (congrArg Standing.recent hfirst).trans h
  rw [checked, standing_raiseAll, if_neg (by simp [hrecent]), hfirst]

theorem standing_checked (h : s.recent setup scan host = false) :
    let st : Standing := { s.standing setup scan host with
      messages := s.messages host + if Again setup scan s host then scan.audience else 0 }
    (s.checked setup scan).standing setup scan host =
      if News setup s (hostAlerts setup scan s ++ crossHostAlerts setup scan s) host then
        st.raised scan.audience
      else st := by
  dsimp only
  rw [checked, standing_raiseAll]
  rcases standing_checkAndRaiseAlert h with ⟨hnews, hagain, hfirst⟩ | ⟨hnews, hfirst, hsame⟩
  · have hrecent : (checkAndRaiseAlert setup scan s).1.recent setup scan host = true :=
      congrArg Standing.recent hfirst
    have hall : News setup s (hostAlerts setup scan s ++ crossHostAlerts setup scan s) host :=
      hnews.imp fun alert halert => ⟨mem_append_left _ halert.1, halert.2⟩
    rw [if_neg (by simp [hrecent]), if_pos hall, if_neg hagain, hfirst]
    rfl
  · have hrecent : (checkAndRaiseAlert setup scan s).1.recent setup scan host = false :=
      (congrArg Standing.recent hfirst).trans h
    have hcross : News setup (checkAndRaiseAlert setup scan s).1 (crossHostAlerts setup scan s)
        host ↔ News setup s (hostAlerts setup scan s ++ crossHostAlerts setup scan s) host := by
      simp only [News, mem_append, or_and_right, exists_or, hnews, false_or]
      exact exists_congr fun alert => and_congr_right fun _ => and_congr_right (hsame alert)
    simp only [hrecent, true_and, hcross, hfirst]

end Store

/-- A rule calls for the host, and the host has no recent finding. -/
def Progress.due (p : Progress) (host : HostId) : Bool :=
  (calledAlerts setup scan p).any (fun alert => alert.host = host) &&
    !p.store.recent setup scan host

/-- Each host that a rule calls for and that has no recent finding gets one finding, and one message
if there are recipients; no other gets anything. -/
def Alerted (s : Store) : Prop :=
  let p := persistScanOutput setup scan s
  let s' := (ingestScan setup scan s).1
  ∀ host, s'.correlationFindings setup host =
      p.store.correlationFindings setup host + (p.due setup scan host).toNat ∧
    s'.messages host = p.store.messages host + (p.due setup scan host).toNat * scan.audience

/-- An alert for the host has a new text, and that of the rule for one host is such if its message
is received. -/
def FreshTexts (p : Progress) (host : HostId) : Prop :=
  (∃ alert ∈ calledAlerts setup scan p, alert.host = host ∧ Fresh setup p.store alert) ∧
    (scan.recipients ≠ [] → ∀ alert ∈ hostAlerts setup scan p.store, alert.host = host →
      Fresh setup p.store alert)

variable {setup scan} {p : Progress} {host : HostId} {s : Store}

theorem due_eq_true :
    p.due setup scan host ↔ (∃ alert ∈ calledAlerts setup scan p, alert.host = host) ∧
        p.store.recent setup scan host = false := by
  simp [Progress.due]

theorem Scan.audience_eq_zero : scan.audience = 0 ↔ scan.recipients = [] := by
  by_cases h : scan.recipients = []
  · simp [Scan.audience, h]
  · simp [Scan.audience, h]

private theorem freshTexts_iff : FreshTexts setup scan p host ↔
    p.store.News setup (calledAlerts setup scan p) host ∧
      (scan.audience ≠ 0 → ¬p.store.Again setup scan host) := by
  simp [FreshTexts, Scan.audience_eq_zero]

private theorem alerted_of_not_recent (haborted : p.aborted = false)
    (hrecent : p.store.recent setup scan host = false) :
    ((p.store.checked setup scan).correlationFindings setup host =
        p.store.correlationFindings setup host + (p.due setup scan host).toNat ∧
      (p.store.checked setup scan).messages host =
        p.store.messages host + (p.due setup scan host).toNat * scan.audience) ↔
      (p.due setup scan host → FreshTexts setup scan p host) := by
  have hcalled : calledAlerts setup scan p =
      hostAlerts setup scan p.store ++ crossHostAlerts setup scan p.store := by
    rw [calledAlerts, haborted, if_neg Bool.false_ne_true]
  have hstanding := Store.standing_checked hrecent
  have hfindings := congrArg Standing.findings hstanding
  have hmessages := congrArg Standing.messages hstanding
  rw [← hcalled, apply_ite Standing.findings] at hfindings
  rw [← hcalled, apply_ite Standing.messages] at hmessages
  dsimp only [Store.standing, Standing.raised] at hfindings hmessages
  rw [hfindings, hmessages, freshTexts_iff]
  by_cases hnews : p.store.News setup (calledAlerts setup scan p) host
  · obtain ⟨alert, hmem, hhost, -⟩ := id hnews
    -- The second message shows unless nobody receives it.
    rw [due_eq_true.2 ⟨⟨alert, hmem, hhost⟩, hrecent⟩, if_pos hnews, if_pos hnews]
    by_cases hagain : p.store.Again setup scan host
    · simp [hnews, hagain]
    · simp [hnews, hagain]
  · rw [if_neg hnews, if_neg hnews]
    cases hdue : p.due setup scan host with
    | true => simp [hnews]
    | false =>
      have hagain : ¬p.store.Again setup scan host := by
        rintro ⟨alert, hmem, hhost, -⟩
        have hall : alert ∈ calledAlerts setup scan p := hcalled ▸ mem_append_left _ hmem
        exact nomatch hdue.symm.trans (due_eq_true.2 ⟨⟨alert, hall, hhost⟩, hrecent⟩)
      simp [hagain]

private theorem alerted_host_iff (s : Store) (host : HostId) :
    let p := persistScanOutput setup scan s
    let s' := (ingestScan setup scan s).1
    (s'.correlationFindings setup host =
        p.store.correlationFindings setup host + (p.due setup scan host).toNat ∧
      s'.messages host = p.store.messages host + (p.due setup scan host).toNat * scan.audience) ↔
      (p.due setup scan host → FreshTexts setup scan p host) := by
  have hstore := ingestScan_fst setup scan s
  generalize persistScanOutput setup scan s = p at hstore
  dsimp only at hstore ⊢
  rw [hstore]
  cases haborted : p.aborted with
  | true =>
    have hdue : p.due setup scan host = false := by
      rw [Progress.due, calledAlerts, if_pos haborted]
      rfl
    simp [hdue]
  | false =>
    rw [if_neg Bool.false_ne_true]
    change ((p.store.checked setup scan).correlationFindings setup host = _ ∧
      (p.store.checked setup scan).messages host = _) ↔ _
    cases hrecent : p.store.recent setup scan host with
    | true =>
      have hstanding := Store.standing_checked_of_recent hrecent
      have hdue : p.due setup scan host = false := by
        rw [Progress.due, hrecent, Bool.not_true, Bool.and_false]
      rw [hdue, Bool.toNat_false, Nat.zero_mul]
      exact ⟨nofun, fun _ =>
        ⟨congrArg Standing.findings hstanding, congrArg Standing.messages hstanding⟩⟩
    | false => exact alerted_of_not_recent haborted hrecent

private theorem messages_persistScanOutput (s : Store) (host : HostId) :
    (persistScanOutput setup scan s).store.messages host = s.messages host := by
  obtain ⟨exports, heq, hnone⟩ := (offered_persistScanOutput setup scan s).exported
  have hzero :
      exports.countP (fun message => message.about = host && message.recipients ≠ []) = 0 := by
    rw [countP_eq_zero]
    intro message hmem
    simp [hnone message hmem]
  rw [Store.messages, heq, countP_append, hzero, Nat.zero_add]
  rfl

private theorem recent_persistScanOutput (h : s.recent setup scan host) :
    (persistScanOutput setup scan s).store.recent setup scan host := by
  have hsettings : (persistScanOutput setup scan s).store.settings = s.settings :=
    congrArg (fun config => config.2.2) (offered_persistScanOutput setup scan s).config
  obtain ⟨event, hmem, hevent⟩ := any_eq_true.1 h
  rw [Store.recent, hasRecentCorrelationEvent, hsettings, rows_persistScanOutput,
    any_eq_true]
  exact ⟨event, mem_addAll.2 (.inl hmem), hevent⟩

private theorem messages_of_recent (h : s.recent setup scan host) :
    (ingestScan setup scan s).1.messages host = s.messages host := by
  have hrecent := recent_persistScanOutput h
  have hstored : (persistScanOutput setup scan s).store.messages host = s.messages host :=
    messages_persistScanOutput s host
  rw [ingestScan_fst, ← hstored]
  dsimp only
  split_ifs
  · rfl
  · exact congrArg Standing.messages (Store.standing_checked_of_recent hrecent)

variable (setup scan) in
/-- An ingestion alerts as it should if and only if each host that is due has a new text. It sends
no message about a host that has a recent finding. -/
theorem alerted_iff_freshTexts (s : Store) :
    (Alerted setup scan s ↔ ∀ host, (persistScanOutput setup scan s).due setup scan host →
        FreshTexts setup scan (persistScanOutput setup scan s) host) ∧
    ∀ host, s.recent setup scan host →
      (ingestScan setup scan s).1.messages host = s.messages host :=
  ⟨forall_congr' fun host => alerted_host_iff s host, fun _ h => messages_of_recent h⟩

/-- Two bursts of two events each, an hour apart, and a scan of the quiet host half a minute
later. -/
def firstBurst : Scan :=
  scanOfWeb 1000
    "high\tSSH failed login\tauth\tFailed at 1\nhigh\tSSH failed login\tauth\tFailed at 2"

def secondBurst : Scan :=
  scanOfWeb 4600
    "high\tSSH failed login\tauth\tFailed at 3\nhigh\tSSH failed login\tauth\tFailed at 4"

def quietScan : Scan := scanOfWeb 4630 []

set_option maxRecDepth 20000 in
theorem alerted_firstBurst : Alerted plainSetup firstBurst emptyStore := by
  refine (alerted_iff_freshTexts plainSetup firstBurst emptyStore).1.2 fun host hdue => ?_
  have hhosts : (calledAlerts plainSetup firstBurst
      (persistScanOutput plainSetup firstBurst emptyStore)).map Alert.host = [1] := by decide
  obtain ⟨⟨alert, hmem, rfl⟩, -⟩ := due_eq_true.1 hdue
  have hone : alert.host = 1 := by
    rw [← mem_singleton]
    exact mem_map_of_mem hmem
  rw [hone, FreshTexts]
  decide

set_option maxRecDepth 20000 in
/-- The second burst has the counts of the first. It gets a message and no finding, and so does the
scan after it. -/
theorem not_alerted_of_secondBurst : let s₁ := (ingestScan plainSetup firstBurst emptyStore).1
    let s₂ := (ingestScan plainSetup secondBurst s₁).1
    let s₃ := (ingestScan plainSetup quietScan s₂).1
    ¬Alerted plainSetup secondBurst s₁ ∧
      [s₁, s₂, s₃].map (·.correlationFindings plainSetup 1) = [1, 1, 1] ∧
      [s₁, s₂, s₃].map (·.messages 1) = [1, 2, 3] := by
  refine ⟨fun h => ?_, by decide, by decide⟩
  exact absurd (h 1).1 (by decide)

end Abyssal.Thanatos
