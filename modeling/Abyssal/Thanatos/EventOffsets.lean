import Abyssal.Machine.Guarded
import Abyssal.Reading.Newest
import Abyssal.Text.Layout
import Abyssal.Thanatos.Scan

/-!
# The marks of the Windows event logs

A full scan asks each channel for the records with a watched id that are newer than the mark kept
for the channel, and the highest number among them becomes the mark. The query gives the newest
records, up to a number, so the mark may move past unread ones. Scans may overlap, an answer may be
lost, and the marks may not be readable.

## Main results

* `ingested_of_reached`: when no record is missed.
-/

namespace Abyssal.Thanatos

open Text Reading List Option Function Nat

/-! ### The query -/

/-- A record of a channel. Records are numbered from one, and the text has its line breaks
replaced. -/
structure Record where
  recordId : ℕ
  eventId : ℕ
  detail : Text
  pos : 0 < recordId
  lt : recordId < 18446744073709551616
  noBreak : '\n' ∉ detail
  deriving DecidableEq

def offsetFetchCap : ℕ := 1000

def baselineFetch : ℕ := 500

structure Query where
  ids : List ℕ
  after : Option ℕ
  maxEvents : ℕ

def windowsChannelScript (ids : List ℕ) (offset : ℕ) : Query :=
  if 0 < offset then ⟨ids, some offset, offsetFetchCap⟩ else ⟨ids, none, baselineFetch⟩

def Query.selects (q : Query) (r : Record) : Bool :=
  q.ids.contains r.eventId && q.after.all (· < r.recordId)

/-- `Get-WinEvent` without `-Oldest`: the newest records that are selected. -/
def getWinEvent (log : List Record) (q : Query) : List Record := newest q.selects q.maxEvents log

/-- `WINDOWS_EVENT_LINE`. The time, the address, the account and the message are the detail. -/
def eventLine (r : Record) : Text :=
  "EventID=" ++ (ofNat r.eventId ++ '\t' :: r.detail)

variable (events : List Record)

def maxRid : Option ℕ := (events.map Record.recordId).max?

def maxRidLine (n : ℕ) : Text := "MAXRID=" ++ ofNat n

def scriptOutput : Text :=
  unlines ((events.map eventLine ++ (maxRid events).toList.map maxRidLine).map (· ++ ['\r']))

/-- What the agent makes of the lines of a channel: the lines of the records, and the marks. -/
def readChannel : List Text → List Text × List ℕ
  | [] => ([], [])
  | line :: rest =>
    let (lines, marks) := readChannel rest
    if trim line = [] then (lines, marks)
    else
      match "MAXRID=".toList.isPrefixOf? (trim line) with
      | some rid =>
        match parseU64 (trim rid) with
        | some n => (lines, n :: marks)
        | none => (lines, marks)
      | none => (line :: lines, marks)

def offsetLine (source : Text) (n : ℕ) : Text :=
  "offset\t" ++ (source ++ '\t' :: ofNat n)

theorem readChannel_eventLine (r : Record) (rest : List Text) :
    readChannel (eventLine r :: rest) =
      (eventLine r :: (readChannel rest).1, (readChannel rest).2) := by
  have htrim : trim (eventLine r) = 'E' :: (eventLine r).tail.rdropWhile isWhitespace :=
    trim_cons rfl _
  rw [readChannel, htrim]
  rfl

variable {n : ℕ}

theorem readChannel_maxRidLine (hn : n < 18446744073709551616) :
    readChannel [maxRidLine n] = ([], [n]) := by
  have hdigits : ∀ c ∈ ofNat n, isWhitespace c = false := fun c => isWhitespace_of_mem_ofNat
  have htrim : trim (maxRidLine n) = maxRidLine n := by
    refine trim_of_forall fun c hc => ?_
    rcases mem_append.1 hc with hc | hc
    · exact forall_mem_of_all (P := (isWhitespace · = false)) rfl c hc
    · exact hdigits c hc
  have hrest : "MAXRID=".toList.isPrefixOf? (maxRidLine n) = some (ofNat n) := rfl
  have hne : maxRidLine n ≠ [] := cons_ne_nil _ _
  rw [readChannel, readChannel]
  dsimp only
  rw [htrim, if_neg hne, hrest]
  dsimp only
  rw [trim_of_forall hdigits, parseU64_ofNat hn]

theorem lineFeed_not_mem_eventLine (r : Record) : '\n' ∉ eventLine r := by
  intro h
  rcases mem_append.1 h with h | h
  · exact absurd h (by decide)
  · rcases mem_append.1 h with h | h
    · exact not_mem_ofNat rfl _ h
    · rcases mem_cons.1 h with h | h
      · cases h
      · exact r.noBreak h

private theorem lineFeed_not_mem_maxRidLine (n : ℕ) : '\n' ∉ maxRidLine n := by
  intro h
  rcases mem_append.1 h with h | h
  · exact absurd h (by decide)
  · exact not_mem_ofNat rfl n h

theorem maxRid_spec {events : List Record} (h : maxRid events = some n) :
    (∃ r ∈ events, r.recordId = n) ∧ ∀ r ∈ events, r.recordId ≤ n := by
  obtain ⟨hmem, hle⟩ := max?_eq_some_iff.1 h
  refine ⟨mem_map.1 hmem, fun r hr => hle _ (mem_map_of_mem hr)⟩

theorem readChannel_scriptOutput :
    readChannel (lines (scriptOutput events)) = (events.map eventLine, (maxRid events).toList) := by
  have hmark :
      readChannel ((maxRid events).toList.map maxRidLine) = ([], (maxRid events).toList) := by
    cases hmax : maxRid events with
    | none => rfl
    | some =>
      obtain ⟨⟨r, -, rfl⟩, -⟩ := maxRid_spec hmax
      exact readChannel_maxRidLine r.lt
  have hall : ∀ (rest : List Record) (ls : List Text),
      readChannel (rest.map eventLine ++ ls) =
        (rest.map eventLine ++ (readChannel ls).1, (readChannel ls).2) := by
    intro rest ls
    induction rest with
    | nil => rfl
    | cons _ _ ih => rw [map_cons, cons_append, readChannel_eventLine, ih]; rfl
  have hlines : lines (scriptOutput events) =
      events.map eventLine ++ (maxRid events).toList.map maxRidLine := by
    rw [scriptOutput, lines_unlines_eq_map, List.map_map]
    · refine map_id'' (fun line => ?_) _
      rw [comp_apply, dropCarriageReturn, getLast?_concat, if_pos rfl, dropLast_concat]
    · intro line hline
      obtain ⟨_, hline', rfl⟩ := mem_map.1 hline
      rw [mem_append, mem_singleton]
      rintro (h | h)
      · rcases mem_append.1 hline' with h' | h'
        · obtain ⟨r, -, rfl⟩ := mem_map.1 h'
          exact lineFeed_not_mem_eventLine r h
        · obtain ⟨n, -, rfl⟩ := mem_map.1 h'
          exact lineFeed_not_mem_maxRidLine n h
      · cases h
  rw [hlines, hall, hmark, append_nil]

theorem readLine_offsetLine {source : Text} (hsource : source ≠ []) (htab : '\t' ∉ source)
    (hn : n < 18446744073709551616) : readLine (offsetLine source n) = .offset source n := by
  have hread : readOffset (source ++ '\t' :: ofNat n) = .offset source n := by
    rw [readOffset, splitOnce_append_cons htab]
    dsimp only
    rw [trim_of_forall fun c => isWhitespace_of_mem_ofNat, parseU64_ofNat hn]
    dsimp only
    rw [if_neg hsource]
  exact hread

/-! ### The marks -/

def offsetsForHost (offsets : List LogOffset) (host : HostId) : List (Text × ℕ) :=
  (offsets.filter fun row => row.host = host).map fun row => (row.channel, row.recordId)

/-- The mark of a channel among those the agent was sent. Of two with one name it is the last. -/
def offsetOf (channelOffsets : List (Text × ℕ)) (source : Text) : ℕ :=
  ((channelOffsets.reverse.find? fun entry => entry.1 = source).map Prod.snd).getD 0

def storedOffset (host : HostId) (source : Text) (offsets : List LogOffset) : ℕ :=
  offsetOf (offsetsForHost offsets host) source

theorem storedOffset_eq (host : HostId) (source : Text) (offsets : List LogOffset) :
    storedOffset host source offsets =
      ((offsets.reverse.find? fun row => row.host = host ∧ row.channel = source).map
        LogOffset.recordId).getD 0 := by
  rw [storedOffset, offsetOf, offsetsForHost, ← map_reverse, find?_map, Option.map_map,
    ← filter_reverse, find?_filter]
  simp only [decide_eq_true_eq, comp_apply]
  rfl

variable (setup : Setup) (host : HostId) (source : Text)

/-- A name for a channel: the control plane reads it, and the database keeps it as it is. -/
structure IsChannelName : Prop where
  ne_nil : source ≠ []
  noTab : '\t' ∉ source
  stored : setup.stored .channel source = some source
  same : setup.sameText source source = true

/-- The rows that the database takes for those of a channel are under its name. -/
def OwnRows (offsets : List LogOffset) : Prop :=
  ∀ row ∈ offsets, row.host = host → setup.sameText row.channel source = true → row.channel = source

variable {setup host source} {offsets : List LogOffset}

theorem storedOffset_recordOffset (hname : IsChannelName setup source)
    (hown : OwnRows setup host source offsets) (n : ℕ) :
    ∃ offsets', recordOffset setup offsets host source n = some offsets' ∧
      OwnRows setup host source offsets' ∧
      storedOffset host source offsets' = max (storedOffset host source offsets) n := by
  have hrow : ∀ row ∈ offsets, (row.host = host && setup.sameText row.channel source) ↔
      row.host = host ∧ row.channel = source := by
    intro row hmem
    rw [Bool.and_eq_true, decide_eq_true_eq]
    refine and_congr_right fun hhost => ⟨hown row hmem hhost, ?_⟩
    rintro hchannel
    rw [hchannel]
    exact hname.same
  rw [recordOffset, hname.stored]
  refine ⟨_, rfl, ?_⟩
  rw [storedOffset_eq host source offsets, storedOffset_eq]
  dsimp only
  split_ifs with hany
  · constructor
    · intro row hmem
      obtain ⟨row', hmem', rfl⟩ := mem_map.1 hmem
      have h := hown row' hmem'
      split_ifs
      · exact h
      · exact h
    · obtain ⟨old, hmem, hold⟩ := any_eq_true.1 hany
      obtain ⟨row, hfind⟩ : ∃ row, offsets.reverse.find?
          (fun row => row.host = host ∧ row.channel = source) = some row :=
        isSome_iff_exists.1 (find?_isSome.2
          ⟨old, mem_reverse.2 hmem, decide_eq_true ((hrow old hmem).1 hold)⟩)
      have hmem' := mem_reverse.1 (mem_of_find?_eq_some hfind)
      have hfound : row.host = host ∧ row.channel = source := by
        simpa using find?_some hfind
      rw [← map_reverse, find?_map]
      have hkeep : ((fun row : LogOffset => decide (row.host = host ∧ row.channel = source)) ∘
          fun row => if (row.host = host && setup.sameText row.channel source) = true then
            { row with recordId := max row.recordId n } else row) =
          fun row => decide (row.host = host ∧ row.channel = source) := by
        funext row
        rw [comp_apply]
        split_ifs
        · rfl
        · rfl
      rw [hkeep, hfind, map_some, if_pos ((hrow row hmem').2 hfound)]
      rfl
  · have hnone :
        offsets.reverse.find? (fun row => row.host = host ∧ row.channel = source) = none := by
      refine find?_eq_none.2 fun row hmem hrow' => hany (any_eq_true.2 ⟨row, ?_⟩)
      have hmem := mem_reverse.1 hmem
      exact ⟨hmem, (hrow row hmem).2 (of_decide_eq_true hrow')⟩
    constructor
    · intro row hmem
      rcases mem_append.1 hmem with hmem | hmem
      · exact hown row hmem
      · obtain rfl := mem_singleton.1 hmem
        exact fun _ _ => rfl
    · rw [hnone, reverse_append, reverse_singleton, singleton_append, find?_cons_of_pos (by simp)]
      exact (Nat.zero_max n).symm

/-! ### A channel and its scans -/

/-- A scan under way: the agent was sent a mark, or it has answered. -/
inductive Flight
  | asked (offset : ℕ)
  | answered (events : List Record) (marks : List ℕ)

/-- The mark that a scan which has not answered was sent. -/
def Flight.sent : Flight → Option ℕ
  | asked offset => some offset
  | answered _ _ => none

/-- A channel, the marks that are kept, the scans under way, and the records that were handed over.
-/
structure Channel where
  log : List Record
  offsets : List LogOffset
  flights : List Flight
  ingested : List Record

inductive ChannelEvent
  | append (r : Record)
  /-- A scan begins. The control plane may fail to read the marks. -/
  | ask (readable : Bool)
  | run (i : ℕ)
  | lose (i : ℕ)
  | ingest (i : ℕ)

variable (setup host) in
def takeOffset (offsets : List LogOffset) (line : Line) : List LogOffset :=
  match line with
  | .offset channel n => (recordOffset setup offsets host channel n).getD offsets
  | _ => offsets

variable (setup host source) in
/-- The control plane takes the lines that report the marks of an answer. -/
def recordMarks (offsets : List LogOffset) (marks : List ℕ) : List LogOffset :=
  (marks.map fun n => readLine (offsetLine source n)).foldl (takeOffset setup host) offsets

variable (setup host source) in
def channelStep (ids : List ℕ) (s : Channel) : ChannelEvent → Channel
  | .append r => { s with log := s.log ++ [r] }
  | .ask readable =>
    let offset := if readable then storedOffset host source s.offsets else 0
    { s with flights := s.flights ++ [.asked offset] }
  | .run i =>
    match s.flights[i]? with
    | some (.asked offset) =>
      let events := getWinEvent s.log (windowsChannelScript ids offset)
      let marks := (readChannel (lines (scriptOutput events))).2
      { s with flights := s.flights.set i (.answered events marks) }
    | _ => s
  | .lose i => { s with flights := s.flights.eraseIdx i }
  | .ingest i =>
    match s.flights[i]? with
    | some (.answered events marks) =>
      { s with
        offsets := recordMarks setup host source s.offsets marks
        flights := s.flights.eraseIdx i
        ingested := s.ingested ++ events }
    | _ => s

def unread (ids : List ℕ) (mark : ℕ) (log : List Record) : List Record :=
  log.filter fun r => ids.contains r.eventId && mark < r.recordId

variable (host source) in
/-- The channel numbers its records upwards, and a query finds no more unread records than it is
limited to. -/
def Allowed (ids : List ℕ) (s : Channel) : ChannelEvent → Prop
  | .append r => ∀ r' ∈ s.log, r'.recordId < r.recordId
  | .run i => ∀ offset ∈ s.flights[i]?.bind Flight.sent,
      (unread ids (storedOffset host source s.offsets) s.log).length ≤
        (windowsChannelScript ids offset).maxEvents
  | _ => True

instance (ids : List ℕ) (s : Channel) (e : ChannelEvent) :
    Decidable (Allowed host source ids s e) :=
  match e with
  | .append r => inferInstanceAs (Decidable (∀ r' ∈ s.log, r'.recordId < r.recordId))
  | .run i => inferInstanceAs (Decidable (∀ offset ∈ s.flights[i]?.bind Flight.sent,
      (unread ids (storedOffset host source s.offsets) s.log).length ≤
        (windowsChannelScript ids offset).maxEvents))
  | .ask _ | .lose _ | .ingest _ => inferInstanceAs (Decidable True)

def Numbered (log : List Record) : Prop := log.Pairwise fun r r' => r.recordId < r'.recordId

variable {mark : ℕ}

theorem forall_mem_getWinEvent_iff {ids : List ℕ} {log : List Record} (hlog : Numbered log)
    {offset : ℕ} (h : offset ≤ mark) :
    (∀ r ∈ log, r.eventId ∈ ids → mark < r.recordId →
        r ∈ getWinEvent log (windowsChannelScript ids offset)) ↔
      (unread ids mark log).length ≤ (windowsChannelScript ids offset).maxEvents := by
  have hselects : ∀ r : Record, mark < r.recordId →
      ((windowsChannelScript ids offset).selects r ↔ r.eventId ∈ ids) := by
    intro r hr
    rw [windowsChannelScript, Query.selects]
    split_ifs
    · rw [Bool.and_eq_true, contains_iff_mem, all_some, decide_eq_true_eq]
      exact and_iff_left (lt_of_le_of_lt h hr)
    · rw [Bool.and_eq_true, contains_iff_mem]
      exact and_iff_left rfl
  have hunread : unread ids mark log = log.filter fun r =>
      (windowsChannelScript ids offset).selects r && decide (mark < r.recordId) := by
    refine filter_congr fun r _ => ?_
    rw [Bool.eq_iff_iff, Bool.and_eq_true, Bool.and_eq_true, contains_iff_mem, decide_eq_true_eq]
    exact and_congr_left fun hr => (hselects r hr).symm
  rw [hunread, ← forall_mem_newest_iff hlog]
  refine forall₂_congr fun r _ => ?_
  constructor
  · intro hall hsel hr
    exact hall ((hselects r hr).1 hsel) hr
  · intro hall hid hr
    exact hall ((hselects r hr).2 hid) hr

/-! ### No record is passed over -/

variable {ids : List ℕ} {old log given : List Record} {s : Channel}

/-- A mark is the number of a record or zero, and every new watched record up to it is among those
given. -/
structure Backed (ids : List ℕ) (old log given : List Record) (n : ℕ) : Prop where
  known : n = 0 ∨ ∃ r ∈ log, r.recordId = n
  covered : ∀ r ∈ log, r ∉ old → r.eventId ∈ ids → r.recordId ≤ n → r ∈ given

/-- A scan was sent no higher mark than the one kept, and has all up to its own mark that was not
handed over. -/
def Flight.Backed (ids : List ℕ) (old log given : List Record) (mark : ℕ) : Flight → Prop
  | asked offset => offset ≤ mark
  | answered events marks => ∀ n ∈ marks, Thanatos.Backed ids old log (given ++ events) n

variable (setup host source) in
structure Tailed (ids : List ℕ) (old : List Record) (s : Channel) : Prop where
  numbered : Numbered s.log
  own : OwnRows setup host source s.offsets
  stored : Backed ids old s.log s.ingested (storedOffset host source s.offsets)
  flights : ∀ f ∈ s.flights,
    f.Backed ids old s.log s.ingested (storedOffset host source s.offsets)

variable {given' : List Record}

theorem Backed.mono (h : Backed ids old log given n)
    (hsub : given ⊆ given') : Backed ids old log given' n :=
  ⟨h.known, fun r hr hold hid hle => hsub (h.covered r hr hold hid hle)⟩

variable {f : Flight}

theorem Flight.Backed.mono {mark' : ℕ}
    (h : f.Backed ids old log given mark) (hsub : given ⊆ given') (hle : mark ≤ mark') :
    f.Backed ids old log given' mark' := by
  cases f with
  | asked => exact h.trans hle
  | answered =>
    refine fun n hn => (h n hn).mono (append_subset.2 ⟨?_, subset_append_right _ _⟩)
    exact Subset.trans hsub (subset_append_left _ _)

variable {r : Record}

theorem Backed.append (h : Backed ids old log given n)
    (hr : ∀ r' ∈ log, r'.recordId < r.recordId) : Backed ids old (log ++ [r]) given n := by
  refine ⟨?_, ?_⟩
  · rcases h.known with hn | ⟨r', hr', hn⟩
    · exact .inl hn
    · exact .inr ⟨r', mem_append_left _ hr', hn⟩
  · intro r' hr' hold hid hle
    rcases mem_append.1 hr' with hr' | hr'
    · exact h.covered r' hr' hold hid hle
    · obtain rfl := mem_singleton.1 hr'
      rcases h.known with rfl | ⟨r'', hr'', rfl⟩
      · exact absurd hle (Nat.not_le_of_lt r'.pos)
      · exact absurd hle (Nat.not_le_of_lt (hr r'' hr''))

theorem Flight.Backed.append
    (h : f.Backed ids old log given mark) (hr : ∀ r' ∈ log, r'.recordId < r.recordId) :
    f.Backed ids old (log ++ [r]) given mark := by
  cases f with
  | asked => exact h
  | answered => exact fun n hn => (h n hn).append hr

theorem Tailed.run (h : Tailed setup host source ids old s) {i : ℕ}
    (hall : ∀ offset, s.flights[i]? = some (.asked offset) → ∀ r ∈ s.log, r ∉ old →
      r.eventId ∈ ids → storedOffset host source s.offsets < r.recordId →
      r ∈ getWinEvent s.log (windowsChannelScript ids offset)) :
    Tailed setup host source ids old (channelStep setup host source ids s (.run i)) := by
  rw [channelStep]
  cases hi : s.flights[i]? with
  | none => exact h
  | some f =>
    cases f with
    | answered => exact h
    | asked offset =>
      refine ⟨h.numbered, h.own, h.stored, fun f hf => ?_⟩
      rcases mem_or_eq_of_mem_set hf with hf | rfl
      · exact h.flights f hf
      intro n hn
      rw [readChannel_scriptOutput, mem_toList] at hn
      refine ⟨?_, fun r hr hold hid _ => ?_⟩
      · obtain ⟨r, hr, hrn⟩ := (maxRid_spec hn).1
        exact .inr ⟨r, (mem_of_mem_newest hr).1, hrn⟩
      · rw [mem_append]
        rcases lt_or_ge (storedOffset host source s.offsets) r.recordId with hlt | hge
        · exact .inr (hall offset hi r hr hold hid hlt)
        · exact .inl (h.stored.covered r hr hold hid hge)

theorem Backed.lt (h : Backed ids old log given n) : n < 18446744073709551616 := by
  rcases h.known with rfl | ⟨r, -, rfl⟩
  · decide
  · exact r.lt

private theorem recordMarks_spec (hname : IsChannelName setup source) {marks : List ℕ}
    (hown : OwnRows setup host source offsets)
    (hstored : Backed ids old log given (storedOffset host source offsets))
    (hmarks : ∀ n ∈ marks, Backed ids old log given n) :
    OwnRows setup host source (recordMarks setup host source offsets marks) ∧
      Backed ids old log given
        (storedOffset host source (recordMarks setup host source offsets marks)) ∧
      storedOffset host source offsets ≤
        storedOffset host source (recordMarks setup host source offsets marks) := by
  induction marks generalizing offsets with
  | nil => exact ⟨hown, hstored, le_refl _⟩
  | cons n _ ih =>
    have hn := hmarks n mem_cons_self
    obtain ⟨offsets', hrec, hown', hmax⟩ := storedOffset_recordOffset hname hown n
    have htake : takeOffset setup host offsets (readLine (offsetLine source n)) = offsets' := by
      rw [readLine_offsetLine hname.ne_nil hname.noTab hn.lt, takeOffset, hrec, getD_some]
    have hstored' : Backed ids old log given (storedOffset host source offsets') := by
      rw [hmax]
      rcases le_total (storedOffset host source offsets) n with hle | hle
      · rwa [max_eq_right hle]
      · rwa [max_eq_left hle]
    have hle : storedOffset host source offsets ≤ storedOffset host source offsets' := by
      rw [hmax]
      exact le_max_left _ _
    obtain ⟨hown'', hstored'', hle'⟩ :=
      ih hown' hstored' fun m hm => hmarks m (mem_cons_of_mem _ hm)
    rw [recordMarks, map_cons, foldl_cons, htake]
    exact ⟨hown'', hstored'', hle.trans hle'⟩

theorem Tailed.step (hname : IsChannelName setup source) (h : Tailed setup host source ids old s)
    {e : ChannelEvent} (he : Allowed host source ids s e) :
    Tailed setup host source ids old (channelStep setup host source ids s e) := by
  cases e with
  | append =>
    refine ⟨?_, h.own, h.stored.append he, fun f hf => (h.flights f hf).append he⟩
    refine pairwise_append.2
      ⟨h.numbered, pairwise_singleton _ _, fun r' hr' r'' hr'' => ?_⟩
    rw [mem_singleton.1 hr'']
    exact he r' hr'
  | ask readable =>
    refine ⟨h.numbered, h.own, h.stored, fun f hf => ?_⟩
    rcases mem_append.1 hf with hf | hf
    · exact h.flights f hf
    · obtain rfl := mem_singleton.1 hf
      show (if readable then _ else _) ≤ _
      split_ifs
      · exact le_refl _
      · exact zero_le _
  | run i =>
    refine h.run fun offset hi r hr _ => ?_
    have hsent : offset ∈ s.flights[i]?.bind Flight.sent := by
      rw [hi]
      rfl
    exact (forall_mem_getWinEvent_iff h.numbered (h.flights _ (mem_of_getElem? hi))).2
      (he offset hsent) r hr
  | lose =>
    exact ⟨h.numbered, h.own, h.stored, fun f hf => h.flights f (mem_of_mem_eraseIdx hf)⟩
  | ingest i =>
    rw [channelStep]
    cases hi : s.flights[i]? with
    | none => exact h
    | some f =>
      cases f with
      | asked => exact h
      | answered events =>
        have hsub : s.ingested ⊆ s.ingested ++ events := subset_append_left _ _
        obtain ⟨hown, hbacked, hle⟩ := recordMarks_spec hname h.own
          (h.stored.mono hsub) (h.flights _ (mem_of_getElem? hi))
        exact ⟨h.numbered, hown, hbacked,
          fun f hf => (h.flights f (mem_of_mem_eraseIdx hf)).mono hsub hle⟩

variable (setup host source) in
def firstScan (ids : List ℕ) (s : Channel) : Channel :=
  channelStep setup host source ids (channelStep setup host source ids s (.ask true)) (.run 0)

theorem storedOffset_of_new (hnew : ∀ row ∈ offsets, row.host = host → row.channel ≠ source) :
    storedOffset host source offsets = 0 := by
  rw [storedOffset_eq, find?_eq_none.2]
  · rfl
  · intro row hmem hrow
    have hrow := of_decide_eq_true hrow
    exact hnew row (mem_reverse.1 hmem) hrow.1 hrow.2

private theorem tailed_firstScan (hname : IsChannelName setup source) (hlog : Numbered s.log)
    (hflights : s.flights = [])
    (hnew : ∀ row ∈ s.offsets, row.host = host → setup.sameText row.channel source = false) :
    Tailed setup host source ids s.log (firstScan setup host source ids s) := by
  have hmark : storedOffset host source s.offsets = 0 := by
    refine storedOffset_of_new fun row hmem hhost hchannel => ?_
    have hdiff := hnew row hmem hhost
    rw [hchannel, hname.same] at hdiff
    exact Bool.false_ne_true hdiff.symm
  have hstart : Tailed setup host source ids s.log s := by
    refine ⟨hlog, ?_, ⟨.inl hmark, fun r hr hold => absurd hr hold⟩, ?_⟩
    · intro row hmem hhost hrow
      rw [hnew row hmem hhost] at hrow
      cases hrow
    · rw [hflights]
      exact nofun
  have hasked := hstart.step hname (e := .ask true) trivial
  exact hasked.run fun offset _ r hr hold => absurd hr hold

/-- In every run in which a query finds no more unread records than it is limited to, the mark
passes no new watched record that was not handed over. A query gives all exactly if it finds no
more. -/
theorem ingested_of_reached (s₀ : Channel) (hname : IsChannelName setup source)
    (hlog : Numbered s₀.log) (hflights : s₀.flights = [])
    (hnew : ∀ row ∈ s₀.offsets, row.host = host → setup.sameText row.channel source = false)
    (h : Machine.Reached (channelStep setup host source ids) (Allowed host source ids)
      (firstScan setup host source ids s₀) s) :
    (∀ r ∈ s.log, r ∉ s₀.log → r.eventId ∈ ids →
      r.recordId ≤ storedOffset host source s.offsets → r ∈ s.ingested) ∧
    ∀ offset ≤ storedOffset host source s.offsets,
      ((∀ r ∈ s.log, r.eventId ∈ ids → storedOffset host source s.offsets < r.recordId →
          r ∈ getWinEvent s.log (windowsChannelScript ids offset)) ↔
        (unread ids (storedOffset host source s.offsets) s.log).length ≤
          (windowsChannelScript ids offset).maxEvents) := by
  have htailed : Tailed setup host source ids s₀.log s := by
    refine h.inv (tailed_firstScan hname hlog hflights hnew) ?_
    intro s e hs he
    exact hs.step hname he
  exact ⟨htailed.stored.covered, fun offset hoffset =>
    forall_mem_getWinEvent_iff htailed.numbered hoffset⟩

/-! ### A second scan, and a burst -/

def logon (n : ℕ) : Record where
  recordId := n % 4096 + 1
  eventId := 4624
  detail := []
  pos := zero_lt_succ _
  lt := by omega
  noBreak := not_mem_nil

def security : Text := "security"

def afterFirst : Channel := firstScan plainSetup 1 security [4624] ⟨[logon 0], [], [], []⟩

def secondScan : List ChannelEvent :=
  [.ingest 0, .append (logon 1), .ask true, .run 0, .ingest 0]

theorem ingested_of_reached_second :
    logon 1 ∈ (secondScan.foldl (channelStep plainSetup 1 security [4624]) afterFirst).ingested :=
  (ingested_of_reached ⟨[logon 0], [], [], []⟩
    ⟨cons_ne_nil _ _, by decide, by decide, by decide⟩
    (pairwise_singleton _ _) rfl (nofun)
    (Machine.reached_of_allows (by decide))).1 (logon 1) (by decide) (by decide) (by decide)
    (by decide)

def NumbersUp (s : Channel) (e : ChannelEvent) : Prop :=
  ∀ r, e = .append r → ∀ r' ∈ s.log, r'.recordId < r.recordId

variable {rs : List Record}

theorem reached_appends (h : Numbered (s.log ++ rs)) :
    Machine.Reached (channelStep setup host source ids) NumbersUp s
      { s with log := s.log ++ rs } := by
  induction rs generalizing s with
  | nil =>
    rw [append_nil]
    exact .start
  | cons r _ ih =>
    have hr : NumbersUp s (.append r) := by
      rintro r' ⟨rfl⟩ r'' hr''
      exact (pairwise_append.1 h).2.2 r'' hr'' r mem_cons_self
    rw [append_cons] at h
    have hrest := ih (s := { s with log := s.log ++ [r] }) h
    rw [append_assoc] at hrest
    exact (Machine.Reached.next .start hr).trans hrest

def burst : List Record := (range 1001).map fun n => logon (n + 1)

theorem numbered_burst : Numbered (logon 0 :: burst) := by
  have hrange : logon 0 :: burst = (range (1001 + 1)).map logon := by
    rw [range_succ_eq_map, map_cons, List.map_map]
    exact congrArg _ (map_congr_left fun _ _ => rfl)
  rw [hrange, Numbered, pairwise_map]
  refine pairwise_lt_range.imp_of_mem fun {m n} hm hn hlt => ?_
  rw [mem_range] at hm hn
  show m % 4096 + 1 < n % 4096 + 1
  omega

def afterSecond (rs : List Record) : Channel :=
  let events := getWinEvent (logon 0 :: rs) (windowsChannelScript [4624] 1)
  { log := logon 0 :: rs
    offsets := recordMarks plainSetup 1 security [⟨1, security, 1⟩]
      (readChannel (lines (scriptOutput events))).2
    flights := []
    ingested := logon 0 :: events }

private theorem reached_afterSecond (h : Numbered (logon 0 :: rs)) :
    Machine.Reached (channelStep plainSetup 1 security [4624]) NumbersUp afterFirst
      (afterSecond rs) := by
  have hfirst : Machine.Reached (channelStep plainSetup 1 security [4624]) NumbersUp afterFirst
      ⟨[logon 0], [⟨1, security, 1⟩], [], [logon 0]⟩ :=
    .next (e := ChannelEvent.ingest 0) .start nofun
  have hmore := hfirst.trans (reached_appends h)
  have hasked := hmore.next (e := .ask true) nofun
  have hrun := hasked.next (e := .run 0) nofun
  exact hrun.next (e := .ingest 0) nofun

/-- After a burst the mark passes a record that was not handed over. -/
theorem passed_of_burst :
    ∃ s, Machine.Reached (channelStep plainSetup 1 security [4624]) NumbersUp afterFirst s ∧
      ∃ r ∈ s.log, r ∉ [logon 0] ∧ r.eventId ∈ [4624] ∧
        r.recordId ≤ storedOffset 1 security s.offsets ∧ r ∉ s.ingested := by
  have hmax : maxRid (getWinEvent (logon 0 :: burst) (windowsChannelScript [4624] 1)) =
      some 1002 := by
    decide +kernel
  have hmiss : logon 1 ∉ logon 0 ::
      getWinEvent (logon 0 :: burst) (windowsChannelScript [4624] 1) := by
    decide +kernel
  refine ⟨afterSecond burst, reached_afterSecond numbered_burst, logon 1, ?_, by decide, by decide,
    ?_, hmiss⟩
  · exact mem_cons_of_mem _ (List.mem_map.2 ⟨0, mem_range.2 (by decide), rfl⟩)
  · rw [afterSecond, readChannel_scriptOutput, hmax]
    decide

end Abyssal.Thanatos
