import Abyssal.Machine.Guarded
import Abyssal.Reading.Lines
import Abyssal.Text.Layout

/-!
# Collecting the alerts of a sensor

The agent reads the sensor's log from where it stopped the last time, line by line, and returns the
alerts in it and where it stopped. The sensor goes on writing, so every line is read from what the
file holds at that moment. A line that is not UTF-8 stops the collection there for good.

## Main results

* `collected_of_reached`: no alert is skipped or repeated.
-/

namespace Abyssal.Scourge

open Text Reading List Option Bool

/-! ### Alerts -/

structure Json where
  Value : Type
  parse : Text → Option Value
  get : Value → Text → Option Value
  asStr : Value → Option Text
  asI64 : Value → Option ℤ

/-- The decoding of UTF-8, which fails on what is not valid. A text ends with a line feed if its
last byte is one. -/
structure Utf8 where
  decode : List UInt8 → Option Text
  getLast?_decode : ∀ {bytes text}, decode bytes = some text →
    (text.getLast? = some '\n' ↔ bytes.getLast? = some 10)

def maxPullBytes : ℕ := 8388608

def maxLineBytes : ℕ := 262144

def sanitize (s : Text) (max : ℕ) : Text :=
  (s.map fun c => if c = '\t' ∨ c = '\n' ∨ c = '\r' then ' ' else c).take max

def severityKey (sev : ℤ) : Text :=
  if sev = 1 then "high" else if sev = 2 then "medium" else "low"

def ofInt (n : ℤ) : Text := if n < 0 then '-' :: ofNat n.natAbs else ofNat n.natAbs

variable (J : Json) (U : Utf8)

def textField (v : J.Value) (field : String) : Text :=
  ((J.get v field.toList).bind J.asStr).getD []

def numberField (v : J.Value) (field : String) (default : ℤ) : ℤ :=
  ((J.get v field.toList).bind J.asI64).getD default

def parseEveAlertLine (line : Text) : Option Text :=
  let line := trim line
  if line = [] then none
  else do
    let v ← J.parse line
    if (J.get v "event_type").bind J.asStr ≠ some "alert".toList then none
    else do
      let alert ← J.get v "alert"
      some (['\t'].intercalate [
        "alert",
        sanitize (textField J v "timestamp") 64,
        severityKey (numberField J alert "severity" 3),
        ofInt (numberField J alert "signature_id" 0),
        sanitize (textField J alert "signature") 200,
        sanitize (textField J alert "category") 100,
        sanitize (textField J v "proto") 16,
        sanitize (textField J v "src_ip") 64,
        ofInt (numberField J v "src_port" 0),
        sanitize (textField J v "dest_ip") 64,
        ofInt (numberField J v "dest_port" 0)])

/-! ### One collection -/

inductive IoError
  | notFound
  | permissionDenied
  | other (kind : String)

def unreadableReason : IoError → Text
  | .notFound => "eve.json not found (enable EVE JSON output in the sensor config)"
  | .permissionDenied =>
    ("permission denied reading eve.json " ++
      "(run the agent as root or grant read access)").toList
  | .other kind => ("cannot read eve.json: " ++ kind).toList

/-- The inode and the size of the file, whether it opens, whether the cursor can be reached, and
what it holds when a line is read. -/
structure Attempt where
  metadata : Except IoError (ℕ × ℕ)
  opened : Except IoError Unit
  seeks : Bool
  views : ℕ → Option (List UInt8)

/-- The variables of the loop. `read` counts the bytes that were read; no line of the code reads
it. -/
structure Progress where
  pos : ℕ
  emitted : ℕ
  out : Text
  read : ℕ

def lineAlert (n : ℕ) (line : Text) : Option Text :=
  if n ≤ maxLineBytes then parseEveAlertLine J (line.rdropWhile isWhitespace) else none

/-- One round of the loop, on what the file holds at that moment, and whether the loop goes on. -/
def readOne (start maxEvents : ℕ) (view : Option (List UInt8)) (s : Progress) : Progress × Bool :=
  match view with
  | none => (s, false)
  | some view =>
    let bytes := upTo 10 (view.drop s.pos)
    let s := { s with read := s.read + bytes.length }
    if bytes = [] then (s, false)
    else
      match U.decode bytes with
      | none => (s, false)
      | some line =>
        if line.getLast? ≠ some '\n' then (s, false)
        else
          let s := { s with pos := s.pos + bytes.length }
          match lineAlert J bytes.length line with
          | some alert =>
            let s := { s with out := s.out ++ (alert ++ ['\n']), emitted := s.emitted + 1 }
            (s, s.emitted < maxEvents && s.pos - start < maxPullBytes)
          | none => (s, s.pos - start < maxPullBytes)

/-- Each round but the last reads at least one byte, so there are no more rounds than bytes. -/
def collectLoop (start maxEvents : ℕ) (views : ℕ → Option (List UInt8)) :
    ℕ → ℕ → Progress → Progress
  | 0, _, s => s
  | fuel + 1, i, s =>
    let (s, more) := readOne J U start maxEvents (views i) s
    if more then collectLoop start maxEvents views fuel (i + 1) s else s

inductive Collected
  | unreadable (reason : Text)
  | cursor (out : Text) (inode pos read : ℕ)

def startOffset (eveOffset eveInode curInode curSize : ℕ) : ℕ :=
  if eveInode ≠ 0 ∧ curInode = eveInode ∧ eveOffset ≤ curSize then eveOffset else 0

def collectEvents (eveOffset eveInode maxEvents : ℕ) (a : Attempt) : Collected :=
  match a.metadata with
  | .error e => .unreadable (unreadableReason e)
  | .ok (curInode, curSize) =>
    let start := startOffset eveOffset eveInode curInode curSize
    match a.opened with
    | .error e => .unreadable (unreadableReason e)
    | .ok () =>
      if 0 < start ∧ a.seeks = false then .cursor [] curInode 0 0
      else
        let s := collectLoop J U start (Nat.max maxEvents 1) a.views maxPullBytes 0
          ⟨start, 0, [], 0⟩
        .cursor s.out curInode s.pos s.read

/-! ### The loop -/

def alertText (bytes : List UInt8) : Text :=
  match (U.decode bytes).bind (lineAlert J bytes.length) with
  | some alert => alert ++ ['\n']
  | none => []

def textBefore (content : List UInt8) (j : ℕ) : Text :=
  ((completeLines 10 content).take j).flatMap (alertText J U)

theorem textBefore_succ {content line : List UInt8} {j : ℕ}
    (h : (completeLines 10 content)[j]? = some line) :
    textBefore J U content (j + 1) = textBefore J U content j ++ alertText J U line := by
  rw [textBefore, textBefore, take_add_one, h]
  simp

variable {J U} {s : Progress} {view : List UInt8}

theorem readOne_cases {content : List UInt8} (hview : view <+: content) {j : ℕ}
    (hpos : s.pos = offset 10 content j) (start maxEvents : ℕ) :
    (readOne J U start maxEvents (some view) s =
        ({ s with read := s.read + (upTo 10 (view.drop s.pos)).length }, false) ∧
      (10 ∈ view.drop s.pos → U.decode (upTo 10 (view.drop s.pos)) = none)) ∨
    ∃ line, (completeLines 10 content)[j]? = some line ∧ line = upTo 10 (view.drop s.pos) ∧
      (U.decode line).isSome ∧
      (readOne J U start maxEvents (some view) s).1.pos = offset 10 content (j + 1) ∧
      (readOne J U start maxEvents (some view) s).1.out = s.out ++ alertText J U line ∧
      (readOne J U start maxEvents (some view) s).1.read = s.read + line.length ∧
      ((readOne J U start maxEvents (some view) s).2 →
        (readOne J U start maxEvents (some view) s).1.pos - start < maxPullBytes) := by
  have hend : ∀ {text}, U.decode (upTo 10 (view.drop s.pos)) = some text →
      (text.getLast? = some '\n' ↔ 10 ∈ view.drop s.pos) := by
    intro text htext
    rw [U.getLast?_decode htext]
    constructor
    · intro hlast
      by_contra hmem
      rw [upTo_of_not_mem hmem] at hlast
      exact hmem (mem_of_getLast? hlast)
    · intro hmem
      obtain ⟨_, _, hdrop, hbody⟩ := eq_append_cons_of_mem hmem
      rw [hdrop, upTo_append_cons hbody, getLast?_concat]
  by_cases hmem : 10 ∈ view.drop s.pos
  swap
  · -- the line is not finished, or there is none
    refine .inl ⟨?_, fun h => absurd h hmem⟩
    rw [readOne]
    dsimp only
    split_ifs
    · rfl
    · cases hdecode : U.decode (upTo 10 (view.drop s.pos)) with
      | none => rfl
      | some =>
        dsimp only
        rw [if_pos fun hlast => hmem ((hend hdecode).1 hlast)]
  have hline : (completeLines 10 content)[j]? = some (upTo 10 (view.drop s.pos)) := by
    rw [hpos] at hmem ⊢
    exact upTo_drop_offset hview hmem
  have hne : upTo 10 (view.drop s.pos) ≠ [] := ne_nil_of_length_pos (length_pos_of_getElem? hline)
  cases hdecode : U.decode (upTo 10 (view.drop s.pos)) with
  | none =>
    refine .inl ⟨?_, fun _ => rfl⟩
    rw [readOne]
    dsimp only
    rw [if_neg hne, hdecode]
  | some text =>
    refine .inr ⟨_, hline, rfl, by rw [hdecode]; rfl, ?_⟩
    have hlast := (hend hdecode).2 hmem
    rw [readOne]
    dsimp only
    rw [if_neg hne, hdecode]
    dsimp only
    rw [if_neg (not_not_intro hlast), alertText, hdecode, bind_some, offset_succ hline, ← hpos]
    cases lineAlert J (upTo 10 (view.drop s.pos)).length text with
    | none =>
      refine ⟨rfl, (append_nil _).symm, rfl, fun hmore => ?_⟩
      exact of_decide_eq_true hmore
    | some =>
      refine ⟨rfl, rfl, rfl, fun hmore => ?_⟩
      exact of_decide_eq_true (and_eq_true_iff.1 hmore).2

/-- What a line is read from is a beginning of the file, of so many bytes at most. -/
def Sees (content : List UInt8) (size : ℕ) (views : ℕ → Option (List UInt8)) : Prop :=
  ∀ i view, views i = some view → view <+: content ∧ view.length ≤ size

variable (J U) in
/-- The reader stands at the beginning of line `j`, and what there is before it was returned. -/
structure At (content : List UInt8) (size : ℕ) (earlier : Text) (j : ℕ) (s : Progress) : Prop where
  pos : s.pos = offset 10 content j
  text : earlier ++ s.out = textBefore J U content j
  le : s.pos ≤ size

variable {content : List UInt8} {size : ℕ} {views : ℕ → Option (List UInt8)} {earlier : Text}

theorem At.next {j : ℕ} {s s' : Progress} {view line : List UInt8}
    (h : At J U content size earlier j s) (hline : (completeLines 10 content)[j]? = some line)
    (htake : line = upTo 10 (view.drop s.pos)) (hsize : view.length ≤ size)
    (hpos : s'.pos = offset 10 content (j + 1)) (hout : s'.out = s.out ++ alertText J U line) :
    At J U content size earlier (j + 1) s' := by
  refine ⟨hpos, ?_, ?_⟩
  · rw [hout, ← append_assoc, h.text, textBefore_succ J U hline]
  · have hlen : (upTo 10 (view.drop s.pos)).length ≤ (view.drop s.pos).length := length_upTo_le _
    rw [← htake, length_drop] at hlen
    have hne := length_pos_of_getElem? hline
    rw [hpos, offset_succ hline, ← h.pos]
    omega

open Nat

/-- Line `j` is not UTF-8. -/
def Stuck (U : Utf8) (content : List UInt8) (j : ℕ) : Prop :=
  ∃ line, (completeLines 10 content)[j]? = some line ∧ U.decode line = none

theorem collectLoop_at (hviews : Sees content size views) (start maxEvents : ℕ) {fuel i j : ℕ}
    (h : At J U content size earlier j s) :
    ∃ j', At J U content size earlier j' (collectLoop J U start maxEvents views fuel i s) ∧
      j ≤ j' ∧ (Stuck U content j → j' = j) := by
  induction fuel generalizing i j s with
  | zero => exact ⟨j, h, le_refl j, fun _ => rfl⟩
  | succ _ ih =>
    rw [collectLoop]
    cases hview : views i with
    | none => exact ⟨j, h, le_refl j, fun _ => rfl⟩
    | some view =>
    obtain ⟨hbegin, hsize⟩ := hviews i view hview
    rcases readOne_cases hbegin h.pos start maxEvents with
      ⟨hstop, -⟩ | ⟨line, hline, htake, hvalid, hpos, hout, -, -⟩
    · rw [hstop]
      exact ⟨j, ⟨h.pos, h.text, h.le⟩, le_refl j, fun _ => rfl⟩
    · have hnext := h.next hline htake hsize hpos hout
      have hnot : ¬ Stuck U content j := by
        rintro ⟨_, hline', hinvalid⟩
        cases hline.symm.trans hline'
        rw [hinvalid] at hvalid
        cases hvalid
      dsimp only
      split_ifs
      · obtain ⟨j', hj', hle, -⟩ := ih hnext
        exact ⟨j', hj', le_of_succ_le hle, fun hstuck => absurd hstuck hnot⟩
      · exact ⟨j + 1, hnext, le_succ j, fun hstuck => absurd hstuck hnot⟩

def Short (content : List UInt8) : Prop :=
  (∀ line ∈ completeLines 10 content, line.length ≤ maxLineBytes) ∧
    (unfinished 10 content).length ≤ maxLineBytes

theorem length_upTo_le_of_short (hshort : Short content) (hview : view <+: content) (j : ℕ) :
    (upTo 10 (view.drop (offset 10 content j))).length ≤ maxLineBytes := by
  by_cases hmem : 10 ∈ view.drop (offset 10 content j)
  · exact hshort.1 _ (mem_of_getElem? (upTo_drop_offset hview hmem))
  · obtain ⟨line, hline, hle⟩ := upTo_drop_of_not_mem hview hmem
    rcases hline with hline | rfl
    · exact hle.length_le.trans (hshort.1 line hline)
    · exact hle.length_le.trans hshort.2

theorem read_collectLoop_le (hshort : Short content) (hviews : Sees content size views)
    {start : ℕ} (maxEvents : ℕ) {fuel i j : ℕ}
    (h : At J U content size earlier j s) (hstart : start ≤ s.pos)
    (hread : s.read = s.pos - start) (hlt : s.pos - start < maxPullBytes) :
    (collectLoop J U start maxEvents views fuel i s).read ≤ maxPullBytes + maxLineBytes := by
  induction fuel generalizing i j s with
  | zero =>
    rw [collectLoop]
    omega
  | succ _ ih =>
    rw [collectLoop]
    cases hview : views i with
    | none =>
      rw [readOne]
      dsimp only
      rw [if_neg Bool.false_ne_true]
      omega
    | some view =>
    obtain ⟨hbegin, hsize⟩ := hviews i view hview
    have hlen := length_upTo_le_of_short hshort hbegin j
    rw [← h.pos] at hlen
    rcases readOne_cases hbegin h.pos start maxEvents with
      ⟨hstop, -⟩ | ⟨line, hline, rfl, -, hpos, hout, hread', hmore⟩
    · rw [hstop]
      dsimp only
      rw [if_neg Bool.false_ne_true]
      dsimp only
      omega
    · have hpos' := hpos
      rw [offset_succ hline, ← h.pos] at hpos'
      dsimp only
      split_ifs with hgo
      · exact ih (h.next hline rfl hsize hpos hout) (by omega) (by omega) (hmore hgo)
      · omega

theorem lt_pos_collectLoop_iff (hviews : Sees content size views) (start maxEvents : ℕ)
    {fuel j : ℕ} (h : At J U content size earlier j s)
    (hview : views 0 = some view) (hmem : 10 ∈ view.drop s.pos) :
    s.pos < (collectLoop J U start maxEvents views (fuel + 1) 0 s).pos ↔
      (U.decode (upTo 10 (view.drop s.pos))).isSome := by
  obtain ⟨hbegin, hsize⟩ := hviews 0 view hview
  rw [collectLoop, hview]
  rcases readOne_cases hbegin h.pos start maxEvents with
    ⟨hstop, hinvalid⟩ | ⟨line, hline, rfl, hvalid, hpos, hout, -, -⟩
  · rw [hstop, hinvalid hmem]
    exact iff_of_false (lt_irrefl _) false_ne_true
  · refine iff_of_true ?_ hvalid
    have hnext := h.next hline rfl hsize hpos hout
    have hne := length_pos_of_getElem? hline
    have hlt : s.pos < offset 10 content (j + 1) := by
      rw [offset_succ hline, ← h.pos]
      omega
    dsimp only
    split_ifs
    · obtain ⟨_, hj', hle, -⟩ := collectLoop_at hviews start maxEvents hnext
      rw [hj'.pos]
      exact hlt.trans_le (offset_mono hle)
    · rwa [hpos]

/-! ### One collection after the other -/

/-- What the control plane keeps of a sensor, the size of the file, and the alerts returned so
far. -/
structure Tail where
  inode : ℕ
  offset : ℕ
  size : ℕ
  out : Text

structure Call where
  attempt : Attempt
  maxEvents : ℕ
  size : ℕ

variable (J U) in
def collected (s : Tail) (c : Call) : Collected :=
  collectEvents J U s.offset s.inode c.maxEvents c.attempt

variable (J U) in
/-- A collection, whose cursor is kept for the next. -/
def step (s : Tail) (c : Call) : Tail :=
  match collected J U s c with
  | .unreadable _ => { s with size := c.size }
  | .cursor out inode pos _ => ⟨inode, pos, c.size, s.out ++ out⟩

def Collected.read : Collected → ℕ
  | unreadable _ => 0
  | cursor _ _ _ n => n

/-- Where the file with this inode is read next. -/
def Tail.resume (inode : ℕ) (s : Tail) : ℕ := if s.inode = inode then s.offset else 0

/-- The file has this inode and grows towards this content. Any call may fail but the seeking. -/
structure Access (inode : ℕ) (content : List UInt8) (s : Tail) (c : Call) : Prop where
  grows : s.size ≤ c.size
  metadata : ∀ ino size, c.attempt.metadata = .ok (ino, size) → ino = inode ∧ s.size ≤ size
  seeks : c.attempt.seeks = true
  sees : Sees content c.size c.attempt.views

/-- The file can be looked at and opened, and its first line read. -/
def Readable (s : Tail) (c : Call) : Prop :=
  c.attempt.metadata.isOk = true ∧ c.attempt.opened.isOk = true ∧
    ∃ view, c.attempt.views 0 = some view ∧ s.size ≤ view.length

variable (J U) in
/-- The cursor stands at the beginning of line `j`, and the alerts before it were returned. -/
structure Standing (inode : ℕ) (content : List UInt8) (j : ℕ) (s : Tail) : Prop where
  resume : s.resume inode = offset 10 content j
  out : s.out = textBefore J U content j
  le : s.resume inode ≤ s.size

variable {inode j : ℕ} {s : Tail} {c : Call}

theorem resume_mk (o n : ℕ) (out : Text) : Tail.resume inode ⟨inode, o, n, out⟩ = o :=
  if_pos rfl

theorem startOffset_eq (hinode : inode ≠ 0) (hle : s.resume inode ≤ s.size) {n : ℕ}
    (hn : s.size ≤ n) : startOffset s.offset s.inode inode n = s.resume inode := by
  rw [startOffset, Tail.resume] at *
  by_cases h : s.inode = inode
  · rw [if_pos h] at hle ⊢
    rw [if_pos ⟨h ▸ hinode, h.symm, hle.trans hn⟩]
  · rw [if_neg h, if_neg fun h' => h h'.2.1.symm]

theorem size_step (s : Tail) (c : Call) : (step J U s c).size = c.size := by
  rw [step]
  cases collected J U s c with
  | unreadable | cursor => rfl

variable (J U) in
def reading (inode : ℕ) (s : Tail) (c : Call) : Progress :=
  collectLoop J U (s.resume inode) (Nat.max c.maxEvents 1) c.attempt.views maxPullBytes 0
    ⟨s.resume inode, 0, [], 0⟩

theorem reading_of_stop {s' : Progress}
    (h : readOne J U (s.resume inode) (max c.maxEvents 1) (c.attempt.views 0)
      ⟨s.resume inode, 0, [], 0⟩ = (s', false)) :
    reading J U inode s c = s' := by
  rw [reading, show maxPullBytes = 8388607 + 1 from rfl, collectLoop, h]
  exact if_neg Bool.false_ne_true

variable (hinode : inode ≠ 0) (h : Standing J U inode content j s) (hc : Access inode content s c)

include hinode h hc in
theorem collected_cases :
    ((∃ reason, collected J U s c = .unreadable reason) ∧ ¬ Readable s c) ∨
      collected J U s c = .cursor (reading J U inode s c).out inode (reading J U inode s c).pos
        (reading J U inode s c).read := by
  rw [collected, collectEvents, Readable]
  cases hmeta : c.attempt.metadata with
  | error => exact .inl ⟨⟨_, rfl⟩, fun hr => false_ne_true hr.1⟩
  | ok m =>
    obtain ⟨ino, n⟩ := m
    obtain ⟨rfl, hn⟩ := hc.metadata ino n hmeta
    dsimp only
    cases hopen : c.attempt.opened with
    | error => exact .inl ⟨⟨_, rfl⟩, fun hr => false_ne_true hr.2.1⟩
    | ok =>
      refine .inr ?_
      dsimp only
      rw [startOffset_eq hinode h.le hn, hc.seeks, if_neg fun hs => Bool.noConfusion hs.2, reading]

theorem Standing.at_start (h : Standing J U inode content j s) (hc : Access inode content s c) :
    At J U content c.size s.out j ⟨s.resume inode, 0, [], 0⟩ :=
  ⟨h.resume, (append_nil _).trans h.out, h.le.trans hc.grows⟩

include hinode h hc in
theorem Standing.step :
    ∃ j', Standing J U inode content j' (step J U s c) ∧ (Stuck U content j → j' = j) := by
  rcases collected_cases hinode h hc with ⟨⟨reason, hr⟩, -⟩ | hr
  · refine ⟨j, ?_, fun _ => rfl⟩
    rw [Scourge.step, hr]
    exact ⟨h.resume, h.out, h.le.trans hc.grows⟩
  · obtain ⟨j', hj', -, hstuck⟩ := collectLoop_at hc.sees _ _ (h.at_start hc)
    refine ⟨j', ?_, hstuck⟩
    rw [Scourge.step, hr]
    dsimp only
    refine ⟨?_, hj'.text, ?_⟩
    · rw [resume_mk]
      exact hj'.pos
    · rw [resume_mk]
      exact hj'.le

include hinode h hc in
theorem Standing.lt_resume_step_iff (hread : Readable s c)
    (hmem : 10 ∈ (content.take s.size).drop (s.resume inode)) :
    s.resume inode < (Scourge.step J U s c).resume inode ↔
      (U.decode (upTo 10 (content.drop (s.resume inode)))).isSome := by
  rcases collected_cases hinode h hc with ⟨-, hr⟩ | hr
  · exact absurd hread hr
  obtain ⟨-, -, view, hview, hlen⟩ := hread
  have hbegin := (hc.sees 0 view hview).1
  have hgrown : content.take s.size <+: view :=
    prefix_of_prefix_length_le (List.take_prefix _ _) hbegin
      ((length_take_le _ _).trans hlen)
  have hmem' := (hgrown.drop (s.resume inode)).subset hmem
  have hsame : upTo 10 (view.drop (s.resume inode)) = upTo 10 (content.drop (s.resume inode)) := by
    have hall := (hbegin.drop (s.resume inode)).subset hmem'
    rw [h.resume] at hmem' hall ⊢
    exact some.inj ((upTo_drop_offset hbegin hmem').symm.trans
      (upTo_drop_offset (prefix_refl _) hall))
  rw [Scourge.step, hr, resume_mk, ← hsame]
  exact lt_pos_collectLoop_iff hc.sees _ _ (h.at_start hc) hview hmem'

theorem Standing.read_le (hshort : Short content) (hinode : inode ≠ 0)
    (h : Standing J U inode content j s) (hc : Access inode content s c) :
    (collected J U s c).read ≤ maxPullBytes + maxLineBytes := by
  rcases collected_cases hinode h hc with ⟨⟨reason, hr⟩, -⟩ | hr
  · rw [hr]
    exact zero_le _
  · rw [hr]
    refine read_collectLoop_le hshort hc.sees _ (h.at_start hc) (le_refl _) ?_ ?_
    · exact (Nat.sub_self _).symm
    · rw [Nat.sub_self]
      decide

theorem Standing.out_eq (h : Standing J U inode content j s)
    (hmem : 10 ∉ content.drop (s.resume inode)) :
    s.out = (completeLines 10 content).flatMap (alertText J U) := by
  have hle : (completeLines 10 content).length ≤ j := by
    by_contra hlt
    have hline := getElem?_eq_getElem (Nat.lt_of_not_le hlt)
    obtain ⟨_, hbody, -⟩ := exists_of_mem_completeLines (mem_of_getElem? hline)
    apply hmem
    rw [h.resume, drop_offset, drop_eq_getElem_cons (Nat.lt_of_not_le hlt), hbody]
    simp
  rw [h.out, textBefore, take_of_length_le hle]

/-- What is returned is the alerts of the lines before the cursor, each once. A collection goes on
from a complete line exactly if it is UTF-8, and what it reads is bounded if the lines are. -/
theorem collected_of_reached (hinode : inode ≠ 0) {s₀ : Tail} (hnew : s₀.inode ≠ inode)
    (hout : s₀.out = []) (h : Machine.Reached (step J U) (Access inode content) s₀ s) :
    (∃ j, s.out = textBefore J U content j ∧ s.resume inode = offset 10 content j) ∧
    (10 ∉ content.drop (s.resume inode) →
      s.out = (completeLines 10 content).flatMap (alertText J U)) ∧
    (∀ c, Access inode content s c → Readable s c →
      10 ∈ (content.take s.size).drop (s.resume inode) →
      (s.resume inode < (step J U s c).resume inode ↔
        (U.decode (upTo 10 (content.drop (s.resume inode)))).isSome)) ∧
    (Short content →
      ∀ c, Access inode content s c → (collected J U s c).read ≤ maxPullBytes + maxLineBytes) := by
  obtain ⟨j, hj⟩ : ∃ j, Standing J U inode content j s := by
    refine h.inv (I := fun s => ∃ j, Standing J U inode content j s) ⟨0, ?_, hout, ?_⟩ ?_
    · exact if_neg hnew
    · rw [Tail.resume, if_neg hnew]
      exact zero_le _
    · rintro s c ⟨j, hj⟩ hc
      obtain ⟨j', hj', -⟩ := hj.step hinode hc
      exact ⟨j', hj'⟩
  exact ⟨⟨j, hj.out, hj.resume⟩, hj.out_eq, fun c hc => hj.lt_resume_step_iff hinode hc,
    fun hshort c hc => hj.read_le hshort hinode hc⟩

/-! ### Two files -/

theorem ofNat_eq_newline_iff {b : UInt8} (hb : b < 128) : Char.ofNat b.toNat = '\n' ↔ b = 10 := by
  have hlt : b.toNat < 128 := UInt8.lt_iff_toNat_lt.1 hb
  have hvalid : b.toNat.isValidChar := Or.inl (by omega)
  constructor
  · intro h
    rw [Char.ofNat, dif_pos hvalid] at h
    have hnat : (Char.ofNatAux b.toNat hvalid).val.toNat = 10 := congrArg (fun c => c.val.toNat) h
    exact UInt8.toNat_inj.1 hnat
  · rintro rfl
    rfl

def ascii : Utf8 where
  decode bytes := if bytes.all (· < 128) then some (bytes.map fun b => Char.ofNat b.toNat) else none
  getLast?_decode := by
    intro bytes text h
    split_ifs at h with hall
    obtain rfl := some.inj h
    rw [getLast?_map]
    cases hlast : bytes.getLast? with
    | none => simp
    | some b =>
      have hb := of_decide_eq_true (all_eq_true.1 hall b (mem_of_getLast? hlast))
      rw [map_some, some_inj, some_inj]
      exact ofNat_eq_newline_iff hb

def alerts : Json where
  Value := Unit
  parse _ := some ()
  get _ _ := some ()
  asStr _ := some "alert"
  asI64 _ := none

/-- A collection that finds all of this in the file. -/
def Call.whole (inode : ℕ) (content : List UInt8) : Call :=
  ⟨⟨.ok (inode, content.length), .ok (), true, fun _ => some content⟩, 100, content.length⟩

theorem access_whole (inode : ℕ) (content : List UInt8) {s : Tail}
    (h : s.size ≤ content.length) : Access inode content s (.whole inode content) where
  grows := h
  metadata := by
    intro ino n hmeta
    cases hmeta
    exact ⟨rfl, h⟩
  seeks := rfl
  sees := by
    intro i view hview
    cases hview
    exact ⟨prefix_refl _, le_refl _⟩

theorem collected_of_reached_alerts :
    (step alerts ascii ⟨0, 0, 0, []⟩ (.whole 7 [65, 10, 66, 10, 67])).out =
      (completeLines 10 [65, 10, 66, 10, 67]).flatMap (alertText alerts ascii) :=
  (collected_of_reached (by decide) (by decide) rfl
    (.next .start (access_whole 7 [65, 10, 66, 10, 67] (zero_le _)))).2.1 (by decide)

private theorem read_whole (hinode : inode ≠ 0) (hmem : 10 ∉ content) :
    (collected J U ⟨0, 0, 0, []⟩ (.whole inode content)).read = content.length := by
  have hstand : Standing J U inode content 0 ⟨0, 0, 0, []⟩ :=
    ⟨if_neg hinode.symm, rfl, by rw [Tail.resume, if_neg hinode.symm]⟩
  have haccess := access_whole inode content (s := ⟨0, 0, 0, []⟩) (zero_le _)
  rcases collected_cases hinode hstand haccess with ⟨-, hr⟩ | hr
  · exact absurd ⟨rfl, rfl, content, rfl, zero_le _⟩ hr
  rw [hr, Collected.read]
  rcases readOne_cases (J := J) (U := U) (prefix_refl content) (hstand.at_start haccess).pos
    (Tail.resume inode ⟨0, 0, 0, []⟩) (max (Call.whole inode content).maxEvents 1) with
    ⟨hstop, -⟩ | ⟨line, hline, htake, -⟩
  · rw [reading_of_stop hstop]
    dsimp only
    rw [Tail.resume, if_neg hinode.symm, drop_zero, upTo_of_not_mem hmem, Nat.zero_add]
  · obtain ⟨_, hbody, -⟩ := exists_of_mem_completeLines (mem_of_getElem? hline)
    rw [(hstand.at_start haccess).pos, offset, take_zero, flatten_nil, length_nil,
      drop_zero, upTo_of_not_mem hmem] at htake
    rw [← htake, hbody] at hmem
    exact absurd (mem_append_right _ mem_cons_self) hmem

/-- Collections stay before a line that is not UTF-8, and read the whole of a long one. -/
theorem stuck_of_invalid :
    (∀ s, Machine.Reached (step alerts ascii) (Access 7 [255, 10, 65, 10]) ⟨0, 0, 4, []⟩ s →
      10 ∈ ([255, 10, 65, 10].take s.size).drop (s.resume 7) ∧ s.resume 7 = 0 ∧ s.out = []) ∧
    ∃ content : List UInt8, maxPullBytes + maxLineBytes <
      (collected alerts ascii ⟨0, 0, 0, []⟩ (.whole 7 content)).read := by
  constructor
  · intro s h
    have hs : Standing alerts ascii 7 [255, 10, 65, 10] 0 s ∧ 4 ≤ s.size := by
      refine h.inv (I := fun s => Standing alerts ascii 7 [255, 10, 65, 10] 0 s ∧ 4 ≤ s.size)
        ⟨⟨rfl, rfl, zero_le _⟩, le_refl _⟩ ?_
      intro s c hs hc
      obtain ⟨_, hnext, hstuck⟩ := hs.1.step (by decide) hc
      rw [hstuck ⟨_, rfl, rfl⟩] at hnext
      rw [size_step]
      exact ⟨hnext, hs.2.trans hc.grows⟩
    have hresume : s.resume 7 = 0 := hs.1.resume
    refine ⟨?_, hresume, hs.1.out⟩
    rw [hresume, take_of_length_le hs.2]
    decide
  · refine ⟨replicate (maxPullBytes + maxLineBytes + 1) 65, ?_⟩
    rw [read_whole (by decide) (by simp [mem_replicate]), length_replicate]
    exact lt_succ_self _

end Abyssal.Scourge
