import Abyssal.Reliquary.Crypto

/-!
# Encrypting and decrypting an archive

The encryptor cuts the archive by arithmetic, the decryptor cuts the file by reading, with one byte
ahead.

## Main results

* `decryptFile_encryptFile`: both cut alike, however the reads are split, and a file that is not
  what the encryptor wrote is refused, as long as no chunk in it was forged.
-/

namespace Abyssal.Reliquary

open Reading List

variable {Key : Type} (crypto : Crypto Key)

theorem sealedChunkLen_pos : 0 < sealedChunkLen := by decide

/-! ### The decryptor on pieces -/

/-- The decryptor on the pieces of a file. It stops at the first that is refused. -/
def openPieces (key : Key) (nonce : List UInt8) (d : Decrypted) : List (List UInt8) → Decrypted
  | [] => d
  | [piece] => decryptChunk crypto key nonce d true piece
  | piece :: next :: rest =>
    let d := decryptChunk crypto key nonce d false piece
    match d.result with
    | .error _ => d
    | .ok _ => openPieces key nonce d (next :: rest)

theorem openPieces_cons (key : Key) (nonce : List UInt8) (d : Decrypted) (piece : List UInt8)
    {rest : List (List UInt8)} (h : rest ≠ []) :
    openPieces crypto key nonce d (piece :: rest) =
      match (decryptChunk crypto key nonce d false piece).result with
      | .error _ => decryptChunk crypto key nonce d false piece
      | .ok _ =>
        openPieces crypto key nonce (decryptChunk crypto key nonce d false piece) rest := by
  cases rest with
  | nil => exact absurd rfl h
  | cons => rfl

open Nat

open Source

theorem decryptLoop_eq (key : Key) (nonce : List UInt8) {fuel : ℕ} {source : Source UInt8}
    (h : source.rest.length < fuel) (chunk : List UInt8) (d : Decrypted) :
    decryptLoop crypto key nonce fuel source chunk d = some (openPieces crypto key nonce d
      (chunk :: if source.rest = [] then [] else pieces sealedChunkLen source.rest)) := by
  induction fuel generalizing source chunk d with
  | zero => exact absurd h (not_lt_zero _)
  | succ fuel ih =>
    obtain ⟨hprobe, hleft⟩ := source.read_one
    rw [decryptLoop]
    dsimp only
    cases hrest : source.rest with
    | nil =>
      rw [hprobe, hrest]
      rfl
    | cons byte rest =>
      rw [hrest] at hprobe hleft h
      have hnext : (source.read 1).1 ++ ((source.read 1).2.readUpTo (sealedChunkLen - 1)).1 =
          (byte :: rest).take sealedChunkLen := by
        rw [readUpTo_fst, hprobe, hleft]
        rfl
      have hafter : ((source.read 1).2.readUpTo (sealedChunkLen - 1)).2.rest =
          (byte :: rest).drop sealedChunkLen := by
        rw [rest_readUpTo, hleft]
        rfl
      have hfuel : ((byte :: rest).drop sealedChunkLen).length < fuel := by
        rw [length_drop]
        rw [length_cons] at h ⊢
        have := sealedChunkLen_pos
        omega
      rw [hprobe, if_neg (cons_ne_nil _ _), pieces_eq_cons sealedChunkLen_pos, ← hafter,
        ← hnext, openPieces]
      cases (decryptChunk crypto key nonce d false chunk).result with
      | error => rfl
      | ok => rw [hprobe]; exact ih (hafter ▸ hfuel) _ _

def headerLen : ℕ := noncePrefixLen + saltLen

def untouched : Decrypted := ⟨[], [], .ok ()⟩

variable {passphrase : String} {key : Key}

theorem decryptFile_eq {metadata : EncryptionMetadata} {salt : List UInt8}
    (halgorithm : metadata.algorithm = algorithm)
    (hsalt : crypto.decodeBase64 metadata.kdfSaltBase64 = some salt)
    (hkey : crypto.deriveKey passphrase salt = some key) (file : Source UInt8) :
    decryptFile crypto passphrase metadata file =
      if file.rest.length < headerLen then some (failed .readingHeader)
      else some (openPieces crypto key (file.rest.take noncePrefixLen) untouched
        (pieces sealedChunkLen (file.rest.drop headerLen))) := by
  have hheader : headerLen = noncePrefixLen + saltLen := rfl
  rw [decryptFile, if_neg (not_not.2 halgorithm)]
  simp only [hsalt, hkey]
  by_cases hnonce : noncePrefixLen ≤ file.rest.length
  · have hrest := file.rest_readUpTo noncePrefixLen
    simp only [readExact_of_le hnonce]
    by_cases hsaltLen : saltLen ≤ (file.readUpTo noncePrefixLen).2.rest.length
    · have hlen : ¬file.rest.length < headerLen := by
        rw [hrest, length_drop] at hsaltLen
        omega
      simp only [readExact_of_le hsaltLen]
      rw [if_neg hlen, decryptLoop_eq crypto _ _ (lt_succ_self _)]
      simp only [readUpTo_fst, rest_readUpTo]
      rw [← pieces_eq_cons sealedChunkLen_pos, drop_drop]
      rfl
    · have hlen : file.rest.length < headerLen := by
        rw [hrest, length_drop] at hsaltLen
        omega
      simp only [readExact_of_lt (Nat.lt_of_not_le hsaltLen)]
      rw [if_pos hlen]
  · have hlen : file.rest.length < headerLen := by omega
    simp only [readExact_of_lt (Nat.lt_of_not_le hnonce)]
    rw [if_pos hlen]

/-! ### Chunks that were sealed -/

def sealedChunk (key : Key) (nonce : List UInt8) (x : Numbered UInt8) : Numbered UInt8 where
  number := x.number
  last := x.last
  piece := crypto.sealChunk key nonce x.number x.last x.piece

variable {nonce : List UInt8} {d : Decrypted} {last : Bool}

private theorem decryptChunk_sealChunk
    (h : last = false → d.chunks.length ≠ counterMax) (chunk : List UInt8) :
    decryptChunk crypto key nonce d last
        (crypto.sealChunk key nonce d.chunks.length last chunk) =
      { d with
        written := d.written ++ chunk
        chunks := d.chunks ++ [sealedChunk crypto key nonce ⟨d.chunks.length, last, chunk⟩] } := by
  have hmax : (!last && d.chunks.length = counterMax) = false := by
    cases last with
    | true => rfl
    | false => simpa using h rfl
  rw [decryptChunk]
  simp only [hmax, Bool.false_eq_true, if_false, crypto.openChunk_sealChunk]
  rfl

variable {ps : List (List UInt8)}

theorem openPieces_sealed (hne : ps ≠ []) (hd : d.result = .ok ())
    (hmax : ∀ x ∈ numbered d.chunks.length ps, x.last = false → x.number ≠ counterMax) :
    openPieces crypto key nonce d
        ((numbered d.chunks.length ps).map fun x => (sealedChunk crypto key nonce x).piece) =
      { written := d.written ++ ps.flatten
        chunks := d.chunks ++ (numbered d.chunks.length ps).map (sealedChunk crypto key nonce)
        result := .ok () } := by
  induction ps generalizing d with
  | nil => exact absurd rfl hne
  | cons piece rest ih =>
    cases rest with
    | nil =>
      change decryptChunk crypto key nonce d true (crypto.sealChunk key nonce _ _ _) = _
      rw [decryptChunk_sealChunk crypto fun h => Bool.noConfusion h]
      simp [numbered, hd]
    | cons next rest =>
      have hpos : d.chunks.length ≠ counterMax :=
        hmax ⟨d.chunks.length, false, piece⟩ mem_cons_self rfl
      have hfirst : decryptChunk crypto key nonce d false
          (crypto.sealChunk key nonce d.chunks.length false piece) = _ :=
        decryptChunk_sealChunk crypto (fun _ => hpos) piece
      set d' : Decrypted := { d with
        written := d.written ++ piece
        chunks := d.chunks ++ [sealedChunk crypto key nonce ⟨d.chunks.length, false, piece⟩] }
      have hlen : d'.chunks.length = d.chunks.length + 1 := by simp [d']
      have hrest := ih (cons_ne_nil next rest) (d := d') hd fun x hx =>
        hmax x (mem_cons_of_mem _ (hlen ▸ hx))
      rw [hlen] at hrest
      have hne' : ((numbered (d.chunks.length + 1) (next :: rest)).map fun x =>
          (sealedChunk crypto key nonce x).piece) ≠ [] :=
        mt map_eq_nil_iff.1 (numbered_ne_nil (cons_ne_nil next rest))
      change openPieces crypto key nonce d
        (crypto.sealChunk key nonce d.chunks.length false piece :: _) = _
      rw [openPieces_cons crypto key nonce d _ hne', hfirst]
      rw [show d'.result = .ok () from hd]
      dsimp only
      rw [hrest]
      simp [d', numbered]

/-! ### The encryptor on pieces -/

variable {e : Encryption}

theorem encryptChunk_of_le (key : Key) (nonce : List UInt8) {size : ℕ}
    (h : size ≤ e.source.rest.length) (last : Bool) :
    encryptChunk crypto key nonce e last size =
      if !last && e.position = counterMax then .error .sealingChunk
      else .ok
        { source := (e.source.readUpTo size).2
          position := e.position + 1
          written := e.written ++
            crypto.sealChunk key nonce e.position last (e.source.rest.take size)
          chunks := e.chunks ++ [⟨e.position, last, e.source.rest.take size⟩] } := by
  rw [encryptChunk, readExact_of_le h]

def sealedBytes (key : Key) (nonce : List UInt8) (chunks : List (Numbered UInt8)) : List UInt8 :=
  (chunks.map fun x => (sealedChunk crypto key nonce x).piece).flatten

variable {n : ℕ}

theorem encryptChunks_eq (key : Key) (nonce : List UInt8)
    (hlen : n * chunkSize ≤ e.source.rest.length) (hpos : e.position ≤ counterMax) :
    ∃ source : Source UInt8, source.rest = e.source.rest.drop (n * chunkSize) ∧
      encryptChunks crypto key nonce n e = if e.position + n ≤ counterMax then .ok
          { source := source
            position := e.position + n
            written := e.written ++ sealedBytes crypto key nonce
              (numberedFront e.position (firstPieces chunkSize n e.source.rest))
            chunks := e.chunks ++
              numberedFront e.position (firstPieces chunkSize n e.source.rest) }
        else .error .sealingChunk := by
  induction n generalizing e with
  | zero =>
    refine ⟨e.source, by simp, ?_⟩
    simp [encryptChunks, firstPieces, numberedFront, sealedBytes, hpos]
  | succ n ih =>
    have hmul : (n + 1) * chunkSize = n * chunkSize + chunkSize := succ_mul n chunkSize
    have hfirst : chunkSize ≤ e.source.rest.length := by omega
    rw [encryptChunks, encryptChunk_of_le crypto key nonce hfirst]
    by_cases hmax : e.position = counterMax
    · refine ⟨(e.source.readUpTo ((n + 1) * chunkSize)).2, rest_readUpTo _ _, ?_⟩
      rw [if_pos (by simpa using hmax), if_neg (by omega)]
      rfl
    · rw [if_neg (by simpa using hmax)]
      set e' : Encryption :=
        { source := (e.source.readUpTo chunkSize).2
          position := e.position + 1
          written := e.written ++
            crypto.sealChunk key nonce e.position false (e.source.rest.take chunkSize)
          chunks := e.chunks ++ [⟨e.position, false, e.source.rest.take chunkSize⟩] } with he'
      have hrest := e.source.rest_readUpTo chunkSize
      have hlen' : n * chunkSize ≤ e'.source.rest.length := by
        rw [hrest, length_drop]
        omega
      obtain ⟨source, hsource, heq⟩ := ih hlen' (Nat.lt_of_le_of_ne hpos hmax)
      refine ⟨source, ?_, ?_⟩
      · rw [hsource, hrest, drop_drop, hmul, Nat.add_comm]
      · change encryptChunks crypto key nonce n e' = _
        rw [heq, hrest]
        simp [he', firstPieces, numberedFront, sealedBytes, sealedChunk, Nat.add_assoc,
          Nat.add_comm 1 n]

variable (length : ℕ)

/-- The number of full chunks that are not the last, of an archive of the given length. -/
def nonFinalChunks : ℕ :=
  if length % chunkSize = 0 ∧ 0 < length / chunkSize then length / chunkSize - 1
  else length / chunkSize

def finalLen : ℕ :=
  if length % chunkSize = 0 ∧ 0 < length / chunkSize then chunkSize else length % chunkSize

theorem finalLen_eq : nonFinalChunks length * chunkSize + finalLen length = length := by
  unfold nonFinalChunks finalLen chunkSize
  split_ifs
  all_goals omega

theorem finalLen_le : finalLen length ≤ chunkSize := by
  unfold finalLen chunkSize
  split_ifs
  all_goals omega

private theorem finalLen_pos : 0 < finalLen length ∨ nonFinalChunks length = 0 := by
  unfold nonFinalChunks finalLen chunkSize
  split_ifs
  all_goals omega

theorem nonFinalChunks_le_iff :
    nonFinalChunks length ≤ counterMax ↔ length ≤ 4294967296 * chunkSize := by
  unfold nonFinalChunks counterMax chunkSize
  split_ifs
  all_goals omega

theorem pieces_chunkSize (l : List UInt8) :
    pieces chunkSize l = firstPieces chunkSize (nonFinalChunks l.length) l ++
      [l.drop (nonFinalChunks l.length * chunkSize)] := by
  have heq := finalLen_eq l.length
  have hle := finalLen_le l.length
  have hmul : (nonFinalChunks l.length + 1) * chunkSize =
      nonFinalChunks l.length * chunkSize + chunkSize := succ_mul _ _
  refine pieces_eq_firstPieces (by decide) ((finalLen_pos l.length).imp_left fun hpos => ?_) ?_
  all_goals omega

def recorded (random : Randomness) : EncryptionMetadata where
  algorithm := algorithm
  kdf := "argon2id"
  kdfSaltBase64 := crypto.encodeBase64 random.salt
  kdfParams := "m=19456,t=2,p=1"

def archiveChunks (plaintext : List UInt8) : List (Numbered UInt8) :=
  numbered 0 (pieces chunkSize plaintext)

theorem archiveChunks_eq (l : List UInt8) :
    archiveChunks l = numberedFront 0 (firstPieces chunkSize (nonFinalChunks l.length) l) ++
      [⟨nonFinalChunks l.length, true, l.drop (nonFinalChunks l.length * chunkSize)⟩] := by
  rw [archiveChunks, pieces_chunkSize, numbered_concat, length_firstPieces, Nat.zero_add]

def begun (random : Randomness) (plaintext : Source UInt8) : Encryption where
  source := plaintext
  position := 0
  written := random.noncePrefix ++ random.salt
  chunks := []

variable {random : Randomness}

private theorem encryptFile_eq
    (hkey : crypto.deriveKey passphrase random.salt = some key) (plaintext : Source UInt8) :
    encryptFile crypto random passphrase plaintext = (do
      let e ← encryptChunks crypto key random.noncePrefix (nonFinalChunks plaintext.rest.length)
        (begun random plaintext)
      let e ← encryptChunk crypto key random.noncePrefix e true (finalLen plaintext.rest.length)
      return ⟨e.written, recorded crypto random, e.chunks⟩) := by
  rw [encryptFile, hkey]
  rfl

variable {plaintext : Source UInt8}

theorem encryptFile_of_key (hkey : crypto.deriveKey passphrase random.salt = some key) :
    encryptFile crypto random passphrase plaintext =
      if plaintext.rest.length ≤ 4294967296 * chunkSize then .ok
        { file := random.noncePrefix ++ random.salt ++
            sealedBytes crypto key random.noncePrefix (archiveChunks plaintext.rest)
          metadata := recorded crypto random
          chunks := archiveChunks plaintext.rest }
      else .error .sealingChunk := by
  have htotal := finalLen_eq plaintext.rest.length
  have hchunks := archiveChunks_eq plaintext.rest
  rw [encryptFile_eq crypto hkey, if_congr (nonFinalChunks_le_iff _).symm rfl rfl]
  generalize nonFinalChunks plaintext.rest.length = n at htotal hchunks ⊢
  have hstart : n * chunkSize ≤ (begun random plaintext).source.rest.length := by
    change n * chunkSize ≤ plaintext.rest.length
    omega
  obtain ⟨source, hsource, hfront⟩ :=
    encryptChunks_eq crypto key random.noncePrefix hstart (zero_le _)
  change source.rest = plaintext.rest.drop (n * chunkSize) at hsource
  change _ = if 0 + n ≤ counterMax then _ else _ at hfront
  have hlast : source.rest.length = finalLen plaintext.rest.length := by
    rw [hsource, length_drop]
    omega
  rw [hfront, Nat.zero_add]
  split_ifs
  · change (encryptChunk crypto key random.noncePrefix _ true _ >>= _) = _
    rw [encryptChunk_of_le crypto key random.noncePrefix (Nat.le_of_eq hlast.symm), Bool.not_true,
      Bool.false_and]
    have htail : source.rest.take (finalLen plaintext.rest.length) =
        plaintext.rest.drop (n * chunkSize) := by
      rw [take_of_length_le (Nat.le_of_eq hlast), hsource]
    rw [hchunks]
    simp [begun, htail, sealedBytes, sealedChunk, bind, Except.bind, pure, Except.pure]
  · rfl

theorem pieces_sealedBytes (key : Key) (nonce l : List UInt8) :
    pieces sealedChunkLen (sealedBytes crypto key nonce (archiveChunks l)) =
      (archiveChunks l).map fun x => (sealedChunk crypto key nonce x).piece := by
  have htotal := finalLen_eq l.length
  have hle := finalLen_le l.length
  rw [archiveChunks_eq, sealedBytes, map_append, map_singleton]
  refine pieces_concat sealedChunkLen_pos (fun piece hpiece => ?_) ?_ ?_
  · obtain ⟨x, hx, rfl⟩ := mem_map.1 hpiece
    have hlen : x.piece.length = chunkSize := length_of_mem_firstPieces (by omega)
      (piece_mem_of_mem_numberedFront hx)
    rw [sealedChunk, crypto.length_sealChunk, hlen]
    rfl
  · rw [sealedChunk, crypto.length_sealChunk, length_drop, sealedChunkLen]
    omega
  · intro hnil
    have hlen := congrArg length hnil
    rw [sealedChunk, crypto.length_sealChunk] at hlen
    exact absurd hlen (succ_ne_zero _)

variable {x : Numbered UInt8}

theorem number_ne_counterMax {l : List UInt8} (hlen : l.length ≤ 4294967296 * chunkSize)
    (hx : x ∈ archiveChunks l) (hlast : x.last = false) : x.number ≠ counterMax := by
  have hmax := (nonFinalChunks_le_iff l.length).2 hlen
  rw [archiveChunks_eq] at hx
  rcases mem_append.1 hx with hx | hx
  · have hlt := number_lt_of_mem_numberedFront hx
    rw [length_firstPieces] at hlt
    omega
  · rw [mem_singleton.1 hx] at hlast
    cases hlast.symm

/-! ### Files that were altered -/

/-- The pieces that the cipher opens are chunks that were sealed under the nonce, at the position
and with the mark. -/
def Unforged (key : Key) (nonce : List UInt8) (chunks : List (Numbered UInt8))
    (file : List UInt8) : Prop :=
  ∀ x ∈ numbered 0 (pieces sealedChunkLen (file.drop headerLen)),
    crypto.openChunk key (file.take noncePrefixLen) x.number x.last x.piece ≠ none →
      file.take noncePrefixLen = nonce ∧ x ∈ chunks.map (sealedChunk crypto key nonce)

theorem length_chunks_decryptChunk (key : Key) (nonce : List UInt8) (d : Decrypted) (last : Bool)
    (chunk : List UInt8) :
    (decryptChunk crypto key nonce d last chunk).chunks.length = d.chunks.length + 1 := by
  unfold decryptChunk
  dsimp only
  split_ifs
  · simp
  · split
    all_goals simp

private theorem openChunk_ne_none
    {chunk : List UInt8} (h : (decryptChunk crypto key nonce d last chunk).result = .ok ()) :
    crypto.openChunk key nonce d.chunks.length last chunk ≠ none := by
  intro hnone
  unfold decryptChunk at h
  dsimp only at h
  rw [hnone] at h
  split_ifs at h

private theorem openChunk_ne_none_of_mem (h : (openPieces crypto key nonce d ps).result = .ok ())
    (hx : x ∈ numbered d.chunks.length ps) :
    crypto.openChunk key nonce x.number x.last x.piece ≠ none := by
  induction ps generalizing d with
  | nil => cases hx
  | cons piece rest ih =>
    cases rest with
    | nil =>
      rw [mem_singleton.1 hx]
      exact openChunk_ne_none crypto h
    | cons =>
      rw [openPieces_cons crypto key nonce d piece (cons_ne_nil _ _)] at h
      cases hfirst : (decryptChunk crypto key nonce d false piece).result with
      | error =>
        rw [hfirst] at h
        cases hfirst.symm.trans h
      | ok =>
        rw [hfirst] at h
        rcases mem_cons.1 hx with rfl | hx
        · exact openChunk_ne_none crypto hfirst
        · refine ih h ?_
          rwa [length_chunks_decryptChunk]

private theorem eq_of_unforged {plaintext file : List UInt8} (hd : d.chunks = [])
    (hok : (openPieces crypto key (file.take noncePrefixLen) d
      (pieces sealedChunkLen (file.drop headerLen))).result = .ok ())
    (h : Unforged crypto key nonce (archiveChunks plaintext) file) :
    file.take noncePrefixLen = nonce ∧
      file.drop headerLen = sealedBytes crypto key nonce (archiveChunks plaintext) := by
  have hzero : d.chunks.length = 0 := by rw [hd, length_nil]
  have hgenuine : ∀ x ∈ numbered 0 (pieces sealedChunkLen (file.drop headerLen)),
      file.take noncePrefixLen = nonce ∧
        x ∈ (archiveChunks plaintext).map (sealedChunk crypto key nonce) := fun x hx =>
    h x hx (openChunk_ne_none_of_mem crypto hok (hzero ▸ hx))
  have hne := pieces_ne_nil sealedChunkLen (file.drop headerLen)
  have hnumbered : numbered 0 ((archiveChunks plaintext).map fun x =>
      (sealedChunk crypto key nonce x).piece) =
      (archiveChunks plaintext).map (sealedChunk crypto key nonce) := numbered_map _ 0 _
  obtain ⟨x, hx⟩ := exists_mem_of_ne_nil _ (numbered_ne_nil (i := 0) hne)
  refine ⟨(hgenuine x hx).1, ?_⟩
  have heq := eq_of_numbered_subset hne fun x hx => hnumbered ▸ (hgenuine x hx).2
  rw [← flatten_pieces sealedChunkLen (file.drop headerLen), heq, sealedBytes]

/-- Encryption succeeds if there is a key and the archive is not too long. The decryptor returns the
archive, however the reads are split. A file with another nonce or other chunks is refused if
nothing in it is forged. -/
theorem decryptFile_encryptFile (random : Randomness) (passphrase : String)
    (plaintext : Source UInt8) :
    ((∃ out, encryptFile crypto random passphrase plaintext = .ok out) ↔
      (crypto.deriveKey passphrase random.salt).isSome ∧
        plaintext.rest.length ≤ 4294967296 * chunkSize) ∧
    ∀ out key, encryptFile crypto random passphrase plaintext = .ok out →
      crypto.deriveKey passphrase random.salt = some key →
      out.file = random.noncePrefix ++ random.salt ++
        sealedBytes crypto key random.noncePrefix out.chunks ∧
      (∀ file : Source UInt8, file.rest = out.file →
        decryptFile crypto passphrase out.metadata file = some
          { written := plaintext.rest
            chunks := out.chunks.map (sealedChunk crypto key random.noncePrefix)
            result := .ok () }) ∧
      ∀ file : Source UInt8, Unforged crypto key random.noncePrefix out.chunks file.rest →
        file.rest.take noncePrefixLen ≠ random.noncePrefix ∨
          file.rest.drop headerLen ≠ out.file.drop headerLen →
        ∃ d error, decryptFile crypto passphrase out.metadata file = some d ∧
          d.result = .error error := by
  have hheader : (random.noncePrefix ++ random.salt).length = headerLen := by
    rw [length_append, random.length_noncePrefix, random.length_salt]
    rfl
  refine ⟨?_, fun out key hout hkey => ?_⟩
  · cases hkey : crypto.deriveKey passphrase random.salt with
    | none =>
      have herror : encryptFile crypto random passphrase plaintext = .error .keyDerivation := by
        rw [encryptFile, hkey]
        rfl
      simp [herror]
    | some =>
      rw [encryptFile_of_key crypto hkey]
      split_ifs with hlen
      · simp [hlen]
      · simp [hlen]
  · rw [encryptFile_of_key crypto hkey] at hout
    split_ifs at hout with hlen
    cases hout
    have hdecrypt : ∀ file, decryptFile crypto passphrase (recorded crypto random) file = _ :=
      decryptFile_eq crypto rfl (crypto.decodeBase64_encodeBase64 random.salt) hkey
    refine ⟨rfl, fun file hfile => ?_, fun file hunforged haltered => ?_⟩
    · -- What was written is cut into the chunks that were sealed, and these are opened in turn.
      have hnonce : file.rest.take noncePrefixLen = random.noncePrefix := by
        rw [hfile, append_assoc, take_left' random.length_noncePrefix]
      have hbody : file.rest.drop headerLen =
          sealedBytes crypto key random.noncePrefix (archiveChunks plaintext.rest) := by
        rw [hfile, drop_left' hheader]
      have hlong : ¬file.rest.length < headerLen := by
        rw [hfile, length_append]
        omega
      have hopen : openPieces crypto key random.noncePrefix untouched _ = _ :=
        openPieces_sealed crypto (pieces_ne_nil chunkSize plaintext.rest) rfl
          fun x hx => number_ne_counterMax hlen hx
      rw [flatten_pieces] at hopen
      rw [hdecrypt, if_neg hlong, hnonce, hbody, pieces_sealedBytes]
      exact congrArg some hopen
    · rw [hdecrypt]
      split_ifs with hshort
      · exact ⟨_, _, rfl, rfl⟩
      · cases hresult : (openPieces crypto key (file.rest.take noncePrefixLen) untouched
            (pieces sealedChunkLen (file.rest.drop headerLen))).result with
        | error error => exact ⟨_, error, rfl, hresult⟩
        | ok _ =>
          obtain ⟨hnonce, hbody⟩ := eq_of_unforged crypto rfl hresult hunforged
          rw [drop_left' hheader] at haltered
          exact absurd haltered (not_or_intro (not_not_intro hnonce) (not_not_intro hbody))

/-! ### A cipher that marks the last chunk -/

def plainTag (last : Bool) : List UInt8 := replicate tagLen (if last then 1 else 0)

/-- A cipher without secrets: a chunk is followed by the mark of the last. -/
def plainCrypto : Crypto Unit where
  deriveKey _ _ := some ()
  sealChunk _ _ _ last chunk := chunk ++ plainTag last
  openChunk _ _ _ last piece :=
    if piece.drop (piece.length - tagLen) = plainTag last then
      some (piece.take (piece.length - tagLen))
    else none
  openChunk_sealChunk _ _ _ last chunk := by
    have hlen : (plainTag last).length = tagLen := length_replicate
    rw [length_append, hlen, Nat.add_sub_cancel, drop_left, take_left, if_pos rfl]
  length_sealChunk _ _ _ last chunk := by
    rw [length_append, plainTag, length_replicate]
  encodeBase64 bytes := String.ofList (bytes.map Char.ofUInt8)
  decodeBase64 text := some (text.toList.map Char.toUInt8)
  decodeBase64_encodeBase64 bytes := by
    have hbyte : ∀ byte ∈ bytes, (Char.toUInt8 ∘ Char.ofUInt8) byte = byte :=
      fun byte _ => byte.toUInt8_toUInt32
    rw [String.toList_ofList, map_map, map_congr_left hbyte, map_id']

def zeros : Randomness where
  salt := replicate saltLen 0
  noncePrefix := replicate noncePrefixLen 0
  length_salt := length_replicate
  length_noncePrefix := length_replicate

def twoBytes : Source UInt8 := ⟨[7, 8], fun _ => 0⟩

private theorem archiveChunks_twoBytes : archiveChunks twoBytes.rest = [⟨0, true, [7, 8]⟩] := by
  rw [archiveChunks, pieces_of_le (by decide)]
  rfl

theorem decryptFile_encryptFile_twoBytes :
    ∃ out, encryptFile plainCrypto zeros "passphrase" twoBytes = .ok out ∧
      (decryptFile plainCrypto "passphrase" out.metadata ⟨out.file, fun _ => 0⟩).map
        Decrypted.written = some [7, 8] ∧
      ∃ d error, decryptFile plainCrypto "passphrase" out.metadata
        ⟨out.file ++ [0], fun _ => 0⟩ = some d ∧ d.result = .error error := by
  have hkey : plainCrypto.deriveKey "passphrase" zeros.salt = some () := rfl
  have hlen : twoBytes.rest.length ≤ 4294967296 * chunkSize := by decide
  have hout := (encryptFile_of_key plainCrypto hkey).trans (if_pos hlen)
  obtain ⟨-, hback, hrefused⟩ :=
    (decryptFile_encryptFile plainCrypto zeros "passphrase" twoBytes).2 _ () hout hkey
  rw [archiveChunks_twoBytes] at hout hback hrefused
  refine ⟨_, hout, ?_, hrefused ⟨_, fun _ => 0⟩ (fun x hx hopen => ?_) (Or.inr ?_)⟩
  · rw [hback _ rfl]
    rfl
  · -- The extended file has one piece, and its last bytes are not the mark.
    rw [pieces_of_le (by decide)] at hx
    rw [mem_singleton.1 hx] at hopen
    exact absurd (by decide) hopen
  · decide

end Abyssal.Reliquary
