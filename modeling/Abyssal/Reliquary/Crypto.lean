import Abyssal.Reading.Source
import Abyssal.Reading.Pieces

/-!
# The encryption of a backup archive

Each chunk of an archive is sealed on its own, under the key, a nonce prefix, the chunk's position
and whether it is the last one. The encryptor computes from the length of the archive which chunk is
the last. The decryptor reads one byte ahead to find out. A source may return short reads at will.
-/

namespace Abyssal.Reliquary

open Reading

def chunkSize : ℕ := 524288

def tagLen : ℕ := 16

def noncePrefixLen : ℕ := 7

def saltLen : ℕ := 16

/-- The position at which only a last chunk is sealed or opened. -/
def counterMax : ℕ := 4294967295

def algorithm : String := "aes-256-gcm-stream-be32"

/-- The cipher, the key derivation, and the encoding of the salt in the manifest. -/
structure Crypto (Key : Type) where
  deriveKey : String → List UInt8 → Option Key
  sealChunk (key : Key) (nonce : List UInt8) (position : ℕ) (last : Bool) :
    List UInt8 → List UInt8
  openChunk (key : Key) (nonce : List UInt8) (position : ℕ) (last : Bool) :
    List UInt8 → Option (List UInt8)
  openChunk_sealChunk : ∀ key nonce position last chunk,
    openChunk key nonce position last (sealChunk key nonce position last chunk) = some chunk
  length_sealChunk : ∀ key nonce position last chunk,
    (sealChunk key nonce position last chunk).length = chunk.length + tagLen
  encodeBase64 : List UInt8 → String
  decodeBase64 : String → Option (List UInt8)
  decodeBase64_encodeBase64 : ∀ bytes, decodeBase64 (encodeBase64 bytes) = some bytes

structure Randomness where
  salt : List UInt8
  noncePrefix : List UInt8
  length_salt : salt.length = saltLen
  length_noncePrefix : noncePrefix.length = noncePrefixLen

structure EncryptionMetadata where
  algorithm : String
  kdf : String
  kdfSaltBase64 : String
  kdfParams : String

inductive CryptoError where
  | keyDerivation
  | readingPlaintext
  | sealingChunk
  | unsupportedAlgorithm (algorithm : String)
  | malformedSalt
  | readingHeader
  /-- A wrong passphrase, or an archive that was tampered with; the two are not told apart. -/
  | decryption

variable {Key : Type} (crypto : Crypto Key)

/-! ### The encryptor -/

/-- The plaintext to come, the position of the next chunk, what is written, and the chunks that were
sealed. -/
structure Encryption where
  source : Source UInt8
  position : ℕ
  written : List UInt8
  chunks : List (Numbered UInt8)

/-- A chunk is read, sealed and written. A chunk that is not the last is refused at the highest
position. -/
def encryptChunk (key : Key) (nonce : List UInt8) (e : Encryption) (last : Bool) (size : ℕ) :
    Except CryptoError Encryption :=
  match e.source.readExact size with
  | none => .error .readingPlaintext
  | some (chunk, source) =>
    if !last && e.position = counterMax then .error .sealingChunk
    else .ok
      { source := source
        position := e.position + 1
        written := e.written ++ crypto.sealChunk key nonce e.position last chunk
        chunks := e.chunks ++ [⟨e.position, last, chunk⟩] }

def encryptChunks (key : Key) (nonce : List UInt8) :
    ℕ → Encryption → Except CryptoError Encryption
  | 0, e => .ok e
  | n + 1, e => do
    let e ← encryptChunk crypto key nonce e false chunkSize
    encryptChunks key nonce n e

/-- An encrypted file, its metadata, and the chunks that were sealed. -/
structure Encrypted where
  file : List UInt8
  metadata : EncryptionMetadata
  chunks : List (Numbered UInt8)

/-- If the length is an exact multiple of the chunk size, the last full chunk is the last; otherwise
the remainder is. -/
def encryptFile (random : Randomness) (passphrase : String) (plaintext : Source UInt8) :
    Except CryptoError Encrypted := do
  let key ← (crypto.deriveKey passphrase random.salt).elim (.error .keyDerivation) .ok
  let fullChunks := plaintext.rest.length / chunkSize
  let remainder := plaintext.rest.length % chunkSize
  let lastFullChunkIsFinal := remainder = 0 ∧ 0 < fullChunks
  let nonFinalFullChunks := if lastFullChunkIsFinal then fullChunks - 1 else fullChunks
  let finalLen := if lastFullChunkIsFinal then chunkSize else remainder
  let e ← encryptChunks crypto key random.noncePrefix nonFinalFullChunks
    { source := plaintext
      position := 0
      written := random.noncePrefix ++ random.salt
      chunks := [] }
  let e ← encryptChunk crypto key random.noncePrefix e true finalLen
  return {
    file := e.written
    metadata :=
      { algorithm := algorithm
        kdf := "argon2id"
        kdfSaltBase64 := crypto.encodeBase64 random.salt
        kdfParams := "m=19456,t=2,p=1" }
    chunks := e.chunks }

/-! ### The decryptor -/

/-- The outcome of a decryption: what is written, the chunks that were handed to the cipher, and
whether it failed. -/
structure Decrypted where
  written : List UInt8
  chunks : List (Numbered UInt8)
  result : Except CryptoError Unit

def sealedChunkLen : ℕ := chunkSize + tagLen

/-- A chunk is handed to the cipher. A chunk that is not the last is refused at the highest
position. -/
def decryptChunk (key : Key) (nonce : List UInt8) (d : Decrypted) (last : Bool)
    (chunk : List UInt8) : Decrypted :=
  let position := d.chunks.length
  let chunks := d.chunks ++ [⟨position, last, chunk⟩]
  if !last && position = counterMax then { d with chunks := chunks, result := .error .decryption }
  else
    match crypto.openChunk key nonce position last chunk with
    | none => { d with chunks := chunks, result := .error .decryption }
    | some plaintext => { d with written := d.written ++ plaintext, chunks := chunks }

/-- A byte read ahead tells whether a chunk is the last; if not, the next is read before this one is
opened. Each round takes a byte, so `fuel` is never used up. -/
def decryptLoop (key : Key) (nonce : List UInt8) :
    ℕ → Source UInt8 → List UInt8 → Decrypted → Option Decrypted
  | 0, _, _, _ => none
  | fuel + 1, source, chunk, d =>
    let (probe, source) := source.read 1
    if probe.isEmpty then some (decryptChunk crypto key nonce d true chunk)
    else
      let (rest, source) := source.readUpTo (sealedChunkLen - 1)
      let d := decryptChunk crypto key nonce d false chunk
      match d.result with
      | .error _ => some d
      | .ok _ => decryptLoop key nonce fuel source (probe ++ rest) d

def failed (error : CryptoError) : Decrypted := ⟨[], [], .error error⟩

/-- The decryptor. The salt is that of the manifest; the one in the file is skipped. -/
def decryptFile (passphrase : String) (metadata : EncryptionMetadata) (file : Source UInt8) :
    Option Decrypted :=
  if metadata.algorithm ≠ algorithm then some (failed (.unsupportedAlgorithm metadata.algorithm))
  else
    match crypto.decodeBase64 metadata.kdfSaltBase64 with
    | none => some (failed .malformedSalt)
    | some salt =>
      match crypto.deriveKey passphrase salt with
      | none => some (failed .keyDerivation)
      | some key =>
        match file.readExact noncePrefixLen with
        | none => some (failed .readingHeader)
        | some (nonce, source) =>
          match source.readExact saltLen with
          | none => some (failed .readingHeader)
          | some (_, source) =>
            let (chunk, source) := source.readUpTo sealedChunkLen
            decryptLoop crypto key nonce (source.rest.length + 1) source chunk ⟨[], [], .ok ()⟩

end Abyssal.Reliquary
