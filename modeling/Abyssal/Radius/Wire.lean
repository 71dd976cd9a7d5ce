import Abyssal.Tlv.Items
import Mathlib.Data.List.GetD

/-!
# The RADIUS wire codec

A packet is a header of twenty bytes and the attributes, each with a byte for its type and one for
its length. The server reads packets from datagrams that anyone may send, and builds its responses
with the two keyed hashes of the protocol, which are parameters.

## Main results

* `parse_exact`: what is parsed is what was sent.
-/

namespace Abyssal.Radius.Wire

open Tlv List Option

structure Digest where
  bytes : List UInt8
  length_bytes : bytes.length = 16

/-- The header: code, identifier, two bytes of length, sixteen of authenticator. -/
def headerLen : ℕ := 20

def attrMessageAuthenticator : UInt8 := 80

/-- A parsed packet, with the bytes that the keyed hashes are verified over. -/
structure Packet where
  code : UInt8
  id : UInt8
  authenticator : Digest
  attributes : List Item
  raw : List UInt8

def fromBeBytes (high low : UInt8) : ℕ := high.toNat * 256 + low.toNat

def toBeBytes (n : ℕ) : List UInt8 := [UInt8.ofNat (n / 256), UInt8.ofNat n]

def slice (start stop : ℕ) (bytes : List UInt8) : List UInt8 := (bytes.take stop).drop start

def lengthField (buf : List UInt8) : ℕ := fromBeBytes (buf.getD 2 0) (buf.getD 3 0)

/-- The attributes so far and the index reached, until one is malformed or no whole one can follow.
-/
def attributeLoop (buf : List UInt8) (length i : ℕ) (attributes : List Item) :
    Option (List Item × ℕ) :=
  if i + 2 ≤ length then
    let attrType := buf.getD i 0
    let attrLen := (buf.getD (i + 1) 0).toNat
    if attrLen < 2 ∨ length < i + attrLen then none
    else attributeLoop buf length (i + attrLen)
      (attributes ++ [(attrType, slice (i + 2) (i + attrLen) buf)])
  else some (attributes, i)
termination_by length - i
decreasing_by
  rename_i hbad
  rw [not_or, Nat.not_lt] at hbad
  omega

def parse (buf : List UInt8) : Option Packet :=
  if hheader : buf.length < headerLen then none
  else
    let length := lengthField buf
    if length < headerLen ∨ buf.length < length then none
    else
      match attributeLoop buf length headerLen [] with
      | none => none
      | some (attributes, i) =>
        -- a leftover byte that cannot form a whole attribute
        if i ≠ length then none
        else some {
          code := buf.getD 0 0
          id := buf.getD 1 0
          authenticator := ⟨slice 4 20 buf, by
            rw [slice, length_drop, length_take]
            have : headerLen = 20 := rfl
            omega⟩
          attributes := attributes
          raw := buf.take length }

/-- `push_attr`: a value that no attribute can hold is truncated. -/
def pushAttr (out : List UInt8) (attrType : UInt8) (value : List UInt8) : List UInt8 :=
  let v := if 253 < value.length then value.take 253 else value
  out ++ [attrType] ++ [UInt8.ofNat (v.length + 2)] ++ v

def pushAttrs (out : List UInt8) (attributes : List Item) : List UInt8 :=
  attributes.foldl (fun out item => pushAttr out item.1 item.2) out

/-- A header, whose length field holds the low sixteen bits of a length. -/
def header (code id : UInt8) (length : ℕ) (authenticator : Digest) : List UInt8 :=
  [code, id] ++ toBeBytes (length % 65536) ++ authenticator.bytes

def Packet.encode (p : Packet) : List UInt8 :=
  pushAttrs (header p.code p.id (headerLen + (pushAttrs [] p.attributes).length) p.authenticator)
    p.attributes

/-- `copy_from_slice` into the bytes from an offset on. -/
def splice (offset : ℕ) (bytes out : List UInt8) : List UInt8 :=
  out.take offset ++ bytes ++ out.drop (offset + bytes.length)

structure Hashes where
  md5 : List UInt8 → Digest
  hmacMd5 (secret : List UInt8) : List UInt8 → Digest

def zeros : List UInt8 := replicate 16 0

def Hashes.buildResponse (h : Hashes) (code id : UInt8) (requestAuthenticator : Digest)
    (attributes : List Item) (secret : List UInt8) (includeMsgAuth : Bool) : List UInt8 :=
  let out := [code] ++ [id] ++ [0, 0] ++ requestAuthenticator.bytes
  let out := pushAttrs out attributes
  let msgAuthOffset := if includeMsgAuth then some (out.length + 2) else none
  let out := if includeMsgAuth then pushAttr out attrMessageAuthenticator zeros else out
  let out := splice 2 (toBeBytes (out.length % 65536)) out
  let out := match msgAuthOffset with
    | some offset => splice offset (h.hmacMd5 secret out).bytes out
    | none => out
  splice 4 (h.md5 (out ++ secret)).bytes out

/-! ### Bytes -/

variable {start stop : ℕ}

theorem slice_of_le {length : ℕ} (hstop : stop ≤ length) (bytes : List UInt8) :
    slice start stop bytes = (slice start length bytes).take (stop - start) := by
  rw [slice, slice, drop_take, drop_take, take_take]
  congr 1
  omega

theorem drop_slice (start more stop : ℕ) (bytes : List UInt8) :
    (slice start stop bytes).drop more = slice (start + more) stop bytes := by
  rw [slice, drop_drop, slice]

variable {bytes : List UInt8}

theorem slice_eq_cons (hlt : start < stop) (hstop : stop ≤ bytes.length) :
    slice start stop bytes = bytes.getD start 0 :: slice (start + 1) stop bytes := by
  have hbound : start < (bytes.take stop).length := by
    rw [length_take]
    omega
  rw [slice, drop_eq_getElem_cons hbound, getElem_take, slice, getD_eq_getElem _ _ (by omega)]

theorem slice_eq_cons_cons (hlt : start + 2 ≤ stop) (hstop : stop ≤ bytes.length) :
    slice start stop bytes =
      bytes.getD start 0 :: bytes.getD (start + 1) 0 :: slice (start + 2) stop bytes := by
  rw [slice_eq_cons (by omega) hstop, slice_eq_cons hlt hstop]

theorem slice_self (bytes : List UInt8) : slice stop stop bytes = [] := by
  rw [slice, drop_eq_nil_iff, length_take]
  omega

@[simp] theorem length_slice (hstop : stop ≤ bytes.length) :
    (slice start stop bytes).length = stop - start := by
  rw [slice, length_drop, length_take, Nat.min_eq_left hstop]

@[simp] theorem length_toBeBytes (n : ℕ) : (toBeBytes n).length = 2 := rfl

open UInt8

theorem fromBeBytes_toBeBytes {n : ℕ} (h : n < 65536) :
    fromBeBytes (ofNat (n / 256)) (ofNat n) = n := by
  rw [fromBeBytes, toNat_ofNat', toNat_ofNat']
  omega

theorem splice_append {front old new back : List UInt8} (h : new.length = old.length) :
    splice front.length new (front ++ old ++ back) = front ++ new ++ back := by
  rw [splice, h, ← length_append, drop_left, append_assoc front old back, take_left]

theorem pushAttr_of_fits {item : Item} (h : item.Fits) (out : List UInt8) :
    pushAttr out item.1 item.2 = out ++ item.encode := by
  have hle : ¬ 253 < item.2.length := Nat.not_lt.2 h
  simp [pushAttr, if_neg hle, Item.encode, append_assoc]

variable {attributes : List Item}

theorem pushAttrs_eq (h : ∀ item ∈ attributes, item.Fits)
    (out : List UInt8) : pushAttrs out attributes = out ++ encode attributes := by
  induction attributes generalizing out with
  | nil => exact (append_nil out).symm
  | cons item _ ih =>
    rw [pushAttrs, foldl_cons, pushAttr_of_fits (h item mem_cons_self), ← pushAttrs,
      ih fun other hmem => h other (mem_cons_of_mem _ hmem), encode_cons,
      append_assoc]

/-! ### The parser -/

variable {buf : List UInt8}

theorem attributeLoop_eq {length i : ℕ} (hi : i ≤ length)
    (hlength : length ≤ buf.length) (attributes : List Item) :
    ((attributeLoop buf length i attributes).bind fun read =>
        if read.2 ≠ length then none else some read.1) =
      (decode (slice i length buf)).map (attributes ++ ·) := by
  fun_induction attributeLoop buf length i attributes with
  | case1 _ _ hmore =>
    rw [slice_eq_cons_cons hmore hlength, decode_cons_cons, length_slice hlength, if_pos (by omega)]
    rfl
  | case2 i attributes hmore attrType attrLen hgood ih =>
    rw [not_or, Nat.not_lt, Nat.not_lt] at hgood
    have hindex : i + 2 + (attrLen - 2) = i + attrLen := by omega
    have hcount : i + attrLen - (i + 2) = attrLen - 2 := by omega
    have hfront := slice_eq_cons_cons hmore hlength
    have hdecode : decode (slice i length buf) = (decode (slice (i + attrLen) length buf)).map
          ((attrType, slice (i + 2) (i + attrLen) buf) :: ·) := by
      rw [hfront, decode_cons_cons, length_slice hlength, if_neg (by omega), drop_slice, hindex,
        slice_of_le hgood.2, hcount]
    rw [ih hgood.2, hdecode, Option.map_map]
    congr 1
    funext items
    exact append_assoc attributes _ items
  | case3 i =>
    obtain rfl | hlt := Nat.eq_or_lt_of_le hi
    · rw [slice_self]
      simp
    · have hlast : i + 1 = length := by omega
      rw [slice_eq_cons hlt hlength, hlast, slice_self, decode_singleton, bind_some,
        if_pos (Nat.ne_of_lt hlt)]
      rfl

structure Holds (buf : List UInt8) (p : Packet) : Prop where
  least : headerLen ≤ lengthField buf
  most : lengthField buf ≤ buf.length
  code : p.code = buf.getD 0 0
  id : p.id = buf.getD 1 0
  authenticator : p.authenticator.bytes = slice 4 20 buf
  attributes : decode (slice headerLen (lengthField buf) buf) = some p.attributes
  raw : p.raw = buf.take (lengthField buf)

theorem parse_eq_some_iff {p : Packet} : parse buf = some p ↔ Holds buf p := by
  simp only [parse]
  split_ifs with hheader hbad
  · refine iff_of_false (fun h => nomatch h) fun h => ?_
    exact absurd (Nat.le_trans h.least h.most) (Nat.not_le.2 hheader)
  · refine iff_of_false (fun h => nomatch h) fun h => ?_
    exact hbad.elim (Nat.not_lt.2 h.least) (Nat.not_lt.2 h.most)
  · rw [not_or, Nat.not_lt, Nat.not_lt] at hbad
    have hloop := attributeLoop_eq hbad.1 hbad.2 []
    simp only [nil_append, Option.map_id'] at hloop
    constructor
    · intro h
      split at h
      · cases h
      · rename_i attributes i hread
        rw [hread, bind_some] at hloop
        split_ifs at h with hi
        rw [if_neg hi] at hloop
        cases h
        exact ⟨hbad.1, hbad.2, rfl, rfl, rfl, hloop.symm, rfl⟩
    · intro h
      rw [h.attributes] at hloop
      obtain ⟨⟨_, _⟩, hread, hsome⟩ := bind_eq_some_iff.1 hloop
      split_ifs at hsome with hi
      obtain ⟨code, id, ⟨_, hbytes⟩, _, raw⟩ := p
      cases hsome
      obtain rfl := h.code
      obtain rfl := h.id
      obtain rfl := h.authenticator
      obtain rfl := h.raw
      rw [hread]
      exact if_neg hi

/-! ### What is accepted -/

/-- The length field lies between the header and the end, and the attributes tile what it declares.
-/
structure WellFormed (buf : List UInt8) : Prop where
  least : headerLen ≤ lengthField buf
  most : lengthField buf ≤ buf.length
  tiles : Tiles (slice headerLen (lengthField buf) buf)

theorem isSome_parse_iff (buf : List UInt8) : (parse buf).isSome ↔ WellFormed buf := by
  rw [isSome_iff_exists]
  constructor
  · rintro ⟨_, hp⟩
    have h := parse_eq_some_iff.1 hp
    exact ⟨h.least, h.most, (isSome_decode_iff _).1 (isSome_of_eq_some h.attributes)⟩
  · intro h
    obtain ⟨attributes, hattributes⟩ := isSome_iff_exists.1 ((isSome_decode_iff _).2 h.tiles)
    have hheader : headerLen ≤ buf.length := Nat.le_trans h.least h.most
    exact ⟨⟨_, _, ⟨slice 4 20 buf, length_slice hheader⟩, attributes, _⟩,
      parse_eq_some_iff.2 ⟨h.least, h.most, rfl, rfl, rfl, hattributes, rfl⟩⟩

theorem lengthField_lt (buf : List UInt8) : lengthField buf < 65536 := by
  have hhigh := (buf.getD 2 0).toNat_lt
  have hlow := (buf.getD 3 0).toNat_lt
  rw [lengthField, fromBeBytes]
  omega

theorem toBeBytes_fromBeBytes (high low : UInt8) :
    toBeBytes (fromBeBytes high low) = [high, low] := by
  have hlow := low.toNat_lt
  have hdiv : (high.toNat * 256 + low.toNat) / 256 = high.toNat := by omega
  have hmod : ofNat (high.toNat * 256 + low.toNat) = low := by
    apply UInt8.toNat_inj.1
    rw [toNat_ofNat']
    omega
  rw [toBeBytes, fromBeBytes, hdiv, hmod, UInt8.ofNat_toNat]

private theorem slice_header (h : headerLen ≤ buf.length) :
    slice 0 headerLen buf = [buf.getD 0 0, buf.getD 1 0] ++ [buf.getD 2 0, buf.getD 3 0] ++
      slice 4 20 buf := by
  rw [slice_eq_cons_cons (by decide) h, slice_eq_cons_cons (by decide) h]
  rfl

private theorem slice_append_slice {middle : ℕ} (h : middle ≤ stop) (bytes : List UInt8) :
    slice 0 middle bytes ++ slice middle stop bytes = bytes.take stop := by
  have htake : bytes.take middle = (bytes.take stop).take middle := by
    rw [take_take, Nat.min_eq_left h]
  rw [slice, slice, drop_zero, htake, take_append_drop]

theorem Holds.encode_eq {p : Packet} (h : Holds buf p) : p.encode = buf.take (lengthField buf) := by
  obtain ⟨hbytes, hfits⟩ := of_decode_eq_some h.attributes
  have hlength : headerLen + (encode p.attributes).length = lengthField buf := by
    rw [← hbytes, length_slice h.most]
    exact Nat.add_sub_of_le h.least
  have hheader : header p.code p.id (lengthField buf) p.authenticator = slice 0 headerLen buf := by
    rw [header, Nat.mod_eq_of_lt (lengthField_lt buf), lengthField, toBeBytes_fromBeBytes, h.code,
      h.id, h.authenticator, slice_header (Nat.le_trans h.least h.most)]
  rw [Packet.encode, pushAttrs_eq hfits, pushAttrs_eq hfits, nil_append, hlength, hheader,
    ← hbytes, slice_append_slice h.least]

/-! ### Responses -/

theorem length_header (code id : UInt8) (length : ℕ) (authenticator : Digest) :
    (header code id length authenticator).length = headerLen := by
  simp [header, authenticator.length_bytes, headerLen]

theorem parse_header_append (hfits : ∀ item ∈ attributes, item.Fits)
    {length : ℕ} (hlength : length = headerLen + (encode attributes).length)
    (hlt : length < 65536) (code id : UInt8) (authenticator : Digest) :
    parse (header code id length authenticator ++ encode attributes) =
      some ⟨code, id, authenticator, attributes,
        header code id length authenticator ++ encode attributes⟩ := by
  have hheader : (header code id length authenticator).length = 20 := length_header _ _ _ _
  have htotal : (header code id length authenticator ++ encode attributes).length = length := by
    rw [length_append, length_header, hlength]
  have hfield : lengthField (header code id length authenticator ++ encode attributes) =
      length := by
    rw [header, Nat.mod_eq_of_lt hlt]
    exact fromBeBytes_toBeBytes hlt
  have htake := take_of_length_le (Nat.le_of_eq htotal)
  refine parse_eq_some_iff.2 ⟨?_, ?_, rfl, rfl, ?_, ?_, ?_⟩
  · rw [hfield, hlength]
    exact Nat.le_add_right _ _
  · rw [hfield]
    exact Nat.le_of_eq htotal.symm
  · rw [slice, take_left' hheader]
    rfl
  · rw [hfield, slice, htake, drop_left' (length_header _ _ _ _), decode_encode hfits]
  · rw [hfield, htake]

/-- The keyed hash of the packet in which sixteen zeros hold its place. -/
def Hashes.messageAuthenticator (h : Hashes) (code id : UInt8) (requestAuthenticator : Digest)
    (attributes : List Item) (secret : List UInt8) (includeMsgAuth : Bool) : List Item :=
  let unsigned := attributes ++ [(attrMessageAuthenticator, zeros)]
  if includeMsgAuth then
    [(attrMessageAuthenticator, (h.hmacMd5 secret
      (header code id (headerLen + (encode unsigned).length) requestAuthenticator ++
        encode unsigned)).bytes)]
  else []

theorem splice_length (code id : UInt8) (length : ℕ) (authenticator : Digest) (rest : List UInt8) :
    splice 2 (toBeBytes (length % 65536))
        ([code] ++ [id] ++ [0, 0] ++ authenticator.bytes ++ rest) =
      header code id length authenticator ++ rest := rfl

theorem splice_authenticator (code id : UInt8) (length : ℕ) (old new : Digest) (rest : List UInt8) :
    splice 4 new.bytes (header code id length old ++ rest) = header code id length new ++ rest := by
  have hlength : new.bytes.length = old.bytes.length := by
    rw [new.length_bytes, old.length_bytes]
  exact @splice_append ([code, id] ++ toBeBytes (length % 65536)) _ _ _ hlength

theorem splice_messageAuthenticator {front : List UInt8}
    (hfront : front.length = start) (attributes : List Item) (old new : Digest) :
    splice (start + (encode attributes).length + 2) new.bytes
        (front ++ encode (attributes ++ [(attrMessageAuthenticator, old.bytes)])) =
      front ++ encode (attributes ++ [(attrMessageAuthenticator, new.bytes)]) := by
  have hlength : new.bytes.length = old.bytes.length := by
    rw [new.length_bytes, old.length_bytes]
  have hsplice := @splice_append
    (front ++ encode attributes ++ [attrMessageAuthenticator, ofNat 18]) old.bytes
    new.bytes [] hlength
  have hencode : ∀ value : List UInt8, value.length = 16 →
      front ++ encode (attributes ++ [(attrMessageAuthenticator, value)]) =
        front ++ encode attributes ++ [attrMessageAuthenticator, ofNat 18] ++ value ++ [] := by
    intro value hvalue
    rw [encode_append, encode_cons, encode_nil, Item.encode, hvalue]
    simp [append_assoc]
  rw [hencode old.bytes old.length_bytes, hencode new.bytes new.length_bytes, ← hsplice,
    length_append, length_append, hfront]
  rfl

theorem fits_messageAuthenticator {value : List UInt8} (h : value.length = 16) :
    Item.Fits (attrMessageAuthenticator, value) := by
  change value.length ≤ 253
  omega

theorem Hashes.buildResponse_eq (h : Hashes) (code id : UInt8) (requestAuthenticator : Digest)
    (hfits : ∀ item ∈ attributes, item.Fits) (secret : List UInt8) (includeMsgAuth : Bool) :
    ∃ authenticator : Digest,
      h.buildResponse code id requestAuthenticator attributes secret includeMsgAuth = header code id
            (headerLen + (encode (attributes ++ h.messageAuthenticator code id
              requestAuthenticator attributes secret includeMsgAuth)).length) authenticator ++
          encode (attributes ++ h.messageAuthenticator code id requestAuthenticator attributes
            secret includeMsgAuth) := by
  have hheader : ([code] ++ [id] ++ [0, 0] ++ requestAuthenticator.bytes).length = headerLen := by
    simp [requestAuthenticator.length_bytes, headerLen]
  cases includeMsgAuth with
  | false =>
    simp only [Hashes.buildResponse, Hashes.messageAuthenticator, Bool.false_eq_true, if_false,
      append_nil, pushAttrs_eq hfits]
    rw [length_append, hheader, splice_length, splice_authenticator]
    exact ⟨_, rfl⟩
  | true =>
    simp only [Hashes.buildResponse, Hashes.messageAuthenticator, if_true, pushAttrs_eq hfits]
    have hpush : pushAttr ([code] ++ [id] ++ [0, 0] ++ requestAuthenticator.bytes ++
          encode attributes) attrMessageAuthenticator zeros =
        [code] ++ [id] ++ [0, 0] ++ requestAuthenticator.bytes ++
          encode (attributes ++ [(attrMessageAuthenticator, zeros)]) := by
      rw [pushAttr_of_fits (fits_messageAuthenticator rfl), encode_append, encode_cons,
        encode_nil, append_nil, append_assoc]
    have hsame : ∀ tag : Digest,
        (encode (attributes ++ [(attrMessageAuthenticator, tag.bytes)])).length =
          (encode (attributes ++ [(attrMessageAuthenticator, zeros)])).length := by
      intro tag
      simp [encode_append, tag.length_bytes, zeros]
    rw [hpush, hsame, length_append, hheader, splice_length, length_append, hheader,
      splice_messageAuthenticator (length_header _ _ _ _) attributes ⟨zeros, rfl⟩,
      splice_authenticator]
    exact ⟨_, rfl⟩

/-- The parser accepts exactly the well formed datagrams and loses nothing of them, and it reads
back from a response what the response was built from. -/
theorem parse_exact (h : Hashes) :
    (∀ buf, (parse buf).isSome ↔ WellFormed buf) ∧
    (∀ buf p, parse buf = some p → p.encode = buf.take (lengthField buf)) ∧
    ∀ (code id : UInt8) (requestAuthenticator : Digest) (attributes : List Item)
      (secret : List UInt8) (includeMsgAuth : Bool),
      (∀ item ∈ attributes, item.2.length ≤ 253) →
      headerLen + (encode attributes).length + (if includeMsgAuth then 18 else 0) ≤ 65535 →
      ∃ p, parse (h.buildResponse code id requestAuthenticator attributes secret includeMsgAuth) =
          some p ∧ p.code = code ∧ p.id = id ∧
        p.attributes = attributes ++ h.messageAuthenticator code id requestAuthenticator attributes
          secret includeMsgAuth := by
  refine ⟨isSome_parse_iff, fun buf p hp => (parse_eq_some_iff.1 hp).encode_eq, ?_⟩
  intro code id requestAuthenticator attributes secret includeMsgAuth hvalues hlength
  obtain ⟨_, hresponse⟩ :=
    h.buildResponse_eq code id requestAuthenticator hvalues secret includeMsgAuth
  have hfits : ∀ item ∈ attributes ++ h.messageAuthenticator code id requestAuthenticator
      attributes secret includeMsgAuth, item.Fits := by
    intro item hmem
    rcases mem_append.1 hmem with hmem | hmem
    · exact hvalues item hmem
    · cases includeMsgAuth with
      | false => cases hmem
      | true =>
        obtain rfl := mem_singleton.1 hmem
        exact fits_messageAuthenticator (Digest.length_bytes _)
  have htotal : headerLen + (encode (attributes ++ h.messageAuthenticator code id
      requestAuthenticator attributes secret includeMsgAuth)).length < 65536 := by
    cases includeMsgAuth with
    | false =>
      simp only [Hashes.messageAuthenticator, Bool.false_eq_true, if_false, append_nil]
      simp only [Bool.false_eq_true, if_false] at hlength
      omega
    | true =>
      simp only [Hashes.messageAuthenticator, if_true, encode_append, encode_cons, encode_nil,
        append_nil, length_append, Item.length_encode, Digest.length_bytes]
      simp only [if_true] at hlength
      omega
  rw [hresponse, parse_header_append hfits rfl htotal]
  exact ⟨_, rfl, rfl, rfl, rfl⟩

def zeroHashes : Hashes where
  md5 _ := ⟨zeros, rfl⟩
  hmacMd5 _ _ := ⟨zeros, rfl⟩

theorem parse_exact_accept :
    ∃ p, parse (zeroHashes.buildResponse 2 7 ⟨zeros, rfl⟩ [(81, [1, 52, 50])] [] true) = some p ∧
      p.code = 2 ∧ p.id = 7 ∧ p.attributes = [(81, [1, 52, 50]), (80, zeros)] :=
  (parse_exact zeroHashes).2.2 2 7 ⟨zeros, rfl⟩ [(81, [1, 52, 50])] [] true (by decide)
    (by decide)

end Abyssal.Radius.Wire
