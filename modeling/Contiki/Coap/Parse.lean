/-
The decoder of coap.c, which works in place: strings of a parsed message point into the packet, and
the parts of a path or query are moved together there. An option that is read leaves the packet
before it and behind it as it was.
-/
import Contiki.Coap.Message
import Contiki.Lib.Mem

namespace Contiki.Coap

section

open Contiki.Lib

/-! ## The decoder -/

structure Span where
  start : Nat
  len : Nat

/-- `coap_status_t` as far as `coap_parse_message` returns it. -/
inductive ParseStatus
  | badRequest
  | badOption
  | proxyingNotSupported
  deriving DecidableEq, Repr

/-- The status, and what `coap_error_message` is set to. -/
structure ParseError where
  status : ParseStatus
  message : Option String
  deriving DecidableEq

def coapParseIntOption (bytes : List UInt8) : UInt32 :=
  bytes.foldl (fun var b => (var <<< 8) ||| b.toUInt32) 0

def coapMergeMultiOption (dst : Span) (mem : Mem) (option : Nat) (optionLen : Nat) (separator : UInt8) : Span × Mem :=
  if dst.len > 0 then
    (⟨dst.start, dst.len + 1 + optionLen⟩,
      Mem.copy (dst.start + dst.len + 1) option optionLen (mem.put (dst.start + dst.len) separator))
  else (⟨option, optionLen⟩, mem)

def Block.unpack (num : UInt32) : Block where
  more := ((num &&& 0x08) >>> 3).toUInt8
  size := (16 <<< (num &&& 0x07)).toUInt16
  offset := (num &&& ~~~0x0000000F) <<< (num &&& 0x07)
  num := num >>> 4

structure Cursor where
  msg : Message Span
  mem : Mem
  pos : Nat
  optionNumber : Nat

def readExtension (mem : Mem) (dataLen : Nat) (value pos : Nat) : Except ParseError (Nat × Nat) :=
  if value = 13 then
    if pos + 1 > dataLen then .error ⟨.badRequest, none⟩
    else .ok (value + (mem pos).toNat, pos + 1)
  else if value = 14 then
    if pos + 2 > dataLen then .error ⟨.badRequest, none⟩
    else .ok (value + 255 + ((mem pos).toNat <<< 8) + (mem (pos + 1)).toNat, pos + 2)
  else .ok (value, pos)

/-- The `switch` over the options: `option` is where the value of `len` bytes stands. -/
@[grind =]
def storeOption (msg : Message Span) (mem : Mem) (number option len : Nat) :
    Except ParseError (Message Span × Mem) :=
  let bytes := Mem.read option len mem
  match CoapOption.ofNumber? number with
  | some .contentFormat => .ok ({ msg with contentFormat := (coapParseIntOption bytes).toUInt16 }, mem)
  | some .maxAge => .ok ({ msg with maxAge := coapParseIntOption bytes }, mem)
  | some .etag => .ok ({ msg with etag := bytes.take coapEtagLen }, mem)
  | some .accept => .ok ({ msg with accept := (coapParseIntOption bytes).toUInt16 }, mem)
  | some .ifMatch => .ok ({ msg with ifMatch := bytes.take coapEtagLen }, mem)
  | some .ifNoneMatch => .ok ({ msg with ifNoneMatch := 1 }, mem)
  | some .proxyUri => .error ⟨.proxyingNotSupported, some "This is a constrained server (Contiki-NG)"⟩
  | some .proxyScheme => .error ⟨.proxyingNotSupported, some "This is a constrained server (Contiki-NG)"⟩
  | some .uriHost => .ok ({ msg with uriHost := ⟨option, len⟩ }, mem)
  | some .uriPort => .ok ({ msg with uriPort := (coapParseIntOption bytes).toUInt16 }, mem)
  | some .uriPath =>
    let r := coapMergeMultiOption msg.uriPath mem option len slash
    .ok ({ msg with uriPath := r.1 }, r.2)
  | some .uriQuery =>
    let r := coapMergeMultiOption msg.uriQuery mem option len ampersand
    .ok ({ msg with uriQuery := r.1 }, r.2)
  | some .locationPath =>
    let r := coapMergeMultiOption msg.locationPath mem option len slash
    .ok ({ msg with locationPath := r.1 }, r.2)
  | some .locationQuery =>
    let r := coapMergeMultiOption msg.locationQuery mem option len ampersand
    .ok ({ msg with locationQuery := r.1 }, r.2)
  | some .observe => .ok ({ msg with observe := (coapParseIntOption bytes).toInt32 }, mem)
  | some .block2 => .ok ({ msg with block2 := Block.unpack (coapParseIntOption bytes) }, mem)
  | some .block1 => .ok ({ msg with block1 := Block.unpack (coapParseIntOption bytes) }, mem)
  | some .size2 => .ok ({ msg with size2 := coapParseIntOption bytes }, mem)
  | some .size1 => .ok ({ msg with size1 := coapParseIntOption bytes }, mem)
  | none =>
    -- critical options are odd
    if number &&& 1 ≠ 0 then .error ⟨.badOption, some "Unsupported critical option"⟩ else .ok (msg, mem)

@[grind =]
def parseOption (dataLen : Nat) (c : Cursor) : Except ParseError Cursor :=
  let b := c.mem c.pos
  match readExtension c.mem dataLen (b >>> 4).toNat (c.pos + 1) with
  | .error e => .error e
  | .ok (optionDelta, pos) =>
    match readExtension c.mem dataLen (b &&& 0x0F).toNat pos with
    | .error e => .error e
    | .ok (optionLength, pos) =>
      if pos + optionLength > dataLen then .error ⟨.badRequest, none⟩
      else
        let number := c.optionNumber + optionDelta
        if number > CoapOption.size1.number then .error ⟨.badRequest, none⟩
        else
          match storeOption (coapSetOption c.msg number) c.mem number pos optionLength with
          | .error e => .error e
          | .ok (msg, mem) => .ok ⟨msg, mem, pos + optionLength, number⟩

theorem readExtension_le {mem : Mem} {dataLen value pos v p : Nat}
    (h : readExtension mem dataLen value pos = .ok (v, p)) : pos ≤ p := by
  unfold readExtension at h
  split_ifs at h <;> cases h <;> omega

theorem parseOption_lt {dataLen : Nat} {c c' : Cursor} (h : parseOption dataLen c = .ok c') : c.pos < c'.pos := by
  unfold parseOption at h
  simp only at h
  split at h
  case h_1 => cases h
  case h_2 v p hd =>
    have h1 := readExtension_le hd
    split at h
    case h_1 => cases h
    case h_2 l q hl =>
      have h2 := readExtension_le hl
      split_ifs at h
      split at h
      case h_1 => cases h
      case h_2 =>
        cases h
        show c.pos < q + l
        omega

@[grind =]
def parseOptions (z : Sizes) (dataLen : Nat) (c : Cursor) : Except ParseError (Message Span × Mem) :=
  if c.pos < dataLen then
    -- only the upper half is compared with that of the payload marker
    if c.mem c.pos &&& 0xF0 = 0xF0 then
      let payload := c.pos + 1
      let payloadLen := min (dataLen - payload) z.maxChunkSize
      .ok ({ c.msg with payload := ⟨payload, payloadLen⟩ }, c.mem.put (payload + payloadLen) 0)
    else
      match _h : parseOption dataLen c with
      | .error e => .error e
      | .ok c' => parseOptions z dataLen c'
  else .ok (c.msg, c.mem)
termination_by dataLen - c.pos
decreasing_by
  have := parseOption_lt _h
  omega

def coapParseMessage (z : Sizes) (data : Mem) (dataLen : Nat) : Except ParseError (Message Span × Mem) :=
  if dataLen < 4 then .error ⟨.badRequest, none⟩
  else
    let version := (0xC0 &&& data 0) >>> 6
    let tokenLen := (0x0F &&& data 0).toNat
    if version ≠ 1 then .error ⟨.badRequest, some "CoAP version must be 1"⟩
    else if tokenLen > coapTokenLen then .error ⟨.badRequest, some "Token Length must not be more than 8"⟩
    else if 4 + tokenLen > dataLen then .error ⟨.badRequest, none⟩
    else
      let msg := { Message.zero (⟨0, 0⟩ : Span) with
        version := version
        type := .ofBits ((0x30 &&& data 0) >>> 4).toNat
        code := data 1
        mid := ((data 2).toUInt16 <<< 8) ||| (data 3).toUInt16
        token := Mem.read 4 tokenLen data }
      parseOptions z dataLen ⟨msg, data, 4 + tokenLen, 0⟩

def Message.contents (m : Message Span) (mem : Mem) : Message (List UInt8) :=
  m.map fun s => Mem.read s.start s.len mem

theorem parseOptions_step {z : Sizes} {dataLen : Nat} {c c' : Cursor} (hpos : c.pos < dataLen)
    (hm : c.mem c.pos &&& 0xF0 ≠ 0xF0) (h : parseOption dataLen c = .ok c') :
    parseOptions z dataLen c = parseOptions z dataLen c' := by
  rw [parseOptions, if_pos hpos, if_neg hm]
  split
  case h_1 e he =>
    rw [h] at he
    cases he
  case h_2 c'' he =>
    rw [h] at he
    cases he
    rfl

/-! ## Option headers -/

theorem readExtension_written {mem : Mem} {dataLen value pos : Nat} (hv : value < 65536 + 269)
    (hle : pos + (optionExtension value).length ≤ dataLen) (hmem : Mem.Holds pos (optionExtension value) mem) :
    readExtension mem dataLen (coapOptionNibble value).toNat pos =
      .ok (value, pos + (optionExtension value).length) := by
  unfold optionExtension at hle hmem ⊢
  unfold coapOptionNibble readExtension
  by_cases h13 : value < 13
  · have h1 : ¬ value > 268 := by omega
    have h2 : ¬ value > 12 := by omega
    simp only [h13, h1, h2, if_true, if_false, List.length_nil, Nat.add_zero]
    have hn : (UInt8.ofNat value).toNat = value := by simp; omega
    rw [hn, if_neg (by omega), if_neg (by omega)]
  · by_cases h268 : value > 268
    · have h3 : ¬ value ≤ 0xFF + 13 := by omega
      simp only [h268, if_true, Mem.holds_cons] at hmem hle ⊢
      simp only [h13, h3, if_false]
      rw [if_neg (by decide), if_pos (by decide), if_neg (by simp at hle ⊢; omega), hmem.1, hmem.2.1]
      simp [Nat.shiftRight_eq_div_pow, Nat.shiftLeft_eq]
      omega
    · have h3 : value ≤ 0xFF + 13 := by omega
      have h4 : value > 12 := by omega
      simp only [h268, h4, if_true, if_false, Mem.holds_cons] at hmem hle ⊢
      simp only [h13, h3, if_false, if_true]
      rw [if_pos (by decide), if_neg (by simp at hle ⊢; omega), hmem.1]
      simp
      omega

theorem nibble_le (value : Nat) : coapOptionNibble value ≤ 14 := by
  unfold coapOptionNibble
  split_ifs
  · rw [UInt8.le_iff_toNat_le]
    simp
    omega
  · decide
  · decide

theorem nibbles_high {a b : UInt8} (ha : a ≤ 14) (hb : b ≤ 14) : ((a <<< 4) ||| b) >>> 4 = a := by
  have : ∀ i j : Fin 15, ((UInt8.ofNat i <<< 4) ||| UInt8.ofNat j) >>> 4 = UInt8.ofNat i := by decide
  have := this ⟨a.toNat, by rw [UInt8.le_iff_toNat_le] at ha; simpa using Nat.lt_succ_of_le ha⟩
    ⟨b.toNat, by rw [UInt8.le_iff_toNat_le] at hb; simpa using Nat.lt_succ_of_le hb⟩
  simpa using this

theorem nibbles_low {a b : UInt8} (ha : a ≤ 14) (hb : b ≤ 14) : ((a <<< 4) ||| b) &&& 0x0F = b := by
  have : ∀ i j : Fin 15, ((UInt8.ofNat i <<< 4) ||| UInt8.ofNat j) &&& 0x0F = UInt8.ofNat j := by decide
  have := this ⟨a.toNat, by rw [UInt8.le_iff_toNat_le] at ha; simpa using Nat.lt_succ_of_le ha⟩
    ⟨b.toNat, by rw [UInt8.le_iff_toNat_le] at hb; simpa using Nat.lt_succ_of_le hb⟩
  simpa using this

theorem nibbles_no_marker {a b : UInt8} (ha : a ≤ 14) (hb : b ≤ 14) : ((a <<< 4) ||| b) &&& 0xF0 ≠ 0xF0 := by
  have : ∀ i j : Fin 15, ((UInt8.ofNat i <<< 4) ||| UInt8.ofNat j) &&& 0xF0 ≠ 0xF0 := by decide
  have := this ⟨a.toNat, by rw [UInt8.le_iff_toNat_le] at ha; simpa using Nat.lt_succ_of_le ha⟩
    ⟨b.toNat, by rw [UInt8.le_iff_toNat_le] at hb; simpa using Nat.lt_succ_of_le hb⟩
  simpa using this

theorem parseOptions_tlv {z : Sizes} {dataLen delta : Nat} {value : List UInt8} {c : Cursor}
    {msg : Message Span} {mem : Mem} (hd : delta < 65536 + 269) (hv : value.length < 65536 + 269)
    (hnum : c.optionNumber + delta ≤ CoapOption.size1.number)
    (hle : c.pos + (tlv delta value).length ≤ dataLen) (hmem : Mem.Holds c.pos (tlv delta value) c.mem)
    (hstore : storeOption (coapSetOption c.msg (c.optionNumber + delta)) c.mem (c.optionNumber + delta)
      (c.pos + (coapSetOptionHeader delta value.length).length) value.length = .ok (msg, mem)) :
    parseOptions z dataLen c =
      parseOptions z dataLen ⟨msg, mem, c.pos + (tlv delta value).length, c.optionNumber + delta⟩ := by
  have hnd := nibble_le delta
  have hnv := nibble_le value.length
  simp only [tlv, coapSetOptionHeader, List.cons_append, Mem.holds_cons, Mem.holds_append, List.length_cons,
    List.length_append] at hmem hle hstore ⊢
  obtain ⟨hb, ⟨hde, hle'⟩, hval⟩ := hmem
  have hdelta := @readExtension_written _ dataLen _ _ hd (by omega) hde
  have hlen := @readExtension_written _ dataLen _ _ hv (by omega) hle'
  apply parseOptions_step (by omega)
  · rw [hb]
    exact nibbles_no_marker hnd hnv
  · unfold parseOption
    dsimp only
    rw [hb, nibbles_high hnd hnv, nibbles_low hnd hnv, hdelta]
    simp only [hlen]
    rw [if_neg (by omega), if_neg (by omega)]
    rw [show c.pos + 1 + (optionExtension delta).length + (optionExtension value.length).length =
      c.pos + ((optionExtension delta).length + (optionExtension value.length).length + 1) by omega, hstore]
    simp only [Except.ok.injEq, Cursor.mk.injEq, true_and, and_true]
    omega

end

/-!
Option values on the wire: integers come back from their bytes without leading zeros, and a block
option comes back with its size rounded down to a power of two and its more flag as one bit.
-/

section

open Contiki.Lib

/-! ## Integers -/

theorem highMask_eq_zero {k v : Nat} (hk : k ≤ 32) (hv : v < 2 ^ 32) :
    ((2 ^ (32 - k) - 1) <<< k) &&& v = 0 ↔ v < 2 ^ k := by
  have hmask : ∀ i, ((2 ^ (32 - k) - 1) <<< k).testBit i = decide (k ≤ i ∧ i < 32) := by
    intro i
    rw [Nat.testBit_shiftLeft, Nat.testBit_two_pow_sub_one]
    by_cases hki : k ≤ i
    · simp only [ge_iff_le, hki, decide_true, Bool.true_and, true_and]
      congr 1
      apply propext
      omega
    · simp [hki]
  constructor
  · intro h
    refine Nat.lt_pow_two_of_testBit v fun i hi => ?_
    have hbit : (((2 ^ (32 - k) - 1) <<< k) &&& v).testBit i = false := by rw [h, Nat.zero_testBit]
    rw [Nat.testBit_and, hmask] at hbit
    by_cases h32 : i < 32
    · simpa [hi, h32] using hbit
    · exact Nat.testBit_lt_two_pow (hv.trans_le (Nat.pow_le_pow_right (by omega) (by omega)))
  · intro h
    refine Nat.eq_of_testBit_eq fun i => ?_
    rw [Nat.testBit_and, hmask, Nat.zero_testBit]
    by_cases hki : k ≤ i
    · rw [Nat.testBit_lt_two_pow (h.trans_le (Nat.pow_le_pow_right (by omega) hki)), Bool.and_false]
    · simp [hki]

theorem mask_ne_zero {k : Nat} (hk : k ≤ 32) (mask v : UInt32) (hm : mask.toNat = (2 ^ (32 - k) - 1) <<< k) :
    mask &&& v ≠ 0 ↔ 2 ^ k ≤ v.toNat := by
  have h := highMask_eq_zero hk v.toNat_lt
  rw [← hm] at h
  rw [← Nat.not_lt, ← h, ne_eq, ← UInt32.toNat_inj]
  simp

theorem parseInt_step (var : UInt32) (b : UInt8) :
    ((var <<< 8) ||| b.toUInt32).toNat = var.toNat % 2 ^ 24 * 256 + b.toNat := by
  have hb : b.toNat < 2 ^ 8 := b.toNat_lt
  have hs : (var <<< 8).toNat = (var.toNat % 2 ^ 24) <<< 8 := by
    rw [UInt32.toNat_shiftLeft, show ((8 : UInt32).toNat % 32) = 8 from rfl, Nat.shiftLeft_eq, Nat.shiftLeft_eq]
    omega
  rw [UInt32.toNat_or, hs, UInt8.toNat_toUInt32, ← Nat.shiftLeft_add_eq_or_of_lt hb, Nat.shiftLeft_eq]

@[simp] theorem parseInt_intBytes (v : UInt32) : coapParseIntOption (intBytes v) = v := by
  have h24 := mask_ne_zero (k := 24) (by omega) 0xFF000000 v (by decide)
  have h16 := mask_ne_zero (k := 16) (by omega) 0xFFFF0000 v (by decide)
  have h8 := mask_ne_zero (k := 8) (by omega) 0xFFFFFF00 v (by decide)
  have h0 := mask_ne_zero (k := 0) (by omega) 0xFFFFFFFF v (by decide)
  have hv := v.toNat_lt
  apply UInt32.toNat_inj.1
  unfold coapParseIntOption intBytes
  simp only [h24, h16, h8, h0]
  -- as many bytes as the value has
  split_ifs <;>
    simp only [List.nil_append, List.cons_append, List.foldl_cons, List.foldl_nil, parseInt_step,
      UInt32.toNat_toUInt8, UInt32.toNat_shiftRight, UInt32.reduceToNat, Nat.shiftRight_eq_div_pow,
      Nat.reduceMod, UInt32.toNat_zero] <;>
    omega

/-! ## Blocks -/

theorem coapLog2_spec {s : UInt16} (h1 : 1 ≤ s.toNat) (h2 : s.toNat ≤ 128) :
    2 ^ (coapLog2 s).toNat ≤ s.toNat ∧ s.toNat < 2 ^ ((coapLog2 s).toNat + 1) ∧ (coapLog2 s).toNat < 8 := by
  have key : ∀ n : Fin 129, 1 ≤ n.val →
      2 ^ (coapLog2 (UInt16.ofNat n)).toNat ≤ n.val ∧ n.val < 2 ^ ((coapLog2 (UInt16.ofNat n)).toNat + 1) ∧
        (coapLog2 (UInt16.ofNat n)).toNat < 8 := by
    decide +kernel
  have := key ⟨s.toNat, by omega⟩ h1
  simpa using this

def Block.szx (b : Block) : Nat := (coapLog2 (b.size / 16)).toNat

def Block.received (b : Block) : Block where
  num := b.num
  more := if b.more ≠ 0 then 1 else 0
  size := UInt16.ofNat (16 * 2 ^ b.szx)
  offset := b.num * UInt32.ofNat (16 * 2 ^ b.szx)

section

variable {b : Block}

theorem Block.szx_spec (h : blockAccepted b.num b.size) :
    16 * 2 ^ b.szx ≤ b.size.toNat ∧ b.size.toNat < 32 * 2 ^ b.szx ∧ b.szx < 8 := by
  obtain ⟨hlo, hhi, -⟩ := h
  rw [UInt16.lt_iff_toNat_lt] at hlo
  rw [gt_iff_lt, UInt16.lt_iff_toNat_lt] at hhi
  have hd : (b.size / 16).toNat = b.size.toNat / 16 := by simp
  have hlo' : 16 ≤ b.size.toNat := Nat.not_lt.1 hlo
  have hhi' : b.size.toNat ≤ 2048 := Nat.not_lt.1 hhi
  obtain ⟨h1, h2, h3⟩ := coapLog2_spec (s := b.size / 16) (by omega) (by omega)
  rw [hd] at h1 h2
  unfold Block.szx
  rw [Nat.pow_succ] at h2
  omega

theorem Block.pack_toNat (h : blockAccepted b.num b.size) :
    b.pack.toNat = b.num.toNat * 16 + (if b.more ≠ 0 then 8 else 0) + b.szx := by
  obtain ⟨-, -, hszx⟩ := Block.szx_spec h
  have hnum : b.num.toNat ≤ 0x0FFFFF := by
    have := h.2.2
    rw [gt_iff_lt, UInt32.lt_iff_toNat_lt] at this
    exact Nat.not_lt.1 this
  have hs : (b.num <<< 4).toNat = b.num.toNat <<< 4 := by
    rw [UInt32.toNat_shiftLeft, show ((4 : UInt32).toNat % 32) = 4 from rfl, Nat.shiftLeft_eq]
    omega
  have he : (0xF &&& (coapLog2 (b.size / 16)).toUInt32 : UInt32).toNat = b.szx := by
    rw [UInt32.toNat_and, UInt16.toNat_toUInt32, show (0xF : UInt32).toNat = 2 ^ 4 - 1 from rfl, Nat.and_comm,
      Nat.and_two_pow_sub_one_eq_mod]
    exact Nat.mod_eq_of_lt (by unfold Block.szx at hszx; omega)
  have h8 : ∀ n : Fin 8, (8 ||| n.val) = 8 + n.val := by decide
  unfold Block.pack
  split_ifs with hm
  · rw [UInt32.toNat_or, UInt32.toNat_or, hs, he, show (0x8 : UInt32).toNat = 8 from rfl, Nat.or_assoc,
      h8 ⟨b.szx, hszx⟩, ← Nat.shiftLeft_add_eq_or_of_lt (by show 8 + b.szx < 2 ^ 4; omega), Nat.shiftLeft_eq]
    show b.num.toNat * 2 ^ 4 + (8 + b.szx) = _
    omega
  · rw [UInt32.toNat_or, hs, he, ← Nat.shiftLeft_add_eq_or_of_lt (by omega), Nat.shiftLeft_eq]
    omega

theorem Block.unpack_pack (h : blockAccepted b.num b.size) : (Block.unpack b.pack).num = b.received.num ∧
    (Block.unpack b.pack).more = b.received.more ∧ (Block.unpack b.pack).size = b.received.size := by
  obtain ⟨-, -, hszx⟩ := Block.szx_spec h
  have hp := Block.pack_toNat h
  have hlow : (b.pack &&& 0x07).toNat = b.szx := by
    rw [UInt32.toNat_and, show (0x07 : UInt32).toNat = 2 ^ 3 - 1 from rfl, Nat.and_two_pow_sub_one_eq_mod, hp]
    split_ifs <;> omega
  refine ⟨?_, ?_, ?_⟩
  · apply UInt32.toNat_inj.1
    show (b.pack >>> 4).toNat = b.num.toNat
    rw [UInt32.toNat_shiftRight, show ((4 : UInt32).toNat % 32) = 4 from rfl, Nat.shiftRight_eq_div_pow, hp]
    split_ifs <;> omega
  · apply UInt8.toNat_inj.1
    show ((b.pack &&& 0x08) >>> 3).toUInt8.toNat = _
    rw [UInt32.toNat_toUInt8, UInt32.toNat_shiftRight, show ((3 : UInt32).toNat % 32) = 3 from rfl,
      UInt32.toNat_and, Nat.shiftRight_and_distrib, show (0x08 : UInt32).toNat >>> 3 = 1 from rfl, Nat.and_one_is_mod,
      Nat.shiftRight_eq_div_pow, hp]
    unfold Block.received
    split_ifs with hm
    · rw [show (b.num.toNat * 16 + 8 + b.szx) / 2 ^ 3 % 2 = 1 by omega]
      rfl
    · rw [show (b.num.toNat * 16 + 0 + b.szx) / 2 ^ 3 % 2 = 0 by omega]
      rfl
  · apply UInt16.toNat_inj.1
    show (16 <<< (b.pack &&& 0x07)).toUInt16.toNat = (UInt16.ofNat (16 * 2 ^ b.szx)).toNat
    rw [UInt32.toNat_toUInt16, UInt32.toNat_shiftLeft, hlow, Nat.mod_eq_of_lt (show b.szx < 32 by omega),
      Nat.shiftLeft_eq, UInt16.toNat_ofNat', show (16 : UInt32).toNat = 16 from rfl]
    have : 2 ^ b.szx ≤ 2 ^ 7 := Nat.pow_le_pow_right (by omega) (by omega)
    omega

theorem toNat_and_not_15 (v : UInt32) : (v &&& ~~~0x0000000F).toNat = v.toNat / 16 * 16 := by
  have hv := v.toNat_lt
  rw [UInt32.toNat_and, show (~~~0x0000000F : UInt32).toNat = (2 ^ 28 - 1) <<< 4 from rfl,
    show v.toNat / 16 * 16 = (v.toNat >>> 4) <<< 4 by rw [Nat.shiftRight_eq_div_pow, Nat.shiftLeft_eq]]
  apply Nat.eq_of_testBit_eq
  intro i
  rw [Nat.testBit_and, Nat.testBit_shiftLeft, Nat.testBit_shiftLeft, Nat.testBit_two_pow_sub_one, Nat.testBit_shiftRight]
  by_cases hi : 4 ≤ i
  · rw [show 4 + (i - 4) = i by omega]
    by_cases h32 : i < 32
    · simp [hi, show i - 4 < 28 by omega]
    · have : v.toNat.testBit i = false := Nat.testBit_lt_two_pow (hv.trans_le (Nat.pow_le_pow_right (by omega) (by omega)))
      simp [this]
  · simp [hi]

theorem Block.unpack_pack_offset (h : blockAccepted b.num b.size) :
    (Block.unpack b.pack).offset.toNat = b.num.toNat * (16 * 2 ^ b.szx) := by
  obtain ⟨-, -, hszx⟩ := Block.szx_spec h
  have hp := Block.pack_toNat h
  have hnum : b.num.toNat ≤ 0x0FFFFF := by
    have := h.2.2
    rw [gt_iff_lt, UInt32.lt_iff_toNat_lt] at this
    exact Nat.not_lt.1 this
  have hlow : (b.pack &&& 0x07).toNat = b.szx := by
    rw [UInt32.toNat_and, show (0x07 : UInt32).toNat = 2 ^ 3 - 1 from rfl, Nat.and_two_pow_sub_one_eq_mod, hp]
    split_ifs <;> omega
  have hhigh : b.pack.toNat / 16 * 16 = b.num.toNat * 16 := by
    rw [hp]
    split_ifs <;> omega
  have hpow : 2 ^ b.szx ≤ 2 ^ 7 := Nat.pow_le_pow_right (by omega) (by omega)
  have hlt : b.num.toNat * 16 * 2 ^ b.szx < 2 ^ 32 :=
    (Nat.mul_le_mul (Nat.mul_le_mul_right 16 hnum) hpow).trans_lt (by omega)
  show ((b.pack &&& ~~~0x0000000F) <<< (b.pack &&& 0x07)).toNat = _
  rw [UInt32.toNat_shiftLeft, toNat_and_not_15, hlow, hhigh, Nat.mod_eq_of_lt (show b.szx < 32 by omega), Nat.shiftLeft_eq,
    Nat.mod_eq_of_lt hlt, Nat.mul_assoc]

theorem Block.size_received (h : blockAccepted b.num b.size) :
    b.received.size = b.size ↔ ∃ k < 8, b.size.toNat = 16 * 2 ^ k := by
  obtain ⟨h1, h2, h3⟩ := Block.szx_spec h
  have hpow : 2 ^ b.szx ≤ 2 ^ 7 := Nat.pow_le_pow_right (by omega) (by omega)
  have hsize : b.received.size.toNat = 16 * 2 ^ b.szx := by
    show (UInt16.ofNat (16 * 2 ^ b.szx)).toNat = _
    rw [UInt16.toNat_ofNat']
    omega
  rw [← UInt16.toNat_inj, hsize]
  constructor
  · exact fun he => ⟨b.szx, h3, he.symm⟩
  · rintro ⟨k, -, hk⟩
    rw [hk] at h1 h2
    -- the power below the size is the size
    have hle : b.szx ≤ k := (Nat.pow_le_pow_iff_right (show 1 < 2 by omega)).1 (by omega)
    have hlt : k < b.szx + 1 := (Nat.pow_lt_pow_iff_right (show 1 < 2 by omega)).1 (by rw [Nat.pow_succ]; omega)
    rw [hk, show k = b.szx by omega]

end

end

end Contiki.Coap
