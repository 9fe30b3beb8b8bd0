/-
`coap_block1_handler`: the payloads of a blockwise request are put together in a buffer. The end of a block is computed
in 32 bits and may wrap around, and then a block far behind the buffer passes for one that fits.
-/
import Contiki.Coap.Parse
import Contiki.Coap.Safety

namespace Contiki.Coap

open Lib

/-! ## The handler -/

def requestEntityTooLarge413 : UInt8 := 141
def badRequest400 : UInt8 := 128
def continue231 : UInt32 := 95

/-- The arguments `target` and `len`; `present` when neither is `NULL`. -/
structure Target where
  mem : Mem
  len : Nat
  present : Bool

/-- What `coap_block1_handler` returns and leaves: `coap_status_code` and `coap_error_message`, the response, the buffer, and
the positions of the buffer that were written. -/
structure Handled where
  ret : Int
  status : Option (UInt8 × String)
  response : Message (List UInt8)
  target : Target
  writes : List Nat

/-- `request->block1_offset + pay_len`. -/
def blockEnd (request : Message Span) : UInt32 := request.block1.offset + UInt32.ofNat request.payload.len

def answerBlock1 (request : Message Span) (response : Message (List UInt8)) : Int × Message (List UInt8) :=
  if coapIsOption request CoapOption.block1.number then
    let response := coapSetHeaderBlock1 response request.block1.num request.block1.more request.block1.size
    if request.block1.more ≠ 0 then (1, coapSetStatusCode response continue231) else (0, response)
  else (0, response)

/-- `coap_block1_handler`: the payload of the request lies in `packet`. -/
def coapBlock1Handler (request : Message Span) (packet : Mem) (response : Message (List UInt8)) (target : Target)
    (maxLen : Nat) : Handled :=
  let payLen := request.payload.len
  if payLen = 0 then ⟨-1, some (badRequest400, "NoPayload"), response, target, []⟩
  else if (blockEnd request).toNat > maxLen then
    ⟨-1, some (requestEntityTooLarge413, "Message to big"), response, target, []⟩
  else
    let offset := request.block1.offset.toNat
    let answer := answerBlock1 request response
    if target.present then
      ⟨answer.1, none, answer.2,
        ⟨Mem.paste offset payLen (fun i => packet (request.payload.start + i)) target.mem, (blockEnd request).toNat, true⟩,
        List.range' offset payLen⟩
    else ⟨answer.1, none, answer.2, target, []⟩

/-- A call for a request that `coap_parse_message` has accepted. -/
structure Block1Call (z : Sizes) where
  data : Mem
  dataLen : Nat
  request : Message Span
  packet : Mem
  accepted : coapParseMessage z data dataLen = .ok (request, packet)
  response : Message (List UInt8)

namespace Block1Call

variable {z : Sizes}

def handle (c : Block1Call z) (target : Target) (maxLen : Nat) : Handled :=
  coapBlock1Handler c.request c.packet c.response target maxLen

def payLen (c : Block1Call z) : Nat := c.request.payload.len

def payload (c : Block1Call z) : List UInt8 := Mem.read c.request.payload.start c.payLen c.packet

end Block1Call

/-! ## What the parser leaves -/

theorem Block.unpack_offset (n : UInt32) :
    (Block.unpack n).offset.toNat = (Block.unpack n).num.toNat * (Block.unpack n).size.toNat % 4294967296 ∧
      16 ≤ (Block.unpack n).size.toNat := by
  have hlow : (n &&& 0x07).toNat = n.toNat % 8 := by
    rw [UInt32.toNat_and, show (0x07 : UInt32).toNat = 2 ^ 3 - 1 from rfl, Nat.and_two_pow_sub_one_eq_mod]
  have hpow : 2 ^ (n.toNat % 8) ≤ 2 ^ 7 := Nat.pow_le_pow_right (by omega) (by omega)
  have hpos : 0 < 2 ^ (n.toNat % 8) := Nat.two_pow_pos _
  have hsize : (Block.unpack n).size.toNat = 16 * 2 ^ (n.toNat % 8) := by
    show ((16 : UInt32) <<< (n &&& 0x07)).toUInt16.toNat = _
    rw [UInt32.toNat_toUInt16, UInt32.toNat_shiftLeft, hlow, Nat.mod_eq_of_lt (show n.toNat % 8 < 32 by omega),
      Nat.shiftLeft_eq, show (16 : UInt32).toNat = 16 from rfl]
    omega
  have hnum : (Block.unpack n).num.toNat = n.toNat / 16 := by
    show (n >>> 4).toNat = _
    rw [UInt32.toNat_shiftRight, show ((4 : UInt32).toNat % 32) = 4 from rfl, Nat.shiftRight_eq_div_pow]
  have hoffset : (Block.unpack n).offset.toNat = n.toNat / 16 * 16 * 2 ^ (n.toNat % 8) % 4294967296 := by
    show ((n &&& ~~~0x0000000F) <<< (n &&& 0x07)).toNat = _
    rw [UInt32.toNat_shiftLeft, toNat_and_not_15, hlow, Nat.mod_eq_of_lt (show n.toNat % 8 < 32 by omega), Nat.shiftLeft_eq]
  refine ⟨?_, by omega⟩
  rw [hoffset, hnum, hsize, Nat.mul_assoc]

section

variable {z : Sizes} {dataLen : Nat} {c c' : Cursor} {msg : Message Span} {mem : Mem}

theorem parseOptions_keeps {P : Message Span → Prop} (hpayload : ∀ m s, s.len ≤ z.maxChunkSize → P m → P { m with payload := s })
    (hoption : ∀ c c', P c.msg → parseOption dataLen c = .ok c' → P c'.msg) (hc : P c.msg)
    (h : parseOptions z dataLen c = .ok (msg, mem)) : P msg := by
  induction hn : dataLen - c.pos using Nat.strong_induction_on generalizing c with
  | _ n ih =>
  rw [parseOptions] at h
  split_ifs at h with hpos hm
  · cases h
    exact hpayload _ _ (Nat.min_le_right ..) hc
  · split at h
    case h_1 => cases h
    case h_2 c' hc' =>
      have hlt := parseOption_lt hc'
      exact ih (dataLen - c'.pos) (by omega) (hoption c c' hc hc') h rfl
  · cases h
    exact hc

structure Block1Read (z : Sizes) (m : Message Span) : Prop where
  payload : m.payload.len ≤ z.maxChunkSize
  block1 : coapIsOption m CoapOption.block1.number = true → ∃ n, m.block1 = Block.unpack n

theorem storeOption_block1 {msg' : Message Span} {mem' : Mem} {number option len : Nat}
    (h : storeOption msg mem number option len = .ok (msg', mem')) :
    msg'.payload = msg.payload ∧ msg'.options = msg.options ∧
      (msg'.block1 = msg.block1 ∨ ∃ n, msg'.block1 = Block.unpack n) ∧
      (number = CoapOption.block1.number → ∃ n, msg'.block1 = Block.unpack n) := by
  unfold storeOption at h
  by_cases hnumber : number = CoapOption.block1.number
  · subst hnumber
    rw [CoapOption.ofNumber_number] at h
    cases h
    exact ⟨rfl, rfl, .inr ⟨_, rfl⟩, fun _ => ⟨_, rfl⟩⟩
  · cases hn : CoapOption.ofNumber? number with
    | none =>
      rw [hn] at h
      dsimp only at h
      split_ifs at h
      cases h
      exact ⟨rfl, rfl, .inl rfl, fun he => absurd he hnumber⟩
    | some o =>
      rw [hn] at h
      cases o with
      | proxyUri | proxyScheme => cases h
      | block1 =>
        cases h
        exact ⟨rfl, rfl, .inr ⟨_, rfl⟩, fun _ => ⟨_, rfl⟩⟩
      | _ =>
        cases h
        exact ⟨rfl, rfl, .inl rfl, fun he => absurd he hnumber⟩

theorem parseOption_store (h : parseOption dataLen c = .ok c') : ∃ number option len,
    storeOption (coapSetOption c.msg number) c.mem number option len = .ok (c'.msg, c'.mem) := by
  unfold parseOption at h
  dsimp only at h
  rcases hd : readExtension c.mem dataLen (c.mem c.pos >>> 4).toNat (c.pos + 1) with _ | ⟨delta, p⟩
  · rw [hd] at h
    cases h
  rw [hd] at h
  dsimp only at h
  rcases hl : readExtension c.mem dataLen (c.mem c.pos &&& 0x0F).toNat p with _ | ⟨len, q⟩
  · rw [hl] at h
    cases h
  rw [hl] at h
  dsimp only at h
  split_ifs at h
  rcases hs : storeOption (coapSetOption c.msg (c.optionNumber + delta)) c.mem (c.optionNumber + delta) q len with
    _ | ⟨msg, mem⟩
  · rw [hs] at h
    cases h
  rw [hs] at h
  cases h
  exact ⟨_, _, _, hs⟩

theorem coapIsOption_set {opt opt' : Nat} (h : coapIsOption (coapSetOption msg opt) opt' = true) :
    coapIsOption msg opt' = true ∨ opt = opt' := by
  by_cases heq : opt = opt'
  · exact .inr heq
  · left
    unfold coapSetOption at h
    split_ifs at h
    · exact h
    · unfold coapIsOption at h ⊢
      dsimp only at h
      rwa [Function.update_of_ne (Ne.symm heq)] at h

theorem Block1Read.option (hc : Block1Read z c.msg) (h : parseOption dataLen c = .ok c') : Block1Read z c'.msg := by
  obtain ⟨number, option, len, hs⟩ := parseOption_store h
  obtain ⟨hpayload, hoptions, hblock, hset⟩ := storeOption_block1 hs
  have hsame : ∀ {m : Message Span} {opt : Nat}, (coapSetOption m opt).payload = m.payload ∧
      (coapSetOption m opt).block1 = m.block1 := by
    intro m opt
    unfold coapSetOption
    split_ifs
    · exact ⟨rfl, rfl⟩
    · exact ⟨rfl, rfl⟩
  constructor
  · rw [hpayload, hsame.1]
    exact hc.payload
  · intro hopt
    rcases hblock with heq | hn
    · have hopt' : coapIsOption (coapSetOption c.msg number) CoapOption.block1.number = true := by
        unfold coapIsOption at hopt ⊢
        rwa [hoptions] at hopt
      rcases coapIsOption_set hopt' with hbefore | hnow
      · rw [heq, hsame.2]
        exact hc.block1 hbefore
      · exact hset hnow
    · exact hn

theorem block1Read_of_accepted {data : Mem} (h : coapParseMessage z data dataLen = .ok (msg, mem)) :
    Block1Read z msg := by
  unfold coapParseMessage at h
  dsimp only at h
  split_ifs at h
  refine parseOptions_keeps (P := Block1Read z) ?_ ?_ ?_ h
  · rintro m s hs ⟨-, hblock⟩
    exact ⟨hs, hblock⟩
  · rintro c c' hc hopt
    exact hc.option hopt
  · refine ⟨Nat.zero_le _, fun hopt => ?_⟩
    cases hopt

/-! ## Writes -/

theorem blockEnd_toNat (request : Message Span) :
    (blockEnd request).toNat = (request.block1.offset.toNat + request.payload.len) % 4294967296 := by
  unfold blockEnd
  rw [UInt32.toNat_add, UInt32.toNat_ofNat']
  omega

def Stores (request : Message Span) (target : Target) (maxLen : Nat) : Prop :=
  target.present = true ∧ 0 < request.payload.len ∧ (blockEnd request).toNat ≤ maxLen

/-- The end of the block, computed in 32 bits, wraps around to one in the buffer. -/
def Wraps (request : Message Span) (target : Target) (maxLen : Nat) : Prop :=
  Stores request target maxLen ∧ maxLen < request.block1.offset.toNat + request.payload.len

variable {request : Message Span} {packet : Mem} {response : Message (List UInt8)} {target : Target} {maxLen : Nat}

theorem handler_stores (h : Stores request target maxLen) :
    (coapBlock1Handler request packet response target maxLen).target =
        ⟨Mem.paste request.block1.offset.toNat request.payload.len (fun i => packet (request.payload.start + i)) target.mem,
          (blockEnd request).toNat, true⟩ ∧ (coapBlock1Handler request packet response target maxLen).writes =
        List.range' request.block1.offset.toNat request.payload.len := by
  obtain ⟨hpresent, hlen, hle⟩ := h
  unfold coapBlock1Handler
  dsimp only
  rw [if_neg (by omega), if_neg (by omega), if_pos hpresent]
  exact ⟨rfl, rfl⟩

theorem handler_leaves (h : ¬ Stores request target maxLen) :
    (coapBlock1Handler request packet response target maxLen).target = target ∧
      (coapBlock1Handler request packet response target maxLen).writes = [] := by
  unfold coapBlock1Handler
  dsimp only
  split_ifs with hlen hle hpresent
  · exact ⟨rfl, rfl⟩
  · exact ⟨rfl, rfl⟩
  · exact absurd ⟨hpresent, by omega, by omega⟩ h
  · exact ⟨rfl, rfl⟩

theorem handler_writes : (∀ x ∈ (coapBlock1Handler request packet response target maxLen).writes, x < maxLen) ↔
    ¬ Wraps request target maxLen := by
  by_cases h : Stores request target maxLen
  · rw [(handler_stores h).2, Cursor.range'_within]
    have hlen := h.2.1
    constructor
    · rintro hle ⟨-, hlt⟩
      omega
    · intro hwraps
      have := not_and.1 hwraps h
      exact .inr (by omega)
  · rw [(handler_leaves h).2]
    exact iff_of_true (by rintro x ⟨⟩) fun hwraps => h hwraps.1

/-! ## A sequence of blocks -/

/-- The `num`-th block of the size. -/
structure IsBlock1 (size : UInt16) (num : Nat) (more : UInt8) (m : Message Span) : Prop where
  option : coapIsOption m CoapOption.block1.number = true
  num : m.block1.num.toNat = num
  size : m.block1.size = size
  more : m.block1.more = more

/-- Blocks of one size from the `num`-th on, each full, up to the last one, with more = 0. -/
def Consecutive (size : UInt16) : Nat → List (Block1Call z) → Prop
  | _, [] => False
  | num, [c] => IsBlock1 size num 0 c.request ∧ c.payLen ≤ size.toNat
  | num, c :: c' :: cs =>
    (IsBlock1 size num 1 c.request ∧ c.payLen = size.toNat) ∧ Consecutive size (num + 1) (c' :: cs)

def assemble (maxLen : Nat) (target : Target) (cs : List (Block1Call z)) : Target :=
  cs.foldl (fun target c => (c.handle target maxLen).target) target

def concat (cs : List (Block1Call z)) : List UInt8 := cs.flatMap Block1Call.payload

/-- A blockwise request whose total fits the buffer. -/
structure Upload (z : Sizes) where
  size : UInt16
  blocks : List (Block1Call z)
  consecutive : Consecutive size 0 blocks
  target : Target
  present : target.present = true
  maxLen : Nat
  fits : (concat blocks).length ≤ maxLen

/-- The buffer holds the payloads, and `*len` is their length. -/
def Upload.Assembled (u : Upload z) : Prop :=
  Mem.Holds 0 (concat u.blocks) (assemble u.maxLen u.target u.blocks).mem ∧
    (assemble u.maxLen u.target u.blocks).len = (concat u.blocks).length

theorem length_payload (c : Block1Call z) : c.payload.length = c.payLen := Mem.length_read ..

theorem concat_cons (c : Block1Call z) (cs : List (Block1Call z)) : concat (c :: cs) = c.payload ++ concat cs :=
  List.flatMap_cons

variable {size : UInt16}

theorem block_offset {num : Nat} {more : UInt8} {c : Block1Call z} (h : IsBlock1 size num more c.request) :
    c.request.block1.offset.toNat = num * size.toNat % 4294967296 ∧ 16 ≤ size.toNat := by
  obtain ⟨n, hn⟩ := (block1Read_of_accepted c.accepted).block1 h.option
  have := Block.unpack_offset n
  rwa [← hn, h.num, h.size] at this

theorem handle_present (c : Block1Call z) (h : target.present = true) : (c.handle target maxLen).target.present = true := by
  unfold Block1Call.handle
  by_cases hs : Stores c.request target maxLen
  · rw [(handler_stores hs).1]
  · rw [(handler_leaves hs).1]
    exact h

theorem handle_block {num : Nat} {more : UInt8} {c : Block1Call z} {pre : List UInt8}
    (h : IsBlock1 size num more c.request) (hpresent : target.present = true) (hpre : pre.length = num * size.toNat)
    (hheld : Mem.Holds 0 pre target.mem) (hmax : num * size.toNat + c.payLen ≤ maxLen)
    (hlt : num * size.toNat + c.payLen < 4294967296) :
    Mem.Holds 0 (pre ++ c.payload) (c.handle target maxLen).target.mem ∧
      (c.handle target maxLen).target.len = if c.payLen = 0 then target.len else num * size.toNat + c.payLen := by
  have hoffset := (block_offset h).1
  rw [Nat.mod_eq_of_lt (by omega)] at hoffset
  have hend := blockEnd_toNat c.request
  rw [hoffset] at hend
  unfold Block1Call.payLen at hmax hlt ⊢
  rw [Nat.mod_eq_of_lt hlt] at hend
  unfold Block1Call.handle
  by_cases hlen : c.request.payload.len = 0
  · have hs : ¬ Stores c.request target maxLen := fun hs => absurd hs.2.1 (by omega)
    have hnil : c.payload = [] := List.length_eq_zero_iff.1 ((length_payload c).trans hlen)
    rw [(handler_leaves hs).1, if_pos hlen, hnil, List.append_nil]
    exact ⟨hheld, rfl⟩
  · have hs : Stores c.request target maxLen := ⟨hpresent, by omega, by omega⟩
    rw [(handler_stores hs).1, if_neg hlen]
    refine ⟨Mem.holds_append.2 ⟨?_, ?_⟩, hend⟩
    · refine hheld.congr fun x _ hx => ?_
      dsimp only
      exact Mem.paste_of_out (.inl (by omega))
    · refine Mem.holds_read.2 fun i hi => ?_
      unfold Block1Call.payLen at hi
      rw [Nat.zero_add, hpre, hoffset]
      dsimp only
      rw [Mem.paste_in (by omega) (by omega), Nat.add_sub_cancel_left]

theorem assemble_holds : ∀ {cs : List (Block1Call z)} {num : Nat} {target : Target} {pre : List UInt8},
    Consecutive size num cs → target.present = true → pre.length = num * size.toNat → Mem.Holds 0 pre target.mem →
    (0 < num → target.len = num * size.toNat) → num * size.toNat + (concat cs).length ≤ maxLen →
    num * size.toNat + (concat cs).length < 4294967296 →
    Mem.Holds 0 (pre ++ concat cs) (assemble maxLen target cs).mem ∧
      (0 < num ∨ 0 < (concat cs).length ∨ target.len = 0 →
        (assemble maxLen target cs).len = num * size.toNat + (concat cs).length)
  | [], _, _, _, h, _, _, _, _, _, _ => h.elim
  | [c], num, target, pre, ⟨hblock, _⟩, hpresent, hpre, hheld, hlen, hmax, hlt => by
    have hconcat : concat [c] = c.payload := by
      rw [concat_cons]
      exact List.append_nil _
    rw [hconcat, length_payload] at hmax hlt ⊢
    obtain ⟨hmem, hlen'⟩ := handle_block hblock hpresent hpre hheld hmax hlt
    refine ⟨hmem, fun hany => ?_⟩
    show (c.handle target maxLen).target.len = _
    rw [hlen']
    split_ifs with hzero
    · -- an empty last block: what was stored before stays
      rcases Nat.eq_zero_or_pos num with rfl | hnum
      · rw [hzero]
        omega
      · rw [hlen hnum, hzero, Nat.add_zero]
    · rfl
  | c :: c' :: cs, num, target, pre, ⟨⟨hblock, hfull⟩, hcons⟩, hpresent, hpre, hheld, hlen, hmax, hlt => by
    rw [concat_cons, List.length_append, length_payload] at hmax hlt
    have hsize := (block_offset hblock).2
    have hroom : num * size.toNat + c.payLen ≤ maxLen := by omega
    obtain ⟨hmem, hlen'⟩ := handle_block hblock hpresent hpre hheld hroom (by omega)
    rw [if_neg (by omega), hfull] at hlen'
    have hnext : (num + 1) * size.toNat = num * size.toNat + size.toNat := Nat.succ_mul ..
    have hpre' : (pre ++ c.payload).length = (num + 1) * size.toNat := by
      rw [List.length_append, length_payload, hpre, hfull, hnext]
    obtain ⟨hheld', hlen''⟩ := assemble_holds hcons (handle_present c hpresent) hpre' hmem
      (fun _ => by rw [hlen', hnext]) (by rw [hnext]; omega) (by rw [hnext]; omega)
    rw [concat_cons, ← List.append_assoc]
    refine ⟨hheld', fun _ => ?_⟩
    have := hlen'' (.inl (Nat.succ_pos num))
    rw [List.length_append, length_payload, hfull]
    show (assemble maxLen (c.handle target maxLen).target (c' :: cs)).len = _
    rw [this, hnext, Nat.add_assoc]

theorem handle_len_lt {num : Nat} {more : UInt8} {c : Block1Call z} (h : IsBlock1 size num more c.request)
    (hpresent : target.present = true) (hmax : num * size.toNat + c.payLen ≤ maxLen)
    (hlen : target.len < 4294967296 ∨ 0 < c.payLen) : (c.handle target maxLen).target.len < 4294967296 := by
  have hoffset := (block_offset h).1
  have hle := Nat.mod_le (num * size.toNat) 4294967296
  have hend := blockEnd_toNat c.request
  have hend' := Nat.mod_le (c.request.block1.offset.toNat + c.request.payload.len) 4294967296
  unfold Block1Call.handle
  unfold Block1Call.payLen at hmax hlen
  by_cases hs : Stores c.request target maxLen
  · rw [(handler_stores hs).1]
    exact (blockEnd c.request).toNat_lt
  · rw [(handler_leaves hs).1]
    rcases hlen with hlen | hpos
    · exact hlen
    · exact absurd ⟨hpresent, hpos, by omega⟩ hs

theorem assemble_len_lt : ∀ {cs : List (Block1Call z)} {num : Nat} {target : Target},
    Consecutive size num cs → target.present = true → num * size.toNat + (concat cs).length ≤ maxLen →
    target.len < 4294967296 ∨ 0 < (concat cs).length → (assemble maxLen target cs).len < 4294967296
  | [], _, _, h, _, _, _ => h.elim
  | [c], num, target, ⟨hblock, _⟩, hpresent, hmax, hlen => by
    have hconcat : (concat [c]).length = c.payLen := by
      rw [concat_cons, List.length_append, length_payload]
      rfl
    rw [hconcat] at hmax hlen
    exact handle_len_lt hblock hpresent hmax hlen
  | c :: c' :: cs, num, target, ⟨⟨hblock, hfull⟩, hcons⟩, hpresent, hmax, _ => by
    rw [concat_cons, List.length_append, length_payload] at hmax
    have hsize := (block_offset hblock).2
    have hnext : (num + 1) * size.toNat = num * size.toNat + size.toNat := Nat.succ_mul ..
    have hroom : num * size.toNat + c.payLen ≤ maxLen := by omega
    have hlen := handle_len_lt hblock hpresent hroom (.inr (by omega))
    show (assemble maxLen (c.handle target maxLen).target (c' :: cs)).len < _
    exact assemble_len_lt hcons (handle_present c hpresent) (by omega) (.inl hlen)

theorem assemble_empty : ∀ {cs : List (Block1Call z)} {num : Nat},
    Consecutive size num cs → (concat cs).length = 0 → assemble maxLen target cs = target
  | [], _, h, _ => h.elim
  | [c], _, _, hzero => by
    rw [concat_cons, List.length_append, length_payload] at hzero
    refine (handler_leaves fun hs => ?_).1
    have hpos : 0 < c.payLen := hs.2.1
    omega
  | c :: _ :: _, _, ⟨⟨hblock, hfull⟩, _⟩, hzero => by
    rw [concat_cons, List.length_append, length_payload] at hzero
    have hsize := (block_offset hblock).2
    omega

theorem upload_assembled (u : Upload z) : u.Assembled ↔
    (concat u.blocks).length < 4294967296 ∧ (0 < (concat u.blocks).length ∨ u.target.len = 0) := by
  have hfits := u.fits
  constructor
  · rintro ⟨-, hlen⟩
    rcases Nat.eq_zero_or_pos (concat u.blocks).length with hzero | hpos
    · rw [assemble_empty u.consecutive hzero] at hlen
      exact ⟨by omega, .inr (by omega)⟩
    · have hroom : 0 * u.size.toNat + (concat u.blocks).length ≤ u.maxLen := by omega
      have := assemble_len_lt u.consecutive u.present hroom (.inr hpos)
      exact ⟨by omega, .inl hpos⟩
  · rintro ⟨hlt, hany⟩
    have hroom : 0 * u.size.toNat + (concat u.blocks).length ≤ u.maxLen := by omega
    have hheld : Mem.Holds 0 [] u.target.mem := trivial
    obtain ⟨hmem, hlen⟩ := assemble_holds u.consecutive u.present (by simp) hheld
      (fun h => absurd h (Nat.lt_irrefl 0)) hroom (by omega)
    rw [List.nil_append] at hmem
    exact ⟨hmem, (hlen (.inr hany)).trans (by omega)⟩

/-- A call writes into the buffer exactly when the end of its block does not wrap around to one in the buffer; a sequence
of blocks is put together exactly when it is shorter than 2^32 bytes and, where it is empty, `*len` was 0. -/
theorem coap_block1_handler_right (z : Sizes) : (∀ (c : Block1Call z) (target : Target) (maxLen : Nat),
      (∀ x ∈ (c.handle target maxLen).writes, x < maxLen) ↔ ¬ Wraps c.request target maxLen) ∧
    ∀ u : Upload z, u.Assembled ↔
      (concat u.blocks).length < 4294967296 ∧ (0 < (concat u.blocks).length ∨ u.target.len = 0) :=
  ⟨fun _ _ _ => handler_writes, upload_assembled⟩

def lastBlock : Mem := fun i => [0x40, 0x03, 0, 1, 0xd4, 0x0e, 0xff, 0xff, 0xff, 0xf0, 0xff].getD i 7

/-- Its block ends, in 32 bits, in the 16th byte of the buffer, and is stored 4 GiB behind its beginning. -/
theorem lastBlock_outside : ¬ ∀ (c : Block1Call ⟨48, 64, by decide⟩) (target : Target) (maxLen : Nat),
    ∀ x ∈ (c.handle target maxLen).writes, x < maxLen := by
  intro h
  have hparsed : (Traced.coapParseMessage ⟨48, 64, by decide⟩ lastBlock 43 2).map (fun r => r.ret.toOption.map
      fun p => (p.1.block1.offset, p.1.payload.len)) = some (some (0xfffffff0, 32)) := by decide
  obtain ⟨r, hr, hret⟩ := Option.map_eq_some_iff.1 hparsed
  have haccepted := Traced.coapParseMessage_ret hr
  cases hok : r.ret with
  | error e =>
    rw [hok] at hret
    cases hret
  | ok p =>
    rw [hok] at hret haccepted
    have hfields := Option.some.inj hret
    have hoffset : p.1.block1.offset = 0xfffffff0 := congrArg Prod.fst hfields
    have hlen : p.1.payload.len = 32 := congrArg Prod.snd hfields
    have hinside := h ⟨lastBlock, 43, p.1, p.2, haccepted.symm, coapInitMessage .ack 0 0⟩ ⟨fun _ => 0, 0, true⟩ 64
    refine handler_writes.1 hinside ⟨⟨rfl, ?_, ?_⟩, ?_⟩
    · show 0 < p.1.payload.len
      omega
    · show (blockEnd p.1).toNat ≤ 64
      rw [blockEnd_toNat, hoffset, hlen]
      decide
    · show 64 < p.1.block1.offset.toNat + p.1.payload.len
      rw [hoffset, hlen]
      decide

end

end Contiki.Coap
