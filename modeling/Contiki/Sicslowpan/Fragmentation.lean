/-
The sending half of sicslowpan.c behind header compression: `output` sends a packet that does not fit
a frame in fragments.
-/
import Contiki.Sicslowpan.Reassembly

namespace Contiki.Sicslowpan

open Contiki.Lib

/-! ## The source -/

/-- `uip_buf`, the compressed headers at `packetbuf_ptr`, their two lengths, `mac_max_payload` and
`my_tag`. -/
structure Outgoing where
  sender : List UInt8
  receiver : List UInt8
  uip : Mem
  uipLen : Nat
  uncompHdrLen : Nat
  packetbuf : Mem
  packetbufHdrLen : Nat
  macMaxPayload : Nat
  myTag : UInt16

/-- How `fragment_copy_payload_and_send` ends. -/
inductive TxResult
  | ok
  | failed
  | noQueuebuf
deriving DecidableEq

def set16 (ptr : Mem) (index value : Nat) : Mem :=
  (ptr.put index (UInt8.ofNat (value / 256))).put (index + 1) (UInt8.ofNat value)

namespace Outgoing

variable (o : Outgoing)

def fragNeeded : Prop := (o.uipLen : Int) - o.uncompHdrLen + o.packetbufHdrLen > o.macMaxPayload

instance : Decidable o.fragNeeded := by
  unfold fragNeeded; infer_instance

-- the mask `0xfffffff8` rounds down, also below zero
def totalPayload : Int := o.uipLen - o.uncompHdrLen
def frag1Payload : Int := (o.macMaxPayload - o.packetbufHdrLen - frag1HdrLen) / 8 * 8
def fragnMaxPayload : Int := (o.macMaxPayload - fragnHdrLen) / 8 * 8
def lastFragnMaxPayload : Int := o.macMaxPayload - fragnHdrLen
def middleFragnTotalPayload : Int := max (o.totalPayload - o.frag1Payload - o.lastFragnMaxPayload) 0

/-- `fragment_count`; C leaves the division undefined when `fragn_max_payload` is 0. -/
def fragmentCount : Int :=
  if o.middleFragnTotalPayload > 0 then 2 + (1 + (o.middleFragnTotalPayload - 1).tdiv o.fragnMaxPayload) else 2

/-- The packetbuf that `fragment_copy_payload_and_send` sends. -/
def fragmentFrame (pb : Mem) (hdrLen payloadLen uipOffset : Nat) : Frame where
  sender := o.sender
  receiver := o.receiver
  pb := ⟨Mem.paste hdrLen payloadLen (fun k => o.uip (uipOffset + k)) pb, payloadLen + hdrLen⟩

@[simp] theorem fragmentFrame_byte (pb : Mem) (hdrLen payloadLen uipOffset : Nat) :
    (o.fragmentFrame pb hdrLen payloadLen uipOffset).pb.byte =
      Mem.paste hdrLen payloadLen (fun k => o.uip (uipOffset + k)) pb := rfl

@[simp] theorem fragmentFrame_datalen (pb : Mem) (hdrLen payloadLen uipOffset : Nat) :
    (o.fragmentFrame pb hdrLen payloadLen uipOffset).pb.datalen = payloadLen + hdrLen := rfl

def frag1Frame : Frame :=
  let pb := Mem.paste frag1HdrLen o.packetbufHdrLen o.packetbuf o.packetbuf
  let pb := set16 (set16 pb 0 (dispatchFrag1.toNat <<< 8 ||| o.uipLen)) 2 o.myTag.toNat
  o.fragmentFrame pb ((o.packetbufHdrLen + frag1HdrLen) % 256) o.frag1Payload.toNat o.uncompHdrLen

/-- The payload of the N-fragment at `processed`. -/
def fragnPayloadLen (processed : Nat) : Nat :=
  if (o.uipLen : Int) - processed > o.lastFragnMaxPayload then o.fragnMaxPayload.toNat else o.uipLen - processed

/-- The N-fragment at `processed`, sent from what the packetbuf held. -/
def fragnFrame (processed : Nat) (pb : Mem) : Frame :=
  o.fragmentFrame (pb.put 4 (UInt8.ofNat (processed / 8))) fragnHdrLen (o.fragnPayloadLen processed) processed

/-- The loop for the N-fragments; it may run out of fuel. -/
@[grind =]
def sendFragns (sent : Nat → TxResult) : Nat → Nat → Nat → Mem → Option (List Frame × Bool)
  | 0, _, _, _ => none
  | fuel + 1, currFrag, processed, pb =>
    if processed < o.uipLen then
      match sent currFrag with
      | .ok =>
        (sendFragns sent fuel (currFrag + 1) ((processed + o.fragnPayloadLen processed) % 65536)
          (o.fragnFrame processed pb).pb.byte).map fun r => (o.fragnFrame processed pb :: r.1, r.2)
      | .failed => some ([o.fragnFrame processed pb], false)
      | .noQueuebuf => some ([], false)
    else some ([], true)

def sendFragments (sent : Nat → TxResult) : Option (List Frame × Bool) :=
  match sent 0 with
  | .ok =>
    let pb := set16 o.frag1Frame.pb.byte 0 (dispatchFragn.toNat <<< 8 ||| o.uipLen)
    (o.sendFragns sent (o.uipLen + 1) 1 (o.uncompHdrLen + o.frag1Payload.toNat) pb).map
      fun r => (o.frag1Frame :: r.1, r.2)
  | .failed => some ([o.frag1Frame], false)
  | .noQueuebuf => some ([], false)

/-- `output` behind header compression: the frames it sends and what it returns. -/
def output (freeBufs : Nat) (sent : Nat → TxResult) : Option (List Frame × Bool) :=
  if o.fragNeeded then
    if (freeBufs : Int) < o.fragmentCount + 1 then some ([], false)
    else if o.frag1Payload < 0 then some ([], false)
    else o.sendFragments sent
  else if o.uipLen < o.uncompHdrLen then some ([], false)
  else some ([o.fragmentFrame o.packetbuf o.packetbufHdrLen (o.uipLen - o.uncompHdrLen) o.uncompHdrLen], true)

end Outgoing

/-! ## What a packet is cut into -/

structure IsFragn (o : Outgoing) (g : Frame) : Prop where
  sender : g.sender = o.sender
  dispatch : g.dispatch = dispatchFragn
  size : g.fragSize = o.uipLen
  tag : g.fragTag = o.myTag.toNat
  fits : g.pb.datalen ≤ o.macMaxPayload
  filled : 0 < g.fragnBlock.2
  bytes : ∀ k, k < g.fragnBlock.2 → g.pb.byte (fragnHdrLen + k) = o.uip (g.fragnBlock.1 + k)

/-- The first fragment of the packet; `n` bytes of it come behind the headers. -/
structure IsFrag1 (o : Outgoing) (f : Frame) (n : Nat) : Prop where
  sender : f.sender = o.sender
  receiver : f.receiver = o.receiver
  dispatch : f.dispatch = dispatchFrag1
  size : f.fragSize = o.uipLen
  tag : f.fragTag = o.myTag.toNat
  fits : f.pb.datalen ≤ o.macMaxPayload
  datalen : f.pb.datalen = frag1HdrLen + o.packetbufHdrLen + n
  header : ∀ k, k < o.packetbufHdrLen → f.pb.byte (frag1HdrLen + k) = o.packetbuf k
  bytes : ∀ k, k < n → f.pb.byte (frag1HdrLen + o.packetbufHdrLen + k) = o.uip (o.uncompHdrLen + k)

/-- The frames cut the packet behind its headers into consecutive blocks that begin at multiples of 8. -/
structure Fragments (o : Outgoing) (f : Frame) (n : Nat) (gs : List Frame) : Prop where
  first : IsFrag1 o f n
  rest : ∀ g ∈ gs, IsFragn o g
  aligned : ∀ b ∈ (o.uncompHdrLen, n) :: gs.map Frame.fragnBlock, b.1 % 8 = 0
  cover : Consecutive o.uncompHdrLen ((o.uncompHdrLen, n) :: gs.map Frame.fragnBlock) o.uipLen
  count : ((f :: gs).length : Int) = o.fragmentCount

section

variable {o : Outgoing} {m pb : Mem} {f : Frame} {d : Nat}

/-! ## Headers -/

structure HasHeader (o : Outgoing) (d : Nat) (m : Mem) : Prop where
  byte0 : m 0 = UInt8.ofNat (d + o.uipLen / 256)
  byte1 : m 1 = UInt8.ofNat o.uipLen
  byte2 : m 2 = UInt8.ofNat (o.myTag.toNat / 256)
  byte3 : m 3 = UInt8.ofNat o.myTag.toNat

theorem HasHeader.congr (h : HasHeader o d m) (heq : ∀ x, x < 4 → pb x = m x) : HasHeader o d pb :=
  ⟨by rw [heq 0 (by omega), h.byte0], by rw [heq 1 (by omega), h.byte1], by rw [heq 2 (by omega), h.byte2],
    by rw [heq 3 (by omega), h.byte3]⟩

theorem dispatch_bits : ∀ q < 8, UInt8.ofNat (0xc0 + q) &&& 0xf8 = 0xc0 ∧ UInt8.ofNat (0xe0 + q) &&& 0xf8 = 0xe0 := by
  decide

theorem HasHeader.fragSize (h : HasHeader o d f.pb.byte) (hlen : o.uipLen ≤ 2047) (hd : d = 0xc0 ∨ d = 0xe0) :
    f.fragSize = o.uipLen := by
  unfold Frame.fragSize get16
  rw [h.byte0, h.byte1]
  simp only [UInt8.toNat_ofNat']
  omega

theorem HasHeader.fragTag (h : HasHeader o d f.pb.byte) : f.fragTag = o.myTag.toNat := by
  have htag := o.myTag.toNat_lt
  unfold Frame.fragTag get16
  rw [h.byte2, h.byte3]
  simp only [UInt8.toNat_ofNat']
  omega

theorem set16_or {n : Nat} (hn : n ≤ 2047) (hd : d = 0xc0 ∨ d = 0xe0) : d <<< 8 ||| n = d * 256 + n := by
  have hshift : ∀ k, k <<< 11 ||| n = k <<< 11 + n := fun k => (Nat.shiftLeft_add_eq_or_of_lt (by omega) k).symm
  rcases hd with rfl | rfl
  · exact hshift 24
  · exact hshift 28

theorem set16_same (m : Mem) (i v : Nat) :
    set16 m i v i = UInt8.ofNat (v / 256) ∧ set16 m i v (i + 1) = UInt8.ofNat v := by
  unfold set16
  rw [Mem.put_of_ne (by omega), Mem.put_same, Mem.put_same]
  exact ⟨rfl, rfl⟩

theorem set16_of_ne {i v x : Nat} (h : x ≠ i) (h' : x ≠ i + 1) : set16 m i v x = m x := by
  unfold set16
  rw [Mem.put_of_ne h', Mem.put_of_ne h]

theorem set16_dispatch (m : Mem) (hlen : o.uipLen ≤ 2047) (hd : d = 0xc0 ∨ d = 0xe0) :
    set16 m 0 (d <<< 8 ||| o.uipLen) 0 = UInt8.ofNat (d + o.uipLen / 256) ∧
      set16 m 0 (d <<< 8 ||| o.uipLen) 1 = UInt8.ofNat o.uipLen := by
  obtain ⟨h0, h1⟩ := set16_same m 0 (d <<< 8 ||| o.uipLen)
  rw [h0, h1, set16_or hlen hd]
  constructor
  · congr 1
    omega
  · apply UInt8.toNat_inj.1
    simp only [UInt8.toNat_ofNat']
    omega

theorem frag1_header (o : Outgoing) (hlen : o.uipLen ≤ 2047) (hh : o.packetbufHdrLen + frag1HdrLen < 256) :
    HasHeader o 0xc0 o.frag1Frame.pb.byte := by
  unfold Outgoing.frag1Frame
  simp only [Outgoing.fragmentFrame_byte]
  generalize Mem.paste frag1HdrLen o.packetbufHdrLen o.packetbuf o.packetbuf = pb
  have hin : ∀ x, x < 4 → x < (o.packetbufHdrLen + frag1HdrLen) % 256 := by
    unfold frag1HdrLen at hh ⊢
    omega
  obtain ⟨h2, h3⟩ := set16_same (set16 pb 0 (dispatchFrag1.toNat <<< 8 ||| o.uipLen)) 2 o.myTag.toNat
  obtain ⟨h0, h1⟩ := set16_dispatch pb hlen (.inl rfl)
  constructor
  case byte0 => rw [Mem.paste_of_out (.inl (hin 0 (by omega))), set16_of_ne (by omega) (by omega)]; exact h0
  case byte1 => rw [Mem.paste_of_out (.inl (hin 1 (by omega))), set16_of_ne (by omega) (by omega)]; exact h1
  case byte2 => rw [Mem.paste_of_out (.inl (hin 2 (by omega)))]; exact h2
  case byte3 => rw [Mem.paste_of_out (.inl (hin 3 (by omega)))]; exact h3

theorem fragn_header {d' : Nat} (h : HasHeader o d' m) (hlen : o.uipLen ≤ 2047) :
    HasHeader o 0xe0 (set16 m 0 (dispatchFragn.toNat <<< 8 ||| o.uipLen)) := by
  obtain ⟨h0, h1⟩ := set16_dispatch m hlen (.inr rfl)
  constructor
  case byte0 => exact h0
  case byte1 => exact h1
  case byte2 => rw [set16_of_ne (by omega) (by omega), h.byte2]
  case byte3 => rw [set16_of_ne (by omega) (by omega), h.byte3]

/-! ## The first fragment -/

theorem frag1Payload_bounds (o : Outgoing) : o.frag1Payload % 8 = 0 ∧
    o.frag1Payload + o.packetbufHdrLen + frag1HdrLen ≤ o.macMaxPayload ∧
    (o.macMaxPayload : Int) < o.frag1Payload + o.packetbufHdrLen + frag1HdrLen + 8 := by
  unfold Outgoing.frag1Payload
  omega

theorem frag1_isFrag1 (o : Outgoing) (hlen : o.uipLen ≤ 2047) (hh : o.packetbufHdrLen + frag1HdrLen < 256)
    (hroom : 0 ≤ o.frag1Payload) : IsFrag1 o o.frag1Frame o.frag1Payload.toNat := by
  have hhdr := frag1_header o hlen hh
  obtain ⟨-, hmac, -⟩ := frag1Payload_bounds o
  have hmod : (o.packetbufHdrLen + frag1HdrLen) % 256 = o.packetbufHdrLen + frag1HdrLen := Nat.mod_eq_of_lt hh
  have hdatalen : o.frag1Frame.pb.datalen = frag1HdrLen + o.packetbufHdrLen + o.frag1Payload.toNat := by
    unfold Outgoing.frag1Frame
    simp only [hmod, Outgoing.fragmentFrame_datalen]
    omega
  constructor
  case sender => rfl
  case receiver => rfl
  case dispatch =>
    unfold Frame.dispatch
    rw [hhdr.byte0]
    exact (dispatch_bits _ (by omega)).1
  case size => exact hhdr.fragSize hlen (.inl rfl)
  case tag => exact hhdr.fragTag
  case fits => omega
  case datalen => exact hdatalen
  case header =>
    intro k hk
    unfold Outgoing.frag1Frame
    simp only [hmod, Outgoing.fragmentFrame_byte]
    rw [Mem.paste_of_out (by omega), set16_of_ne (by unfold frag1HdrLen; omega) (by unfold frag1HdrLen; omega),
      set16_of_ne (by unfold frag1HdrLen; omega) (by unfold frag1HdrLen; omega), Mem.paste_in (by omega) (by omega),
      Nat.add_sub_cancel_left]
  case bytes =>
    intro k hk
    unfold Outgoing.frag1Frame
    simp only [hmod, Outgoing.fragmentFrame_byte]
    rw [Mem.paste_in (by omega) (by omega)]
    congr 1
    omega

/-! ## The N-fragments -/

theorem fragn_isFragn (h : HasHeader o 0xe0 pb) (hlen : o.uipLen ≤ 2047) {processed : Nat} (h8 : processed % 8 = 0)
    (hpos : 0 < o.fragnPayloadLen processed) (hin : processed + o.fragnPayloadLen processed ≤ o.uipLen)
    (hfit : (o.fragnPayloadLen processed : Int) ≤ o.lastFragnMaxPayload) : IsFragn o (o.fragnFrame processed pb) ∧
      (o.fragnFrame processed pb).fragnBlock = (processed, o.fragnPayloadLen processed) ∧
      HasHeader o 0xe0 (o.fragnFrame processed pb).pb.byte := by
  unfold Outgoing.fragnFrame
  generalize o.fragnPayloadLen processed = payload at *
  generalize hg : o.fragmentFrame (pb.put 4 (UInt8.ofNat (processed / 8))) fragnHdrLen payload processed = g
  have hbyte : ∀ x, x < 5 → g.pb.byte x = pb.put 4 (UInt8.ofNat (processed / 8)) x := fun x hx => by
    rw [← hg, Outgoing.fragmentFrame_byte]
    exact Mem.paste_of_out (.inl hx)
  have hhdr : HasHeader o 0xe0 g.pb.byte := h.congr fun x hx => by
    rw [hbyte x (by omega), Mem.put_of_ne (by omega)]
  have hdatalen : g.pb.datalen = payload + fragnHdrLen := by rw [← hg, Outgoing.fragmentFrame_datalen]
  have hblock : g.fragnBlock = (processed, payload) := by
    unfold Frame.fragnBlock Frame.fragOffset
    rw [hbyte 4 (by omega), Mem.put_same, hdatalen, Nat.add_sub_cancel]
    simp only [UInt8.toNat_ofNat']
    congr 1
    omega
  refine ⟨?_, hblock, hhdr⟩
  constructor
  case sender =>
    rw [← hg]
    rfl
  case dispatch =>
    unfold Frame.dispatch
    rw [hhdr.byte0]
    exact (dispatch_bits _ (by omega)).2
  case size => exact hhdr.fragSize hlen (.inr rfl)
  case tag => exact hhdr.fragTag
  case fits =>
    unfold Outgoing.lastFragnMaxPayload at hfit
    omega
  case filled =>
    rw [hblock]
    exact hpos
  case bytes =>
    rw [hblock]
    intro k hk
    rw [← hg, Outgoing.fragmentFrame_byte, Mem.paste_in (by omega) (by omega), Nat.add_sub_cancel_left]

theorem fragnMaxPayload_bounds (hmac : 13 ≤ o.macMaxPayload) : o.fragnMaxPayload % 8 = 0 ∧ 8 ≤ o.fragnMaxPayload ∧
    o.fragnMaxPayload ≤ o.lastFragnMaxPayload := by
  unfold Outgoing.fragnMaxPayload Outgoing.lastFragnMaxPayload fragnHdrLen
  omega

/-- The number of N-fragments for the last `n` bytes. -/
def Outgoing.fragnCount (o : Outgoing) (n : Int) : Int :=
  if n ≤ 0 then 0
  else if n ≤ o.lastFragnMaxPayload then 1
  else 2 + (n - o.lastFragnMaxPayload - 1) / o.fragnMaxPayload

theorem fragnCount_step (hmac : 13 ≤ o.macMaxPayload) {n : Int} (hn : o.lastFragnMaxPayload < n) :
    o.fragnCount n = o.fragnCount (n - o.fragnMaxPayload) + 1 := by
  obtain ⟨-, h8, hle⟩ := fragnMaxPayload_bounds hmac
  unfold Outgoing.fragnCount
  rw [if_neg (by omega), if_neg (by omega), if_neg (by omega)]
  split
  case isTrue hlast =>
    rw [Int.ediv_eq_zero_of_lt (by omega) (by omega)]
    omega
  case isFalse hlast =>
    have hdiv : n - o.lastFragnMaxPayload - 1 = n - o.fragnMaxPayload - o.lastFragnMaxPayload - 1 + o.fragnMaxPayload := by
      omega
    rw [hdiv, Int.add_ediv_of_dvd_right (dvd_refl _), Int.ediv_self (by omega)]
    omega

theorem sendFragns_spec (hlen : o.uipLen ≤ 2047) (hmac : 13 ≤ o.macMaxPayload) :
    ∀ {fuel currFrag processed : Nat} {pb : Mem}, HasHeader o 0xe0 pb → (processed < o.uipLen → processed % 8 = 0) → processed ≤ o.uipLen →
      o.uipLen - processed < fuel → ∃ gs, o.sendFragns (fun _ => .ok) fuel currFrag processed pb = some (gs, true) ∧
        (∀ g ∈ gs, IsFragn o g) ∧ Consecutive processed (gs.map Frame.fragnBlock) o.uipLen ∧
        (gs.length : Int) = o.fragnCount (o.uipLen - processed)
  | 0, _, _, _, _, _, _, hfuel => absurd hfuel (Nat.not_lt_zero _)
  | fuel + 1, currFrag, processed, pb, hpb, h8, hle, hfuel => by
    obtain ⟨hmod, hpos, hlast⟩ := fragnMaxPayload_bounds hmac
    unfold Outgoing.sendFragns
    by_cases hmore : processed < o.uipLen
    · rw [if_pos hmore]
      have hpayload : (o.fragnPayloadLen processed : Int) = o.fragnMaxPayload ∧
            (o.uipLen : Int) - processed > o.lastFragnMaxPayload ∨
          o.fragnPayloadLen processed = o.uipLen - processed ∧ (o.uipLen : Int) - processed ≤ o.lastFragnMaxPayload := by
        unfold Outgoing.fragnPayloadLen
        split <;> omega
      obtain ⟨hg, hblock, hhdr⟩ := fragn_isFragn hpb hlen (h8 hmore) (by omega) (by omega) (by omega)
      generalize o.fragnPayloadLen processed = payload at *
      generalize o.fragnFrame processed pb = g at *
      rw [show (processed + payload) % 65536 = processed + payload from Nat.mod_eq_of_lt (by omega)]
      -- the last fragment takes what is left, every other one a multiple of 8
      have h8' : processed + payload < o.uipLen → (processed + payload) % 8 = 0 := by
        have := h8 hmore
        omega
      obtain ⟨gs, hrun, hfrag, hcons, hcount⟩ :=
        @sendFragns_spec hlen hmac fuel (currFrag + 1) _ _ hhdr h8' (by omega) (by omega)
      refine ⟨g :: gs, by simp [hrun], ?_, ?_, ?_⟩
      · intro g' hg'
        rcases List.mem_cons.1 hg' with rfl | hg'
        · exact hg
        · exact hfrag g' hg'
      · rw [List.map_cons, hblock]
        exact ⟨rfl, hcons⟩
      · rw [List.length_cons, Nat.cast_succ, hcount]
        rcases hpayload with ⟨hfull, hbig⟩ | ⟨hrest, hsmall⟩
        · rw [fragnCount_step hmac hbig]
          congr 2
          omega
        · unfold Outgoing.fragnCount
          rw [if_pos (by omega), if_neg (by omega), if_pos hsmall]
          rfl
    · rw [if_neg hmore]
      refine ⟨[], rfl, by simp, ?_, ?_⟩
      · exact show processed = o.uipLen by omega
      · unfold Outgoing.fragnCount
        rw [if_pos (by omega)]
        rfl

theorem sendFragns_initial {sent : Nat → TxResult} : ∀ {fuel currFrag processed : Nat} {pb : Mem} {gs : List Frame},
    o.sendFragns (fun _ => .ok) fuel currFrag processed pb = some (gs, true) →
    ∃ es ok, o.sendFragns sent fuel currFrag processed pb = some (es, ok) ∧ es <+: gs ∧ (ok = true → es = gs)
  | 0, _, _, _, _, h => by cases h
  | fuel + 1, currFrag, processed, pb, gs, h => by
    unfold Outgoing.sendFragns at h ⊢
    split at h
    case isFalse hdone =>
      cases h
      rw [if_neg hdone]
      exact ⟨[], true, rfl, List.nil_prefix, fun _ => rfl⟩
    case isTrue hmore =>
      rw [if_pos hmore]
      obtain ⟨⟨gs', ok⟩, hrest, hcons⟩ := Option.map_eq_some_iff.1 h
      cases hcons
      cases sent currFrag with
      | ok =>
        obtain ⟨es, ok, hes, hpre, hall⟩ := @sendFragns_initial sent _ _ _ _ _ hrest
        exact ⟨_ :: es, ok, by simp [hes], List.cons_prefix_cons.2 ⟨rfl, hpre⟩, fun hok => by rw [hall hok]⟩
      | failed => exact ⟨[_], false, rfl, List.cons_prefix_cons.2 ⟨rfl, List.nil_prefix⟩, nofun⟩
      | noQueuebuf => exact ⟨[], false, rfl, List.nil_prefix, nofun⟩

/-! ## The packet -/

/-- The count for the buffer reservation is one more than the number of N-fragments. -/
theorem fragmentCount_eq (hmac : 13 ≤ o.macMaxPayload) (hneed : o.fragNeeded) :
    o.fragmentCount = o.fragnCount (o.totalPayload - o.frag1Payload) + 1 := by
  obtain ⟨-, h8, hle⟩ := fragnMaxPayload_bounds hmac
  obtain ⟨-, hfit, -⟩ := frag1Payload_bounds o
  have hrest : 0 < o.totalPayload - o.frag1Payload := by
    unfold Outgoing.fragNeeded at hneed
    unfold Outgoing.totalPayload
    omega
  unfold Outgoing.fragmentCount Outgoing.fragnCount Outgoing.middleFragnTotalPayload
  by_cases hone : o.totalPayload - o.frag1Payload ≤ o.lastFragnMaxPayload
  · rw [max_eq_right (by omega), if_neg (by omega), if_neg (by omega), if_pos hone]
    rfl
  · rw [max_eq_left (by omega), if_pos (by omega), if_neg (by omega), if_neg hone,
      Int.tdiv_eq_ediv_of_nonneg (by omega)]
    omega

theorem sendFragments_spec (hlen : o.uipLen ≤ 2047) (h8 : o.uncompHdrLen % 8 = 0)
    (hhdr : o.packetbufHdrLen + frag1HdrLen < 256) (hroom : o.packetbufHdrLen + frag1HdrLen ≤ o.macMaxPayload)
    (hmac : 13 ≤ o.macMaxPayload) (hneed : o.fragNeeded) :
    ∃ gs, Fragments o o.frag1Frame o.frag1Payload.toNat gs ∧ gs ≠ [] ∧
      o.sendFragments (fun _ => .ok) = some (o.frag1Frame :: gs, true) := by
  obtain ⟨hmod, hfit, hmax⟩ := frag1Payload_bounds o
  have hpos : 0 ≤ o.frag1Payload := by omega
  have hmore : o.uncompHdrLen + o.frag1Payload.toNat < o.uipLen := by
    unfold Outgoing.fragNeeded at hneed
    omega
  obtain ⟨gs, hrun, hfrag, hcons, hcount⟩ := @sendFragns_spec _ hlen hmac (o.uipLen + 1) 1 _ _
      (fragn_header (frag1_header o hlen hhdr) hlen) (show o.uncompHdrLen + o.frag1Payload.toNat < o.uipLen →
      (o.uncompHdrLen + o.frag1Payload.toNat) % 8 = 0 by omega) hmore.le (by omega)
  have hne : gs ≠ [] := by
    rintro rfl
    exact hmore.ne hcons
  refine ⟨gs, ?_, hne, by simp [Outgoing.sendFragments, hrun]⟩
  constructor
  case first => exact frag1_isFrag1 o hlen hhdr hpos
  case rest => exact hfrag
  case aligned =>
    intro b hb
    rcases List.mem_cons.1 hb with rfl | hb
    · exact h8
    · obtain ⟨g, -, rfl⟩ := List.mem_map.1 hb
      exact Nat.mul_mod_left g.fragOffset 8
  case cover => exact ⟨rfl, hcons⟩
  case count =>
    rw [List.length_cons, Nat.cast_succ, hcount, fragmentCount_eq hmac hneed]
    unfold Outgoing.totalPayload
    congr 2
    omega

theorem sendFragments_initial {sent : Nat → TxResult} {fs : List Frame}
    (h : o.sendFragments (fun _ => .ok) = some (fs, true)) :
    ∃ es ok, o.sendFragments sent = some (es, ok) ∧ es <+: fs ∧ (ok = true → es = fs) := by
  unfold Outgoing.sendFragments at h ⊢
  dsimp only at h ⊢
  obtain ⟨⟨gs, ok⟩, hrest, hcons⟩ := Option.map_eq_some_iff.1 h
  cases hcons
  cases sent 0 with
  | ok =>
    obtain ⟨es, ok, hes, hpre, hall⟩ := @sendFragns_initial _ sent _ _ _ _ _ hrest
    exact ⟨_ :: es, ok, by simp [hes], List.cons_prefix_cons.2 ⟨rfl, hpre⟩, fun hok => by rw [hall hok]⟩
  | failed => exact ⟨[_], false, rfl, List.cons_prefix_cons.2 ⟨rfl, List.nil_prefix⟩, nofun⟩
  | noQueuebuf => exact ⟨[], false, rfl, List.nil_prefix, nofun⟩

theorem output_eq {bufs : Nat} (hroom : o.packetbufHdrLen + frag1HdrLen ≤ o.macMaxPayload) (hneed : o.fragNeeded)
    (sent : Nat → TxResult) :
    o.output bufs sent = if o.fragmentCount + 1 ≤ bufs then o.sendFragments sent else some ([], false) := by
  obtain ⟨hmod, -, hmax⟩ := frag1Payload_bounds o
  unfold Outgoing.output
  rw [if_pos hneed]
  by_cases hfree : o.fragmentCount + 1 ≤ bufs
  · rw [if_neg (by omega), if_neg (by omega), if_pos hfree]
  · rw [if_pos (by omega), if_neg hfree]

end

end Contiki.Sicslowpan
