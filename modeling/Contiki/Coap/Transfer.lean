/-
Whole Block2 transfers: when client and server count blocks in one unit, every run of a lossy,
duplicating and reordering network that ends with FINISHED has delivered the representation.
-/
import Contiki.Coap.Blockwise

namespace Contiki.Coap

open Contiki.Lib

/-! ## Blocks of a representation -/

theorem take_block {α : Type} (l : List α) (k b : Nat) :
    l.take (k * b) ++ (l.drop (k * b)).take b = l.take ((k + 1) * b) := by
  rw [Nat.succ_mul, List.take_add]

theorem coapMaxBlockSize_spec (n : Nat) : ∃ k < 8, coapMaxBlockSize n = 16 * 2 ^ k ∧ (16 ≤ n → coapMaxBlockSize n ≤ n) := by
  unfold coapMaxBlockSize
  split_ifs
  · exact ⟨0, by omega, rfl, fun h => h⟩
  · exact ⟨1, by omega, rfl, fun _ => by omega⟩
  · exact ⟨2, by omega, rfl, fun _ => by omega⟩
  · exact ⟨3, by omega, rfl, fun _ => by omega⟩
  · exact ⟨4, by omega, rfl, fun _ => by omega⟩
  · exact ⟨5, by omega, rfl, fun _ => by omega⟩
  · exact ⟨6, by omega, rfl, fun _ => by omega⟩
  · exact ⟨7, by omega, rfl, fun _ => by omega⟩

theorem blockAccepted_iff {num : UInt32} {size : UInt16} :
    blockAccepted num size ↔ 16 ≤ size.toNat ∧ size.toNat ≤ 2048 ∧ num.toNat ≤ 0x0FFFFF := by
  unfold blockAccepted
  rw [UInt16.lt_iff_toNat_lt, gt_iff_lt, UInt16.lt_iff_toNat_lt, gt_iff_lt, UInt32.lt_iff_toNat_lt, Nat.not_lt,
    Nat.not_lt, Nat.not_lt]
  exact Iff.rfl

theorem wireSize_spec {num : UInt32} {size : UInt16} (h : blockAccepted num size) :
    ∃ k < 8, wireSize size = 16 * 2 ^ k := by
  obtain ⟨-, -, hszx⟩ := Block.szx_spec (b := ⟨num, 0, size, 0⟩) h
  exact ⟨_, hszx, rfl⟩

theorem unpack_accepted {num : UInt32} {more : UInt8} {size : UInt16} (h : blockAccepted num size) :
    (Block.unpack (Block.pack ⟨num, more, size, 0⟩)).num = num ∧
      ((Block.unpack (Block.pack ⟨num, more, size, 0⟩)).more ≠ 0 ↔ more ≠ 0) ∧
      (Block.unpack (Block.pack ⟨num, more, size, 0⟩)).size.toNat = wireSize size ∧
      (Block.unpack (Block.pack ⟨num, more, size, 0⟩)).offset.toNat = num.toNat * wireSize size := by
  have h' : blockAccepted (Block.num ⟨num, more, size, 0⟩) (Block.size ⟨num, more, size, 0⟩) := h
  obtain ⟨h1, h2, h3⟩ := Block.unpack_pack h'
  refine ⟨h1, ?_, ?_, Block.unpack_pack_offset h'⟩
  · rw [h2]
    unfold Block.received
    dsimp only
    split
    case isTrue hm => simp [hm]
    case isFalse hm => simp [hm]
  · obtain ⟨k, hk, hw⟩ := wireSize_spec h
    have hpow : 2 ^ k ≤ 2 ^ 7 := Nat.pow_le_pow_right (by omega) (by omega)
    rw [h3]
    show (UInt16.ofNat (wireSize size)).toNat = _
    rw [UInt16.toNat_ofNat', hw]
    omega

theorem wireSize_pow {k : Nat} (hk : k < 8) : blockAccepted 0 (UInt16.ofNat (16 * 2 ^ k)) ∧
    wireSize (UInt16.ofNat (16 * 2 ^ k)) = 16 * 2 ^ k := by
  have hpow : 2 ^ k ≤ 2 ^ 7 := Nat.pow_le_pow_right (by omega) (by omega)
  have hpos : 0 < 2 ^ k := Nat.pos_of_ne_zero (by simp)
  have hn : (UInt16.ofNat (16 * 2 ^ k)).toNat = 16 * 2 ^ k := by
    rw [UInt16.toNat_ofNat']
    omega
  have ha : blockAccepted 0 (UInt16.ofNat (16 * 2 ^ k)) := by
    rw [blockAccepted_iff, hn]
    exact ⟨by omega, by omega, by decide⟩
  refine ⟨ha, ?_⟩
  have hsize := (Block.size_received (b := ⟨0, 0, UInt16.ofNat (16 * 2 ^ k), 0⟩) ha).2 ⟨k, hk, hn⟩
  have : (UInt16.ofNat (wireSize (UInt16.ofNat (16 * 2 ^ k)))).toNat = 16 * 2 ^ k := by
    refine Eq.trans ?_ hn
    exact congrArg UInt16.toNat hsize
  obtain ⟨j, hj, hw⟩ := wireSize_spec ha
  have hpow' : 2 ^ j ≤ 2 ^ 7 := Nat.pow_le_pow_right (by omega) (by omega)
  rw [UInt16.toNat_ofNat'] at this
  rw [hw] at this ⊢
  omega

section

variable {srv : Server}

/-! ## What the server answers -/

/-- The block of `b` bytes at `offset`, numbered `num`. -/
structure IsBlock (srv : Server) (num : UInt32) (offset b : Nat) (r : Reply) (blk : Block) : Prop where
  option : r.block2 = some blk
  num : blk.num = num
  size : blk.size.toNat = b
  more : blk.more ≠ 0 ↔ offset + b < srv.representation.length
  payload : r.payload = (srv.representation.drop offset).take b
  offset : r.offset = offset

variable {m : Msg}

theorem transmit_block {num : UInt32} {more : UInt8} {k : Nat} (hk : k < 8) (hnum : num.toNat ≤ 0x0FFFFF) :
    ∃ blk, (m.setHeaderBlock2 num more (UInt16.ofNat (16 * 2 ^ k))).transmit.block2 = some blk ∧ blk.num = num ∧
      (blk.more ≠ 0 ↔ more ≠ 0) ∧ blk.size.toNat = 16 * 2 ^ k := by
  obtain ⟨h0, hw⟩ := wireSize_pow hk
  have ha : blockAccepted num (UInt16.ofNat (16 * 2 ^ k)) := by
    rw [blockAccepted_iff] at h0 ⊢
    exact ⟨h0.1, h0.2.1, hnum⟩
  obtain ⟨h1, h2, h3, -⟩ := @unpack_accepted _ (if more ≠ 0 then 1 else 0) _ ha
  refine ⟨_, ?_, h1, ?_, h3.trans hw⟩
  · unfold Msg.setHeaderBlock2 Msg.transmit
    rw [if_pos ha]
    rfl
  · rw [h2]
    split
    case isTrue hm => simp [hm]
    case isFalse hm => simpa using hm

@[simp] theorem transmit_payload (m : Msg) : m.transmit.payload = m.payload := rfl

@[simp] theorem setHeaderBlock2_payload (m : Msg) (num : UInt32) (more : UInt8) (size : UInt16) :
    (m.setHeaderBlock2 num more size).payload = m.payload := by
  unfold Msg.setHeaderBlock2
  split <;> rfl

@[simp] theorem setPayload_payload (m : Msg) (n : Nat) (p : List UInt8) : (m.setPayload n p).payload = p.take n := rfl

theorem more_flag (c : Prop) [Decidable c] : ((if c then 1 else 0 : UInt8) ≠ 0) ↔ c := by
  split
  case isTrue h => simp [h]
  case isFalse h => simp [h]

theorem handler_aware (haware : srv.aware = true) {p offset : Nat} (hp : p ≤ srv.maxChunkSize)
    (hin : offset < srv.representation.length ∨ offset = 0) :
    (srv.handler p offset).payload = (srv.representation.drop offset).take p ∧
      ((srv.handler p offset).offset = -1 ∧ srv.representation.length ≤ offset + p ∨
        (srv.handler p offset).offset = (offset + p : Nat) ∧ offset + p < srv.representation.length) := by
  unfold Server.handler
  rw [if_pos haware, if_neg (by omega)]
  dsimp only
  constructor
  · rw [List.take_take, List.take_eq_take_iff, List.length_drop]
    omega
  · by_cases hend : srv.representation.length ≤ offset + p
    · rw [if_pos (by omega)]
      exact .inl ⟨rfl, hend⟩
    · rw [if_neg (by omega)]
      exact .inr ⟨by push_cast; omega, by omega⟩

theorem handler_aware_out (haware : srv.aware = true) {p offset : Nat} (hout : srv.representation.length ≤ offset)
    (hpos : 0 < offset) : srv.handler p offset =
      ⟨badOption402, (text "BlockOutOfScope").take srv.maxChunkSize, offset⟩ := by
  unfold Server.handler
  rw [if_pos haware, if_pos ⟨hout, hpos⟩]

theorem handler_unaware (haware : srv.aware = false) {p offset : Nat}
    (hwhole : srv.representation.length ≤ srv.maxChunkSize) :
    srv.handler p offset = ⟨content205, srv.representation, offset⟩ := by
  unfold Server.handler
  rw [if_neg (by rw [haware]; exact nofun), List.take_of_length_le hwhole]

theorem receive_plain_aware (haware : srv.aware = true) (hchunk : 16 ≤ srv.maxChunkSize) (hm : m.block2 = none) :
    ∃ blk, IsBlock srv 0 0 srv.maxBlockSize (srv.receive m true) blk := by
  obtain ⟨k, hk, hS, hle⟩ := coapMaxBlockSize_spec srv.maxChunkSize
  have hle : srv.maxBlockSize ≤ srv.maxChunkSize := hle hchunk
  have hS : srv.maxBlockSize = 16 * 2 ^ k := hS
  have hpos : 0 < 2 ^ k := Nat.pos_of_ne_zero (by simp)
  obtain ⟨hpayload, hoffset⟩ := handler_aware haware hle (.inr rfl)
  obtain ⟨blk, h1, h2, h3, h4⟩ := @transmit_block (⟨m.mid, (srv.handler srv.maxBlockSize 0).code, none,
      (srv.handler srv.maxBlockSize 0).payload⟩) 0 (if (srv.handler srv.maxBlockSize 0).offset ≠ -1 then 1 else 0) _
      hk (by decide)
  rw [← hS] at h1 h4
  unfold Server.receive Server.blockwise
  simp only [hm, if_true, Option.isSome_none, Bool.false_eq_true, if_false]
  rw [if_neg (by omega)]
  generalize srv.handler srv.maxBlockSize 0 = a at *
  rw [if_pos (by omega)]
  refine ⟨blk, ?_⟩
  constructor
  case option => exact h1
  case num => exact h2
  case size => exact h4
  case more =>
    rw [h3, more_flag]
    omega
  case payload =>
    show (List.take _ (List.take _ _)) = _
    rw [hpayload, List.take_take, List.take_take]
    congr 1
    omega
  case offset => rfl

theorem receive_plain_unaware (haware : srv.aware = false) (hwhole : srv.representation.length ≤ srv.maxChunkSize)
    (hm : m.block2 = none) :
    (srv.receive m true).block2 = none ∧ (srv.receive m true).payload = srv.representation := by
  unfold Server.receive Server.blockwise
  simp only [hm, if_true, Option.isSome_none, Bool.false_eq_true, if_false]
  rw [if_neg (by omega), handler_unaware haware hwhole]
  exact ⟨rfl, rfl⟩

theorem receive_block (hchunk : 16 ≤ srv.maxChunkSize)
    (hwhole : srv.aware = false → srv.representation.length ≤ srv.maxChunkSize) {num : UInt32} {size : UInt16}
    (ha : blockAccepted num size) (hm : m.block2 = some (Block.unpack (Block.pack ⟨num, 0, size, 0⟩)))
    (hin : num.toNat * wireSize size < srv.representation.length ∨ srv.aware = true ∧ num.toNat * wireSize size = 0) :
    ∃ blk, IsBlock srv num (num.toNat * wireSize size) (min (wireSize size) srv.maxBlockSize) (srv.receive m true) blk := by
  obtain ⟨k, hk, hS, hle⟩ := coapMaxBlockSize_spec srv.maxChunkSize
  have hle : srv.maxBlockSize ≤ srv.maxChunkSize := hle hchunk
  have hS : srv.maxBlockSize = 16 * 2 ^ k := hS
  obtain ⟨j, hj, hw⟩ := wireSize_spec ha
  obtain ⟨hnum, -, hsize, hoff⟩ := @unpack_accepted _ 0 _ ha
  have hnum' := (blockAccepted_iff.1 ha).2.2
  -- the smaller size is a power of two again
  obtain ⟨i, hi, hb⟩ : ∃ i < 8, min (wireSize size) srv.maxBlockSize = 16 * 2 ^ i := by
    rcases min_choice (wireSize size) srv.maxBlockSize with h | h
    · exact ⟨j, hj, h.trans hw⟩
    · exact ⟨k, hk, h.trans hS⟩
  have hpow : 2 ^ j ≤ 2 ^ 7 := Nat.pow_le_pow_right (by omega) (by omega)
  have hsmall : num.toNat * wireSize size < 2147483648 := by
    have := Nat.mul_le_mul hnum' (show wireSize size ≤ 2048 by omega)
    omega
  have hpos : 0 < 2 ^ i := Nat.pos_of_ne_zero (by simp)
  unfold Server.receive
  simp only [hm, if_true]
  rw [hoff, hsize, hnum, if_neg (by omega)]
  generalize hoffset : num.toNat * wireSize size = offset at *
  generalize hbs : min (wireSize size) srv.maxBlockSize = b at *
  have hbs' : b ≤ srv.maxBlockSize := by omega
  cases haware : srv.aware with
  | true =>
    obtain ⟨hpayload, hnew⟩ := handler_aware (p := b) haware (by omega)
      (show offset < srv.representation.length ∨ offset = 0 by omega)
    have hlen : (srv.handler b offset).payload.length ≤ b := by
      rw [hpayload, List.length_take]
      omega
    obtain ⟨blk, h1, h2, h3, h4⟩ := @transmit_block (⟨m.mid, (srv.handler b offset).code, none,
        (srv.handler b offset).payload⟩) num (if (srv.handler b offset).offset ≠ -1 ∨
        (srv.handler b offset).payload.length > b then 1 else 0) _ hi hnum'
    rw [← hb] at h1 h4
    unfold Server.blockwise
    rw [if_pos Option.isSome_some]
    generalize srv.handler b offset = a at *
    dsimp only
    rw [if_neg (by omega), if_neg (by omega)]
    refine ⟨blk, ?_⟩
    constructor
    case option => exact h1
    case num => exact h2
    case size => exact h4
    case more =>
      rw [h3, more_flag]
      omega
    case payload =>
      show ((Msg.setHeaderBlock2 _ _ _ _).transmit).payload = _
      rw [transmit_payload, setHeaderBlock2_payload]
      exact hpayload
    case offset => rfl
  | false =>
    obtain ⟨blk, h1, h2, h3, h4⟩ := @transmit_block (⟨m.mid, content205, none, srv.representation⟩) num
        (if srv.representation.length - offset > b then 1 else 0) _ hi hnum'
    rw [← hb] at h1 h4
    rw [handler_unaware haware (hwhole haware)]
    have hin' : offset < srv.representation.length := by
      rcases hin with h | h
      · exact h
      · rw [haware] at h
        exact absurd h.1 (by simp)
    unfold Server.blockwise
    dsimp only
    rw [if_pos Option.isSome_some, if_pos (by omega), if_neg (by omega)]
    refine ⟨blk, ?_⟩
    constructor
    case option => exact h1
    case num => exact h2
    case size => exact h4
    case more =>
      rw [h3, more_flag]
      omega
    case payload =>
      show List.take _ (List.take _ _) = _
      rw [List.take_take, min_eq_right (by omega)]
    case offset => rfl

theorem receive_out (hwhole : srv.aware = false → srv.representation.length ≤ srv.maxChunkSize) {num : UInt32}
    {size : UInt16} (ha : blockAccepted num size)
    (hm : m.block2 = some (Block.unpack (Block.pack ⟨num, 0, size, 0⟩)))
    (hout : srv.representation.length ≤ num.toNat * wireSize size) (hpos : 0 < num.toNat) :
    (srv.receive m true).block2 = none := by
  obtain ⟨j, hj, hw⟩ := wireSize_spec ha
  obtain ⟨hnum, -, hsize, hoff⟩ := @unpack_accepted _ 0 _ ha
  have hnum' := (blockAccepted_iff.1 ha).2.2
  have hpow : 2 ^ j ≤ 2 ^ 7 := Nat.pow_le_pow_right (by omega) (by omega)
  have hpow' : 0 < 2 ^ j := Nat.pos_of_ne_zero (by simp)
  have hsmall : num.toNat * wireSize size < 2147483648 := by
    have := Nat.mul_le_mul hnum' (show wireSize size ≤ 2048 by omega)
    omega
  have h16 : 16 ≤ num.toNat * wireSize size := by
    have := Nat.mul_le_mul hpos (show 16 ≤ wireSize size by omega)
    omega
  unfold Server.receive
  simp only [hm, if_true]
  rw [hoff, hsize, hnum, if_neg (by omega)]
  generalize num.toNat * wireSize size = offset at *
  generalize min (wireSize size) srv.maxBlockSize = b at *
  unfold Server.blockwise
  rw [if_pos Option.isSome_some]
  cases haware : srv.aware with
  | true =>
    rw [handler_aware_out haware hout (by omega)]
    have hlen : (text "BlockOutOfScope").length = 15 := by decide
    have : ((text "BlockOutOfScope").take srv.maxChunkSize).length ≤ offset := by
      rw [List.length_take]
      omega
    dsimp only
    rw [if_pos (by omega), if_pos this]
    rfl
  | false =>
    rw [handler_unaware haware (hwhole haware)]
    dsimp only
    rw [if_pos (by omega), if_pos hout]
    rfl

/-! ## The invariant -/

variable {chunkSize : UInt16} {size : Option UInt16} {blockNum : UInt32}

def Server.unit (srv : Server) (size : Option UInt16) : Nat := (srv.firstSize size).getD srv.representation.length

@[grind =]
def firstOption (size : Option UInt16) : Option Block :=
  match size with
  | some v => if blockAccepted 0 v then some ⟨0, 0, v, 0⟩ else none
  | none => none

/-- The request of the application, or one for a block inside the representation. -/
def RequestOk (srv : Server) (chunkSize : UInt16) (size : Option UInt16) (blockNum : UInt32) (b : Option Block) : Prop :=
  b = firstOption size ∨ ∃ num : UInt32, 0 < num.toNat ∧ num.toNat ≤ blockNum.toNat ∧ blockAccepted num chunkSize ∧
    num.toNat * srv.unit size < srv.representation.length ∧ b = some ⟨num, 0, chunkSize, 0⟩

/-- A block of the representation, or the whole of it where there are no blocks; a response without a block
option otherwise only answers a client that has block 0. -/
def ReplyOk (srv : Server) (size : Option UInt16) (blockNum : UInt32) (r : Reply) : Prop :=
  (r.block2 = none ∧ (0 < blockNum.toNat ∨ srv.firstSize size = none ∧ r.payload = srv.representation)) ∨
    ∃ num blk, num.toNat ≤ blockNum.toNat ∧ num.toNat ≤ 0x0FFFFF ∧
      IsBlock srv num (num.toNat * srv.unit size) (srv.unit size) r blk

def payloads (events : List StatusEvent) : List UInt8 :=
  (events.filter fun e => e.1 = .more ∨ e.1 = .response).flatMap Prod.snd

/-- What holds between two calls of the callback: the blocks before `blockNum` have been delivered. -/
structure Collected (srv : Server) (chunkSize : UInt16) (size : Option UInt16) (x : Transfer) : Prop where
  delivered : payloads x.events = srv.representation.take (x.client.blockNum.toNat * srv.unit size)
  request : RequestOk srv chunkSize size x.client.blockNum x.client.request
  requests : ∀ m ∈ x.requests, ∃ b, RequestOk srv chunkSize size x.client.blockNum b ∧
    m.block2 = b.map fun b => Block.unpack b.pack
  replies : ∀ r ∈ x.replies, ReplyOk srv size x.client.blockNum r

structure TransferInv (srv : Server) (chunkSize : UInt16) (size : Option UInt16) (x : Transfer) : Prop
    extends Collected srv chunkSize size x where
  fresh : x.client.blockNum.toNat = 0 → x.client.resBlock = 0 ∧ x.client.more = 0
  going : 0 < x.client.blockNum.toNat → x.client.status ≠ some .finished → x.client.more ≠ 0 ∧
    x.client.blockNum.toNat * srv.unit size < srv.representation.length ∧
    x.client.resBlock.toNat < x.client.blockNum.toNat
  finished : x.client.status = some .finished → x.client.transaction = none ∧ payloads x.events = srv.representation

theorem unit_of_none (h : srv.firstSize size = none) : srv.unit size = srv.representation.length := by
  unfold Server.unit
  rw [h]
  rfl

theorem unit_of_some {b : Nat} (h : srv.firstSize size = some b) : srv.unit size = b := by
  unfold Server.unit
  rw [h]
  rfl

theorem firstSize_le {b : Nat} (h : srv.firstSize size = some b) : b ≤ srv.maxBlockSize := by
  unfold Server.firstSize at h
  split at h
  · split at h
    · cases h
      omega
    · split at h <;> cases h
      exact le_refl _
  · split at h <;> cases h
    exact le_refl _

theorem RequestOk.mono {b : Option Block} {blockNum' : UInt32} (h : RequestOk srv chunkSize size blockNum b)
    (hle : blockNum.toNat ≤ blockNum'.toNat) : RequestOk srv chunkSize size blockNum' b := by
  rcases h with h | ⟨num, h0, h1, h2⟩
  · exact .inl h
  · exact .inr ⟨num, h0, h1.trans hle, h2⟩

theorem ReplyOk.mono {r : Reply} {blockNum' : UInt32} (h : ReplyOk srv size blockNum r)
    (hle : blockNum.toNat ≤ blockNum'.toNat) : ReplyOk srv size blockNum' r := by
  rcases h with ⟨h0, h1 | h1⟩ | ⟨num, blk, h0, h1⟩
  · exact .inl ⟨h0, .inl (by omega)⟩
  · exact .inl ⟨h0, .inr h1⟩
  · exact .inr ⟨num, blk, h0.trans hle, h1⟩

theorem receive_first (hu : UnitsAgree srv chunkSize size)
    (hm : m.block2 = (firstOption size).map fun b => Block.unpack b.pack) :
    ReplyOk srv size blockNum (srv.receive m true) := by
  cases hb : firstOption size with
  | none =>
    rw [hb] at hm
    have hfirst : srv.firstSize size = if srv.aware then some srv.maxBlockSize else none := by
      unfold firstOption at hb
      unfold Server.firstSize
      split at hb
      · split at hb
        · cases hb
        case isFalse ha => exact if_neg ha
      · rfl
    cases haware : srv.aware with
    | true =>
      rw [haware, if_pos rfl] at hfirst
      obtain ⟨blk, hblk⟩ := receive_plain_aware haware hu.chunk hm
      right
      refine ⟨0, blk, Nat.zero_le _, by decide, ?_⟩
      rw [unit_of_some hfirst, show (0 : UInt32).toNat = 0 from rfl, Nat.zero_mul]
      exact hblk
    | false =>
      rw [haware] at hfirst
      obtain ⟨h1, h2⟩ := receive_plain_unaware haware (hu.whole haware) hm
      exact .inl ⟨h1, .inr ⟨hfirst, h2⟩⟩
  | some blk =>
    rw [hb] at hm
    obtain ⟨v, ha, rfl, hfirst⟩ : ∃ v, blockAccepted 0 v ∧ blk = ⟨0, 0, v, 0⟩ ∧
        srv.firstSize size = some (min (wireSize v) srv.maxBlockSize) := by
      unfold firstOption at hb
      unfold Server.firstSize
      split at hb
      case h_1 v =>
        split at hb
        case isTrue ha =>
          cases hb
          exact ⟨v, ha, rfl, if_pos ha⟩
        case isFalse => cases hb
      case h_2 => cases hb
    have hin : (0 : UInt32).toNat * wireSize v < srv.representation.length ∨
        srv.aware = true ∧ (0 : UInt32).toNat * wireSize v = 0 := by
      rw [show (0 : UInt32).toNat = 0 from rfl, Nat.zero_mul]
      cases haware : srv.aware with
      | true => exact .inr ⟨rfl, rfl⟩
      | false => exact .inl (List.length_pos_of_ne_nil (hu.nonempty _ hfirst haware))
    obtain ⟨blk, hblk⟩ := receive_block hu.chunk hu.whole ha hm hin
    right
    refine ⟨0, blk, Nat.zero_le _, by decide, ?_⟩
    rw [unit_of_some hfirst]
    rw [show (0 : UInt32).toNat = 0 from rfl, Nat.zero_mul] at hblk ⊢
    exact hblk

theorem receive_next (hu : UnitsAgree srv chunkSize size) {num : UInt32} (h0 : 0 < num.toNat)
    (hle : num.toNat ≤ blockNum.toNat) (ha : blockAccepted num chunkSize)
    (hin : num.toNat * srv.unit size < srv.representation.length)
    (hm : m.block2 = some (Block.unpack (Block.pack ⟨num, 0, chunkSize, 0⟩))) :
    ReplyOk srv size blockNum (srv.receive m true) := by
  cases hfirst : srv.firstSize size with
  | none =>
    rw [unit_of_none hfirst] at hin
    have := Nat.le_mul_of_pos_left srv.representation.length h0
    omega
  | some b =>
    rw [unit_of_some hfirst] at hin
    have hmore : b < srv.representation.length := (Nat.le_mul_of_pos_left b h0).trans_lt hin
    rcases hu.size b hfirst with h | h | h | h
    · omega
    · rw [blockAccepted_iff] at ha h
      exact absurd ⟨ha.1, ha.2.1, by decide⟩ h
    · -- the units agree
      rw [← h] at hin
      obtain ⟨blk, hblk⟩ := receive_block hu.chunk hu.whole ha hm (.inl hin)
      right
      refine ⟨num, blk, hle, (blockAccepted_iff.1 ha).2.2, ?_⟩
      rw [h, min_eq_left (firstSize_le hfirst)] at hblk
      rw [unit_of_some hfirst]
      exact hblk
    · -- the second block in the client's unit is out of scope
      have hout : srv.representation.length ≤ num.toNat * wireSize chunkSize :=
        h.trans (Nat.le_mul_of_pos_left _ h0)
      exact .inl ⟨receive_out hu.whole ha hm hout h0, .inl (by omega)⟩

/-! ## The client -/

variable {x x' : Transfer} {f : Fresh}

theorem payloads_append (es es' : List StatusEvent) : payloads (es ++ es') = payloads es ++ payloads es' := by
  unfold payloads
  rw [List.filter_append, List.flatMap_append]

theorem progressRequest_ok (hx : Collected srv chunkSize size x)
    (hin : 0 < x.client.blockNum.toNat → x.client.blockNum.toNat * srv.unit size < srv.representation.length) :
    Collected srv chunkSize size { x with
      client := (RequestState.progressRequest chunkSize x.client f).1
      requests := x.requests ++ (RequestState.progressRequest chunkSize x.client f).2 } := by
  unfold RequestState.progressRequest
  cases f.free with
  | false =>
    simp only [Bool.false_eq_true, if_false, List.append_nil]
    exact { hx with }
  | true =>
    simp only [if_true]
    generalize hreq : (if x.client.blockNum > 0 then
      (⟨f.mid, 1, x.client.request, []⟩ : Msg).setHeaderBlock2 x.client.blockNum 0 chunkSize
      else ⟨f.mid, 1, x.client.request, []⟩) = request
    have hok : RequestOk srv chunkSize size x.client.blockNum request.block2 := by
      rw [← hreq]
      split
      case isFalse => exact hx.request
      case isTrue hpos =>
        unfold Msg.setHeaderBlock2
        split
        case isFalse => exact hx.request
        case isTrue ha =>
          have hpos' : 0 < x.client.blockNum.toNat := by
            rw [gt_iff_lt, UInt32.lt_iff_toNat_lt] at hpos
            exact hpos
          exact .inr ⟨x.client.blockNum, hpos', le_refl _, ha, hin hpos', rfl⟩
    constructor
    case delivered => exact hx.delivered
    case request => exact hok
    case replies => exact hx.replies
    case requests =>
      intro m hm
      rcases List.mem_append.1 hm with hm | hm
      · exact hx.requests m hm
      · rw [List.mem_singleton] at hm
        rw [hm]
        exact ⟨request.block2, hok, rfl⟩

theorem progressRequest_same (s : RequestState) : (RequestState.progressRequest chunkSize s f).1.blockNum = s.blockNum ∧
    (RequestState.progressRequest chunkSize s f).1.resBlock = s.resBlock ∧ (RequestState.progressRequest chunkSize s f).1.more = s.more ∧
    (RequestState.progressRequest chunkSize s f).1.status = s.status := by
  unfold RequestState.progressRequest
  split <;> exact ⟨rfl, rfl, rfl, rfl⟩

theorem continueRequest_ok (hx : Collected srv chunkSize size x) (hpos : 0 < x.client.blockNum.toNat)
    (hclosed : x.client.transaction = none) (hstatus : x.client.status ≠ some .finished)
    (hmore : x.client.more ≠ 0 → x.client.blockNum.toNat * srv.unit size < srv.representation.length ∧
      x.client.resBlock.toNat < x.client.blockNum.toNat)
    (hlast : x.client.more = 0 → payloads x.events = srv.representation) :
    TransferInv srv chunkSize size { x with
      client := (continueRequest chunkSize x.client f).1
      requests := x.requests ++ (continueRequest chunkSize x.client f).2.1
      events := x.events ++ (continueRequest chunkSize x.client f).2.2 } := by
  unfold continueRequest
  by_cases hm : x.client.more ≠ 0
  · obtain ⟨hin, hres⟩ := hmore hm
    rw [if_pos hm]
    split
    · -- the next request
      dsimp only
      rw [List.append_nil]
      obtain ⟨hnum, hresb, hm', hst⟩ := @progressRequest_same chunkSize f x.client
      refine { progressRequest_ok (f := f) hx fun _ => hin with fresh := ?_, going := ?_, finished := ?_ }
      · intro h0
        dsimp only at h0
        rw [hnum] at h0
        omega
      · intro _ _
        dsimp only
        rw [hnum, hresb, hm']
        exact ⟨hm, hin, hres⟩
      · intro hfin
        dsimp only at hfin
        rw [hst] at hfin
        exact absurd hfin hstatus
    · -- too many wrong blocks
      dsimp only
      rw [List.append_nil]
      refine { hx with delivered := ?_, fresh := ?_, going := ?_, finished := ?_ }
      · dsimp only
        rw [payloads_append, hx.delivered]
        exact List.append_nil _
      · intro h0
        dsimp only at h0
        omega
      · exact fun _ _ => ⟨hm, hin, hres⟩
      · exact nofun
  · have hdone := hlast (by simpa using hm)
    rw [if_neg hm]
    dsimp only
    rw [List.append_nil]
    have hevents : payloads (x.events ++ [(RequestStatus.finished, [])]) = payloads x.events := by
      rw [payloads_append]
      exact List.append_nil _
    refine { hx with delivered := ?_, fresh := ?_, going := ?_, finished := ?_ }
    · dsimp only
      rw [hevents]
      exact hx.delivered
    · intro h0
      dsimp only at h0
      omega
    · exact fun _ h => absurd rfl h
    · intro _
      dsimp only
      rw [hevents]
      exact ⟨hclosed, hdone⟩

theorem wrongBlock_ok (hx : TransferInv srv chunkSize size x) (hstatus : x.client.status ≠ some .finished)
    (hpos : 0 < x.client.blockNum.toNat) {s : RequestState} (hnum : s.blockNum = x.client.blockNum)
    (hreq : s.request = x.client.request) (hclosed : s.transaction = none) (hst : s.status = x.client.status)
    (hmore : s.more ≠ 0) (hres : s.resBlock.toNat < s.blockNum.toNat) :
    TransferInv srv chunkSize size { x with
      client := (continueRequest chunkSize s f).1
      requests := x.requests ++ (continueRequest chunkSize s f).2.1
      events := x.events ++ (continueRequest chunkSize s f).2.2 } := by
  obtain ⟨-, hin, -⟩ := hx.going hpos hstatus
  refine continueRequest_ok (x := { x with client := s }) ?_ ?_ hclosed ?_ ?_ fun h => absurd h hmore
  · constructor
    case delivered => exact hnum ▸ hx.delivered
    case request => exact hnum ▸ hreq ▸ hx.request
    case requests => exact hnum ▸ hx.requests
    case replies => exact hnum ▸ hx.replies
  · exact hnum ▸ hpos
  · exact hst ▸ hstatus
  · exact fun _ => ⟨hnum ▸ hin, hres⟩

theorem nextBlock_ok (hx : TransferInv srv chunkSize size x) {s : RequestState} {st : RequestStatus} {payload : List UInt8}
    (hnum : s.blockNum.toNat = x.client.blockNum.toNat + 1) (hreq : s.request = x.client.request)
    (hclosed : s.transaction = none) (hst : s.status = some st) (hcase : st = .more ∨ st = .response)
    (hpayload : payloads x.events ++ payload = srv.representation.take (s.blockNum.toNat * srv.unit size))
    (hmore : s.more ≠ 0 → s.blockNum.toNat * srv.unit size < srv.representation.length ∧
      s.resBlock.toNat < s.blockNum.toNat)
    (hlast : s.more = 0 → srv.representation.length ≤ s.blockNum.toNat * srv.unit size) :
    TransferInv srv chunkSize size { x with
      client := (continueRequest chunkSize s f).1
      requests := x.requests ++ (continueRequest chunkSize s f).2.1
      events := x.events ++ (st, payload) :: (continueRequest chunkSize s f).2.2 } := by
  have hevents : payloads (x.events ++ [(st, payload)]) = payloads x.events ++ payload := by
    rw [payloads_append]
    congr 1
    unfold payloads
    rcases hcase with rfl | rfl <;> simp
  rw [List.append_cons]
  refine continueRequest_ok (x := { x with client := s, events := x.events ++ [(st, payload)] }) ?_ ?_ hclosed ?_ hmore ?_
  · constructor
    case delivered => exact hevents.trans hpayload
    case request => exact hreq ▸ hx.request.mono (show x.client.blockNum.toNat ≤ s.blockNum.toNat by omega)
    case requests =>
      intro m hm
      obtain ⟨b, hb, heq⟩ := hx.requests m hm
      exact ⟨b, hb.mono (by dsimp only; omega), heq⟩
    case replies => exact fun r hr => (hx.replies r hr).mono (by dsimp only; omega)
  · dsimp only
    omega
  · dsimp only
    rw [hst]
    rcases hcase with rfl | rfl <;> exact nofun
  · intro h
    rw [hevents, hpayload, List.take_of_length_le (hlast h)]

theorem callback_ok (hx : TransferInv srv chunkSize size x) (hopen : x.client.transaction ≠ none) {r : Reply}
    (hr : ReplyOk srv size x.client.blockNum r) :
    TransferInv srv chunkSize size { x with
      client := (coapRequestCallback chunkSize { x.client with transaction := none } r.toMsg f).1
      requests := x.requests ++ (coapRequestCallback chunkSize { x.client with transaction := none } r.toMsg f).2.1
      events := x.events ++ (coapRequestCallback chunkSize { x.client with transaction := none } r.toMsg f).2.2 } := by
  have hstatus : x.client.status ≠ some .finished := fun h => hopen (hx.finished h).1
  have hcase : ∀ {c : Prop} [Decidable c], (if c then RequestStatus.more else .response) = .more ∨
      (if c then RequestStatus.more else .response) = .response := by
    intro c _
    split
    · exact .inl rfl
    · exact .inr rfl
  unfold coapRequestCallback
  rcases hr with ⟨hnone, hr⟩ | ⟨num, blk, hle, hmax, hblk⟩
  · rw [hnone]
    dsimp only
    by_cases hpos : 0 < x.client.blockNum.toNat
    · -- an error in place of a block, the values of the block before are still there
      obtain ⟨hm, -, hres⟩ := hx.going hpos hstatus
      rw [if_neg (by rw [← UInt32.toNat_inj]; omega)]
      exact wrongBlock_ok hx hstatus hpos rfl rfl rfl rfl hm hres
    · obtain ⟨hwhole, hpayload⟩ := hr.resolve_left hpos
      have hzero : x.client.blockNum = 0 := by
        rw [← UInt32.toNat_inj]
        show _ = 0
        omega
      obtain ⟨hres, hm⟩ := hx.fresh (by omega)
      have hunit := unit_of_none hwhole
      rw [if_pos (by rw [hres, hzero])]
      refine nextBlock_ok hx ?_ rfl rfl rfl hcase ?_ ?_ ?_
      · dsimp only
        rw [hzero]
        rfl
      · dsimp only
        rw [hx.delivered, hpayload, hzero, hunit, show (0 : UInt32).toNat = 0 from rfl,
          show (0 + 1 : UInt32).toNat = 1 from rfl, Nat.zero_mul, Nat.one_mul, List.take_zero, List.take_length]
        rfl
      · exact fun h => absurd hm h
      · intro _
        dsimp only
        rw [hzero, hunit, show (0 + 1 : UInt32).toNat = 1 from rfl, Nat.one_mul]
  · rw [hblk.option]
    dsimp only
    by_cases heq : num = x.client.blockNum
    · -- the next block
      rw [if_pos (by rw [hblk.num, heq])]
      have hsucc : (x.client.blockNum + 1).toNat = x.client.blockNum.toNat + 1 := by
        rw [UInt32.toNat_add, show (1 : UInt32).toNat = 1 from rfl]
        rw [heq] at hmax
        omega
      have hmul := Nat.add_one_mul x.client.blockNum.toNat (srv.unit size)
      have hflag := hblk.more
      rw [heq] at hflag
      refine nextBlock_ok hx hsucc rfl rfl rfl hcase ?_ ?_ ?_
      · dsimp only
        rw [hx.delivered, hblk.payload, hsucc, heq]
        exact take_block _ _ _
      · intro h
        dsimp only at h ⊢
        rw [hsucc, hblk.num, heq]
        have := hflag.1 h
        omega
      · intro h
        dsimp only at h ⊢
        rw [hsucc]
        have : ¬ _ := fun hlt => hflag.2 hlt h
        omega
    · -- an earlier block again: more is to come behind it
      have hlt : num.toNat < x.client.blockNum.toNat := by
        have : num.toNat ≠ x.client.blockNum.toNat := fun h => heq (UInt32.toNat_inj.1 h)
        omega
      obtain ⟨-, hin, -⟩ := hx.going (by omega) hstatus
      have hmul := Nat.mul_le_mul_right (srv.unit size) (show num.toNat + 1 ≤ x.client.blockNum.toNat by omega)
      rw [Nat.succ_mul] at hmul
      rw [if_neg (by rw [hblk.num]; exact heq)]
      refine wrongBlock_ok hx hstatus (by omega) rfl rfl rfl rfl (hblk.more.2 (by omega)) ?_
      dsimp only
      rw [hblk.num]
      exact hlt

/-! ## Whole transfers -/

theorem start_ok (srv : Server) (chunkSize : UInt16) (size : Option UInt16) (f : Fresh) :
    TransferInv srv chunkSize size (Transfer.start chunkSize size f) := by
  have hrequest : (firstRequest size f.mid).block2 = firstOption size := by
    cases size with
    | none => rfl
    | some v =>
      unfold firstRequest firstOption Msg.setHeaderBlock2
      by_cases ha : blockAccepted 0 v
      · simp [ha]
      · simp [ha]
  unfold Transfer.start
  dsimp only
  rw [hrequest]
  have hx : Collected srv chunkSize size ⟨⟨none, firstOption size, 0, 0, 0, 0, none⟩, [], [], []⟩ := by
    constructor
    case delivered =>
      show [] = List.take (0 * _) _
      rw [Nat.zero_mul]
      rfl
    case request => exact .inl rfl
    case requests => exact nofun
    case replies => exact nofun
  have hok := progressRequest_ok (f := f) hx fun h => absurd h (lt_irrefl 0)
  obtain ⟨hnum, hres, hm, hst⟩ := @progressRequest_same chunkSize f ⟨none, firstOption size, 0, 0, 0, 0, none⟩
  refine { hok with fresh := ?_, going := ?_, finished := ?_ }
  · intro _
    dsimp only
    rw [hres, hm]
    exact ⟨rfl, rfl⟩
  · intro h
    dsimp only at h
    rw [hnum] at h
    exact absurd h (lt_irrefl 0)
  · intro h
    dsimp only at h
    rw [hst] at h
    cases h

theorem receive_ok (hu : UnitsAgree srv chunkSize size) {b : Option Block} {free : Bool}
    (hb : RequestOk srv chunkSize size blockNum b) (hm : m.block2 = b.map fun b => Block.unpack b.pack)
    (hfree : blockNum = 0 → free = true) : ReplyOk srv size blockNum (srv.receive m free) := by
  cases free with
  | false =>
    have hpos : 0 < blockNum.toNat := by
      by_contra hcon
      have hzero : blockNum = 0 := by
        rw [← UInt32.toNat_inj]
        show _ = 0
        omega
      cases hfree hzero
    exact .inl ⟨rfl, .inl hpos⟩
  | true =>
    rcases hb with rfl | ⟨num, h0, hle, ha, hin, rfl⟩
    · exact receive_first hu hm
    · exact receive_next hu h0 hle ha hin hm

/-- A request that arrives is answered, a response that arrives is passed to the callback if its transaction
is open, and a timeout ends the transfer. -/
theorem step_ok (hu : UnitsAgree srv chunkSize size) {a : Arrives} (hx : TransferInv srv chunkSize size x)
    (hfree : ServerFree x a) (hstep : x.step srv chunkSize a = some x') : TransferInv srv chunkSize size x' := by
  cases a with
  | request i free =>
    obtain ⟨m, hm, rfl⟩ := Option.map_eq_some_iff.1 hstep
    obtain ⟨b, hb, hm2⟩ := hx.requests m (List.mem_of_getElem? hm)
    refine { hx with replies := fun r hr => ?_ }
    rcases List.mem_append.1 hr with hr | hr
    · exact hx.replies r hr
    · rw [List.mem_singleton.1 hr]
      exact receive_ok hu hb hm2 hfree
  | reply i f =>
    obtain ⟨r, hr, rfl⟩ := Option.map_eq_some_iff.1 hstep
    dsimp only
    by_cases hopen : x.client.transaction = some r.mid
    · rw [if_pos hopen]
      exact callback_ok hx (by rw [hopen]; exact nofun) (hx.replies r (List.mem_of_getElem? hr))
    · rw [if_neg hopen]
      exact hx
  | timeout =>
    by_cases hopen : x.client.transaction = none
    · simp [Transfer.step, hopen] at hstep
    · simp only [Transfer.step, hopen, if_false, Option.some.injEq] at hstep
      subst hstep
      have hstatus : x.client.status ≠ some .finished := fun h => hopen (hx.finished h).1
      refine { hx with delivered := ?_, fresh := hx.fresh, going := ?_, finished := nofun }
      · dsimp only
        rw [payloads_append, hx.delivered]
        exact List.append_nil _
      · exact fun hpos _ => hx.going hpos hstatus

theorem TransferInv.ok (hx : TransferInv srv chunkSize size x) : TransferOk srv x := by
  refine ⟨fun h => (hx.finished h).2, fun r hr b hb => ?_⟩
  rcases hx.replies r hr with ⟨hnone, -⟩ | ⟨num, blk, -, -, hblk⟩
  · rw [hnone] at hb
    cases hb
  · obtain rfl : blk = b := Option.some.inj (hblk.option.symm.trans hb)
    rw [hblk.num, hblk.size, hblk.offset, hblk.payload]
    exact ⟨rfl, List.take_prefix _ _⟩

end

/-! ## Transfers of 100 bytes -/

def chunkServer : Server := ⟨64, true, true, List.replicate 100 7⟩

def exchanges (n : Nat) : List Arrives := (List.range n).flatMap fun i => [.request i true, .reply i ⟨UInt16.ofNat (i + 2), true⟩]

end Contiki.Coap
