/-
The rounds of the parser over the bytes of created IEs: what is read back from each, and where the parser goes on.
-/
import Contiki.Frame802154e.Create
import Contiki.Frame802154e.Parse
import Mathlib.Data.Nat.Bitwise

namespace Contiki.Frame802154e

open Contiki.Lib

variable {cfg : Config} {m : Mem} {s s' : Parser} {p k n d len : Nat} {st : ParsingState} {nested : Int} {v old ies : Ies}

/-! ## Words -/

theorem load_bytes16 (h : Mem.Holds p (bytes16 n) m) (hn : n < 65536) : Mem.load 2 p m = n := by
  obtain ⟨h0, h1, -⟩ := h
  unfold Mem.load Mem.load Mem.load
  rw [h0, h1, UInt8.toNat_ofNat', UInt8.toNat_ofNat']
  omega

theorem read16_of_holds {w : UInt16} (h : Mem.Holds p (bytes16 w.toNat) m) : read16 m p = w := by
  unfold read16
  rw [load_bytes16 h w.toNat_lt]
  exact UInt16.ofNat_toNat

theorem bit_iff (w : UInt16) {i : Nat} (hi : i < 16) : w &&& UInt16.ofNat (2 ^ i) ≠ 0 ↔ w.toNat / 2 ^ i % 2 = 1 := by
  have hpow : (UInt16.ofNat (2 ^ i)).toNat = 2 ^ i := by
    rw [UInt16.toNat_ofNat', Nat.mod_eq_of_lt]
    exact Nat.pow_lt_pow_right (by decide) hi
  have hpos : 0 < 2 ^ i := Nat.two_pow_pos i
  rw [Ne, ← UInt16.toNat_inj, UInt16.toNat_and, hpow, Nat.and_two_pow, Nat.testBit_eq_decide_div_mod_eq]
  by_cases h : w.toNat / 2 ^ i % 2 = 1
  · simp [h]
  · simp [h]

theorem or_high {a b : Nat} (ha : a < 4096) : a ||| b * 4096 = a + b * 4096 := by
  have := Nat.two_pow_add_eq_or_of_lt (i := 12) ha b
  rw [Nat.or_comm, Nat.mul_comm, ← this, Nat.add_comm]

theorem and_low (w : UInt16) : (w &&& 0x0fff).toNat = w.toNat % 4096 := by
  rw [UInt16.toNat_and]
  exact Nat.and_two_pow_sub_one_eq_mod w.toNat 12

theorem toNat_toUInt16 (x : Int16) : (x.toUInt16.toNat : Int) = if x.toInt < 0 then x.toInt + 65536 else x.toInt := by
  have h : x.toInt = if 2 * x.toUInt16.toNat < 65536 then (x.toUInt16.toNat : Int) else x.toUInt16.toNat - 65536 :=
    BitVec.toInt_eq_toNat_cond x.toBitVec
  have := x.toUInt16.toNat_lt
  split at h
  · split
    · omega
    · omega
  · split
    · omega
    · omega

theorem timeSyncField_toNat (v : Ies) : (timeSyncField v).toNat =
    v.ieTimeCorrection.toUInt16.toNat % 4096 + if v.ieIsNack ≠ 0 then 0x8000 else 0 := by
  unfold timeSyncField
  dsimp only
  split
  · rw [UInt16.toNat_or, and_low]
    exact or_high (b := 8) (Nat.mod_lt _ (by decide))
  · exact and_low _

theorem driftOf_timeSyncField (h : -2048 ≤ v.ieTimeCorrection.toInt) (h' : v.ieTimeCorrection.toInt ≤ 2047) :
    driftOf (timeSyncField v) = v.ieTimeCorrection := by
  have hw := toNat_toUInt16 v.ieTimeCorrection
  have hfield := timeSyncField_toNat v
  have hbit : timeSyncField v &&& 0x0800 ≠ 0 ↔ (timeSyncField v).toNat / 2048 % 2 = 1 := bit_iff _ (i := 11) (by decide)
  have hinj : ∀ w : UInt16, w.toNat = v.ieTimeCorrection.toUInt16.toNat → w.toInt16 = v.ieTimeCorrection := by
    intro w he
    rw [UInt16.toNat_inj] at he
    rw [he, Int16.toInt16_toUInt16]
  unfold driftOf
  rw [if_congr hbit rfl rfl]
  split
  · apply hinj
    have hmod : (timeSyncField v ||| 0xf000).toNat % 4096 = (timeSyncField v).toNat % 4096 := by
      rw [UInt16.toNat_or]
      exact (Nat.or_mod_two_pow (a := (timeSyncField v).toNat) (b := 0xf000) (n := 12)).trans (Nat.or_zero _)
    have hdiv : (timeSyncField v ||| 0xf000).toNat / 4096 = (timeSyncField v).toNat / 4096 ||| 15 := by
      rw [UInt16.toNat_or]
      exact Nat.or_div_two_pow (a := (timeSyncField v).toNat) (b := 0xf000) (n := 12)
    have htop : (timeSyncField v).toNat / 4096 ||| 15 = 15 := by
      split at hfield
      · rw [show (timeSyncField v).toNat / 4096 = 8 by omega]
        rfl
      · rw [show (timeSyncField v).toNat / 4096 = 0 by omega]
        rfl
    split at hw
    · split at hfield
      · omega
      · omega
    · split at hfield
      · omega
      · omega
  · apply hinj
    rw [and_low]
    split at hw
    · split at hfield
      · omega
      · omega
    · split at hfield
      · omega
      · omega

theorem nack_of_timeSyncField (v : Ies) :
    (if timeSyncField v &&& 0x8000 ≠ 0 then 1 else 0 : UInt8) = if v.ieIsNack ≠ 0 then 1 else 0 := by
  have hfield := timeSyncField_toNat v
  have hbit : timeSyncField v &&& 0x8000 ≠ 0 ↔ (timeSyncField v).toNat / 32768 % 2 = 1 := bit_iff _ (i := 15) (by decide)
  refine if_congr (hbit.trans ?_) rfl rfl
  split at hfield
  · rename_i h
    exact iff_of_true (by omega) h
  · rename_i h
    exact iff_of_false (by omega) h

/-! ## Pieces -/

theorem holds_flatMap {α : Type} {f : α → List UInt8} {size : Nat} (hsize : ∀ x, (f x).length = size) :
    ∀ {l : List α} {a : Nat}, Mem.Holds a (l.flatMap f) m → ∀ (i : Nat) (h : i < l.length),
      Mem.Holds (a + i * size) (f l[i]) m
  | [], _, _, i, h => absurd h (Nat.not_lt_zero i)
  | x :: l, a, hl, i, h => by
    rw [List.flatMap_cons, Mem.holds_append, hsize] at hl
    cases i with
    | zero =>
      rw [Nat.zero_mul, Nat.add_zero]
      exact hl.1
    | succ i =>
      have := holds_flatMap hsize hl.2 i (Nat.lt_of_succ_lt_succ h)
      rwa [Nat.add_assoc, Nat.add_comm size, ← Nat.succ_mul] at this

theorem link_of_holds {l : Link} (h : Mem.Holds p (linkBytes l) m) :
    (⟨read16 m p, read16 m (p + 2), m (p + 4)⟩ : Link) = l := by
  unfold linkBytes at h
  rw [Mem.holds_append, Mem.holds_append] at h
  obtain ⟨⟨htimeslot, hchannel⟩, hoptions, -⟩ := h
  have hchannel : read16 m (p + 2) = l.channelOffset := read16_of_holds hchannel
  have hoptions : m (p + 4) = l.linkOptions := hoptions
  rw [read16_of_holds htimeslot, hchannel, hoptions]

/-- The values that a receiver has after an IE: in the fields that the IE carries those that it was created from. -/
def received (ie : Ie) (v old : Ies) : Ies :=
  match ie with
  | .ackNackTimeCorrection =>
    { old with ieTimeCorrection := v.ieTimeCorrection, ieIsNack := if v.ieIsNack ≠ 0 then 1 else 0 }
  | .tschSynchronization => { old with ieAsn := v.ieAsn, ieJoinPriority := v.ieJoinPriority }
  | .tschSlotframeAndLink =>
    if v.ieTschSlotframeAndLink.numSlotframes.toNat = 0 then old
    else { old with
      ieTschSlotframeAndLink := { v.ieTschSlotframeAndLink with
        links := fun i =>
          if i.val < v.ieTschSlotframeAndLink.numLinks.toNat then v.ieTschSlotframeAndLink.links i
          else old.ieTschSlotframeAndLink.links i } }
  | .tschTimeslot =>
    if v.ieTschTimeslotId = 0 then { old with ieTschTimeslotId := v.ieTschTimeslotId }
    else { old with ieTschTimeslotId := v.ieTschTimeslotId, ieTschTimeslot := v.ieTschTimeslot }
  | .tschChannelHoppingSequence =>
    if v.ieChannelHoppingSequenceId = 0 then { old with ieChannelHoppingSequenceId := v.ieChannelHoppingSequenceId }
    else { old with
      ieChannelHoppingSequenceId := v.ieChannelHoppingSequenceId
      ieHoppingSequenceLen := v.ieHoppingSequenceLen
      ieHoppingSequenceList := fun i =>
        if i < v.ieHoppingSequenceLen.toNat then v.ieHoppingSequenceList i else old.ieHoppingSequenceList i }
  | _ => old

theorem slotframeAt_of_holds {sl : SlotframeAndLinks} (hone : sl.numSlotframes.toNat = 1)
    (h : Mem.Holds p (slotframeBytes sl) m) (old : SlotframeAndLinks) : slotframeAt m p old =
      { sl with links := fun i => if i.val < sl.numLinks.toNat then sl.links i else old.links i } := by
  unfold slotframeBytes at h
  rw [if_pos hone, Mem.holds_append, Mem.holds_append, Mem.holds_append] at h
  obtain ⟨⟨⟨⟨hslotframes, hhandle, -⟩, hsize⟩, hnumLinks, -⟩, hlinks⟩ := h
  have hsize : read16 m (p + 2) = sl.slotframeSize := read16_of_holds hsize
  have hnumLinks : m (p + 4) = sl.numLinks := hnumLinks
  have hlinks : ∀ i : Fin FRAME802154E_IE_MAX_LINKS, i.val < sl.numLinks.toNat →
      Mem.Holds (p + 5 + i.val * 5) (linkBytes (sl.links i)) m := by
    intro i hi
    have hlt : i.val < ((List.finRange FRAME802154E_IE_MAX_LINKS).take sl.numLinks.toNat).length := by
      rw [List.length_take, List.length_finRange]
      exact lt_min hi i.isLt
    have := holds_flatMap (fun i => linkBytes_length (sl.links i)) hlinks i.val hlt
    rwa [List.getElem_take, List.getElem_finRange] at this
  unfold slotframeAt
  rw [hslotframes, hhandle, hnumLinks, hsize]
  refine congrArg (SlotframeAndLinks.mk _ _ _ _) (funext fun i => ?_)
  split
  · rename_i hi
    exact link_of_holds (hlinks i hi)
  · rfl

theorem timeslot_of_holds (hid : v.ieTschTimeslotId ≠ 0) (h : Mem.Holds p (timeslotBytes v) m) :
    m p = v.ieTschTimeslotId ∧ (fun i : Fin tschTsElementsCount => read16 m (p + 1 + 2 * i.val)) = v.ieTschTimeslot := by
  unfold timeslotBytes at h
  rw [if_pos hid, Mem.holds_cons] at h
  refine ⟨h.1, funext fun i => read16_of_holds ?_⟩
  have := holds_flatMap (fun i => bytes16_length _) h.2 i.val (by rw [List.length_finRange]; exact i.isLt)
  rwa [List.getElem_finRange, Nat.mul_comm] at this

theorem hopping_of_holds (hid : v.ieChannelHoppingSequenceId ≠ 0) (h : Mem.Holds p (hoppingBytes v) m) :
    m p = v.ieChannelHoppingSequenceId ∧ read16 m (p + 8) = v.ieHoppingSequenceLen ∧
      ∀ i < v.ieHoppingSequenceLen.toNat, m (p + 10 + i) = v.ieHoppingSequenceList i := by
  unfold hoppingBytes hoppingContent at h
  rw [if_pos hid, Mem.holds_append, Mem.holds_append, Mem.holds_append] at h
  obtain ⟨⟨⟨⟨hid, -⟩, hlen⟩, hlist⟩, -⟩ := h
  refine ⟨hid, read16_of_holds hlen, fun i hi => ?_⟩
  rw [Mem.holds_iff] at hlist
  have := hlist i (by rw [List.length_map, List.length_range]; exact hi)
  rwa [List.getElem_map, List.getElem_range] at this

/-! ## The place of the parser -/

/-- The parser is in front of the position `p`, with `k` bytes left. -/
structure Front (p k : Nat) (st : ParsingState) (nested : Int) (ies : Ies) (s : Parser) : Prop where
  pos : s.cursor.pos = p
  bufSize : s.bufSize.toNat = k
  parsingState : s.parsingState = st
  nestedMlmeLen : s.nestedMlmeLen = nested
  ies : s.ies = ies

theorem Front.peek (h : Front p k st nested old s) (i j : Nat) : Front p k st nested old (s.peek i j) :=
  ⟨h.pos, h.bufSize, h.parsingState, h.nestedMlmeLen, h.ies⟩

theorem Front.setIes (h : Front p k st nested old s) (ies : Ies) : Front p k st nested ies (s.setIes ies) :=
  ⟨h.pos, h.bufSize, h.parsingState, h.nestedMlmeLen, rfl⟩

theorem Front.store (h : Front p k st nested old s) (i j : Nat) (ies : Ies) :
    Front p k st nested ies (s.store i j ies) :=
  ⟨h.pos, h.bufSize, h.parsingState, h.nestedMlmeLen, rfl⟩

theorem Front.advance (len : Nat) (h : Front p (len + k) st nested old s) : Front (p + len) k st nested old (s.advance len) := by
  have hlt := s.bufSize.toNat_lt
  have hbuf := h.bufSize
  have hlen : (UInt8.ofNat len).toNat = len := by
    rw [UInt8.toNat_ofNat', Nat.mod_eq_of_lt (by omega)]
  refine ⟨congrArg (· + len) h.pos, ?_, h.parsingState, h.nestedMlmeLen, h.ies⟩
  unfold Parser.advance
  dsimp only
  rw [UInt8.toNat_sub_of_le, hlen]
  · omega
  · rw [UInt8.le_iff_toNat_le, hlen]
    omega

theorem parseRound_descriptor (cfg : Config) (h : Front p (2 + k) st nested old s) (hd : Mem.Holds p (bytes16 d) m) (hlt : d < 65536) :
    parseRound cfg m s = ieRound cfg m d s.descriptor ∧ Front (p + 2) k st nested old s.descriptor := by
  have hbuf := h.bufSize
  have hsize : ¬ s.bufSize.toNat < 2 := by omega
  constructor
  · unfold parseRound
    rw [if_neg, if_neg hsize, h.pos, load_bytes16 hd hlt]
    rintro hzero
    rw [hzero] at hsize
    exact hsize (by decide)
  · refine ⟨congrArg (· + 2) h.pos, ?_, h.parsingState, h.nestedMlmeLen, h.ies⟩
    rw [bufSize_descriptor hsize]
    omega

/-! ## Header IEs -/

theorem headerBits (len id : Nat) (hlen : len < 0x80) (hid : id < 0x100) : ieType (len + id * 0x80) = 0 ∧
    headerLen (len + id * 0x80) = len ∧ headerId (len + id * 0x80) = id := by
  unfold ieType headerLen headerId
  omega

theorem round_ackNack (h : Front p (4 + k) .headerIe nested old s)
    (hm : Mem.Holds p (ieBytes .ackNackTimeCorrection v) m) (hlo : -2048 ≤ v.ieTimeCorrection.toInt)
    (hhi : v.ieTimeCorrection.toInt ≤ 2047) : ∃ s', parseRound cfg m s = .inl s' ∧
      Front (p + 4) k .headerIe nested (received .ackNackTimeCorrection v old) s' := by
  unfold ieBytes at hm
  rw [Mem.holds_append] at hm
  obtain ⟨hround, hfront⟩ := parseRound_descriptor cfg (k := 2 + k) (by rwa [← Nat.add_assoc]) hm.1 (by decide)
  obtain ⟨htype, hlen, hid⟩ := headerBits 2 HEADER_IE_ACK_NACK_TIME_CORRECTION (by decide) (by decide)
  have hfield : read16 m s.descriptor.cursor.pos = timeSyncField v := by
    rw [hfront.pos]
    exact read16_of_holds hm.2
  have hparse : frame802154eParseHeaderIe m 2 HEADER_IE_ACK_NACK_TIME_CORRECTION s.descriptor =
      ((s.descriptor.peek 0 2).setIes (received .ackNackTimeCorrection v old), true) := by
    unfold frame802154eParseHeaderIe
    rw [if_pos ⟨rfl, rfl⟩, hfield]
    dsimp only
    rw [nack_of_timeSyncField, driftOf_timeSyncField hlo hhi, hfront.ies]
    rfl
  refine ⟨_, hround.trans ?_, ((hfront.peek 0 2).setIes _).advance 2⟩
  unfold ieRound
  rw [hfront.parsingState]
  dsimp only
  unfold headerRound
  rw [htype, hlen, hid]
  dsimp only
  rw [hparse, hfront.bufSize, if_neg (by decide), if_neg (by decide), if_neg (by decide), if_neg (by omega)]
  rfl

theorem round_headerListTermination1 (h : Front p (2 + k) .headerIe nested old s)
    (hm : Mem.Holds p (ieBytes .headerListTermination1 v) m) : ∃ s', parseRound cfg m s = .inl s' ∧
      Front (p + 2) k .payloadIe nested { old with iePayloadIeOffset := UInt8.ofNat (p + 2) } s' := by
  obtain ⟨hround, hfront⟩ := parseRound_descriptor cfg h hm (by decide)
  obtain ⟨htype, hlen, hid⟩ := headerBits 0 HEADER_IE_LIST_TERMINATION_1 (by decide) (by decide)
  rw [Nat.zero_add] at htype hlen hid
  refine ⟨{ s.descriptor.setOffset with parsingState := .payloadIe }.advance 0, hround.trans ?_, Front.advance 0 ?_⟩
  · unfold ieRound
    rw [hfront.parsingState]
    dsimp only
    unfold headerRound
    rw [htype, hlen, hid]
    dsimp only
    rw [if_neg (by decide), if_pos rfl, if_pos rfl]
  · refine ⟨hfront.pos, ?_, rfl, hfront.nestedMlmeLen, ?_⟩
    · rw [Nat.zero_add]
      exact hfront.bufSize
    · rw [← hfront.ies, ← hfront.pos]
      rfl

theorem round_headerListTermination2 (h : Front p (2 + k) .headerIe nested old s)
    (hm : Mem.Holds p (ieBytes .headerListTermination2 v) m) : ∃ r, parseRound cfg m s = .inr r ∧ r.ret = (p + 2 : Nat) ∧
      r.parser.ies = { old with iePayloadIeOffset := UInt8.ofNat (p + 2) } := by
  obtain ⟨hround, hfront⟩ := parseRound_descriptor cfg h hm (by decide)
  obtain ⟨htype, hlen, hid⟩ := headerBits 0 HEADER_IE_LIST_TERMINATION_2 (by decide) (by decide)
  rw [Nat.zero_add] at htype hlen hid
  refine ⟨⟨s.descriptor.cursor.pos, s.descriptor.setOffset⟩, hround.trans ?_, ?_, ?_⟩
  · unfold ieRound
    rw [hfront.parsingState]
    dsimp only
    unfold headerRound
    rw [htype, hlen, hid]
    dsimp only
    rw [if_neg (by decide), if_neg (by decide), if_pos rfl, if_pos rfl]
  · exact congrArg Nat.cast hfront.pos
  · rw [← hfront.ies, ← hfront.pos]
    rfl

/-! ## Payload IEs -/

theorem longBits (len id : Nat) (hlen : len < 0x800) (hid : id < 0x10) : len + id * 0x800 + 0x8000 < 65536 ∧
    ieType (len + id * 0x800 + 0x8000) = 1 ∧ longLen (len + id * 0x800 + 0x8000) = len ∧
      longId (len + id * 0x800 + 0x8000) = id := by
  unfold ieType longLen longId
  omega

theorem round_mlme (h : Front p (2 + k) .payloadIe nested old s) (hm : Mem.Holds p (ieBytes .mlme v) m)
    (hle : v.ieMlmeLen.toNat < 0x800) : ∃ s', parseRound cfg m s = .inl s' ∧
      Front (p + 2) k .mlmeSubie v.ieMlmeLen.toNat old s' := by
  unfold ieBytes at hm
  rw [Nat.mod_eq_of_lt hle] at hm
  obtain ⟨hlt, htype, hlen, hid⟩ := longBits _ PAYLOAD_IE_MLME hle (by decide)
  obtain ⟨hround, hfront⟩ := parseRound_descriptor cfg h hm hlt
  refine ⟨{ s.descriptor with parsingState := .mlmeSubie, nestedMlmeLen := v.ieMlmeLen.toNat }.advance 0,
    hround.trans ?_, Front.advance 0 ?_⟩
  · unfold ieRound
    rw [hfront.parsingState]
    dsimp only
    unfold payloadRound
    rw [htype, hlen, hid]
    dsimp only
    rw [if_neg (by decide), if_pos rfl]
  · refine ⟨hfront.pos, ?_, rfl, rfl, hfront.ies⟩
    rw [Nat.zero_add]
    exact hfront.bufSize

theorem round_ietf (hcfg : cfg.withSixtop = true) (h : Front p (2 + (1 + n + k)) .payloadIe nested old s)
    (hm : Mem.Holds p (ieBytes .ietf v) m) (hsub : m (p + 2) = IETF_IE_6TOP) (hn : v.sixtopIeContentLen.toNat = 1 + n) :
    ∃ s', parseRound cfg m s = .inl s' ∧ Front (p + 2 + (1 + n)) k .payloadIe nested
      { old with sixtopIeContentPtr := some (p + 3), sixtopIeContentLen := UInt16.ofNat n } s' := by
  have hlt := s.bufSize.toNat_lt
  have hbuf := h.bufSize
  have hle : 1 + n < 0x800 := by omega
  unfold ieBytes at hm
  rw [hn, Nat.mod_eq_of_lt hle] at hm
  obtain ⟨hlt, htype, hlen, hid⟩ := longBits _ PAYLOAD_IE_IETF hle (by decide)
  obtain ⟨hround, hfront⟩ := parseRound_descriptor cfg h hm hlt
  have hcontent : UInt16.ofNat (1 + n) - 1 = UInt16.ofNat n := by
    have hadd : UInt16.ofNat (n + 1) = UInt16.ofNat n + 1 := UInt16.ofNat_add n 1
    rw [Nat.add_comm, hadd]
    exact UInt16.add_sub_cancel (UInt16.ofNat n) 1
  refine ⟨_, hround.trans ?_, (((hfront.peek 0 1).store 1 (UInt16.ofNat n).toNat _).advance (1 + n))⟩
  unfold ieRound
  rw [hfront.parsingState]
  dsimp only
  unfold payloadRound
  rw [htype, hlen, hid, hfront.pos]
  dsimp only
  rw [if_neg (by decide), if_neg (by decide), if_pos ⟨hcfg, rfl⟩, if_pos hsub, hcontent]
  have hpos : (s.descriptor.peek 0 1).cursor.pos + 1 = p + 3 := congrArg (· + 1) hfront.pos
  have hies : (s.descriptor.peek 0 1).ies = old := hfront.ies
  rw [hpos, hies]

theorem round_payloadListTermination (h : Front p (2 + k) .payloadIe nested old s)
    (hm : Mem.Holds p (ieBytes .payloadListTermination v) m) : ∃ r, parseRound cfg m s = .inr r ∧
      r.ret = (p + 2 : Nat) ∧ r.parser.ies = old := by
  obtain ⟨hround, hfront⟩ := parseRound_descriptor cfg h hm (by decide)
  obtain ⟨-, htype, hlen, hid⟩ := longBits 0 PAYLOAD_IE_LIST_TERMINATION (by decide) (by decide)
  rw [Nat.zero_add] at htype hlen hid
  refine ⟨⟨s.descriptor.cursor.pos, s.descriptor⟩, hround.trans ?_, congrArg Nat.cast hfront.pos, hfront.ies⟩
  unfold ieRound
  rw [hfront.parsingState]
  dsimp only
  unfold payloadRound
  rw [htype, hlen, hid]
  dsimp only
  rw [if_neg (by decide), if_neg (by decide), if_neg, if_pos rfl, if_pos rfl, Nat.cast_zero, add_zero]
  exact fun hietf => absurd hietf.2 (by decide)

/-! ## The IEs of an MLME IE -/

theorem asn_of_holds (h : Mem.Holds p (syncBytes v) m) : (⟨UInt32.ofNat (Mem.load 4 p m), m (p + 4)⟩ : Tsch.Asn) = v.ieAsn ∧
    m (p + 5) = v.ieJoinPriority := by
  obtain ⟨h0, h1, h2, h3, h4, h5, -⟩ := h
  have hpiece : ∀ i : UInt32, (v.ieAsn.ls4b >>> i).toUInt8.toNat = v.ieAsn.ls4b.toNat / 2 ^ (i.toNat % 32) % 256 := by
    intro i
    rw [UInt32.toNat_toUInt8, UInt32.toNat_shiftRight, Nat.shiftRight_eq_div_pow]
  have hlt := v.ieAsn.ls4b.toNat_lt
  have hload : Mem.load 4 p m = v.ieAsn.ls4b.toNat := by
    unfold Mem.load Mem.load Mem.load Mem.load Mem.load
    rw [h0, h1, h2, h3, hpiece, hpiece, hpiece, UInt32.toNat_toUInt8]
    have h8 : (8 : UInt32).toNat % 32 = 8 := rfl
    have h16 : (16 : UInt32).toNat % 32 = 16 := rfl
    have h24 : (24 : UInt32).toNat % 32 = 24 := rfl
    rw [h8, h16, h24]
    omega
  have h4 : m (p + 4) = v.ieAsn.ms1b := h4
  have hls4b : UInt32.ofNat v.ieAsn.ls4b.toNat = v.ieAsn.ls4b := UInt32.ofNat_toNat
  rw [hload, h4, hls4b]
  exact ⟨rfl, h5⟩

theorem parse_synchronization (h : Front p k st nested old s) (hm : Mem.Holds p (syncBytes v) m) :
    ∃ s', frame802154eParseMlmeShortIe m 6 MLME_SHORT_IE_TSCH_SYNCHRONIZATION s = (s', true) ∧
      Front p k st nested (received .tschSynchronization v old) s' := by
  obtain ⟨hasn, hpriority⟩ := asn_of_holds hm
  refine ⟨_, ?_, (h.peek 0 6).setIes _⟩
  unfold frame802154eParseMlmeShortIe
  dsimp only
  rw [if_neg (by decide), if_pos ⟨rfl, rfl⟩, h.pos, hasn, hpriority, h.ies]
  rfl

theorem parse_slotframe (h : Front p k st nested old s) (hn : v.ieTschSlotframeAndLink.numSlotframes.toNat ≤ 1)
    (hl : v.ieTschSlotframeAndLink.numLinks.toNat ≤ FRAME802154E_IE_MAX_LINKS)
    (hm : Mem.Holds p (slotframeBytes v.ieTschSlotframeAndLink) m) :
    ∃ s', frame802154eParseMlmeShortIe m (slotframeBytes v.ieTschSlotframeAndLink).length
        MLME_SHORT_IE_TSCH_SLOFTRAME_AND_LINK s = (s', true) ∧
      Front p k st nested (received .tschSlotframeAndLink v old) s' := by
  have hlen := slotframeBytes_length hn hl
  unfold frame802154eParseMlmeShortIe received
  dsimp only
  rw [if_pos rfl, if_pos (by omega), h.pos]
  by_cases hzero : v.ieTschSlotframeAndLink.numSlotframes.toNat = 0
  · have hfirst : (m p).toNat = 0 := by
      unfold slotframeBytes at hm
      rw [if_neg (by omega), Mem.holds_cons] at hm
      rw [hm.1, hzero]
    rw [if_pos hfirst, if_pos hzero]
    exact ⟨_, rfl, (h.peek 0 1).peek 4 1⟩
  · have hone : v.ieTschSlotframeAndLink.numSlotframes.toNat = 1 := by omega
    have hat := fun old => slotframeAt_of_holds hone hm old
    have hfirst : m p = v.ieTschSlotframeAndLink.numSlotframes :=
      congrArg SlotframeAndLinks.numSlotframes (hat old.ieTschSlotframeAndLink)
    have hlinks : m (p + 4) = v.ieTschSlotframeAndLink.numLinks :=
      congrArg SlotframeAndLinks.numLinks (hat old.ieTschSlotframeAndLink)
    rw [hfirst, hlinks, if_neg hzero, if_pos ⟨hn, hl, hlen⟩, if_neg hzero]
    refine ⟨_, rfl, ?_⟩
    have hies : ((s.peek 0 1).peek 4 1).ies = old := h.ies
    rw [hies, hat]
    exact (((h.peek 0 1).peek 4 1).peek 0 _).store 0 _ _

theorem parse_timeslot (h : Front p k st nested old s) (hm : Mem.Holds p (timeslotBytes v) m) :
    ∃ s', frame802154eParseMlmeShortIe m (timeslotBytes v).length MLME_SHORT_IE_TSCH_TIMESLOT s = (s', true) ∧
      Front p k st nested (received .tschTimeslot v old) s' := by
  have hlen := timeslotBytes_length v
  unfold frame802154eParseMlmeShortIe received
  dsimp only
  rw [if_neg (by decide), if_neg fun hsync => absurd hsync.1 (by decide), h.pos, h.ies]
  by_cases hid : v.ieTschTimeslotId = 0
  · have hfirst : m p = v.ieTschTimeslotId := by
      unfold timeslotBytes at hm
      rw [if_neg (not_not.2 hid), Mem.holds_cons] at hm
      exact hm.1
    rw [if_pos hid] at hlen
    rw [hlen, if_pos ⟨rfl, .inl rfl⟩, if_neg (by decide), if_pos hid, hfirst]
    exact ⟨_, rfl, (h.peek 0 1).store 0 1 _⟩
  · obtain ⟨hfirst, htimeslot⟩ := timeslot_of_holds hid hm
    rw [if_neg hid] at hlen
    rw [hlen, if_pos ⟨rfl, .inr rfl⟩, if_pos rfl, if_neg hid, hfirst, htimeslot]
    exact ⟨_, rfl, (h.peek 0 25).store 0 25 _⟩

theorem parse_hopping (h : Front p k st nested old s) (hle : v.ieHoppingSequenceLen.toNat ≤ cfg.hoppingSequenceMaxLen)
    (hm : Mem.Holds p (hoppingBytes v) m) :
    ∃ s', frame802154eParseMlmeLongIe cfg m (hoppingBytes v).length MLME_LONG_IE_TSCH_CHANNEL_HOPPING_SEQUENCE s =
        (s', true) ∧ Front p k st nested (received .tschChannelHoppingSequence v old) s' := by
  have hlen := hoppingBytes_length v
  unfold frame802154eParseMlmeLongIe received
  dsimp only
  rw [h.pos, h.ies]
  by_cases hid : v.ieChannelHoppingSequenceId = 0
  · have hfirst : m p = v.ieChannelHoppingSequenceId := by
      unfold hoppingBytes at hm
      rw [if_neg (not_not.2 hid), Mem.holds_cons] at hm
      exact hm.1
    rw [if_pos hid] at hlen
    rw [hlen, if_pos ⟨rfl, by decide⟩, if_neg (by decide), if_pos hid, hfirst]
    exact ⟨_, rfl, (h.peek 0 1).setIes _⟩
  · obtain ⟨hfirst, hsize, hlist⟩ := hopping_of_holds hid hm
    rw [if_neg hid] at hlen
    rw [if_pos ⟨rfl, by omega⟩, if_pos (by omega), hsize, if_pos ⟨hle, hlen⟩, if_neg hid, hfirst]
    refine ⟨_, rfl, ?_⟩
    have hseq : (fun i => if i < v.ieHoppingSequenceLen.toNat then m (p + 10 + i) else old.ieHoppingSequenceList i) =
        fun i => if i < v.ieHoppingSequenceLen.toNat then v.ieHoppingSequenceList i else old.ieHoppingSequenceList i := by
      funext i
      split
      · rename_i hi
        exact hlist i hi
      · rfl
    rw [← hseq]
    exact ((((((h.peek 0 1).setIes _).peek 8 2).store 10 _ _).peek 10 _)).setIes _

theorem mlmeNext_front (h : Front p (len + k) .mlmeSubie nested ies s) (hle : 2 + (len : Int) ≤ nested) :
    ∃ s', mlmeNext len s = .inl s' ∧ Front (p + len) k (if nested = 2 + len then .payloadIe else .mlmeSubie)
      (nested - (2 + len)) ies s' := by
  unfold mlmeNext
  dsimp only
  rw [h.nestedMlmeLen, if_neg (by omega)]
  by_cases hlast : nested = 2 + len
  · rw [if_pos (by omega), if_pos hlast]
    exact ⟨_, rfl, Front.advance len ⟨h.pos, h.bufSize, rfl, rfl, h.ies⟩⟩
  · rw [if_neg (by omega), if_neg hlast]
    exact ⟨_, rfl, Front.advance len ⟨h.pos, h.bufSize, h.parsingState, rfl, h.ies⟩⟩

theorem shortBits (len id : Nat) (hlen : len < 0x100) (hid : id < 0x80) : len + id * 0x100 < 65536 ∧
    ieType (len + id * 0x100) = 0 ∧ shortLen (len + id * 0x100) = len ∧ shortId (len + id * 0x100) = id := by
  unfold ieType shortLen shortId
  omega

/-- What the parser of the content of a sub-IE does, at the place of the sub-IE. -/
def Reads (parse : Parser → Parser × Bool) (p k : Nat) (nested : Int) (old ies : Ies) : Prop :=
  ∀ s, Front p k .mlmeSubie nested old s → ∃ s', parse s = (s', true) ∧ Front p k .mlmeSubie nested ies s'

theorem mlmeRound_short {id : Nat} (htype : ieType d = 0) (hlen : shortLen d = len) (hid : shortId d = id)
    (hle : len ≤ s.bufSize.toNat) (hparse : frame802154eParseMlmeShortIe m len id s = (s', true)) :
    mlmeRound cfg m d s = mlmeNext len s' := by
  unfold mlmeRound
  simp only [htype, hlen, hid, if_true]
  rw [if_neg (not_lt.2 hle), hparse]
  rfl

theorem mlmeRound_long {id : Nat} (htype : ieType d ≠ 0) (hlen : longLen d = len) (hid : longId d = id)
    (hle : len ≤ s.bufSize.toNat) (hparse : frame802154eParseMlmeLongIe cfg m len id s = (s', true)) :
    mlmeRound cfg m d s = mlmeNext len s' := by
  unfold mlmeRound
  simp only [htype, hlen, hid, if_false]
  rw [if_neg (not_lt.2 hle), hparse]
  rfl

theorem round_sub (hlt : d < 65536) (h : Front p (2 + len + k) .mlmeSubie nested old s)
    (hm : Mem.Holds p (bytes16 d) m) (hle : 2 + (len : Int) ≤ nested)
    (hround : ∀ s, Front (p + 2) (len + k) .mlmeSubie nested old s → ∃ s', mlmeRound cfg m d s = mlmeNext len s' ∧
      Front (p + 2) (len + k) .mlmeSubie nested ies s') :
    ∃ s', parseRound cfg m s = .inl s' ∧ Front (p + (2 + len)) k (if nested = 2 + len then .payloadIe else .mlmeSubie)
      (nested - (2 + len)) ies s' := by
  obtain ⟨hdescriptor, hfront⟩ := parseRound_descriptor cfg (by rwa [Nat.add_assoc] at h) hm hlt
  obtain ⟨s₁, hmlme, hfront₁⟩ := hround _ hfront
  obtain ⟨s', hnext, hfront'⟩ := mlmeNext_front hfront₁ hle
  refine ⟨s', hdescriptor.trans ?_, by rwa [Nat.add_assoc] at hfront'⟩
  unfold ieRound
  rw [hfront.parsingState]
  exact hmlme.trans hnext

theorem round_short (len : Nat) {id : Nat} (hid : id < 0x80) (h : Front p (2 + len + k) .mlmeSubie nested old s)
    (hm : Mem.Holds p (bytes16 (len % 0x100 + id * 0x100)) m) (hle : 2 + (len : Int) ≤ nested)
    (hreads : Reads (frame802154eParseMlmeShortIe m len id) (p + 2) (len + k) nested old ies) :
    ∃ s', parseRound cfg m s = .inl s' ∧ Front (p + (2 + len)) k (if nested = 2 + len then .payloadIe else .mlmeSubie)
      (nested - (2 + len)) ies s' := by
  have hsize := s.bufSize.toNat_lt
  have hbuf := h.bufSize
  rw [Nat.mod_eq_of_lt (by omega)] at hm
  obtain ⟨hlt, htype, hlen, hid⟩ := shortBits len id (by omega) hid
  refine round_sub hlt h hm hle fun s₁ hfront => ?_
  obtain ⟨s', hparse, hfront'⟩ := hreads s₁ hfront
  have hbuf := hfront.bufSize
  exact ⟨s', mlmeRound_short htype hlen hid (by omega) hparse, hfront'⟩

theorem round_long (len : Nat) {id : Nat} (hid : id < 0x10) (h : Front p (2 + len + k) .mlmeSubie nested old s)
    (hm : Mem.Holds p (bytes16 (len % 0x800 + id * 0x800 + 0x8000)) m) (hle : 2 + (len : Int) ≤ nested)
    (hreads : Reads (frame802154eParseMlmeLongIe cfg m len id) (p + 2) (len + k) nested old ies) :
    ∃ s', parseRound cfg m s = .inl s' ∧ Front (p + (2 + len)) k (if nested = 2 + len then .payloadIe else .mlmeSubie)
      (nested - (2 + len)) ies s' := by
  have hsize := s.bufSize.toNat_lt
  have hbuf := h.bufSize
  rw [Nat.mod_eq_of_lt (by omega)] at hm
  obtain ⟨hlt, htype, hlen, hid⟩ := longBits len id (by omega) hid
  refine round_sub hlt h hm hle fun s₁ hfront => ?_
  obtain ⟨s', hparse, hfront'⟩ := hreads s₁ hfront
  have hbuf := hfront.bufSize
  exact ⟨s', mlmeRound_long (by rw [htype]; decide) hlen hid (by omega) hparse, hfront'⟩

def Nested (ie : Ie) : Prop := match ie with
  | .tschSynchronization | .tschSlotframeAndLink | .tschTimeslot | .tschChannelHoppingSequence => True
  | _ => False

instance (ie : Ie) : Decidable (Nested ie) := by
  unfold Nested
  cases ie <;> infer_instance

theorem round_nested {ie : Ie} (hie : Nested ie) (haccepts : Accepts cfg ie v)
    (h : Front p ((ieBytes ie v).length + k) .mlmeSubie nested old s) (hm : Mem.Holds p (ieBytes ie v) m)
    (hle : ((ieBytes ie v).length : Int) ≤ nested) : ∃ s', parseRound cfg m s = .inl s' ∧
      Front (p + (ieBytes ie v).length) k (if nested = (ieBytes ie v).length then .payloadIe else .mlmeSubie)
        (nested - (ieBytes ie v).length) (received ie v old) s' := by
  have hsplit : ∀ {d : Nat} {l : List UInt8}, ieBytes ie v = bytes16 d ++ l →
      (ieBytes ie v).length = 2 + l.length ∧ Mem.Holds p (bytes16 d) m ∧ Mem.Holds (p + 2) l m := by
    intro d l he
    rw [he] at hm ⊢
    exact ⟨List.length_append, Mem.holds_append.1 hm⟩
  cases ie with
  | tschSynchronization =>
    obtain ⟨hlen, hd, hl⟩ := hsplit rfl
    exact round_short 6 (by decide) h hd hle fun s₁ h₁ => parse_synchronization h₁ hl
  | tschSlotframeAndLink =>
    obtain ⟨hlen, hd, hl⟩ := hsplit rfl
    rw [hlen] at h hle ⊢
    exact round_short _ (by decide) h hd (by exact_mod_cast hle) fun s₁ h₁ =>
      parse_slotframe h₁ haccepts.1 haccepts.2 hl
  | tschTimeslot =>
    obtain ⟨hlen, hd, hl⟩ := hsplit rfl
    rw [hlen] at h hle ⊢
    exact round_short _ (by decide) h hd (by exact_mod_cast hle) fun s₁ h₁ => parse_timeslot h₁ hl
  | tschChannelHoppingSequence =>
    obtain ⟨hlen, hd, hl⟩ := hsplit rfl
    rw [hlen] at h hle ⊢
    exact round_long _ (by decide) h hd (by exact_mod_cast hle) fun s₁ h₁ => parse_hopping h₁ haccepts hl
  | _ => exact absurd hie (by decide)

end Contiki.Frame802154e
