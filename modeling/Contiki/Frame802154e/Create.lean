/-
What the functions that create information elements write: the descriptor and the content of the IE, from the beginning
of the buffer, when these fit. The function for the hopping sequence writes the whole content even where only the ID is
part of the IE.
-/
import Contiki.Frame802154e.Model
import Mathlib.Data.List.GetD

namespace Contiki.Frame802154e

open Contiki.Lib

variable {cfg : Config} {b b' : Buf} {l l' : List UInt8} {ies : Ies} {len : Int}

/-! ## Writing -/

theorem write_out {a x : Nat} (h : x < a ∨ a + l.length ≤ x) : (b.write a l).mem x = b.mem x := by
  unfold Buf.write
  dsimp only
  exact Mem.paste_of_out h

theorem write_in {a x : Nat} (h : a ≤ x) (h' : x < a + l.length) : (b.write a l).mem x = l.getD (x - a) 0 := by
  unfold Buf.write
  dsimp only
  exact Mem.paste_in h h'

theorem write_nil (a : Nat) (b : Buf) : b.write a [] = b := by
  have hmem : (b.write a []).mem = b.mem := funext fun x => write_out (by rw [List.length_nil]; omega)
  have hwrites : (b.write a []).writes = b.writes := List.append_nil _
  cases b
  exact congrArg₂ Buf.mk hmem hwrites

theorem write_write {a c : Nat} (h : c = a + l.length) (l' : List UInt8) (b : Buf) :
    (b.write a l).write c l' = b.write a (l ++ l') := by
  subst h
  refine congrArg₂ Buf.mk (funext fun x => ?_) ?_
  · show ((b.write a l).write (a + l.length) l').mem x = (b.write a (l ++ l')).mem x
    have hlen : (l ++ l').length = l.length + l'.length := List.length_append
    rcases Nat.lt_or_ge x a with h1 | h1
    · rw [write_out (.inl (by omega)), write_out (.inl h1), write_out (.inl h1)]
    · rcases Nat.lt_or_ge x (a + l.length) with h2 | h2
      · rw [write_out (.inl h2), write_in h1 h2, write_in h1 (by omega), List.getD_append _ _ _ _ (by omega)]
      · rcases Nat.lt_or_ge x (a + l.length + l'.length) with h3 | h3
        · rw [write_in h2 h3, write_in h1 (by omega), List.getD_append_right _ _ _ _ (by omega), Nat.sub_sub]
        · rw [write_out (.inr h3), write_out (.inr h2), write_out (.inr (by omega))]
  · show b.writes ++ List.range' a l.length ++ List.range' (a + l.length) l'.length =
      b.writes ++ List.range' a (l ++ l').length
    rw [List.append_assoc, List.length_append, List.range'_append_1]

theorem writeEach_eq {k start size : Nat} {bytes : Fin k → List UInt8} (hsize : ∀ i, (bytes i).length = size)
    (a : Nat) (b : Buf) : ∀ (is : List (Fin k)) (j : Nat) (l : List UInt8), a + l.length = start + j * size →
      (∀ (i : Nat) (h : i < is.length), is[i].val = j + i) →
      writeEach start size bytes is (b.write a l) = b.write a (l ++ is.flatMap bytes)
  | [], j, l, _, _ => by simp [writeEach]
  | i :: is, j, l, hl, his => by
    have hi : i.val = j := his 0 (by simp)
    unfold writeEach
    rw [write_write (by rw [hi, hl]), writeEach_eq hsize a b is (j + 1) (l ++ bytes i), List.append_assoc,
      List.flatMap_cons]
    · rw [List.length_append, hsize, Nat.succ_mul]
      omega
    · intro n hn
      have := his (n + 1) (by simpa using hn)
      rw [List.getElem_cons_succ] at this
      omega

/-- The bytes `l` were written from the beginning of the buffer, and nothing else. -/
structure Wrote (b b' : Buf) (l : List UInt8) : Prop where
  holds : Mem.Holds 0 l b'.mem
  rest : ∀ x, l.length ≤ x → b'.mem x = b.mem x
  writes : ∀ x, x ∈ b'.writes ↔ x ∈ b.writes ∨ x < l.length

theorem write_holds (a : Nat) (l : List UInt8) (b : Buf) : Mem.Holds a l (b.write a l).mem := by
  rw [Mem.holds_iff]
  intro i hi
  rw [write_in (Nat.le_add_right a i) (Nat.add_lt_add_left hi a), Nat.add_sub_cancel_left, List.getD_eq_getElem _ _ hi]

theorem wrote_ie (d : Nat) (l : List UInt8) (b : Buf) :
    Wrote b ((b.write 2 l).write 0 (bytes16 d)) (bytes16 d ++ l) := by
  have hd : (bytes16 d).length = 2 := rfl
  have hlen : (bytes16 d ++ l).length = 2 + l.length := List.length_append
  refine ⟨?_, fun x hx => ?_, fun x => ?_⟩
  · rw [Mem.holds_append]
    refine ⟨write_holds 0 (bytes16 d) _, (write_holds 2 l b).congr fun x hx _ => write_out (.inr ?_)⟩
    exact hx
  · rw [write_out (.inr (by omega)), write_out (.inr (by omega))]
  · show x ∈ b.writes ++ List.range' 2 l.length ++ List.range' 0 2 ↔ _
    rw [List.mem_append, List.mem_append, List.mem_range'_1, List.mem_range'_1, hlen, or_assoc]
    exact or_congr_right (by omega)

theorem wrote_descriptor (d : Nat) (b : Buf) : Wrote b (b.write 0 (bytes16 d)) (bytes16 d) := by
  have h := wrote_ie d [] b
  rwa [write_nil, List.append_nil] at h

/-! ## The bytes of an IE -/

inductive Ie
  | ackNackTimeCorrection | headerListTermination1 | headerListTermination2 | payloadListTermination | ietf | mlme
  | tschSynchronization | tschSlotframeAndLink | tschTimeslot | tschChannelHoppingSequence
deriving DecidableEq

/-- The functions `frame80215e_create_ie_*`. -/
def createIe (cfg : Config) (ie : Ie) (buf : Buf) (len : Int) (ies : Ies) : Created :=
  match ie with
  | .ackNackTimeCorrection => frame80215eCreateIeHeaderAckNackTimeCorrection buf len ies
  | .headerListTermination1 => frame80215eCreateIeHeaderListTermination1 buf len
  | .headerListTermination2 => frame80215eCreateIeHeaderListTermination2 buf len
  | .payloadListTermination => frame80215eCreateIePayloadListTermination buf len
  | .ietf => frame80215eCreateIeIetf buf len ies
  | .mlme => frame80215eCreateIeMlme buf len ies
  | .tschSynchronization => frame80215eCreateIeTschSynchronization buf len ies
  | .tschSlotframeAndLink => frame80215eCreateIeTschSlotframeAndLink buf len ies
  | .tschTimeslot => frame80215eCreateIeTschTimeslot buf len ies
  | .tschChannelHoppingSequence => frame80215eCreateIeTschChannelHoppingSequence cfg buf len ies

def linksBytes (sl : SlotframeAndLinks) : List UInt8 :=
  ((List.finRange FRAME802154E_IE_MAX_LINKS).take sl.numLinks.toNat).flatMap fun i => linkBytes (sl.links i)

def slotframeBytes (sl : SlotframeAndLinks) : List UInt8 :=
  if sl.numSlotframes.toNat = 1 then
    [sl.numSlotframes, sl.slotframeHandle] ++ bytes16 sl.slotframeSize.toNat ++ [sl.numLinks] ++ linksBytes sl
  else [sl.numSlotframes]

def timeslotBytes (ies : Ies) : List UInt8 :=
  if ies.ieTschTimeslotId ≠ 0 then
    ies.ieTschTimeslotId :: (List.finRange tschTsElementsCount).flatMap fun i => bytes16 (ies.ieTschTimeslot i).toNat
  else [ies.ieTschTimeslotId]

def hoppingContent (ies : Ies) : List UInt8 :=
  [ies.ieChannelHoppingSequenceId, 0] ++ bytes16 0 ++ bytes16 0 ++ bytes16 0 ++
    bytes16 ies.ieHoppingSequenceLen.toNat ++ (List.range ies.ieHoppingSequenceLen.toNat).map ies.ieHoppingSequenceList ++
    bytes16 0

/-- The content of the hopping sequence IE; with the ID 0 nothing but the ID. -/
def hoppingBytes (ies : Ies) : List UInt8 :=
  if ies.ieChannelHoppingSequenceId ≠ 0 then hoppingContent ies else [ies.ieChannelHoppingSequenceId]

/-- The bytes of an IE; of an IE with others in it, those of its descriptor. -/
def ieBytes (ie : Ie) (ies : Ies) : List UInt8 :=
  match ie with
  | .ackNackTimeCorrection =>
    bytes16 (2 + HEADER_IE_ACK_NACK_TIME_CORRECTION * 0x80) ++ bytes16 (timeSyncField ies).toNat
  | .headerListTermination1 => bytes16 (HEADER_IE_LIST_TERMINATION_1 * 0x80)
  | .headerListTermination2 => bytes16 (HEADER_IE_LIST_TERMINATION_2 * 0x80)
  | .payloadListTermination => bytes16 (PAYLOAD_IE_LIST_TERMINATION * 0x800 + 0x8000)
  | .ietf => bytes16 (ies.sixtopIeContentLen.toNat % 0x800 + PAYLOAD_IE_IETF * 0x800 + 0x8000)
  | .mlme => bytes16 (ies.ieMlmeLen.toNat % 0x800 + PAYLOAD_IE_MLME * 0x800 + 0x8000)
  | .tschSynchronization => bytes16 (6 + MLME_SHORT_IE_TSCH_SYNCHRONIZATION * 0x100) ++ syncBytes ies
  | .tschSlotframeAndLink =>
    bytes16 ((slotframeBytes ies.ieTschSlotframeAndLink).length % 0x100 +
      MLME_SHORT_IE_TSCH_SLOFTRAME_AND_LINK * 0x100) ++ slotframeBytes ies.ieTschSlotframeAndLink
  | .tschTimeslot =>
    bytes16 ((timeslotBytes ies).length % 0x100 + MLME_SHORT_IE_TSCH_TIMESLOT * 0x100) ++ timeslotBytes ies
  | .tschChannelHoppingSequence =>
    bytes16 ((hoppingBytes ies).length % 0x800 + MLME_LONG_IE_TSCH_CHANNEL_HOPPING_SEQUENCE * 0x800 + 0x8000) ++
      hoppingBytes ies

/-- The values are such that the IE is created, given the room. -/
def Accepts (cfg : Config) (ie : Ie) (ies : Ies) : Prop :=
  match ie with
  | .tschSlotframeAndLink => ies.ieTschSlotframeAndLink.numSlotframes.toNat ≤ 1 ∧
      ies.ieTschSlotframeAndLink.numLinks.toNat ≤ FRAME802154E_IE_MAX_LINKS
  | .tschChannelHoppingSequence => ies.ieHoppingSequenceLen.toNat ≤ cfg.hoppingSequenceMaxLen
  | _ => True

/-! ## Creating -/

theorem linkBytes_length (l : Link) : (linkBytes l).length = 5 := rfl

theorem bytes16_length (n : Nat) : (bytes16 n).length = 2 := rfl

theorem flatMap_length {α : Type} {f : α → List UInt8} {size : Nat} (h : ∀ x, (f x).length = size) :
    ∀ l : List α, (l.flatMap f).length = l.length * size
  | [] => by simp
  | x :: l => by
    rw [List.flatMap_cons, List.length_append, h, flatMap_length h l, List.length_cons, Nat.succ_mul, Nat.add_comm]

theorem linksBytes_length {sl : SlotframeAndLinks} (h : sl.numLinks.toNat ≤ FRAME802154E_IE_MAX_LINKS) :
    (linksBytes sl).length = 5 * sl.numLinks.toNat := by
  unfold linksBytes
  rw [flatMap_length fun i => linkBytes_length (sl.links i), List.length_take, List.length_finRange, Nat.min_eq_left h,
    Nat.mul_comm]

theorem slotframeBytes_length {sl : SlotframeAndLinks} (hn : sl.numSlotframes.toNat ≤ 1)
    (h : sl.numLinks.toNat ≤ FRAME802154E_IE_MAX_LINKS) :
    (slotframeBytes sl).length = 1 + sl.numSlotframes.toNat * (4 + 5 * sl.numLinks.toNat) := by
  unfold slotframeBytes
  split
  · rename_i hone
    rw [List.length_append, linksBytes_length h, hone]
    simp [bytes16_length]
    omega
  · have hzero : sl.numSlotframes.toNat = 0 := by omega
    rw [hzero]
    simp

theorem timeslotBytes_length (ies : Ies) : (timeslotBytes ies).length = if ies.ieTschTimeslotId = 0 then 1 else 25 := by
  unfold timeslotBytes
  by_cases h : ies.ieTschTimeslotId = 0
  · rw [if_neg (not_not.2 h), if_pos h]
    rfl
  · rw [if_pos h, if_neg h, List.length_cons, flatMap_length fun i => bytes16_length _, List.length_finRange]
    rfl

theorem hoppingBytes_length (ies : Ies) : (hoppingBytes ies).length =
    if ies.ieChannelHoppingSequenceId = 0 then 1 else 12 + ies.ieHoppingSequenceLen.toNat := by
  unfold hoppingBytes hoppingContent
  by_cases h : ies.ieChannelHoppingSequenceId = 0
  · rw [if_neg (not_not.2 h), if_pos h]
    rfl
  · rw [if_pos h, if_neg h]
    simp [bytes16_length]
    omega

/-- Whether the IE is created, and what is written and returned then. -/
structure IeCreated (ie : Ie) (ies : Ies) (buf : Buf) (r : Created) : Prop where
  ret : r.ret = (ieBytes ie ies).length + if ie = .ietf then ies.sixtopIeContentLen.toNat else 0
  holds : Mem.Holds 0 (ieBytes ie ies) r.buf.mem
  wrote : (ie = .tschChannelHoppingSequence → ies.ieChannelHoppingSequenceId ≠ 0) → Wrote buf r.buf (ieBytes ie ies)

theorem ieCreated_of_wrote {ie : Ie} {buf : Buf} {r : Created} (hret : r.ret = (ieBytes ie ies).length +
    if ie = .ietf then ies.sixtopIeContentLen.toNat else 0) (h : Wrote buf r.buf (ieBytes ie ies)) :
    IeCreated ie ies buf r := ⟨hret, h.holds, fun _ => h⟩

/-- An IE is created when its values and the length of the buffer allow it; otherwise nothing is written. -/
def CreateSpec (cfg : Config) (ie : Ie) (ies : Ies) (buf : Buf) (len : Int) : Prop :=
  (Accepts cfg ie ies → ((ieBytes ie ies).length : Int) ≤ len → IeCreated ie ies buf (createIe cfg ie buf len ies)) ∧
  (¬ (Accepts cfg ie ies ∧ ((ieBytes ie ies).length : Int) ≤ len) → createIe cfg ie buf len ies = ⟨-1, buf⟩)

theorem createSpec_of_ite {ie : Ie} {buf : Buf} {r : Created} {n : Nat} (hn : n = (ieBytes ie ies).length)
    (haccepts : Accepts cfg ie ies) (he : createIe cfg ie buf len ies = if len ≥ n then r else ⟨-1, buf⟩)
    (hr : IeCreated ie ies buf r) : CreateSpec cfg ie ies buf len := by
  subst hn
  unfold CreateSpec
  rw [he]
  constructor
  · intro _ hle
    rwa [if_pos hle]
  · intro h
    rw [if_neg fun hle => h ⟨haccepts, hle⟩]

theorem create_descriptor (ie : Ie) (d : Nat) (hbytes : ieBytes ie ies = bytes16 d) (haccepts : Accepts cfg ie ies)
    (buf : Buf) (he : createIe cfg ie buf len ies = if len ≥ 2 then
      ⟨2 + (if ie = .ietf then ies.sixtopIeContentLen.toNat else 0 : Nat), buf.write 0 (bytes16 d)⟩ else ⟨-1, buf⟩) :
    CreateSpec cfg ie ies buf len := by
  refine createSpec_of_ite (n := 2) (by rw [hbytes]; rfl) haccepts he (ieCreated_of_wrote ?_ ?_)
  · rw [hbytes]
    rfl
  · rw [hbytes]
    exact wrote_descriptor d buf

theorem write_slotframe (sl : SlotframeAndLinks) (b : Buf) : (if sl.numSlotframes.toNat = 1 then
      writeEach (2 + 5) 5 (fun i => linkBytes (sl.links i))
        ((List.finRange FRAME802154E_IE_MAX_LINKS).take sl.numLinks.toNat)
        ((((b.write 2 [sl.numSlotframes]).write (2 + 1) [sl.slotframeHandle]).write (2 + 2)
          (bytes16 sl.slotframeSize.toNat)).write (2 + 4) [sl.numLinks])
    else b.write 2 [sl.numSlotframes]) = b.write 2 (slotframeBytes sl) := by
  have hhandle : (b.write 2 [sl.numSlotframes]).write (2 + 1) [sl.slotframeHandle] =
      b.write 2 [sl.numSlotframes, sl.slotframeHandle] := write_write (l := [sl.numSlotframes]) rfl _ b
  have hsize : (b.write 2 [sl.numSlotframes, sl.slotframeHandle]).write (2 + 2) (bytes16 sl.slotframeSize.toNat) =
      b.write 2 ([sl.numSlotframes, sl.slotframeHandle] ++ bytes16 sl.slotframeSize.toNat) :=
    write_write (l := [sl.numSlotframes, sl.slotframeHandle]) rfl _ b
  have hlinks : (b.write 2 ([sl.numSlotframes, sl.slotframeHandle] ++ bytes16 sl.slotframeSize.toNat)).write (2 + 4)
      [sl.numLinks] = b.write 2 ([sl.numSlotframes, sl.slotframeHandle] ++ bytes16 sl.slotframeSize.toNat ++
        [sl.numLinks]) :=
    write_write (l := [sl.numSlotframes, sl.slotframeHandle] ++ bytes16 sl.slotframeSize.toNat) rfl _ b
  unfold slotframeBytes
  split
  · rw [hhandle, hsize, hlinks]
    refine writeEach_eq (fun i => linkBytes_length _) 2 b _ 0 _ rfl fun i hi => ?_
    rw [List.getElem_take, List.getElem_finRange]
    simp
  · rfl

theorem create_slotframeAndLink (cfg : Config) (ies : Ies) (buf : Buf) (len : Int) :
    CreateSpec cfg .tschSlotframeAndLink ies buf len := by
  have hbytes : ieBytes .tschSlotframeAndLink ies = bytes16 ((slotframeBytes ies.ieTschSlotframeAndLink).length % 0x100 +
      MLME_SHORT_IE_TSCH_SLOFTRAME_AND_LINK * 0x100) ++ slotframeBytes ies.ieTschSlotframeAndLink := rfl
  unfold CreateSpec Accepts createIe frame80215eCreateIeTschSlotframeAndLink
  dsimp only
  by_cases h : ies.ieTschSlotframeAndLink.numSlotframes.toNat ≤ 1 ∧
      ies.ieTschSlotframeAndLink.numLinks.toNat ≤ FRAME802154E_IE_MAX_LINKS
  · obtain ⟨hn, hl⟩ := h
    have hlen := slotframeBytes_length hn hl
    have hlen' : (ieBytes .tschSlotframeAndLink ies).length =
        2 + (slotframeBytes ies.ieTschSlotframeAndLink).length := List.length_append
    rw [← hlen, hlen', write_slotframe]
    constructor
    · intro _ hle
      rw [if_neg (by push_cast at hle; omega)]
      refine ieCreated_of_wrote ?_ ?_
      · rw [hlen']
        push_cast
        exact (add_zero _).symm
      · exact hbytes ▸ wrote_ie _ _ buf
    · intro hnot
      rw [if_pos]
      by_contra hc
      exact hnot ⟨⟨hn, hl⟩, by push_cast; omega⟩
  · refine ⟨fun h' => absurd h' h, fun _ => if_pos ?_⟩
    omega

theorem write_timeslot (ies : Ies) (b : Buf) : (if ies.ieTschTimeslotId ≠ 0 then
      writeEach 3 2 (fun i => bytes16 (ies.ieTschTimeslot i).toNat) (List.finRange tschTsElementsCount)
        (b.write 2 [ies.ieTschTimeslotId]) else b.write 2 [ies.ieTschTimeslotId]) = b.write 2 (timeslotBytes ies) := by
  unfold timeslotBytes
  split
  · refine writeEach_eq (fun i => bytes16_length _) 2 b _ 0 [ies.ieTschTimeslotId] rfl fun i hi => ?_
    rw [List.getElem_finRange]
    simp
  · rfl

theorem create_timeslot (cfg : Config) (ies : Ies) (buf : Buf) (len : Int) :
    CreateSpec cfg .tschTimeslot ies buf len := by
  have hlen : (ieBytes .tschTimeslot ies).length = 2 + if ies.ieTschTimeslotId = 0 then 1 else 25 := by
    rw [← timeslotBytes_length]
    exact List.length_append
  have hbytes : ieBytes .tschTimeslot ies =
      bytes16 ((timeslotBytes ies).length % 0x100 + MLME_SHORT_IE_TSCH_TIMESLOT * 0x100) ++ timeslotBytes ies := rfl
  refine createSpec_of_ite (r := ⟨2 + (if ies.ieTschTimeslotId = 0 then 1 else 25 : Nat),
    createMlmeShortIeDescriptor MLME_SHORT_IE_TSCH_TIMESLOT (timeslotBytes ies).length
      (buf.write 2 (timeslotBytes ies))⟩) hlen.symm trivial ?_ (ieCreated_of_wrote ?_ ?_)
  · unfold createIe frame80215eCreateIeTschTimeslot
    dsimp only
    rw [write_timeslot, timeslotBytes_length]
    push_cast
    rfl
  · rw [hlen]
    push_cast
    exact (add_zero _).symm
  · exact hbytes ▸ wrote_ie _ _ buf

theorem create_ackNack (cfg : Config) (ies : Ies) (buf : Buf) (len : Int) :
    CreateSpec cfg .ackNackTimeCorrection ies buf len := by
  refine createSpec_of_ite (n := 4) rfl trivial rfl (ieCreated_of_wrote rfl ?_)
  exact wrote_ie _ (bytes16 (timeSyncField ies).toNat) buf

theorem create_synchronization (cfg : Config) (ies : Ies) (buf : Buf) (len : Int) :
    CreateSpec cfg .tschSynchronization ies buf len := by
  refine createSpec_of_ite (n := 8) rfl trivial rfl (ieCreated_of_wrote rfl ?_)
  exact wrote_ie _ (syncBytes ies) buf

theorem write_hopping (ies : Ies) (b : Buf) :
    (((((((b.write 2 [ies.ieChannelHoppingSequenceId]).write 3 [0]).write 4 (bytes16 0)).write 6 (bytes16 0)).write 8
      (bytes16 0)).write 10 (bytes16 ies.ieHoppingSequenceLen.toNat)).write 12
        ((List.range ies.ieHoppingSequenceLen.toNat).map ies.ieHoppingSequenceList)).write
          (12 + ies.ieHoppingSequenceLen.toNat) (bytes16 0) = b.write 2 (hoppingContent ies) := by
  unfold hoppingContent
  rw [write_write (a := 2) (c := 3) rfl, write_write (a := 2) (c := 4) rfl, write_write (a := 2) (c := 6) rfl,
    write_write (a := 2) (c := 8) rfl, write_write (a := 2) (c := 10) rfl, write_write (a := 2) (c := 12) rfl,
    write_write]
  · rfl
  · rw [List.length_append, List.length_map, List.length_range, ← Nat.add_assoc]
    rfl

/-- With the ID 0 the rest of the content is written too. -/
theorem create_hopping (cfg : Config) (ies : Ies) (buf : Buf) (len : Int) :
    CreateSpec cfg .tschChannelHoppingSequence ies buf len := by
  have hlen : (ieBytes .tschChannelHoppingSequence ies).length =
      2 + if ies.ieChannelHoppingSequenceId = 0 then 1 else 12 + ies.ieHoppingSequenceLen.toNat := by
    rw [← hoppingBytes_length]
    exact List.length_append
  have hbytes : ieBytes .tschChannelHoppingSequence ies = bytes16 ((hoppingBytes ies).length % 0x800 +
      MLME_LONG_IE_TSCH_CHANNEL_HOPPING_SEQUENCE * 0x800 + 0x8000) ++ hoppingBytes ies := rfl
  by_cases hn : ies.ieHoppingSequenceLen.toNat ≤ cfg.hoppingSequenceMaxLen
  · refine createSpec_of_ite (r := ⟨2 + ((if ies.ieChannelHoppingSequenceId = 0 then 1 else
      12 + ies.ieHoppingSequenceLen.toNat : Nat) : Int), createMlmeLongIeDescriptor
        MLME_LONG_IE_TSCH_CHANNEL_HOPPING_SEQUENCE (hoppingBytes ies).length (buf.write 2 (hoppingContent ies))⟩)
      hlen.symm hn ?_ ⟨?_, ?_, fun hid => ?_⟩
    · unfold createIe frame80215eCreateIeTschChannelHoppingSequence
      dsimp only
      rw [if_neg (not_lt.2 hn), write_hopping, hoppingBytes_length]
      push_cast
      rfl
    · rw [hlen]
      push_cast
      exact (add_zero _).symm
    · have hbegins : ∃ rest, hoppingContent ies = hoppingBytes ies ++ rest := by
        unfold hoppingBytes
        split
        · exact ⟨[], (List.append_nil _).symm⟩
        · exact ⟨(hoppingContent ies).drop 1, rfl⟩
      obtain ⟨rest, hrest⟩ := hbegins
      have hall := (wrote_ie ((hoppingBytes ies).length % 0x800 + MLME_LONG_IE_TSCH_CHANNEL_HOPPING_SEQUENCE * 0x800 +
        0x8000) (hoppingBytes ies ++ rest) buf).holds
      rw [← List.append_assoc, Mem.holds_append, ← hrest] at hall
      exact hall.1
    · have hsame : hoppingBytes ies = hoppingContent ies := if_pos (hid rfl)
      rw [hbytes, hsame]
      exact wrote_ie _ _ buf
  · refine ⟨fun haccepts => absurd haccepts hn, fun _ => if_pos ?_⟩
    exact not_le.1 hn

theorem create_spec (cfg : Config) (ie : Ie) (ies : Ies) (buf : Buf) (len : Int) : CreateSpec cfg ie ies buf len := by
  cases ie with
  | ackNackTimeCorrection => exact create_ackNack cfg ies buf len
  | headerListTermination1 =>
    exact create_descriptor .headerListTermination1 (HEADER_IE_LIST_TERMINATION_1 * 0x80) rfl trivial buf rfl
  | headerListTermination2 =>
    exact create_descriptor .headerListTermination2 (HEADER_IE_LIST_TERMINATION_2 * 0x80) rfl trivial buf rfl
  | payloadListTermination =>
    exact create_descriptor .payloadListTermination (PAYLOAD_IE_LIST_TERMINATION * 0x800 + 0x8000) rfl trivial buf rfl
  | ietf =>
    exact create_descriptor .ietf (ies.sixtopIeContentLen.toNat % 0x800 + PAYLOAD_IE_IETF * 0x800 + 0x8000) rfl trivial
      buf rfl
  | mlme =>
    exact create_descriptor .mlme (ies.ieMlmeLen.toNat % 0x800 + PAYLOAD_IE_MLME * 0x800 + 0x8000) rfl trivial buf rfl
  | tschSynchronization => exact create_synchronization cfg ies buf len
  | tschSlotframeAndLink => exact create_slotframeAndLink cfg ies buf len
  | tschTimeslot => exact create_timeslot cfg ies buf len
  | tschChannelHoppingSequence => exact create_hopping cfg ies buf len

end Contiki.Frame802154e
