/-
What frame802154_parse reads. The parser passes every byte of the header that the frame control field and the security
control field announce, and compares the length only then; it stays within the frame exactly when that header does.
-/
import Contiki.Frame802154.Model
import Contiki.Lib.Mem

namespace Contiki.Frame802154

section

open Contiki.Lib

variable {cfg : Config} {m m' : Mem} {fcf : Fcf} {s : Scan}

/-! ## Lengths that are announced -/

def addressingLen (fcf : Fcf) : Nat :=
  let pan := frame802154HasPanid fcf
  (if fcf.sequenceNumberSuppression = 0 then 1 else 0) +
    (if fcf.destAddrMode ≠ 0 then (if pan.2 then 2 else 0) + addrLen fcf.destAddrMode else 0) +
    if fcf.srcAddrMode ≠ 0 then (if pan.1 then 2 else 0) + addrLen fcf.srcAddrMode else 0

/-- The length of the header of a frame, by its frame control field and its security control field. -/
def announcedLen (cfg : Config) (m : Mem) : Nat :=
  let fcf := frame802154ParseFcf (m 0) (m 1)
  let len := 2 + addressingLen fcf
  if cfg.usesAuxHeader ∧ fcf.securityEnabled ≠ 0 then
    len + auxSecLen cfg (parseScf cfg (m len) ⟨0, 0, 0, 0⟩)
  else len

theorem auxSecLen_pos (cfg : Config) (scf : Scf) : 0 < auxSecLen cfg scf := by
  unfold auxSecLen
  omega

/-! ## Parts of the header -/

theorem scfBits (b : UInt8) : getKeyIdLen (b >>> 3 &&& 3) =
    (if b >>> 3 &&& 3 ≠ 0 then ((b >>> 3 &&& 3).toNat - 1) * 4 + 1 else 0) ∧ (b >>> 5 = 0 → b >>> 6 ≠ 1) := by
  revert b; apply forall_byte; decide +kernel

/-- The parser passes `n` bytes and reads all of them. -/
def Passes (s s' : Scan) (n : Nat) : Prop := s'.cursor.pos = s.cursor.pos + n ∧ (s.cursor.Full → s'.cursor.Full)

theorem passes_zero {s s' : Scan} (h : s'.cursor = s.cursor) : Passes s s' 0 := by
  unfold Passes
  rw [h]
  exact ⟨rfl, id⟩

theorem passes_take {s s' : Scan} {n : Nat} (h : s'.cursor = s.cursor.take n) : Passes s s' n := by
  unfold Passes
  rw [h]
  exact ⟨rfl, fun hf => hf.take n⟩

theorem Passes.trans {s s' s'' : Scan} {n k : Nat} (h : Passes s s' n) (h' : Passes s' s'' k) : Passes s s'' (n + k) :=
  ⟨by rw [h'.1, h.1, Nat.add_assoc], fun hf => h'.2 (h.2 hf)⟩

theorem parseSeqno_passes (m : Mem) (fcf : Fcf) (s : Scan) :
    Passes s (parseSeqno m fcf s) (if fcf.sequenceNumberSuppression = 0 then 1 else 0) := by
  unfold parseSeqno
  split
  · exact passes_take rfl
  · exact passes_zero rfl

theorem parseDest_passes (cfg : Config) (m : Mem) (fcf : Fcf) (pan : Bool) (s : Scan) :
    Passes s (parseDest cfg m fcf pan s)
      (if fcf.destAddrMode ≠ 0 then (if pan = true then 2 else 0) + addrLen fcf.destAddrMode else 0) := by
  unfold parseDest
  by_cases h : fcf.destAddrMode ≠ 0
  · rw [if_pos h, if_pos h]
    refine Passes.trans ?_ (passes_take rfl)
    cases pan with
    | true => exact passes_take rfl
    | false => exact passes_zero rfl
  · rw [if_neg h, if_neg h]
    exact passes_zero rfl

theorem parseSrc_passes (cfg : Config) (m : Mem) (fcf : Fcf) (pan pan' : Bool) (s : Scan) :
    Passes s (parseSrc cfg m fcf pan pan' s)
      (if fcf.srcAddrMode ≠ 0 then (if pan = true then 2 else 0) + addrLen fcf.srcAddrMode else 0) := by
  unfold parseSrc
  by_cases h : fcf.srcAddrMode ≠ 0
  · rw [if_pos h, if_pos h]
    refine Passes.trans ?_ (passes_take rfl)
    cases pan with
    | true => exact passes_take rfl
    | false => exact passes_zero rfl
  · rw [if_neg h, if_neg h]
    exact passes_zero rfl

theorem auxSecLen_parseScf (cfg : Config) (b : UInt8) (scf scf' : Scf) :
    auxSecLen cfg (parseScf cfg b scf) = auxSecLen cfg (parseScf cfg b scf') := by
  unfold auxSecLen parseScf
  cases cfg.usesExplicitKeys with
  | true => rfl
  | false => rfl

theorem parseCounter_passes (cfg : Config) (m : Mem) (b : UInt8) (scf : Scf) (s : Scan) :
    Passes s (parseCounter m (parseScf cfg b scf) s) (if (parseScf cfg b scf).frameCounterSuppression = 0 then
        if (parseScf cfg b scf).frameCounterSize = 1 then 5 else 4 else 0) := by
  unfold parseCounter
  by_cases h : (parseScf cfg b scf).frameCounterSuppression = 0
  · rw [if_pos h, if_pos h]
    have hsize : (parseScf cfg b scf).frameCounterSize ≠ 1 := (scfBits b).2 h
    rw [if_neg hsize]
    exact passes_take (if_neg hsize)
  · rw [if_neg h, if_neg h]
    exact passes_zero rfl

theorem parseKey_passes (cfg : Config) (m : Mem) (b : UInt8) (scf : Scf) (s : Scan) :
    Passes s (parseKey cfg m (parseScf cfg b scf) s)
      (if cfg.usesExplicitKeys = true then getKeyIdLen (parseScf cfg b scf).keyIdMode else 0) := by
  unfold parseKey
  by_cases hkeys : cfg.usesExplicitKeys = true
  · have hmode : (parseScf cfg b scf).keyIdMode = b >>> 3 &&& 3 := if_pos hkeys
    rw [if_pos hkeys, hmode, (scfBits b).1]
    by_cases h : b >>> 3 &&& 3 ≠ 0
    · rw [if_pos ⟨hkeys, h⟩, if_pos h]
      have hsource : Passes s ⟨s.cursor.take (((b >>> 3 &&& 3).toNat - 1) * 4), s.pf⟩ _ := passes_take rfl
      exact hsource.trans (passes_take rfl)
    · rw [if_neg fun hc => h hc.2, if_neg h]
      exact passes_zero rfl
  · rw [if_neg hkeys, if_neg fun hc => hkeys hc.1]
    exact passes_zero rfl

theorem parseAux_passes (cfg : Config) (m : Mem) (s : Scan) :
    Passes s (parseAux cfg m s) (auxSecLen cfg (parseScf cfg (m s.cursor.pos) s.pf.auxHdr.securityControl)) := by
  refine Passes.trans (Passes.trans ?_ (parseCounter_passes cfg m _ s.pf.auxHdr.securityControl _))
    (parseKey_passes cfg m _ s.pf.auxHdr.securityControl _)
  exact passes_take rfl

/-! ## The header -/

theorem parseAddressing_passes (cfg : Config) (m : Mem) (fcf : Fcf) (s : Scan) :
    Passes s (parseAddressing cfg m fcf s) (addressingLen fcf) :=
  ((parseSeqno_passes m fcf s).trans (parseDest_passes cfg m fcf (frame802154HasPanid fcf).2 _)).trans
    (parseSrc_passes cfg m fcf (frame802154HasPanid fcf).1 (frame802154HasPanid fcf).2 _)

theorem parseHeader_passes (cfg : Config) (m : Mem) (pf : Frame) :
    (parseHeader cfg m pf).cursor.pos = announcedLen cfg m ∧ (parseHeader cfg m pf).cursor.Full := by
  unfold parseHeader announcedLen
  generalize frame802154ParseFcf (m 0) (m 1) = fcf
  dsimp only
  obtain ⟨hpos, hfull⟩ := parseAddressing_passes cfg m fcf ⟨Cursor.start.take 2, { pf with fcf := fcf }⟩
  have hfull := hfull (Cursor.full_start.take 2)
  have hstart : (Cursor.start.take 2).pos = 2 := rfl
  by_cases h : cfg.usesAuxHeader ∧ fcf.securityEnabled ≠ 0
  · rw [if_pos h, if_pos h]
    obtain ⟨hpos', hfull'⟩ := parseAux_passes cfg m
      (parseAddressing cfg m fcf ⟨Cursor.start.take 2, { pf with fcf := fcf }⟩)
    refine ⟨?_, hfull' hfull⟩
    rw [hpos', hpos, auxSecLen_parseScf cfg _ _ ⟨0, 0, 0, 0⟩, hstart]
  · rw [if_neg h, if_neg h]
    exact ⟨hpos, hfull⟩

theorem two_le_announcedLen (cfg : Config) (m : Mem) : 2 ≤ announcedLen cfg m := by
  unfold announcedLen
  dsimp only
  split
  · omega
  · omega

/-- What a call may read and return: nothing behind the frame, and 0 or a header within the frame with the payload after
it. -/
def ParseSafe (len : Int) (r : Parsed) : Prop :=
  (∀ x ∈ r.reads, (x : Int) < len) ∧
  (r.hdrlen = 0 ∨ 2 ≤ r.hdrlen ∧ r.hdrlen ≤ len ∧ r.pf.payload = r.hdrlen ∧ r.pf.payloadLen = len - r.hdrlen)

/-- The call stays within a frame exactly when the frame is too short for the frame control field, and not looked at, or
has all of the header that its control fields announce. -/
theorem parse_safe (cfg : Config) (m : Mem) (len : Int) (pf : Frame) :
    ParseSafe len (frame802154Parse cfg m len pf) ↔ len < 2 ∨ announcedLen cfg m ≤ len := by
  unfold frame802154Parse
  by_cases hlen : len < 2
  · rw [if_pos hlen]
    exact ⟨fun _ => .inl hlen, fun _ => ⟨by simp, .inl rfl⟩⟩
  · rw [if_neg hlen]
    obtain ⟨hpos, hfull⟩ := parseHeader_passes cfg m pf
    have htwo := two_le_announcedLen cfg m
    obtain ⟨n, rfl⟩ := Int.eq_ofNat_of_zero_le (show 0 ≤ len by omega)
    have hreads : (∀ x ∈ (parseHeader cfg m pf).cursor.log, (x : Int) < n) ↔ announcedLen cfg m ≤ n := by
      rw [← hpos, ← hfull.within_iff]
      exact forall₂_congr fun x _ => Int.ofNat_lt
    dsimp only
    rw [hpos]
    constructor
    · rintro ⟨h, -⟩
      exact .inr (Int.ofNat_le.2 (hreads.1 h))
    · rintro (h | h)
      · exact absurd h hlen
      · refine ⟨hreads.2 (Int.ofNat_le.1 h), .inr ?_⟩
        rw [if_neg (not_lt.2 h)]
        exact ⟨Int.ofNat_le.2 htwo, h, rfl, rfl⟩

def blankFrame : Frame :=
  ⟨fun _ => 0, fun _ => 0, ⟨0, 0, 0, 0, 0, 0, 0, 0, 0, 0⟩, 0, 0, 0, ⟨⟨0, 0, 0, 0⟩, fun _ => 0, fun _ => 0, 0⟩, 0, 0⟩

/-- A frame of two bytes, the frame control field of a data frame with a sequence number, is read past its end. -/
theorem parse_reads_outside :
    ¬ ParseSafe 2 (frame802154Parse ⟨false, false, 8⟩ (fun x => if x = 0 then 1 else 0) 2 blankFrame) := by
  rintro ⟨hreads, -⟩
  exact absurd (hreads 2 (by decide)) (by decide)

end

/-!
The fields of a frame that were written and are read again: the frame control field, the security control field, PAN IDs
and addresses.
-/

section

open Contiki.Lib

variable {cfg : Config} {m : Mem} {fcf : Fcf} {s : Scan} {p : Frame}

/-! ## Bytes -/

theorem exists_fin {x : UInt8} {n : Nat} (h : x.toNat < n) : ∃ k : Fin n, UInt8.ofNat k.val = x :=
  ⟨⟨x.toNat, h⟩, UInt8.ofNat_toNat⟩

/-- The fields of the frame control field are within their bits, and the addresses absent, short or long. -/
structure Fcf.InWidth (fcf : Fcf) : Prop where
  frameType : fcf.frameType.toNat < 8
  securityEnabled : fcf.securityEnabled.toNat < 2
  framePending : fcf.framePending.toNat < 2
  ackRequired : fcf.ackRequired.toNat < 2
  panidCompression : fcf.panidCompression.toNat < 2
  sequenceNumberSuppression : fcf.sequenceNumberSuppression.toNat < 2
  ieListPresent : fcf.ieListPresent.toNat < 2
  destAddrMode : fcf.destAddrMode = FRAME802154_NOADDR ∨ fcf.destAddrMode = FRAME802154_SHORTADDRMODE ∨
    fcf.destAddrMode = FRAME802154_LONGADDRMODE
  frameVersion : fcf.frameVersion.toNat < 4
  srcAddrMode : fcf.srcAddrMode = FRAME802154_NOADDR ∨ fcf.srcAddrMode = FRAME802154_SHORTADDRMODE ∨
    fcf.srcAddrMode = FRAME802154_LONGADDRMODE

theorem fcf_first {a b c d e : UInt8} (ha : a.toNat < 8) (hb : b.toNat < 2) (hc : c.toNat < 2) (hd : d.toNat < 2)
    (he : e.toNat < 2) :
    let v := maskedBits a 7 0 ||| maskedBits b 1 3 ||| maskedBits c 1 4 ||| maskedBits d 1 5 ||| maskedBits e 1 6
    v &&& 7 = a ∧ v >>> 3 &&& 1 = b ∧ v >>> 4 &&& 1 = c ∧ v >>> 5 &&& 1 = d ∧ v >>> 6 &&& 1 = e := by
  obtain ⟨a, rfl⟩ := exists_fin ha
  obtain ⟨b, rfl⟩ := exists_fin hb
  obtain ⟨c, rfl⟩ := exists_fin hc
  obtain ⟨d, rfl⟩ := exists_fin hd
  obtain ⟨e, rfl⟩ := exists_fin he
  clear ha hb hc hd he
  revert a b c d e
  decide +kernel

theorem fcf_second {a b c d e : UInt8} (ha : a.toNat < 2) (hb : b.toNat < 2) (hc : c.toNat < 4) (hd : d.toNat < 4)
    (he : e.toNat < 4) :
    let v := maskedBits a 1 0 ||| maskedBits b 1 1 ||| maskedBits c 3 2 ||| maskedBits d 3 4 ||| maskedBits e 3 6
    v &&& 1 = a ∧ v >>> 1 &&& 1 = b ∧ v >>> 2 &&& 3 = c ∧ v >>> 4 &&& 3 = d ∧ v >>> 6 &&& 3 = e := by
  obtain ⟨a, rfl⟩ := exists_fin ha
  obtain ⟨b, rfl⟩ := exists_fin hb
  obtain ⟨c, rfl⟩ := exists_fin hc
  obtain ⟨d, rfl⟩ := exists_fin hd
  obtain ⟨e, rfl⟩ := exists_fin he
  clear ha hb hc hd he
  revert a b c d e
  decide +kernel

theorem mode_lt {mode : UInt8} (h : mode = FRAME802154_NOADDR ∨ mode = FRAME802154_SHORTADDRMODE ∨
    mode = FRAME802154_LONGADDRMODE) : mode.toNat < 4 := by
  rcases h with rfl | rfl | rfl
  · decide
  · decide
  · decide

theorem parseFcf_createFcf (h : fcf.InWidth) :
    frame802154ParseFcf (frame802154CreateFcf fcf).1 (frame802154CreateFcf fcf).2 = fcf := by
  obtain ⟨h1, h2, h3, h4, h5⟩ :=
    fcf_first h.frameType h.securityEnabled h.framePending h.ackRequired h.panidCompression
  obtain ⟨h6, h7, h8, h9, h10⟩ := fcf_second h.sequenceNumberSuppression h.ieListPresent (mode_lt h.destAddrMode)
    h.frameVersion (mode_lt h.srcAddrMode)
  unfold frame802154ParseFcf frame802154CreateFcf
  rw [h1, h2, h3, h4, h5, h6, h7, h8, h9, h10]

/-- The fields of the security control field are within their bits. -/
structure Scf.InWidth (scf : Scf) : Prop where
  securityLevel : scf.securityLevel.toNat < 8
  keyIdMode : scf.keyIdMode.toNat < 4
  frameCounterSuppression : scf.frameCounterSuppression.toNat < 2
  frameCounterSize : scf.frameCounterSize.toNat < 2

theorem scf_bits {a b c d : UInt8} (ha : a.toNat < 8) (hb : b.toNat < 4) (hc : c.toNat < 2) (hd : d.toNat < 2) :
    let v := a ||| b <<< 3 ||| c <<< 5 ||| d <<< 6
    v &&& 7 = a ∧ v >>> 3 &&& 3 = b ∧ v >>> 6 = d ∧ (v >>> 5 = c ↔ d = 0) := by
  obtain ⟨a, rfl⟩ := exists_fin ha
  obtain ⟨b, rfl⟩ := exists_fin hb
  obtain ⟨c, rfl⟩ := exists_fin hc
  obtain ⟨d, rfl⟩ := exists_fin hd
  clear ha hb hc hd
  revert a b c d
  decide +kernel

/-- The security control field is parsed as it was created, but for the suppression of a counter of five bytes. -/
theorem parseScf_createScf (cfg : Config) {scf : Scf} (h : scf.InWidth) (old : Scf) :
    (parseScf cfg (createScf cfg scf) old).securityLevel = scf.securityLevel ∧
    (cfg.usesExplicitKeys = true → (parseScf cfg (createScf cfg scf) old).keyIdMode = scf.keyIdMode) ∧
    (parseScf cfg (createScf cfg scf) old).frameCounterSize = scf.frameCounterSize ∧
    ((parseScf cfg (createScf cfg scf) old).frameCounterSuppression = scf.frameCounterSuppression ↔
      scf.frameCounterSize = 0) := by
  unfold parseScf createScf
  cases cfg.usesExplicitKeys with
  | true =>
    obtain ⟨h1, h2, h3, h4⟩ := scf_bits h.securityLevel h.keyIdMode h.frameCounterSuppression h.frameCounterSize
    exact ⟨h1, fun _ => h2, h3, h4⟩
  | false =>
    obtain ⟨h1, -, h3, h4⟩ :=
      scf_bits h.securityLevel (b := 0) (by decide) h.frameCounterSuppression h.frameCounterSize
    exact ⟨h1, by simp, h3, h4⟩

theorem pidAt_of_holds {pid : UInt16} {a : Nat} (h : Mem.Holds a (pidBytes pid) m) : pidAt m a = pid := by
  obtain ⟨h0, h1, -⟩ := h
  unfold pidAt
  rw [h0, h1, ← UInt16.toNat_inj]
  have hlt := pid.toNat_lt
  have hmask : ∀ x : Nat, x &&& 255 = x % 256 := fun x => Nat.and_two_pow_sub_one_eq_mod x 8
  simp only [UInt16.toNat_toUInt8, UInt16.toNat_and, UInt16.toNat_shiftRight, UInt16.toNat_ofNat', UInt16.reduceToNat,
    hmask, Nat.shiftLeft_eq, Nat.shiftRight_eq_div_pow, Nat.reduceMod, Nat.reducePow]
  omega

theorem addrBytes_length (addr : Fin 8 → UInt8) (mode : UInt8) :
    (addrBytes addr (addrLen mode)).length = addrLen mode := by
  unfold addrBytes addrLen
  rw [List.length_reverse, List.length_take, List.length_ofFn]
  split
  · rfl
  · split
    · rfl
    · rfl

theorem addrAt_of_holds {addr old : Fin 8 → UInt8} {mode : UInt8} {a : Nat}
    (h : Mem.Holds a (addrBytes addr (addrLen mode)) m) (i : Fin 8) (hi : i.val < addrLen mode) :
    addrAt cfg m a mode old i = addr i := by
  unfold addrAt
  unfold addrLen at h hi
  by_cases hs : mode = FRAME802154_SHORTADDRMODE
  · rw [if_pos hs] at h hi ⊢
    obtain ⟨h1, h0, -⟩ := h
    interval_cases hv : i.val
    · obtain rfl : i = 0 := Fin.ext hv
      simpa using h0
    · obtain rfl : i = 1 := Fin.ext hv
      simpa using h1
  · rw [if_neg hs] at h hi ⊢
    by_cases hl : mode = FRAME802154_LONGADDRMODE
    · rw [if_pos hl] at h hi ⊢
      unfold addrBytes at h
      refine (Mem.holds_iff.1 h (7 - i.val) (by simp; omega)).trans ?_
      rw [List.getElem_reverse, List.getElem_take, List.getElem_ofFn]
      refine congrArg addr (Fin.ext ?_)
      simp
      omega
    · rw [if_neg hl] at hi
      exact absurd hi (Nat.not_lt_zero _)

end

end Contiki.Frame802154
