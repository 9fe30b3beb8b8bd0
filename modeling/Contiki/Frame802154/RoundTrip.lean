/-
What frame802154_parse reads back of what frame802154_create writes. Each part of a header is parsed from its bytes. Two
headers are not read back: a frame of the 2015 version without addresses whose PAN ID compression bit is set has a
destination PAN ID that the parser passes over, and the size of the frame counter is read as a part of its suppression.
-/
import Contiki.Frame802154.Create

namespace Contiki.Frame802154

open Contiki.Lib

variable {cfg : Config} {m : Mem} {fcf : Fcf} {s : Scan} {p q : Frame}

/-! ## What is parsed -/

/-- A destination PAN ID without a destination address. -/
def LonePanid (fcf : Fcf) : Prop :=
  fcf.frameVersion = FRAME802154_IEEE802154_2015 ∧ fcf.destAddrMode = FRAME802154_NOADDR ∧
    fcf.srcAddrMode = FRAME802154_NOADDR ∧ fcf.panidCompression = 1

theorem and_of_lt_two {x : UInt8} (h : x.toNat < 2) : x &&& 1 = x := by
  obtain ⟨k, rfl⟩ := exists_fin h
  clear h
  revert k
  decide

theorem and_of_lt_four {x : UInt8} (h : x.toNat < 4) : x &&& 3 = x := by
  obtain ⟨k, rfl⟩ := exists_fin h
  clear h
  revert k
  decide

theorem hasPanid_dest (hlone : ¬ LonePanid fcf) (hd : fcf.destAddrMode.toNat < 4)
    (h : (frame802154HasPanid fcf).2 = true) : fcf.destAddrMode ≠ 0 := by
  rintro hzero
  unfold frame802154HasPanid at h
  rw [and_of_lt_four hd, hzero] at h
  split at h
  · rename_i hversion
    rcases of_decide_eq_true h with ⟨-, hsrc, hone⟩ | ⟨hne, -⟩ | ⟨hlong, -⟩ | ⟨hshort, -⟩ | ⟨hne, -⟩
    · exact hlone ⟨hversion, hzero, hsrc, hone⟩
    · exact hne rfl
    · cases hlong
    · cases hshort
    · exact hne rfl
  · split at h
    · have h : decide ((0 : UInt8) ≠ 0) = true := h
      exact absurd h (by decide)
    · cases h

theorem hasPanid_src (hs : fcf.srcAddrMode.toNat < 4) (h : (frame802154HasPanid fcf).1 = true) :
    fcf.srcAddrMode ≠ 0 := by
  rintro hzero
  unfold frame802154HasPanid at h
  rw [and_of_lt_four hs, hzero] at h
  split at h
  · obtain ⟨-, hmodes⟩ := of_decide_eq_true h
    rcases hmodes with ⟨-, he⟩ | ⟨-, he⟩ | ⟨-, he⟩ | ⟨-, he⟩ | ⟨-, he⟩ <;> cases he
  · split at h
    · exact (of_decide_eq_true h).2 rfl
    · cases h

theorem parseSeqno_pf {seq : UInt8} (s : Scan)
    (h : Mem.Holds s.cursor.pos (if fcf.sequenceNumberSuppression = 0 then [seq] else []) m) :
    ∃ seq', (parseSeqno m fcf s).pf = { s.pf with seq := seq' } ∧
      (fcf.sequenceNumberSuppression = 0 → seq' = seq) := by
  unfold parseSeqno
  by_cases hs : fcf.sequenceNumberSuppression = 0
  · rw [if_pos hs] at h ⊢
    exact ⟨_, rfl, fun _ => h.1⟩
  · rw [if_neg hs]
    exact ⟨s.pf.seq, rfl, fun h => absurd h hs⟩

theorem parseDest_pf (cfg : Config) {pan : Bool} {pid : UInt16} {addr : Fin 8 → UInt8} (s : Scan)
    (hpan : pan = true → fcf.destAddrMode ≠ 0)
    (h : Mem.Holds s.cursor.pos (pidAddrBytes pan pid addr fcf.destAddrMode) m) :
    ∃ pid' addr', (parseDest cfg m fcf pan s).pf = { s.pf with destPid := pid', destAddr := addr' } ∧
      (pan = true → pid' = pid) ∧ ∀ i : Fin 8, i.val < addrLen fcf.destAddrMode → addr' i = addr i := by
  unfold parseDest
  obtain ⟨hpid, haddr⟩ := Mem.holds_append.1 h
  by_cases hmode : fcf.destAddrMode ≠ 0
  · rw [if_pos hmode]
    cases pan with
    | true => exact ⟨_, _, rfl, fun _ => pidAt_of_holds hpid, fun i hi => addrAt_of_holds haddr i hi⟩
    | false => exact ⟨_, _, rfl, by simp, fun i hi => addrAt_of_holds haddr i hi⟩
  · rw [if_neg hmode]
    refine ⟨_, _, rfl, fun h => absurd (hpan h) hmode, fun i hi => ?_⟩
    rw [not_not.1 hmode] at hi
    exact absurd hi (Nat.not_lt_zero _)

theorem parseSrc_pf (cfg : Config) (pan' : Bool) {pan : Bool} {pid : UInt16} {addr : Fin 8 → UInt8} (s : Scan)
    (hpan : pan = true → fcf.srcAddrMode ≠ 0)
    (h : Mem.Holds s.cursor.pos (pidAddrBytes pan pid addr fcf.srcAddrMode) m) :
    ∃ pid' addr' destPid', (parseSrc cfg m fcf pan pan' s).pf =
        { s.pf with srcPid := pid', srcAddr := addr', destPid := destPid' } ∧
      (pan = true → pid' = pid) ∧ (pan' = true → destPid' = s.pf.destPid) ∧
      ∀ i : Fin 8, i.val < addrLen fcf.srcAddrMode → addr' i = addr i := by
  unfold parseSrc
  obtain ⟨hpid, haddr⟩ := Mem.holds_append.1 h
  by_cases hmode : fcf.srcAddrMode ≠ 0
  · rw [if_pos hmode]
    cases pan with
    | true =>
      exact ⟨_, _, _, rfl, fun _ => pidAt_of_holds hpid, fun hp => if_pos hp, fun i hi => addrAt_of_holds haddr i hi⟩
    | false => exact ⟨_, _, _, rfl, by simp, fun _ => rfl, fun i hi => addrAt_of_holds haddr i hi⟩
  · rw [if_neg hmode]
    refine ⟨_, _, _, rfl, fun h => absurd (hpan h) hmode, fun _ => rfl, fun i hi => ?_⟩
    rw [not_not.1 hmode] at hi
    exact absurd hi (Nat.not_lt_zero _)

/-- The frame `pf` has the frame control field, the sequence number, the PAN IDs and the addresses of `q`, as far as the
header has them. -/
structure Addressed (q pf : Frame) : Prop where
  fcf : pf.fcf = q.fcf
  seq : q.fcf.sequenceNumberSuppression = 0 → pf.seq = q.seq
  destPid : (frame802154HasPanid q.fcf).2 = true → pf.destPid = q.destPid
  destAddr : ∀ i : Fin 8, i.val < addrLen q.fcf.destAddrMode → pf.destAddr i = q.destAddr i
  srcPid : (frame802154HasPanid q.fcf).1 = true → pf.srcPid = q.srcPid
  srcAddr : ∀ i : Fin 8, i.val < addrLen q.fcf.srcAddrMode → pf.srcAddr i = q.srcAddr i

theorem parseAddressing_addressed (cfg : Config) (hw : q.fcf.InWidth) (hlone : ¬ LonePanid q.fcf) (s : Scan)
    (h : Mem.Holds s.cursor.pos (addressingBytes q) m) (hfcf : s.pf.fcf = q.fcf) :
    Addressed q (parseAddressing cfg m q.fcf s).pf ∧
    (parseAddressing cfg m q.fcf s).cursor.pos = s.cursor.pos + (addressingBytes q).length := by
  have hd := mode_lt hw.destAddrMode
  have hs := mode_lt hw.srcAddrMode
  unfold addressingBytes at h ⊢
  rw [and_of_lt_two hw.sequenceNumberSuppression, and_of_lt_four hd, and_of_lt_four hs] at h ⊢
  obtain ⟨hseq, hrest⟩ := Mem.holds_append.1 h
  obtain ⟨hdest, hsrc⟩ := Mem.holds_append.1 hrest
  rw [ite_length, List.length_singleton] at hdest hsrc
  rw [pidAddrBytes_length] at hsrc
  -- where each part begins
  have hpos₁ := (parseSeqno_passes m q.fcf s).1
  have hpos₂ := (parseDest_passes cfg m q.fcf (frame802154HasPanid q.fcf).2 (parseSeqno m q.fcf s)).1
  have hpos₃ := (parseSrc_passes cfg m q.fcf (frame802154HasPanid q.fcf).1 (frame802154HasPanid q.fcf).2
    (parseDest cfg m q.fcf (frame802154HasPanid q.fcf).2 (parseSeqno m q.fcf s))).1
  have hlen : ∀ {mode : UInt8} {pan : Bool}, (pan = true → mode ≠ 0) →
      (if mode ≠ 0 then (if pan = true then 2 else 0) + addrLen mode else 0) =
        (if pan = true then 2 else 0) + addrLen mode := by
    intro mode pan hpan
    by_cases hmode : mode ≠ 0
    · rw [if_pos hmode]
    · rw [if_neg hmode, if_neg fun h => hmode (hpan h), not_not.1 hmode]
      rfl
  rw [hlen (hasPanid_dest hlone hd)] at hpos₂
  rw [hlen (hasPanid_src hs)] at hpos₃
  obtain ⟨seq, hpf₁, hseq⟩ := parseSeqno_pf s hseq
  rw [← hpos₁] at hdest
  obtain ⟨destPid, destAddr, hpf₂, hdestPid, hdestAddr⟩ :=
    parseDest_pf cfg (parseSeqno m q.fcf s) (hasPanid_dest hlone hd) hdest
  rw [← hpos₁, ← hpos₂] at hsrc
  obtain ⟨srcPid, srcAddr, destPid', hpf₃, hsrcPid, hkept, hsrcAddr⟩ :=
    parseSrc_pf cfg (frame802154HasPanid q.fcf).2 _ (hasPanid_src hs) hsrc
  rw [hpf₂, hpf₁] at hpf₃ hkept
  unfold parseAddressing
  constructor
  · rw [hpf₃]
    exact ⟨hfcf, hseq, fun h => (hkept h).trans (hdestPid h), hdestAddr, hsrcPid, hsrcAddr⟩
  · rw [hpos₃, hpos₂, hpos₁, List.length_append, List.length_append, pidAddrBytes_length, pidAddrBytes_length,
      ite_length, List.length_singleton]
    omega

/-- The auxiliary header `aux` has the fields of `auxHdr`, as far as they are written. -/
structure AuxRecovered (cfg : Config) (auxHdr aux : AuxHdr) : Prop where
  securityLevel : aux.securityControl.securityLevel = auxHdr.securityControl.securityLevel
  suppression : aux.securityControl.frameCounterSuppression = auxHdr.securityControl.frameCounterSuppression
  size : aux.securityControl.frameCounterSize = auxHdr.securityControl.frameCounterSize
  counter : auxHdr.securityControl.frameCounterSuppression = 0 → aux.frameCounter = auxHdr.frameCounter
  keyIdMode : cfg.usesExplicitKeys = true → aux.securityControl.keyIdMode = auxHdr.securityControl.keyIdMode
  keyIndex : cfg.usesExplicitKeys = true → auxHdr.securityControl.keyIdMode ≠ 0 → aux.keyIndex = auxHdr.keyIndex
  keySource : cfg.usesExplicitKeys = true → auxHdr.securityControl.keyIdMode ≠ 0 →
    ∀ i : Fin 8, i.val < (auxHdr.securityControl.keyIdMode.toNat - 1) * 4 → aux.keySource i = auxHdr.keySource i

theorem parseCounter_pf (m : Mem) (scf : Scf) (s : Scan) : ∃ counter', (parseCounter m scf s).pf =
      { s.pf with auxHdr := { s.pf.auxHdr with frameCounter := counter' } } ∧
    ∀ counter, Mem.Holds s.cursor.pos (if scf.frameCounterSuppression = 0 then List.ofFn counter else []) m →
      scf.frameCounterSuppression = 0 → counter' = counter := by
  unfold parseCounter
  by_cases hs : scf.frameCounterSuppression = 0
  · rw [if_pos hs]
    refine ⟨_, rfl, fun counter h _ => funext fun i => ?_⟩
    rw [if_pos hs] at h
    refine (Mem.holds_iff.1 h i.val (by simp)).trans ?_
    rw [List.getElem_ofFn]
  · rw [if_neg hs]
    exact ⟨_, rfl, fun _ _ h => absurd h hs⟩

theorem parseKey_pf (cfg : Config) (m : Mem) (scf : Scf) (s : Scan) : ∃ src' index', (parseKey cfg m scf s).pf =
      { s.pf with auxHdr := { s.pf.auxHdr with keySource := src', keyIndex := index' } } ∧
    ∀ src index, Mem.Holds s.cursor.pos (if cfg.usesExplicitKeys ∧ scf.keyIdMode ≠ 0 then
        (List.ofFn src).take ((scf.keyIdMode.toNat - 1) * 4) ++ [index] else []) m → scf.keyIdMode.toNat < 4 →
      cfg.usesExplicitKeys = true → scf.keyIdMode ≠ 0 → index' = index ∧
        ∀ i : Fin 8, i.val < (scf.keyIdMode.toNat - 1) * 4 → src' i = src i := by
  unfold parseKey
  by_cases hk : cfg.usesExplicitKeys = true ∧ scf.keyIdMode ≠ 0
  · rw [if_pos hk]
    refine ⟨_, _, rfl, fun src index h hlt _ _ => ?_⟩
    rw [if_pos hk] at h
    obtain ⟨hsrc, hindex, -⟩ := Mem.holds_append.1 h
    have hle : (scf.keyIdMode.toNat - 1) * 4 ≤ 8 := by omega
    rw [List.length_take, List.length_ofFn, Nat.min_eq_left hle] at hindex
    refine ⟨hindex, fun i hi => ?_⟩
    rw [if_pos hi]
    refine (Mem.holds_iff.1 hsrc i.val ?_).trans ?_
    · rw [List.length_take, List.length_ofFn, Nat.min_eq_left hle]
      exact hi
    · rw [List.getElem_take, List.getElem_ofFn]
  · rw [if_neg hk]
    exact ⟨_, _, rfl, fun _ _ _ _ h h' => absurd ⟨h, h'⟩ hk⟩

theorem parseAux_pf (cfg : Config) (m : Mem) (s : Scan) :
    ∃ aux, (parseAux cfg m s).pf = { s.pf with auxHdr := aux } ∧
      aux.securityControl = parseScf cfg (m s.cursor.pos) s.pf.auxHdr.securityControl := by
  obtain ⟨counter, hpf₂, -⟩ := parseCounter_pf m (parseScf cfg (m s.cursor.pos) s.pf.auxHdr.securityControl)
    ⟨s.cursor.take 1, { s.pf with auxHdr := { s.pf.auxHdr with
      securityControl := parseScf cfg (m s.cursor.pos) s.pf.auxHdr.securityControl } }⟩
  obtain ⟨src, index, hpf₃, -⟩ := parseKey_pf cfg m (parseScf cfg (m s.cursor.pos) s.pf.auxHdr.securityControl)
    (parseCounter m (parseScf cfg (m s.cursor.pos) s.pf.auxHdr.securityControl) ⟨s.cursor.take 1, { s.pf with
      auxHdr := { s.pf.auxHdr with
        securityControl := parseScf cfg (m s.cursor.pos) s.pf.auxHdr.securityControl } }⟩)
  rw [hpf₂] at hpf₃
  exact ⟨_, hpf₃, rfl⟩

theorem auxSecLen_created {auxHdr : AuxHdr} (hw : auxHdr.securityControl.InWidth)
    (hsize : auxHdr.securityControl.frameCounterSize = 0) (old : Scf) :
    auxSecLen cfg (parseScf cfg (createScf cfg auxHdr.securityControl) old) = auxSecLen cfg auxHdr.securityControl := by
  obtain ⟨-, hmode, hsize', hsupp⟩ := parseScf_createScf cfg hw old
  unfold auxSecLen
  rw [hsupp.2 hsize, hsize']
  by_cases hkeys : cfg.usesExplicitKeys = true
  · rw [hmode hkeys]
  · rw [if_neg hkeys, if_neg hkeys]

theorem parseAux_recovered {auxHdr : AuxHdr} (hw : auxHdr.securityControl.InWidth)
    (hsize : auxHdr.securityControl.frameCounterSize = 0) (s : Scan)
    (h : Mem.Holds s.cursor.pos (auxBytes cfg auxHdr) m) : AuxRecovered cfg auxHdr (parseAux cfg m s).pf.auxHdr := by
  obtain ⟨hscf, hrest⟩ := h
  obtain ⟨hcounter, hkey⟩ := Mem.holds_append.1 hrest
  unfold counterBytes keyBytes at *
  obtain ⟨hlevel, hmode, hsize', hsupp⟩ := parseScf_createScf cfg hw s.pf.auxHdr.securityControl
  have hsupp := hsupp.2 hsize
  have hpassed := parseCounter_passes cfg m (createScf cfg auxHdr.securityControl) s.pf.auxHdr.securityControl
    ⟨s.cursor.take 1, { s.pf with auxHdr := { s.pf.auxHdr with
      securityControl := parseScf cfg (createScf cfg auxHdr.securityControl) s.pf.auxHdr.securityControl } }⟩
  unfold parseAux
  rw [hscf]
  generalize parseScf cfg (createScf cfg auxHdr.securityControl) s.pf.auxHdr.securityControl = scf at *
  obtain ⟨counter, hpf₂, hcounter'⟩ := parseCounter_pf m scf
    ⟨s.cursor.take 1, { s.pf with auxHdr := { s.pf.auxHdr with securityControl := scf } }⟩
  obtain ⟨src, index, hpf₃, hkey'⟩ := parseKey_pf cfg m scf
    (parseCounter m scf ⟨s.cursor.take 1, { s.pf with auxHdr := { s.pf.auxHdr with securityControl := scf } }⟩)
  rw [hpf₂] at hpf₃
  dsimp only
  rw [hpf₃]
  -- the key identifier begins behind the counter
  have hpos := hpassed.1
  rw [hsize', hsize, if_neg (show ¬ (0 : UInt8) = 1 by decide)] at hpos
  rw [← hsupp] at hcounter hkey
  rw [ite_length, List.length_ofFn] at hkey
  have hkey : cfg.usesExplicitKeys = true → scf.keyIdMode ≠ 0 → index = auxHdr.keyIndex ∧
      ∀ i : Fin 8, i.val < (scf.keyIdMode.toNat - 1) * 4 → src i = auxHdr.keySource i := by
    intro hkeys
    rw [← hmode hkeys] at hkey
    refine hkey' auxHdr.keySource auxHdr.keyIndex ?_ (hmode hkeys ▸ hw.keyIdMode) hkeys
    rw [hpos]
    exact hkey
  exact ⟨hlevel, hsupp, hsize', fun h => hcounter' _ hcounter (hsupp.trans h), hmode,
    fun hkeys hne => (hkey hkeys (hmode hkeys ▸ hne)).1,
    fun hkeys hne i hi => (hkey hkeys (hmode hkeys ▸ hne)).2 i (hmode hkeys ▸ hi)⟩

/-! ## Round trip -/

/-- The parser returns the header of `n` bytes of the frame `q`, with the payload behind it. -/
structure Recovered (cfg : Config) (q : Frame) (n : Nat) (len : Int) (r : Parsed) : Prop where
  hdrlen : r.hdrlen = n
  payload : r.pf.payload = n
  payloadLen : r.pf.payloadLen = len - n
  addressed : Addressed q r.pf
  aux : HasAux cfg q.fcf → AuxRecovered cfg q.auxHdr r.pf.auxHdr

/-- Creating a frame writes the header, and from any buffer that begins with it the header is parsed again. -/
def RoundTrip (cfg : Config) (p : Frame) : Prop :=
  ∀ buf, Written (frame802154Hdrlen cfg p) buf (frame802154Create cfg p buf).2 ∧
    ∀ (m : Mem) (len : Int) (pf : Frame), (∀ x < frame802154Hdrlen cfg p, m x = (frame802154Create cfg p buf).2.mem x) →
      (frame802154Hdrlen cfg p : Int) ≤ len →
      Recovered cfg (frame802154Create cfg p buf).1 (frame802154Hdrlen cfg p) len (frame802154Parse cfg m len pf)

theorem fieldLen_lonePanid (cfg : Config) (p : Frame) : LonePanid (fieldLen cfg p).1.fcf ↔ LonePanid p.fcf := by
  obtain ⟨c, -, he, hversion⟩ := fieldLen_frame cfg p
  rw [he]
  unfold LonePanid
  dsimp only
  constructor
  · rintro ⟨h, hd, hs, hone⟩
    exact ⟨h, hd, hs, (hversion h).symm.trans hone⟩
  · rintro ⟨h, hd, hs, hone⟩
    exact ⟨h, hd, hs, (hversion h).trans hone⟩

theorem hasAux_iff (hw : q.fcf.InWidth) : cfg.usesAuxHeader = true ∧ q.fcf.securityEnabled ≠ 0 ↔ HasAux cfg q.fcf := by
  unfold HasAux
  rw [and_of_lt_two hw.securityEnabled]

theorem parseFcf_of_holds (hw : q.fcf.InWidth) (h : Mem.Holds 0 (fcfBytes q.fcf ++ addressingBytes q) m) :
    frame802154ParseFcf (m 0) (m 1) = q.fcf := by
  obtain ⟨h0, h1, -⟩ := h
  rw [h0, h1, parseFcf_createFcf hw]

theorem parse_recovered (hw : q.InWidth) (hlone : ¬ LonePanid q.fcf)
    (hsize : HasAux cfg q.fcf → q.auxHdr.securityControl.frameCounterSize = 0)
    (h : Mem.Holds 0 (fcfBytes q.fcf ++ addressingBytes q) m)
    (haux : HasAux cfg q.fcf → Mem.Holds (2 + (addressingBytes q).length) (auxBytes cfg q.auxHdr) m)
    {n : Nat} (hn : n = 2 + (addressingBytes q).length +
      if HasAux cfg q.fcf then auxSecLen cfg q.auxHdr.securityControl else 0)
    {len : Int} (hlen : (n : Int) ≤ len) (pf : Frame) : Recovered cfg q n len (frame802154Parse cfg m len pf) := by
  have hfcf := parseFcf_of_holds hw.fcf h
  obtain ⟨haddressed, hpos⟩ := parseAddressing_addressed cfg hw.fcf hlone
    ⟨Cursor.start.take 2, { pf with fcf := q.fcf }⟩ (Mem.holds_append.1 h).2 rfl
  have hstart : (Cursor.start.take 2).pos = 2 := rfl
  dsimp only at hpos
  rw [hstart] at hpos
  -- what the parser leaves, with or without the auxiliary header
  have hheader : (parseHeader cfg m pf).cursor.pos = n ∧ Addressed q (parseHeader cfg m pf).pf ∧
      (HasAux cfg q.fcf → AuxRecovered cfg q.auxHdr (parseHeader cfg m pf).pf.auxHdr) := by
    unfold parseHeader
    rw [hfcf]
    dsimp only
    by_cases ha : HasAux cfg q.fcf
    · rw [if_pos ((hasAux_iff hw.fcf).2 ha)]
      rw [if_pos ha] at hn
      have haux := haux ha
      rw [← hpos] at haux
      obtain ⟨aux, hpf, -⟩ := parseAux_pf cfg m
        (parseAddressing cfg m q.fcf ⟨Cursor.start.take 2, { pf with fcf := q.fcf }⟩)
      refine ⟨?_, ?_, fun _ => parseAux_recovered hw.scf (hsize ha) _ haux⟩
      · rw [(parseAux_passes cfg m _).1, haux.1, auxSecLen_created hw.scf (hsize ha), hpos, hn]
      · rw [hpf]
        exact ⟨haddressed.1, haddressed.2, haddressed.3, haddressed.4, haddressed.5, haddressed.6⟩
    · rw [if_neg fun hc => ha ((hasAux_iff hw.fcf).1 hc)]
      rw [if_neg ha] at hn
      exact ⟨hpos.trans hn.symm, haddressed, fun h => absurd h ha⟩
  obtain ⟨hpos, haddressed, haux⟩ := hheader
  unfold frame802154Parse
  rw [if_neg (by omega)]
  dsimp only
  rw [hpos, if_neg (not_lt.2 hlen)]
  exact ⟨rfl, rfl, rfl, ⟨haddressed.1, haddressed.2, haddressed.3, haddressed.4, haddressed.5, haddressed.6⟩, haux⟩

/-! ## Headers that are not read back -/

theorem LonePanid.hasPanid (h : LonePanid fcf) : frame802154HasPanid fcf = (false, true) := by
  obtain ⟨hversion, hd, hs, hone⟩ := h
  unfold frame802154HasPanid
  rw [if_pos hversion, hd, hs, hone]
  rfl

theorem parseAddressing_lone (hd : fcf.destAddrMode = 0) (hs : fcf.srcAddrMode = 0) (cfg : Config) (m : Mem)
    (s : Scan) : (parseAddressing cfg m fcf s).pf.destPid = 0 := by
  have hd : ¬ fcf.destAddrMode ≠ 0 := not_not.2 hd
  have hs : ¬ fcf.srcAddrMode ≠ 0 := not_not.2 hs
  unfold parseAddressing parseSrc parseDest
  dsimp only
  rw [if_neg hs, if_neg hd]

theorem auxSecLen_ne_three (cfg : Config) (scf : Scf) : auxSecLen cfg scf ≠ 3 := by
  unfold auxSecLen getKeyIdLen
  split_ifs <;> omega

/-- The destination PAN ID of a header without addresses is taken for what follows it. -/
theorem lonePanid_not_recovered (hw : q.fcf.InWidth) (hlone : LonePanid q.fcf)
    (h : Mem.Holds 0 (fcfBytes q.fcf ++ addressingBytes q) m) {n : Nat} (hn : n = 2 + (addressingBytes q).length +
      if HasAux cfg q.fcf then auxSecLen cfg q.auxHdr.securityControl else 0) (len : Int) (pf : Frame) :
    ¬ Recovered cfg q n len (frame802154Parse cfg m len pf) := by
  intro hr
  have hfcf := parseFcf_of_holds hw h
  have hbytes : addressingBytes q =
      (if q.fcf.sequenceNumberSuppression = 0 then [q.seq] else []) ++ (pidBytes q.destPid ++ []) := by
    unfold addressingBytes pidAddrBytes
    rw [hlone.hasPanid, and_of_lt_two hw.sequenceNumberSuppression, hlone.2.1, hlone.2.2.1]
    rfl
  have hlen : addressingLen q.fcf = if q.fcf.sequenceNumberSuppression = 0 then 1 else 0 := by
    unfold addressingLen
    rw [hlone.2.1, hlone.2.2.1]
    rfl
  have hlen' : (addressingBytes q).length = addressingLen q.fcf + 2 := by
    rw [hbytes, List.length_append, ite_length, hlen]
    rfl
  rw [hlen'] at hn
  -- the parser returns the length that is announced
  have hannounced : announcedLen cfg m = n ∧ (parseHeader cfg m pf).pf.destPid = q.destPid := by
    have hret := hr.hdrlen
    have hpid := hr.addressed.destPid (by rw [hlone.hasPanid])
    unfold frame802154Parse at hret hpid
    by_cases hlt : len < 2
    · rw [if_pos hlt] at hret
      dsimp only at hret
      omega
    · rw [if_neg hlt] at hret hpid
      dsimp only at hret hpid
      rw [(parseHeader_passes cfg m pf).1] at hret
      refine ⟨?_, hpid⟩
      split at hret
      · omega
      · exact Int.ofNat.inj hret
  obtain ⟨hannounced, hpid⟩ := hannounced
  unfold announcedLen at hannounced
  unfold parseHeader at hpid
  rw [hfcf] at hannounced hpid
  dsimp only at hannounced hpid
  have hdest := parseAddressing_lone hlone.2.1 hlone.2.2.1 cfg m ⟨Cursor.start.take 2, { pf with fcf := q.fcf }⟩
  by_cases ha : HasAux cfg q.fcf
  · rw [if_pos ha] at hn
    rw [if_pos ((hasAux_iff hw).2 ha)] at hannounced hpid
    obtain ⟨aux, hpf, -⟩ := parseAux_pf cfg m
      (parseAddressing cfg m q.fcf ⟨Cursor.start.take 2, { pf with fcf := q.fcf }⟩)
    rw [hpf] at hpid
    have hzero : q.destPid = 0 := hpid.symm.trans hdest
    -- its first byte is read as the security control field
    have hscf : m (2 + addressingLen q.fcf) = 0 := by
      have hsecond := (Mem.holds_append.1 h).2
      rw [hbytes, hzero] at hsecond
      have hfirst := (Mem.holds_append.1 hsecond).2.1
      rw [ite_length, List.length_singleton, ← hlen] at hfirst
      rw [show 2 + addressingLen q.fcf = 0 + (fcfBytes q.fcf).length + addressingLen q.fcf by
        rw [Nat.zero_add]
        rfl]
      exact hfirst
    have hfive : auxSecLen cfg (parseScf cfg 0 ⟨0, 0, 0, 0⟩) = 5 := by
      unfold auxSecLen parseScf
      cases cfg.usesExplicitKeys with
      | true => rfl
      | false => rfl
    rw [hscf, hfive] at hannounced
    have := auxSecLen_ne_three cfg q.auxHdr.securityControl
    omega
  · rw [if_neg ha] at hn
    rw [if_neg fun hc => ha ((hasAux_iff hw).1 hc)] at hannounced
    omega

/-- The suppression is not read back with a counter of five bytes. -/
theorem size_not_recovered (hw : q.InWidth) (hlone : ¬ LonePanid q.fcf) (haux : HasAux cfg q.fcf)
    (hsize : q.auxHdr.securityControl.frameCounterSize ≠ 0) (h : Mem.Holds 0 (fcfBytes q.fcf ++ addressingBytes q) m)
    (hscf : m (2 + (addressingBytes q).length) = createScf cfg q.auxHdr.securityControl) {n : Nat} (hn : n ≠ 0)
    (len : Int) (pf : Frame) : ¬ Recovered cfg q n len (frame802154Parse cfg m len pf) := by
  intro hr
  have hfcf := parseFcf_of_holds hw.fcf h
  have hsupp := (hr.aux haux).suppression
  have hret := hr.hdrlen
  obtain ⟨-, hpos⟩ := parseAddressing_addressed cfg hw.fcf hlone
    ⟨Cursor.start.take 2, { pf with fcf := q.fcf }⟩ (Mem.holds_append.1 h).2 rfl
  have hstart : (Cursor.start.take 2).pos = 2 := rfl
  dsimp only at hpos
  rw [hstart] at hpos
  unfold frame802154Parse at hret hsupp
  by_cases hlt : len < 2
  · rw [if_pos hlt] at hret
    exact hn (Int.ofNat.inj hret).symm
  · rw [if_neg hlt] at hsupp
    unfold parseHeader at hsupp
    rw [hfcf] at hsupp
    dsimp only at hsupp
    rw [if_pos ((hasAux_iff hw.fcf).2 haux)] at hsupp
    obtain ⟨aux, hpf, haux'⟩ := parseAux_pf cfg m
      (parseAddressing cfg m q.fcf ⟨Cursor.start.take 2, { pf with fcf := q.fcf }⟩)
    rw [hpf, haux', hpos, hscf] at hsupp
    exact hsize ((parseScf_createScf cfg hw.scf _).2.2.2.1 hsupp)

/-- A frame is created and parsed again exactly when it is no frame of the 2015 version without addresses but with a PAN
ID, and has no frame counter of five bytes. -/
theorem round_trip (cfg : Config) (p : Frame) (h : p.InWidth) : RoundTrip cfg p ↔
      ¬ LonePanid p.fcf ∧ ¬ (HasAux cfg p.fcf ∧ p.auxHdr.securityControl.frameCounterSize = 1) := by
  have hw := fieldLen_inWidth cfg h
  obtain ⟨hauxHdr, haux⟩ := fieldLen_aux cfg p
  have hlone := fieldLen_lonePanid cfg p
  have hn := hdrlen_eq cfg p
  have hone : p.auxHdr.securityControl.frameCounterSize ≠ 0 ↔ p.auxHdr.securityControl.frameCounterSize = 1 := by
    have hbits : ∀ k : Fin 2, UInt8.ofNat k.val ≠ 0 ↔ UInt8.ofNat k.val = 1 := by decide
    obtain ⟨k, hk⟩ := exists_fin h.scf.frameCounterSize
    exact hk ▸ hbits k
  have hcreated : ∀ buf, (frame802154Create cfg p buf).1 = (fieldLen cfg p).1 := fun buf => by rw [create_eq]
  constructor
  · intro hround
    obtain ⟨-, hparsed⟩ := hround fun _ => 0
    obtain ⟨hholds, hscf⟩ := create_holds cfg p fun _ => 0
    have hr := hparsed _ (frame802154Hdrlen cfg p) p (fun _ _ => rfl) le_rfl
    rw [hcreated] at hr
    have hnot : ¬ LonePanid p.fcf := fun hc =>
      lonePanid_not_recovered hw.fcf (hlone.2 hc) hholds hn _ _ hr
    refine ⟨hnot, ?_⟩
    rintro ⟨ha, hsize⟩
    refine size_not_recovered hw (fun hc => hnot (hlone.1 hc)) (haux.2 ha) ?_ hholds (hscf (haux.2 ha)) ?_ _ _ hr
    · rw [hauxHdr]
      exact hone.2 hsize
    · omega
  · rintro ⟨hnot, hsize⟩ buf
    obtain ⟨hwritten, hauxBytes⟩ := create_written cfg h hsize buf
    refine ⟨hwritten, fun m len pf hm hlen => ?_⟩
    rw [hcreated]
    obtain ⟨hholds, -⟩ := create_holds cfg p buf
    have hsame : ∀ {a : Nat} {l : List UInt8}, Mem.Holds a l (frame802154Create cfg p buf).2.mem →
        a + l.length ≤ frame802154Hdrlen cfg p → Mem.Holds a l m := fun hl hle => hl.congr fun x _ hx => hm x (by omega)
    have hlen' : 0 + (fcfBytes (fieldLen cfg p).1.fcf ++ addressingBytes (fieldLen cfg p).1).length =
        2 + (addressingBytes (fieldLen cfg p).1).length := by
      rw [List.length_append, Nat.zero_add]
      rfl
    have hfour : HasAux cfg p.fcf → p.auxHdr.securityControl.frameCounterSize = 0 := fun ha =>
      not_not.1 fun hc => hsize ⟨ha, hone.1 hc⟩
    refine parse_recovered hw (fun hc => hnot (hlone.1 hc)) ?_ (hsame hholds (by omega)) ?_ hn hlen pf
    · intro ha
      rw [hauxHdr]
      exact hfour (haux.1 ha)
    · intro ha
      rw [hauxHdr]
      refine hsame (hauxBytes (haux.1 ha)) ?_
      have hzero := hfour (haux.1 ha)
      rw [auxBytes_length h.scf (by rw [hzero]; decide), hn, if_pos ha, hauxHdr]

/-- A frame of the 2015 version with short addresses, and with a security header. -/
def securedFrame : Frame :=
  { blankFrame with
    fcf := ⟨1, 1, 0, 1, 1, 0, 0, FRAME802154_SHORTADDRMODE, FRAME802154_IEEE802154_2015, FRAME802154_SHORTADDRMODE⟩
    auxHdr := { blankFrame.auxHdr with securityControl := ⟨5, 1, 0, 0⟩ } }

theorem round_trip_securedFrame : securedFrame.InWidth ∧ (RoundTrip ⟨true, true, 8⟩ securedFrame ↔
    ¬ LonePanid securedFrame.fcf ∧ ¬ (HasAux ⟨true, true, 8⟩ securedFrame.fcf ∧
      securedFrame.auxHdr.securityControl.frameCounterSize = 1)) := by
  have h : securedFrame.InWidth := by
    constructor
    · constructor <;> decide
    · constructor <;> decide
  exact ⟨h, round_trip _ _ h⟩

/-- A frame without addresses whose PAN ID compression bit is set. -/
def loneFrame : Frame :=
  { blankFrame with
    fcf := ⟨1, 0, 0, 0, 1, 0, 0, FRAME802154_NOADDR, FRAME802154_IEEE802154_2015, FRAME802154_NOADDR⟩
    destPid := 0xabcd }

/-- Five bytes are created of the header, and three are parsed. -/
theorem lone_panid_lost : loneFrame.InWidth ∧ ¬ RoundTrip ⟨false, false, 8⟩ loneFrame := by
  refine ⟨?_, fun hround => ?_⟩
  · constructor
    · constructor <;> decide
    · constructor <;> decide
  · obtain ⟨-, hparsed⟩ := hround fun _ => 0
    have hr := (hparsed _ 5 blankFrame (fun _ _ => rfl) (by decide)).hdrlen
    exact absurd hr (by decide)

end Contiki.Frame802154
