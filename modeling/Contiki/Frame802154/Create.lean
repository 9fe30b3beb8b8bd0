/-
What frame802154_create writes: the bytes of the parts of the header, one after the other. Their number is
frame802154_hdrlen, and all of them are written but for the fifth byte of a frame counter.
-/
import Contiki.Frame802154.Parse

namespace Contiki.Frame802154

open Contiki.Lib

variable {cfg : Config} {m : Mem} {p q : Frame}

/-! ## What is created -/

def fcfBytes (fcf : Fcf) : List UInt8 := [(frame802154CreateFcf fcf).1, (frame802154CreateFcf fcf).2]

def pidAddrBytes (pan : Bool) (pid : UInt16) (addr : Fin 8 → UInt8) (mode : UInt8) : List UInt8 :=
  (if pan = true then pidBytes pid else []) ++ addrBytes addr (addrLen mode)

def addressingBytes (p : Frame) : List UInt8 :=
  (if p.fcf.sequenceNumberSuppression &&& 1 = 0 then [p.seq] else []) ++
    (pidAddrBytes (frame802154HasPanid p.fcf).2 p.destPid p.destAddr (p.fcf.destAddrMode &&& 3) ++
      pidAddrBytes (frame802154HasPanid p.fcf).1 p.srcPid p.srcAddr (p.fcf.srcAddrMode &&& 3))

def keyBytes (cfg : Config) (auxHdr : AuxHdr) : List UInt8 :=
  if cfg.usesExplicitKeys ∧ auxHdr.securityControl.keyIdMode ≠ 0 then
    (List.ofFn auxHdr.keySource).take ((auxHdr.securityControl.keyIdMode.toNat - 1) * 4) ++ [auxHdr.keyIndex]
  else []

def counterBytes (auxHdr : AuxHdr) : List UInt8 :=
  if auxHdr.securityControl.frameCounterSuppression = 0 then List.ofFn auxHdr.frameCounter else []

def HasAux (cfg : Config) (fcf : Fcf) : Prop := cfg.usesAuxHeader = true ∧ fcf.securityEnabled &&& 1 ≠ 0

instance (cfg : Config) (fcf : Fcf) : Decidable (HasAux cfg fcf) :=
  inferInstanceAs (Decidable (_ ∧ _))

theorem create_eq (cfg : Config) (p : Frame) (buf : Mem) :
    frame802154Create cfg p buf = ((fieldLen cfg p).1,
      let o := (⟨buf, .start⟩ : Out).bytes (fcfBytes (fieldLen cfg p).1.fcf ++ addressingBytes (fieldLen cfg p).1)
      if HasAux cfg (fieldLen cfg p).1.fcf then createAux cfg (fieldLen cfg p).1.auxHdr o else o) := by
  unfold frame802154Create fieldLen
  generalize (if p.fcf.frameVersion < FRAME802154_IEEE802154_2015 then _ else p : Frame) = q
  dsimp only
  have hone : ∀ (c : Prop) [Decidable c], (if c then 1 else 0) = 1 ↔ c := by
    intro c _
    split
    · simpa
    · simpa
  have htwo : ∀ (c : Prop) [Decidable c], (if c then 2 else 0) = 2 ↔ c := by
    intro c _
    split
    · simpa
    · simpa
  have haux : (cfg.usesAuxHeader = true ∧ (if cfg.usesAuxHeader = true ∧ q.fcf.securityEnabled &&& 1 ≠ 0 then
      auxSecLen cfg q.auxHdr.securityControl else 0) ≠ 0) ↔ HasAux cfg q.fcf := by
    have hpos := auxSecLen_pos cfg q.auxHdr.securityControl
    unfold HasAux
    split
    · rename_i h
      exact ⟨fun _ => h, fun h => ⟨h.1, hpos.ne'⟩⟩
    · rename_i h
      exact ⟨fun hc => absurd rfl hc.2, fun hc => absurd hc h⟩
  simp only [hone, htwo, haux, ← Out.bytes_singleton, Out.bytes_ite]
  unfold fcfBytes addressingBytes pidAddrBytes
  simp only [← Out.bytes_append, List.append_assoc]

def auxBytes (cfg : Config) (auxHdr : AuxHdr) : List UInt8 :=
  createScf cfg auxHdr.securityControl :: (counterBytes auxHdr ++ keyBytes cfg auxHdr)

theorem createCounter_eq {auxHdr : AuxHdr} (h : auxHdr.securityControl.frameCounterSize ≠ 1) (o : Out) :
    createCounter auxHdr o = o.bytes (counterBytes auxHdr) := by
  unfold createCounter counterBytes
  rw [if_neg h]
  exact Out.bytes_ite ..

theorem createKey_eq (cfg : Config) (auxHdr : AuxHdr) (o : Out) :
    createKey cfg auxHdr o = o.bytes (keyBytes cfg auxHdr) := by
  unfold createKey keyBytes
  dsimp only
  rw [← Out.bytes_singleton, ← Out.bytes_append]
  exact Out.bytes_ite ..

theorem createAux_eq {auxHdr : AuxHdr} (h : auxHdr.securityControl.frameCounterSize ≠ 1) (o : Out) :
    createAux cfg auxHdr o = o.bytes (auxBytes cfg auxHdr) := by
  unfold createAux auxBytes
  rw [createKey_eq, createCounter_eq h, Out.bytes_cons, Out.bytes_append]

theorem createAux_extends (cfg : Config) (auxHdr : AuxHdr) (o : Out) :
    Out.Extends (o.bytes [createScf cfg auxHdr.securityControl]) (createAux cfg auxHdr o) := by
  unfold createAux
  rw [createKey_eq]
  refine Out.Extends.trans ?_ (Out.extends_bytes _ _)
  unfold createCounter
  split
  · dsimp only
    split
    · exact (Out.extends_bytes _ _).trans (Out.extends_skip 1 _)
    · exact Out.extends_bytes _ _
  · exact .refl _

theorem pidAddrBytes_length (pan : Bool) (pid : UInt16) (addr : Fin 8 → UInt8) (mode : UInt8) :
    (pidAddrBytes pan pid addr mode).length = (if pan = true then 2 else 0) + addrLen mode := by
  unfold pidAddrBytes
  rw [List.length_append, addrBytes_length]
  cases pan with
  | true => rfl
  | false => rfl

theorem ite_length {c : Prop} [Decidable c] (l : List UInt8) :
    (if c then l else []).length = if c then l.length else 0 := by
  split
  · rfl
  · rfl

theorem hdrlen_eq (cfg : Config) (p : Frame) : frame802154Hdrlen cfg p = 2 + (addressingBytes (fieldLen cfg p).1).length +
    if HasAux cfg (fieldLen cfg p).1.fcf then auxSecLen cfg (fieldLen cfg p).1.auxHdr.securityControl else 0 := by
  unfold frame802154Hdrlen fieldLen
  generalize (if p.fcf.frameVersion < FRAME802154_IEEE802154_2015 then _ else p : Frame) = q
  unfold addressingBytes
  rw [List.length_append, List.length_append, pidAddrBytes_length, pidAddrBytes_length, ite_length]
  dsimp only
  rw [List.length_singleton]
  by_cases h : HasAux cfg q.fcf
  · rw [if_pos h, if_pos (show cfg.usesAuxHeader = true ∧ _ from h)]
    omega
  · rw [if_neg h, if_neg (show ¬ (cfg.usesAuxHeader = true ∧ _) from h)]
    omega

theorem key_length : ∀ k : Fin 4, UInt8.ofNat k.val ≠ 0 → ((UInt8.ofNat k.val).toNat - 1) * 4 ≤ 8 ∧
    getKeyIdLen (UInt8.ofNat k.val) = ((UInt8.ofNat k.val).toNat - 1) * 4 + 1 := by
  decide

theorem keyBytes_length {auxHdr : AuxHdr} (h : auxHdr.securityControl.InWidth) : (keyBytes cfg auxHdr).length =
    if cfg.usesExplicitKeys = true then getKeyIdLen auxHdr.securityControl.keyIdMode else 0 := by
  obtain ⟨k, hk⟩ := exists_fin h.keyIdMode
  have hlen := key_length k
  rw [hk] at hlen
  unfold keyBytes
  rw [ite_length]
  by_cases hkeys : cfg.usesExplicitKeys = true
  · rw [if_pos hkeys]
    by_cases hmode : auxHdr.securityControl.keyIdMode ≠ 0
    · obtain ⟨hle, hlen⟩ := hlen hmode
      rw [if_pos ⟨hkeys, hmode⟩, hlen, List.length_append, List.length_take, List.length_ofFn, Nat.min_eq_left hle,
        List.length_singleton]
    · rw [if_neg fun hc => hmode hc.2, not_not.1 hmode]
      rfl
  · rw [if_neg hkeys, if_neg fun hc => hkeys hc.1]

theorem auxBytes_length {auxHdr : AuxHdr} (h : auxHdr.securityControl.InWidth)
    (hsize : auxHdr.securityControl.frameCounterSize ≠ 1) :
    (auxBytes cfg auxHdr).length = auxSecLen cfg auxHdr.securityControl := by
  unfold auxBytes auxSecLen counterBytes
  rw [List.length_cons, List.length_append, keyBytes_length h, ite_length, List.length_ofFn, if_neg hsize]
  omega

structure Written (n : Nat) (buf : Mem) (o : Out) : Prop where
  pos : o.cursor.pos = n
  writes : ∀ x, x ∈ o.cursor.log ↔ x < n
  rest : ∀ x, n ≤ x → o.mem x = buf x

theorem written_bytes (l : List UInt8) (buf : Mem) : Written l.length buf ((⟨buf, .start⟩ : Out).bytes l) := by
  have hfull : ((⟨buf, .start⟩ : Out).bytes l).cursor.Full := by
    rw [Out.cursor_bytes]
    exact Cursor.full_start.take _
  have hpos : ((⟨buf, .start⟩ : Out).bytes l).cursor.pos = l.length := by
    rw [Out.pos_bytes]
    exact Nat.zero_add _
  refine ⟨hpos, fun x => ?_, fun x hx => Out.bytes_of_out l _ (.inr ?_)⟩
  · rw [hfull, hpos, List.mem_range]
  · exact (Nat.zero_add _).trans_le hx

/-! ## The frame that is created -/

/-- The fields of a frame are within their bits. -/
structure Frame.InWidth (p : Frame) : Prop where
  fcf : p.fcf.InWidth
  scf : p.auxHdr.securityControl.InWidth

theorem fieldLen_frame (cfg : Config) (p : Frame) : ∃ c, (c = 0 ∨ c = 1 ∨ c = p.fcf.panidCompression) ∧
    (fieldLen cfg p).1 = { p with fcf := { p.fcf with panidCompression := c } } ∧
    (p.fcf.frameVersion = FRAME802154_IEEE802154_2015 → c = p.fcf.panidCompression) := by
  unfold fieldLen
  dsimp only
  split
  · rename_i hversion
    refine ⟨_, ?_, rfl, fun h => ?_⟩
    · split
      · exact .inr (.inl rfl)
      · exact .inl rfl
    · rw [h] at hversion
      exact absurd hversion (by decide)
  · exact ⟨_, .inr (.inr rfl), rfl, fun _ => rfl⟩

theorem fieldLen_inWidth (cfg : Config) (h : p.InWidth) : (fieldLen cfg p).1.InWidth := by
  obtain ⟨c, hc, he, -⟩ := fieldLen_frame cfg p
  rw [he]
  have hlt : c.toNat < 2 := by
    rcases hc with rfl | rfl | rfl
    · decide
    · decide
    · exact h.fcf.panidCompression
  exact ⟨⟨h.fcf.1, h.fcf.2, h.fcf.3, h.fcf.4, hlt, h.fcf.6, h.fcf.7, h.fcf.8, h.fcf.9, h.fcf.10⟩, h.scf⟩

theorem fieldLen_aux (cfg : Config) (p : Frame) : (fieldLen cfg p).1.auxHdr = p.auxHdr ∧
    (HasAux cfg (fieldLen cfg p).1.fcf ↔ HasAux cfg p.fcf) := by
  obtain ⟨c, -, he, -⟩ := fieldLen_frame cfg p
  rw [he]
  exact ⟨rfl, Iff.rfl⟩

theorem create_holds (cfg : Config) (p : Frame) (buf : Mem) :
    Mem.Holds 0 (fcfBytes (fieldLen cfg p).1.fcf ++ addressingBytes (fieldLen cfg p).1)
      (frame802154Create cfg p buf).2.mem ∧ (HasAux cfg (fieldLen cfg p).1.fcf → (frame802154Create cfg p buf).2.mem
      (2 + (addressingBytes (fieldLen cfg p).1).length) = createScf cfg (fieldLen cfg p).1.auxHdr.securityControl) := by
  rw [create_eq]
  generalize (fieldLen cfg p).1 = q
  dsimp only
  have hholds := Out.bytes_holds (fcfBytes q.fcf ++ addressingBytes q) ⟨buf, .start⟩
  have hpos := Out.pos_bytes (fcfBytes q.fcf ++ addressingBytes q) ⟨buf, .start⟩
  by_cases haux : HasAux cfg q.fcf
  · rw [if_pos haux]
    have hextends := createAux_extends cfg q.auxHdr ((⟨buf, .start⟩ : Out).bytes (fcfBytes q.fcf ++ addressingBytes q))
    refine ⟨((Out.extends_bytes _ _).trans hextends).holds hholds hpos.ge, fun _ => ?_⟩
    have hscf := Out.bytes_holds [createScf cfg q.auxHdr.securityControl]
      ((⟨buf, .start⟩ : Out).bytes (fcfBytes q.fcf ++ addressingBytes q))
    have hscf := (hextends.holds hscf (Out.pos_bytes _ _).ge).1
    rw [hpos, List.length_append] at hscf
    rw [← hscf]
    congr 1
    exact (Nat.zero_add _).symm
  · rw [if_neg haux]
    exact ⟨hholds, fun h => absurd h haux⟩

theorem create_written (cfg : Config) (h : p.InWidth)
    (hsize : ¬ (HasAux cfg p.fcf ∧ p.auxHdr.securityControl.frameCounterSize = 1)) (buf : Mem) :
    Written (frame802154Hdrlen cfg p) buf (frame802154Create cfg p buf).2 ∧
    (HasAux cfg p.fcf → Mem.Holds (2 + (addressingBytes (fieldLen cfg p).1).length) (auxBytes cfg p.auxHdr)
      (frame802154Create cfg p buf).2.mem) := by
  obtain ⟨haux, hiff⟩ := fieldLen_aux cfg p
  rw [hdrlen_eq, create_eq, haux]
  generalize (fieldLen cfg p).1 = q at *
  dsimp only
  have hlen : 2 + (addressingBytes q).length = (fcfBytes q.fcf ++ addressingBytes q).length := by
    rw [List.length_append]
    rfl
  rw [hlen]
  by_cases ha : HasAux cfg p.fcf
  · have hone : p.auxHdr.securityControl.frameCounterSize ≠ 1 := fun h => hsize ⟨ha, h⟩
    rw [if_pos (hiff.2 ha), if_pos (hiff.2 ha), createAux_eq hone, ← auxBytes_length h.scf hone, ← List.length_append,
      ← Out.bytes_append]
    have hholds := Out.bytes_holds ((fcfBytes q.fcf ++ addressingBytes q) ++ auxBytes cfg p.auxHdr) ⟨buf, .start⟩
    have hsecond := (Mem.holds_append.1 hholds).2
    have hstart : (⟨buf, .start⟩ : Out).cursor.pos = 0 := rfl
    rw [hstart, Nat.zero_add] at hsecond
    exact ⟨written_bytes _ buf, fun _ => hsecond⟩
  · rw [if_neg fun h => ha (hiff.1 h), if_neg fun h => ha (hiff.1 h), Nat.add_zero]
    exact ⟨written_bytes _ buf, fun h => absurd h ha⟩

end Contiki.Frame802154
