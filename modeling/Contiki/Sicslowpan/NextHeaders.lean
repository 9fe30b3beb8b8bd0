/-
What the decompressor accesses for the compressed headers behind the IPv6 header: all of it is read within the packet,
and written within the buffer, the next header field of the header before apart.
-/
import Contiki.Lib.Mem
import Contiki.Sicslowpan.Traced

namespace Contiki.Sicslowpan.Traced

open Lib

variable {c : Call} {d d' : Decoder} {s s' : Trace} {W : Nat → Prop} {F : Prop} {len : Nat} {b : UInt8}

/-! ## Extension headers -/

/-- Something failed that has read within the packet, and has written within the buffer but for the next header field
at `a`. -/
def Failed (c : Call) (a : Nat) (s s' : Trace) : Prop :=
  ∃ W, Accesses c s s' W True ∧ ∀ x, W x → x = a ∨ x < c.bufSize

theorem failed_refl (c : Call) (a : Nat) (s : Trace) : Failed c a s s :=
  ⟨fun _ => False, accesses_refl c s, fun _ => False.elim⟩

/-- An extension header with `len` bytes behind its next header and length bytes was rebuilt, in eights of bytes. -/
structure ExtHdr (c : Call) (d : Decoder) (s : Trace) (d' : Decoder) (len : Nat) : Prop where
  accesses : Accesses c s d'.toTrace
    (fun x => x = d.lastNextheader ∨ d.ipPayload ≤ x ∧ x < d.ipPayload + (2 + len)) True
  part : d'.part = d.part
  last : d'.lastNextheader = d.ipPayload
  payload : d'.ipPayload = d.ipPayload + (2 + len) / 8 * 8
  uncomp : d'.uncompHdrLen = (d.uncompHdrLen + (2 + len) / 8 * 8) % 256
  announced : d'.announced = d.announced + (2 + len)
  pos : 0 < (2 + len) / 8
  fits : d.ipPayload + 2 + len ≤ c.bufSize
  ptr : s.ptr < d'.ptr
  room : d'.ptr + 1 ≤ c.pb.datalen

theorem writeExtHdr_spec (c : Call) (d : Decoder) (s : Trace) (nh : Bool) (proto next : UInt8) (len : Nat) :
    (∀ s', writeExtHdr c d s nh proto next len = .error s' → Failed c d.lastNextheader s s') ∧
    ∀ d', writeExtHdr c d s nh proto next len = .ok d' → s.ptr ≤ d'.ptr ∧
      ∀ s₀, s₀.ptr < s.ptr → Accesses c s₀ s (fun _ => False) True → ExtHdr c d s₀ d' len := by
  unfold writeExtHdr
  dsimp only
  have hlast := accesses_put c d.lastNextheader proto s
  by_cases hsize : d.ipPayload + 2 + len > c.bufSize
  · rw [if_pos hsize]
    refine ⟨?_, by rintro _ ⟨⟩⟩
    rintro _ ⟨⟩
    exact ⟨_, hlast, fun x hx => .inl (by omega)⟩
  · rw [if_neg hsize]
    by_cases hzero : (2 + len) / 8 = 0
    · rw [if_pos hzero]
      refine ⟨?_, by rintro _ ⟨⟩⟩
      rintro _ ⟨⟩
      refine ⟨_, (hlast.trans (accesses_put ..)).iff (fun _ => Iff.rfl) and_self_iff, fun x hx => ?_⟩
      omega
    · rw [if_neg hzero]
      have hheader := (hlast.trans (accesses_put c (d.ipPayload + 1) (UInt8.ofNat ((2 + len) / 8 - 1)) _)).trans
        (accesses_put c d.ipPayload next _)
      by_cases hroom : s.ptr + (len + 1) > c.pb.datalen
      · rw [if_pos hroom]
        refine ⟨?_, by rintro _ ⟨⟩⟩
        rintro _ ⟨⟩
        refine ⟨_, hheader.iff (fun _ => Iff.rfl) (by tauto), fun x hx => ?_⟩
        omega
      · rw [if_neg hroom]
        refine ⟨by rintro _ ⟨⟩, ?_⟩
        rintro _ ⟨⟩
        refine ⟨Nat.le_add_right _ _, fun s₀ hptr hread => ?_⟩
        have hcontent := (hheader.trans (accesses_read_inside (a := s.ptr) (n := len) (by omega) _)).trans
          (accesses_paste c (d.ipPayload + 2) len (fun i => c.pb.byte (s.ptr + i)) _)
        refine ⟨((hread.trans hcontent).iff (fun x => ?_) (by tauto)).advance len, rfl, rfl, rfl, rfl, rfl, by omega,
          by omega, ?_, ?_⟩
        · simp only [false_or, or_false]
          omega
        · exact hptr.trans_le (Nat.le_add_right _ _)
        · show s.ptr + len + 1 ≤ c.pb.datalen
          omega

theorem uncompressExtHdr_spec (c : Call) (d : Decoder) (s : Trace) :
    (∀ s', uncompressExtHdr c d s = .error s' → Failed c d.lastNextheader s s') ∧
    ∀ d', uncompressExtHdr c d s = .ok d' → ∃ len, ExtHdr c d s d' len := by
  have hread : ∀ {s' s'' : Trace}, Accesses c s s' (fun _ => False) True → Failed c d.lastNextheader s' s'' →
      Failed c d.lastNextheader s s'' := by
    rintro s' s'' h ⟨W, hW, hle⟩
    exact ⟨W, (h.trans hW).iff (fun _ => or_iff_right id) and_self_iff, hle⟩
  unfold uncompressExtHdr
  dsimp only
  generalize c.pb.byte s.ptr &&& 0x01 = nh
  have hfirst : Accesses c s (s.advance 1) (fun _ => False) True := (accesses_refl c s).advance 1
  by_cases hroom : (s.advance 1).ptr + 1 > c.pb.datalen
  · rw [if_pos hroom]
    refine ⟨?_, by rintro _ ⟨⟩⟩
    rintro _ ⟨⟩
    exact ⟨_, hfirst, fun _ => False.elim⟩
  · rw [if_neg hroom]
    obtain ⟨s₁, hs₁, hptr₁, hread₁⟩ : ∃ s₁, s₁ = (if nh = 0 then ((s.advance 1).read (s.advance 1).ptr 1).advance 1
        else s.advance 1) ∧ s.ptr < s₁.ptr ∧ Accesses c s s₁ (fun _ => False) True := by
      split
      · refine ⟨_, rfl, ?_, ?_⟩
        · simp only [Trace.ptr_advance, Trace.ptr_read]
          omega
        · exact Accesses.advance ((hfirst.trans (accesses_read_inside (not_lt.1 hroom) _)).iff (fun _ => or_self_iff)
            and_self_iff) 1
      · exact ⟨_, rfl, Nat.lt_succ_self _, hfirst⟩
    rw [← hs₁]
    by_cases hroom₁ : s₁.ptr + 1 > c.pb.datalen
    · rw [if_pos hroom₁]
      refine ⟨?_, by rintro _ ⟨⟩⟩
      rintro _ ⟨⟩
      exact ⟨_, hread₁, fun _ => False.elim⟩
    · rw [if_neg hroom₁]
      have hread₂ : Accesses c s ((s₁.read s₁.ptr 1).advance 1) (fun _ => False) True :=
        Accesses.advance ((hread₁.trans (accesses_read_inside (not_lt.1 hroom₁) _)).iff (fun _ => or_self_iff)
          and_self_iff) 1
      cases extHdrProto ((c.pb.byte s.ptr &&& 0x0e) >>> 1) with
      | none =>
        refine ⟨?_, by rintro _ ⟨⟩⟩
        rintro _ ⟨⟩
        exact ⟨_, hread₂, fun _ => False.elim⟩
      | some proto =>
        obtain ⟨herror, hok⟩ := writeExtHdr_spec c d ((s₁.read s₁.ptr 1).advance 1) (nh ≠ 0) proto
          (if nh = 0 then c.pb.byte (s.advance 1).ptr else 0) (c.pb.byte s₁.ptr).toNat
        refine ⟨fun s' hs' => hread hread₂ (herror s' hs'), fun d' hd' => ⟨_, (hok d' hd').2 s ?_ hread₂⟩⟩
        exact hptr₁.trans (Nat.lt_succ_self _)

/-! ## The UDP header -/

/-- The bytes of a compressed UDP header up to the ports, and the ports. -/
def portsLen (b : UInt8) : Nat :=
  let mode := b &&& nhcUdpCsP11
  if mode = nhcUdpCsP00 then 5 else if mode = nhcUdpCsP01 then 4 else if mode = nhcUdpCsP10 then 4 else 2

def checksumLen (b : UInt8) : Nat := if b &&& nhcUdpChecksumc = 0 then 2 else 0

def udpLen (b : UInt8) : Nat := portsLen b + checksumLen b

theorem udp_mode (b : UInt8) : b &&& nhcUdpMask = nhcUdpId → b &&& nhcUdpCsP11 = nhcUdpCsP00 ∨
    b &&& nhcUdpCsP11 = nhcUdpCsP01 ∨ b &&& nhcUdpCsP11 = nhcUdpCsP10 ∨ b &&& nhcUdpCsP11 = nhcUdpCsP11 := by
  revert b
  apply forall_byte
  decide +kernel

theorem uncompressPorts_spec (hudp : c.pb.byte s.ptr &&& nhcUdpMask = nhcUdpId) (pos : Nat) :
    (s.ptr + portsLen (c.pb.byte s.ptr) ≤ c.pb.datalen → ∃ s', uncompressPorts c pos s = .ok s' ∧
      s'.ptr = s.ptr + portsLen (c.pb.byte s.ptr) ∧ Accesses c s s' (fun x => pos ≤ x ∧ x < pos + 4) True) ∧
    (¬ s.ptr + portsLen (c.pb.byte s.ptr) ≤ c.pb.datalen → uncompressPorts c pos s = .error s) := by
  have hmode := udp_mode _ hudp
  unfold uncompressPorts portsLen
  dsimp only
  generalize c.pb.byte s.ptr &&& nhcUdpCsP11 = mode at hmode
  split
  · refine ⟨fun hroom => ?_, fun hroom => if_pos (not_le.1 hroom)⟩
    rw [if_neg (not_lt.2 hroom)]
    refine ⟨_, rfl, rfl, Accesses.advance (Accesses.iff ((accesses_read_inside (by omega) s).trans
      (accesses_paste ..)) (fun x => ?_) and_self_iff) 5⟩
    simp only [false_or]
  · split
    · refine ⟨fun hroom => ?_, fun hroom => if_pos (not_le.1 hroom)⟩
      rw [if_neg (not_lt.2 hroom)]
      refine ⟨_, rfl, rfl, Accesses.advance (Accesses.iff (((accesses_read_inside (by omega) s).trans
        (accesses_paste ..)).trans (accesses_putPort ..)) (fun x => ?_) (by tauto)) 4⟩
      simp only [false_or]
      omega
    · split
      · refine ⟨fun hroom => ?_, fun hroom => if_pos (not_le.1 hroom)⟩
        rw [if_neg (not_lt.2 hroom)]
        refine ⟨_, rfl, rfl, Accesses.advance (Accesses.iff (((accesses_read_inside (by omega) s).trans
          (accesses_putPort ..)).trans (accesses_paste ..)) (fun x => ?_) (by tauto)) 4⟩
        simp only [false_or]
        omega
      · rename_i h₀ h₁ h₂
        rw [if_pos (((hmode.resolve_left h₀).resolve_left h₁).resolve_left h₂)]
        refine ⟨fun hroom => ?_, fun hroom => if_pos (not_le.1 hroom)⟩
        rw [if_neg (not_lt.2 hroom)]
        refine ⟨_, rfl, rfl, Accesses.advance (Accesses.iff (((accesses_read_inside (by omega) s).trans
          (accesses_putPort ..)).trans (accesses_putPort ..)) (fun x => ?_) (by tauto)) 2⟩
        simp only [false_or]
        omega

theorem uncompressChecksum_spec (pos : Nat) (b : UInt8) (hin : s.ptr ≤ c.pb.datalen) :
    (s.ptr + checksumLen b ≤ c.pb.datalen → ∃ s', uncompressChecksum c pos b s = .ok s' ∧
      s'.ptr = s.ptr + checksumLen b ∧
      Accesses c s s' (fun x => b &&& nhcUdpChecksumc = 0 ∧ pos + 6 ≤ x ∧ x < pos + 8) True) ∧
    (¬ s.ptr + checksumLen b ≤ c.pb.datalen → uncompressChecksum c pos b s = .error s) := by
  unfold uncompressChecksum checksumLen
  by_cases hc : b &&& nhcUdpChecksumc = 0
  · simp only [hc, if_true, true_and]
    refine ⟨fun hroom => ?_, fun hroom => if_pos (not_le.1 hroom)⟩
    rw [if_neg (not_lt.2 hroom)]
    refine ⟨_, rfl, rfl, Accesses.advance (Accesses.iff ((accesses_read_inside hroom s).trans
      (accesses_paste ..)) (fun x => ?_) and_self_iff) 2⟩
    simp only [false_or]
  · simp only [hc, if_false, false_and]
    exact ⟨fun _ => ⟨s, rfl, rfl, accesses_refl c s⟩, fun h => absurd hin h⟩

/-- A UDP header was rebuilt, without its checksum where that is elided. -/
structure Udp (c : Call) (d : Decoder) (s : Trace) (d' : Decoder) : Prop where
  accesses : Accesses c s d'.toTrace (fun x => x = d.lastNextheader ∨ d.ipPayload ≤ x ∧ x < d.ipPayload + 6 ∨
    c.pb.byte s.ptr &&& nhcUdpChecksumc = 0 ∧ d.ipPayload + 6 ≤ x ∧ x < d.ipPayload + 8) True
  ptr : d'.ptr = s.ptr + udpLen (c.pb.byte s.ptr)
  uncomp : d'.uncompHdrLen = (d.uncompHdrLen + 8) % 256
  announced : d'.announced = d.announced + 8

/-- The UDP header fits into the buffer, and is in the packet. -/
def UdpFits (c : Call) (d : Decoder) : Prop :=
  d.ipPayload + 8 ≤ c.bufSize ∧ d.ptr + udpLen (c.pb.byte d.ptr) ≤ c.pb.datalen

theorem uncompressUdp_spec (hptr : s.ptr = d.ptr) (hudp : c.pb.byte d.ptr &&& nhcUdpMask = nhcUdpId) :
    (UdpFits c d → ∃ d', uncompressUdp c d s = .ok d' ∧ Udp c d s d') ∧
    (¬ UdpFits c d → ∃ s', uncompressUdp c d s = .error s' ∧ Failed c d.lastNextheader s s') := by
  have hports := uncompressPorts_spec (s := s.put d.lastNextheader protoUdp) (c := c)
    (by rw [Trace.ptr_put, hptr]; exact hudp) d.ipPayload
  have hput := accesses_put c d.lastNextheader protoUdp s
  unfold UdpFits udpLen
  rw [← hptr] at hudp ⊢
  rw [Trace.ptr_put] at hports
  obtain ⟨hports, hnoports⟩ := hports
  unfold uncompressUdp
  by_cases hsize : d.ipPayload + 8 > c.bufSize
  · rw [if_pos hsize]
    exact ⟨fun h => by omega, fun _ => ⟨s, rfl, failed_refl c _ s⟩⟩
  · rw [if_neg hsize]
    by_cases hin : s.ptr + portsLen (c.pb.byte s.ptr) ≤ c.pb.datalen
    · obtain ⟨s₁, hs₁, hptr₁, haccess₁⟩ := hports hin
      obtain ⟨hchecksum, hnochecksum⟩ := uncompressChecksum_spec d.ipPayload (c.pb.byte s.ptr) (by rwa [hptr₁])
      rw [hs₁]
      dsimp only [bind, Except.bind]
      rw [hptr₁] at hchecksum hnochecksum
      by_cases hin' : s.ptr + portsLen (c.pb.byte s.ptr) + checksumLen (c.pb.byte s.ptr) ≤ c.pb.datalen
      · obtain ⟨s₂, hs₂, hptr₂, haccess₂⟩ := hchecksum hin'
        refine ⟨fun _ => ?_, fun h => absurd ⟨not_lt.1 hsize, by omega⟩ h⟩
        rw [hs₂]
        refine ⟨_, rfl, ⟨?_, ?_, rfl, rfl⟩⟩
        · refine Accesses.iff (((hput.trans haccess₁).trans haccess₂).trans (accesses_putPort ..)) (fun x => ?_) (by tauto)
          by_cases hinline : c.pb.byte s.ptr &&& nhcUdpChecksumc = 0
          · simp only [hinline, true_and]
            omega
          · simp only [hinline, false_and, or_false]
            omega
        · show s₂.ptr = _
          rw [hptr₂, Nat.add_assoc]
          rfl
      · refine ⟨fun h => absurd h.2 (by omega), fun _ => ⟨s₁, ?_, _, (hput.trans haccess₁).iff (fun _ => Iff.rfl)
          and_self_iff, fun x hx => ?_⟩⟩
        · rw [hnochecksum hin']
        · omega
    · refine ⟨fun h => absurd h.2 (by omega), fun _ => ⟨s.put d.lastNextheader protoUdp, ?_, _, hput, fun x hx => ?_⟩⟩
      · rw [hnoports hin]
        rfl
      · omega

end Contiki.Sicslowpan.Traced
