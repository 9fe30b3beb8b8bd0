/-
The loop over the compressed headers: what it leaves alone, and one extension header on the wire.
-/
import Contiki.Sicslowpan.Fields

namespace Contiki.Sicslowpan

section

open Lib

variable {pb : Packetbuf} {bufSize ipLen fuel : Nat} {s s' : Nhc} {r : Uncompressed}

/-! ## What the loop leaves alone -/

theorem bind_ok {ε α β : Type} {x : Except ε α} {f : α → Except ε β} {b : β} (h : (x >>= f) = .ok b) :
    ∃ a, x = .ok a ∧ f a = .ok b := by
  cases x with
  | error e => cases h
  | ok a => exact ⟨a, rfl, h⟩

theorem putPort_of_ne {a x : Nat} {v : Int} {m : Mem} (h₀ : x ≠ a) (h₁ : x ≠ a + 1) : putPort a v m x = m x := by
  unfold putPort
  rw [Mem.put_of_ne h₁, Mem.put_of_ne h₀]

theorem writeExtHdr_frame {nh : Bool} {proto next : UInt8} {len ptr : Nat}
    (h : writeExtHdr pb bufSize s nh proto next len ptr = .ok s') :
    s'.lastNextheader = s.ipPayload ∧ s.ipPayload < s'.ipPayload ∧
      ∀ x, x < s.ipPayload → x ≠ s.lastNextheader → s'.buf x = s.buf x := by
  unfold writeExtHdr at h
  dsimp only at h
  split at h
  · cases h
  split at h
  · cases h
  · obtain ⟨_, _, h⟩ := bind_ok h
    cases h
    refine ⟨rfl, by dsimp only; omega, fun x hx hne => ?_⟩
    dsimp only
    rw [Mem.paste_of_out (by omega), Mem.put_of_ne (by omega), Mem.put_of_ne (by omega), Mem.put_of_ne hne]

theorem uncompressExtHdr_frame (h : uncompressExtHdr pb bufSize s = .ok s') :
    s'.lastNextheader = s.ipPayload ∧ s.ipPayload < s'.ipPayload ∧
      ∀ x, x < s.ipPayload → x ≠ s.lastNextheader → s'.buf x = s.buf x := by
  unfold uncompressExtHdr at h
  obtain ⟨_, _, h⟩ := bind_ok h
  obtain ⟨_, _, h⟩ := bind_ok h
  dsimp only at h
  generalize extHdrProto ((pb.byte s.ptr &&& 0x0e) >>> 1) = proto at h
  cases proto with
  | none => cases h
  | some _ => exact writeExtHdr_frame h

theorem uncompressExt_frame : ∀ {fuel : Nat} {s s' : Nhc}, uncompressExt pb bufSize fuel s = .ok s' →
    s.lastNextheader < s.ipPayload →
    s.ipPayload ≤ s'.ipPayload ∧ (s'.lastNextheader = s.lastNextheader ∨ s.ipPayload ≤ s'.lastNextheader) ∧
      ∀ x, x < s.ipPayload → x ≠ s.lastNextheader → s'.buf x = s.buf x
  | 0, _, _, h, _ => by cases h
  | fuel + 1, s, s', h, hl => by
    rw [uncompressExt] at h
    split at h
    · obtain ⟨s₁, h₁, h⟩ := bind_ok h
      obtain ⟨hlast, hip, hbuf⟩ := uncompressExtHdr_frame h₁
      obtain ⟨hip', hlast', hbuf'⟩ := uncompressExt_frame h (by omega)
      refine ⟨by omega, by omega, fun x hx hne => ?_⟩
      rw [hbuf' x (by omega) (by omega), hbuf x hx hne]
    · cases h
      exact ⟨le_rfl, .inl rfl, fun _ _ _ => rfl⟩

theorem uncompressPorts_frame {p : Unc} (h : uncompressPorts pb s = .ok p) :
    ∀ x, x < s.ipPayload → p.buf x = s.buf x := by
  intro x hx
  unfold uncompressPorts at h
  dsimp only at h
  split_ifs at h
  · obtain ⟨_, _, h⟩ := bind_ok h
    cases h
    dsimp only
    exact Mem.paste_of_out (.inl hx)
  · obtain ⟨_, _, h⟩ := bind_ok h
    cases h
    dsimp only
    rw [putPort_of_ne (by omega) (by omega), Mem.paste_of_out (.inl hx)]
  · obtain ⟨_, _, h⟩ := bind_ok h
    cases h
    dsimp only
    rw [Mem.paste_of_out (by omega), putPort_of_ne (by omega) (by omega)]
  · obtain ⟨_, _, h⟩ := bind_ok h
    cases h
    dsimp only
    rw [putPort_of_ne (by omega) (by omega), putPort_of_ne (by omega) (by omega)]

theorem uncompressUdp_frame (h : uncompressUdp pb bufSize ipLen s = .ok s') :
    ∀ x, x < s.ipPayload → x ≠ s.lastNextheader → s'.buf x = s.buf x := by
  intro x hx hne
  unfold uncompressUdp at h
  split at h
  · split at h
    · cases h
    · obtain ⟨p, hp, h⟩ := bind_ok h
      obtain ⟨p', hp', h⟩ := bind_ok h
      cases h
      have h₁ : p.buf x = s.buf x := (uncompressPorts_frame hp x hx).trans (Mem.put_of_ne hne)
      have h₂ : p'.buf x = p.buf x := by
        split at hp'
        · obtain ⟨_, _, hp'⟩ := bind_ok hp'
          cases hp'
          dsimp only
          exact Mem.paste_of_out (by omega)
        · cases hp'; rfl
      dsimp only
      rw [putPort_of_ne (by omega) (by omega), h₂, h₁]
  · cases h; rfl

theorem uncompressTail_frame (h : uncompressTail pb bufSize ipLen s = .ok r) :
    ∀ x, x < s.ipPayload → x ≠ s.lastNextheader → x ≠ 4 → x ≠ 5 → r.buf x = s.buf x := by
  intro x hx hne h₄ h₅
  unfold uncompressTail at h
  obtain ⟨_, _, h⟩ := bind_ok h
  obtain ⟨s₁, h₁, h⟩ := bind_ok h
  cases h
  show putPort _ _ _ x = _
  rw [putPort_of_ne h₄ h₅, uncompressUdp_frame h₁ x hx hne]

theorem chain_frame (h : (uncompressExt pb bufSize fuel s >>= uncompressTail pb bufSize ipLen) = .ok r)
    (hl : s.lastNextheader < s.ipPayload) :
    ∀ x, x < s.ipPayload → x ≠ s.lastNextheader → x ≠ 4 → x ≠ 5 → r.buf x = s.buf x := by
  intro x hx hne h₄ h₅
  obtain ⟨s₁, h₁, h⟩ := bind_ok h
  obtain ⟨hip, hlast, hbuf⟩ := uncompressExt_frame h₁ hl
  rw [uncompressTail_frame h x (by omega) (by omega) h₄ h₅, hbuf x hx hne]

/-! ## One extension header on the wire -/

theorem extHdrId_spec {p id : UInt8} (h : extHdrId p = some id) :
    extHdrProto id = some p ∧ (id = 0 ∨ id = 1 ∨ id = 2 ∨ id = 3) := by
  unfold extHdrId at h
  split_ifs at h with h₁ h₂ h₃ h₄ <;> cases h
  · exact ⟨by rw [h₁]; rfl, by simp⟩
  · exact ⟨by rw [h₂]; rfl, by simp⟩
  · exact ⟨by rw [h₃]; rfl, by simp⟩
  · exact ⟨by rw [h₄]; rfl, by simp⟩

def extNhc (id : UInt8) (elided : Bool) : UInt8 := nhcExtHdr ||| (if elided then nhcBit else 0) ||| (id <<< 1)

theorem extNhc_spec {id : UInt8} (h : id = 0 ∨ id = 1 ∨ id = 2 ∨ id = 3) (elided : Bool) :
    extNhc id elided &&& nhcMask = nhcExtHdr ∧ (extNhc id elided &&& 0x01 = if elided then 1 else 0) ∧
      (extNhc id elided &&& 0x0e) >>> 1 = id := by
  rcases h with rfl | rfl | rfl | rfl <;> cases elided <;> decide

/-- What is kept of the next-header byte when it is not elided. -/
abbrev keptNext (next : UInt8) : List UInt8 := if isCompressableProto next then [] else [next]

variable {uip : Mem} {p id : UInt8} {pos mac : Nat} {rest : List UInt8}

/-- The octets of an extension header behind its length byte, as the length byte on the wire has them. -/
abbrev wireLen (uip : Mem) (pos : Nat) : Nat := (uip (pos + 1)).toNat % 32 * 8 + 6

theorem wireLen_byte (uip : Mem) (pos : Nat) : (UInt8.ofNat (extLen uip pos - 2)).toNat = wireLen uip pos := by
  unfold extLen wireLen
  simp
  omega

theorem uncompressExtHdr_wire (hid : extHdrId p = some id)
    (hw : Mem.Holds s.ptr (extNhc id (isCompressableProto (uip pos)) :: (keptNext (uip pos) ++
      UInt8.ofNat (extLen uip pos - 2) :: rest)) pb.byte) (hd : s.ptr + (keptNext (uip pos)).length + 2 ≤ pb.datalen) :
    uncompressExtHdr pb bufSize s = writeExtHdr pb bufSize s (isCompressableProto (uip pos)) p
      (if isCompressableProto (uip pos) then 0 else uip pos) (wireLen uip pos)
      (s.ptr + (keptNext (uip pos)).length + 2) := by
  obtain ⟨hproto, hcases⟩ := extHdrId_spec hid
  obtain ⟨-, hbit, heid⟩ := extNhc_spec hcases (isCompressableProto (uip pos))
  obtain ⟨h₀, hw⟩ := hw
  have hlen := wireLen_byte uip pos
  unfold uncompressExtHdr
  rw [h₀]
  dsimp only
  rw [hbit, heid, hproto]
  unfold keptNext at hw hd ⊢
  cases hc : isCompressableProto (uip pos) <;> simp only [hc, Bool.false_eq_true, if_false, if_true] at hw hd ⊢
  · obtain ⟨h₁, h₂, -⟩ := hw
    rw [checkReadSpace_ok (by simp at hd ⊢; omega), checkReadSpace_ok (by simp at hd ⊢; omega), h₁, h₂, hlen]
    rfl
  · obtain ⟨h₁, -⟩ := hw
    rw [if_neg (by decide), checkReadSpace_ok (by simp at hd ⊢; omega), h₁, hlen]
    rfl

end

/-!
The compressed UDP header: its four port encodings, and the length the decompressor computes.
-/

section

open Lib

variable {uip : Mem} {pb : Packetbuf} {bufSize ipLen pos : Nat} {s : Nhc}

/-! ## Ports -/

theorem ofInt_natCast (n : Nat) : UInt8.ofInt (n : Int) = UInt8.ofNat n := by
  unfold UInt8.ofInt
  apply UInt8.toNat_inj.mp
  simp
  omega

theorem putPort_port (a b : Nat) (uip m : Mem) :
    putPort a (port uip b) m a = uip b ∧ putPort a (port uip b) m (a + 1) = uip (b + 1) := by
  have h₀ := (uip b).toNat_lt
  have h₁ := (uip (b + 1)).toNat_lt
  unfold putPort
  constructor
  · rw [Mem.put_of_ne (by omega), Mem.put_same,
      show ((port uip b : Nat) : Int) / 256 = (((uip b).toNat : Nat) : Int) by unfold port; omega, ofInt_natCast]
    simp
  · rw [Mem.put_same, ofInt_natCast]
    apply UInt8.toNat_inj.mp
    unfold port
    simp

theorem port_mask4 {a : Nat} (h : port uip a &&& 0xfff0 = udp4BitPortMin) :
    udp4BitPortMin ≤ port uip a ∧ port uip a < udp4BitPortMin + 16 := by
  have h₁ := (uip (a + 1)).toNat_lt
  have hle : port uip a &&& 0xfff0 ≤ port uip a := Nat.and_le_left
  refine ⟨h ▸ hle, ?_⟩
  have hsplit : port uip a &&& 0xfff0 = ((uip a).toNat &&& 0xff) * 256 + ((uip (a + 1)).toNat &&& 0xf0) :=
    word_and (uip a).toNat (uip (a + 1)).toNat 0xff 0xf0 h₁ (by omega)
  have := lt_high_nibble (uip (a + 1))
  rw [toNat_and_255] at hsplit
  unfold port at *
  omega

theorem port_mask8 {a : Nat} (h : port uip a &&& 0xff00 = udp8BitPortMin) :
    udp8BitPortMin ≤ port uip a ∧ port uip a < udp8BitPortMin + 256 := by
  have h₁ := (uip (a + 1)).toNat_lt
  have hle : port uip a &&& 0xff00 ≤ port uip a := Nat.and_le_left
  refine ⟨h ▸ hle, ?_⟩
  have hsplit : port uip a &&& 0xff00 = ((uip a).toNat &&& 0xff) * 256 + ((uip (a + 1)).toNat &&& 0) :=
    word_and (uip a).toNat (uip (a + 1)).toNat 0xff 0 h₁ (by omega)
  rw [toNat_and_255, Nat.and_zero] at hsplit
  unfold port at *
  omega

/-- The four bytes of the ports at `pos` stand at `a`. -/
def HasPorts (uip : Mem) (pos a : Nat) (buf : Mem) : Prop := ∀ i, i < 4 → buf (a + i) = uip (pos + i)

theorem hasPorts_iff {a : Nat} {buf : Mem} : HasPorts uip pos a buf ↔
    buf a = uip pos ∧ buf (a + 1) = uip (pos + 1) ∧ buf (a + 2) = uip (pos + 2) ∧ buf (a + 3) = uip (pos + 3) := by
  constructor
  · exact fun h => ⟨h 0 (by omega), h 1 (by omega), h 2 (by omega), h 3 (by omega)⟩
  · rintro ⟨h₀, h₁, h₂, h₃⟩ i hi
    interval_cases i <;> assumption

theorem compressPorts_cases (uip : Mem) (pos : Nat) :
    (port uip pos &&& 0xfff0 = udp4BitPortMin ∧ port uip (pos + 2) &&& 0xfff0 = udp4BitPortMin ∧
      compressPorts uip pos = (nhcUdpCsP11, [UInt8.ofNat ((port uip pos - udp4BitPortMin) <<< 4) +
        UInt8.ofNat (port uip (pos + 2) - udp4BitPortMin)])) ∨ (port uip (pos + 2) &&& 0xff00 = udp8BitPortMin ∧
      compressPorts uip pos = (nhcUdpCsP01, [uip pos, uip (pos + 1), UInt8.ofNat (port uip (pos + 2) - udp8BitPortMin)])) ∨
    (port uip pos &&& 0xff00 = udp8BitPortMin ∧
      compressPorts uip pos = (nhcUdpCsP10, [UInt8.ofNat (port uip pos - udp8BitPortMin), uip (pos + 2), uip (pos + 3)])) ∨
    compressPorts uip pos = (nhcUdpCsP00, [uip pos, uip (pos + 1), uip (pos + 2), uip (pos + 3)]) := by
  unfold compressPorts
  dsimp only
  split_ifs with h₁ h₂ h₃
  · exact .inl ⟨h₁.1, h₁.2, rfl⟩
  · exact .inr (.inl ⟨h₂, rfl⟩)
  · exact .inr (.inr (.inl ⟨h₃, rfl⟩))
  · exact .inr (.inr (.inr rfl))

theorem ofNat_sub_toNat {v m : Nat} (h : m ≤ v) (hlt : v < m + 256) : m + (UInt8.ofNat (v - m)).toNat = v := by
  simp
  omega

theorem uncompressPorts_roundTrip
    (hw : Mem.Holds s.ptr ((compressPorts uip pos).1 :: (compressPorts uip pos).2) pb.byte)
    (hd : s.ptr + 1 + (compressPorts uip pos).2.length ≤ pb.datalen) :
    ∃ buf, uncompressPorts pb s = .ok ⟨buf, s.ptr + 1 + (compressPorts uip pos).2.length⟩ ∧
      HasPorts uip pos s.ipPayload buf := by
  unfold uncompressPorts
  obtain ⟨h₁, h₂, he⟩ | ⟨h₁, he⟩ | ⟨h₁, he⟩ | he := compressPorts_cases uip pos <;> rw [he] at hw hd ⊢ <;>
    obtain ⟨hb, hw⟩ := hw <;> simp only [List.length_cons, List.length_nil] at hd ⊢ <;> rw [hb]
  · rw [if_neg (show ¬nhcUdpCsP11 &&& nhcUdpCsP11 = nhcUdpCsP00 by decide),
      if_neg (show ¬nhcUdpCsP11 &&& nhcUdpCsP11 = nhcUdpCsP01 by decide),
      if_neg (show ¬nhcUdpCsP11 &&& nhcUdpCsP11 = nhcUdpCsP10 by decide),
      if_pos (show nhcUdpCsP11 &&& nhcUdpCsP11 = nhcUdpCsP11 by decide),
      checkReadSpace_ok (show s.ptr + 2 ≤ pb.datalen by omega)]
    obtain ⟨hl₁, hu₁⟩ := port_mask4 h₁
    obtain ⟨hl₂, hu₂⟩ := port_mask4 h₂
    obtain ⟨hsrc, hdst⟩ := fourBitPorts (show port uip pos - udp4BitPortMin < 16 by omega)
      (show port uip (pos + 2) - udp4BitPortMin < 16 by omega)
    refine ⟨_, rfl, ?_⟩
    rw [hw.1, hsrc, hdst, ← Nat.cast_add, ← Nat.cast_add, Nat.add_sub_cancel' hl₁, Nat.add_sub_cancel' hl₂]
    obtain ⟨e₀, e₁⟩ := putPort_port s.ipPayload pos uip s.buf
    obtain ⟨e₂, e₃⟩ := putPort_port (s.ipPayload + 2) (pos + 2) uip (putPort s.ipPayload (port uip pos) s.buf)
    refine hasPorts_iff.mpr ⟨?_, ?_, e₂, e₃⟩
    · rw [putPort_of_ne (by omega) (by omega), e₀]
    · rw [putPort_of_ne (by omega) (by omega), e₁]
  · rw [if_neg (show ¬nhcUdpCsP01 &&& nhcUdpCsP11 = nhcUdpCsP00 by decide),
      if_pos (show nhcUdpCsP01 &&& nhcUdpCsP11 = nhcUdpCsP01 by decide), checkReadSpace_ok (by simpa using hd)]
    obtain ⟨hl₁, hu₁⟩ := port_mask8 h₁
    obtain ⟨w₀, w₁, w₂, -⟩ := hw
    refine ⟨_, rfl, ?_⟩
    rw [w₂, ← Nat.cast_add, ofNat_sub_toNat hl₁ hu₁]
    obtain ⟨e₀, e₁⟩ := putPort_port (s.ipPayload + 2) (pos + 2) uip
      (Mem.paste s.ipPayload 2 (fun i => pb.byte (s.ptr + 1 + i)) s.buf)
    refine hasPorts_iff.mpr ⟨?_, ?_, e₀, e₁⟩
    · rw [putPort_of_ne (by omega) (by omega), Mem.paste_in (by omega) (by omega), Nat.sub_self]
      exact w₀
    · rw [putPort_of_ne (by omega) (by omega), Mem.paste_in (by omega) (by omega), Nat.add_sub_cancel_left]
      exact w₁
  · rw [if_neg (show ¬nhcUdpCsP10 &&& nhcUdpCsP11 = nhcUdpCsP00 by decide),
      if_neg (show ¬nhcUdpCsP10 &&& nhcUdpCsP11 = nhcUdpCsP01 by decide),
      if_pos (show nhcUdpCsP10 &&& nhcUdpCsP11 = nhcUdpCsP10 by decide), checkReadSpace_ok (by simpa using hd)]
    obtain ⟨hl₁, hu₁⟩ := port_mask8 h₁
    obtain ⟨w₀, w₁, w₂, -⟩ := hw
    refine ⟨_, rfl, ?_⟩
    rw [w₀, ← Nat.cast_add, ofNat_sub_toNat hl₁ hu₁]
    obtain ⟨e₀, e₁⟩ := putPort_port s.ipPayload pos uip s.buf
    refine hasPorts_iff.mpr ⟨?_, ?_, ?_, ?_⟩
    · rw [Mem.paste_of_out (by omega), e₀]
    · rw [Mem.paste_of_out (by omega), e₁]
    · rw [Mem.paste_in (by omega) (by omega), Nat.sub_self]
      exact w₁
    · rw [Mem.paste_in (by omega) (by omega), show s.ipPayload + 3 - (s.ipPayload + 2) = 1 by omega]
      exact w₂
  · rw [if_pos (show nhcUdpCsP00 &&& nhcUdpCsP11 = nhcUdpCsP00 by decide), checkReadSpace_ok (by simpa using hd)]
    refine ⟨_, rfl, fun i hi => ?_⟩
    rw [Mem.paste_in (by omega) (by omega), Nat.add_sub_cancel_left]
    obtain ⟨w₀, w₁, w₂, w₃, -⟩ := hw
    interval_cases i <;> assumption

/-! ## The UDP header -/

/-- The length the decompressor writes into a UDP header that ends at `ptr` in the frame. -/
def udpLenField (pb : Packetbuf) (ipLen ext ptr : Nat) : Int :=
  if ipLen = 0 then 8 + pb.datalen - ptr else ipLen - 40 - ext

theorem compressUdp_some {mac ptr : Nat} {out : List UInt8} (h : compressUdp mac uip pos ptr = some out) :
    out = (compressPorts uip pos).1 :: ((compressPorts uip pos).2 ++ Mem.read (pos + 6) 2 uip) := by
  unfold compressUdp at h
  dsimp only at h
  split_ifs at h
  exact (Option.some.inj h).symm

theorem compressPorts_nhc (uip : Mem) (pos : Nat) :
    (compressPorts uip pos).1 &&& nhcUdpMask = nhcUdpId ∧ (compressPorts uip pos).1 &&& nhcUdpChecksumc = 0 ∧
      (compressPorts uip pos).1 &&& nhcMask ≠ nhcExtHdr := by
  obtain ⟨-, -, he⟩ | ⟨-, he⟩ | ⟨-, he⟩ | he := compressPorts_cases uip pos <;> rw [he] <;> dsimp only <;> decide

theorem uncompressUdp_wire (ipLen : Nat) {out : List UInt8} (hnhc : s.nhc = true) (hlast : s.lastNextheader < s.ipPayload)
    (hout : out = (compressPorts uip pos).1 :: ((compressPorts uip pos).2 ++ Mem.read (pos + 6) 2 uip))
    (hw : Mem.Holds s.ptr out pb.byte) (hd : s.ptr + out.length ≤ pb.datalen) (hbuf : s.ipPayload + 8 ≤ bufSize) :
    ∃ s', uncompressUdp pb bufSize ipLen s = .ok s' ∧ s'.ptr = s.ptr + out.length ∧
      s'.uncompHdrLen = (s.uncompHdrLen + 8) % 256 ∧ s'.buf s.lastNextheader = protoUdp ∧
      HasPorts uip pos s.ipPayload s'.buf ∧ (∀ i, i < 2 → s'.buf (s.ipPayload + 6 + i) = uip (pos + 6 + i)) ∧
      ∃ m, s'.buf = putPort (s.ipPayload + 4) (udpLenField pb ipLen s.extHdrLen (s.ptr + out.length)) m := by
  obtain ⟨hid, hcs, -⟩ := compressPorts_nhc uip pos
  subst hout
  rw [← List.cons_append, Mem.holds_append] at hw
  obtain ⟨hw, hsum⟩ := hw
  have hb : pb.byte s.ptr = (compressPorts uip pos).1 := hw.1
  simp only [List.length_cons, List.length_append, Mem.length_read] at hd hsum ⊢
  unfold uncompressUdp
  rw [hb, if_pos ⟨hnhc, hid⟩, if_neg (by omega)]
  dsimp only
  obtain ⟨buf, hports, hbytes⟩ := uncompressPorts_roundTrip
    (s := { s with buf := s.buf.put s.lastNextheader protoUdp }) hw (by dsimp only; omega)
  have hframe := uncompressPorts_frame hports s.lastNextheader hlast
  dsimp only at hports hbytes hframe
  rw [Mem.put_same] at hframe
  rw [hports, hb, hcs, Except.ok_bind']
  dsimp only
  rw [if_pos rfl, checkReadSpace_ok (by dsimp only; omega)]
  have hptr : s.ptr + 1 + (compressPorts uip pos).2.length + 2 =
      s.ptr + ((compressPorts uip pos).2.length + 2 + 1) := by omega
  refine ⟨_, rfl, hptr, rfl, ?_, fun i hi => ?_, fun i hi => ?_, _, by rw [← hptr]; rfl⟩
  · dsimp only
    rw [putPort_of_ne (by omega) (by omega), Mem.paste_of_out (by omega), hframe]
  · dsimp only
    rw [putPort_of_ne (by omega) (by omega), Mem.paste_of_out (by omega), hbytes i hi]
  · dsimp only
    rw [putPort_of_ne (by omega) (by omega), Mem.paste_in (by omega) (by omega), Nat.add_sub_cancel_left]
    rw [← Mem.holds_read.mp hsum i hi]
    congr 2; omega

end

/-!
The chain of compressible headers: under which lengths and buffer sizes every header comes back, and
that otherwise some byte does not.
-/

section

open Lib

/-- The headers from `pos` on, the first of type `p`: the length bytes of the extension headers,
whether a UDP header ends the chain, and where the headers end. -/
inductive Headers (uip : Mem) : UInt8 → Nat → List UInt8 → Bool → Nat → Prop
  | other {p : UInt8} {pos : Nat} : isCompressableProto p = false → Headers uip p pos [] false pos
  | udp {pos : Nat} : Headers uip protoUdp pos [] true (pos + 8)
  | ext {p : UInt8} {pos e : Nat} {es : List UInt8} {udp : Bool} : extHdrId p ≠ none →
      Headers uip (uip pos) (pos + extLen uip pos) es udp e → Headers uip p pos (uip (pos + 1) :: es) udp e

theorem Headers.le {uip : Mem} {p : UInt8} {pos e : Nat} {es : List UInt8} {udp : Bool}
    (h : Headers uip p pos es udp e) : pos ≤ e := by
  induction h with
  | other _ => exact le_rfl
  | udp => omega
  | ext _ _ ih => omega

theorem extHdrId_ne_none {p : UInt8} (h : extHdrId p ≠ none) : isCompressableProto p = true := by
  unfold extHdrId at h
  split_ifs at h with h₁ h₂ h₃ h₄
  · subst h₁; rfl
  · subst h₂; rfl
  · subst h₃; rfl
  · subst h₄; rfl
  · exact absurd rfl h

theorem extHdrId_eq_none {p : UInt8} (h : isCompressableProto p = false) : extHdrId p = none ∧ p ≠ protoUdp := by
  constructor
  · by_contra hne
    rw [extHdrId_ne_none hne] at h
    cases h
  · rintro rfl
    cases h

theorem Headers.of_not_compressable {uip : Mem} {p : UInt8} {pos e : Nat} {es : List UInt8} {udp : Bool}
    (h : Headers uip p pos es udp e) (hp : isCompressableProto p = false) : es = [] ∧ udp = false ∧ e = pos := by
  cases h with
  | other _ => exact ⟨rfl, rfl, rfl⟩
  | udp => cases hp
  | ext hid _ => rw [extHdrId_ne_none hid] at hp; cases hp

variable {uip : Mem} {pb : Packetbuf} {mac bufSize ipLen pos e : Nat} {p : UInt8} {es : List UInt8} {udp : Bool}
  {s s' : Nhc} {r : Uncompressed} {out rest : List UInt8}

/-- The decompressor stands before the header of type `p` at `pos`, with the encoding `out` of what is
left of the chain and at least one more byte ahead. -/
structure AtHeader (pb : Packetbuf) (s : Nhc) (p : UInt8) (pos : Nat) (out : List UInt8) : Prop where
  nhc : s.nhc = isCompressableProto p
  payload : s.ipPayload = pos
  behind : 40 ≤ pos
  pending : s.lastNextheader < pos ∧ s.lastNextheader ≠ 4 ∧ s.lastNextheader ≠ 5
  ext : s.extHdrLen = (pos - 40) % 256
  uncomp : s.uncompHdrLen = pos % 256
  wire : Mem.Holds s.ptr out pb.byte
  more : s.ptr + out.length < pb.datalen

/-! ## One header -/

theorem compressNhc_ext {fuel ext ptr : Nat} {id : UInt8} (hid : extHdrId p = some id) (hpos : 40 + ext = pos)
    (h : compressNhc mac uip (fuel + 1) p ext ptr = some out) :
    ∃ rest ptr', compressNhc mac uip fuel (uip pos) (ext + extLen uip pos) ptr' = some rest ∧
      out = extNhc id (isCompressableProto (uip pos)) :: (keptNext (uip pos) ++ UInt8.ofNat (extLen uip pos - 2) ::
        (Mem.read (pos + 2) (extLen uip pos - 2) uip ++ rest)) := by
  rw [compressNhc] at h
  simp only [hid, hpos] at h
  unfold extNhc keptNext
  cases hc : isCompressableProto (uip pos) <;>
    simp only [hc, Bool.false_eq_true, if_false, if_true] at h ⊢ <;> split_ifs at h
  all_goals
    obtain ⟨rest, hrest, hout⟩ := Option.map_eq_some_iff.mp h
    exact ⟨rest, _, hrest, hout.symm⟩

theorem writeExtHdr_ok {nh : Bool} {proto next : UInt8} {len ptr : Nat} (hbuf : s.ipPayload + 2 + len ≤ bufSize)
    (hlen : 6 ≤ len) (hd : ptr + len < pb.datalen) :
    writeExtHdr pb bufSize s nh proto next len ptr = .ok
      { buf := Mem.paste (s.ipPayload + 2) len (fun i => pb.byte (ptr + i))
          (((s.buf.put s.lastNextheader proto).put (s.ipPayload + 1) (UInt8.ofNat ((2 + len) / 8 - 1))).put s.ipPayload next)
        ptr := ptr + len
        nhc := nh
        lastNextheader := s.ipPayload
        ipPayload := s.ipPayload + (2 + len) / 8 * 8
        extHdrLen := (s.extHdrLen + (2 + len) / 8 * 8) % 256
        uncompHdrLen := (s.uncompHdrLen + (2 + len) / 8 * 8) % 256 } := by
  unfold writeExtHdr
  dsimp only
  rw [if_neg (by omega), if_neg (by omega), checkReadSpace_ok (show ptr + (len + 1) ≤ pb.datalen by omega)]
  rfl

theorem AtHeader.split {id : UInt8} (h : AtHeader pb s p pos
      (extNhc id (isCompressableProto (uip pos)) :: (keptNext (uip pos) ++ UInt8.ofNat (extLen uip pos - 2) ::
        (Mem.read (pos + 2) (extLen uip pos - 2) uip ++ rest)))) :
    (∀ i, i < extLen uip pos - 2 → pb.byte (s.ptr + (keptNext (uip pos)).length + 2 + i) = uip (pos + 2 + i)) ∧
      Mem.Holds (s.ptr + (keptNext (uip pos)).length + extLen uip pos) rest pb.byte ∧
      s.ptr + (keptNext (uip pos)).length + extLen uip pos + rest.length < pb.datalen := by
  have hlen : 8 ≤ extLen uip pos := by unfold extLen; omega
  obtain ⟨-, hw⟩ := h.wire
  obtain ⟨-, hw⟩ := Mem.holds_append.mp hw
  obtain ⟨hdata, hrest⟩ := Mem.holds_append.mp hw.2
  have hmore := h.more
  simp only [List.length_cons, List.length_append, Mem.length_read] at hmore hrest
  refine ⟨fun i hi => ?_, ?_, by omega⟩
  · rw [← Mem.holds_read.mp hdata i hi]
    congr 1; omega
  · rwa [show s.ptr + (keptNext (uip pos)).length + extLen uip pos =
      s.ptr + 1 + (keptNext (uip pos)).length + 1 + (extLen uip pos - 2) by omega]

theorem uncompressExtHdr_ok {id : UInt8} (hid : extHdrId p = some id)
    (h : AtHeader pb s p pos (extNhc id (isCompressableProto (uip pos)) :: (keptNext (uip pos) ++
      UInt8.ofNat (extLen uip pos - 2) :: (Mem.read (pos + 2) (extLen uip pos - 2) uip ++ rest))))
    (hlen : (uip (pos + 1)).toNat ≤ 31) (hbuf : pos + extLen uip pos ≤ bufSize) :
    ∃ s', uncompressExtHdr pb bufSize s = .ok s' ∧ AtHeader pb s' (uip pos) (pos + extLen uip pos) rest ∧
      s'.ptr + rest.length = s.ptr + (extNhc id (isCompressableProto (uip pos)) :: (keptNext (uip pos) ++
        UInt8.ofNat (extLen uip pos - 2) :: (Mem.read (pos + 2) (extLen uip pos - 2) uip ++ rest))).length ∧
      s'.lastNextheader = pos ∧ s'.buf s.lastNextheader = p ∧
      (∀ x, pos < x → x < pos + extLen uip pos → s'.buf x = uip x) ∧
      (isCompressableProto (uip pos) = false → s'.buf pos = uip pos) := by
  obtain ⟨hdata, hrest, hmore⟩ := h.split
  have hwire : wireLen uip pos = extLen uip pos - 2 := by unfold wireLen extLen; omega
  have hext : extLen uip pos = (uip (pos + 1)).toNat * 8 + 8 := rfl
  have hpay := h.payload
  have hpend := h.pending
  have hbehind := h.behind
  rw [uncompressExtHdr_wire hid h.wire (by omega), hwire, writeExtHdr_ok (by omega) (by omega) (by omega)]
  have hunits : (2 + (extLen uip pos - 2)) / 8 = (uip (pos + 1)).toNat + 1 := by omega
  refine ⟨_, rfl, ⟨rfl, ?_, by omega, ?_, ?_, ?_, ?_, ?_⟩, ?_, hpay, ?_, fun x hx₁ hx₂ => ?_, fun hc => ?_⟩
  · dsimp only; omega
  · dsimp only; omega
  · dsimp only; rw [h.ext]; omega
  · dsimp only; rw [h.uncomp]; omega
  · dsimp only
    rwa [show s.ptr + (keptNext (uip pos)).length + 2 + (extLen uip pos - 2) =
      s.ptr + (keptNext (uip pos)).length + extLen uip pos by omega]
  · dsimp only; omega
  · simp only [List.length_cons, List.length_append, Mem.length_read]; omega
  · dsimp only
    rw [Mem.paste_of_out (by omega), Mem.put_of_ne (by omega), Mem.put_of_ne (by omega), Mem.put_same]
  · dsimp only
    obtain rfl | hne := eq_or_ne x (pos + 1)
    · rw [Mem.paste_of_out (by omega), Mem.put_of_ne (by omega), hpay, Mem.put_same, hunits, Nat.add_sub_cancel]
      simp
    · rw [Mem.paste_in (by omega) (by omega), hdata _ (by omega)]
      congr 1; omega
  · dsimp only
    rw [Mem.paste_of_out (by omega), ← hpay, Mem.put_same, hpay, hc]
    rfl

/-- A longer one, or one beyond the buffer, does not: the length byte was cut to eight bits. -/
theorem uncompressExtHdr_lost {id : UInt8} (hid : extHdrId p = some id)
    (h : AtHeader pb s p pos (extNhc id (isCompressableProto (uip pos)) :: (keptNext (uip pos) ++
      UInt8.ofNat (extLen uip pos - 2) :: (Mem.read (pos + 2) (extLen uip pos - 2) uip ++ rest))))
    (hbad : 31 < (uip (pos + 1)).toNat ∨ bufSize < pos + extLen uip pos) (he : uncompressExtHdr pb bufSize s = .ok s') :
    s'.lastNextheader = pos ∧ pos + 1 < s'.ipPayload ∧ s'.buf (pos + 1) ≠ uip (pos + 1) := by
  obtain ⟨-, -, hmore⟩ := h.split
  have hext : extLen uip pos = (uip (pos + 1)).toNat * 8 + 8 := rfl
  have hpay := h.payload
  have hwire : wireLen uip pos = (uip (pos + 1)).toNat % 32 * 8 + 6 := rfl
  rw [uncompressExtHdr_wire hid h.wire (by omega)] at he
  by_cases hfit : s.ipPayload + 2 + wireLen uip pos ≤ bufSize
  · rw [writeExtHdr_ok hfit (by omega) (by omega)] at he
    cases he
    refine ⟨hpay, by dsimp only; omega, fun heq => ?_⟩
    dsimp only at heq
    rw [Mem.paste_of_out (by omega), Mem.put_of_ne (by omega), hpay, Mem.put_same] at heq
    -- the octets written are the length byte modulo 32
    have hunits : (2 + wireLen uip pos) / 8 - 1 = (uip (pos + 1)).toNat % 32 := by omega
    rw [hunits] at heq
    have hval := congrArg UInt8.toNat heq
    simp at hval
    omega
  · unfold writeExtHdr at he
    dsimp only at he
    rw [if_pos (by omega)] at he
    cases he

/-! ## The whole chain -/

/-- The IP length field the decompressor writes when the headers end at `ptr` in the frame and at
`hdr` in the buffer, both counted in eight bits. -/
def ipLenField (pb : Packetbuf) (ipLen ptr hdr : Nat) : Int :=
  if ipLen = 0 then pb.datalen - (ptr % 256 : Nat) + (hdr % 256 : Nat) - 40 else ipLen - 40

theorem compressNhc_other {fuel ext ptr : Nat} (hp : isCompressableProto p = false)
    (h : compressNhc mac uip fuel p ext ptr = some out) : out = [] := by
  cases fuel with
  | zero => cases h
  | succ fuel =>
    obtain ⟨hid, hudp⟩ := extHdrId_eq_none hp
    rw [compressNhc, hid] at h
    dsimp only at h
    rw [if_neg hudp] at h
    exact (Option.some.inj h).symm

theorem compressNhc_udp {fuel ext ptr : Nat} (hpos : 40 + ext = pos)
    (h : compressNhc mac uip fuel protoUdp ext ptr = some out) :
    out = (compressPorts uip pos).1 :: ((compressPorts uip pos).2 ++ Mem.read (pos + 6) 2 uip) := by
  cases fuel with
  | zero => cases h
  | succ fuel =>
    rw [compressNhc, show extHdrId protoUdp = none from rfl, hpos] at h
    exact compressUdp_some h

theorem uncompressExt_done {fuel : Nat} (hf : 0 < fuel) (h : s.nhc = true → pb.byte s.ptr &&& nhcMask ≠ nhcExtHdr) :
    uncompressExt pb bufSize fuel s = .ok s := by
  obtain ⟨fuel, rfl⟩ : ∃ k, fuel = k + 1 := ⟨fuel - 1, by omega⟩
  rw [uncompressExt, if_neg fun hc => h hc.1 hc.2]

theorem uncompressExt_step {fuel : Nat} (hn : s.nhc = true) (h : pb.byte s.ptr &&& nhcMask = nhcExtHdr) :
    uncompressExt pb bufSize (fuel + 1) s = (uncompressExtHdr pb bufSize s >>= uncompressExt pb bufSize fuel) := by
  rw [uncompressExt, if_pos ⟨hn, h⟩]

theorem chain_frame_plain {fuel x : Nat} (hf : 0 < fuel) (hn : s.nhc = false)
    (h : (uncompressExt pb bufSize fuel s >>= uncompressTail pb bufSize ipLen) = .ok r) (h₄ : x ≠ 4) (h₅ : x ≠ 5) :
    r.buf x = s.buf x := by
  rw [uncompressExt_done hf (by rw [hn]; nofun), Except.ok_bind'] at h
  unfold uncompressTail at h
  obtain ⟨_, _, h⟩ := bind_ok h
  unfold uncompressUdp at h
  rw [hn, if_neg (by rintro ⟨h, -⟩; cases h), Except.ok_bind'] at h
  cases h
  exact putPort_of_ne h₄ h₅

/-- What the decompressor leaves of a chain that comes back: every byte but those of the length
fields, which are given. -/
structure Rebuilt (uip : Mem) (pb : Packetbuf) (ipLen pos e ptr last : Nat) (p : UInt8) (udp : Bool) (r : Uncompressed) :
    Prop where
  hdrLen : r.packetbufHdrLen = ptr % 256
  uncomp : r.uncompHdrLen = e % 256
  body : ∀ x, pos ≤ x → x < e → (udp = true → x < e - 4 ∨ e - 2 ≤ x) → r.buf x = uip x
  next : isCompressableProto p = true → r.buf last = p
  len : ∃ m, r.buf = putPort 4 (ipLenField pb ipLen ptr e)
    (if udp then putPort (e - 4) (udpLenField pb ipLen ((e - 48) % 256) ptr) m else m)

theorem rebuilt_other (h : AtHeader pb s p pos []) (hp : isCompressableProto p = false) {fuel : Nat} (hf : 0 < fuel) :
    ∃ r, (uncompressExt pb bufSize fuel s >>= uncompressTail pb bufSize ipLen) = .ok r ∧
      Rebuilt uip pb ipLen pos pos s.ptr s.lastNextheader p false r := by
  have hn : s.nhc = false := h.nhc.trans hp
  rw [uncompressExt_done hf (by rw [hn]; nofun), Except.ok_bind']
  unfold uncompressTail
  rw [checkReadSpace_ok (show s.ptr + 1 ≤ pb.datalen from h.more), Except.ok_bind']
  unfold uncompressUdp
  rw [hn, if_neg (by rintro ⟨h, -⟩; cases h), Except.ok_bind']
  refine ⟨_, rfl, rfl, h.uncomp, fun x h₁ h₂ => absurd h₂ (by omega), fun hc => absurd hc (by rw [hp]; decide),
    s.buf, ?_⟩
  dsimp only [ipLenField]
  rw [h.uncomp]
  rfl

theorem rebuilt_udp (h : AtHeader pb s protoUdp pos out)
    (hout : out = (compressPorts uip pos).1 :: ((compressPorts uip pos).2 ++ Mem.read (pos + 6) 2 uip))
    (hbuf : pos + 8 ≤ bufSize) {fuel : Nat} (hf : 0 < fuel) :
    ∃ r, (uncompressExt pb bufSize fuel s >>= uncompressTail pb bufSize ipLen) = .ok r ∧
      Rebuilt uip pb ipLen pos (pos + 8) (s.ptr + out.length) s.lastNextheader protoUdp true r := by
  have hb : pb.byte s.ptr = (compressPorts uip pos).1 := by have := h.wire; rw [hout] at this; exact this.1
  have hmore := h.more
  have hpay := h.payload
  have hpend := h.pending
  have hbehind := h.behind
  rw [uncompressExt_done hf (fun _ => hb ▸ (compressPorts_nhc uip pos).2.2), Except.ok_bind']
  obtain ⟨s', hs', hptr, hunc, hlast, hports, hsum, m, hlen⟩ := uncompressUdp_wire ipLen h.nhc (by omega) hout h.wire
    (by omega) (show s.ipPayload + 8 ≤ bufSize by omega)
  unfold uncompressTail
  rw [checkReadSpace_ok (show s.ptr + 1 ≤ pb.datalen by omega), Except.ok_bind', hs', Except.ok_bind']
  refine ⟨_, rfl, by rw [hptr], by dsimp only; rw [hunc, h.uncomp]; omega, fun x h₁ h₂ hx => ?_, fun _ => ?_, m, ?_⟩
  · dsimp only
    rw [putPort_of_ne (by omega) (by omega)]
    obtain hx | hx := hx rfl
    · have := hports (x - pos) (by omega)
      rwa [show s.ipPayload + (x - pos) = x by omega, show pos + (x - pos) = x by omega] at this
    · have := hsum (x - pos - 6) (by omega)
      rwa [show s.ipPayload + 6 + (x - pos - 6) = x by omega, show pos + 6 + (x - pos - 6) = x by omega] at this
  · dsimp only
    rw [putPort_of_ne (by omega) (by omega), hlast]
  · dsimp only [ipLenField]
    rw [hlen, hunc, hptr, h.uncomp, hpay, h.ext, if_pos rfl, show pos + 8 - 4 = pos + 4 by omega,
      show pos + 8 - 48 = pos - 40 by omega, show (pos % 256 + 8) % 256 = (pos + 8) % 256 by omega]

theorem chain_rebuilt (hh : Headers uip p pos es udp e) : ∀ {fuel cf ext ptr : Nat} {s : Nhc} {out : List UInt8},
    compressNhc mac uip cf p ext ptr = some out → 40 + ext = pos → AtHeader pb s p pos out → es.length < fuel →
    (∀ l ∈ es, l.toNat ≤ 31) → (isCompressableProto p = true → e ≤ bufSize) →
    ∃ r, (uncompressExt pb bufSize fuel s >>= uncompressTail pb bufSize ipLen) = .ok r ∧
      Rebuilt uip pb ipLen pos e (s.ptr + out.length) s.lastNextheader p udp r := by
  induction hh with
  | other hp =>
    intro fuel cf ext ptr s out hc _ h hf _ _
    obtain rfl := compressNhc_other hp hc
    exact rebuilt_other h hp hf
  | udp =>
    intro fuel cf ext ptr s out hc hpos h hf _ hbuf
    exact rebuilt_udp h (compressNhc_udp hpos hc) (hbuf rfl) hf
  | @ext p pos e es udp hid hrest ih =>
    intro fuel cf ext ptr s out hc hpos h hf hes hbuf
    obtain ⟨id, hid'⟩ := Option.ne_none_iff_exists'.mp hid
    obtain ⟨cf, rfl⟩ : ∃ k, cf = k + 1 := by
      cases cf with
      | zero => cases hc
      | succ k => exact ⟨k, rfl⟩
    obtain ⟨rest, ptr', hrc, rfl⟩ := compressNhc_ext hid' hpos hc
    obtain ⟨fuel, rfl⟩ : ∃ k, fuel = k + 1 := ⟨fuel - 1, by omega⟩
    have hf' : es.length < fuel := by simpa using hf
    have hlen : 8 ≤ extLen uip pos := by unfold extLen; omega
    have hle := hrest.le
    have hbig := hbuf (extHdrId_ne_none hid)
    have hbehind := h.behind
    obtain ⟨s₁, hs₁, h₁, hptr, hlast, hnext, hbody, hkept⟩ := uncompressExtHdr_ok hid' h
      (hes _ (List.mem_cons_self ..)) (show pos + extLen uip pos ≤ bufSize by omega)
    have hnhc : s.nhc = true := h.nhc.trans (extHdrId_ne_none hid)
    rw [uncompressExt_step hnhc (h.wire.1 ▸ (extNhc_spec (extHdrId_spec hid').2 _).1), hs₁, Except.ok_bind']
    obtain ⟨r, hr, hreb⟩ := ih hrc (show 40 + (ext + extLen uip pos) = pos + extLen uip pos by omega) h₁
      hf' (fun l hl => hes l (List.mem_cons_of_mem _ hl)) (fun _ => hbig)
    have hpend := h.pending
    have hpay := h₁.payload
    have hframe := chain_frame hr (by rw [hpay, hlast]; omega)
    refine ⟨r, hr, by rw [hreb.hdrLen, hptr], hreb.uncomp, fun x hx₁ hx₂ hx => ?_, fun _ => ?_, ?_⟩
    · by_cases hin : x < pos + extLen uip pos
      · obtain rfl | hne := eq_or_ne x pos
        · -- the next-header byte is written with the header it names, or was kept
          cases hcomp : isCompressableProto (uip x) with
          | true =>
            have hwritten := hreb.next hcomp
            rwa [hlast] at hwritten
          | false => rw [chain_frame_plain (by omega) (h₁.nhc.trans hcomp) hr (by omega) (by omega), hkept hcomp]
        · rw [hframe x (by omega) (by omega) (by omega) (by omega), hbody x (by omega) hin]
      · exact hreb.body x (by omega) hx₂ hx
    · rw [hframe _ (by omega) (by omega) hpend.2.1 hpend.2.2, hnext]
    · rw [← hptr]; exact hreb.len

/-- Otherwise the decompressor refuses it or gets one of its bytes wrong. -/
theorem chain_lost (hh : Headers uip p pos es udp e) : ∀ {fuel cf ext ptr : Nat} {s : Nhc} {out : List UInt8},
    compressNhc mac uip cf p ext ptr = some out → 40 + ext = pos → AtHeader pb s p pos out → es.length < fuel →
    ¬((∀ l ∈ es, l.toNat ≤ 31) ∧ (isCompressableProto p = true → e ≤ bufSize)) →
    (uncompressExt pb bufSize fuel s >>= uncompressTail pb bufSize ipLen) = .ok r →
    ∃ x, pos ≤ x ∧ x < e ∧ r.buf x ≠ uip x := by
  induction hh with
  | other hp =>
    intro fuel cf ext ptr s out _ _ _ _ hbad _
    exact absurd ⟨fun _ h => absurd h (List.not_mem_nil), fun h => absurd h (by rw [hp]; decide)⟩ hbad
  | @udp pos =>
    intro fuel cf ext ptr s out hc hpos h hf hbad hr
    have hout := compressNhc_udp hpos hc
    have hbuf : ¬pos + 8 ≤ bufSize := fun hle => hbad ⟨fun _ h => absurd h (List.not_mem_nil), fun _ => hle⟩
    have hb : pb.byte s.ptr = (compressPorts uip pos).1 := by have := h.wire; rw [hout] at this; exact this.1
    have hpay := h.payload
    rw [uncompressExt_done hf (fun _ => hb ▸ (compressPorts_nhc uip pos).2.2), Except.ok_bind'] at hr
    unfold uncompressTail at hr
    obtain ⟨_, _, hr⟩ := bind_ok hr
    unfold uncompressUdp at hr
    rw [hb, if_pos ⟨h.nhc, (compressPorts_nhc uip pos).1⟩, if_pos (by omega)] at hr
    cases hr
  | @ext p pos e es udp hid hrest ih =>
    intro fuel cf ext ptr s out hc hpos h hf hbad hr
    obtain ⟨id, hid'⟩ := Option.ne_none_iff_exists'.mp hid
    obtain ⟨cf, rfl⟩ : ∃ k, cf = k + 1 := by
      cases cf with
      | zero => cases hc
      | succ k => exact ⟨k, rfl⟩
    obtain ⟨rest, ptr', hrc, rfl⟩ := compressNhc_ext hid' hpos hc
    obtain ⟨fuel, rfl⟩ : ∃ k, fuel = k + 1 := ⟨fuel - 1, by omega⟩
    have hf' : es.length < fuel := by simpa using hf
    have hlen : 8 ≤ extLen uip pos := by unfold extLen; omega
    have hle := hrest.le
    have hbehind := h.behind
    have hnhc : s.nhc = true := h.nhc.trans (extHdrId_ne_none hid)
    rw [uncompressExt_step hnhc (h.wire.1 ▸ (extNhc_spec (extHdrId_spec hid').2 _).1)] at hr
    by_cases hgood : (uip (pos + 1)).toNat ≤ 31 ∧ pos + extLen uip pos ≤ bufSize
    · obtain ⟨s₁, hs₁, h₁, -, -, -, -, -⟩ := uncompressExtHdr_ok hid' h hgood.1 hgood.2
      rw [hs₁, Except.ok_bind'] at hr
      have hbad' : ¬((∀ l ∈ es, l.toNat ≤ 31) ∧ (isCompressableProto (uip pos) = true → e ≤ bufSize)) := by
        rintro ⟨hes, hbuf⟩
        refine hbad ⟨List.forall_mem_cons.mpr ⟨hgood.1, hes⟩, fun _ => ?_⟩
        cases hcomp : isCompressableProto (uip pos) with
        | true => exact hbuf hcomp
        | false => exact (hrest.of_not_compressable hcomp).2.2 ▸ hgood.2
      obtain ⟨x, hx₁, hx₂, hne⟩ := ih hrc (show 40 + (ext + extLen uip pos) = pos + extLen uip pos by omega) h₁ hf'
        hbad' hr
      exact ⟨x, by omega, hx₂, hne⟩
    · rw [bind_assoc] at hr
      obtain ⟨s₁, hs₁, hr⟩ := bind_ok hr
      obtain ⟨hlast, hpay, hne⟩ := uncompressExtHdr_lost hid' h (by omega) hs₁
      refine ⟨pos + 1, by omega, by omega, ?_⟩
      rwa [chain_frame hr (by omega) (pos + 1) (by omega) (by omega) (by omega) (by omega)]

end

end Contiki.Sicslowpan
