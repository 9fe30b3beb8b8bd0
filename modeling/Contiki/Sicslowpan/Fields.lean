/-
The fixed fields of the IPv6 header, one at a time: what the decompressor rebuilds from the bytes the
compressor left inline and the bits it set.
-/
import Contiki.Lib.Mem
import Contiki.Sicslowpan.Iphc

namespace Contiki.Sicslowpan

open Lib

/-! ## Bits of a byte -/

theorem byteBits (b : UInt8) : b <<< (6 : UInt8) = (b <<< (6 : UInt8)) &&& 0xc0 ∧
    (((b <<< (6 : UInt8)) &&& 0xc0) ||| ((b >>> (2 : UInt8)) &&& 0x30) = 0 → b &&& 0xc0 = 0) ∧
    ((b &&& 0x0f) &&& 0x0f) ||| (((b &&& 0x0f) >>> (2 : UInt8)) &&& 0x30) = b &&& 0x0f ∧
    (b ^^^ 0x02 = b ||| 0x02 ↔ b &&& 0x02 = 0) ∧ b.toNat < (b.toNat &&& 0xf0) + 16 := by
  revert b; apply forall_byte; decide +kernel

theorem shiftLeft_six (b : UInt8) : b <<< (6 : UInt8) = (b <<< (6 : UInt8)) &&& 0xc0 := (byteBits b).1

theorem ecn_zero (b : UInt8) :
    ((b <<< (6 : UInt8)) &&& 0xc0) ||| ((b >>> (2 : UInt8)) &&& 0x30) = 0 → b &&& 0xc0 = 0 := (byteBits b).2.1

theorem low_nibble (b : UInt8) :
    ((b &&& 0x0f) &&& 0x0f) ||| (((b &&& 0x0f) >>> (2 : UInt8)) &&& 0x30) = b &&& 0x0f := (byteBits b).2.2.1

theorem xor_eq_or (b : UInt8) : b ^^^ 0x02 = b ||| 0x02 ↔ b &&& 0x02 = 0 := (byteBits b).2.2.2.1

theorem lt_high_nibble (b : UInt8) : b.toNat < (b.toNat &&& 0xf0) + 16 := (byteBits b).2.2.2.2

theorem toNat_and_255 (b : UInt8) : b.toNat &&& 0xff = b.toNat :=
  Nat.and_two_pow_sub_one_of_lt_two_pow (n := 8) b.toNat_lt

theorem fourBitPorts {a b : Nat} (ha : a < 16) (hb : b < 16) :
    ((UInt8.ofNat (a <<< 4) + UInt8.ofNat b) >>> 4).toNat = a ∧
      ((UInt8.ofNat (a <<< 4) + UInt8.ofNat b) &&& 0x0f).toNat = b := by
  have h : ∀ a b : Fin 16, ((UInt8.ofNat (a.val <<< 4) + UInt8.ofNat b.val) >>> 4).toNat = a.val ∧
      ((UInt8.ofNat (a.val <<< 4) + UInt8.ofNat b.val) &&& 0x0f).toNat = b.val := by decide +kernel
  exact h ⟨a, ha⟩ ⟨b, hb⟩

/-! ## Accesses -/

/-- The buffers agree outside `[a, b)`. -/
abbrev Outside (a b : Nat) (buf buf' : Mem) : Prop := ∀ x, x < a ∨ b ≤ x → buf' x = buf x

theorem checkReadSpace_ok {pb : Packetbuf} {s : Unc} {n : Nat} (h : s.ptr + n ≤ pb.datalen) :
    checkReadSpace pb s n = .ok () := by
  unfold checkReadSpace
  rw [if_neg (by omega)]

@[simp] theorem Except.ok_bind' {ε α β : Type} (a : α) (f : α → Except ε β) : (Except.ok a >>= f) = f a := rfl

variable {uip : Mem} {pb : Packetbuf} {iphc0 : UInt8} {s : Unc}

/-! ## Traffic class and flow label -/

theorem tcIphc_spec (uip : Mem) : (tcIphc uip >>> (2 : UInt8)) &&& 0x0f = vtc uip &&& 0x0f ∧
      ((tcIphc uip <<< (6 : UInt8)) &&& 0xc0) ||| ((tcIphc uip >>> (2 : UInt8)) &&& 0x30) = tcflow uip &&& 0xf0 := by
  unfold tcIphc
  rw [← nibbles_shiftRight (vtc uip) (tcflow uip), ← nibbles_shiftLeft (vtc uip) (tcflow uip)]
  generalize (vtc uip <<< 4) ||| (tcflow uip >>> 4) = t
  constructor
  · apply UInt8.toBitVec_inj.mp
    simp
    ext i hi
    interval_cases i <;> simp
  · apply UInt8.toBitVec_inj.mp
    simp
    ext i hi
    interval_cases i <;> simp

theorem version_or (v : UInt8) (h : v &&& 0xf0 = 0x60) : 0x60 ||| (v &&& 0x0f) = v := by
  rw [← h]; exact and_or_nibbles v

theorem uncompressTf_roundTrip (hv : vtc uip &&& 0xf0 = 0x60) (hb : iphc0 &&& 0x18 = (compressTf uip).1)
    (hw : Mem.Holds s.ptr (compressTf uip).2 pb.byte) (hd : s.ptr + (compressTf uip).2.length ≤ pb.datalen) :
    ∃ buf, uncompressTf pb iphc0 s = .ok ⟨buf, s.ptr + (compressTf uip).2.length⟩ ∧
      (∀ x, x < 4 → buf x = uip x) ∧ Outside 0 4 s.buf buf := by
  have h10 : iphc0 &&& iphcFlC = (iphc0 &&& 0x18) &&& 0x10 := and_and_of_sub _ (by decide)
  have h08 : iphc0 &&& iphcTcC = (iphc0 &&& 0x18) &&& 0x08 := and_and_of_sub _ (by decide)
  obtain ⟨hhi, hlo⟩ := tcIphc_spec uip
  have hver := version_or _ hv
  have hflow := and_or_nibbles (tcflow uip)
  unfold uncompressTf
  rw [h10, h08, hb]
  by_cases hfl : tcflow uip &&& 0x0f = 0 ∧ uip 2 = 0 ∧ uip 3 = 0 <;>
    by_cases htc : vtc uip &&& 0x0f = 0 ∧ tcflow uip &&& 0xf0 = 0
  · have he : compressTf uip = (iphcFlC ||| iphcTcC, []) := by unfold compressTf; rw [if_pos hfl, if_pos htc]
    have hlow : tcflow uip = 0 := by rw [← hflow, hfl.1, htc.2]; rfl
    have hvtc : vtc uip = 0x60 := by rw [← hver, htc.1]; rfl
    rw [he, if_neg (show ¬(iphcFlC ||| iphcTcC) &&& 0x10 = 0 by decide),
      if_neg (show ¬(iphcFlC ||| iphcTcC) &&& 0x08 = 0 by decide)]
    refine ⟨_, rfl, fun x hx => ?_, fun x hx => ?_⟩
    · interval_cases x <;> simp [Mem.fill, Mem.put, Function.update, hfl.2.1, hfl.2.2]
      · exact hvtc.symm
      · exact hlow.symm
    · rw [Mem.fill_of_out (by omega), Mem.put_of_ne (by omega)]
  · have he : compressTf uip = (iphcFlC, [tcIphc uip]) := by unfold compressTf; rw [if_pos hfl, if_neg htc]
    rw [he] at hw hd ⊢
    have h₀ : pb.byte s.ptr = tcIphc uip := hw.1
    have hhigh : tcflow uip &&& 0xf0 = tcflow uip := by rw [← hflow, hfl.1]; simp [UInt8.and_assoc]
    rw [if_neg (show ¬iphcFlC &&& 0x10 = 0 by decide), if_pos (show iphcFlC &&& 0x08 = 0 by decide),
      checkReadSpace_ok (by simpa using hd)]
    refine ⟨_, rfl, fun x hx => ?_, fun x hx => ?_⟩
    · interval_cases x <;> simp [Mem.fill, Mem.put, Function.update, hfl.2.1, hfl.2.2, h₀, hhi, hlo]
      · exact hver
      · exact hhigh
    · rw [Mem.fill_of_out (by omega), Mem.put_of_ne (by omega), Mem.put_of_ne (by omega)]
  · have he : compressTf uip = (iphcTcC, [(tcIphc uip &&& 0xc0) ||| (tcflow uip &&& 0x0f), uip 2, uip 3]) := by
      unfold compressTf; rw [if_neg hfl, if_pos htc]
    rw [he] at hw hd ⊢
    obtain ⟨h₀, h₁, h₂, -⟩ := hw
    have hvtc : vtc uip = 0x60 := by rw [← hver, htc.1]; rfl
    have hlow : tcflow uip &&& 0x0f = tcflow uip := by rw [← hflow, htc.2]; simp [UInt8.and_assoc]
    rw [if_pos (show iphcTcC &&& 0x10 = 0 by decide), if_neg (show ¬iphcTcC &&& 0x08 = 0 by decide)]
    dsimp only
    rw [checkReadSpace_ok (by simpa using hd)]
    refine ⟨_, rfl, fun x hx => ?_, fun x hx => ?_⟩
    · interval_cases x <;> simp [Mem.paste, Mem.put, Function.update, h₀, h₁, h₂]
      · exact hvtc.symm
      · rw [ecn_zero _ (by rw [hlo, htc.2]), UInt8.zero_or, low_nibble]
        exact hlow
    · rw [Mem.paste_of_out (by omega), Mem.put_of_ne (by omega), Mem.put_of_ne (by omega)]
  · have he : compressTf uip = (0, [tcIphc uip, uip 1, uip 2, uip 3]) := by
      unfold compressTf; rw [if_neg hfl, if_neg htc]
    rw [he] at hw hd ⊢
    obtain ⟨h₀, h₁, h₂, h₃, -⟩ := hw
    rw [if_pos (show 0 &&& 0x10 = (0 : UInt8) by decide), if_pos (show 0 &&& 0x08 = (0 : UInt8) by decide),
      checkReadSpace_ok (by simpa using hd)]
    refine ⟨_, rfl, fun x hx => ?_, fun x hx => ?_⟩
    · interval_cases x <;> simp [Mem.paste, Mem.put, Function.update, h₀, h₁, h₂, h₃, hhi]
      · exact hver
      · rw [shiftLeft_six, UInt8.or_comm (_ &&& 0x30), hlo]
        exact hflow
    · rw [Mem.put_of_ne (by omega), Mem.put_of_ne (by omega), Mem.paste_of_out (by omega)]

/-! ## Next header and hop limit -/

theorem uncompressNextHeader_roundTrip (hb : iphc0 &&& 0x04 = (compressNextHeader uip).1)
    (hw : Mem.Holds s.ptr (compressNextHeader uip).2 pb.byte)
    (hd : s.ptr + (compressNextHeader uip).2.length ≤ pb.datalen) :
    ∃ buf, uncompressNextHeader pb iphc0 s = .ok ⟨buf, s.ptr + (compressNextHeader uip).2.length⟩ ∧
      (isCompressableProto (proto uip) = false → buf 6 = uip 6) ∧ Outside 6 7 s.buf buf := by
  unfold uncompressNextHeader
  rw [show iphc0 &&& iphcNhC = iphc0 &&& 0x04 from rfl, hb]
  unfold compressNextHeader at hw hd ⊢
  cases hc : isCompressableProto (proto uip) <;>
    simp only [hc, Bool.false_eq_true, if_false, if_true] at hw hd ⊢
  · rw [checkReadSpace_ok (by simpa using hd)]
    refine ⟨_, rfl, fun _ => ?_, fun x hx => Mem.put_of_ne (by omega)⟩
    rw [Mem.put_same]
    exact hw.1
  · rw [if_neg (show ¬iphcNhC = 0 by decide)]
    exact ⟨s.buf, rfl, nofun, fun x _ => rfl⟩

theorem uncompressTtl_roundTrip (hb : iphc0 &&& 0x03 = (compressTtl uip).1)
    (hw : Mem.Holds s.ptr (compressTtl uip).2 pb.byte) (hd : s.ptr + (compressTtl uip).2.length ≤ pb.datalen) :
    ∃ buf, uncompressTtl pb iphc0 s = .ok ⟨buf, s.ptr + (compressTtl uip).2.length⟩ ∧
      buf 7 = uip 7 ∧ Outside 7 8 s.buf buf := by
  have hout : ∀ b, Outside 7 8 s.buf (s.buf.put 7 b) := fun b x hx => Mem.put_of_ne (by omega)
  unfold uncompressTtl
  rw [hb]
  unfold compressTtl at hw hd ⊢
  have hval : ∀ v : UInt8, ttl uip = v → uip 7 = v := fun _ h => h
  by_cases h₁ : ttl uip = 1
  · simp only [if_pos h₁]
    refine ⟨_, rfl, ?_, hout _⟩
    rw [Mem.put_same, hval 1 h₁]; rfl
  by_cases h₂ : ttl uip = 64
  · simp only [if_neg h₁, if_pos h₂]
    refine ⟨_, rfl, ?_, hout _⟩
    rw [Mem.put_same, hval 64 h₂]; rfl
  by_cases h₃ : ttl uip = 255
  · simp only [if_neg h₁, if_neg h₂, if_pos h₃]
    refine ⟨_, rfl, ?_, hout _⟩
    rw [Mem.put_same, hval 255 h₃]; rfl
  · simp only [if_neg h₁, if_neg h₂, if_neg h₃] at hw hd ⊢
    rw [if_neg (by decide), checkReadSpace_ok (by simpa using hd)]
    refine ⟨_, rfl, ?_, hout _⟩
    rw [Mem.put_same]
    exact hw.1


/-! ## Addresses -/

section Addr

variable {cfg : Config} {pos : Nat} {pre lladdr a : Mem} {c : UInt8} {m n : Nat}

/-- The buffers agree on the address at `pos`. -/
def HasAddr (pos : Nat) (a buf : Mem) : Prop := ∀ i, i < 16 → buf (pos + i) = a i

theorem hasAddr_paste (pos : Nat) (a buf : Mem) : HasAddr pos a (Mem.paste pos 16 a buf) := by
  intro i hi
  rw [Mem.paste_in (by omega) (by omega), Nat.add_sub_cancel_left]

theorem outside_paste (pos : Nat) (a buf : Mem) : Outside pos (pos + 16) buf (Mem.paste pos 16 a buf) :=
  fun _ hx => Mem.paste_of_out (by omega)

theorem HasAddr.congr {a a' buf : Mem} (h : HasAddr pos a buf) (ha : ∀ i, i < 16 → a i = a' i) : HasAddr pos a' buf :=
  fun i hi => (h i hi).trans (ha i hi)

theorem uncompressAddr_inline (hm : nibbleCount (c >>> 4).toNat = m) (hn : nibbleCount (c &&& 0x0f).toNat = n)
    (hpos : 0 < n) (hmn : m + n ≤ 16) (hpre : ∀ i, i < m → pre i = a i) (hmid : ∀ i, m ≤ i → i < 16 - n →
      a i = if n = 2 ∧ m < 11 then (if i = 12 then 0xfe else if i = 11 then 0xff else 0) else 0)
    (hpost : ∀ i, i < n → pb.byte (s.ptr + i) = a (16 - n + i)) (hd : s.ptr + n ≤ pb.datalen) :
    ∃ buf, uncompressAddr cfg pb pos (some pre) c lladdr s = .ok ⟨buf, s.ptr + n⟩ ∧
      HasAddr pos a buf ∧ Outside pos (pos + 16) s.buf buf := by
  unfold uncompressAddr
  simp only [hm, hn]
  rw [if_pos hpos, if_neg (by omega)]
  -- prefix and zeroes, before the inline bytes
  have hbase : ∀ i, i < 16 - n → (if m + n < 16 then
      Mem.fill m (16 - (m + n)) 0 (Mem.paste 0 m pre fun i => s.buf (pos + i))
        else Mem.paste 0 m pre fun i => s.buf (pos + i)) i = if i < m then a i else 0 := by
    intro i hi
    by_cases him : i < m
    · rw [if_pos him, ← hpre i him]
      split
      · rw [Mem.fill_of_out (by omega), Mem.paste_in (by omega) (by omega), Nat.sub_zero]
      · rw [Mem.paste_in (by omega) (by omega), Nat.sub_zero]
    · rw [if_neg him, if_pos (by omega)]
      unfold Mem.fill
      rw [if_pos (by omega)]
  have hwritten : ∀ i, i < 16 → Mem.paste (16 - n) n (fun i => pb.byte (s.ptr + i))
      (if m + n < 16 then Mem.fill m (16 - (m + n)) 0 (Mem.paste 0 m pre fun i => s.buf (pos + i))
        else Mem.paste 0 m pre fun i => s.buf (pos + i)) i =
      if i < m then a i else if i < 16 - n then 0 else a i := by
    intro i hi
    by_cases hlow : i < 16 - n
    · rw [Mem.paste_of_out (by omega), hbase i hlow, if_pos hlow]
    · rw [Mem.paste_in (by omega) (by omega), hpost _ (by omega), if_neg hlow, ite_self]
      congr 1; omega
  refine ⟨_, rfl, HasAddr.congr (hasAddr_paste _ _ _) fun i hi => ?_, outside_paste _ _ _⟩
  by_cases hiid : n = 2 ∧ m < 11
  · rw [if_pos hiid]
    obtain rfl | h12 := eq_or_ne i 12
    · rw [Mem.put_same, hmid 12 (by omega) (by omega), if_pos hiid, if_pos rfl]
    rw [Mem.put_of_ne h12]
    obtain rfl | h11 := eq_or_ne i 11
    · rw [Mem.put_same, hmid 11 (by omega) (by omega), if_pos hiid, if_neg h12, if_pos rfl]
    rw [Mem.put_of_ne h11, hwritten i hi]
    split_ifs with him hlow
    · rfl
    · rw [hmid i (by omega) hlow, if_pos hiid, if_neg h12, if_neg h11]
    · rfl
  · rw [if_neg hiid, hwritten i hi]
    split_ifs with him hlow
    · rfl
    · rw [hmid i (by omega) hlow, if_neg hiid]
    · rfl

theorem uncompressAddr_whole (hm : nibbleCount (c >>> 4).toNat = 0) (hn : nibbleCount (c &&& 0x0f).toNat = 16)
    (hpost : ∀ i, i < 16 → pb.byte (s.ptr + i) = a (0 + i)) (hd : s.ptr + 16 ≤ pb.datalen) :
    ∃ buf, uncompressAddr cfg pb pos (some pre) c lladdr s = .ok ⟨buf, s.ptr + 16⟩ ∧
      HasAddr pos a buf ∧ Outside pos (pos + 16) s.buf buf :=
  uncompressAddr_inline hm hn (by omega) (by omega) (fun _ hi => absurd hi (by omega))
    (fun _ _ hi => absurd hi (by omega)) hpost hd

theorem uncompressAddr_derived (hm : nibbleCount (c >>> 4).toNat = m) (hn : nibbleCount (c &&& 0x0f).toNat = 0)
    (hpos : 0 < m) (hmn : m ≤ 8) (hpre : ∀ i, i < m → pre i = a i) (hmid : ∀ i, m ≤ i → i < 8 → a i = 0)
    (hiid : ∀ i, i < 8 → (lladdrIid cfg.kind lladdr).getD i 0 = a (8 + i)) :
    ∃ buf, uncompressAddr cfg pb pos (some pre) c lladdr s = .ok ⟨buf, s.ptr⟩ ∧
      HasAddr pos a buf ∧ Outside pos (pos + 16) s.buf buf := by
  unfold uncompressAddr
  simp only [hm, hn]
  rw [if_neg (lt_irrefl 0), if_pos hpos, if_pos (by omega)]
  refine ⟨_, rfl, HasAddr.congr (hasAddr_paste _ _ _) fun i hi => ?_, outside_paste _ _ _⟩
  unfold ds6SetAddrIid
  by_cases h8 : i < 8
  · rw [Mem.paste_of_out (by omega)]
    by_cases him : i < m
    · rw [Mem.fill_of_out (by omega), Mem.paste_in (by omega) (by omega), Nat.sub_zero, hpre i him]
    · unfold Mem.fill
      rw [if_pos (by omega), hmid i (by omega) h8]
  · rw [Mem.paste_in (by omega) (by omega), hiid _ (by omega)]
    congr 1; omega

theorem uncompressAddr_unspecified : ∃ buf, uncompressAddr cfg pb pos none 0 lladdr s = .ok ⟨buf, s.ptr⟩ ∧
      HasAddr pos (fun _ => 0) buf ∧ Outside pos (pos + 16) s.buf buf := by
  have hm : nibbleCount ((0 : UInt8) >>> 4).toNat = 0 := rfl
  have hn : nibbleCount ((0 : UInt8) &&& 0x0f).toNat = 0 := rfl
  unfold uncompressAddr
  simp only [hm, hn, lt_irrefl, if_false]
  refine ⟨_, rfl, HasAddr.congr (hasAddr_paste _ _ _) fun i hi => ?_, outside_paste _ _ _⟩
  rw [if_pos (by omega)]
  unfold Mem.fill
  rw [if_pos (by omega)]

/-! ### Interface identifiers -/

/-- The mode `compress_addr_64` shifts into place. -/
def addr64Mode (kind : LladdrKind) (a lladdr : Mem) : Nat :=
  if isAddrMacAddrBased kind a lladdr then 3 else if isIid16BitCompressable a then 2 else 1

theorem compressAddr64_fst (cfg : Config) (bitpos : UInt8) (a lladdr : Mem) :
    (compressAddr64 cfg bitpos a lladdr).1 = UInt8.ofNat (addr64Mode cfg.kind a lladdr) <<< bitpos := by
  unfold compressAddr64 addr64Mode
  split
  · rfl
  · split <;> rfl

/-- What comes back of an address behind a prefix of `n` bytes. -/
def rebuilt64 (kind : LladdrKind) (n : Nat) (a lladdr : Mem) : Mem := fun i =>
  if i < n then a i
  else if i < 8 then 0
  else if isAddrMacAddrBased kind a lladdr then (lladdrIid kind lladdr).getD (i - 8) 0
  else a i

theorem uncompressAddr_64 {bitpos : UInt8} {conf : List UInt8}
    (hconf : n = 2 ∧ conf = uncLlconf ∨ n = 8 ∧ conf = uncCtxconf) (hpre : ∀ i, i < n → pre i = a i)
    (hw : Mem.Holds s.ptr (compressAddr64 cfg bitpos a lladdr).2 pb.byte)
    (hd : s.ptr + (compressAddr64 cfg bitpos a lladdr).2.length ≤ pb.datalen) :
    ∃ buf, uncompressAddr cfg pb pos (some pre) (conf.getD (addr64Mode cfg.kind a lladdr) 0) lladdr s =
        .ok ⟨buf, s.ptr + (compressAddr64 cfg bitpos a lladdr).2.length⟩ ∧
      HasAddr pos (rebuilt64 cfg.kind n a lladdr) buf ∧ Outside pos (pos + 16) s.buf buf := by
  have hn8 : n ≤ 8 := by omega
  have hn0 : 0 < n := by omega
  have hpre' : ∀ i, i < n → pre i = rebuilt64 cfg.kind n a lladdr i := fun i hi => by
    unfold rebuilt64; rw [if_pos hi]; exact hpre i hi
  have hzero : ∀ i, n ≤ i → i < 8 → rebuilt64 cfg.kind n a lladdr i = 0 := fun i h₁ h₂ => by
    unfold rebuilt64; rw [if_neg (by omega), if_pos h₂]
  unfold compressAddr64 at hw hd ⊢
  unfold addr64Mode
  by_cases hmac : isAddrMacAddrBased cfg.kind a lladdr
  · rw [if_pos hmac] at hw hd ⊢
    rw [if_pos hmac]
    refine uncompressAddr_derived ?_ ?_ hn0 hn8 hpre' hzero fun i hi => ?_
    · rcases hconf with ⟨rfl, rfl⟩ | ⟨rfl, rfl⟩ <;> rfl
    · rcases hconf with ⟨rfl, rfl⟩ | ⟨rfl, rfl⟩ <;> rfl
    · unfold rebuilt64
      rw [if_neg (by omega), if_neg (by omega), if_pos hmac, Nat.add_sub_cancel_left]
  rw [if_neg hmac] at hw hd ⊢
  rw [if_neg hmac]
  have hiid : ∀ i, 8 ≤ i → rebuilt64 cfg.kind n a lladdr i = a i := fun i hi => by
    unfold rebuilt64; rw [if_neg (by omega), if_neg (by omega), if_neg hmac]
  by_cases h16 : isIid16BitCompressable a
  · rw [if_pos h16] at hw hd ⊢
    rw [if_pos h16]
    simp only [Mem.length_read] at hd ⊢
    refine uncompressAddr_inline (m := n) (n := 2) ?_ ?_ (by omega) (by omega) hpre' (fun i h₁ h₂ => ?_) (fun i hi => ?_) hd
    · rcases hconf with ⟨rfl, rfl⟩ | ⟨rfl, rfl⟩ <;> rfl
    · rcases hconf with ⟨rfl, rfl⟩ | ⟨rfl, rfl⟩ <;> rfl
    · rw [if_pos ⟨rfl, by omega⟩]
      by_cases h8 : i < 8
      · rw [hzero i h₁ h8, if_neg (by omega), if_neg (by omega)]
      · rw [hiid i (by omega)]
        simp only [isIid16BitCompressable, u16Zero, Bool.and_eq_true, beq_iff_eq] at h16
        obtain ⟨⟨⟨⟨⟨h8, h9⟩, h10⟩, h11⟩, h12⟩, h13⟩ := h16
        interval_cases i <;> simp_all
    · rw [Mem.holds_read.mp hw i hi, hiid _ (by omega)]
  · rw [if_neg h16] at hw hd ⊢
    rw [if_neg h16]
    simp only [Mem.length_read] at hd ⊢
    refine uncompressAddr_inline (m := n) (n := 8) ?_ ?_ (by omega) (by omega) hpre' (fun i h₁ h₂ => ?_) (fun i hi => ?_) hd
    · rcases hconf with ⟨rfl, rfl⟩ | ⟨rfl, rfl⟩ <;> rfl
    · rcases hconf with ⟨rfl, rfl⟩ | ⟨rfl, rfl⟩ <;> rfl
    · rw [if_neg (by omega)]; exact hzero i h₁ h₂
    · rw [Mem.holds_read.mp hw i hi, hiid _ (by omega)]

/-- The identifier derived from the link-layer address is the one the address was matched against: a
six-byte address is matched with the local bit set but derived with the bit inverted. -/
def IidDerivable (kind : LladdrKind) (a lladdr : Mem) : Prop :=
  isAddrMacAddrBased kind a lladdr → kind = .eth → lladdr 0 &&& 0x02 = 0

theorem lladdrIid_eq {kind : LladdrKind} (h : isAddrMacAddrBased kind a lladdr) :
    (∀ i, i < 8 → (lladdrIid kind lladdr).getD i 0 = a (8 + i)) ↔ (kind = .eth → lladdr 0 &&& 0x02 = 0) := by
  cases kind <;> simp only [isAddrMacAddrBased, u16Zero, Bool.and_eq_true, beq_iff_eq] at h
  · refine ⟨fun _ => nofun, fun _ i hi => ?_⟩
    interval_cases i <;> simp [lladdrIid, h]
  · refine ⟨fun _ => nofun, fun _ i hi => ?_⟩
    interval_cases i <;> simp [lladdrIid, h]
  · rw [← xor_eq_or]
    constructor
    · intro heq _
      have h₀ : lladdr 0 ^^^ 0x02 = a 8 := heq 0 (by omega)
      rw [h₀, h.1.1.1.1.1.1.1]
    · intro heq i hi
      interval_cases i <;> simp [lladdrIid, h, heq rfl]

theorem rebuilt64_iff {kind : LladdrKind} (hn : n ≤ 8) : (∀ i, i < 16 → rebuilt64 kind n a lladdr i = a i) ↔
      (∀ i, n ≤ i → i < 8 → a i = 0) ∧ IidDerivable kind a lladdr := by
  constructor
  · intro h
    refine ⟨fun i h₁ h₂ => ?_, fun hmac => (lladdrIid_eq hmac).mp fun i hi => ?_⟩
    · rw [← h i (by omega)]
      unfold rebuilt64
      rw [if_neg (by omega), if_pos h₂]
    · rw [← h (8 + i) (by omega)]
      unfold rebuilt64
      rw [if_neg (by omega), if_neg (by omega), if_pos hmac, Nat.add_sub_cancel_left]
  · rintro ⟨hz, hder⟩ i hi
    unfold rebuilt64
    split_ifs with h₁ h₂ hmac
    · rfl
    · exact (hz i (by omega) h₂).symm
    · rw [(lladdrIid_eq hmac).mpr (hder hmac) (i - 8) (by omega)]
      congr 1; omega
    · rfl

end Addr

end Contiki.Sicslowpan
