/-
Source and destination address: which of them the decompressor rebuilds, and exactly when what it
rebuilds is the address that was compressed.
-/
import Contiki.Sicslowpan.Fields

namespace Contiki.Sicslowpan

section

open Lib

variable {cfg : Config} {uip lladdr receiver : Mem} {pb : Packetbuf} {s : Unc} {iphc1 ctx : UInt8} {c : AddrContext}

/-! ## Contexts -/

theorem lookupByPrefix_spec {a : Mem} (h : addrContextLookupByPrefix cfg a = some c) :
    c ∈ cfg.addrContexts ∧ c.used = 1 ∧ ∀ i, i < 8 → c.ctxPrefix i = a i := by
  have hmem := List.mem_of_find?_eq_some h
  have hp := List.find?_some h
  simp only [Bool.and_eq_true, beq_iff_eq, List.all_eq_true, List.mem_range] at hp
  exact ⟨hmem, hp.1, hp.2⟩

theorem lookupByNumber_of_mem (hm : c ∈ cfg.addrContexts) (hu : c.used = 1) :
    addrContextLookupByNumber cfg c.number = some c := by
  obtain ⟨c', hc'⟩ : ∃ c', addrContextLookupByNumber cfg c.number = some c' := by
    rw [← Option.isSome_iff_exists]
    unfold addrContextLookupByNumber
    rw [List.find?_isSome]
    exact ⟨c, hm, by simp [hu]⟩
  have hp := List.find?_some hc'
  simp only [Bool.and_eq_true, beq_iff_eq] at hp
  rw [hc', cfg.number_inj c' (List.mem_of_find?_eq_some hc') c hm hp.1 hu hp.2]

/-! ## Source address -/

/-- When the source address comes back. -/
@[grind =]
def SrcRebuilt (cfg : Config) (uip lladdr : Mem) : Prop :=
  isAddrUnspecified (srcipaddr uip) = false →
    match addrContextLookupByPrefix cfg (srcipaddr uip) with
    | some _ => IidDerivable cfg.kind (srcipaddr uip) lladdr
    | none =>
      isAddrLinklocal (srcipaddr uip) = true → (∀ i, 2 ≤ i → i < 8 → destipaddr uip i = 0) →
        (∀ i, 2 ≤ i → i < 8 → srcipaddr uip i = 0) ∧ IidDerivable cfg.kind (srcipaddr uip) lladdr

theorem u16Zero_iff (a : Mem) : (u16Zero a 1 && u16Zero a 2 && u16Zero a 3) = true ↔ ∀ i, 2 ≤ i → i < 8 → a i = 0 := by
  simp only [u16Zero, Bool.and_eq_true, beq_iff_eq]
  constructor
  · rintro ⟨⟨⟨h₂, h₃⟩, h₄, h₅⟩, h₆, h₇⟩ i hi₁ hi₂
    interval_cases i <;> assumption
  · intro h
    refine ⟨⟨⟨h _ ?_ ?_, h _ ?_ ?_⟩, h _ ?_ ?_, h _ ?_ ?_⟩, h _ ?_ ?_, h _ ?_ ?_⟩ <;> omega

theorem and_u16Zero (b : Bool) (a : Mem) :
    (b && u16Zero a 1 && u16Zero a 2 && u16Zero a 3) = (b && (u16Zero a 1 && u16Zero a 2 && u16Zero a 3)) := by
  simp only [Bool.and_assoc]

theorem llprefix_of_linklocal {a : Mem} (h : isAddrLinklocal a = true) : ∀ i, i < 2 → llprefix i = a i := by
  simp only [isAddrLinklocal, Bool.and_eq_true, beq_iff_eq] at h
  intro i hi
  interval_cases i
  · exact h.1.symm
  · exact h.2.symm

theorem isAddrUnspecified_iff {a : Mem} : isAddrUnspecified a = true ↔ ∀ i, i < 16 → a i = 0 := by
  simp only [isAddrUnspecified, List.all_eq_true, List.mem_range, u16Zero, Bool.and_eq_true, beq_iff_eq]
  constructor
  · intro h i hi
    obtain ⟨h₀, h₁⟩ := h (i / 2) (by omega)
    obtain he | he : i = 2 * (i / 2) ∨ i = 2 * (i / 2) + 1 := by omega
    · rw [he]; exact h₀
    · rw [he]; exact h₁
  · intro h i hi
    exact ⟨h _ (by omega), h _ (by omega)⟩

theorem addr64Mode_pos (kind : LladdrKind) (a lladdr : Mem) : 1 ≤ addr64Mode kind a lladdr := by
  unfold addr64Mode
  split_ifs <;> omega

theorem addr64Mode_le (kind : LladdrKind) (a lladdr : Mem) : addr64Mode kind a lladdr ≤ 3 := by
  unfold addr64Mode
  split_ifs <;> omega

section

variable {k : Nat}

theorem sac_eq (iphc1 : UInt8) : iphc1 &&& iphcSac = (iphc1 &&& 0x70) &&& 0x40 := and_and_of_sub _ (by decide)

theorem sam_eq (iphc1 : UInt8) : iphc1 &&& 0x30 = (iphc1 &&& 0x70) &&& 0x30 := and_and_of_sub _ (by decide)

theorem uncompressSrc_ctx (hb : iphc1 &&& 0x70 = 0x40 ||| UInt8.ofNat k <<< (4 : UInt8)) (h₁ : 1 ≤ k) (h₃ : k ≤ 3)
    (hcid : iphc1 &&& iphcCid ≠ 0) (hc : addrContextLookupByNumber cfg (ctx >>> 4) = some c) :
    uncompressSrc cfg pb iphc1 ctx lladdr s =
      uncompressAddr cfg pb 8 (some c.ctxPrefix) (uncCtxconf.getD k 0) lladdr s := by
  unfold uncompressSrc
  dsimp only
  rw [sac_eq, sam_eq, hb, if_pos hcid, hc]
  interval_cases k <;> rfl

theorem uncompressSrc_ll (hb : iphc1 &&& 0x70 = UInt8.ofNat k <<< (4 : UInt8)) (h₃ : k ≤ 3) :
    uncompressSrc cfg pb iphc1 ctx lladdr s =
      uncompressAddr cfg pb 8 (some llprefix) (uncLlconf.getD k 0) lladdr s := by
  unfold uncompressSrc
  dsimp only
  rw [sac_eq, sam_eq, hb]
  interval_cases k <;> rfl

theorem uncompressSrc_unspecified (hb : iphc1 &&& 0x70 = 0x40) :
    uncompressSrc cfg pb iphc1 ctx lladdr s = uncompressAddr cfg pb 8 none 0 lladdr s := by
  unfold uncompressSrc
  dsimp only
  rw [sac_eq, sam_eq, hb]
  rfl

end

theorem uncompressSrc_roundTrip (hb : iphc1 &&& 0x70 = (compressSrc cfg uip lladdr).1 &&& 0x70)
    (hcid : ∀ c, addrContextLookupByPrefix cfg (srcipaddr uip) = some c →
      isAddrUnspecified (srcipaddr uip) = false → iphc1 &&& iphcCid ≠ 0 ∧ ctx >>> 4 = c.number)
    (hw : Mem.Holds s.ptr (compressSrc cfg uip lladdr).2.2 pb.byte)
    (hd : s.ptr + (compressSrc cfg uip lladdr).2.2.length ≤ pb.datalen) :
    ∃ buf a, uncompressSrc cfg pb iphc1 ctx lladdr s = .ok ⟨buf, s.ptr + (compressSrc cfg uip lladdr).2.2.length⟩ ∧
      HasAddr 8 a buf ∧ Outside 8 24 s.buf buf ∧
      ((∀ i, i < 16 → a i = srcipaddr uip i) ↔ SrcRebuilt cfg uip lladdr) := by
  unfold SrcRebuilt
  unfold compressSrc at hb hw hd ⊢
  have hk₁ := addr64Mode_pos cfg.kind (srcipaddr uip) lladdr
  have hk₃ := addr64Mode_le cfg.kind (srcipaddr uip) lladdr
  cases hun : isAddrUnspecified (srcipaddr uip) with
  | true =>
    simp only [hun, if_true] at hb hd ⊢
    rw [uncompressSrc_unspecified hb]
    obtain ⟨buf, he, ha, ho⟩ := @uncompressAddr_unspecified _ _ _ 8 _
    refine ⟨buf, _, he, ha, ho, fun _ h => absurd h Bool.noConfusion, fun _ i hi => ?_⟩
    exact (isAddrUnspecified_iff.mp hun i hi).symm
  | false =>
    cases hlook : addrContextLookupByPrefix cfg (srcipaddr uip) with
    | some c =>
      obtain ⟨hmem, hused, hpre⟩ := lookupByPrefix_spec hlook
      obtain ⟨hc, hnum⟩ := hcid c hlook hun
      simp only [hun, hlook, Bool.false_eq_true, if_false, compressAddr64_fst] at hb hw hd ⊢
      rw [uncompressSrc_ctx (hb.trans ?_) hk₁ hk₃ hc (hnum ▸ lookupByNumber_of_mem hmem hused)]
      · obtain ⟨buf, he, ha, ho⟩ := uncompressAddr_64 (.inr ⟨rfl, rfl⟩) hpre hw hd
        refine ⟨buf, _, he, ha, ho, ?_⟩
        rw [rebuilt64_iff le_rfl]
        constructor
        · exact fun h _ => h.2
        · exact fun h => ⟨fun i h₁ h₂ => absurd h₂ (by omega), h trivial⟩
      · generalize addr64Mode cfg.kind (srcipaddr uip) lladdr = k at hk₁ hk₃
        interval_cases k <;> rfl
    | none =>
      cases hll : (isAddrLinklocal (srcipaddr uip) && u16Zero (destipaddr uip) 1 && u16Zero (destipaddr uip) 2 &&
          u16Zero (destipaddr uip) 3) with
      | true =>
        simp only [hun, hlook, hll, Bool.false_eq_true, if_false, if_true, compressAddr64_fst] at hb hw hd ⊢
        rw [and_u16Zero, Bool.and_eq_true, u16Zero_iff] at hll
        rw [uncompressSrc_ll (hb.trans ?_) hk₃]
        · obtain ⟨buf, he, ha, ho⟩ := uncompressAddr_64 (.inl ⟨rfl, rfl⟩) (llprefix_of_linklocal hll.1) hw hd
          refine ⟨buf, _, he, ha, ho, ?_⟩
          rw [rebuilt64_iff (by omega)]
          constructor
          · exact fun h _ _ _ => h
          · exact fun h => h trivial hll.1 hll.2
        · generalize addr64Mode cfg.kind (srcipaddr uip) lladdr = k at hk₁ hk₃
          interval_cases k <;> rfl
      | false =>
        simp only [hun, hlook, hll, Bool.false_eq_true, if_false] at hb hw hd ⊢
        rw [uncompressSrc_ll (k := 0) hb (by omega)]
        rw [Mem.length_read] at hd ⊢
        obtain ⟨buf, he, ha, ho⟩ := uncompressAddr_whole (c := uncLlconf.getD 0 0) rfl rfl (Mem.holds_read.mp hw) hd
        refine ⟨buf, _, he, ha, ho, fun _ _ hlocal hzero => ?_, fun _ _ _ => rfl⟩
        -- the test that failed is the condition of the clause
        rw [and_u16Zero, hlocal, (u16Zero_iff _).mpr hzero] at hll
        exact absurd hll (by decide)

/-! ## Destination address -/

/-- When the destination address comes back. -/
def DestRebuilt (cfg : Config) (uip lladdr : Mem) : Prop :=
  isAddrMcast (destipaddr uip) = false →
    match addrContextLookupByPrefix cfg (destipaddr uip) with
    | some _ => IidDerivable cfg.kind (destipaddr uip) lladdr
    | none =>
      isAddrLinklocal (destipaddr uip) = true → (∀ i, 2 ≤ i → i < 8 → destipaddr uip i = 0) →
        IidDerivable cfg.kind (destipaddr uip) lladdr

section

variable {k : Nat}

theorem m_eq (iphc1 : UInt8) : iphc1 &&& iphcM = (iphc1 &&& 0x0f) &&& 0x08 := and_and_of_sub _ (by decide)

theorem dac_eq (iphc1 : UInt8) : iphc1 &&& iphcDac = (iphc1 &&& 0x0f) &&& 0x04 := and_and_of_sub _ (by decide)

theorem dam_eq (iphc1 : UInt8) : iphc1 &&& 0x03 = (iphc1 &&& 0x0f) &&& 0x03 := and_and_of_sub _ (by decide)

theorem uncompressDest_mcast (hb : iphc1 &&& 0x0f = 0x08 ||| UInt8.ofNat k) (hk : k = 0 ∨ k = 3) :
    uncompressDest cfg pb iphc1 ctx lladdr s =
      uncompressAddr cfg pb 24 (some fun i => [0xff, 0x02].getD i 0) (uncMxconf.getD k 0) lladdr s := by
  unfold uncompressDest
  dsimp only
  rw [m_eq, dac_eq, dam_eq iphc1, hb]
  rcases hk with rfl | rfl <;> rfl

theorem uncompressDest_mcastScope (hb : iphc1 &&& 0x0f = 0x08 ||| UInt8.ofNat k) (hk : k = 1 ∨ k = 2)
    (hd : s.ptr + 1 ≤ pb.datalen) :
    uncompressDest cfg pb iphc1 ctx lladdr s =
      uncompressAddr cfg pb 24 (some fun i => [0xff, pb.byte s.ptr].getD i 0) (uncMxconf.getD k 0) lladdr
        { s with ptr := s.ptr + 1 } := by
  unfold uncompressDest
  dsimp only
  rw [m_eq, dac_eq, dam_eq iphc1, hb, checkReadSpace_ok hd]
  rcases hk with rfl | rfl <;> rfl

theorem uncompressDest_ctx (hb : iphc1 &&& 0x0f = 0x04 ||| UInt8.ofNat k) (h₃ : k ≤ 3)
    (hcid : iphc1 &&& iphcCid ≠ 0) (hc : addrContextLookupByNumber cfg (ctx &&& 0x0f) = some c) :
    uncompressDest cfg pb iphc1 ctx lladdr s =
      uncompressAddr cfg pb 24 (some c.ctxPrefix) (uncCtxconf.getD k 0) lladdr s := by
  unfold uncompressDest
  dsimp only
  rw [m_eq, dac_eq, dam_eq iphc1, hb, if_pos hcid, hc]
  interval_cases k <;> rfl

theorem uncompressDest_ll (hb : iphc1 &&& 0x0f = UInt8.ofNat k) (h₃ : k ≤ 3) :
    uncompressDest cfg pb iphc1 ctx lladdr s =
      uncompressAddr cfg pb 24 (some llprefix) (uncLlconf.getD k 0) lladdr s := by
  unfold uncompressDest
  dsimp only
  rw [m_eq, dac_eq, dam_eq iphc1, hb]
  interval_cases k <;> rfl

end

theorem uncompressAddr_mcast {b : UInt8} {a : Mem} {k n : Nat} (hk : (uncMxconf.getD k 0 >>> 4).toNat = 2)
    (hn : (uncMxconf.getD k 0 &&& 0x0f).toNat = n) (hn₁ : n = 1 ∨ n = 3 ∨ n = 5) (h₀ : a 0 = 0xff) (h₁ : b = a 1)
    (hmid : ∀ i, 2 ≤ i → i < 16 - n → a i = 0) (hpost : ∀ i, i < n → pb.byte (s.ptr + i) = a (16 - n + i))
    (hd : s.ptr + n ≤ pb.datalen) :
    ∃ buf, uncompressAddr cfg pb 24 (some fun i => [0xff, b].getD i 0) (uncMxconf.getD k 0) lladdr s = .ok ⟨buf, s.ptr + n⟩ ∧
      HasAddr 24 a buf ∧ Outside 24 40 s.buf buf := by
  refine uncompressAddr_inline (m := 2) (n := n) (by rw [hk]; rfl) ?_ (by omega) (by omega) (fun i hi => ?_)
    (fun i hi₁ hi₂ => ?_) hpost hd
  · rw [hn]; unfold nibbleCount; rw [if_neg (by omega)]
  · interval_cases i
    · exact h₀.symm
    · exact h₁
  · rw [if_neg (by omega)]; exact hmid i hi₁ hi₂

theorem uncompressDest_roundTrip (hb : iphc1 &&& 0x0f = (compressDest cfg uip lladdr).1)
    (hcid : ∀ c, addrContextLookupByPrefix cfg (destipaddr uip) = some c →
      isAddrMcast (destipaddr uip) = false → iphc1 &&& iphcCid ≠ 0 ∧ ctx &&& 0x0f = c.number)
    (hw : Mem.Holds s.ptr (compressDest cfg uip lladdr).2.2 pb.byte)
    (hd : s.ptr + (compressDest cfg uip lladdr).2.2.length ≤ pb.datalen) :
    ∃ buf a, uncompressDest cfg pb iphc1 ctx lladdr s = .ok ⟨buf, s.ptr + (compressDest cfg uip lladdr).2.2.length⟩ ∧
      HasAddr 24 a buf ∧ Outside 24 40 s.buf buf ∧
      ((∀ i, i < 16 → a i = destipaddr uip i) ↔ DestRebuilt cfg uip lladdr) := by
  unfold DestRebuilt
  unfold compressDest at hb hw hd ⊢
  cases hmc : isAddrMcast (destipaddr uip) with
  | true =>
    have h₀ : destipaddr uip 0 = 0xff := by simpa only [isAddrMcast, beq_iff_eq] using hmc
    simp only [hmc, if_true] at hb hw hd ⊢
    cases h8 : isMcastAddrCompressable8 (destipaddr uip) with
    | true =>
      simp only [h8, if_true] at hb hw hd ⊢
      simp only [isMcastAddrCompressable8, u16Zero, Bool.and_eq_true, beq_iff_eq] at h8
      rw [uncompressDest_mcast (k := 3) hb (.inr rfl)]
      have hzero : ∀ i, 2 ≤ i → i < 15 → destipaddr uip i = 0 := by
        intro i hi₁ hi₂
        interval_cases i <;> simp [h8]
      obtain ⟨buf, he, ha, ho⟩ := uncompressAddr_mcast (k := 3) (n := 1) rfl rfl (.inl rfl) h₀
        h8.1.1.1.1.1.1.1.symm hzero (fun i hi => by obtain rfl : i = 0 := (by omega); exact hw.1) hd
      exact ⟨buf, _, he, ha, ho, fun _ => nofun, fun _ _ _ => rfl⟩
    | false =>
    simp only [h8, Bool.false_eq_true, if_false] at hb hw hd ⊢
    cases h32 : isMcastAddrCompressable32 (destipaddr uip) with
    | true =>
      simp only [h32, if_true, List.length_cons, Mem.length_read] at hb hw hd ⊢
      simp only [isMcastAddrCompressable32, u16Zero, Bool.and_eq_true, beq_iff_eq] at h32
      rw [uncompressDest_mcastScope (k := 2) hb (.inr rfl) (by omega)]
      have hzero : ∀ i, 2 ≤ i → i < 13 → destipaddr uip i = 0 := by
        intro i hi₁ hi₂
        interval_cases i <;> simp [h32]
      obtain ⟨buf, he, ha, ho⟩ := uncompressAddr_mcast (k := 2) (n := 3) (s := ⟨s.buf, s.ptr + 1⟩) rfl rfl
        (.inr (.inl rfl)) h₀ hw.1 hzero (Mem.holds_read.mp hw.2) (by omega)
      exact ⟨buf, _, he, ha, ho, fun _ => nofun, fun _ _ _ => rfl⟩
    | false =>
    simp only [h32, Bool.false_eq_true, if_false] at hb hw hd ⊢
    cases h48 : isMcastAddrCompressable48 (destipaddr uip) with
    | true =>
      simp only [h48, if_true, List.length_cons, Mem.length_read] at hb hw hd ⊢
      simp only [isMcastAddrCompressable48, u16Zero, Bool.and_eq_true, beq_iff_eq] at h48
      rw [uncompressDest_mcastScope (k := 1) hb (.inl rfl) (by omega)]
      have hzero : ∀ i, 2 ≤ i → i < 11 → destipaddr uip i = 0 := by
        intro i hi₁ hi₂
        interval_cases i <;> simp [h48]
      obtain ⟨buf, he, ha, ho⟩ := uncompressAddr_mcast (k := 1) (n := 5) (s := ⟨s.buf, s.ptr + 1⟩) rfl rfl
        (.inr (.inr rfl)) h₀ hw.1 hzero (Mem.holds_read.mp hw.2) (by omega)
      exact ⟨buf, _, he, ha, ho, fun _ => nofun, fun _ _ _ => rfl⟩
    | false =>
      simp only [h48, Bool.false_eq_true, if_false, Mem.length_read] at hb hw hd ⊢
      rw [uncompressDest_mcast (k := 0) hb (.inl rfl)]
      obtain ⟨buf, he, ha, ho⟩ := uncompressAddr_whole (c := uncMxconf.getD 0 0) rfl rfl (Mem.holds_read.mp hw) hd
      exact ⟨buf, _, he, ha, ho, fun _ => nofun, fun _ _ _ => rfl⟩
  | false =>
    have hk₁ := addr64Mode_pos cfg.kind (destipaddr uip) lladdr
    have hk₃ := addr64Mode_le cfg.kind (destipaddr uip) lladdr
    simp only [hmc, Bool.false_eq_true, if_false] at hb hw hd ⊢
    cases hlook : addrContextLookupByPrefix cfg (destipaddr uip) with
    | some c =>
      obtain ⟨hmem, hused, hpre⟩ := lookupByPrefix_spec hlook
      obtain ⟨hc, hnum⟩ := hcid c hlook hmc
      simp only [hlook, compressAddr64_fst] at hb hw hd ⊢
      rw [uncompressDest_ctx (hb.trans ?_) hk₃ hc (hnum ▸ lookupByNumber_of_mem hmem hused)]
      · obtain ⟨buf, he, ha, ho⟩ := uncompressAddr_64 (.inr ⟨rfl, rfl⟩) hpre hw hd
        refine ⟨buf, _, he, ha, ho, ?_⟩
        rw [rebuilt64_iff le_rfl]
        constructor
        · exact fun h _ => h.2
        · exact fun h => ⟨fun i h₁ h₂ => absurd h₂ (by omega), h trivial⟩
      · generalize addr64Mode cfg.kind (destipaddr uip) lladdr = k at hk₁ hk₃
        interval_cases k <;> rfl
    | none =>
      cases hll : (isAddrLinklocal (destipaddr uip) && u16Zero (destipaddr uip) 1 && u16Zero (destipaddr uip) 2 &&
          u16Zero (destipaddr uip) 3) with
      | true =>
        simp only [hlook, hll, if_true, compressAddr64_fst] at hb hw hd ⊢
        rw [and_u16Zero, Bool.and_eq_true, u16Zero_iff] at hll
        rw [uncompressDest_ll (hb.trans ?_) hk₃]
        · obtain ⟨buf, he, ha, ho⟩ := uncompressAddr_64 (.inl ⟨rfl, rfl⟩) (llprefix_of_linklocal hll.1) hw hd
          refine ⟨buf, _, he, ha, ho, ?_⟩
          rw [rebuilt64_iff (by omega)]
          constructor
          · exact fun h _ _ _ => h.2
          · exact fun h => ⟨hll.2, h trivial hll.1 hll.2⟩
        · generalize addr64Mode cfg.kind (destipaddr uip) lladdr = k at hk₁ hk₃
          interval_cases k <;> rfl
      | false =>
        simp only [hlook, hll, Bool.false_eq_true, if_false, Mem.length_read] at hb hw hd ⊢
        rw [uncompressDest_ll (k := 0) hb (by omega)]
        obtain ⟨buf, he, ha, ho⟩ := uncompressAddr_whole (c := uncLlconf.getD 0 0) rfl rfl (Mem.holds_read.mp hw) hd
        refine ⟨buf, _, he, ha, ho, fun _ _ hlocal hzero => ?_, fun _ _ _ => rfl⟩
        rw [and_u16Zero, hlocal, (u16Zero_iff _).mpr hzero] at hll
        exact absurd hll (by decide)

end

/-!
The two encoding bytes and the context byte: the fields each stage sets stay apart, so that the
decompressor reads back what every stage meant.
-/

section

open Lib

variable {cfg : Config} {mac : Nat} {uip sender receiver : Mem}

/-! ## The encoding bytes -/

theorem compressTf_bits (uip : Mem) : (compressTf uip).1 = 0x18 ∨ (compressTf uip).1 = 0x10 ∨
    (compressTf uip).1 = 0x08 ∨ (compressTf uip).1 = 0 := by
  unfold compressTf
  split_ifs
  · exact .inl (by decide)
  · exact .inr (.inl rfl)
  · exact .inr (.inr (.inl rfl))
  · exact .inr (.inr (.inr rfl))

theorem compressNextHeader_bits (uip : Mem) :
    (compressNextHeader uip).1 = if isCompressableProto (proto uip) then 4 else 0 := by
  unfold compressNextHeader
  split_ifs <;> rfl

theorem compressTtl_bits (uip : Mem) : (compressTtl uip).1 = 0 ∨ (compressTtl uip).1 = 1 ∨
    (compressTtl uip).1 = 2 ∨ (compressTtl uip).1 = 3 := by
  unfold compressTtl
  split_ifs <;> simp

theorem iphc0_bits {t n h : UInt8} (ht : t = 0x18 ∨ t = 0x10 ∨ t = 0x08 ∨ t = 0) (hn : n = 4 ∨ n = 0)
    (hh : h = 0 ∨ h = 1 ∨ h = 2 ∨ h = 3) :
    (dispatchIphc ||| t ||| n ||| h) &&& 0x18 = t ∧ (dispatchIphc ||| t ||| n ||| h) &&& 0x04 = n ∧
      (dispatchIphc ||| t ||| n ||| h) &&& 0x03 = h := by
  rcases ht with rfl | rfl | rfl | rfl <;> rcases hn with rfl | rfl <;> rcases hh with rfl | rfl | rfl | rfl <;> decide

theorem iphc0_dispatch {t n h : UInt8} (ht : t = 0x18 ∨ t = 0x10 ∨ t = 0x08 ∨ t = 0) (hn : n = 4 ∨ n = 0)
    (hh : h = 0 ∨ h = 1 ∨ h = 2 ∨ h = 3) :
    ¬ (dispatchIphc ||| t ||| n ||| h) &&& 0xf0 = 0xf0 ∧ (dispatchIphc ||| t ||| n ||| h) &&& 0xe0 = 0x60 := by
  rcases ht with rfl | rfl | rfl | rfl <;> rcases hn with rfl | rfl <;> rcases hh with rfl | rfl | rfl | rfl <;> decide

/-- Source bits are in the upper half of the second encoding byte, destination bits in the lower. -/
theorem iphc1_bits {c s d : UInt8} (hc : c = 0x80 ∨ c = 0) (hs : s &&& 0x0f = 0) (hd : d &&& 0xf0 = 0) :
    (c ||| s ||| d) &&& 0x70 = s &&& 0x70 ∧ (c ||| s ||| d) &&& 0x0f = d ∧
      ((c ||| s ||| d) &&& 0x80 = 0 ↔ c = 0 ∧ s &&& 0x80 = 0) := by
  have hd' : d &&& 0x0f = d := by
    conv_rhs => rw [← and_or_nibbles d, hd, UInt8.zero_or]
  have hdm : ∀ m : UInt8, (0xf0 : UInt8) &&& m = m → d &&& m = 0 := fun m hm => by
    rw [and_and_of_sub d hm, hd, UInt8.zero_and]
  have hand : ∀ m : UInt8, (c ||| s ||| d) &&& m = (c &&& m) ||| (s &&& m) ||| (d &&& m) := fun m => by
    apply UInt8.toBitVec_inj.mp
    simp [BitVec.and_or_distrib_right]
  refine ⟨?_, ?_, ?_⟩
  · rw [hand, hdm 0x70 (by decide), UInt8.or_zero]
    rcases hc with rfl | rfl
    · rw [show (0x80 : UInt8) &&& 0x70 = 0 by decide, UInt8.zero_or]
    · simp
  · rw [hand, hs, hd', UInt8.or_zero]
    rcases hc with rfl | rfl
    · rw [show (0x80 : UInt8) &&& 0x0f = 0 by decide, UInt8.zero_or]
    · simp
  · rw [hand, hdm 0x80 (by decide)]
    rcases hc with rfl | rfl
    · simp
    · simp

/-! ### Which bits the addresses set -/

theorem compressSrc_shape (cfg : Config) (uip sender : Mem) :
    ((compressSrc cfg uip sender).1 = iphcSac ∧ (compressSrc cfg uip sender).2.1 = 0) ∨
    (∃ k ≤ 3, ∃ c, addrContextLookupByPrefix cfg (srcipaddr uip) = some c ∧
      (compressSrc cfg uip sender).1 = iphcCid ||| iphcSac ||| UInt8.ofNat k <<< iphcSamBit ∧
      (compressSrc cfg uip sender).2.1 = c.number <<< 4) ∨
    ∃ k ≤ 3, (compressSrc cfg uip sender).1 = UInt8.ofNat k <<< iphcSamBit ∧ (compressSrc cfg uip sender).2.1 = 0 := by
  have hk := addr64Mode_le cfg.kind (srcipaddr uip) sender
  unfold compressSrc
  cases hun : isAddrUnspecified (srcipaddr uip) with
  | true =>
    rw [if_pos hun]
    exact .inl ⟨rfl, rfl⟩
  | false =>
    cases hlook : addrContextLookupByPrefix cfg (srcipaddr uip) with
    | some c =>
      simp only [hun, hlook, Bool.false_eq_true, if_false, compressAddr64_fst]
      exact .inr (.inl ⟨_, hk, c, rfl, rfl, rfl⟩)
    | none =>
      simp only [hun, hlook, Bool.false_eq_true, if_false]
      split_ifs
      · exact .inr (.inr ⟨_, hk, compressAddr64_fst .., rfl⟩)
      · exact .inr (.inr ⟨0, by omega, rfl, rfl⟩)

theorem compressDest_shape (cfg : Config) (uip receiver : Mem) :
    (∃ k ≤ 3, (compressDest cfg uip receiver).1 = iphcM ||| UInt8.ofNat k ∧ (compressDest cfg uip receiver).2.1 = 0) ∨
    (∃ k ≤ 3, ∃ c, addrContextLookupByPrefix cfg (destipaddr uip) = some c ∧
      (compressDest cfg uip receiver).1 = iphcDac ||| UInt8.ofNat k <<< iphcDamBit ∧
      (compressDest cfg uip receiver).2.1 = c.number) ∨
    ∃ k ≤ 3, (compressDest cfg uip receiver).1 = UInt8.ofNat k <<< iphcDamBit ∧
      (compressDest cfg uip receiver).2.1 = 0 := by
  have hk := addr64Mode_le cfg.kind (destipaddr uip) receiver
  unfold compressDest
  cases hmc : isAddrMcast (destipaddr uip) with
  | true =>
    simp only [hmc, if_true]
    split_ifs
    · exact .inl ⟨3, by omega, rfl, rfl⟩
    · exact .inl ⟨2, by omega, rfl, rfl⟩
    · exact .inl ⟨1, by omega, rfl, rfl⟩
    · exact .inl ⟨0, by omega, rfl, rfl⟩
  | false =>
    cases hlook : addrContextLookupByPrefix cfg (destipaddr uip) with
    | some c =>
      simp only [hmc, hlook, Bool.false_eq_true, if_false, compressAddr64_fst]
      exact .inr (.inl ⟨_, hk, c, rfl, rfl, rfl⟩)
    | none =>
      simp only [hmc, hlook, Bool.false_eq_true, if_false]
      split_ifs
      · exact .inr (.inr ⟨_, hk, compressAddr64_fst .., rfl⟩)
      · exact .inr (.inr ⟨0, by omega, rfl, rfl⟩)

theorem compressSrc_low (cfg : Config) (uip sender : Mem) : (compressSrc cfg uip sender).1 &&& 0x0f = 0 := by
  obtain ⟨h, -⟩ | ⟨k, hk, c, -, h, -⟩ | ⟨k, hk, h, -⟩ := compressSrc_shape cfg uip sender <;> rw [h]
  · decide
  · interval_cases k <;> decide
  · interval_cases k <;> decide

theorem compressSrc_cid (h : addrContextLookupByPrefix cfg (srcipaddr uip) = none) :
    (compressSrc cfg uip sender).1 &&& 0x80 = 0 := by
  obtain ⟨h', -⟩ | ⟨k, hk, c, hc, -, -⟩ | ⟨k, hk, h', -⟩ := compressSrc_shape cfg uip sender
  · rw [h']; decide
  · rw [h] at hc; cases hc
  · rw [h']; interval_cases k <;> decide

theorem compressDest_high (cfg : Config) (uip receiver : Mem) : (compressDest cfg uip receiver).1 &&& 0xf0 = 0 := by
  obtain ⟨k, hk, h, -⟩ | ⟨k, hk, c, -, h, -⟩ | ⟨k, hk, h, -⟩ := compressDest_shape cfg uip receiver <;> rw [h] <;>
    interval_cases k <;> decide

/-! ### The context byte -/

theorem ctxByte {a b : UInt8} (ha : a < 16) (hb : b < 16) :
    ((a <<< 4) ||| b) >>> 4 = a ∧ ((a <<< 4) ||| b) &&& 0x0f = b := by
  have h : ∀ a b : Fin 16, ((UInt8.ofNat a <<< 4) ||| UInt8.ofNat b) >>> 4 = UInt8.ofNat a ∧
      ((UInt8.ofNat a <<< 4) ||| UInt8.ofNat b) &&& 0x0f = UInt8.ofNat b := by decide +kernel
  have := h ⟨a.toNat, ha⟩ ⟨b.toNat, hb⟩
  simpa using this

theorem compressSrc_ctx {c : AddrContext} (h : addrContextLookupByPrefix cfg (srcipaddr uip) = some c)
    (hu : isAddrUnspecified (srcipaddr uip) = false) : (compressSrc cfg uip sender).2.1 = c.number <<< 4 := by
  unfold compressSrc
  simp [hu, h]

theorem compressSrc_ctx_high (cfg : Config) (uip sender : Mem) :
    ∃ n : UInt8, n < 16 ∧ (compressSrc cfg uip sender).2.1 = n <<< 4 := by
  obtain ⟨-, h⟩ | ⟨k, -, c, hc, -, h⟩ | ⟨k, -, -, h⟩ := compressSrc_shape cfg uip sender
  · exact ⟨0, by decide, h⟩
  · exact ⟨c.number, cfg.number_lt c (lookupByPrefix_spec hc).1, h⟩
  · exact ⟨0, by decide, h⟩

theorem compressDest_ctx {c : AddrContext} (h : addrContextLookupByPrefix cfg (destipaddr uip) = some c)
    (hm : isAddrMcast (destipaddr uip) = false) : (compressDest cfg uip receiver).2.1 = c.number := by
  unfold compressDest
  simp [hm, h]

theorem compressDest_ctx_lt (cfg : Config) (uip receiver : Mem) : (compressDest cfg uip receiver).2.1 < 16 := by
  obtain ⟨k, -, -, h⟩ | ⟨k, -, c, hc, -, h⟩ | ⟨k, -, -, h⟩ := compressDest_shape cfg uip receiver <;> rw [h]
  · decide
  · exact cfg.number_lt c (lookupByPrefix_spec hc).1
  · decide

end

end Contiki.Sicslowpan
