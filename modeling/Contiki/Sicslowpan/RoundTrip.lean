/-
Compression and decompression together: for which packets the receiver rebuilds the header that was
compressed.
-/
import Contiki.Sicslowpan.Encoding
import Contiki.Sicslowpan.Chain

namespace Contiki.Sicslowpan

open Lib

variable {cfg : Config} {mac n e bufSize ipLen base base' : Nat} {uip sender receiver buf : Mem} {es : List UInt8}
  {udp : Bool} {out : List UInt8} {pb : Packetbuf}

/-- A packet of `n` bytes with the headers `es`, `udp` up to `e`, whose length fields agree with its
length. -/
structure WellFormed (uip : Mem) (n : Nat) (es : List UInt8) (udp : Bool) (e : Nat) : Prop where
  version : vtc uip &&& 0xf0 = 0x60
  headers : Headers uip (proto uip) 40 es udp e
  fits : e ≤ n
  short : n ≤ 65535
  len : port uip 4 + 40 = n
  udpLen : udp = true → port uip (e - 4) + (e - 8) = n

theorem compressHdrIphc_some (h : compressHdrIphc cfg mac uip sender receiver base = some out) :
    ∃ (hasCtx : Bool) (rest : List UInt8) (ptr : Nat),
      (hasCtx = false → addrContextLookupByPrefix cfg (srcipaddr uip) = none ∧
        addrContextLookupByPrefix cfg (destipaddr uip) = none) ∧
      (∀ c, addrContextLookupByPrefix cfg (srcipaddr uip) = some c → hasCtx = true) ∧
      (∀ c, addrContextLookupByPrefix cfg (destipaddr uip) = some c → hasCtx = true) ∧
      compressNhc mac uip mac (proto uip) 0 ptr = some rest ∧
      out = (dispatchIphc ||| (compressTf uip).1 ||| (compressNextHeader uip).1 ||| (compressTtl uip).1) ::
        ((if hasCtx then 0x80 else 0) ||| (compressSrc cfg uip sender).1 ||| (compressDest cfg uip receiver).1) ::
        ((if hasCtx then [(compressSrc cfg uip sender).2.1 ||| (compressDest cfg uip receiver).2.1] else []) ++
          ((compressTf uip).2 ++ ((compressNextHeader uip).2 ++ ((compressTtl uip).2 ++
          ((compressSrc cfg uip sender).2.2 ++ ((compressDest cfg uip receiver).2.2 ++ rest)))))) := by
  unfold compressHdrIphc at h
  split_ifs at h
  obtain ⟨rest, hrest, rfl⟩ := Option.map_eq_some_iff.mp h
  refine ⟨(addrContextLookupByPrefix cfg (srcipaddr uip)).isSome || (addrContextLookupByPrefix cfg (destipaddr uip)).isSome,
    rest, _, ?_, fun c hc => by rw [hc]; rfl, fun c hc => by rw [hc]; simp, hrest, ?_⟩
  · simp
  · simp only [List.cons_append, List.append_assoc]
    rfl

/-- The decompressor behind the fixed header: what it has rebuilt and where it stands. -/
structure FixedDone (cfg : Config) (uip sender receiver : Mem) (pb : Packetbuf) (s : Nhc) (src dst : Mem) : Prop where
  tf : ∀ x, x < 4 → s.buf x = uip x
  next : isCompressableProto (proto uip) = false → s.buf 6 = uip 6
  hops : s.buf 7 = uip 7
  srcAddr : HasAddr 8 src s.buf
  dstAddr : HasAddr 24 dst s.buf
  srcOk : (∀ i, i < 16 → src i = srcipaddr uip i) ↔ SrcRebuilt cfg uip sender
  dstOk : (∀ i, i < 16 → dst i = destipaddr uip i) ↔ DestRebuilt cfg uip receiver
  pending : s.lastNextheader = 6

theorem uncompressHdr_fixed (hv : vtc uip &&& 0xf0 = 0x60)
    (hc : compressHdrIphc cfg mac uip sender receiver base = some out) (hw : Mem.Holds base' out pb.byte)
    (hd : base' + out.length < pb.datalen) :
    ∃ s src dst rest ptr, uncompressHdrIphc cfg pb sender receiver base' 0 buf bufSize ipLen =
        (uncompressExt pb bufSize (pb.datalen + 1) s >>= uncompressTail pb bufSize ipLen) ∧
      compressNhc mac uip mac (proto uip) 0 ptr = some rest ∧ AtHeader pb s (proto uip) 40 rest ∧
      s.ptr + rest.length = base' + out.length ∧ FixedDone cfg uip sender receiver pb s src dst := by
  obtain ⟨hasCtx, rest, ptr, hnone, hsrcCtx, hdstCtx, hrest, rfl⟩ := compressHdrIphc_some hc
  simp only [Mem.holds_cons, Mem.holds_append] at hw
  obtain ⟨h₀, h₁, hwc, hwt, hwn, hwh, hws, hwd, hwr⟩ := hw
  simp only [List.length_cons, List.length_append] at hd
  obtain ⟨b₁, b₂, b₃⟩ := iphc0_bits (compressTf_bits uip)
    (show (compressNextHeader uip).1 = 4 ∨ (compressNextHeader uip).1 = 0 by
      rw [compressNextHeader_bits]; split_ifs <;> simp) (compressTtl_bits uip)
  obtain ⟨c₁, c₂, c₃⟩ := iphc1_bits (c := if hasCtx then 0x80 else 0) (by cases hasCtx <;> simp)
    (compressSrc_low cfg uip sender) (compressDest_high cfg uip receiver)
  rw [← h₀] at b₁ b₂ b₃
  rw [← h₁] at c₁ c₂ c₃
  have hcid : hasCtx = true → pb.byte (base' + 1) &&& iphcCid ≠ 0 := by
    rintro rfl heq
    exact absurd (c₃.mp heq).1 (by decide)
  have hbyte : hasCtx = true →
      pb.byte (base' + 2) = (compressSrc cfg uip sender).2.1 ||| (compressDest cfg uip receiver).2.1 := by
    rintro rfl
    exact hwc.1
  have hptr : (if pb.byte (base' + 1) &&& iphcCid ≠ 0 then base' + 3 else base' + 2) =
      base' + 1 + 1 + (if hasCtx = true then
        [(compressSrc cfg uip sender).2.1 ||| (compressDest cfg uip receiver).2.1] else []).length := by
    cases hasCtx with
    | true => rw [if_pos (hcid rfl)]; rfl
    | false =>
      have hoff : pb.byte (base' + 1) &&& iphcCid = 0 := c₃.mpr ⟨rfl, compressSrc_cid (hnone rfl).1⟩
      rw [if_neg (not_not.mpr hoff)]; rfl
  have hcidSrc : ∀ c, addrContextLookupByPrefix cfg (srcipaddr uip) = some c →
      isAddrUnspecified (srcipaddr uip) = false →
      pb.byte (base' + 1) &&& iphcCid ≠ 0 ∧ pb.byte (base' + 2) >>> 4 = c.number := by
    intro c hlook hun
    refine ⟨hcid (hsrcCtx c hlook), ?_⟩
    rw [hbyte (hsrcCtx c hlook), compressSrc_ctx hlook hun]
    exact (ctxByte (cfg.number_lt c (lookupByPrefix_spec hlook).1) (compressDest_ctx_lt ..)).1
  have hcidDst : ∀ c, addrContextLookupByPrefix cfg (destipaddr uip) = some c →
      isAddrMcast (destipaddr uip) = false →
      pb.byte (base' + 1) &&& iphcCid ≠ 0 ∧ pb.byte (base' + 2) &&& 0x0f = c.number := by
    intro c hlook hmc
    obtain ⟨m, hm, hsrc⟩ := compressSrc_ctx_high cfg uip sender
    refine ⟨hcid (hdstCtx c hlook), ?_⟩
    rw [hbyte (hdstCtx c hlook), hsrc, compressDest_ctx hlook hmc]
    exact (ctxByte hm (cfg.number_lt c (lookupByPrefix_spec hlook).1)).2
  generalize hcl : (if hasCtx = true then
    [(compressSrc cfg uip sender).2.1 ||| (compressDest cfg uip receiver).2.1] else []).length = cl at *
  -- field after field, each behind the one before
  obtain ⟨buf₁, e₁, tf₁, o₁⟩ := uncompressTf_roundTrip (s := ⟨buf, base' + 1 + 1 + cl⟩) hv b₁ hwt (by dsimp only; omega)
  obtain ⟨buf₂, e₂, nh₂, o₂⟩ := uncompressNextHeader_roundTrip (s := ⟨buf₁, _⟩) b₂ hwn (by dsimp only; omega)
  obtain ⟨buf₃, e₃, hl₃, o₃⟩ := uncompressTtl_roundTrip (s := ⟨buf₂, _⟩) b₃ hwh (by dsimp only; omega)
  obtain ⟨buf₄, src, e₄, ha₄, o₄, hsrcOk⟩ := uncompressSrc_roundTrip (s := ⟨buf₃, _⟩) c₁ hcidSrc hws (by dsimp only; omega)
  obtain ⟨buf₅, dst, e₅, ha₅, o₅, hdstOk⟩ := uncompressDest_roundTrip (s := ⟨buf₄, _⟩) c₂ hcidDst hwd (by dsimp only; omega)
  dsimp only at o₁ o₂ o₃ o₄ o₅
  refine ⟨⟨⟨buf₅, base' + 1 + 1 + cl + (compressTf uip).2.length + (compressNextHeader uip).2.length +
    (compressTtl uip).2.length + (compressSrc cfg uip sender).2.2.length + (compressDest cfg uip receiver).2.2.length⟩,
    pb.byte base' &&& iphcNhC ≠ 0, 6, 40, 0, (0 + 40) % 256⟩, src, dst, rest, ptr, ?_, hrest, ?_, ?_, ?_⟩
  · unfold uncompressHdrIphc
    rw [if_neg (by omega)]
    dsimp only
    rw [hptr, e₁, Except.ok_bind', e₂, Except.ok_bind', e₃, Except.ok_bind', e₄, Except.ok_bind', e₅, Except.ok_bind']
    unfold uncompressNhc
    rw [checkReadSpace_ok (by dsimp only; omega), Except.ok_bind']
  · refine ⟨?_, rfl, le_rfl, ⟨by dsimp only; omega, by dsimp only; omega, by dsimp only; omega⟩, rfl, rfl, hwr, ?_⟩
    · dsimp only
      rw [show pb.byte base' &&& iphcNhC = (compressNextHeader uip).1 from b₂, compressNextHeader_bits]
      cases isCompressableProto (proto uip) <;> decide
    · dsimp only; omega
  · dsimp only
    simp only [List.length_cons, List.length_append, hcl]
    omega
  · refine ⟨fun x hx => ?_, fun hc => ?_, ?_, fun i hi => ?_, ha₅, hsrcOk, hdstOk, rfl⟩
    · dsimp only
      rw [o₅ x (by omega), o₄ x (by omega), o₃ x (by omega), o₂ x (by omega), tf₁ x hx]
    · dsimp only
      rw [o₅ 6 (by omega), o₄ 6 (by omega), o₃ 6 (by omega), nh₂ hc]
    · dsimp only
      rw [o₅ 7 (by omega), o₄ 7 (by omega), hl₃]
    · dsimp only
      rw [o₅ (8 + i) (by omega), ha₄ i hi]

/-! ## The equivalence -/

theorem Headers.length_le {p : UInt8} {pos e fuel ext ptr : Nat} (h : Headers uip p pos es udp e)
    (hpos : 40 + ext = pos) (hc : compressNhc mac uip fuel p ext ptr = some out) : es.length ≤ out.length := by
  induction h generalizing fuel ext ptr out with
  | other _ => exact Nat.zero_le _
  | udp => exact Nat.zero_le _
  | @ext p pos e es udp hid _ ih =>
    obtain ⟨id, hid'⟩ := Option.ne_none_iff_exists'.mp hid
    obtain ⟨fuel, rfl⟩ : ∃ k, fuel = k + 1 := by
      cases fuel with
      | zero => cases hc
      | succ k => exact ⟨k, rfl⟩
    obtain ⟨rest, ptr', hrc, rfl⟩ := compressNhc_ext hid' hpos hc
    have := ih (show 40 + (ext + extLen uip pos) = pos + extLen uip pos by omega) hrc
    simp only [List.length_cons, List.length_append]
    omega

theorem putPort_eq_iff {a b : Nat} {v : Int} {m : Mem} :
    (putPort a v m a = uip b ∧ putPort a v m (a + 1) = uip (b + 1)) ↔ v % 65536 = port uip b := by
  have h₀ := (uip b).toNat_lt
  have h₁ := (uip (b + 1)).toNat_lt
  have hb : ∀ (w : Int) (x : UInt8), UInt8.ofInt w = x ↔ w % 256 = x.toNat := by
    intro w x
    rw [← UInt8.toNat_inj]
    unfold UInt8.ofInt
    simp
    omega
  unfold putPort
  rw [Mem.put_of_ne (by omega), Mem.put_same, Mem.put_same, hb, hb]
  unfold port
  push_cast
  omega

/-- When the header of a packet comes back at a receiver whose frame has its payload at `off`. -/
structure ComesBack (cfg : Config) (uip sender receiver : Mem) (es : List UInt8) (udp : Bool) (e bufSize ipLen off : Nat) :
    Prop where
  src : SrcRebuilt cfg uip sender
  dst : DestRebuilt cfg uip receiver
  exts : ∀ l ∈ es, l.toNat ≤ 31
  room : isCompressableProto (proto uip) = true → e ≤ bufSize
  -- the eight-bit counters lose the same multiple of 256, or nothing where only one of them counts
  counters : if ipLen = 0 then off / 256 = e / 256 else udp = true → e - 48 < 256

/-- The lengths written agree with those of the packet exactly if the counters are right. -/
theorem lengths_iff {p q : Nat} (hp : WellFormed uip n es udp e) (hd : pb.datalen = q + p) (h16 : pb.datalen ≤ 65535)
    (hlen : ipLen = 0 ∧ n = e + p ∨ ipLen = n) (hudp : udp = true → 48 ≤ e) :
    (ipLenField pb ipLen q e % 65536 = port uip 4 ∧
      (udp = true → udpLenField pb ipLen ((e - 48) % 256) q % 65536 = port uip (e - 4))) ↔
    if ipLen = 0 then q / 256 = e / 256 else udp = true → e - 48 < 256 := by
  have hfit := hp.fits
  have hshort := hp.short
  have hl := hp.len
  unfold ipLenField udpLenField
  obtain ⟨rfl, hn⟩ | rfl := hlen
  · simp only [if_true]
    constructor
    · rintro ⟨h, -⟩
      omega
    · intro h
      refine ⟨by omega, fun hu => ?_⟩
      have h₂ := hp.udpLen hu
      have h₃ := hudp hu
      omega
  · rw [if_neg (by omega), if_neg (by omega), if_neg (by omega)]
    constructor
    · rintro ⟨-, h⟩ hu
      have h₁ := h hu
      have h₂ := hp.udpLen hu
      have h₃ := hudp hu
      omega
    · intro h
      refine ⟨by omega, fun hu => ?_⟩
      have h₁ := h hu
      have h₂ := hp.udpLen hu
      have h₃ := hudp hu
      omega

theorem Headers.udp_le {p : UInt8} {pos : Nat} (h : Headers uip p pos es udp e) : udp = true → pos + 8 ≤ e := by
  induction h with
  | other _ => exact nofun
  | udp => exact fun _ => le_rfl
  | ext _ _ ih => intro hu; have := ih hu; omega

/-- The receiver rebuilds exactly the header that was compressed if and only if the packet, the
addresses and the sizes meet `ComesBack`. -/
theorem roundTrip_iff {p : Nat} (hp : WellFormed uip n es udp e)
    (hc : compressHdrIphc cfg mac uip sender receiver base = some out) (hw : Mem.Holds base' out pb.byte)
    (hd : pb.datalen = base' + out.length + p) (hp₁ : 1 ≤ p) (h16 : pb.datalen ≤ 65535)
    (hlen : ipLen = 0 ∧ n = e + p ∨ ipLen = n) :
    (∃ r, uncompressHdrIphc cfg pb sender receiver base' 0 buf bufSize ipLen = .ok r ∧ ∀ x, x < e → r.buf x = uip x) ↔
      ComesBack cfg uip sender receiver es udp e bufSize ipLen (pb.datalen - p) := by
  obtain ⟨s, src, dst, rest, ptr, hrun, hrest, hat, hptr, hfix⟩ :
      ∃ s src dst rest ptr, uncompressHdrIphc cfg pb sender receiver base' 0 buf bufSize ipLen =
        (uncompressExt pb bufSize (pb.datalen + 1) s >>= uncompressTail pb bufSize ipLen) ∧
      compressNhc mac uip mac (proto uip) 0 ptr = some rest ∧ AtHeader pb s (proto uip) 40 rest ∧
      s.ptr + rest.length = base' + out.length ∧ FixedDone cfg uip sender receiver pb s src dst :=
    uncompressHdr_fixed hp.version hc hw (by omega)
  have hfuel : es.length < pb.datalen + 1 := by
    have := hp.headers.length_le rfl hrest
    omega
  have h40 := hp.headers.le
  have hudp : udp = true → 48 ≤ e := hp.headers.udp_le
  rw [hrun, show pb.datalen - p = s.ptr + rest.length by omega]
  by_cases hgood : (∀ l ∈ es, l.toNat ≤ 31) ∧ (isCompressableProto (proto uip) = true → e ≤ bufSize)
  · obtain ⟨r, hr, hreb⟩ : ∃ r, (uncompressExt pb bufSize (pb.datalen + 1) s >>= uncompressTail pb bufSize ipLen) = .ok r ∧
        Rebuilt uip pb ipLen 40 e (s.ptr + rest.length) s.lastNextheader (proto uip) udp r :=
      chain_rebuilt hp.headers hrest rfl hat hfuel hgood.1 hgood.2
    have hframe : ∀ x, x < 40 → x ≠ 6 → x ≠ 4 → x ≠ 5 → r.buf x = s.buf x := fun x hx h₆ =>
      chain_frame hr (by rw [hfix.pending, hat.payload]; omega) x (by rw [hat.payload]; exact hx)
        (by rw [hfix.pending]; exact h₆)
    have hlens := lengths_iff hp (show pb.datalen = s.ptr + rest.length + p by omega) h16 hlen hudp
    obtain ⟨m, hbuf⟩ := hreb.len
    have hfield : (r.buf 4 = uip 4 ∧ r.buf 5 = uip 5) ↔
        ipLenField pb ipLen (s.ptr + rest.length) e % 65536 = port uip 4 := by
      rw [hbuf]
      exact putPort_eq_iff
    have hufield : udp = true → ((r.buf (e - 4) = uip (e - 4) ∧ r.buf (e - 4 + 1) = uip (e - 4 + 1)) ↔
        udpLenField pb ipLen ((e - 48) % 256) (s.ptr + rest.length) % 65536 = port uip (e - 4)) := by
      intro hu
      have h48 := hudp hu
      have hfar : ∀ x, e - 4 ≤ x → r.buf x =
          putPort (e - 4) (udpLenField pb ipLen ((e - 48) % 256) (s.ptr + rest.length)) m x := fun x hx => by
        rw [hbuf, if_pos hu, putPort_of_ne (by omega) (by omega)]
      rw [hfar _ le_rfl, hfar _ (by omega)]
      exact putPort_eq_iff
    constructor
    · rintro ⟨r', hr', hall⟩
      obtain rfl : r = r' := by rw [hr] at hr'; cases hr'; rfl
      refine ⟨hfix.srcOk.mp fun i hi => ?_, hfix.dstOk.mp fun i hi => ?_, hgood.1, hgood.2, hlens.mp ⟨?_, fun hu => ?_⟩⟩
      · rw [← hfix.srcAddr i hi, ← hframe (8 + i) (by omega) (by omega) (by omega) (by omega)]
        exact hall _ (by omega)
      · rw [← hfix.dstAddr i hi, ← hframe (24 + i) (by omega) (by omega) (by omega) (by omega)]
        exact hall _ (by omega)
      · exact hfield.mp ⟨hall 4 (by omega), hall 5 (by omega)⟩
      · have := hudp hu
        exact (hufield hu).mp ⟨hall _ (by omega), hall _ (by omega)⟩
    · intro h
      obtain ⟨hl, hul⟩ := hlens.mpr h.counters
      obtain ⟨h₄, h₅⟩ := hfield.mpr hl
      refine ⟨r, hr, fun x hx => ?_⟩
      by_cases hbehind : 40 ≤ x
      · by_cases hin : udp = true ∧ e - 4 ≤ x ∧ x < e - 2
        · obtain ⟨hu, hx₁, hx₂⟩ := hin
          obtain ⟨h₀, h₁⟩ := (hufield hu).mpr (hul hu)
          obtain rfl | rfl : x = e - 4 ∨ x = e - 4 + 1 := by omega
          · exact h₀
          · exact h₁
        · exact hreb.body x hbehind hx fun hu => by
            by_contra hcon
            exact hin ⟨hu, by omega, by omega⟩
      obtain rfl | rfl | hne : x = 4 ∨ x = 5 ∨ (x ≠ 4 ∧ x ≠ 5) := by omega
      · exact h₄
      · exact h₅
      obtain rfl | h₆ := eq_or_ne x 6
      · cases hcomp : isCompressableProto (proto uip) with
        | true =>
          have hnext := hreb.next hcomp
          rwa [hfix.pending] at hnext
        | false => rw [chain_frame_plain (by omega) (hat.nhc.trans hcomp) hr (by omega) (by omega), hfix.next hcomp]
      rw [hframe x (by omega) h₆ hne.1 hne.2]
      obtain hx₄ | rfl | hx₈ | hx₂₄ : x < 4 ∨ x = 7 ∨ (8 ≤ x ∧ x < 24) ∨ 24 ≤ x := by omega
      · exact hfix.tf x hx₄
      · exact hfix.hops
      · have hs := (hfix.srcAddr (x - 8) (by omega)).trans (hfix.srcOk.mpr h.src (x - 8) (by omega))
        unfold srcipaddr at hs
        rwa [show 8 + (x - 8) = x by omega] at hs
      · have hs := (hfix.dstAddr (x - 24) (by omega)).trans (hfix.dstOk.mpr h.dst (x - 24) (by omega))
        unfold destipaddr at hs
        rwa [show 24 + (x - 24) = x by omega] at hs
  · constructor
    · rintro ⟨r, hr, hall⟩
      obtain ⟨x, -, hx, hne⟩ := chain_lost hp.headers hrest rfl hat hfuel hgood hr
      exact absurd (hall x hx) hne
    · exact fun h => absurd ⟨h.exts, h.room⟩ hgood

/-- A header that comes back is decompressed to itself, and both lengths are counted in eight bits. -/
theorem ComesBack.uncompressed {p : Nat} (hp : WellFormed uip n es udp e)
    (hc : compressHdrIphc cfg mac uip sender receiver base = some out) (hw : Mem.Holds base' out pb.byte)
    (hd : pb.datalen = base' + out.length + p) (hp₁ : 1 ≤ p) (h16 : pb.datalen ≤ 65535)
    (hlen : ipLen = 0 ∧ n = e + p ∨ ipLen = n)
    (h : ComesBack cfg uip sender receiver es udp e bufSize ipLen (base' + out.length)) :
    ∃ r, uncompressHdrIphc cfg pb sender receiver base' 0 buf bufSize ipLen = .ok r ∧
      r.packetbufHdrLen = (base' + out.length) % 256 ∧ r.uncompHdrLen = e % 256 ∧ ∀ x, x < e → r.buf x = uip x := by
  obtain ⟨s, src, dst, rest, ptr, hrun, hrest, hat, hptr, hfix⟩ :
      ∃ s src dst rest ptr, uncompressHdrIphc cfg pb sender receiver base' 0 buf bufSize ipLen =
        (uncompressExt pb bufSize (pb.datalen + 1) s >>= uncompressTail pb bufSize ipLen) ∧
      compressNhc mac uip mac (proto uip) 0 ptr = some rest ∧ AtHeader pb s (proto uip) 40 rest ∧
      s.ptr + rest.length = base' + out.length ∧ FixedDone cfg uip sender receiver pb s src dst :=
    uncompressHdr_fixed hp.version hc hw (by omega)
  have hfuel : es.length < pb.datalen + 1 := by
    have := hp.headers.length_le rfl hrest
    omega
  obtain ⟨r, hr, hreb⟩ : ∃ r, (uncompressExt pb bufSize (pb.datalen + 1) s >>= uncompressTail pb bufSize ipLen) = .ok r ∧
      Rebuilt uip pb ipLen 40 e (s.ptr + rest.length) s.lastNextheader (proto uip) udp r :=
    chain_rebuilt hp.headers hrest rfl hat hfuel h.exts h.room
  obtain ⟨hl, hul⟩ := (lengths_iff hp (by omega) h16 hlen hp.headers.udp_le).2 h.counters
  rw [← hptr] at hl hul
  obtain ⟨m, hbuf⟩ := hreb.len
  have h40 := hp.headers.le
  refine ⟨r, hrun.trans hr, by rw [hreb.hdrLen, hptr], hreb.uncomp, fun x hx => ?_⟩
  -- behind the fixed header all but the UDP length is copied
  by_cases hbehind : 40 ≤ x
  · by_cases hin : udp = true ∧ e - 4 ≤ x ∧ x < e - 2
    · obtain ⟨hu, hx₁, hx₂⟩ := hin
      have h48 := hp.headers.udp_le hu
      rw [hbuf, if_pos hu, putPort_of_ne (by omega) (by omega)]
      obtain ⟨h₀, h₁⟩ := putPort_eq_iff.2 (hul hu)
      obtain rfl | rfl : x = e - 4 ∨ x = e - 4 + 1 := by omega
      · exact h₀
      · exact h₁
    · refine hreb.body x hbehind hx fun hu => ?_
      by_contra hcon
      exact hin ⟨hu, by omega, by omega⟩
  obtain ⟨h₄, h₅⟩ := putPort_eq_iff.2 hl
  obtain rfl | rfl | hne : x = 4 ∨ x = 5 ∨ (x ≠ 4 ∧ x ≠ 5) := by omega
  · rw [hbuf, h₄]
  · rw [hbuf, h₅]
  obtain rfl | h₆ := eq_or_ne x 6
  · cases hcomp : isCompressableProto (proto uip) with
    | true =>
      have hnext := hreb.next hcomp
      rwa [hfix.pending] at hnext
    | false => rw [chain_frame_plain (by omega) (hat.nhc.trans hcomp) hr (by omega) (by omega), hfix.next hcomp]
  rw [chain_frame hr (by rw [hfix.pending, hat.payload]; omega) x (by rw [hat.payload]; omega)
    (by rw [hfix.pending]; exact h₆) hne.1 hne.2]
  obtain hx₄ | rfl | hx₈ | hx₂₄ : x < 4 ∨ x = 7 ∨ (8 ≤ x ∧ x < 24) ∨ 24 ≤ x := by omega
  · exact hfix.tf x hx₄
  · exact hfix.hops
  · have hs := (hfix.srcAddr (x - 8) (by omega)).trans (hfix.srcOk.mpr h.src (x - 8) (by omega))
    unfold srcipaddr at hs
    rwa [show 8 + (x - 8) = x by omega] at hs
  · have hs := (hfix.dstAddr (x - 24) (by omega)).trans (hfix.dstOk.mpr h.dst (x - 24) (by omega))
    unfold destipaddr at hs
    rwa [show 24 + (x - 24) = x by omega] at hs

/-! ## A link-local source outside `fe80::/64` -/

/-- An ICMPv6 packet of 43 bytes from `fe80:0:0:1::5` to `ff02::1a`. -/
def strayPacket : Mem := fun i =>
  [0x60, 0, 0, 0, 0, 3, 58, 64, 0xfe, 0x80, 0, 0, 0, 0, 0, 1, 0, 0, 0, 0, 0, 0, 0, 5,
    0xff, 0x02, 0, 0, 0, 0, 0, 0, 0, 0, 0, 0, 0, 0, 0, 0x1a, 155, 0, 7].getD i 0

def strayFrame : Packetbuf :=
  ⟨fun i => [0x7a, 0x1b, 58, 0, 0, 0, 0, 0, 0, 0, 5, 0x1a, 155, 0, 7].getD i 0, 15⟩

theorem strayPacket_wellFormed : WellFormed strayPacket 43 [] false 40 where
  version := by decide
  headers := .other (by decide)
  fits := by omega
  short := by omega
  len := by decide
  udpLen := nofun

theorem strayPacket_compressed : compressHdrIphc plainConfig 127 strayPacket (fun _ => 0) (fun _ => 0) 0 =
    some [0x7a, 0x1b, 58, 0, 0, 0, 0, 0, 0, 0, 5, 0x1a] := rfl

theorem strayFrame_holds : Mem.Holds 0 [0x7a, 0x1b, 58, 0, 0, 0, 0, 0, 0, 0, 5, 0x1a] strayFrame.byte := by
  simp [strayFrame]

/-- The packet is well formed and compressed, its frame is decompressed without an error, and byte 15,
the end of the source prefix, comes back as 0 instead of 1. -/
theorem strayPrefix_lost : WellFormed strayPacket 43 [] false 40 ∧
    compressHdrIphc plainConfig 127 strayPacket (fun _ => 0) (fun _ => 0) 0 =
      some [0x7a, 0x1b, 58, 0, 0, 0, 0, 0, 0, 0, 5, 0x1a] ∧
    Mem.Holds 0 [0x7a, 0x1b, 58, 0, 0, 0, 0, 0, 0, 0, 5, 0x1a] strayFrame.byte ∧
    (uncompressHdrIphc plainConfig strayFrame (fun _ => 0) (fun _ => 0) 0 0 (fun _ => 0) 1280 0).toOption.map
      (fun r => r.buf 15) = some 0 ∧ strayPacket 15 = 1 :=
  ⟨strayPacket_wellFormed, strayPacket_compressed, strayFrame_holds, rfl, by decide⟩

theorem roundTrip_iff_stray :
    (∃ r, uncompressHdrIphc plainConfig strayFrame (fun _ => 0) (fun _ => 0) 0 0 (fun _ => 0) 1280 0 = .ok r ∧
      ∀ x, x < 40 → r.buf x = strayPacket x) ↔
    ComesBack plainConfig strayPacket (fun _ => 0) (fun _ => 0) [] false 40 1280 0 (15 - 3) :=
  roundTrip_iff strayPacket_wellFormed strayPacket_compressed strayFrame_holds rfl (by omega)
    (by decide) (.inl ⟨rfl, rfl⟩)

end Contiki.Sicslowpan
