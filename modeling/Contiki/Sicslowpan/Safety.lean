/-
The accesses of the decompressor are within the packet and the buffer, and what it returns true for was rebuilt as a
whole, exactly when each part that it comes to fits: the fields of the IPv6 header into the buffer, a context byte that
is used into the packet; and at the end no destination, next header, checksum or byte of an extension header is missing
and the lengths are less than 256.
-/
import Contiki.Sicslowpan.NextHeaders

namespace Contiki.Sicslowpan.Traced

open Lib

variable {c : Call} {d d' : Decoder} {s s' : Trace} {a e full len : Nat} {W : Nat → Prop} {F G : Prop}

/-! ## What is to hold -/

/-- Reads are within the packet, and writes within the buffer. -/
structure Ok (c : Call) (s : Trace) : Prop where
  reads : Inside c s
  writes : ∀ x ∈ s.writes, x < c.bufSize

/-- The header is complete: all of it is written, the next header fields are set, and the lengths are the true ones. -/
structure Rebuilt (c : Call) (r : Result) : Prop where
  whole : ∀ x < r.decoder.announced, x ∈ r.decoder.writes
  next : r.nextKnown = true
  fits : r.decoder.announced ≤ c.bufSize
  uncompHdrLen : r.decoder.uncompHdrLen = r.decoder.announced
  packetbufHdrLen : r.packetbufHdrLen = r.decoder.ptr
  packet : r.decoder.ptr ≤ c.pb.datalen

/-- The accesses are as they should be, and true is returned only for a header that is complete. -/
def Safe (c : Call) (r : Result) : Prop := Ok c r.decoder.toTrace ∧ (r.ret = true → Rebuilt c r)

/-- The tail is not refused: a UDP header that is announced is in the packet and fits into the buffer. -/
def Accepted (c : Call) (d : Decoder) : Prop := IsUdp c d → UdpFits c d

/-- Nothing is missing at the tail: the destination was rebuilt, the next header is known, the checksum of a UDP header is
there, the extension headers have all their bytes, and neither length reaches 256. -/
structure Whole (c : Call) (d : Decoder) : Prop where
  destination : ¬ ContextMulticast c
  next : d.nhc = true → IsUdp c d
  checksum : IsUdp c d → c.pb.byte d.ptr &&& nhcUdpChecksumc = 0
  extHdr : d.ipPayload = d.announced
  packetbufHdrLen : d.ptr + (if IsUdp c d then udpLen (c.pb.byte d.ptr) else 0) < 256
  uncompHdrLen : d.ipPayload + (if IsUdp c d then 8 else 0) < 256

/-- The part that the decompressor comes to fits. -/
def Fits (c : Call) (d : Decoder) : Prop :=
  match d.part with
  | .trafficClass => 0 < tfEnd c d.ptr → tfEnd c d.ptr ≤ c.bufSize
  | .nextHeader => 6 < nextHeaderEnd c d.ptr → nextHeaderEnd c d.ptr ≤ c.bufSize
  | .hopLimit => 7 < hopLimitEnd c d.ptr → hopLimitEnd c d.ptr ≤ c.bufSize
  | .source => (c.iphc1 &&& iphcSac ≠ 0 → ContextInside c) ∧ (8 < srcEnd c d.ptr → srcEnd c d.ptr ≤ c.bufSize)
  | .destination => (c.iphc1 &&& iphcM = 0 → c.iphc1 &&& iphcDac ≠ 0 → ContextInside c) ∧
      (24 < destEnd c d.ptr → destEnd c d.ptr ≤ c.bufSize)
  | .tail => Accepted c d → Whole c d
  | _ => True

/-! ## What holds on the way -/

/-- The bytes of the header before which all is done. -/
def bound (d : Decoder) : Nat :=
  match d.part with
  | .encoding | .trafficClass => 0
  | .nextHeader => 4
  | .hopLimit => 7
  | .source => 8
  | .destination => 24
  | _ => d.ipPayload

/-- Bytes left out: the length field, a next header field that is compressed, a destination that is not rebuilt. -/
def Skipped (c : Call) (d : Decoder) (x : Nat) : Prop :=
  x = 4 ∨ x = 5 ∨ (x = 6 ∧ d.nhc = true ∧ d.lastNextheader = 6) ∨ (ContextMulticast c ∧ 24 ≤ x ∧ x < 40)

structure Inv (c : Call) (d : Decoder) : Prop where
  written : ∀ x < bound d, x ∈ d.writes ∨ Skipped c d x
  within : d.ipPayload = d.announced → ∀ x ∈ d.writes, x < bound d
  unset : ContextMulticast c → 24 ∉ d.writes
  payload : 40 ≤ d.ipPayload
  announced : d.ipPayload ≤ d.announced
  last : d.lastNextheader = 6 ∨ 40 ≤ d.lastNextheader ∧ d.lastNextheader < d.ipPayload
  uncomp : d.uncompHdrLen = d.ipPayload % 256
  first : d.part ≠ .extHdr → d.part ≠ .tail → d.ipPayload = 40 ∧ d.announced = 40 ∧ d.lastNextheader = 6 ∧
    d.nhc = decide (c.iphc0 &&& iphcNhC ≠ 0)
  room : d.part = .extHdr ∨ d.part = .tail → d.ptr + 1 ≤ c.pb.datalen

def rank : Part → Nat
  | .encoding => 8
  | .trafficClass => 7
  | .nextHeader => 6
  | .hopLimit => 5
  | .source => 4
  | .destination => 3
  | .nhc => 2
  | .extHdr => 1
  | .tail => 0

/-- Every part leads to a later one, or reads on in the packet. -/
def measure (c : Call) (d : Decoder) : Nat := rank d.part * (c.pb.datalen + 1) + (c.pb.datalen - d.ptr)

theorem Accesses.ok (h : Accesses c s s' W F) : Ok c s' ↔ Ok c s ∧ F ∧ ∀ x, W x → x < c.bufSize := by
  constructor
  · rintro ⟨hreads, hwrites⟩
    obtain ⟨hreads, hF⟩ := h.reads.1 hreads
    refine ⟨⟨hreads, fun x hx => hwrites x ((h.writes x).2 (.inl hx))⟩, hF, fun x hx => ?_⟩
    exact hwrites x ((h.writes x).2 (.inr hx))
  · rintro ⟨⟨hreads, hwrites⟩, hF, hW⟩
    refine ⟨h.reads.2 ⟨hreads, hF⟩, fun x hx => ?_⟩
    rcases (h.writes x).1 hx with hx | hx
    · exact hwrites x hx
    · exact hW x hx

theorem Field.ok {r : Except Trace Trace} (h : Field c s r a e full F) :
    Ok c (left r) ↔ Ok c s ∧ F ∧ (a < e → e ≤ c.bufSize) := by
  have hW : (∀ x, a ≤ x ∧ x < e → x < c.bufSize) ↔ (a < e → e ≤ c.bufSize) := by
    constructor
    · intro hW hlt
      have := hW (e - 1) (by omega)
      omega
    · rintro hW x ⟨h1, h2⟩
      have := hW (by omega)
      omega
  rw [h.accesses.ok, hW]

/-! ## One part -/

/-- A part is safe when what is before it is and `F` holds, and it leads on. -/
structure Round (c : Call) (d : Decoder) (r : Decoder ⊕ Result) (F : Prop) : Prop where
  next : ∀ d', r = .inl d' → (Ok c d'.toTrace → Ok c d.toTrace) ∧
    (Ok c d.toTrace → Inv c d → (Ok c d'.toTrace ↔ F) ∧ (F → Inv c d' ∧ measure c d' < measure c d))
  last : ∀ p, r = .inr p → (Safe c p → Ok c d.toTrace) ∧ (Ok c d.toTrace → Inv c d → (Safe c p ↔ F))

theorem safe_fail (c : Call) (d : Decoder) : Safe c (fail c d) ↔ Ok c d.toTrace :=
  ⟨fun h => h.1, fun h => ⟨h, by rintro ⟨⟩⟩⟩

theorem field_round {r : Except Trace Trace} (h : Field c d.toTrace r a e full F) (next : Part)
    (hnext : ∀ s, r = .ok s → Inv c d → (∀ x, x ∈ s.writes ↔ x ∈ d.writes ∨ a ≤ x ∧ x < full) →
      Inv c { d with toTrace := s, part := next } ∧
        measure c { d with toTrace := s, part := next } < measure c d) :
    Round c d (field c d r next) (F ∧ (a < e → e ≤ c.bufSize)) := by
  have hok := h.ok
  cases r with
  | error s =>
    refine ⟨by rintro _ ⟨⟩, ?_⟩
    rintro p ⟨⟩
    rw [safe_fail]
    exact ⟨fun h => (hok.1 h).1, fun h _ => hok.trans (and_iff_right h)⟩
  | ok s =>
    refine ⟨?_, by rintro _ ⟨⟩⟩
    rintro d' ⟨⟩
    refine ⟨fun h => (hok.1 h).1, fun h' hinv => ⟨hok.trans (and_iff_right h'), fun _ => ?_⟩⟩
    have hwrites := h.accesses.writes
    rw [h.full s rfl] at hwrites
    exact hnext s rfl hinv hwrites

theorem Inv.field (hinv : Inv c d) {next : Part} (hpart : d.part ≠ .extHdr ∧ d.part ≠ .tail)
    (hlater : next ≠ .extHdr ∧ next ≠ .tail) (hrank : rank next < rank d.part)
    (hwrites : ∀ x, x ∈ s.writes ↔ x ∈ d.writes ∨ a ≤ x ∧ x < full)
    (hcover : ∀ x, bound d ≤ x → x < bound { d with toTrace := s, part := next } → a ≤ x ∧ x < full ∨ Skipped c d x)
    (hbound : bound d ≤ bound { d with toTrace := s, part := next })
    (hfull : full ≤ bound { d with toTrace := s, part := next })
    (hunset : ContextMulticast c → ¬ (a ≤ 24 ∧ 24 < full)) :
    Inv c { d with toTrace := s, part := next } ∧ measure c { d with toTrace := s, part := next } < measure c d := by
  refine ⟨⟨fun x hx => ?_, fun heq x hx => ?_, fun hm hx => ?_, hinv.payload, hinv.announced, hinv.last, hinv.uncomp,
    fun _ _ => hinv.first hpart.1 hpart.2, fun h => ?_⟩, ?_⟩
  · rcases Nat.lt_or_ge x (bound d) with hlt | hge
    · exact (hinv.written x hlt).imp (fun h => (hwrites x).2 (.inl h)) id
    · exact (hcover x hge hx).imp (fun h => (hwrites x).2 (.inr h)) id
  · rcases (hwrites x).1 hx with hx | hx
    · exact (hinv.within heq x hx).trans_le hbound
    · exact hx.2.trans_le hfull
  · rcases (hwrites 24).1 hx with hx | hx
    · exact hinv.unset hm hx
    · exact hunset hm hx
  · exact absurd h (by rintro (h | h); exacts [hlater.1 h, hlater.2 h])
  · have hmul : (rank next + 1) * (c.pb.datalen + 1) ≤ rank d.part * (c.pb.datalen + 1) := Nat.mul_le_mul_right _ hrank
    rw [Nat.succ_mul] at hmul
    show rank next * (c.pb.datalen + 1) + (c.pb.datalen - s.ptr) <
      rank d.part * (c.pb.datalen + 1) + (c.pb.datalen - d.ptr)
    omega

theorem Round.iff {r : Decoder ⊕ Result} (h : Round c d r F) (he : F ↔ G) : Round c d r G := by
  rwa [propext he] at h

theorem encoding_round (hpart : d.part = .encoding) : Round c d (encoding c d) True := by
  unfold encoding
  split
  · refine ⟨by rintro _ ⟨⟩, ?_⟩
    rintro p ⟨⟩
    rw [safe_fail]
    exact ⟨id, fun h _ => iff_of_true h trivial⟩
  · rename_i hroom
    refine ⟨?_, by rintro _ ⟨⟩⟩
    rintro d' ⟨⟩
    have hread : Accesses c d.toTrace ((d.toTrace.read c.hdrLen 2).advance (if c.iphc1 &&& iphcCid ≠ 0 then 3 else 2))
        (fun _ => False) True := (accesses_read_inside (not_lt.1 hroom) _).advance _
    have hb : bound d = 0 := by
      unfold bound
      rw [hpart]
    have hok : Ok c ((d.toTrace.read c.hdrLen 2).advance (if c.iphc1 &&& iphcCid ≠ 0 then 3 else 2)) ↔
        Ok c d.toTrace := hread.ok.trans (and_iff_left ⟨trivial, fun _ => False.elim⟩)
    have hwrites := (hread.iff (fun x => iff_of_false id (Nat.not_lt_zero x ∘ And.right) : ∀ x, False ↔ 0 ≤ x ∧ x < 0)
      Iff.rfl).writes
    refine ⟨hok.1, fun h hinv => ⟨iff_of_true (hok.2 h) trivial, fun _ => ?_⟩⟩
    exact hinv.field (by rw [hpart]; decide) (by decide) (by rw [hpart]; decide) hwrites
      (fun x _ hx => absurd hx (Nat.not_lt_zero x)) hb.le (Nat.zero_le _) (fun _ h => by omega)

theorem trafficClass_round (hpart : d.part = .trafficClass) :
    Round c d (field c d (uncompressTf c d.toTrace) .nextHeader) (0 < tfEnd c d.ptr → tfEnd c d.ptr ≤ c.bufSize) := by
  have hb : bound d = 0 := by
    unfold bound
    rw [hpart]
  refine (field_round (uncompressTf_field c d.toTrace) .nextHeader fun s _ hinv hwrites => ?_).iff (and_iff_right trivial)
  refine hinv.field (by rw [hpart]; decide) (by decide) (by rw [hpart]; decide) hwrites (fun x _ hx => .inl ?_)
    (by rw [hb]; exact Nat.zero_le _) le_rfl (fun _ h => by omega)
  exact ⟨Nat.zero_le x, hx⟩

theorem nextHeader_round (hpart : d.part = .nextHeader) :
    Round c d (field c d (uncompressNextHeader c d.toTrace) .hopLimit)
      (6 < nextHeaderEnd c d.ptr → nextHeaderEnd c d.ptr ≤ c.bufSize) := by
  have hb : bound d = 4 := by
    unfold bound
    rw [hpart]
  refine (field_round (uncompressNextHeader_field c d.toTrace) .hopLimit fun s _ hinv hwrites => ?_).iff (and_iff_right trivial)
  obtain ⟨-, -, hlast, hnhc⟩ := hinv.first (by rw [hpart]; decide) (by rw [hpart]; decide)
  have hnext : bound { d with toTrace := s, part := .hopLimit } = 7 := rfl
  refine hinv.field (by rw [hpart]; decide) (by decide) (by rw [hpart]; decide) hwrites (fun x hge hx => ?_)
    (by rw [hb, hnext]; decide) (by rw [hnext]; split <;> decide) (fun _ h => by split at h <;> omega)
  rw [hnext] at hx
  rw [hb] at hge
  by_cases hnh : c.iphc0 &&& iphcNhC = 0
  · rw [if_pos hnh]
    unfold Skipped
    omega
  · rw [if_neg hnh]
    have hnhc : d.nhc = true := by
      rw [hnhc]
      exact decide_eq_true hnh
    unfold Skipped
    simp only [hnhc, hlast, and_true]
    omega

theorem hopLimit_round (hpart : d.part = .hopLimit) : Round c d (field c d (uncompressTtl c d.toTrace) .source)
    (7 < hopLimitEnd c d.ptr → hopLimitEnd c d.ptr ≤ c.bufSize) := by
  have hb : bound d = 7 := by
    unfold bound
    rw [hpart]
  have hnext : ∀ s, bound { d with toTrace := s, part := .source } = 8 := fun _ => rfl
  refine (field_round (uncompressTtl_field c d.toTrace) .source fun s _ hinv hwrites => ?_).iff (and_iff_right trivial)
  refine hinv.field (by rw [hpart]; decide) (by decide) (by rw [hpart]; decide) hwrites (fun x hge hx => .inl ?_)
    (by rw [hb, hnext]; decide) (by rw [hnext]) (fun _ h => by omega)
  rw [hb] at hge
  exact ⟨hge, hx⟩

theorem source_round (hpart : d.part = .source) : Round c d (field c d (uncompressSrc c d.toTrace) .destination)
    ((c.iphc1 &&& iphcSac ≠ 0 → ContextInside c) ∧ (8 < srcEnd c d.ptr → srcEnd c d.ptr ≤ c.bufSize)) := by
  have hb : bound d = 8 := by
    unfold bound
    rw [hpart]
  have hnext : ∀ s, bound { d with toTrace := s, part := .destination } = 24 := fun _ => rfl
  refine field_round (uncompressSrc_field c d.toTrace) .destination fun s _ hinv hwrites => ?_
  refine hinv.field (by rw [hpart]; decide) (by decide) (by rw [hpart]; decide) hwrites (fun x hge hx => .inl ?_)
    (by rw [hb, hnext]; decide) (by rw [hnext]) (fun _ h => by omega)
  rw [hb] at hge
  exact ⟨hge, hx⟩

theorem destination_round (hpart : d.part = .destination) : Round c d (field c d (uncompressDest c d.toTrace) .nhc)
    ((c.iphc1 &&& iphcM = 0 → c.iphc1 &&& iphcDac ≠ 0 → ContextInside c) ∧
      (24 < destEnd c d.ptr → destEnd c d.ptr ≤ c.bufSize)) := by
  have hb : bound d = 24 := by
    unfold bound
    rw [hpart]
  refine field_round (uncompressDest_field c d.toTrace) .nhc fun s _ hinv hwrites => ?_
  obtain ⟨hpayload, -⟩ := hinv.first (by rw [hpart]; decide) (by rw [hpart]; decide)
  have hnext : bound { d with toTrace := s, part := .nhc } = 40 := hpayload
  refine hinv.field (by rw [hpart]; decide) (by decide) (by rw [hpart]; decide) hwrites (fun x hge hx => ?_)
    (by rw [hb, hnext]; decide) (by rw [hnext]; split <;> decide) (fun hm h => ?_)
  · rw [hnext] at hx
    rw [hb] at hge
    by_cases hm : ContextMulticast c
    · exact .inr (.inr (.inr (.inr ⟨hm, hge, hx⟩)))
    · rw [if_neg hm]
      exact .inl ⟨hge, hx⟩
  · rw [if_pos hm] at h
    omega

theorem nhc_round (hpart : d.part = .nhc) : Round c d
    (if d.ptr + 1 > c.pb.datalen then .inr (fail c d) else .inl { d with part := .extHdr }) True := by
  split
  · refine ⟨by rintro _ ⟨⟩, ?_⟩
    rintro p ⟨⟩
    rw [safe_fail]
    exact ⟨id, fun h _ => iff_of_true h trivial⟩
  · rename_i hroom
    refine ⟨?_, by rintro _ ⟨⟩⟩
    rintro d' ⟨⟩
    refine ⟨id, fun h hinv => ⟨iff_of_true h trivial, fun _ => ?_⟩⟩
    have hb : bound d = d.ipPayload := by
      unfold bound
      rw [hpart]
    have hnext : bound { d with part := .extHdr } = bound d := hb.symm
    refine ⟨⟨?_, ?_, hinv.unset, hinv.payload, hinv.announced, hinv.last, hinv.uncomp, fun h => absurd rfl h,
      fun _ => not_lt.1 hroom⟩, ?_⟩
    · rw [hnext]
      exact hinv.written
    · rw [hnext]
      exact hinv.within
    · unfold measure
      rw [hpart]
      unfold rank
      dsimp only
      omega

/-! ## The compressed headers -/

theorem readNhc_accesses (c : Call) (d : Decoder) : (readNhc d).ptr = d.ptr ∧
    Accesses c d.toTrace (readNhc d) (fun _ => False) (d.nhc = true → d.ptr + 1 ≤ c.pb.datalen) := by
  unfold readNhc
  split
  · rename_i hnhc
    refine ⟨rfl, (accesses_read ..).iff (fun _ => Iff.rfl) ?_⟩
    simp only [hnhc, true_implies, one_ne_zero, false_or]
  · rename_i hnhc
    exact ⟨rfl, (accesses_refl c _).iff (fun _ => Iff.rfl) (iff_of_true trivial fun h => absurd h hnhc)⟩

theorem readNhc_ok (hroom : d.ptr + 1 ≤ c.pb.datalen) : Ok c (readNhc d) ↔ Ok c d.toTrace :=
  (readNhc_accesses c d).2.ok.trans (and_iff_left ⟨fun _ => hroom, fun _ => False.elim⟩)

theorem Inv.bound_eq (hpart : d.part = .extHdr ∨ d.part = .tail) : bound d = d.ipPayload := by
  unfold bound
  rcases hpart with hpart | hpart
  · rw [hpart]
  · rw [hpart]

theorem Inv.hopLimit_lt (hinv : Inv c d) (hpart : d.part = .extHdr ∨ d.part = .tail) (hok : Ok c d.toTrace) :
    7 < c.bufSize := by
  have hpayload := hinv.payload
  rcases hinv.written 7 (by rw [Inv.bound_eq hpart]; omega) with h | h
  · exact hok.writes 7 h
  · unfold Skipped at h
    omega

theorem Inv.last_lt (hinv : Inv c d) (hpart : d.part = .extHdr ∨ d.part = .tail) (hok : Ok c d.toTrace) :
    d.lastNextheader < c.bufSize := by
  rcases hinv.last with hlast | ⟨hge, hlt⟩
  · have := hinv.hopLimit_lt hpart hok
    omega
  · rcases hinv.written d.lastNextheader (by rwa [Inv.bound_eq hpart]) with h | h
    · exact hok.writes _ h
    · unfold Skipped at h
      omega

theorem Failed.ok (h : Failed c a s s') : (Ok c s' → Ok c s) ∧ (a < c.bufSize → (Ok c s' ↔ Ok c s)) := by
  obtain ⟨W, hW, hle⟩ := h
  refine ⟨fun h => (hW.ok.1 h).1, fun ha => hW.ok.trans (and_iff_left ⟨trivial, fun x hx => ?_⟩)⟩
  rcases hle x hx with rfl | hx
  · exact ha
  · exact hx

theorem ExtHdr.inv (h : ExtHdr c d (readNhc d) d' len) (hpart : d.part = .extHdr) (hinv : Inv c d) : Inv c d' := by
  have hpart' : d'.part = .extHdr := h.part.trans hpart
  have hb := Inv.bound_eq (.inl hpart)
  have hb' := Inv.bound_eq (.inl hpart')
  have hpos := h.pos
  have hpayload := hinv.payload
  have hannounced := hinv.announced
  have hlast := hinv.last
  have hwrites : ∀ x, x ∈ d'.writes ↔ x ∈ d.writes ∨ x = d.lastNextheader ∨
      d.ipPayload ≤ x ∧ x < d.ipPayload + (2 + len) := by
    intro x
    rw [h.accesses.writes, (readNhc_accesses c d).2.writes, or_false]
  have hoctets : d'.ipPayload = d.ipPayload + (2 + len) / 8 * 8 := h.payload
  have hlen : d'.announced = d.announced + (2 + len) := h.announced
  refine ⟨fun x hx => ?_, fun heq x hx => ?_, fun hm hx => ?_, by omega, by omega, ?_, ?_,
    fun hne => absurd hpart' hne, fun _ => h.room⟩
  · rw [hb'] at hx
    rcases Nat.lt_or_ge x d.ipPayload with hlt | hge
    · rcases hinv.written x (by rwa [hb]) with hold | hskip
      · exact .inl ((hwrites x).2 (.inl hold))
      · rcases hskip with h4 | h5 | ⟨h6, -, hl⟩ | hm
        · exact .inr (.inl h4)
        · exact .inr (.inr (.inl h5))
        · exact .inl ((hwrites x).2 (.inr (.inl (h6.trans hl.symm))))
        · exact .inr (.inr (.inr (.inr hm)))
    · exact .inl ((hwrites x).2 (.inr (.inr ⟨hge, by omega⟩)))
  · -- no byte of an extension header is left over when the lengths agree
    rw [hb']
    rcases (hwrites x).1 hx with hx | hx | hx
    · have := hinv.within (by omega) x hx
      omega
    · omega
    · omega
  · rcases (hwrites 24).1 hx with hx | hx | hx
    · exact hinv.unset hm hx
    · omega
    · omega
  · rw [h.last]
    omega
  · rw [h.uncomp, hinv.uncomp, hoctets, Nat.mod_add_mod]

theorem extHdr_round (hpart : d.part = .extHdr) : Round c d (extHdrRound c d) True := by
  obtain ⟨hptr, hread⟩ := readNhc_accesses c d
  have hmono : Ok c (readNhc d) → Ok c d.toTrace := fun h => (hread.ok.1 h).1
  unfold extHdrRound
  split
  · obtain ⟨herror, hok⟩ := uncompressExtHdr_spec c d (readNhc d)
    cases hr : uncompressExtHdr c d (readNhc d) with
    | error s =>
      obtain ⟨hback, hiff⟩ := (herror s hr).ok
      refine ⟨by rintro _ ⟨⟩, ?_⟩
      rintro p ⟨⟩
      rw [safe_fail]
      refine ⟨fun h => hmono (hback h), fun h hinv => iff_of_true ?_ trivial⟩
      exact (hiff (hinv.last_lt (.inl hpart) h)).2 ((readNhc_ok (hinv.room (.inl hpart))).2 h)
    | ok d' =>
      obtain ⟨len, hext⟩ := hok d' hr
      refine ⟨?_, by rintro _ ⟨⟩⟩
      rintro _ ⟨⟩
      refine ⟨fun h => hmono (hext.accesses.ok.1 h).1, fun h hinv => ⟨iff_of_true ?_ trivial, fun _ => ⟨hext.inv hpart hinv,
        ?_⟩⟩⟩
      · have hlast := hinv.last_lt (.inl hpart) h
        have hfits := hext.fits
        refine hext.accesses.ok.2 ⟨(readNhc_ok (hinv.room (.inl hpart))).2 h, trivial, fun x hx => ?_⟩
        omega
      · have hlt := hext.ptr
        have hroom := hext.room
        unfold measure
        rw [hext.part, hpart]
        omega
  · refine ⟨?_, by rintro _ ⟨⟩⟩
    rintro d' ⟨⟩
    refine ⟨hmono, fun h hinv => ?_⟩
    have hroom := hinv.room (.inl hpart)
    have hb := Inv.bound_eq (.inl hpart)
    have hwrites : ∀ x, x ∈ (readNhc d).writes ↔ x ∈ d.writes := fun x => by rw [hread.writes, or_false]
    refine ⟨iff_of_true ((readNhc_ok hroom).2 h) trivial, fun _ => ⟨⟨fun x hx => ?_, fun heq x hx => ?_, fun hm hx => ?_,
      hinv.payload, hinv.announced, hinv.last, hinv.uncomp, fun _ hne => absurd rfl hne, fun _ => ?_⟩, ?_⟩⟩
    · exact (hinv.written x (hb ▸ hx)).imp (fun h => (hwrites x).2 h) id
    · have := hinv.within heq x ((hwrites x).1 hx)
      rwa [hb] at this
    · exact hinv.unset hm ((hwrites 24).1 hx)
    · show (readNhc d).ptr + 1 ≤ c.pb.datalen
      rw [hptr]
      exact hroom
    · unfold measure
      rw [hpart]
      unfold rank
      dsimp only
      omega

/-! ## The tail -/

theorem finish_ok (c : Call) (d : Decoder) (k : Bool) :
    Ok c (finish c d k).decoder.toTrace ↔ Ok c d.toTrace ∧ 6 ≤ c.bufSize := by
  have h := (accesses_putPort c 4 (if c.ipLen = 0 then (c.pb.datalen : Int) - (d.ptr % 256 : Nat) + d.uncompHdrLen - 40
    else c.ipLen - 40) d.toTrace).ok
  refine h.trans (and_congr_right fun _ => ⟨fun h => ?_, fun h => ⟨trivial, fun x hx => by omega⟩⟩)
  have := h.2 5 (by omega)
  omega

theorem finish_rebuilt (c : Call) (d : Decoder) (k : Bool) : Rebuilt c (finish c d k) ↔
    (∀ x < d.announced, x ∈ d.writes ∨ x = 4 ∨ x = 5) ∧ k = true ∧ d.announced ≤ c.bufSize ∧
      d.uncompHdrLen = d.announced ∧ d.ptr < 256 ∧ d.ptr ≤ c.pb.datalen := by
  have hwrites : ∀ x, x ∈ (finish c d k).decoder.writes ↔ x ∈ d.writes ∨ x = 4 ∨ x = 5 := by
    intro x
    refine ((accesses_putPort c 4 _ d.toTrace).writes x).trans (or_congr_right ?_)
    omega
  have hlen : (finish c d k).packetbufHdrLen = d.ptr % 256 := rfl
  constructor
  · rintro ⟨hwhole, hk, hfits, huncomp, hptr, hpacket⟩
    refine ⟨fun x hx => (hwrites x).1 (hwhole x hx), hk, hfits, huncomp, ?_, hpacket⟩
    rw [hlen] at hptr
    have hptr : d.ptr % 256 = d.ptr := hptr
    omega
  · rintro ⟨hwhole, hk, hfits, huncomp, hptr, hpacket⟩
    exact ⟨fun x hx => (hwrites x).2 (hwhole x hx), hk, hfits, huncomp, Nat.mod_eq_of_lt hptr, hpacket⟩

theorem Inv.whole (hinv : Inv c d) (hpart : d.part = .tail) (hm : ¬ ContextMulticast c) {x : Nat}
    (hx : x < d.ipPayload) : x ∈ d.writes ∨ x = 4 ∨ x = 5 ∨ (x = 6 ∧ d.nhc = true ∧ d.lastNextheader = 6) := by
  rw [← Inv.bound_eq (.inr hpart)] at hx
  rcases hinv.written x hx with h | h | h | h | h
  · exact .inl h
  · exact .inr (.inl h)
  · exact .inr (.inr (.inl h))
  · exact .inr (.inr (.inr h))
  · exact absurd h.1 hm

theorem udp_rebuilt (hinv : Inv c d) (hpart : d.part = .tail) (hudp : IsUdp c d)
    (hfits : UdpFits c d) (h : Udp c d (readNhc d) d') : Rebuilt c (finish c d' true) ↔ Whole c d := by
  obtain ⟨hptr, hread⟩ := readNhc_accesses c d
  have hwrites : ∀ x, x ∈ d'.writes ↔ x ∈ d.writes ∨ x = d.lastNextheader ∨
      d.ipPayload ≤ x ∧ x < d.ipPayload + 6 ∨
      c.pb.byte d.ptr &&& nhcUdpChecksumc = 0 ∧ d.ipPayload + 6 ≤ x ∧ x < d.ipPayload + 8 := by
    intro x
    rw [h.accesses.writes, hread.writes, or_false, hptr]
  have huncomp := h.uncomp
  have hannounced := h.announced
  have hptr' : d'.ptr = d.ptr + udpLen (c.pb.byte d.ptr) := by
    rw [h.ptr, hptr]
  have hle := hinv.announced
  have hpayload := hinv.payload
  have hlast := hinv.last
  rw [hinv.uncomp] at huncomp
  rw [finish_rebuilt]
  constructor
  · rintro ⟨hwhole, -, hsize, heq, hlt, -⟩
    have hsame : d.ipPayload = d.announced := by omega
    refine ⟨fun hm => ?_, fun _ => hudp, fun _ => ?_, hsame, ?_, ?_⟩
    · rcases hwhole 24 (by omega) with h24 | h24
      · rcases (hwrites 24).1 h24 with h24 | h24 | h24 | h24
        · exact hinv.unset hm h24
        · omega
        · omega
        · omega
      · omega
    · -- nothing else is written where the checksum is to be
      by_contra hc
      rcases hwhole (d.ipPayload + 6) (by omega) with h6 | h6
      · rcases (hwrites (d.ipPayload + 6)).1 h6 with h6 | h6 | h6 | h6
        · have := hinv.within hsame _ h6
          rw [Inv.bound_eq (.inr hpart)] at this
          omega
        · omega
        · omega
        · exact hc h6.1
      · omega
    · rw [if_pos hudp]
      omega
    · rw [if_pos hudp]
      omega
  · rintro ⟨hm, -, hchecksum, hsame, hlt, hlt'⟩
    rw [if_pos hudp] at hlt hlt'
    refine ⟨fun x hx => ?_, rfl, ?_, by omega, by omega, ?_⟩
    · rcases Nat.lt_or_ge x d.ipPayload with hbefore | hbehind
      · rcases hinv.whole hpart hm hbefore with hx | hx | hx | ⟨hx, -, hl⟩
        · exact .inl ((hwrites x).2 (.inl hx))
        · exact .inr (.inl hx)
        · exact .inr (.inr hx)
        · exact .inl ((hwrites x).2 (.inr (.inl (hx.trans hl.symm))))
      · refine .inl ((hwrites x).2 (.inr (.inr ?_)))
        rcases Nat.lt_or_ge x (d.ipPayload + 6) with h6 | h6
        · exact .inl ⟨hbehind, h6⟩
        · exact .inr ⟨hchecksum hudp, h6, by omega⟩
    · have := hfits.1
      omega
    · rw [hptr']
      exact hfits.2

theorem plain_rebuilt (hinv : Inv c d) (hpart : d.part = .tail) (hok : Ok c d.toTrace) (hudp : ¬ IsUdp c d) :
    Rebuilt c (finish c { d with toTrace := readNhc d } (!d.nhc)) ↔ Whole c d := by
  obtain ⟨hptr, hread⟩ := readNhc_accesses c d
  have hroom := hinv.room (.inr hpart)
  have hwrites : ∀ x, x ∈ (readNhc d).writes ↔ x ∈ d.writes := fun x => by rw [hread.writes, or_false]
  have hle := hinv.announced
  have hpayload := hinv.payload
  have huncomp := hinv.uncomp
  rw [finish_rebuilt]
  dsimp only
  rw [hptr, Bool.not_eq_true']
  constructor
  · rintro ⟨hwhole, hnhc, hsize, heq, hlt, -⟩
    refine ⟨fun hm => ?_, fun h => ?_, fun h => absurd h hudp, by omega, ?_, ?_⟩
    · rcases hwhole 24 (by omega) with h24 | h24
      · exact hinv.unset hm ((hwrites 24).1 h24)
      · omega
    · rw [hnhc] at h
      cases h
    · rw [if_neg hudp]
      omega
    · rw [if_neg hudp]
      omega
  · rintro ⟨hm, hnext, -, hsame, hlt, hlt'⟩
    rw [if_neg hudp] at hlt hlt'
    have hnhc : d.nhc = false := by
      rw [← Bool.not_eq_true]
      exact fun h => hudp (hnext h)
    have hall : ∀ x < d.ipPayload, x ∈ d.writes ∨ x = 4 ∨ x = 5 := by
      intro x hx
      rcases hinv.whole hpart hm hx with hx | hx | hx | ⟨-, h, -⟩
      · exact .inl hx
      · exact .inr (.inl hx)
      · exact .inr (.inr hx)
      · rw [hnhc] at h
        cases h
    refine ⟨fun x hx => ?_, hnhc, ?_, by omega, by omega, by omega⟩
    · rw [hwrites]
      exact hall x (by omega)
    · rcases hall (d.ipPayload - 1) (by omega) with h | h
      · have := hok.writes _ h
        omega
      · omega

theorem tail_round (hpart : d.part = .tail) : Round c d (.inr (uncompressTail c d)) (Accepted c d → Whole c d) := by
  obtain ⟨hptr, hread⟩ := readNhc_accesses c d
  have hmono : Ok c (readNhc d) → Ok c d.toTrace := fun h => (hread.ok.1 h).1
  refine ⟨by rintro _ ⟨⟩, ?_⟩
  rintro p ⟨⟩
  unfold uncompressTail
  by_cases hend : d.ptr + 1 > c.pb.datalen
  · rw [if_pos hend, safe_fail]
    refine ⟨id, fun _ hinv => ?_⟩
    have := hinv.room (.inr hpart)
    omega
  · rw [if_neg hend]
    by_cases hudp : IsUdp c d
    · rw [if_pos hudp]
      obtain ⟨hfit, hnofit⟩ := uncompressUdp_spec (c := c) hptr hudp.2
      by_cases hfits : UdpFits c d
      · obtain ⟨d', hd', hspec⟩ := hfit hfits
        rw [hd']
        have hok' := hspec.accesses.ok
        unfold Safe
        rw [finish_ok]
        refine ⟨fun h => hmono (hok'.1 h.1.1).1, fun hok hinv => ?_⟩
        have hlast := hinv.last_lt (.inr hpart) hok
        have hhop := hinv.hopLimit_lt (.inr hpart) hok
        have hsize := hfits.1
        have hsafe : Ok c d'.toTrace := by
          refine hok'.2 ⟨(readNhc_ok (not_lt.1 hend)).2 hok, trivial, fun x hx => ?_⟩
          rcases hx with hx | hx | hx
          · omega
          · omega
          · omega
        have hrebuilt := udp_rebuilt hinv hpart hudp hfits hspec
        constructor
        · exact fun h _ => hrebuilt.1 (h.2 rfl)
        · exact fun h => ⟨⟨hsafe, by omega⟩, fun _ => hrebuilt.2 (h fun _ => hfits)⟩
      · obtain ⟨s', hs', hfailed⟩ := hnofit hfits
        rw [hs']
        dsimp only
        rw [safe_fail]
        obtain ⟨hback, hiff⟩ := hfailed.ok
        refine ⟨fun h => hmono (hback h), fun hok hinv => iff_of_true ?_ fun h => absurd (h hudp) hfits⟩
        exact (hiff (hinv.last_lt (.inr hpart) hok)).2 ((readNhc_ok (not_lt.1 hend)).2 hok)
    · rw [if_neg hudp]
      unfold Safe
      rw [finish_ok]
      refine ⟨fun h => hmono h.1.1, fun hok hinv => ?_⟩
      have hhop := hinv.hopLimit_lt (.inr hpart) hok
      have hrebuilt := plain_rebuilt hinv hpart hok hudp
      constructor
      · exact fun h _ => hrebuilt.1 (h.2 rfl)
      · exact fun h => ⟨⟨(readNhc_ok (not_lt.1 hend)).2 hok, by omega⟩,
          fun _ => hrebuilt.2 (h fun hc => absurd hc hudp)⟩

/-! ## The decompressor -/

theorem step_round (c : Call) (d : Decoder) : Round c d (step c d) (Fits c d) := by
  unfold step Fits
  cases hpart : d.part with
  | encoding => exact encoding_round hpart
  | trafficClass => exact trafficClass_round hpart
  | nextHeader => exact nextHeader_round hpart
  | hopLimit => exact hopLimit_round hpart
  | source => exact source_round hpart
  | destination => exact destination_round hpart
  | nhc => exact nhc_round hpart
  | extHdr => exact extHdr_round hpart
  | tail => exact tail_round hpart

theorem inv_start (c : Call) (buf : Mem) : Inv c (start c buf) :=
  ⟨fun x hx => absurd hx (Nat.not_lt_zero x), fun _ _ hx => absurd hx List.not_mem_nil, fun _ hx => absurd hx List.not_mem_nil,
    le_rfl, le_rfl, .inl rfl, rfl, fun _ _ => ⟨rfl, rfl, rfl, rfl⟩, by rintro (h | h) <;> cases h⟩

/-- The decompressor is safe exactly when every part that it comes to fits. -/
theorem uncompress_hdr_iphc_safe (c : Call) (buf : Mem) : (∃ fuel r, uncompressHdrIphc c buf fuel = some r ∧ Safe c r) ↔
      ∀ d, Comes (step c) (start c buf) d → Fits c d := by
  refine loop_good_iff (I := fun d => Ok c d.toTrace ∧ Inv c d) (B := fun d => ¬ Ok c d.toTrace) (μ := measure c)
    ?_ ?_ ?_ ?_ ?_
  · rintro d d' ⟨hok, hinv⟩ hfits hs
    obtain ⟨hiff, hnext⟩ := ((step_round c d).next d' hs).2 hok hinv
    exact ⟨⟨hiff.2 hfits, (hnext hfits).1⟩, (hnext hfits).2⟩
  · rintro d r ⟨hok, hinv⟩ hfits hs
    exact (((step_round c d).last r hs).2 hok hinv).2 hfits
  · rintro d ⟨hok, hinv⟩ hfits
    refine ⟨fun d' hs hok' => hfits ?_, fun r hs hr => hfits ?_⟩
    · exact (((step_round c d).next d' hs).2 hok hinv).1.1 hok'
    · exact (((step_round c d).last r hs).2 hok hinv).1 hr
  · intro d hbad
    exact ⟨fun d' hs hok' => hbad (((step_round c d).next d' hs).1 hok'),
      fun r hs hr => hbad (((step_round c d).last r hs).1 hr)⟩
  · refine ⟨⟨?_, ?_⟩, inv_start c buf⟩
    · rintro x ⟨⟩
    · rintro x ⟨⟩

/-- A packet of the two encoding bytes, which say that a context byte follows and that the source address is the
unspecified one. -/
def contextMissing : Call where
  cfg := plainConfig
  pb := ⟨fun x => [0x7d, 0xc0].getD x 0, 2⟩
  sender := fun _ => 0
  receiver := fun _ => 0
  hdrLen := 0
  bufSize := 1280
  ipLen := 0

/-- The context byte is read behind the packet. -/
theorem context_read_outside :
    ¬ ∃ fuel r, uncompressHdrIphc contextMissing (fun _ => 0) fuel = some r ∧ Safe contextMissing r := by
  rintro ⟨fuel, r, hr, ⟨hreads, -⟩, -⟩
  have hlog : (uncompressHdrIphc contextMissing (fun _ => 0) 6).map (fun r => r.decoder.reads) = some [0, 1, 2] := by
    decide
  obtain ⟨r', hr', hlog⟩ := Option.map_eq_some_iff.1 hlog
  obtain rfl := loop_unique hr hr'
  exact absurd (hreads 2 (by rw [hlog]; decide)) (by decide)

end Contiki.Sicslowpan.Traced
