/-
`uncompress_hdr_iphc` part by part, with the positions of the packet that it reads and those of the target buffer that
it writes.
-/
import Mathlib.Data.List.GetD
import Contiki.Lib.Loop
import Contiki.Sicslowpan.Iphc
import Contiki.Lib.Cursor

namespace Contiki.Sicslowpan.Traced

section

open Lib

/-! ## Accesses -/

/-- The target buffer and `iphc_ptr - packetbuf_ptr`, with the positions read and written so far. -/
structure Trace extends Unc where
  reads : List Nat
  writes : List Nat

namespace Trace

/-- Reads `n` bytes of the packet. -/
def read (a n : Nat) (s : Trace) : Trace := { s with reads := s.reads ++ List.range' a n }

def put (a : Nat) (b : UInt8) (s : Trace) : Trace := { s with buf := s.buf.put a b, writes := s.writes ++ List.range' a 1 }

def paste (a n : Nat) (f : Mem) (s : Trace) : Trace :=
  { s with buf := Mem.paste a n f s.buf, writes := s.writes ++ List.range' a n }

def fill (a n : Nat) (b : UInt8) (s : Trace) : Trace :=
  { s with buf := s.buf.fill a n b, writes := s.writes ++ List.range' a n }

def putPort (a : Nat) (v : Int) (s : Trace) : Trace :=
  { s with buf := Sicslowpan.putPort a v s.buf, writes := s.writes ++ List.range' a 2 }

/-- `iphc_ptr += n`. -/
def advance (n : Nat) (s : Trace) : Trace := { s with ptr := s.ptr + n }

@[simp] theorem ptr_read (a n : Nat) (s : Trace) : (s.read a n).ptr = s.ptr := rfl

@[simp] theorem ptr_put (a : Nat) (b : UInt8) (s : Trace) : (s.put a b).ptr = s.ptr := rfl

@[simp] theorem ptr_paste (a n : Nat) (f : Mem) (s : Trace) : (s.paste a n f).ptr = s.ptr := rfl

@[simp] theorem ptr_fill (a n : Nat) (b : UInt8) (s : Trace) : (s.fill a n b).ptr = s.ptr := rfl

@[simp] theorem ptr_putPort (a : Nat) (v : Int) (s : Trace) : (s.putPort a v).ptr = s.ptr := rfl

@[simp] theorem ptr_advance (n : Nat) (s : Trace) : (s.advance n).ptr = s.ptr + n := rfl

end Trace

/-- What the decompressor is called with: the packet, `packetbuf_hdr_len`, the size of the target buffer, `ip_len`. -/
structure Call where
  cfg : Config
  pb : Packetbuf
  sender : Mem
  receiver : Mem
  hdrLen : Nat
  bufSize : Nat
  ipLen : Nat

def Call.iphc0 (c : Call) : UInt8 := c.pb.byte c.hdrLen

def Call.iphc1 (c : Call) : UInt8 := c.pb.byte (c.hdrLen + 1)

def Call.ctx (c : Call) : UInt8 := c.pb.byte (c.hdrLen + 2)

/-! ## Fields -/

def uncompressTf (c : Call) (s : Trace) : Except Trace Trace :=
  let b : UInt8 := c.pb.byte s.ptr
  let down : UInt8 := b >>> 2
  let up : UInt8 := b <<< 6
  if c.iphc0 &&& iphcFlC = 0 then
    if c.iphc0 &&& iphcTcC = 0 then
      if s.ptr + 4 > c.pb.datalen then .error s
      else
        let low := c.pb.byte (s.ptr + 1) &&& 0x0f
        let s := (s.read s.ptr 4).paste 1 3 fun i => c.pb.byte (s.ptr + 1 + i)
        .ok (((s.put 0 (0x60 ||| (down &&& 0x0f))).put 1 ((down &&& 0x30) ||| up ||| low)).advance 4)
    else
      -- the version is written before the room is checked
      if s.ptr + 3 > c.pb.datalen then .error (s.put 0 0x60)
      else
        let s' := ((s.put 0 0x60).read s.ptr 3).put 1 ((b &&& 0x0f) ||| (down &&& 0x30))
        .ok ((s'.paste 2 2 fun i => c.pb.byte (s.ptr + 1 + i)).advance 3)
  else if c.iphc0 &&& iphcTcC = 0 then
    if s.ptr + 1 > c.pb.datalen then .error s
    else
      let s := (s.read s.ptr 1).put 0 (0x60 ||| (down &&& 0x0f))
      .ok (((s.put 1 ((up &&& 0xc0) ||| (down &&& 0x30))).fill 2 2 0).advance 1)
  else .ok ((s.put 0 0x60).fill 1 3 0)

def uncompressNextHeader (c : Call) (s : Trace) : Except Trace Trace :=
  if c.iphc0 &&& iphcNhC = 0 then
    if s.ptr + 1 > c.pb.datalen then .error s
    else .ok (((s.read s.ptr 1).put 6 (c.pb.byte s.ptr)).advance 1)
  else .ok s

def uncompressTtl (c : Call) (s : Trace) : Except Trace Trace :=
  if c.iphc0 &&& 0x03 ≠ 0 then .ok (s.put 7 (ttlValues.getD (c.iphc0 &&& 0x03).toNat 0))
  else if s.ptr + 1 > c.pb.datalen then .error s
  else .ok (((s.read s.ptr 1).put 7 (c.pb.byte s.ptr)).advance 1)

/-- The two counts of `pref_post_count`. -/
def prefCount (prefPostCount : UInt8) : Nat := nibbleCount (prefPostCount >>> 4).toNat

def postCount (prefPostCount : UInt8) : Nat := nibbleCount (prefPostCount &&& 0x0f).toNat

/-- The prefix of an address at `pos`, and zeroes up to the bytes that are inline. -/
@[grind =]
def writePrefix (pos : Nat) (pre : Option Mem) (prefcount postcount : Nat) (s : Trace) : Trace :=
  let s := match pre with
    | some p => s.paste pos prefcount p
    | none => s
  if prefcount + postcount < 16 then s.fill (pos + prefcount) (16 - (prefcount + postcount)) 0 else s

/-- `uncompress_addr` on the 16 bytes at `pos`. -/
def uncompressAddr (c : Call) (pos : Nat) (pre : Option Mem) (prefPostCount : UInt8) (lladdr : Mem) (s : Trace) :
    Except Trace Trace :=
  let prefcount := prefCount prefPostCount
  let postcount := postCount prefPostCount
  let s := writePrefix pos pre prefcount postcount s
  if 0 < postcount then
    if s.ptr + postcount > c.pb.datalen then .error s
    else
      let s := (s.read s.ptr postcount).paste (pos + (16 - postcount)) postcount fun i => c.pb.byte (s.ptr + i)
      let s := if postcount = 2 ∧ prefcount < 11 then (s.put (pos + 11) 0xff).put (pos + 12) 0xfe else s
      .ok (s.advance postcount)
  else if 0 < prefcount then
    .ok (s.paste (pos + 8) 8 fun i => (lladdrIid c.cfg.kind lladdr).getD i 0)
  else .ok s

def readContext (c : Call) (s : Trace) : Trace :=
  if c.iphc1 &&& iphcCid ≠ 0 then s.read (c.hdrLen + 2) 1 else s

def uncompressSrc (c : Call) (s : Trace) : Except Trace Trace :=
  let sam := ((c.iphc1 &&& 0x30) >>> 4) &&& 0x03
  if c.iphc1 &&& iphcSac ≠ 0 then
    let s := readContext c s
    let sci := if c.iphc1 &&& iphcCid ≠ 0 then c.ctx >>> 4 else 0
    if sam ≠ 0 then
      match addrContextLookupByNumber c.cfg sci with
      | none => .error s
      | some context => uncompressAddr c 8 (some context.ctxPrefix) (uncCtxconf.getD sam.toNat 0) c.sender s
    else uncompressAddr c 8 none (uncCtxconf.getD sam.toNat 0) c.sender s
  else uncompressAddr c 8 (some llprefix) (uncLlconf.getD sam.toNat 0) c.sender s

def uncompressDest (c : Call) (s : Trace) : Except Trace Trace :=
  let dam := (c.iphc1 &&& 0x03) &&& 0x03
  if c.iphc1 &&& iphcM ≠ 0 then
    -- context based multicast is not implemented and leaves the address as it is
    if c.iphc1 &&& iphcDac ≠ 0 then .ok s
    else if 0 < dam ∧ dam < 3 then
      if s.ptr + 1 > c.pb.datalen then .error s
      else
        let pre : Mem := fun i => [0xff, c.pb.byte s.ptr].getD i 0
        uncompressAddr c 24 (some pre) (uncMxconf.getD dam.toNat 0) c.receiver ((s.read s.ptr 1).advance 1)
    else uncompressAddr c 24 (some fun i => [0xff, 0x02].getD i 0) (uncMxconf.getD dam.toNat 0) c.receiver s
  else if c.iphc1 &&& iphcDac ≠ 0 then
    let s := readContext c s
    let dci := if c.iphc1 &&& iphcCid ≠ 0 then c.ctx &&& 0x0f else 0
    match addrContextLookupByNumber c.cfg dci with
    | none => .error s
    | some context => uncompressAddr c 24 (some context.ctxPrefix) (uncCtxconf.getD dam.toNat 0) c.receiver s
  else uncompressAddr c 24 (some llprefix) (uncLlconf.getD dam.toNat 0) c.receiver s

/-! ## The parts of the decompressor -/

/-- What the decompressor does next. -/
inductive Part
  | encoding | trafficClass | nextHeader | hopLimit | source | destination | nhc | extHdr | tail
deriving DecidableEq

/-- The variables of the decompressor, those for the compressed headers with their first values from the beginning; and
the length, uncompressed, of the headers that the packet has so far. -/
structure Decoder extends Trace where
  part : Part
  nhc : Bool
  lastNextheader : Nat
  ipPayload : Nat
  extHdrLen : Nat
  uncompHdrLen : Nat
  announced : Nat

/-- What the decompressor returns and leaves, and whether the next header field of the last header was set. -/
structure Result where
  ret : Bool
  decoder : Decoder
  packetbufHdrLen : Nat
  nextKnown : Bool

/-- `return false`. -/
def fail (c : Call) (d : Decoder) : Result := ⟨false, d, c.hdrLen, false⟩

def field (c : Call) (d : Decoder) (r : Except Trace Trace) (next : Part) : Decoder ⊕ Result :=
  match r with
  | .error s => .inr (fail c { d with toTrace := s })
  | .ok s => .inl { d with toTrace := s, part := next }

def encoding (c : Call) (d : Decoder) : Decoder ⊕ Result :=
  if c.pb.datalen < c.hdrLen + 2 then .inr (fail c d)
  else .inl { d with
    toTrace := (d.toTrace.read c.hdrLen 2).advance (if c.iphc1 &&& iphcCid ≠ 0 then 3 else 2)
    part := .trafficClass }

/-- Writes an extension header at `ip_payload`, with `len` bytes behind its next header and length bytes. -/
def writeExtHdr (c : Call) (d : Decoder) (s : Trace) (nh : Bool) (proto next : UInt8) (len : Nat) :
    Except Trace Decoder :=
  let s' := s.put d.lastNextheader proto
  if d.ipPayload + 2 + len > c.bufSize then .error s'
  else if (2 + len) / 8 = 0 then .error (s'.put (d.ipPayload + 1) 0)
  else
    let octets := (2 + len) / 8 * 8
    let s' := (s'.put (d.ipPayload + 1) (UInt8.ofNat ((2 + len) / 8 - 1))).put d.ipPayload next
    if s.ptr + (len + 1) > c.pb.datalen then .error s'
    else
      let s' := (s'.read s.ptr len).paste (d.ipPayload + 2) len fun i => c.pb.byte (s.ptr + i)
      .ok { d with
        toTrace := s'.advance len
        nhc := nh
        lastNextheader := d.ipPayload
        ipPayload := d.ipPayload + octets
        extHdrLen := (d.extHdrLen + octets) % 256
        uncompHdrLen := (d.uncompHdrLen + octets) % 256
        announced := d.announced + (2 + len) }

@[grind =]
def uncompressExtHdr (c : Call) (d : Decoder) (s : Trace) : Except Trace Decoder :=
  let b : UInt8 := c.pb.byte s.ptr
  let nh := b &&& 0x01
  let s := s.advance 1
  if s.ptr + 1 > c.pb.datalen then .error s
  else
    let next := if nh = 0 then c.pb.byte s.ptr else 0
    let s := if nh = 0 then (s.read s.ptr 1).advance 1 else s
    if s.ptr + 1 > c.pb.datalen then .error s
    else
      let len := (c.pb.byte s.ptr).toNat
      let s := (s.read s.ptr 1).advance 1
      match extHdrProto ((b &&& 0x0e) >>> 1) with
      | none => .error s
      | some proto => writeExtHdr c d s (nh ≠ 0) proto next len

def readNhc (d : Decoder) : Trace := if d.nhc then d.toTrace.read d.ptr 1 else d.toTrace

def extHdrRound (c : Call) (d : Decoder) : Decoder ⊕ Result :=
  if d.nhc ∧ c.pb.byte d.ptr &&& nhcMask = nhcExtHdr then
    match uncompressExtHdr c d (readNhc d) with
    | .error s => .inr (fail c { d with toTrace := s })
    | .ok d => .inl d
  else .inl { d with toTrace := readNhc d, part := .tail }

/-- The ports of a compressed UDP header, written at `pos`. -/
def uncompressPorts (c : Call) (pos : Nat) (s : Trace) : Except Trace Trace :=
  let b : UInt8 := c.pb.byte s.ptr
  let mode := b &&& nhcUdpCsP11
  if mode = nhcUdpCsP00 then
    if s.ptr + 5 > c.pb.datalen then .error s
    else .ok (((s.read (s.ptr + 1) 4).paste pos 4 fun i => c.pb.byte (s.ptr + 1 + i)).advance 5)
  else if mode = nhcUdpCsP01 then
    if s.ptr + 4 > c.pb.datalen then .error s
    else
      let s' := (s.read (s.ptr + 1) 3).paste pos 2 fun i => c.pb.byte (s.ptr + 1 + i)
      .ok ((s'.putPort (pos + 2) (udp8BitPortMin + (c.pb.byte (s.ptr + 3)).toNat)).advance 4)
  else if mode = nhcUdpCsP10 then
    if s.ptr + 4 > c.pb.datalen then .error s
    else
      let s' := (s.read (s.ptr + 1) 3).putPort pos (udp8BitPortMin + (c.pb.byte (s.ptr + 1)).toNat)
      .ok ((s'.paste (pos + 2) 2 fun i => c.pb.byte (s.ptr + 2 + i)).advance 4)
  else if mode = nhcUdpCsP11 then
    if s.ptr + 2 > c.pb.datalen then .error s
    else
      let p : UInt8 := c.pb.byte (s.ptr + 1)
      let s' := (s.read (s.ptr + 1) 1).putPort pos (udp4BitPortMin + (p >>> 4).toNat)
      .ok ((s'.putPort (pos + 2) (udp4BitPortMin + (p &&& 0x0f).toNat)).advance 2)
  else .error s

/-- The checksum of the UDP header at `pos`, when it is in the packet. -/
def uncompressChecksum (c : Call) (pos : Nat) (b : UInt8) (s : Trace) : Except Trace Trace :=
  if b &&& nhcUdpChecksumc = 0 then
    if s.ptr + 2 > c.pb.datalen then .error s
    else .ok (((s.read s.ptr 2).paste (pos + 6) 2 fun i => c.pb.byte (s.ptr + i)).advance 2)
  else .ok s

def uncompressUdp (c : Call) (d : Decoder) (s : Trace) : Except Trace Decoder :=
  if d.ipPayload + 8 > c.bufSize then .error s
  else do
    let p ← uncompressPorts c d.ipPayload (s.put d.lastNextheader protoUdp)
    let p ← uncompressChecksum c d.ipPayload (c.pb.byte s.ptr) p
    let udpLen : Int := if c.ipLen = 0 then 8 + c.pb.datalen - p.ptr else c.ipLen - 40 - d.extHdrLen
    .ok { d with
      toTrace := p.putPort (d.ipPayload + 4) udpLen
      uncompHdrLen := (d.uncompHdrLen + 8) % 256
      announced := d.announced + 8 }

def IsUdp (c : Call) (d : Decoder) : Prop := d.nhc ∧ c.pb.byte d.ptr &&& nhcUdpMask = nhcUdpId

instance (c : Call) (d : Decoder) : Decidable (IsUdp c d) := inferInstanceAs (Decidable (_ ∧ _))

/-- `packetbuf_hdr_len` and the length field, and `return true`. -/
def finish (c : Call) (d : Decoder) (nextKnown : Bool) : Result :=
  let hdrLen := d.ptr % 256
  let len : Int := if c.ipLen = 0 then c.pb.datalen - hdrLen + d.uncompHdrLen - 40 else c.ipLen - 40
  ⟨true, { d with toTrace := d.toTrace.putPort 4 len }, hdrLen, nextKnown⟩

def uncompressTail (c : Call) (d : Decoder) : Result :=
  if d.ptr + 1 > c.pb.datalen then fail c d
  else if IsUdp c d then
    match uncompressUdp c d (readNhc d) with
    | .error s => fail c { d with toTrace := s }
    | .ok d => finish c d true
  else finish c { d with toTrace := readNhc d } (!d.nhc)

/-- One part of `uncompress_hdr_iphc`. -/
def step (c : Call) (d : Decoder) : Decoder ⊕ Result :=
  match d.part with
  | .encoding => encoding c d
  | .trafficClass => field c d (uncompressTf c d.toTrace) .nextHeader
  | .nextHeader => field c d (uncompressNextHeader c d.toTrace) .hopLimit
  | .hopLimit => field c d (uncompressTtl c d.toTrace) .source
  | .source => field c d (uncompressSrc c d.toTrace) .destination
  | .destination => field c d (uncompressDest c d.toTrace) .nhc
  | .nhc => if d.ptr + 1 > c.pb.datalen then .inr (fail c d) else .inl { d with part := .extHdr }
  | .extHdr => extHdrRound c d
  | .tail => .inr (uncompressTail c d)

/-- The decompressor at the call, with `uncomp_hdr_len` 0. -/
def start (c : Call) (buf : Mem) : Decoder where
  buf := buf
  ptr := c.hdrLen
  reads := []
  writes := []
  part := .encoding
  nhc := c.iphc0 &&& iphcNhC ≠ 0
  lastNextheader := 6
  ipPayload := 40
  extHdrLen := 0
  uncompHdrLen := 40
  announced := 40

/-- `uncompress_hdr_iphc`, if it ends within `fuel` parts. -/
def uncompressHdrIphc (c : Call) (buf : Mem) (fuel : Nat) : Option Result := loop (step c) fuel (start c buf)

end

/-!
What the parts of the decompressor access: the fields of the IPv6 header are read within the packet, the context byte
apart, and each is written from its place in the header on.
-/

section

open Lib

variable {c : Call} {s s' s'' : Trace} {a e full pos n ptr : Nat} {W W' : Nat → Prop} {F F' : Prop}

/-! ## Accesses -/

def Inside (c : Call) (s : Trace) : Prop := ∀ x ∈ s.reads, x < c.pb.datalen

/-- The positions `W` are written, and what is read is within the packet when `F` holds. -/
structure Accesses (c : Call) (s s' : Trace) (W : Nat → Prop) (F : Prop) : Prop where
  reads : Inside c s' ↔ Inside c s ∧ F
  writes : ∀ x, x ∈ s'.writes ↔ x ∈ s.writes ∨ W x

theorem Accesses.trans (h : Accesses c s s' W F) (h' : Accesses c s' s'' W' F') :
    Accesses c s s'' (fun x => W x ∨ W' x) (F ∧ F') where
  reads := by rw [h'.reads, h.reads, and_assoc]
  writes := fun x => by rw [h'.writes, h.writes, or_assoc]

theorem Accesses.iff (h : Accesses c s s' W F) (hW : ∀ x, W x ↔ W' x) (hF : F ↔ F') : Accesses c s s' W' F' where
  reads := by rw [h.reads, hF]
  writes := fun x => by rw [h.writes, hW]

theorem accesses_refl (c : Call) (s : Trace) : Accesses c s s (fun _ => False) True :=
  ⟨(and_iff_left trivial).symm, fun _ => (or_iff_left id).symm⟩

theorem accesses_read (c : Call) (a n : Nat) (s : Trace) :
    Accesses c s (s.read a n) (fun _ => False) (n = 0 ∨ a + n ≤ c.pb.datalen) :=
  ⟨List.forall_mem_append.trans (and_congr_right fun _ => Cursor.range'_within), fun _ => (or_iff_left id).symm⟩

theorem accesses_read_inside (h : a + n ≤ c.pb.datalen) (s : Trace) : Accesses c s (s.read a n) (fun _ => False) True :=
  (accesses_read c a n s).iff (fun _ => Iff.rfl) (iff_of_true (.inr h) trivial)

theorem accesses_write (h : s'.reads = s.reads) (h' : s'.writes = s.writes ++ List.range' a n) :
    Accesses c s s' (fun x => a ≤ x ∧ x < a + n) True where
  reads := by
    unfold Inside
    rw [h, and_iff_left trivial]
  writes := fun x => by rw [h', List.mem_append, List.mem_range'_1]

theorem accesses_put (c : Call) (a : Nat) (b : UInt8) (s : Trace) :
    Accesses c s (s.put a b) (fun x => a ≤ x ∧ x < a + 1) True := accesses_write rfl rfl

theorem accesses_paste (c : Call) (a n : Nat) (f : Mem) (s : Trace) :
    Accesses c s (s.paste a n f) (fun x => a ≤ x ∧ x < a + n) True := accesses_write rfl rfl

theorem accesses_fill (c : Call) (a n : Nat) (b : UInt8) (s : Trace) :
    Accesses c s (s.fill a n b) (fun x => a ≤ x ∧ x < a + n) True := accesses_write rfl rfl

theorem accesses_putPort (c : Call) (a : Nat) (v : Int) (s : Trace) :
    Accesses c s (s.putPort a v) (fun x => a ≤ x ∧ x < a + 2) True := accesses_write rfl rfl

theorem Accesses.advance (h : Accesses c s s' W F) (n : Nat) : Accesses c s (s'.advance n) W F :=
  ⟨h.reads, h.writes⟩

/-! ## Fields of the header -/

def left : Except Trace Trace → Trace
  | .error s => s
  | .ok s => s

/-- A field is written from `a` up to `e`, and when the part does not fail up to `full`; what is read is within the packet
when `F` holds. -/
structure Field (c : Call) (s : Trace) (r : Except Trace Trace) (a e full : Nat) (F : Prop) : Prop where
  accesses : Accesses c s (left r) (fun x => a ≤ x ∧ x < e) F
  full : ∀ s', r = .ok s' → e = full

theorem field_error (h : Accesses c s s' (fun x => a ≤ x ∧ x < e) F) : Field c s (.error s') a e full F :=
  ⟨h, by rintro _ ⟨⟩⟩

theorem field_ok (h : Accesses c s s' (fun x => a ≤ x ∧ x < e) F) : Field c s (.ok s') a e e F := ⟨h, fun _ _ => rfl⟩

theorem accesses_none (c : Call) (s : Trace) (a : Nat) : Accesses c s s (fun x => a ≤ x ∧ x < a) True := by
  refine (accesses_refl c s).iff (fun x => ?_) Iff.rfl
  exact iff_of_false id (by omega)

def tfEnd (c : Call) (ptr : Nat) : Nat :=
  if c.iphc0 &&& iphcFlC = 0 then
    if c.iphc0 &&& iphcTcC = 0 then if ptr + 4 > c.pb.datalen then 0 else 4
    else if ptr + 3 > c.pb.datalen then 1 else 4
  else if c.iphc0 &&& iphcTcC = 0 then if ptr + 1 > c.pb.datalen then 0 else 4
  else 4

theorem uncompressTf_field (c : Call) (s : Trace) : Field c s (uncompressTf c s) 0 (tfEnd c s.ptr) 4 True := by
  unfold uncompressTf tfEnd
  dsimp only
  split
  · split
    · by_cases hroom : s.ptr + 4 > c.pb.datalen
      · rw [if_pos hroom, if_pos hroom]
        exact field_error (accesses_none c s 0)
      · rw [if_neg hroom, if_neg hroom]
        refine field_ok (Accesses.advance (Accesses.iff ((((accesses_read_inside (not_lt.1 hroom) s).trans
          (accesses_paste ..)).trans (accesses_put ..)).trans (accesses_put ..)) (fun x => ?_) ?_) 4)
        · simp only [false_or]
          omega
        · tauto
    · by_cases hroom : s.ptr + 3 > c.pb.datalen
      · rw [if_pos hroom, if_pos hroom]
        refine field_error ((accesses_put ..).iff (fun x => ?_) Iff.rfl)
        omega
      · rw [if_neg hroom, if_neg hroom]
        refine field_ok (Accesses.advance (Accesses.iff ((((accesses_put c 0 0x60 s).trans
          (accesses_read_inside (not_lt.1 hroom) _)).trans (accesses_put ..)).trans (accesses_paste ..))
          (fun x => ?_) ?_) 3)
        · simp only [or_false]
          omega
        · tauto
  · split
    · by_cases hroom : s.ptr + 1 > c.pb.datalen
      · rw [if_pos hroom, if_pos hroom]
        exact field_error (accesses_none c s 0)
      · rw [if_neg hroom, if_neg hroom]
        refine field_ok (Accesses.advance (Accesses.iff ((((accesses_read_inside (not_lt.1 hroom) s).trans
          (accesses_put ..)).trans (accesses_put ..)).trans (accesses_fill ..)) (fun x => ?_) ?_) 1)
        · simp only [false_or]
          omega
        · tauto
    · refine field_ok (((accesses_put ..).trans (accesses_fill ..)).iff (fun x => ?_) ?_)
      · omega
      · tauto

def nextHeaderEnd (c : Call) (ptr : Nat) : Nat :=
  if c.iphc0 &&& iphcNhC = 0 ∧ ptr + 1 ≤ c.pb.datalen then 7 else 6

theorem uncompressNextHeader_field (c : Call) (s : Trace) : Field c s (uncompressNextHeader c s) 6
    (nextHeaderEnd c s.ptr) (if c.iphc0 &&& iphcNhC = 0 then 7 else 6) True := by
  unfold uncompressNextHeader nextHeaderEnd
  by_cases hnh : c.iphc0 &&& iphcNhC = 0
  · rw [if_pos hnh, if_pos hnh]
    by_cases hroom : s.ptr + 1 > c.pb.datalen
    · rw [if_pos hroom, if_neg fun h => by omega]
      exact field_error (accesses_none c s 6)
    · rw [if_neg hroom, if_pos ⟨hnh, not_lt.1 hroom⟩]
      refine field_ok (Accesses.advance (Accesses.iff ((accesses_read_inside (not_lt.1 hroom) s).trans
        (accesses_put ..)) (fun x => ?_) ?_) 1)
      · simp only [false_or]
      · tauto
  · rw [if_neg hnh, if_neg hnh, if_neg fun h => hnh h.1]
    exact field_ok (accesses_none c s 6)

def hopLimitEnd (c : Call) (ptr : Nat) : Nat :=
  if c.iphc0 &&& 0x03 = 0 ∧ c.pb.datalen < ptr + 1 then 7 else 8

theorem uncompressTtl_field (c : Call) (s : Trace) : Field c s (uncompressTtl c s) 7 (hopLimitEnd c s.ptr) 8 True := by
  unfold uncompressTtl hopLimitEnd
  by_cases hhl : c.iphc0 &&& 0x03 = 0
  · rw [if_neg (not_not.2 hhl)]
    by_cases hroom : s.ptr + 1 > c.pb.datalen
    · rw [if_pos hroom, if_pos ⟨hhl, hroom⟩]
      exact field_error (accesses_none c s 7)
    · rw [if_neg hroom, if_neg fun h => hroom h.2]
      refine field_ok (Accesses.advance (Accesses.iff ((accesses_read_inside (not_lt.1 hroom) s).trans
        (accesses_put ..)) (fun x => ?_) ?_) 1)
      · simp only [false_or]
      · tauto
  · rw [if_pos hhl, if_neg fun h => hhl h.1]
    exact field_ok (accesses_put ..)

/-! ## Addresses -/

/-- How far an address at `pos` is written; the inline bytes come last. -/
def addrEnd (c : Call) (pos : Nat) (prefPostCount : UInt8) (ptr : Nat) : Nat :=
  if 0 < postCount prefPostCount ∧ c.pb.datalen < ptr + postCount prefPostCount then
    pos + (16 - postCount prefPostCount)
  else pos + 16

theorem writePrefix_accesses {pre : Option Mem} {prefcount postcount : Nat} (hcount : prefcount + postcount ≤ 16)
    (hpre : pre = none → prefcount = 0) (c : Call) (pos : Nat) (s : Trace) :
    (writePrefix pos pre prefcount postcount s).ptr = s.ptr ∧ Accesses c s (writePrefix pos pre prefcount postcount s)
      (fun x => pos ≤ x ∧ x < pos + (16 - postcount)) True := by
  unfold writePrefix
  cases pre with
  | none =>
    rw [hpre rfl] at hcount ⊢
    dsimp only
    split
    · refine ⟨rfl, (accesses_fill ..).iff (fun x => ?_) Iff.rfl⟩
      omega
    · refine ⟨rfl, (accesses_refl c s).iff (fun x => iff_of_false id ?_) Iff.rfl⟩
      omega
  | some p =>
    dsimp only
    split
    · refine ⟨rfl, ((accesses_paste ..).trans (accesses_fill ..)).iff (fun x => ?_) and_self_iff⟩
      omega
    · refine ⟨rfl, (accesses_paste ..).iff (fun x => ?_) Iff.rfl⟩
      omega

theorem uncompressAddr_field {pre : Option Mem} {conf : UInt8} (hconf : prefCount conf + postCount conf ≤ 16)
    (hpre : pre = none → prefCount conf = 0) (c : Call) (pos : Nat) (lladdr : Mem) (s : Trace) :
    Field c s (uncompressAddr c pos pre conf lladdr s) pos (addrEnd c pos conf s.ptr) (pos + 16) True := by
  obtain ⟨hptr, hbegin⟩ := writePrefix_accesses hconf hpre c pos s
  unfold uncompressAddr
  dsimp only
  generalize writePrefix pos pre (prefCount conf) (postCount conf) s = s' at hptr hbegin
  rw [← hptr]
  by_cases hpost : 0 < postCount conf
  · rw [if_pos hpost]
    by_cases hroom : s'.ptr + postCount conf > c.pb.datalen
    · have hend : addrEnd c pos conf s'.ptr = pos + (16 - postCount conf) := if_pos ⟨hpost, hroom⟩
      rw [if_pos hroom, hend]
      exact field_error hbegin
    · have hend : addrEnd c pos conf s'.ptr = pos + 16 := if_neg fun h => hroom h.2
      have hinline := (hbegin.trans (accesses_read_inside (not_lt.1 hroom) s')).trans
        (accesses_paste c (pos + (16 - postCount conf)) (postCount conf) (fun i => c.pb.byte (s'.ptr + i)) _)
      rw [if_neg hroom, hend]
      refine field_ok (Accesses.advance ?_ _)
      split
      · refine ((hinline.trans (accesses_put ..)).trans (accesses_put ..)).iff (fun x => ?_) ?_
        · simp only [or_false]
          omega
        · tauto
      · refine hinline.iff (fun x => ?_) ?_
        · simp only [or_false]
          omega
        · tauto
  · have hend : addrEnd c pos conf s'.ptr = pos + 16 := if_neg fun h => hpost h.1
    rw [if_neg hpost, hend]
    split
    · refine field_ok ((hbegin.trans (accesses_paste ..)).iff (fun x => ?_) and_self_iff)
      omega
    · refine field_ok (hbegin.iff (fun x => ?_) Iff.rfl)
      omega

theorem Field.after {r : Except Trace Trace} (h : Accesses c s s' (fun _ => False) F) (h' : Field c s' r a e full F') :
    Field c s r a e full (F ∧ F') :=
  ⟨(h.trans h'.accesses).iff (fun _ => or_iff_right id) Iff.rfl, h'.full⟩

theorem Field.iff {r : Except Trace Trace} (h : Field c s r a e full F) (he : F ↔ F') : Field c s r a e full F' :=
  ⟨h.accesses.iff (fun _ => Iff.rfl) he, h.full⟩

theorem counts_le {l : List UInt8} (h : ∀ conf ∈ l, prefCount conf + postCount conf ≤ 16) (k : Nat) :
    prefCount (l.getD k 0) + postCount (l.getD k 0) ≤ 16 := by
  rcases Nat.lt_or_ge k l.length with hk | hk
  · rw [List.getD_eq_getElem _ _ hk]
    exact h _ (List.getElem_mem hk)
  · rw [List.getD_eq_default _ _ hk]
    decide

theorem conf_le : ∀ l ∈ [uncLlconf, uncCtxconf, uncMxconf], ∀ conf ∈ l, prefCount conf + postCount conf ≤ 16 := by
  decide +kernel

theorem llconf_le (k : Nat) : prefCount (uncLlconf.getD k 0) + postCount (uncLlconf.getD k 0) ≤ 16 :=
  counts_le (conf_le _ (by simp)) k

theorem ctxconf_le (k : Nat) : prefCount (uncCtxconf.getD k 0) + postCount (uncCtxconf.getD k 0) ≤ 16 :=
  counts_le (conf_le _ (by simp)) k

theorem mxconf_le (k : Nat) : prefCount (uncMxconf.getD k 0) + postCount (uncMxconf.getD k 0) ≤ 16 :=
  counts_le (conf_le _ (by simp)) k

def ContextInside (c : Call) : Prop := c.iphc1 &&& iphcCid ≠ 0 → c.hdrLen + 3 ≤ c.pb.datalen

theorem readContext_accesses (c : Call) (s : Trace) :
    (readContext c s).ptr = s.ptr ∧ Accesses c s (readContext c s) (fun _ => False) (ContextInside c) := by
  unfold readContext ContextInside
  split
  · rename_i hcid
    refine ⟨rfl, (accesses_read ..).iff (fun _ => Iff.rfl) ?_⟩
    simp only [hcid, ne_eq, not_false_eq_true, true_implies, one_ne_zero, false_or]
  · rename_i hcid
    exact ⟨rfl, (accesses_refl c s).iff (fun _ => Iff.rfl) (iff_of_true trivial fun h => absurd h hcid)⟩

def srcConf (c : Call) : Option UInt8 :=
  let sam := ((c.iphc1 &&& 0x30) >>> 4) &&& 0x03
  if c.iphc1 &&& iphcSac ≠ 0 then
    if sam ≠ 0 then
      (addrContextLookupByNumber c.cfg (if c.iphc1 &&& iphcCid ≠ 0 then c.ctx >>> 4 else 0)).map fun _ =>
        uncCtxconf.getD sam.toNat 0
    else some (uncCtxconf.getD sam.toNat 0)
  else some (uncLlconf.getD sam.toNat 0)

def srcEnd (c : Call) (ptr : Nat) : Nat :=
  match srcConf c with
  | none => 8
  | some conf => addrEnd c 8 conf ptr

theorem uncompressSrc_field (c : Call) (s : Trace) : Field c s (uncompressSrc c s) 8 (srcEnd c s.ptr) 24
    (c.iphc1 &&& iphcSac ≠ 0 → ContextInside c) := by
  obtain ⟨hptr, hread⟩ := readContext_accesses c s
  unfold uncompressSrc srcEnd srcConf
  dsimp only
  generalize (if c.iphc1 &&& iphcCid ≠ 0 then c.ctx >>> 4 else 0) = sci
  generalize hsam : ((c.iphc1 &&& 0x30) >>> 4) &&& 0x03 = sam
  by_cases hsac : c.iphc1 &&& iphcSac ≠ 0
  · rw [if_pos hsac, if_pos hsac, ← hptr]
    have hF : ContextInside c ∧ True ↔ (c.iphc1 &&& iphcSac ≠ 0 → ContextInside c) :=
      ⟨fun h _ => h.1, fun h => ⟨h hsac, trivial⟩⟩
    refine Field.iff ?_ hF
    by_cases hzero : sam ≠ 0
    · rw [if_pos hzero, if_pos hzero]
      cases addrContextLookupByNumber c.cfg sci with
      | none => exact Field.after hread (field_error (accesses_none c _ 8))
      | some context =>
        exact Field.after hread (uncompressAddr_field (ctxconf_le _) (by rintro ⟨⟩) c 8 c.sender _)
    · rw [if_neg hzero, if_neg hzero, not_not.1 hzero]
      exact Field.after hread (uncompressAddr_field (ctxconf_le _) (fun _ => rfl) c 8 c.sender _)
  · rw [if_neg hsac, if_neg hsac]
    exact (uncompressAddr_field (llconf_le _) (by rintro ⟨⟩) c 8 c.sender s).iff
      (iff_of_true trivial fun h => absurd h hsac)

/-- How the destination address is compressed, and where its inline bytes are; nothing where it is not rebuilt. -/
def destConf (c : Call) (ptr : Nat) : Option (UInt8 × Nat) :=
  let dam := (c.iphc1 &&& 0x03) &&& 0x03
  if c.iphc1 &&& iphcM ≠ 0 then
    if c.iphc1 &&& iphcDac ≠ 0 then none
    else if 0 < dam ∧ dam < 3 then
      if ptr + 1 > c.pb.datalen then none else some (uncMxconf.getD dam.toNat 0, ptr + 1)
    else some (uncMxconf.getD dam.toNat 0, ptr)
  else if c.iphc1 &&& iphcDac ≠ 0 then
    (addrContextLookupByNumber c.cfg (if c.iphc1 &&& iphcCid ≠ 0 then c.ctx &&& 0x0f else 0)).map fun _ =>
      (uncCtxconf.getD dam.toNat 0, ptr)
  else some (uncLlconf.getD dam.toNat 0, ptr)

def destEnd (c : Call) (ptr : Nat) : Nat :=
  match destConf c ptr with
  | none => 24
  | some (conf, p) => addrEnd c 24 conf p

/-- Context based compression of a multicast address, which is not implemented. -/
def ContextMulticast (c : Call) : Prop := c.iphc1 &&& iphcM ≠ 0 ∧ c.iphc1 &&& iphcDac ≠ 0

instance (c : Call) : Decidable (ContextMulticast c) := inferInstanceAs (Decidable (_ ∧ _))

theorem uncompressDest_field (c : Call) (s : Trace) : Field c s (uncompressDest c s) 24 (destEnd c s.ptr)
    (if ContextMulticast c then 24 else 40) (c.iphc1 &&& iphcM = 0 → c.iphc1 &&& iphcDac ≠ 0 → ContextInside c) := by
  obtain ⟨hptr, hread⟩ := readContext_accesses c s
  unfold uncompressDest destEnd destConf
  dsimp only
  generalize (if c.iphc1 &&& iphcCid ≠ 0 then c.ctx &&& 0x0f else 0) = dci
  generalize (c.iphc1 &&& 0x03) &&& 0x03 = dam
  by_cases hm : c.iphc1 &&& iphcM ≠ 0
  · rw [if_pos hm, if_pos hm]
    have hF : ∀ {P : Prop}, True ↔ (c.iphc1 &&& iphcM = 0 → P) := iff_of_true trivial fun h => absurd h hm
    by_cases hdac : c.iphc1 &&& iphcDac ≠ 0
    · have hmulticast : ContextMulticast c := ⟨hm, hdac⟩
      rw [if_pos hdac, if_pos hdac, if_pos hmulticast]
      exact (field_ok (accesses_none c s 24)).iff hF
    · have hmulticast : ¬ ContextMulticast c := fun h => hdac h.2
      rw [if_neg hdac, if_neg hdac, if_neg hmulticast]
      by_cases hdam : 0 < dam ∧ dam < 3
      · rw [if_pos hdam, if_pos hdam]
        by_cases hroom : s.ptr + 1 > c.pb.datalen
        · rw [if_pos hroom, if_pos hroom]
          exact (field_error (accesses_none c s 24)).iff hF
        · rw [if_neg hroom, if_neg hroom]
          refine (Field.after ((accesses_read_inside (not_lt.1 hroom) s).advance 1)
            (uncompressAddr_field (mxconf_le _) (by rintro ⟨⟩) c 24 c.receiver _)).iff (and_self_iff.trans hF)
      · rw [if_neg hdam, if_neg hdam]
        exact (uncompressAddr_field (mxconf_le _) (by rintro ⟨⟩) c 24 c.receiver s).iff hF
  · have hmulticast : ¬ ContextMulticast c := fun h => hm h.1
    rw [if_neg hm, if_neg hm, if_neg hmulticast]
    rw [ne_eq, not_not] at hm
    by_cases hdac : c.iphc1 &&& iphcDac ≠ 0
    · rw [if_pos hdac, if_pos hdac, ← hptr]
      have hF : ContextInside c ∧ True ↔ (c.iphc1 &&& iphcM = 0 → c.iphc1 &&& iphcDac ≠ 0 → ContextInside c) :=
        ⟨fun h _ _ => h.1, fun h => ⟨h hm hdac, trivial⟩⟩
      refine Field.iff ?_ hF
      cases addrContextLookupByNumber c.cfg dci with
      | none => exact Field.after hread (field_error (accesses_none c _ 24))
      | some context =>
        exact Field.after hread (uncompressAddr_field (ctxconf_le _) (by rintro ⟨⟩) c 24 c.receiver _)
    · rw [if_neg hdac, if_neg hdac]
      exact (uncompressAddr_field (llconf_le _) (by rintro ⟨⟩) c 24 c.receiver s).iff
        (iff_of_true trivial fun _ h => absurd h hdac)

end

end Contiki.Sicslowpan.Traced
