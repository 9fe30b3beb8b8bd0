/-
IPHC header compression: `compress_hdr_iphc` on a packet in `uip_buf`, `uncompress_hdr_iphc` on a
received frame, and the address classes and contexts both consult.
-/
import Contiki.Lib.Mem

namespace Contiki.Sicslowpan

open Lib

/-! ## Header fields -/

def vtc (uip : Mem) : UInt8 := uip 0
def tcflow (uip : Mem) : UInt8 := uip 1
def proto (uip : Mem) : UInt8 := uip 6
def ttl (uip : Mem) : UInt8 := uip 7
def srcipaddr (uip : Mem) : Mem := fun i => uip (8 + i)
def destipaddr (uip : Mem) : Mem := fun i => uip (24 + i)

/-- A 16-bit field in network order, as `UIP_HTONS` reads it. -/
def port (uip : Mem) (a : Nat) : Nat := (uip a).toNat * 256 + (uip (a + 1)).toNat

def putPort (a : Nat) (v : Int) (m : Mem) : Mem :=
  (m.put a (UInt8.ofInt (v / 256))).put (a + 1) (UInt8.ofInt v)

def protoUdp : UInt8 := 17

/-- The `SICSLOWPAN_NHC_ETX_HDR_*` number of an extension header. -/
def extHdrId (proto : UInt8) : Option UInt8 :=
  if proto = 0 then some 0        -- UIP_PROTO_HBHO
  else if proto = 43 then some 1  -- UIP_PROTO_ROUTING
  else if proto = 44 then some 2  -- UIP_PROTO_FRAG
  else if proto = 60 then some 3  -- UIP_PROTO_DESTO
  else none

def isCompressableProto (x : UInt8) : Bool :=
  x == protoUdp || x == 0 || x == 60 || x == 43 || x == 44

/-! ## Addresses -/

/-- `UIP_LLADDR_LEN`: long and short 802.15.4 addresses, or a six-byte address. -/
inductive LladdrKind where
  | long
  | short
  | eth
  deriving DecidableEq, Repr

/-- `a->u16[i] == 0`. -/
def u16Zero (a : Mem) (i : Nat) : Bool := a (2 * i) == 0 && a (2 * i + 1) == 0

def isAddrUnspecified (a : Mem) : Bool := (List.range 8).all (u16Zero a)

def isAddrLinklocal (a : Mem) : Bool := a 0 == 0xfe && a 1 == 0x80

def isAddrMcast (a : Mem) : Bool := a 0 == 0xff

def isIid16BitCompressable (a : Mem) : Bool :=
  u16Zero a 4 && a 10 == 0 && a 11 == 0xff && a 12 == 0xfe && a 13 == 0

def isMcastAddrCompressable8 (a : Mem) : Bool :=
  a 1 == 2 && u16Zero a 1 && u16Zero a 2 && u16Zero a 3 && u16Zero a 4 && u16Zero a 5 && u16Zero a 6 && a 14 == 0

def isMcastAddrCompressable32 (a : Mem) : Bool :=
  u16Zero a 1 && u16Zero a 2 && u16Zero a 3 && u16Zero a 4 && u16Zero a 5 && a 12 == 0

def isMcastAddrCompressable48 (a : Mem) : Bool :=
  u16Zero a 1 && u16Zero a 2 && u16Zero a 3 && u16Zero a 4 && a 10 == 0

/-- `uip_is_addr_mac_addr_based`. -/
def isAddrMacAddrBased (kind : LladdrKind) (a lladdr : Mem) : Bool :=
  match kind with
  | .long => a 8 == lladdr 0 ^^^ 0x02 && a 9 == lladdr 1 && a 10 == lladdr 2 && a 11 == lladdr 3 &&
      a 12 == lladdr 4 && a 13 == lladdr 5 && a 14 == lladdr 6 && a 15 == lladdr 7
  | .short => u16Zero a 4 && a 10 == 0 && a 11 == 0xff && a 12 == 0xfe && a 13 == 0 &&
      a 14 == lladdr 0 && a 15 == lladdr 1
  | .eth => a 8 == lladdr 0 ||| 0x02 && a 9 == lladdr 1 && a 10 == lladdr 2 && a 11 == 0xff &&
      a 12 == 0xfe && a 13 == lladdr 3 && a 14 == lladdr 4 && a 15 == lladdr 5

/-- The interface identifier `uip_ds6_set_addr_iid` derives from a link-layer address. -/
def lladdrIid (kind : LladdrKind) (lladdr : Mem) : List UInt8 :=
  match kind with
  | .long => [lladdr 0 ^^^ 0x02, lladdr 1, lladdr 2, lladdr 3, lladdr 4, lladdr 5, lladdr 6, lladdr 7]
  | .short => [0, 0, 0, 0xff, 0xfe, 0, lladdr 0, lladdr 1]
  | .eth => [lladdr 0 ^^^ 0x02, lladdr 1, lladdr 2, 0xff, 0xfe, lladdr 3, lladdr 4, lladdr 5]

/-- `uip_ds6_set_addr_iid`. -/
def ds6SetAddrIid (kind : LladdrKind) (lladdr a : Mem) : Mem :=
  Mem.paste 8 8 (fun i => (lladdrIid kind lladdr).getD i 0) a

/-- `struct sicslowpan_addr_context`. -/
structure AddrContext where
  used : UInt8
  number : UInt8
  ctxPrefix : Mem

/-- What both ends are compiled with; `sicslowpan_init` numbers the contexts from 0 on, and four bits
of the context byte hold a number. -/
structure Config where
  kind : LladdrKind
  addrContexts : List AddrContext
  number_lt : ∀ c ∈ addrContexts, c.number < 16
  number_inj : ∀ c ∈ addrContexts, ∀ c' ∈ addrContexts, c.used = 1 → c'.used = 1 → c.number = c'.number → c = c'

def plainConfig : Config := ⟨.long, [], fun _ h => absurd h List.not_mem_nil, fun _ h => absurd h List.not_mem_nil⟩

def addrContextLookupByPrefix (cfg : Config) (a : Mem) : Option AddrContext :=
  cfg.addrContexts.find? fun c => c.used == 1 && (List.range 8).all fun i => c.ctxPrefix i == a i

def addrContextLookupByNumber (cfg : Config) (number : UInt8) : Option AddrContext :=
  cfg.addrContexts.find? fun c => c.used == 1 && c.number == number

/-! ## Encoding bits -/

def dispatchIphc : UInt8 := 0x60
def iphcFlC : UInt8 := 0x10
def iphcTcC : UInt8 := 0x08
def iphcNhC : UInt8 := 0x04
def iphcCid : UInt8 := 0x80
def iphcSac : UInt8 := 0x40
def iphcM : UInt8 := 0x08
def iphcDac : UInt8 := 0x04
def iphcSamBit : UInt8 := 4
def iphcDamBit : UInt8 := 0
def nhcExtHdr : UInt8 := 0xe0
def nhcMask : UInt8 := 0xf0
def nhcBit : UInt8 := 0x01
def nhcUdpMask : UInt8 := 0xf8
def nhcUdpId : UInt8 := 0xf0
def nhcUdpChecksumc : UInt8 := 0x04
def nhcUdpCsP00 : UInt8 := 0xf0
def nhcUdpCsP01 : UInt8 := 0xf1
def nhcUdpCsP10 : UInt8 := 0xf2
def nhcUdpCsP11 : UInt8 := 0xf3
def udp4BitPortMin : Nat := 0xf0b0
def udp8BitPortMin : Nat := 0xf000

/-! ## Compression -/

/-- An encoding field: the bits it sets in its encoding byte and the bytes it leaves inline. -/
abbrev Encoded := UInt8 × List UInt8

/-- The traffic class as IPHC has it, ECN before DSCP. -/
def tcIphc (uip : Mem) : UInt8 :=
  let tmp := (vtc uip <<< 4) ||| (tcflow uip >>> 4)
  ((tmp &&& 0x03) <<< 6) ||| (tmp >>> 2)

def compressTf (uip : Mem) : Encoded :=
  if tcflow uip &&& 0x0f = 0 ∧ uip 2 = 0 ∧ uip 3 = 0 then
    if vtc uip &&& 0x0f = 0 ∧ tcflow uip &&& 0xf0 = 0 then (iphcFlC ||| iphcTcC, [])
    else (iphcFlC, [tcIphc uip])
  else if vtc uip &&& 0x0f = 0 ∧ tcflow uip &&& 0xf0 = 0 then
    (iphcTcC, [(tcIphc uip &&& 0xc0) ||| (tcflow uip &&& 0x0f), uip 2, uip 3])
  else (0, [tcIphc uip, uip 1, uip 2, uip 3])

def compressNextHeader (uip : Mem) : Encoded :=
  if isCompressableProto (proto uip) then (iphcNhC, []) else (0, [proto uip])

def compressTtl (uip : Mem) : Encoded :=
  if ttl uip = 1 then (1, [])
  else if ttl uip = 64 then (2, [])
  else if ttl uip = 255 then (3, [])
  else (0, [ttl uip])

def compressAddr64 (cfg : Config) (bitpos : UInt8) (a lladdr : Mem) : Encoded :=
  if isAddrMacAddrBased cfg.kind a lladdr then (3 <<< bitpos, [])
  else if isIid16BitCompressable a then (2 <<< bitpos, Mem.read 14 2 a)
  else (1 <<< bitpos, Mem.read 8 8 a)

/-- Source address; the middle component goes into the context byte. -/
@[grind =]
def compressSrc (cfg : Config) (uip lladdr : Mem) : UInt8 × UInt8 × List UInt8 :=
  let src := srcipaddr uip
  let dst := destipaddr uip
  if isAddrUnspecified src then (iphcSac, 0, [])
  else match addrContextLookupByPrefix cfg src with
    | some c =>
      let e := compressAddr64 cfg iphcSamBit src lladdr
      (iphcCid ||| iphcSac ||| e.1, c.number <<< 4, e.2)
    | none =>
      -- the test reads the prefix of the destination, not of the source
      if isAddrLinklocal src && u16Zero dst 1 && u16Zero dst 2 && u16Zero dst 3 then
        let e := compressAddr64 cfg iphcSamBit src lladdr
        (e.1, 0, e.2)
      else (0, 0, Mem.read 0 16 src)

def compressDest (cfg : Config) (uip lladdr : Mem) : UInt8 × UInt8 × List UInt8 :=
  let dst := destipaddr uip
  if isAddrMcast dst then
    if isMcastAddrCompressable8 dst then (iphcM ||| 3, 0, [dst 15])
    else if isMcastAddrCompressable32 dst then (iphcM ||| 2, 0, dst 1 :: Mem.read 13 3 dst)
    else if isMcastAddrCompressable48 dst then (iphcM ||| 1, 0, dst 1 :: Mem.read 11 5 dst)
    else (iphcM, 0, Mem.read 0 16 dst)
  else match addrContextLookupByPrefix cfg dst with
    | some c =>
      let e := compressAddr64 cfg iphcDamBit dst lladdr
      (iphcDac ||| e.1, c.number, e.2)
    | none =>
      if isAddrLinklocal dst && u16Zero dst 1 && u16Zero dst 2 && u16Zero dst 3 then
        let e := compressAddr64 cfg iphcDamBit dst lladdr
        (e.1, 0, e.2)
      else (0, 0, Mem.read 0 16 dst)

/-- The port part of a compressed UDP header: the NHC byte and the bytes after it. -/
def compressPorts (uip : Mem) (pos : Nat) : Encoded :=
  let src := port uip pos
  let dst := port uip (pos + 2)
  if src &&& 0xfff0 = udp4BitPortMin ∧ dst &&& 0xfff0 = udp4BitPortMin then
    (nhcUdpCsP11, [UInt8.ofNat ((src - udp4BitPortMin) <<< 4) + UInt8.ofNat (dst - udp4BitPortMin)])
  else if dst &&& 0xff00 = udp8BitPortMin then
    (nhcUdpCsP01, [uip pos, uip (pos + 1), UInt8.ofNat (dst - udp8BitPortMin)])
  else if src &&& 0xff00 = udp8BitPortMin then
    (nhcUdpCsP10, [UInt8.ofNat (src - udp8BitPortMin), uip (pos + 2), uip (pos + 3)])
  else (nhcUdpCsP00, [uip pos, uip (pos + 1), uip (pos + 2), uip (pos + 3)])

/-- The UDP case of the NHC loop, `ptr` behind the NHC byte. -/
def compressUdp (mac : Nat) (uip : Mem) (pos ptr : Nat) : Option (List UInt8) :=
  let e := compressPorts uip pos
  if ptr + e.2.length ≥ mac then none
  else if ptr + e.2.length + 2 ≥ mac then none
  else some (e.1 :: (e.2 ++ Mem.read (pos + 6) 2 uip))

/-- Octets of the extension header at `pos`. -/
def extLen (uip : Mem) (pos : Nat) : Nat := (uip (pos + 1)).toNat * 8 + 8

/-- The loop over the compressible headers: `ext` octets of extension headers are done, the next
encoding byte goes to `ptr`, and nothing is written at or after `mac`. -/
@[grind =]
def compressNhc (mac : Nat) (uip : Mem) : Nat → UInt8 → Nat → Nat → Option (List UInt8)
  | 0, _, _, _ => none
  | fuel + 1, nextHdr, ext, ptr =>
    match extHdrId nextHdr with
    | some id =>
      let len := extLen uip (40 + ext)
      let next := uip (40 + ext)
      -- a next header that is not elided gets a byte behind the NHC byte
      let kept := if isCompressableProto next then [] else [next]
      if kept ≠ [] ∧ ptr + 1 ≥ mac then none
      else if ptr + kept.length + len ≥ mac then none
      else
        let nhc := nhcExtHdr ||| (if isCompressableProto next then nhcBit else 0) ||| (id <<< 1)
        (compressNhc mac uip fuel next (ext + len) (ptr + kept.length + len)).map fun rest =>
          nhc :: (kept ++ UInt8.ofNat (len - 2) :: (Mem.read (40 + ext + 2) (len - 2) uip ++ rest))
    | none => if nextHdr = protoUdp then compressUdp mac uip (40 + ext) (ptr + 1) else some []

/-- `compress_hdr_iphc`: what it writes from `packetbuf_ptr + hdrLen` on. -/
def compressHdrIphc (cfg : Config) (mac : Nat) (uip lladdr receiver : Mem) (hdrLen : Nat) : Option (List UInt8) :=
  if hdrLen + 2 + 38 ≥ mac then none
  else
    let src := compressSrc cfg uip lladdr
    let dst := compressDest cfg uip receiver
    let hasCtx := (addrContextLookupByPrefix cfg (srcipaddr uip)).isSome ||
      (addrContextLookupByPrefix cfg (destipaddr uip)).isSome
    let ctx := if hasCtx then [src.2.1 ||| dst.2.1] else []
    let tf := compressTf uip
    let nh := compressNextHeader uip
    let hl := compressTtl uip
    let iphc0 := dispatchIphc ||| tf.1 ||| nh.1 ||| hl.1
    let iphc1 := (if hasCtx then iphcCid else 0) ||| src.1 ||| dst.1
    let hdr := iphc0 :: iphc1 :: (ctx ++ tf.2 ++ nh.2 ++ hl.2 ++ src.2.2 ++ dst.2.2)
    (compressNhc mac uip mac (proto uip) 0 (hdrLen + hdr.length)).map (hdr ++ ·)

/-! ## Decompression -/

/-- The received frame: `packetbuf_ptr` and `packetbuf_datalen()`. -/
structure Packetbuf where
  byte : Mem
  datalen : Nat

/-- The target buffer and `iphc_ptr - packetbuf_ptr`. -/
structure Unc where
  buf : Mem
  ptr : Nat

/-- `CHECK_READ_SPACE`; a failure leaves what has been written so far. -/
def checkReadSpace (pb : Packetbuf) (s : Unc) (n : Nat) : Except Mem Unit :=
  if s.ptr + n > pb.datalen then .error s.buf else .ok ()

def uncompressTf (pb : Packetbuf) (iphc0 : UInt8) (s : Unc) : Except Mem Unc :=
  let b : UInt8 := pb.byte s.ptr
  let down : UInt8 := b >>> 2
  let up : UInt8 := b <<< 6
  if iphc0 &&& iphcFlC = 0 then
    if iphc0 &&& iphcTcC = 0 then do
      checkReadSpace pb s 4
      let low := pb.byte (s.ptr + 1) &&& 0x0f
      let buf := Mem.paste 1 3 (fun i => pb.byte (s.ptr + 1 + i)) s.buf
      let buf := buf.put 0 (0x60 ||| (down &&& 0x0f))
      .ok ⟨buf.put 1 ((down &&& 0x30) ||| up ||| low), s.ptr + 4⟩
    else do
      let s := { s with buf := s.buf.put 0 0x60 }
      checkReadSpace pb s 3
      let buf := s.buf.put 1 ((b &&& 0x0f) ||| (down &&& 0x30))
      .ok ⟨Mem.paste 2 2 (fun i => pb.byte (s.ptr + 1 + i)) buf, s.ptr + 3⟩
  else if iphc0 &&& iphcTcC = 0 then do
    checkReadSpace pb s 1
    let buf := s.buf.put 0 (0x60 ||| (down &&& 0x0f))
    let buf := buf.put 1 ((up &&& 0xc0) ||| (down &&& 0x30))
    .ok ⟨Mem.fill 2 2 0 buf, s.ptr + 1⟩
  else .ok ⟨Mem.fill 1 3 0 (s.buf.put 0 0x60), s.ptr⟩

def uncompressNextHeader (pb : Packetbuf) (iphc0 : UInt8) (s : Unc) : Except Mem Unc :=
  if iphc0 &&& iphcNhC = 0 then do
    checkReadSpace pb s 1
    .ok ⟨s.buf.put 6 (pb.byte s.ptr), s.ptr + 1⟩
  else .ok s

def ttlValues : List UInt8 := [0, 1, 64, 255]

def uncompressTtl (pb : Packetbuf) (iphc0 : UInt8) (s : Unc) : Except Mem Unc :=
  if iphc0 &&& 0x03 ≠ 0 then .ok { s with buf := s.buf.put 7 (ttlValues.getD (iphc0 &&& 0x03).toNat 0) }
  else do
    checkReadSpace pb s 1
    .ok ⟨s.buf.put 7 (pb.byte s.ptr), s.ptr + 1⟩

def uncLlconf : List UInt8 := [0x0f, 0x28, 0x22, 0x20]
def uncCtxconf : List UInt8 := [0x00, 0x88, 0x82, 0x80]
def uncMxconf : List UInt8 := [0x0f, 0x25, 0x23, 0x21]

def llprefix : Mem := fun i => [0xfe, 0x80].getD i 0

/-- A nibble of `pref_post_count`, 15 standing for 16. -/
def nibbleCount (n : Nat) : Nat := if n = 15 then 16 else n

/-- `uncompress_addr` on the 16 bytes at `at`. -/
def uncompressAddr (cfg : Config) (pb : Packetbuf) (pos : Nat) (pre : Option Mem) (prefPostCount : UInt8)
    (lladdr : Mem) (s : Unc) : Except Mem Unc :=
  let prefcount := nibbleCount (prefPostCount >>> 4).toNat
  let postcount := nibbleCount (prefPostCount &&& 0x0f).toNat
  let a : Mem := fun i => s.buf (pos + i)
  let a := match pre with
    | some p => Mem.paste 0 prefcount p a
    | none => a
  let a := if prefcount + postcount < 16 then Mem.fill prefcount (16 - (prefcount + postcount)) 0 a else a
  if 0 < postcount then
    if s.ptr + postcount > pb.datalen then .error (Mem.paste pos 16 a s.buf)
    else
      let a := Mem.paste (16 - postcount) postcount (fun i => pb.byte (s.ptr + i)) a
      let a := if postcount = 2 ∧ prefcount < 11 then (a.put 11 0xff).put 12 0xfe else a
      .ok ⟨Mem.paste pos 16 a s.buf, s.ptr + postcount⟩
  else
    let a := if 0 < prefcount then ds6SetAddrIid cfg.kind lladdr a else a
    .ok ⟨Mem.paste pos 16 a s.buf, s.ptr⟩

/-- Source address; `ctx` is the context byte. -/
def uncompressSrc (cfg : Config) (pb : Packetbuf) (iphc1 ctx : UInt8) (sender : Mem) (s : Unc) : Except Mem Unc :=
  let sam := ((iphc1 &&& 0x30) >>> 4) &&& 0x03
  if iphc1 &&& iphcSac ≠ 0 then
    let sci := if iphc1 &&& iphcCid ≠ 0 then ctx >>> 4 else 0
    if sam ≠ 0 then
      match addrContextLookupByNumber cfg sci with
      | none => .error s.buf
      | some c => uncompressAddr cfg pb 8 (some c.ctxPrefix) (uncCtxconf.getD sam.toNat 0) sender s
    else uncompressAddr cfg pb 8 none (uncCtxconf.getD sam.toNat 0) sender s
  else uncompressAddr cfg pb 8 (some llprefix) (uncLlconf.getD sam.toNat 0) sender s

def uncompressDest (cfg : Config) (pb : Packetbuf) (iphc1 ctx : UInt8) (receiver : Mem) (s : Unc) :
    Except Mem Unc :=
  let dam := (iphc1 &&& 0x03) &&& 0x03
  if iphc1 &&& iphcM ≠ 0 then
    -- context based multicast is not implemented and leaves the address as it is
    if iphc1 &&& iphcDac ≠ 0 then .ok s
    else if 0 < dam ∧ dam < 3 then do
      checkReadSpace pb s 1
      let pre : Mem := fun i => [0xff, pb.byte s.ptr].getD i 0
      uncompressAddr cfg pb 24 (some pre) (uncMxconf.getD dam.toNat 0) receiver { s with ptr := s.ptr + 1 }
    else
      uncompressAddr cfg pb 24 (some fun i => [0xff, 0x02].getD i 0) (uncMxconf.getD dam.toNat 0) receiver s
  else if iphc1 &&& iphcDac ≠ 0 then
    let dci := if iphc1 &&& iphcCid ≠ 0 then ctx &&& 0x0f else 0
    match addrContextLookupByNumber cfg dci with
    | none => .error s.buf
    | some c => uncompressAddr cfg pb 24 (some c.ctxPrefix) (uncCtxconf.getD dam.toNat 0) receiver s
  else uncompressAddr cfg pb 24 (some llprefix) (uncLlconf.getD dam.toNat 0) receiver s

/-- State of the next-header loop: `last_nextheader` and `ip_payload` as offsets into the buffer, the
counters `ext_hdr_len` and `uncomp_hdr_len` of eight bits. -/
structure Nhc extends Unc where
  nhc : Bool
  lastNextheader : Nat
  ipPayload : Nat
  extHdrLen : Nat
  uncompHdrLen : Nat

/-- The header a `SICSLOWPAN_NHC_ETX_HDR_*` number stands for. -/
def extHdrProto (eid : UInt8) : Option UInt8 :=
  if eid = 0 then some 0
  else if eid = 1 then some 43
  else if eid = 2 then some 44
  else if eid = 3 then some 60
  else none

/-- Writes an extension header at `ip_payload`: `len` bytes at `ptr` behind its next-header and length
bytes. -/
def writeExtHdr (pb : Packetbuf) (bufSize : Nat) (s : Nhc) (nh : Bool) (proto next : UInt8) (len ptr : Nat) :
    Except Mem Nhc :=
  let buf := s.buf.put s.lastNextheader proto
  if s.ipPayload + 2 + len > bufSize then .error buf
  else if (2 + len) / 8 = 0 then .error (buf.put (s.ipPayload + 1) 0)
  else do
    let octets := (2 + len) / 8 * 8
    let buf := (buf.put (s.ipPayload + 1) (UInt8.ofNat ((2 + len) / 8 - 1))).put s.ipPayload next
    checkReadSpace pb ⟨buf, ptr⟩ (len + 1)
    .ok { buf := Mem.paste (s.ipPayload + 2) len (fun i => pb.byte (ptr + i)) buf
          ptr := ptr + len
          nhc := nh
          lastNextheader := s.ipPayload
          ipPayload := s.ipPayload + octets
          extHdrLen := (s.extHdrLen + octets) % 256
          uncompHdrLen := (s.uncompHdrLen + octets) % 256 }

@[grind =]
def uncompressExtHdr (pb : Packetbuf) (bufSize : Nat) (s : Nhc) : Except Mem Nhc := do
  let b : UInt8 := pb.byte s.ptr
  let nh := b &&& 0x01
  let ptr := s.ptr + 1
  checkReadSpace pb ⟨s.buf, ptr⟩ 1
  let next := if nh = 0 then pb.byte ptr else 0
  let ptr := if nh = 0 then ptr + 1 else ptr
  checkReadSpace pb ⟨s.buf, ptr⟩ 1
  let len := (pb.byte ptr).toNat
  match extHdrProto ((b &&& 0x0e) >>> 1) with
  | none => .error s.buf
  | some proto => writeExtHdr pb bufSize s (nh ≠ 0) proto next len (ptr + 1)

/-- The extension header loop; every round reads at least two bytes. -/
@[grind =]
def uncompressExt (pb : Packetbuf) (bufSize : Nat) : Nat → Nhc → Except Mem Nhc
  | 0, s => .error s.buf
  | fuel + 1, s =>
    if s.nhc ∧ pb.byte s.ptr &&& nhcMask = nhcExtHdr then do
      uncompressExt pb bufSize fuel (← uncompressExtHdr pb bufSize s)
    else .ok s

/-- The ports of a compressed UDP header, written at `ip_payload`. -/
def uncompressPorts (pb : Packetbuf) (s : Nhc) : Except Mem Unc :=
  let b : UInt8 := pb.byte s.ptr
  let pos := s.ipPayload
  let mode := b &&& nhcUdpCsP11
  if mode = nhcUdpCsP00 then do
    checkReadSpace pb s.toUnc 5
    .ok ⟨Mem.paste pos 4 (fun i => pb.byte (s.ptr + 1 + i)) s.buf, s.ptr + 5⟩
  else if mode = nhcUdpCsP01 then do
    checkReadSpace pb s.toUnc 4
    let buf := Mem.paste pos 2 (fun i => pb.byte (s.ptr + 1 + i)) s.buf
    .ok ⟨putPort (pos + 2) (udp8BitPortMin + (pb.byte (s.ptr + 3)).toNat) buf, s.ptr + 4⟩
  else if mode = nhcUdpCsP10 then do
    checkReadSpace pb s.toUnc 4
    let buf := putPort pos (udp8BitPortMin + (pb.byte (s.ptr + 1)).toNat) s.buf
    .ok ⟨Mem.paste (pos + 2) 2 (fun i => pb.byte (s.ptr + 2 + i)) buf, s.ptr + 4⟩
  else if mode = nhcUdpCsP11 then do
    checkReadSpace pb s.toUnc 2
    let p : UInt8 := pb.byte (s.ptr + 1)
    let buf := putPort pos (udp4BitPortMin + (p >>> 4).toNat) s.buf
    .ok ⟨putPort (pos + 2) (udp4BitPortMin + (p &&& 0x0f).toNat) buf, s.ptr + 2⟩
  else .error s.buf

def uncompressUdp (pb : Packetbuf) (bufSize ipLen : Nat) (s : Nhc) : Except Mem Nhc :=
  if s.nhc ∧ pb.byte s.ptr &&& nhcUdpMask = nhcUdpId then
    if s.ipPayload + 8 > bufSize then .error s.buf
    else do
      let s := { s with buf := s.buf.put s.lastNextheader protoUdp }
      let p ← uncompressPorts pb s
      let p ← (if pb.byte s.ptr &&& nhcUdpChecksumc = 0 then do
          checkReadSpace pb p 2
          .ok ⟨Mem.paste (s.ipPayload + 6) 2 (fun i => pb.byte (p.ptr + i)) p.buf, p.ptr + 2⟩
        else .ok p : Except Mem Unc)
      let udpLen : Int := if ipLen = 0 then 8 + pb.datalen - p.ptr else ipLen - 40 - s.extHdrLen
      .ok { s with
        buf := putPort (s.ipPayload + 4) udpLen p.buf
        ptr := p.ptr
        uncompHdrLen := (s.uncompHdrLen + 8) % 256 }
  else .ok s

/-- What a successful `uncompress_hdr_iphc` leaves: the buffer, `packetbuf_hdr_len` and
`uncomp_hdr_len`. -/
structure Uncompressed where
  buf : Mem
  packetbufHdrLen : Nat
  uncompHdrLen : Nat

def uncompressTail (pb : Packetbuf) (bufSize ipLen : Nat) (s : Nhc) : Except Mem Uncompressed := do
  checkReadSpace pb s.toUnc 1
  let s ← uncompressUdp pb bufSize ipLen s
  let hdrLen := s.ptr % 256
  let len : Int := if ipLen = 0 then pb.datalen - hdrLen + s.uncompHdrLen - 40 else ipLen - 40
  .ok ⟨putPort 4 len s.buf, hdrLen, s.uncompHdrLen⟩

def uncompressNhc (pb : Packetbuf) (bufSize ipLen : Nat) (s : Nhc) : Except Mem Uncompressed := do
  checkReadSpace pb s.toUnc 1
  uncompressTail pb bufSize ipLen (← uncompressExt pb bufSize (pb.datalen + 1) s)

/-- `uncompress_hdr_iphc`, with `packetbuf_hdr_len` and `uncomp_hdr_len` as they are at the call. -/
def uncompressHdrIphc (cfg : Config) (pb : Packetbuf) (sender receiver : Mem) (hdrLen uncompHdrLen : Nat)
    (buf : Mem) (bufSize ipLen : Nat) : Except Mem Uncompressed :=
  if pb.datalen < hdrLen + 2 then .error buf
  else do
    let iphc0 := pb.byte hdrLen
    let iphc1 := pb.byte (hdrLen + 1)
    let ctx := pb.byte (hdrLen + 2)
    let s ← uncompressTf pb iphc0 ⟨buf, if iphc1 &&& iphcCid ≠ 0 then hdrLen + 3 else hdrLen + 2⟩
    let s ← uncompressNextHeader pb iphc0 s
    let s ← uncompressTtl pb iphc0 s
    let s ← uncompressSrc cfg pb iphc1 ctx sender s
    let s ← uncompressDest cfg pb iphc1 ctx receiver s
    uncompressNhc pb bufSize ipLen
      { s with
        nhc := iphc0 &&& iphcNhC ≠ 0
        lastNextheader := 6
        ipPayload := 40
        extHdrLen := 0
        uncompHdrLen := (uncompHdrLen + 40) % 256 }

end Contiki.Sicslowpan
