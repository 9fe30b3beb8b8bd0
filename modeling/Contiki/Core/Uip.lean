/-
IPv6 addresses as the protocol modules take them apart: 16 bytes, the first 8 the prefix and the last
8 the interface identifier.
-/
import Mathlib.Tactic
import Contiki.Lib.Mem

namespace Contiki.Core

section

instance neZeroSixteen : NeZero 16 := ⟨by decide⟩

/-- `uip_ipaddr_t`. -/
abbrev Ipaddr := Fin 16 → UInt8

abbrev Half := Fin 8 → UInt8

namespace Ipaddr

def net (addr : Ipaddr) : Half := fun i => addr ⟨i.val, by omega⟩

def iid (addr : Ipaddr) : Half := fun i => addr ⟨i.val + 8, by omega⟩

def join (net iid : Half) : Ipaddr := fun i =>
  if h : i.val < 8 then net ⟨i.val, h⟩ else iid ⟨i.val - 8, by omega⟩

@[simp] theorem net_join (n i : Half) : (join n i).net = n := by
  funext k
  simp [net, join]

@[simp] theorem iid_join (n i : Half) : (join n i).iid = i := by
  funext k
  simp [iid, join]

@[simp] theorem join_halves (addr : Ipaddr) : join addr.net addr.iid = addr := by
  funext k
  unfold join net iid
  split
  · rfl
  · congr 1
    apply Fin.ext
    simp only
    omega

theorem join_eq_iff {n i : Half} {addr : Ipaddr} : join n i = addr ↔ n = addr.net ∧ i = addr.iid := by
  constructor
  · rintro rfl
    simp
  · rintro ⟨rfl, rfl⟩
    simp

end Ipaddr

end

/-!
The packet buffer of uipbuf.c: `uip_buf` with `uip_len` and `uip_ext_len`, and the walk along the
next-header bytes of a packet. Over it a datagram as a value: extension headers that are as long as
they say, an upper-layer header with its payload, and what it means that the buffer carries them.
Pointers into `uip_buf` are offsets.
-/

section

open Lib

/-! ## Constants -/

def protoTcp : UInt8 := 6
def protoUdp : UInt8 := 17
def protoIcmp6 : UInt8 := 58
def protoHbho : UInt8 := 0
def protoRouting : UInt8 := 43

/-- `UIP_LINK_MTU`. -/
def linkMtu : Nat := 1280

/-- `UIP_IPH_LEN`. -/
def iphLen : Nat := 40

/-- `uip_is_proto_ext_hdr`. -/
def isProtoExtHdr (proto : UInt8) : Bool := proto != protoTcp && proto != protoUdp && proto != protoIcmp6

/-! ## The buffer -/

structure Uip where
  buf : Mem
  len : Nat
  extLen : Nat

namespace Uip

def proto (u : Uip) : UInt8 := u.buf 6
def ttl (u : Uip) : UInt8 := u.buf 7
def srcipaddr (u : Uip) : Ipaddr := fun i => u.buf (8 + i)
def destipaddr (u : Uip) : Ipaddr := fun i => u.buf (24 + i)

/-- `uipbuf_get_len_field`. -/
def lenField (u : Uip) : Nat := (u.buf 4).toNat * 256 + (u.buf 5).toNat

/-- `uipbuf_set_len_field`. -/
def setLenField (u : Uip) (len : Nat) : Uip :=
  { u with buf := (u.buf.put 4 (UInt8.ofNat (len / 256))).put 5 (UInt8.ofNat (len % 256)) }

/-- `uipbuf_add_ext_hdr`, nothing when it returns false. -/
def addExtHdr (u : Uip) (len : Int) : Option Uip :=
  if len + u.len ≤ linkMtu ∧ 0 ≤ len + u.len ∧ 0 ≤ len + u.extLen then
    some { u with extLen := (u.extLen + len).toNat, len := (u.len + len).toNat }
  else
    none

end Uip

/-- The bytes that `uipbuf_get_next_header` wants of an upper-layer header. -/
def upperHdrLen (proto : UInt8) : Nat :=
  if proto = protoTcp then 20 else if proto = protoUdp then 8 else if proto = protoIcmp6 then 4 else 0

/-- `uipbuf_get_next_header` for the header at `pos`: the protocol of the next header, and where it
stands. -/
def getNextHeader (buf : Mem) (pos size : Nat) (start : Bool) : UInt8 × Option Nat :=
  let protocol := if start then buf (pos + 6) else buf pos
  let currHdrLen := if start then iphLen else (buf (pos + 1)).toNat * 8 + 8
  let nextHeader := pos + currHdrLen
  if size < currHdrLen then
    (protocol, none)
  else if isProtoExtHdr protocol = true ∧ size < currHdrLen + 2 then
    (protocol, none)
  else
    let nextHdrLen := if isProtoExtHdr protocol then (buf (nextHeader + 1)).toNat * 8 + 8 else upperHdrLen protocol
    if nextHdrLen = 0 ∨ size < currHdrLen + nextHdrLen then (protocol, none) else (protocol, some nextHeader)

/-- The loop of `uipbuf_search_header`; a header is at least 8 bytes long, so there are fewer headers
than bytes. -/
@[grind =]
def searchLoop (buf : Mem) (size : Nat) (protocol : UInt8) : Nat → UInt8 × Option Nat → Option Nat
  | 0, _ => none
  | _ + 1, (_, none) => none
  | fuel + 1, (nextProto, some nbuf) =>
    if nextProto = protocol then
      some nbuf
    else if isProtoExtHdr nextProto then
      searchLoop buf size protocol fuel (getNextHeader buf nbuf (size - nbuf) false)
    else
      none

/-- `uipbuf_search_header`. -/
def searchHeader (buf : Mem) (size : Nat) (protocol : UInt8) : Option Nat :=
  searchLoop buf size protocol (size + 1) (getNextHeader buf 0 size true)

/-! ## Datagrams -/

/-- An extension header less its first byte, which names the header behind it. -/
structure ExtHdr where
  proto : UInt8
  len : UInt8
  data : List UInt8
  ext : isProtoExtHdr proto = true
  length : data.length = 8 * len.toNat + 6

/-- An upper-layer header and the payload behind it. -/
structure Upper where
  proto : UInt8
  data : List UInt8
  upper : isProtoExtHdr proto = false
  length : upperHdrLen proto ≤ data.length

@[grind =]
def firstProto : List ExtHdr → Upper → UInt8
  | [], up => up.proto
  | e :: _, _ => e.proto

@[grind =]
def chainBytes : List ExtHdr → Upper → List UInt8
  | [], _ => []
  | e :: es, up => firstProto es up :: e.len :: (e.data ++ chainBytes es up)

/-- The buffer holds a packet for `dest` with these headers, and every length agrees. -/
structure Carries (u : Uip) (dest : Ipaddr) (exts : List ExtHdr) (up : Upper) : Prop where
  dest : u.destipaddr = dest
  proto : u.proto = firstProto exts up
  bytes : Mem.Holds iphLen (chainBytes exts up ++ up.data) u.buf
  len : u.len = iphLen + (chainBytes exts up).length + up.data.length
  extLen : u.extLen = (chainBytes exts up).length
  field : u.lenField = u.len - iphLen
  mtu : u.len ≤ linkMtu

variable {u : Uip} {dest : Ipaddr} {exts es : List ExtHdr} {up : Upper} {buf : Mem} {pos size : Nat}

/-! ## The length field -/

@[simp] theorem Uip.setLenField_len (u : Uip) (n : Nat) : (u.setLenField n).len = u.len := rfl

@[simp] theorem Uip.setLenField_extLen (u : Uip) (n : Nat) : (u.setLenField n).extLen = u.extLen := rfl

theorem Uip.setLenField_buf {n x : Nat} (h : x < 4 ∨ 6 ≤ x) : (u.setLenField n).buf x = u.buf x := by
  show Mem.put 5 (UInt8.ofNat (n % 256)) (Mem.put 4 (UInt8.ofNat (n / 256)) u.buf) x = u.buf x
  rw [Mem.put_of_ne (by omega), Mem.put_of_ne (by omega)]

theorem Uip.lenField_set {n : Nat} (h : n < 65536) : (u.setLenField n).lenField = n := by
  have h4 : (u.setLenField n).buf 4 = UInt8.ofNat (n / 256) := by
    show Mem.put 5 (UInt8.ofNat (n % 256)) (Mem.put 4 (UInt8.ofNat (n / 256)) u.buf) 4 = _
    rw [Mem.put_of_ne (by omega), Mem.put_same]
  have h5 : (u.setLenField n).buf 5 = UInt8.ofNat (n % 256) := by
    show Mem.put 5 (UInt8.ofNat (n % 256)) (Mem.put 4 (UInt8.ofNat (n / 256)) u.buf) 5 = _
    rw [Mem.put_same]
  have hhi : n / 256 < 256 := by omega
  unfold Uip.lenField
  rw [h4, h5, UInt8.toNat_ofNat', UInt8.toNat_ofNat']
  omega

theorem Uip.lenField_congr {u' : Uip} (h : ∀ x, x < 40 → u'.buf x = u.buf x) : u'.lenField = u.lenField := by
  unfold Uip.lenField
  rw [h 4 (by omega), h 5 (by omega)]

theorem Uip.destipaddr_congr {u' : Uip} (h : ∀ x, 24 ≤ x → x < 40 → u'.buf x = u.buf x) :
    u'.destipaddr = u.destipaddr := by
  funext i
  exact h (24 + i) (by omega) (by omega)

/-! ## The chain of headers -/

theorem chainBytes_cons_length (e : ExtHdr) (es : List ExtHdr) (up : Upper) :
    (chainBytes (e :: es) up).length = 8 * e.len.toNat + 8 + (chainBytes es up).length := by
  have h := e.length
  simp only [chainBytes, List.length_cons, List.length_append]
  omega

theorem Upper.data_pos (up : Upper) : 4 ≤ up.data.length ∧ upperHdrLen up.proto ≠ 0 := by
  have h := up.length
  have hu := up.upper
  unfold isProtoExtHdr at hu
  unfold upperHdrLen at h ⊢
  split_ifs at h ⊢ with h1 h2 h3
  · exact ⟨by omega, by omega⟩
  · exact ⟨by omega, by omega⟩
  · exact ⟨by omega, by omega⟩
  · simp [h1, h2, h3] at hu

theorem Upper.proto_ne (up : Upper) : up.proto ≠ 0 := by
  intro h
  have hu := up.upper
  rw [h] at hu
  revert hu
  decide

theorem getNextHeader_chain (start : Bool) (cur : Nat) (hcur : cur = if start then iphLen else (buf (pos + 1)).toNat * 8 + 8)
    (hproto : (if start then buf (pos + 6) else buf pos) = firstProto es up)
    (hb : Mem.Holds (pos + cur) (chainBytes es up ++ up.data) buf)
    (hs : size = cur + (chainBytes es up).length + up.data.length) :
    getNextHeader buf pos size start = (firstProto es up, some (pos + cur)) := by
  unfold getNextHeader
  simp only [hproto, ← hcur]
  have hpos := up.data_pos
  cases es with
  | nil =>
    have hup := up.length
    have hext : isProtoExtHdr (firstProto [] up) = false := up.upper
    simp only [hext, Bool.false_eq_true, false_and, if_false]
    rw [if_neg (by omega), if_neg]
    rintro (h | h)
    · exact hpos.2 h
    · simp only [chainBytes, List.length_nil] at hs
      have : upperHdrLen (firstProto [] up) = upperHdrLen up.proto := rfl
      omega
  | cons e es =>
    have hext : isProtoExtHdr (firstProto (e :: es) up) = true := e.ext
    have hlen : buf (pos + cur + 1) = e.len := hb.2.1
    have hl := chainBytes_cons_length e es up
    simp only [hext, if_true, hlen]
    rw [if_neg (by omega), if_neg (by omega), if_neg (by omega)]

theorem Carries.first (h : Carries u dest exts up) :
    getNextHeader u.buf 0 u.len true = (firstProto exts up, some iphLen) := by
  have hproto : u.buf (0 + 6) = firstProto exts up := h.proto
  have hbytes : Mem.Holds (0 + iphLen) (chainBytes exts up ++ up.data) u.buf := by simpa using h.bytes
  rw [getNextHeader_chain true iphLen rfl hproto hbytes h.len, Nat.zero_add]

theorem getNextHeader_cons {e : ExtHdr} (hb : Mem.Holds pos (chainBytes (e :: es) up ++ up.data) buf)
    (hs : size = (chainBytes (e :: es) up).length + up.data.length) :
    getNextHeader buf pos size false = (firstProto es up, some (pos + (8 * e.len.toNat + 8))) := by
  have hl := chainBytes_cons_length e es up
  have hd := e.length
  simp only [chainBytes, List.cons_append, Mem.holds_cons, List.append_assoc, Mem.holds_append] at hb
  obtain ⟨h0, h1, -, h2⟩ := hb
  refine getNextHeader_chain false _ ?_ (by simpa using h0) ?_ (by omega)
  · simp only [Bool.false_eq_true, if_false, h1]
    omega
  · rw [show pos + (8 * e.len.toNat + 8) = pos + 1 + 1 + e.data.length by omega, Mem.holds_append]
    exact h2

end

end Contiki.Core
