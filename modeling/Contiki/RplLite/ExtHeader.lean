/-
The extension headers of rpl-ext-header.c: the root takes RPL's own headers out of a packet and puts a
source routing header in, the hops swap the destination with the address at their place in it, and
the other nodes insert or update the hop-by-hop option. A call that would not end or would write
outside `uip_buf` is `lost`.
-/
import Contiki.Core.Uip
import Contiki.Sr.Model

namespace Contiki.RplLite

section

open Contiki.Lib Contiki.Core Contiki.Sr

/-! ## Constants and addresses -/

/-- `RPL_RH_LEN` and `RPL_SRH_LEN`. -/
def rhLen : Nat := 4
def srhLen : Nat := 4

/-- `RPL_RH_TYPE_SRH`. -/
def rhTypeSrh : UInt8 := 3

/-- `UIP_EXT_HDR_OPT_RPL` and `RPL_HDR_OPT_LEN`. -/
def optRpl : UInt8 := 0x63
def hdrOptLen : UInt8 := 4

/-- `RPL_HOP_BY_HOP_LEN`. -/
def hopByHopLen : Nat := 8

def isAddrLinklocal (a : Ipaddr) : Bool := a 0 == 0xfe && a 1 == 0x80

def isAddrMcast (a : Ipaddr) : Bool := a 0 == 0xff

def isAddrUnspecified (a : Ipaddr) : Bool := decide (∀ i, a i = 0)

def isAddrLoopback (a : Ipaddr) : Bool := decide (∀ i : Fin 16, a i = if i = 15 then 1 else 0)

def byteOf (a : Ipaddr) (j : Nat) : UInt8 := if h : j < 16 then a ⟨j, h⟩ else 0

/-- The conversion of an `int` to `uint8_t`. -/
def toU8 (i : Int) : Nat := (i % 256).toNat

/-! ## The node -/

/-- What the functions read of `curr_instance`. -/
structure Instance where
  used : Bool
  instanceId : UInt8
  minHoprankinc : Nat
  rank : Nat
  dagId : Ipaddr
  prefixLength : Nat

/-- The addresses of a node, unicast and multicast, and the size of its `uip_buf`. -/
structure Iface where
  isMyAddr : Ipaddr → Bool
  isMyMaddr : Ipaddr → Bool
  bufSize : Nat

structure Node extends Iface where
  inst : Instance
  sr : Sr.State
  linkNum : Nat
  removalDelay : Nat
  curHopLimit : UInt8

namespace Node

/-- The graph module under this routing protocol: the addresses of a graph have the prefix of the DAG
identifier, which is the address of the root. -/
def env (node : Node) : Sr.Env where
  net := fun _ => node.inst.dagId.net
  root := node.inst.dagId
  linkNum := node.linkNum
  removalDelay := node.removalDelay

/-- `uip_sr_get_node(NULL, addr)`. -/
def getNode (node : Node) (addr : Ipaddr) : Option Nat := uipSrGetNode node.env node.sr 0 addr

/-- `get_sr_node_ipaddr`. -/
def addrOf (node : Node) (n : Nat) : Ipaddr := getSrNodeIpaddr node.env (node.sr.node n)

def parent (node : Node) (n : Nat) : Option Nat := (node.sr.node n).parent

end Node

def rplDagRootIsRoot (inst : Instance) : Bool := inst.used && inst.rank == inst.minHoprankinc

def rplIsAddrInOurDag (inst : Instance) (addr : Ipaddr) : Bool :=
  inst.used && (List.range (inst.prefixLength / 8)).all fun j => byteOf inst.dagId j == byteOf addr j

inductive Outcome where
  | refused
  | done (u : Uip)
  | lost

/-! ## Removing headers -/

/-- The loop of `rpl_ext_header_remove`, with the pointers of the source as offsets (`ext_ptr` is always
`next_header`). Every pass takes at least 8 bytes out or goes at least 8 bytes on. -/
@[grind =]
def removeLoop : Nat → Uip → Nat → Nat → UInt8 → Option (Uip × Bool)
  | 0, _, _, _, _ => none
  | fuel + 1, u, nextHeader, prevProtoPtr, protocol =>
    if isProtoExtHdr protocol = false then
      some (u, true)
    else if protocol = protoRouting ∨ (protocol = protoHbho ∧ u.buf (nextHeader + 2) = optRpl) then
      let u := { u with buf := u.buf.put prevProtoPtr (u.buf nextHeader) }
      let extLen := (u.buf (nextHeader + 1)).toNat * 8 + 8
      match u.addExtHdr (-extLen) with
      | none => some (u, false)
      | some u =>
        let u := u.setLenField (u.len - iphLen)
        if u.len ≤ nextHeader then
          some (u, false)
        else
          let u := { u with buf := u.buf.copy nextHeader (nextHeader + extLen) (u.len - nextHeader) }
          removeLoop fuel u nextHeader prevProtoPtr (u.buf prevProtoPtr)
    else
      match getNextHeader u.buf nextHeader (u.len - nextHeader) false with
      | (_, none) => some (u, true)
      -- `prev_proto_ptr` is taken from `ext_ptr` after that has moved on
      | (protocol, some nextHeader) => removeLoop fuel u nextHeader nextHeader protocol

def rplExtHeaderRemove (u : Uip) : Option (Uip × Bool) :=
  match getNextHeader u.buf 0 u.len true with
  | (_, none) => some (u, true)
  | (protocol, some nextHeader) => removeLoop (u.len + 1) u nextHeader 6 protocol

/-! ## Inserting the source routing header -/

/-- The loop of `count_matching_bytes`. -/
@[grind =]
def matchLoop (p1 p2 : Ipaddr) : Nat → Nat → Nat
  | 0, i => i
  | todo + 1, i => if byteOf p1 i ≠ byteOf p2 i then i else matchLoop p1 p2 todo (i + 1)

/-- `count_matching_bytes` over 16 bytes. -/
def countMatchingBytes (p1 p2 : Ipaddr) : Nat := matchLoop p1 p2 16 0

/-- The loop of `insert_srh_header` that counts the nodes between the destination and the root and the
bytes that their addresses have in common. A walk of more steps than there are nodes never ends. -/
@[grind =]
def pathLoop (node : Node) (rootNode : Nat) (dest : Ipaddr) : Nat → Option Nat → Nat → Nat → Option (Nat × Nat)
  | _, none, pathLen, cmpri => some (pathLen, cmpri)
  | 0, some _, _, _ => none
  | fuel + 1, some n, pathLen, cmpri =>
    if n = rootNode then
      some (pathLen, cmpri)
    else
      pathLoop node rootNode dest fuel (node.parent n) ((pathLen + 1) % 256)
        (min cmpri (countMatchingBytes (node.addrOf n) dest))

/-- The loop that writes the compressed addresses from the last to the first, down from `hopPtr`. Its
result is the last address that `get_sr_node_ipaddr` gave. -/
@[grind =]
def addrLoop (node : Node) (rootNode cmpri : Nat) : Nat → Option Nat → Ipaddr → Nat → Mem → Option (Ipaddr × Mem)
  | _, none, nodeAddr, _, buf => some (nodeAddr, buf)
  | 0, some _, _, _, _ => none
  | fuel + 1, some n, _, hopPtr, buf =>
    if node.parent n = some rootNode then
      some (node.addrOf n, buf)
    else if hopPtr < 16 - cmpri then
      none
    else
      let hopPtr := hopPtr - (16 - cmpri)
      addrLoop node rootNode cmpri fuel (node.parent n) (node.addrOf n) hopPtr
        (Mem.paste hopPtr (16 - cmpri) (fun j => byteOf (node.addrOf n) (cmpri + j)) buf)

/-- The padding and the length with it of a header of `len` bytes, all 8 bits wide. -/
def padded (len : Nat) : Nat × Nat :=
  let padding := if len % 8 = 0 then 0 else 8 - len % 8
  (padding, (len + padding) % 256)

/-- `padding` and `ext_len` for a path of `pathLen` nodes. -/
def srhSize (pathLen cmpri : Nat) : Nat × Nat :=
  padded (toU8 (rhLen + srhLen + ((pathLen : Int) - 1) * (16 - cmpri) + (16 - cmpri)))

def putSrh (buf : Mem) (pathLen cmpri padding extLen : Nat) : Mem :=
  let buf := buf.put iphLen (buf 6)
  let buf := buf.put 6 protoRouting
  let buf := buf.put (iphLen + 1) (UInt8.ofNat (toU8 (((extLen : Int) - 8) / 8)))
  let buf := buf.put (iphLen + 2) rhTypeSrh
  let buf := buf.put (iphLen + 3) (UInt8.ofNat pathLen)
  let buf := buf.put (iphLen + 4) (UInt8.ofNat (cmpri * 16 + cmpri))
  buf.put (iphLen + 5) (UInt8.ofNat (padding * 16))

/-- `insert_srh_header` once the path has been counted. -/
@[grind =]
def insertPath (node : Node) (u : Uip) (destNode rootNode pathLen cmpri : Nat) : Outcome :=
  let (padding, extLen) := srhSize pathLen cmpri
  if linkMtu < u.len + extLen then
    .refused
  else if node.bufSize < u.len + u.extLen + extLen then
    .lost
  else
    let rest := iphLen + u.extLen
    let buf := (u.buf.copy (rest + extLen) rest (u.len - iphLen)).fill rest extLen 0
    let buf := putSrh buf pathLen cmpri padding extLen
    match addrLoop node rootNode cmpri (node.linkNum + 1) (some destNode) u.destipaddr (iphLen + extLen - padding) buf with
    | none => .lost
    | some (nodeAddr, buf) =>
      let u := { u with buf := Mem.paste 24 16 (byteOf nodeAddr) buf }
      let u := (u.addExtHdr extLen).getD u
      .done (u.setLenField (u.len - iphLen))

def insertSrhHeader (node : Node) (u : Uip) : Outcome :=
  if rplIsAddrInOurDag node.inst u.destipaddr = false then
    .done u
  else
    match node.getNode u.destipaddr, node.getNode node.inst.dagId with
    | none, _ => .done u
    | some _, none => .refused
    | some destNode, some rootNode =>
      if uipSrIsAddrReachable node.env node.sr 0 u.destipaddr = false then
        .refused
      else
        match pathLoop node rootNode u.destipaddr (node.linkNum + 1) (node.parent destNode) 0 15 with
        | none => .lost
        | some (pathLen, cmpri) => insertPath node u destNode rootNode pathLen cmpri

/-! ## The hop-by-hop option -/

/-- The rank of the node as sender rank, and the instance, into the option at the start of the IP
payload. -/
def putRpl (inst : Instance) (buf : Mem) : Mem :=
  ((buf.put (iphLen + 6) (UInt8.ofNat (inst.rank / 256))).put (iphLen + 7) (UInt8.ofNat (inst.rank % 256))).put
    (iphLen + 5) inst.instanceId

def updateHbhHeader (inst : Instance) (u : Uip) : Outcome :=
  if u.proto = protoHbho ∧ u.buf (iphLen + 2) = optRpl then
    if u.buf (iphLen + 1) ≠ UInt8.ofNat ((hopByHopLen - 8) / 8) ∨ u.buf (iphLen + 3) ≠ hdrOptLen then
      .refused
    else if inst.used = false ∨ inst.instanceId ≠ u.buf (iphLen + 5) then
      .refused
    else
      .done { u with buf := putRpl inst u.buf }
  else
    .done u

def insertHbhHeader (node : Node) (u : Uip) : Outcome :=
  if linkMtu < u.len + hopByHopLen then
    .refused
  else if node.bufSize < u.len + hopByHopLen then
    .lost
  else
    let buf := (u.buf.copy (iphLen + hopByHopLen) iphLen (u.len - iphLen)).fill iphLen hopByHopLen 0
    let buf := (buf.put iphLen (buf 6)).put 6 protoHbho
    let buf := buf.put (iphLen + 1) (UInt8.ofNat ((hopByHopLen - 8) / 8))
    let buf := ((buf.put (iphLen + 2) optRpl).put (iphLen + 3) hdrOptLen).put (iphLen + 4) 0
    let u := { u with buf := putRpl node.inst buf }
    let u := (u.addExtHdr hopByHopLen).getD u
    updateHbhHeader node.inst (u.setLenField (u.len - iphLen))

def rplExtHeaderUpdate (node : Node) (u : Uip) : Outcome :=
  if node.inst.used = false ∨ isAddrLinklocal u.destipaddr ∨ isAddrMcast u.destipaddr then
    .done u
  else if rplDagRootIsRoot node.inst then
    match rplExtHeaderRemove u with
    | none => .lost
    -- what the function returns is not looked at
    | some (u, _) => insertSrhHeader node u
  else if node.isMyAddr u.srcipaddr ∧ u.ttl = node.curHopLimit then
    insertHbhHeader node u
  else
    updateHbhHeader node.inst u

/-! ## At a hop -/

/-- The fields of the header at `rh`, which `srh_is_valid` and `rpl_ext_header_srh_update` read alike. -/
structure Srh where
  segmentsLeft : Nat
  cmpri : Nat
  cmpre : Nat
  pathLen : Nat

def parseSrh (buf : Mem) (rh : Nat) : Srh :=
  let extLen := toU8 ((buf (rh + 1)).toNat * 8 + 8)
  let cmpri := (buf (rh + 4)).toNat / 16
  let cmpre := (buf (rh + 4)).toNat % 16
  let padding := (buf (rh + 5)).toNat / 16
  { segmentsLeft := (buf (rh + 3)).toNat
    cmpri := cmpri
    cmpre := cmpre
    pathLen := toU8 (Int.tdiv ((extLen : Int) - padding - rhLen - srhLen - (16 - cmpre)) (16 - cmpri) + 1) }

/-- The address that the last `16 - cmpr` bytes of `hop` are replaced in. -/
def spliceAddr (hop : Ipaddr) (cmpr : Nat) (bytes : Mem) : Ipaddr := fun j =>
  if j.val < cmpr then hop j else bytes (j.val - cmpr)

/-- The loop of `srh_is_valid` for the addresses from the `i`-th on; it makes `todo` passes. -/
@[grind =]
def validLoop (iface : Iface) (buf : Mem) (rh cmpri cmpr : Nat) : Nat → Nat → Ipaddr → Bool → Nat → Bool
  | 0, _, _, _, _ => true
  | todo + 1, i, hopAddr, prevHopIsMyAddr, myAddrCount =>
    let addrOffset := rhLen + srhLen + i * (16 - cmpri)
    if iface.bufSize < rh + addrOffset + 16 - cmpr then
      false
    else
      let hopAddr := spliceAddr hopAddr cmpr fun j => buf (rh + addrOffset + j)
      let mine := iface.isMyAddr hopAddr || iface.isMyMaddr hopAddr
      let myAddrCount := if mine then myAddrCount + 1 else myAddrCount
      if mine = true ∧ prevHopIsMyAddr = false ∧ 1 < myAddrCount then
        false
      else if isAddrMcast hopAddr || isAddrUnspecified hopAddr || isAddrLoopback hopAddr then
        false
      else
        validLoop iface buf rh cmpri cmpr todo (i + 1) hopAddr mine myAddrCount

/-- `CmprE` for the last address, `CmprI` for the others. -/
def Srh.cmpr (srh : Srh) : Nat := if srh.segmentsLeft = 1 then srh.cmpre else srh.cmpri

def srhIsValid (iface : Iface) (u : Uip) (rh : Nat) : Bool :=
  let srh := parseSrh u.buf rh
  let first := srh.pathLen - srh.segmentsLeft
  validLoop iface u.buf rh srh.cmpri srh.cmpr (srh.pathLen - first) first u.destipaddr false 0

/-- The destination and the address at `addrPtr` change places, and there is one segment less left. -/
def swapDest (buf : Mem) (rh addrPtr cmpr segmentsLeft : Nat) : Mem :=
  (Mem.paste addrPtr (16 - cmpr) (fun j => buf (24 + cmpr + j))
    (buf.copy (24 + cmpr) addrPtr (16 - cmpr))).put (rh + 3) (UInt8.ofNat (segmentsLeft - 1))

/-- `rpl_ext_header_srh_update`, nothing when it returns 0. -/
def rplExtHeaderSrhUpdate (iface : Iface) (u : Uip) : Option Uip :=
  match searchHeader u.buf u.len protoRouting with
  | none => none
  | some rh =>
    if u.buf (rh + 2) ≠ rhTypeSrh then
      none
    else
      let srh := parseSrh u.buf rh
      if srh.segmentsLeft = 0 then
        some u
      else if srh.pathLen < srh.segmentsLeft then
        none
      else if srhIsValid iface u rh = false then
        none
      else
        let i := srh.pathLen - srh.segmentsLeft
        let addrOffset := rhLen + srhLen + i * (16 - srh.cmpri)
        if iface.bufSize < rh + addrOffset + 16 - srh.cmpr then
          none
        else
          some { u with buf := swapDest u.buf rh (rh + addrOffset) srh.cmpr srh.segmentsLeft }

end

/-!
`rpl_ext_header_remove` on a packet whose RPL headers stand before all others: they are gone
afterwards, the rest of the packet is as it was, and every length agrees again.
-/

section

open Contiki.Lib Contiki.Core

variable {u : Uip} {dest : Ipaddr} {as bs : List ExtHdr} {up : Upper}

/-- The headers that the root takes out: routing headers and hop-by-hop headers that start with the RPL
option. -/
def isRpl (e : ExtHdr) : Bool := e.proto == protoRouting || (e.proto == protoHbho && e.data.head? == some optRpl)

theorem ExtHdr.data_cons (e : ExtHdr) : ∃ b l, e.data = b :: l := by
  have h := e.length
  cases hd : e.data with
  | nil =>
    rw [hd, List.length_nil] at h
    omega
  | cons b l => exact ⟨b, l, rfl⟩

theorem isRpl_iff {e : ExtHdr} {es : List ExtHdr} {buf : Mem} {pos : Nat}
    (hb : Mem.Holds pos (chainBytes (e :: es) up ++ up.data) buf) :
    (e.proto = protoRouting ∨ (e.proto = protoHbho ∧ buf (pos + 2) = optRpl)) ↔ isRpl e = true := by
  obtain ⟨b, l, hd⟩ := ExtHdr.data_cons e
  have hbyte : buf (pos + 2) = b := by
    rw [chainBytes, hd] at hb
    exact hb.2.2.1
  unfold isRpl
  simp [hbyte, hd]

theorem removeLoop_kept : ∀ {es : List ExtHdr} {u : Uip} {fuel nextHeader prevProtoPtr : Nat},
    (∀ e ∈ es, isRpl e = false) → es.length < fuel →
    Mem.Holds nextHeader (chainBytes es up ++ up.data) u.buf →
    u.len = nextHeader + ((chainBytes es up).length + up.data.length) →
    removeLoop fuel u nextHeader prevProtoPtr (firstProto es up) = some (u, true)
  | [], u, fuel + 1, nextHeader, prevProtoPtr, _, _, _, _ => by
    have hext : isProtoExtHdr (firstProto [] up) = false := up.upper
    rw [removeLoop, if_pos hext]
  | e :: es, u, fuel + 1, nextHeader, prevProtoPtr, hk, hf, hb, hl => by
    have hext : isProtoExtHdr (firstProto (e :: es) up) = true := e.ext
    have hown : ¬(firstProto (e :: es) up = protoRouting ∨
        (firstProto (e :: es) up = protoHbho ∧ u.buf (nextHeader + 2) = optRpl)) := by
      intro h
      have := (isRpl_iff hb).1 h
      rw [hk e (by simp)] at this
      cases this
    have hnext := getNextHeader_cons hb (show u.len - nextHeader = _ by omega)
    rw [removeLoop, if_neg (by simp [hext]), if_neg hown, hnext]
    have hlen := chainBytes_cons_length e es up
    have hd := e.length
    refine removeLoop_kept (fun x hx => hk x (by simp [hx])) (by simpa using hf) ?_ (by omega)
    simp only [chainBytes, List.cons_append, Mem.holds_cons, List.append_assoc, Mem.holds_append] at hb
    rw [show nextHeader + (8 * e.len.toNat + 8) = nextHeader + 1 + 1 + e.data.length by omega, Mem.holds_append]
    exact hb.2.2.2

/-- The IP header once the first header of `extLen` bytes is to go. -/
def unlinkFirst (u : Uip) (extLen : Nat) : Uip :=
  Uip.setLenField { buf := u.buf.put 6 (u.buf iphLen), len := u.len - extLen, extLen := u.extLen - extLen }
    (u.len - extLen - iphLen)

def removeFirst (u : Uip) (extLen : Nat) : Uip :=
  { unlinkFirst u extLen with
    buf := (unlinkFirst u extLen).buf.copy iphLen (iphLen + extLen) (u.len - extLen - iphLen) }

theorem unlinkFirst_proto (u : Uip) (extLen : Nat) : (unlinkFirst u extLen).buf 6 = u.buf iphLen := by
  unfold unlinkFirst
  rw [Uip.setLenField_buf (by omega)]
  show Mem.put 6 (u.buf iphLen) u.buf 6 = _
  rw [Mem.put_same]

theorem unlinkFirst_buf {extLen x : Nat} (hx : x < 4 ∨ 6 < x) : (unlinkFirst u extLen).buf x = u.buf x := by
  unfold unlinkFirst
  rw [Uip.setLenField_buf (by omega)]
  exact Mem.put_of_ne (by omega)

theorem removeFirst_front {extLen x : Nat} (hx : x < iphLen) :
    (removeFirst u extLen).buf x = (unlinkFirst u extLen).buf x :=
  Mem.copy_of_out (.inl hx)

theorem removeFirst_carries {e : ExtHdr} {es : List ExtHdr} (h : Carries u dest (e :: es) up) :
    Carries (removeFirst u (8 * e.len.toNat + 8)) dest es up := by
  have hlen := chainBytes_cons_length e es up
  have hd := e.length
  have hu := h.len
  have hx := h.extLen
  have hm := h.mtu
  have hb := h.bytes
  have hpos := up.data_pos
  unfold iphLen linkMtu at *
  simp only [chainBytes, List.cons_append, Mem.holds_cons, List.append_assoc, Mem.holds_append] at hb
  obtain ⟨h0, h1, -, h2⟩ := hb
  constructor
  case dest =>
    rw [← h.dest]
    refine Uip.destipaddr_congr fun x h24 h40 => ?_
    rw [removeFirst_front h40, unlinkFirst_buf (by omega)]
  case proto =>
    unfold Uip.proto
    rw [removeFirst_front (by unfold iphLen; omega), unlinkFirst_proto]
    exact h0
  case bytes =>
    -- what is copied to the front stood behind the header
    have hsrc : Mem.Holds (40 + (8 * e.len.toNat + 8)) (chainBytes es up ++ up.data) u.buf := by
      rw [show 40 + (8 * e.len.toNat + 8) = 40 + 1 + 1 + e.data.length by omega, Mem.holds_append]
      exact h2
    rw [Mem.holds_iff] at hsrc ⊢
    intro i hi
    have hi' := hi
    rw [List.length_append] at hi'
    rw [← hsrc i hi]
    show Mem.copy 40 (40 + (8 * e.len.toNat + 8)) _ (unlinkFirst u _).buf (40 + i) = _
    rw [Mem.copy_in (by unfold iphLen; omega), unlinkFirst_buf (by omega)]
  case len =>
    show u.len - (8 * e.len.toNat + 8) = _
    unfold iphLen
    omega
  case extLen =>
    show u.extLen - (8 * e.len.toNat + 8) = _
    omega
  case field =>
    rw [Uip.lenField_congr fun x hx => removeFirst_front hx]
    exact Uip.lenField_set (by omega)
  case mtu =>
    show u.len - (8 * e.len.toNat + 8) ≤ linkMtu
    unfold linkMtu
    omega

theorem removeLoop_own {e : ExtHdr} {es : List ExtHdr} {fuel : Nat} (h : Carries u dest (e :: es) up)
    (he : isRpl e = true) : removeLoop (fuel + 1) u iphLen 6 (firstProto (e :: es) up) =
      removeLoop fuel (removeFirst u (8 * e.len.toNat + 8)) iphLen 6 (firstProto es up) := by
  have hlen := chainBytes_cons_length e es up
  have hd := e.length
  have hu := h.len
  have hx := h.extLen
  have hm := h.mtu
  have hpos := up.data_pos
  have hext : isProtoExtHdr (firstProto (e :: es) up) = true := e.ext
  have h1 : u.buf (iphLen + 1) = e.len := by
    have hb := h.bytes
    rw [chainBytes] at hb
    exact hb.2.1
  have hlenbyte : ((u.buf.put 6 (u.buf iphLen)) (iphLen + 1)).toNat * 8 + 8 = 8 * e.len.toNat + 8 := by
    rw [Mem.put_of_ne (by unfold iphLen; omega), h1]
    omega
  have hown : firstProto (e :: es) up = protoRouting ∨
      (firstProto (e :: es) up = protoHbho ∧ u.buf (iphLen + 2) = optRpl) := (isRpl_iff h.bytes).2 he
  rw [removeLoop, if_neg (by simp [hext]), if_pos hown]
  simp only [hlenbyte, Uip.addExtHdr]
  rw [if_pos (by omega)]
  have hl : ((u.len : Int) + -(8 * e.len.toNat + 8 : Nat)).toNat = u.len - (8 * e.len.toNat + 8) := by omega
  have hxl : ((u.extLen : Int) + -(8 * e.len.toNat + 8 : Nat)).toNat = u.extLen - (8 * e.len.toNat + 8) := by omega
  simp only [hl, hxl, Uip.setLenField_len]
  rw [if_neg (by unfold iphLen at *; omega)]
  have hc := (removeFirst_carries h).proto
  rw [← hc]
  rfl

theorem remove_carries (h : Carries u dest (as ++ bs) up) (ha : ∀ e ∈ as, isRpl e = true)
    (hb : ∀ e ∈ bs, isRpl e = false) : ∃ u', rplExtHeaderRemove u = some (u', true) ∧ Carries u' dest bs up := by
  have hloop : ∀ (as : List ExtHdr) (u : Uip) (fuel : Nat), Carries u dest (as ++ bs) up →
      (∀ e ∈ as, isRpl e = true) → (as ++ bs).length < fuel →
      ∃ u', removeLoop fuel u iphLen 6 (firstProto (as ++ bs) up) = some (u', true) ∧ Carries u' dest bs up := by
    intro as
    induction as with
    | nil =>
      intro u fuel h _ hf
      rw [List.nil_append] at h hf ⊢
      have hl := h.len
      exact ⟨u, removeLoop_kept hb hf h.bytes (by omega), h⟩
    | cons e as ih =>
      intro u fuel h ha hf
      cases fuel with
      | zero => omega
      | succ fuel =>
        obtain ⟨u', hr, hc⟩ := ih (removeFirst u (8 * e.len.toNat + 8)) fuel (removeFirst_carries h)
          (fun x hx => ha x (by simp [hx])) (by simpa using hf)
        exact ⟨u', (removeLoop_own h (ha e (by simp))).trans hr, hc⟩
  have hcount : ∀ es : List ExtHdr, es.length ≤ (chainBytes es up).length := by
    intro es
    induction es with
    | nil => simp
    | cons e es ih =>
      rw [chainBytes_cons_length, List.length_cons]
      omega
  unfold rplExtHeaderRemove
  rw [h.first]
  have hl := h.len
  have := hcount (as ++ bs)
  exact hloop as u (u.len + 1) h ha (by omega)

end

end Contiki.RplLite
