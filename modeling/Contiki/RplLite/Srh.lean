/-
Packets that the root sends down the DAG: `rpl_ext_header_update` refuses the packet, or the header it
puts in brings the packet along the parent path to its destination, as it was apart from RPL's own
headers. That holds of packets without other extension headers whose path fits into the 8-bit lengths
of the header: `destOptions_overwritten` is a packet with destination options, over which the header
is written because room is made behind the extension headers and not in front of them.
-/
import Contiki.RplLite.ExtHeader
import Contiki.RplLite.SrhHops
import Contiki.Sr.Graph

namespace Contiki.RplLite

open Contiki.Lib Contiki.Core Contiki.Sr

variable {node : Node} {ifaces : Ipaddr → Iface} {u u' q : Uip} {dest : Ipaddr} {exts es : List ExtHdr} {up : Upper}
  {d r : Nat} {ns : List Nat} {first : Ipaddr} {cmpri count x : Nat}

/-! ## What the packet should do -/

/-- The headers that stay in the packet. -/
def kept (exts : List ExtHdr) : List ExtHdr := exts.filter fun e => !isRpl e

/-- The packet comes along the path and ends with no segments left, for its first destination, with the
headers that stay and its payload behind one routing header. -/
def Delivered (ifaces : Ipaddr → Iface) (path : List Ipaddr) (dest : Ipaddr) (exts : List ExtHdr) (up : Upper)
    (u : Uip) : Prop :=
  ∃ q srh, Forwarded ifaces path u q ∧ q.buf 43 = 0 ∧ srh.proto = protoRouting ∧ Carries q dest (srh :: kept exts) up

/-- The packet is refused, or delivered. -/
def Routed (ifaces : Ipaddr → Iface) (path : List Ipaddr) (dest : Ipaddr) (exts : List ExtHdr) (up : Upper) :
    Outcome → Prop
  | .refused => True
  | .done u => Delivered ifaces path dest exts up u
  | .lost => False

/-! ## The root and the network -/

/-- What `rpl_dag_init_root` and the calls on the graph establish at the root. -/
structure AtRoot (node : Node) : Prop where
  used : node.inst.used = true
  rank : node.inst.rank = node.inst.minHoprankinc
  length : node.inst.prefixLength = 64
  notLocal : isAddrLinklocal node.inst.dagId = false
  notMcast : isAddrMcast node.inst.dagId = false
  graph : Sr.Inv node.env node.sr

/-- A node of the network has one address under the prefix of the DAG, the one that packets reach it
by, and all nodes have buffers of one size. -/
structure Deployed (node : Node) (ifaces : Ipaddr → Iface) : Prop where
  own : ∀ a b, b.net = node.inst.dagId.net → ((ifaces a).isMyAddr b || (ifaces a).isMyMaddr b) = decide (b = a)
  bufSize : ∀ a, (ifaces a).bufSize = node.bufSize

/-! ## When it does -/

def addrCount (ns : List Nat) : Nat := ns.length - 1

def addrComp (node : Node) (dest : Ipaddr) (ns : List Nat) : Nat := commonBytes node dest ns.tail 15

def insertedLen (node : Node) (dest : Ipaddr) (ns : List Nat) : Nat :=
  (srhSize (addrCount ns % 256) (addrComp node dest ns)).2

/-- RPL's headers stand before all others. -/
def RplFirst (exts : List ExtHdr) : Prop :=
  ∃ as bs, exts = as ++ bs ∧ (∀ e ∈ as, isRpl e = true) ∧ ∀ e ∈ bs, isRpl e = false

/-- The packet does not fit into the MTU with the header. -/
def TooLong (node : Node) (dest : Ipaddr) (ns : List Nat) (exts : List ExtHdr) (up : Upper) : Prop :=
  RplFirst exts ∧
    linkMtu < iphLen + (chainBytes (kept exts) up).length + up.data.length + insertedLen node dest ns

/-- The packet has no extension headers besides RPL's, the header fits into its own 8-bit lengths and the
packet with it into the buffer, and the hops let it pass. -/
structure Fits (node : Node) (dest : Ipaddr) (ns : List Nat) (exts : List ExtHdr) (up : Upper) : Prop where
  own : ∀ e ∈ exts, isRpl e = true
  eight : fullLen (addrCount ns) (addrComp node dest ns) ≤ 248
  buffer : iphLen + up.data.length + insertedLen node dest ns ≤ node.bufSize
  passable : Passable (hops node ns)

def EndsAtRoot (node : Node) (r d : Nat) : Prop := d = r → node.parent d = none ∨ node.parent d = some r

/-! ## Addresses of the graph -/

theorem byteOf_net {a b : Ipaddr} (h : a.net = b.net) {j : Nat} (hj : j < 8) : byteOf a j = byteOf b j := by
  unfold byteOf
  rw [dif_pos (by omega), dif_pos (by omega)]
  exact congrFun h ⟨j, hj⟩

theorem addrOf_net (node : Node) (n : Nat) : (node.addrOf n).net = node.inst.dagId.net := Ipaddr.net_join ..

theorem hops_net (node : Node) (ns : List Nat) : ∀ a ∈ hops node ns, a.net = node.inst.dagId.net := by
  intro a ha
  unfold hops at ha
  obtain ⟨n, -, rfl⟩ := List.mem_map.1 (List.mem_reverse.1 ha)
  exact addrOf_net node n

theorem addrOf_getNode {addr : Ipaddr} (h : node.getNode addr = some d) : node.addrOf d = addr := by
  have hf := List.find?_some h
  unfold nodeMatchesAddress at hf
  rw [Bool.and_eq_true, decide_eq_true_eq, decide_eq_true_eq] at hf
  exact hf.2

theorem getNode_mem {addr : Ipaddr} (h : node.getNode addr = some d) : d ∈ node.sr.nodelist := (getNode_some h).1

theorem allAccept_iff (hnet : Deployed node ifaces) : ∀ {path : List Ipaddr},
    (∀ a ∈ path, a.net = node.inst.dagId.net) → (AllAccept ifaces path ↔ Passable path)
  | [], _ => Iff.rfl
  | a :: as, h => by
    have has : ∀ b ∈ as, b.net = node.inst.dagId.net := fun b hb => h b (List.mem_cons_of_mem a hb)
    rw [AllAccept, Passable, accepts_iff fun b hb => hnet.own a b (has b hb), allAccept_iff hnet has, and_assoc]

/-! ## Inserting the header -/

/-- The packet with the header in front and the rest moved back from behind the extension headers. -/
def makeRoom (u : Uip) (x : Nat) : Mem :=
  (u.buf.copy (iphLen + u.extLen + x) (iphLen + u.extLen) (u.len - iphLen)).fill (iphLen + u.extLen) x 0

/-- What `insert_srh_header` makes of the packet. -/
structure Inserted (u u' : Uip) (first : Ipaddr) (cmpri count x : Nat) : Prop where
  len : u'.len = u.len + x
  extLen : u'.extLen = u.extLen + x
  field : u'.lenField = u'.len - iphLen
  proto : u'.buf 6 = protoRouting
  next : u'.buf 40 = u.proto
  size : (u'.buf 41).toNat * 8 + 8 = x
  type : u'.buf 42 = rhTypeSrh
  segs : (u'.buf 43).toNat = count
  cmpr : (u'.buf 44).toNat = cmpri * 16 + cmpri
  pad : x = fullLen count cmpri + (u'.buf 45).toNat / 16
  dest : u'.destipaddr = first
  moved : ∀ i, 40 + x ≤ i → u'.buf i = makeRoom u x i

theorem putSrh_out {buf : Mem} {pathLen padding i : Nat} (h : i < 6 ∨ 6 < i) (h' : i < 40 ∨ 45 < i) :
    putSrh buf pathLen cmpri padding x i = buf i := by
  unfold putSrh iphLen
  rw [Mem.put_of_ne (by omega), Mem.put_of_ne (by omega), Mem.put_of_ne (by omega), Mem.put_of_ne (by omega),
    Mem.put_of_ne (by omega), Mem.put_of_ne (by omega), Mem.put_of_ne (by omega)]

theorem putSrh_bytes (buf : Mem) (pathLen cmpri padding x : Nat) :
    putSrh buf pathLen cmpri padding x 6 = protoRouting ∧ putSrh buf pathLen cmpri padding x 40 = buf 6 ∧
      putSrh buf pathLen cmpri padding x 41 = UInt8.ofNat (toU8 (((x : Int) - 8) / 8)) ∧
      putSrh buf pathLen cmpri padding x 42 = rhTypeSrh ∧ putSrh buf pathLen cmpri padding x 43 = UInt8.ofNat pathLen ∧
      putSrh buf pathLen cmpri padding x 44 = UInt8.ofNat (cmpri * 16 + cmpri) ∧
      putSrh buf pathLen cmpri padding x 45 = UInt8.ofNat (padding * 16) := by
  unfold putSrh Mem.put iphLen
  simp

theorem setLenField_low {u : Uip} {n i : Nat} (h : 6 ≤ i) : (u.setLenField n).buf i = u.buf i :=
  Uip.setLenField_buf (.inr h)

theorem insertPath_done {a : Ipaddr} (hc : cmpri ≤ 15) (h8 : fullLen count cmpri ≤ 248)
    (hmtu : u.len + (srhSize (count % 256) cmpri).2 ≤ linkMtu)
    (hbuf : u.len + u.extLen + (srhSize (count % 256) cmpri).2 ≤ node.bufSize) (hu : iphLen ≤ u.len)
    (haddr : ∀ buf, ∃ buf', addrLoop node r cmpri (node.linkNum + 1) (some d) u.destipaddr (48 + count * (16 - cmpri)) buf =
      some (a, buf') ∧ Mem.SameOutside 47 (count * (16 - cmpri) + 1) buf buf') :
    ∃ u' buf buf', insertPath node u d r (count % 256) cmpri = .done u' ∧
      addrLoop node r cmpri (node.linkNum + 1) (some d) u.destipaddr (48 + count * (16 - cmpri)) buf = some (a, buf') ∧
      (∀ i, 46 ≤ i → u'.buf i = buf' i) ∧ Inserted u u' a cmpri count (srhSize (count % 256) cmpri).2 := by
  obtain ⟨hx, hpad, hmod, hle⟩ := srhSize_eq hc h8
  have hcount : count % 256 = count := by
    have : count * 1 ≤ count * (16 - cmpri) := Nat.mul_le_mul_left count (by omega)
    unfold fullLen rhLen srhLen at h8
    exact Nat.mod_eq_of_lt (by omega)
  have hcount' : count < 256 := by omega
  have hfull : fullLen count cmpri = 8 + count * (16 - cmpri) := by
    unfold fullLen rhLen srhLen
    omega
  unfold insertPath
  generalize srhSize (count % 256) cmpri = size at *
  obtain ⟨padding, x⟩ := size
  simp only at hx hpad hmod hle hmtu hbuf ⊢
  have hhop : iphLen + x - padding = 48 + count * (16 - cmpri) := by
    unfold iphLen
    omega
  obtain ⟨buf', hrun, hsame⟩ := haddr (putSrh (makeRoom u x) (count % 256) cmpri padding x)
  obtain ⟨p6, p40, p41, p42, p43, p44, p45⟩ := putSrh_bytes (makeRoom u x) (count % 256) cmpri padding x
  rw [if_neg (by omega), if_neg (by omega)]
  unfold makeRoom at hrun
  simp only [hhop, hrun]
  -- the destination is written last, the length field after it
  have hadd : Uip.addExtHdr { u with buf := Mem.paste 24 16 (byteOf a) buf' } x =
      some { buf := Mem.paste 24 16 (byteOf a) buf', len := u.len + x, extLen := u.extLen + x } := by
    unfold Uip.addExtHdr
    simp only
    rw [if_pos (by unfold linkMtu at *; omega)]
    congr 2
  rw [hadd, Option.getD_some]
  have hfront : ∀ i, 6 ≤ i → i < 24 ∨ 40 ≤ i → i < 47 →
      (Uip.setLenField { buf := Mem.paste 24 16 (byteOf a) buf', len := u.len + x, extLen := u.extLen + x }
        (u.len + x - iphLen)).buf i = putSrh (makeRoom u x) (count % 256) cmpri padding x i := by
    intro i h6 h24 h47
    rw [setLenField_low h6]
    show Mem.paste 24 16 (byteOf a) buf' i = _
    rw [Mem.paste_of_out (by omega), hsame i (by omega)]
  have hback : ∀ i, 46 ≤ i →
      (Uip.setLenField { buf := Mem.paste 24 16 (byteOf a) buf', len := u.len + x, extLen := u.extLen + x }
        (u.len + x - iphLen)).buf i = buf' i := by
    intro i hi
    rw [setLenField_low (by omega)]
    exact Mem.paste_of_out (by omega)
  refine ⟨_, _, buf', rfl, hrun, hback, ?_⟩
  constructor
  case len => rfl
  case extLen => rfl
  case field =>
    have hlt : u.len + x - iphLen < 65536 := by
      unfold linkMtu at hmtu
      omega
    exact Uip.lenField_set hlt
  case proto => exact (hfront 6 (by omega) (by omega) (by omega)).trans p6
  case next =>
    rw [hfront 40 (by omega) (by omega) (by omega), p40]
    unfold makeRoom iphLen
    rw [Mem.fill_of_out (by omega), Mem.copy_of_out (by omega)]
    rfl
  case size =>
    rw [hfront 41 (by omega) (by omega) (by omega), p41, UInt8.toNat_ofNat']
    unfold toU8
    omega
  case type => exact (hfront 42 (by omega) (by omega) (by omega)).trans p42
  case segs =>
    rw [hfront 43 (by omega) (by omega) (by omega), p43, UInt8.toNat_ofNat', hcount]
    omega
  case cmpr =>
    rw [hfront 44 (by omega) (by omega) (by omega), p44, UInt8.toNat_ofNat']
    omega
  case pad =>
    rw [hfront 45 (by omega) (by omega) (by omega), p45, UInt8.toNat_ofNat']
    omega
  case dest =>
    funext j
    have hj := j.isLt
    show (Uip.setLenField _ _).buf (24 + j.val) = a j
    rw [setLenField_low (by omega)]
    show Mem.paste 24 16 (byteOf a) buf' (24 + j.val) = a j
    rw [Mem.paste_in (by omega) (by omega), show 24 + j.val - 24 = j.val by omega]
    exact dif_pos hj
  case moved =>
    intro i hi
    rw [hback i (by omega), hsame i (by omega), putSrh_out (by omega) (by omega)]

/-! ## The loops on the path of a destination -/

theorem addrComp_le (node : Node) (dest : Ipaddr) (ns : List Nat) : addrComp node dest ns ≤ 15 :=
  commonBytes_le node dest ns.tail 15

theorem pathLoop_eq (hi : Inv node.env node.sr) (hd : d ∈ node.sr.nodelist) (hup : Climb node.parent r d ns)
    (hend : EndsAtRoot node r d) : pathLoop node r dest (node.linkNum + 1) (node.parent d) 0 15 =
      some (addrCount ns % 256, addrComp node dest ns) := by
  have hshort := hup.short hi hd
  cases hup with
  | root =>
    rcases hend rfl with hp | hp
    · rw [hp]
      rfl
    · rw [hp]
      exact pathLoop_climb .root (by simp) (by omega)
  | @node _ p ns hne hp hup =>
    rw [List.length_cons] at hshort
    have h := @pathLoop_climb _ _ dest _ _ _ 0 15 hup (show ns.length < node.linkNum + 1 by omega) (by omega)
    rw [hp, h, Nat.zero_add]
    rfl

theorem addrLoop_eq (hi : Inv node.env node.sr) (hd : d ∈ node.sr.nodelist) (hup : Climb node.parent r d ns)
    (hend : EndsAtRoot node r d) (hc : cmpri = addrComp node dest ns) (addr : Ipaddr) (buf : Mem) :
    ∃ buf', addrLoop node r cmpri (node.linkNum + 1) (some d) addr (48 + addrCount ns * (16 - cmpri)) buf =
        some ((hops node ns).headD (node.addrOf d), buf') ∧
      Mem.SameOutside 47 (addrCount ns * (16 - cmpri) + 1) buf buf' ∧
      ∀ i b, (hops node ns)[i + 1]? = some b → ∀ j < 16 - cmpri,
        buf' (48 + i * (16 - cmpri) + j) = byteOf b (cmpri + j) := by
  have hshort := hup.short hi hd
  cases hup with
  | root =>
    have h15 : cmpri = 15 := hc
    subst h15
    have hcount : 48 + addrCount [] * (16 - 15) = 48 := by simp [addrCount]
    have hnone : ∀ i b, (hops node [])[i + 1]? = some b → ∀ j < 16 - 15, buf (48 + i * (16 - 15) + j) = byteOf b (15 + j) :=
      fun i b hb => by simp [hops] at hb
    rw [hcount]
    rcases hend rfl with hp | hp
    · -- without a parent the root itself is written, into a reserved byte
      refine ⟨Mem.paste 47 1 (fun j => byteOf (node.addrOf d) (15 + j)) buf, ?_, ?_, fun i b hb => by simp [hops] at hb⟩
      · rw [addrLoop, hp, if_neg (by simp), if_neg (by omega)]
        cases node.linkNum <;> rfl
      · intro x hx
        exact Mem.paste_of_out (by omega)
    · refine ⟨buf, ?_, fun _ _ => rfl, hnone⟩
      rw [addrLoop, if_pos hp]
      rfl
  | @node _ p ns hne hp hup =>
    rw [List.length_cons] at hshort
    obtain ⟨a, buf', hrun, hfirst, hout, hslots⟩ :=
      addrLoop_climb 48 addr buf (Climb.node hne hp hup) (show ns.length < node.linkNum + 1 by omega)
    have ha : (hops node (d :: ns)).headD (node.addrOf d) = a := by
      rw [List.headD_eq_head?_getD, List.head?_eq_getElem?, hfirst]
      rfl
    have hcount : addrCount (d :: ns) = ns.length := by simp [addrCount]
    rw [hcount, ha]
    exact ⟨buf', hrun, fun x hx => hout x (by omega), hslots⟩

theorem insertPath_short (hup : Climb node.parent r d ns) (hc : cmpri = addrComp node dest ns)
    (h8 : 248 < fullLen (addrCount ns) cmpri) : insertPath node u d r (addrCount ns % 256) cmpri = .refused ∨
      insertPath node u d r (addrCount ns % 256) cmpri = .lost := by
  have hle : cmpri ≤ 15 := hc ▸ addrComp_le node dest ns
  have hshort := srhSize_short hle h8
  unfold insertPath
  generalize srhSize (addrCount ns % 256) cmpri = size at hshort
  obtain ⟨padding, x⟩ := size
  dsimp only at hshort ⊢
  split
  · exact .inl rfl
  split
  · exact .inr rfl
  · cases hup with
    | root =>
      unfold fullLen addrCount rhLen srhLen at h8
      simp at h8
    | @node _ p ns hne hp hup =>
      rw [addrLoop_short (Climb.node hne hp hup) (by simpa [addrCount] using hshort)]
      exact .inr rfl

/-! ## From the call to the path -/

theorem isAddrLinklocal_net {a b : Ipaddr} (h : a.net = b.net) : isAddrLinklocal a = isAddrLinklocal b := by
  have h0 : a 0 = b 0 := congrFun h 0
  have h1 : a 1 = b 1 := congrFun h 1
  unfold isAddrLinklocal
  rw [h0, h1]

theorem isAddrMcast_net {a b : Ipaddr} (h : a.net = b.net) : isAddrMcast a = isAddrMcast b := by
  have h0 : a 0 = b 0 := congrFun h 0
  unfold isAddrMcast
  rw [h0]

theorem update_eq {as bs : List ExtHdr} (hroot : AtRoot node) (hc : Carries u dest (as ++ bs) up)
    (ha : ∀ e ∈ as, isRpl e = true) (hb : ∀ e ∈ bs, isRpl e = false) (hd : node.getNode dest = some d)
    (hr : node.getNode node.inst.dagId = some r) (hup : Climb node.parent r d ns) (hend : EndsAtRoot node r d) :
    ∃ u', Carries u' dest bs up ∧
      rplExtHeaderUpdate node u = insertPath node u' d r (addrCount ns % 256) (addrComp node dest ns) := by
  obtain ⟨u', hrem, hc'⟩ := remove_carries hc ha hb
  have hnet : dest.net = node.inst.dagId.net := by
    rw [← addrOf_getNode hd]
    exact addrOf_net node d
  have hisroot : rplDagRootIsRoot node.inst = true := by
    unfold rplDagRootIsRoot
    simp [hroot.used, hroot.rank]
  have hdag : rplIsAddrInOurDag node.inst dest = true := by
    unfold rplIsAddrInOurDag
    rw [hroot.used, hroot.length, Bool.true_and, List.all_eq_true]
    intro j hj
    rw [List.mem_range] at hj
    exact beq_iff_eq.2 (byteOf_net hnet.symm (by omega))
  have hreach : uipSrIsAddrReachable node.env node.sr 0 dest = true := (reachable_iff hroot.graph).2 ⟨d, r, ns, hd, hr, hup⟩
  refine ⟨u', hc', ?_⟩
  unfold rplExtHeaderUpdate
  rw [hc.dest, isAddrLinklocal_net hnet, isAddrMcast_net hnet, hroot.notLocal, hroot.notMcast, hroot.used,
    if_neg (by simp), if_pos hisroot, hrem]
  dsimp only
  unfold insertSrhHeader
  rw [hc'.dest, hdag, if_neg (by simp), hd, hr]
  dsimp only
  rw [hreach, if_neg (by simp), pathLoop_eq hroot.graph (getNode_mem hd) hup hend]

/-! ## The packet at the end of the path -/

theorem kept_append {as bs : List ExtHdr} (ha : ∀ e ∈ as, isRpl e = true) (hb : ∀ e ∈ bs, isRpl e = false) :
    kept (as ++ bs) = bs := by
  unfold kept
  rw [List.filter_append, List.filter_eq_nil_iff.2 fun e he => by simp [ha e he],
    List.filter_eq_self.2 fun e he => by simp [hb e he], List.nil_append]

theorem makeRoom_back {i : Nat} (h : iphLen + u.extLen + x ≤ i) (hi : i < u.len + u.extLen + x) :
    makeRoom u x i = u.buf (i - x) := by
  unfold makeRoom iphLen at *
  obtain ⟨j, rfl⟩ : ∃ j, i = 40 + u.extLen + x + j := ⟨i - (40 + u.extLen + x), by omega⟩
  rw [Mem.fill_of_out (by omega), Mem.copy_in (by omega)]
  congr 1
  omega

theorem fullLen_eq (count cmpri : Nat) : fullLen count cmpri = 8 + count * (16 - cmpri) := by
  unfold fullLen rhLen srhLen
  omega

theorem Inserted.carries (h : Inserted u u' first cmpri count x) (hc : Carries u dest [] up)
    (ho : OnlyRoute cmpri count u' q) (hdest : q.destipaddr = dest) (hm : u'.len ≤ linkMtu) :
    ∃ srh : ExtHdr, srh.proto = protoRouting ∧ Carries q dest [srh] up := by
  have hx : 8 ≤ x := by
    have := h.pad
    rw [fullLen_eq] at this
    omega
  have hpad := h.pad
  rw [fullLen_eq] at hpad
  have hsize := h.size
  have hkeep : ∀ y, y < 24 ∨ 40 ≤ y → y ≠ 43 → y < 48 ∨ 40 + x ≤ y → q.buf y = u'.buf y :=
    fun y h1 h2 h3 => ho.2.2 y h1 h2 (by omega)
  have hulen := hc.len
  have huext := hc.extLen
  simp only [chainBytes, List.length_nil] at hulen huext
  have hlenbyte : (q.buf 41).toNat * 8 + 8 = x := by
    rw [hkeep 41 (by omega) (by omega) (by omega)]
    exact hsize
  refine ⟨⟨protoRouting, q.buf 41, Mem.read 42 (x - 2) q.buf, by decide, ?_⟩, rfl, ?_⟩
  · rw [Mem.length_read]
    omega
  · have hbytes := hc.bytes
    simp only [chainBytes, List.nil_append] at hbytes
    constructor
    case dest => exact hdest
    case proto => exact (hkeep 6 (by omega) (by omega) (by omega)).trans h.proto
    case bytes =>
      simp only [chainBytes, List.append_nil, List.cons_append, Mem.holds_cons, Mem.holds_append, Mem.length_read]
      unfold iphLen at hbytes hulen ⊢
      refine ⟨?_, rfl, Mem.holds_read.2 fun _ _ => rfl, ?_⟩
      · rw [hkeep 40 (by omega) (by omega) (by omega), h.next]
        exact hc.proto
      · rw [Mem.holds_iff] at hbytes ⊢
        intro i hi
        rw [← hbytes i hi, show 40 + 1 + 1 + (x - 2) + i = 40 + x + i by omega, hkeep _ (by omega) (by omega) (by omega),
          h.moved _ (by omega), makeRoom_back (by unfold iphLen; omega) (by omega)]
        congr 1
        omega
    case len =>
      rw [ho.1, h.len, chainBytes_cons_length]
      simp only [chainBytes, List.length_nil]
      omega
    case extLen =>
      rw [ho.2.1, h.extLen, chainBytes_cons_length]
      simp only [chainBytes, List.length_nil]
      omega
    case field =>
      rw [ho.1, ← h.field]
      unfold Uip.lenField
      rw [hkeep 4 (by omega) (by omega) (by omega), hkeep 5 (by omega) (by omega) (by omega)]
    case mtu =>
      rw [ho.1]
      exact hm

theorem proto_mem_chainBytes (up : Upper) : ∀ {es : List ExtHdr}, es ≠ [] → up.proto ∈ chainBytes es up
  | [], h => absurd rfl h
  | [e], _ => by simp [chainBytes, firstProto]
  | e :: e' :: es, _ => by
    have ih := proto_mem_chainBytes up (List.cons_ne_nil e' es)
    rw [chainBytes]
    exact List.mem_cons_of_mem _ (List.mem_cons_of_mem _ (List.mem_append_right _ ih))

/-- Other extension headers are overwritten: what stands behind the header is not what stood in front
of the payload. -/
theorem Inserted.not_carries (h : Inserted u u' first cmpri count x) (hc : Carries u dest es up) (hne : es ≠ [])
    (ho : OnlyRoute cmpri count u' q) {srh : ExtHdr} (hq : Carries q dest (srh :: es) up) : False := by
  have hpad := h.pad
  rw [fullLen_eq] at hpad
  have hsize := h.size
  have hkeep : ∀ y, 40 ≤ y → y ≠ 43 → y < 48 ∨ 40 + x ≤ y → q.buf y = u'.buf y :=
    fun y h1 h2 h3 => ho.2.2 y (.inr h1) h2 (by omega)
  have hqb := hq.bytes
  have hd := srh.length
  have hcb := hc.bytes
  have hext := hc.extLen
  unfold iphLen at hqb hcb
  simp only [chainBytes, List.cons_append, List.append_assoc, Mem.holds_cons, Mem.holds_append] at hqb
  rw [Mem.holds_append] at hcb
  obtain ⟨-, hq1, -, hq2, -⟩ := hqb
  have hlenbyte : srh.len.toNat * 8 + 8 = x := by
    rw [← hq1, hkeep (40 + 1) (by omega) (by omega) (by omega)]
    exact hsize
  rw [show 40 + 1 + 1 + srh.data.length = 40 + x by omega] at hq2
  have hback := Mem.holds_iff.1 hq2
  have hfront := Mem.holds_iff.1 hcb.1
  -- every byte of the headers is the one `x` places further on, or was cleared
  have hshift : ∀ i, i < (chainBytes es up).length →
      u.buf (40 + i) = if x + i < (chainBytes es up).length then u.buf (40 + (x + i)) else 0 := by
    intro i hi
    rw [hfront i hi, ← hback i hi, hkeep _ (by omega) (by omega) (by omega), h.moved _ (by omega)]
    unfold makeRoom iphLen
    split
    · rw [Mem.fill_of_out (by omega), Mem.copy_of_out (by omega), Nat.add_assoc]
    · unfold Mem.fill
      rw [if_pos ⟨by omega, by omega⟩]
  have hzero : ∀ n i, i < (chainBytes es up).length → (chainBytes es up).length - i ≤ n → u.buf (40 + i) = 0 := by
    intro n
    induction n with
    | zero => exact fun i hi hn => by omega
    | succ n ih =>
      intro i hi hn
      rw [hshift i hi]
      split
      · rename_i hlt
        exact ih (x + i) hlt (by omega)
      · rfl
  obtain ⟨i, hi, hget⟩ := List.mem_iff_getElem.1 (proto_mem_chainBytes up hne)
  have := hzero _ i hi le_rfl
  rw [hfront i hi, hget] at this
  exact up.proto_ne this

/-! ## The whole call -/

theorem insertPath_refused_iff {pathLen : Nat} : insertPath node u d r pathLen cmpri = .refused ↔
    linkMtu < u.len + (srhSize pathLen cmpri).2 := by
  unfold insertPath
  generalize srhSize pathLen cmpri = size
  obtain ⟨padding, x⟩ := size
  dsimp only
  split_ifs with h1 h2
  · simp [h1]
  · simp [h1]
  · simp only [h1, iff_false]
    split <;> simp

theorem insertPath_lost {pathLen : Nat} (h : ¬linkMtu < u.len + (srhSize pathLen cmpri).2)
    (h' : node.bufSize < u.len + u.extLen + (srhSize pathLen cmpri).2) : insertPath node u d r pathLen cmpri = .lost := by
  unfold insertPath
  generalize srhSize pathLen cmpri = size at h h'
  obtain ⟨padding, x⟩ := size
  dsimp only at h h' ⊢
  rw [if_neg h, if_pos h']

theorem update_cases {as bs : List ExtHdr} (hroot : AtRoot node) (hnet : Deployed node ifaces)
    (hc : Carries u dest (as ++ bs) up) (ha : ∀ e ∈ as, isRpl e = true) (hb : ∀ e ∈ bs, isRpl e = false)
    (hd : node.getNode dest = some d) (hr : node.getNode node.inst.dagId = some r) (hup : Climb node.parent r d ns)
    (hend : EndsAtRoot node r d) :
    (linkMtu < iphLen + (chainBytes bs up).length + up.data.length + insertedLen node dest ns ∧
        rplExtHeaderUpdate node u = .refused) ∨ ((248 < fullLen (addrCount ns) (addrComp node dest ns) ∨
        node.bufSize < iphLen + 2 * (chainBytes bs up).length + up.data.length + insertedLen node dest ns) ∧
        ¬linkMtu < iphLen + (chainBytes bs up).length + up.data.length + insertedLen node dest ns ∧
        rplExtHeaderUpdate node u = .lost) ∨ (fullLen (addrCount ns) (addrComp node dest ns) ≤ 248 ∧
        iphLen + 2 * (chainBytes bs up).length + up.data.length + insertedLen node dest ns ≤ node.bufSize ∧
        ¬linkMtu < iphLen + (chainBytes bs up).length + up.data.length + insertedLen node dest ns ∧
        ∃ u' u'', Carries u' dest bs up ∧ rplExtHeaderUpdate node u = .done u'' ∧
          Inserted u' u'' ((hops node ns).headD dest) (addrComp node dest ns) (addrCount ns) (insertedLen node dest ns) ∧
          u''.len ≤ linkMtu ∧ (AllAccept ifaces (hops node ns) → ∃ q, Forwarded ifaces (hops node ns) u'' q) ∧
          ∀ q, Forwarded ifaces (hops node ns) u'' q → AllAccept ifaces (hops node ns) ∧ q.buf 43 = 0 ∧
            q.destipaddr = dest ∧ OnlyRoute (addrComp node dest ns) (addrCount ns) u'' q) := by
  obtain ⟨u', hc', hupd⟩ := update_eq hroot hc ha hb hd hr hup hend
  have hlen := hc'.len
  have hext := hc'.extLen
  have hcomp := addrComp_le node dest ns
  rw [hupd]
  unfold insertedLen
  by_cases hmtu : linkMtu < u'.len + (srhSize (addrCount ns % 256) (addrComp node dest ns)).2
  · exact .inl ⟨by omega, insertPath_refused_iff.2 hmtu⟩
  refine .inr ?_
  by_cases h8 : 248 < fullLen (addrCount ns) (addrComp node dest ns)
  · refine .inl ⟨.inl h8, by omega, ?_⟩
    rcases insertPath_short (u := u') hup rfl h8 with hr | hr
    · exact absurd (insertPath_refused_iff.1 hr) hmtu
    · exact hr
  by_cases hbuf : node.bufSize < u'.len + u'.extLen + (srhSize (addrCount ns % 256) (addrComp node dest ns)).2
  · exact .inl ⟨.inr (by omega), by omega, insertPath_lost hmtu hbuf⟩
  refine .inr ⟨by omega, by omega, by omega, u', ?_⟩
  have hloop := @addrLoop_eq _ dest _ _ _ _ hroot.graph (getNode_mem hd) hup hend rfl u'.destipaddr
  obtain ⟨u'', buf, buf', hdone, hrun, hback, hins⟩ := insertPath_done hcomp (by omega) (by omega) (by omega) (by omega)
    fun buf => (hloop buf).imp fun _ h => ⟨h.1, h.2.1⟩
  rw [addrOf_getNode hd] at hins
  have hulen : u''.len ≤ linkMtu := by
    rw [hins.len]
    omega
  refine ⟨u'', hc', hdone, hins, hulen, ?_⟩
  have hsegs := hins.segs
  have hdest := hins.dest
  -- the root itself, or a path
  cases hup with
  | root =>
    refine ⟨fun _ => ⟨u'', rfl⟩, ?_⟩
    rintro q rfl
    exact ⟨trivial, UInt8.toNat_inj.1 hsegs, hdest, OnlyRoute.refl _⟩
  | @node _ p rest hne hp hup =>
    have hcount : addrCount (d :: rest) = rest.length := by simp [addrCount]
    have hslots : ∀ i b, (hops node (d :: rest))[i + 1]? = some b → ∀ j < 16 - addrComp node dest (d :: rest),
        u''.buf (48 + i * (16 - addrComp node dest (d :: rest)) + j) = byteOf b (addrComp node dest (d :: rest) + j) := by
      obtain ⟨buf2, hrun2, -, hslots⟩ := hloop buf
      rw [hrun] at hrun2
      cases hrun2
      intro i b hb j hj
      rw [hback _ (by omega)]
      exact hslots i b hb j hj
    have hpath : (hops node (d :: rest)).length = addrCount (d :: rest) + 1 := by
      rw [hops_length, List.length_cons, hcount]
    have hfirst : (hops node (d :: rest))[0]? = some u''.destipaddr := by
      rw [hdest, List.headD_eq_head?_getD, List.head?_eq_getElem?, List.getElem?_eq_getElem (by omega)]
      rfl
    have hsame : ∀ a ∈ hops node (d :: rest), ∀ j < addrComp node dest (d :: rest), byteOf a j = byteOf dest j := by
      intro a ha j hj
      unfold hops at ha
      obtain ⟨n, hn, rfl⟩ := List.mem_map.1 (List.mem_reverse.1 ha)
      rcases List.mem_cons.1 hn with rfl | hn
      · rw [addrOf_getNode hd]
      · exact commonBytes_eq node dest rest 15 n hn j hj
    have hway : OnWay (hops node (d :: rest)) (addrComp node dest (d :: rest)) (addrCount (d :: rest)) 0 u'' := by
      have hsize := hins.size
      constructor
      case length => exact hpath
      case comp => exact hcomp
      case common => exact fun a ha b hb j hj => (hsame a ha j hj).trans (hsame b hb j hj).symm
      case proto => exact hins.proto
      case type => exact hins.type
      case segs => exact hins.segs
      case cmpr => exact hins.cmpr
      case size => exact hsize.trans hins.pad
      case small =>
        rw [hsize]
        exact (srhSize_eq hcomp (by omega)).2.2.2
      case room =>
        rw [hsize, hins.len]
        unfold iphLen at hlen
        omega
      case dest => exact hfirst
      case slots => exact fun i b _ hb j hj => hslots i b hb j hj
    have hroom : ∀ a, u''.len ≤ (ifaces a).bufSize := by
      intro a
      rw [hnet.bufSize, hins.len]
      omega
    obtain ⟨h1, h2⟩ := OnWay.forwarded hroom (show 0 + addrCount (d :: rest) = addrCount (d :: rest) by omega) hway rfl
    rw [List.drop_zero] at h1 h2
    refine ⟨h1, fun q hq => ?_⟩
    obtain ⟨hacc, hq', honly⟩ := h2 q hq
    have hseg := hq'.segs
    refine ⟨hacc, UInt8.toNat_inj.1 (show (q.buf 43).toNat = 0 by omega), ?_, honly⟩
    have hlast : (hops node (d :: rest))[addrCount (d :: rest)]? = some dest := by
      rw [hops_cons, List.getElem?_append_right (by rw [hops_length, hcount]), hops_length, hcount, Nat.sub_self,
        addrOf_getNode hd]
      rfl
    exact (Option.some.inj (hlast.symm.trans hq'.dest)).symm

theorem routed_of (hroot : AtRoot node) (hnet : Deployed node ifaces) (hc : Carries u dest exts up)
    (hd : node.getNode dest = some d) (hr : node.getNode node.inst.dagId = some r) (hup : Climb node.parent r d ns)
    (hend : EndsAtRoot node r d) (h : TooLong node dest ns exts up ∨ Fits node dest ns exts up) :
    Routed ifaces (hops node ns) dest exts up (rplExtHeaderUpdate node u) := by
  rcases h with ⟨⟨as, bs, rfl, ha, hb⟩, hlong⟩ | h
  · rw [kept_append ha hb] at hlong
    rcases update_cases hroot hnet hc ha hb hd hr hup hend with ⟨-, hres⟩ | ⟨-, hn, -⟩ | ⟨-, -, hn, -⟩
    · rw [hres]
      trivial
    · exact absurd hlong hn
    · exact absurd hlong hn
  · have hc' : Carries u dest (exts ++ []) up := by rwa [List.append_nil]
    have h8 := h.eight
    have hbuf := h.buffer
    rcases update_cases hroot hnet hc' h.own (by simp) hd hr hup hend with
      ⟨-, hres⟩ | ⟨hbad | hbad, -⟩ | ⟨-, -, -, u', u'', hcar, hres, hins, hm, hgo, hall⟩
    · rw [hres]
      trivial
    · omega
    · simp only [chainBytes, List.length_nil] at hbad
      omega
    · rw [hres]
      obtain ⟨q, hq⟩ := hgo ((allAccept_iff hnet (hops_net node ns)).2 h.passable)
      obtain ⟨-, hseg, hdest, honly⟩ := hall q hq
      obtain ⟨srh, hproto, hcarries⟩ := hins.carries hcar honly hdest hm
      have hkept : kept exts = [] := by
        unfold kept
        exact List.filter_eq_nil_iff.2 fun e he => by simp [h.own e he]
      refine ⟨q, srh, hq, hseg, hproto, ?_⟩
      rw [hkept]
      exact hcarries

theorem routed_only (hroot : AtRoot node) (hnet : Deployed node ifaces) (hc : Carries u dest exts up)
    (hd : node.getNode dest = some d) (hr : node.getNode node.inst.dagId = some r) (hup : Climb node.parent r d ns)
    (hend : EndsAtRoot node r d) (hfirst : RplFirst exts)
    (h : Routed ifaces (hops node ns) dest exts up (rplExtHeaderUpdate node u)) :
    TooLong node dest ns exts up ∨ Fits node dest ns exts up := by
  obtain ⟨as, bs, rfl, ha, hb⟩ := hfirst
  have hkept := kept_append ha hb
  rcases update_cases hroot hnet hc ha hb hd hr hup hend with
    ⟨hlong, -⟩ | ⟨-, -, hres⟩ | ⟨h8, hbuf, -, u', u'', hcar, hres, hins, hm, -, hall⟩
  · exact .inl ⟨⟨as, bs, rfl, ha, hb⟩, by rwa [hkept]⟩
  · rw [hres] at h
    cases h
  · rw [hres] at h
    obtain ⟨q, srh, hq, -, -, hcq⟩ := h
    obtain ⟨hacc, -, -, honly⟩ := hall q hq
    rw [hkept] at hcq
    have hbs : bs = [] := by
      by_contra hne
      exact hins.not_carries hcar hne honly hcq
    subst hbs
    rw [List.append_nil] at *
    simp only [chainBytes, List.length_nil] at hbuf
    exact .inr ⟨ha, h8, by omega, (allAccept_iff hnet (hops_net node ns)).1 hacc⟩

/-- A packet to a destination with a parent path is refused or comes along that path as it should when
it is too long or fits, and, with RPL's headers in front of all others, only then. -/
theorem srh_routed (hroot : AtRoot node) (hnet : Deployed node ifaces) (hc : Carries u dest exts up)
    (hd : node.getNode dest = some d) (hr : node.getNode node.inst.dagId = some r) (hup : Climb node.parent r d ns) :
    (EndsAtRoot node r d ∧ (TooLong node dest ns exts up ∨ Fits node dest ns exts up) →
        Routed ifaces (hops node ns) dest exts up (rplExtHeaderUpdate node u)) ∧ (EndsAtRoot node r d → RplFirst exts →
        Routed ifaces (hops node ns) dest exts up (rplExtHeaderUpdate node u) →
        TooLong node dest ns exts up ∨ Fits node dest ns exts up) :=
  ⟨fun h => routed_of hroot hnet hc hd hr hup h.1 h.2, routed_only hroot hnet hc hd hr hup⟩

/-! ## A small network -/

/-- `fd00::1` and `fd00::2`. -/
def rootAddr : Ipaddr := .join ![0xfd, 0, 0, 0, 0, 0, 0, 0] ![0, 0, 0, 0, 0, 0, 0, 1]

/-- A root with one child, `fd00::2`. -/
def smallNode : Node where
  isMyAddr := fun a => decide (a = rootAddr)
  isMyMaddr := fun _ => false
  bufSize := 1280
  inst := ⟨true, 30, 128, 128, rootAddr, 64⟩
  sr :=
    let env : Sr.Env := ⟨fun _ => rootAddr.net, rootAddr, 8, 60⟩
    (uipSrUpdateNode env (uipSrInit env) 0 node2 (some rootAddr) 1800).1
  linkNum := 8
  removalDelay := 60
  curHopLimit := 64

def smallIfaces (a : Ipaddr) : Iface := ⟨fun b => decide (b = a), fun _ => false, 1280⟩

theorem smallNode_root : AtRoot smallNode := by
  constructor
  case used => rfl
  case rank => rfl
  case length => rfl
  case notLocal => decide
  case notMcast => decide
  case graph => exact step_inv (init_inv _) (.update 0 node2 (some rootAddr) 1800) rfl

theorem smallIfaces_deployed : Deployed smallNode smallIfaces := ⟨fun _ _ _ => Bool.or_false _, fun _ => rfl⟩

theorem smallNode_climb : Climb smallNode.parent 0 1 [1] := .node (by decide) (by decide) .root

/-- A packet of 8 bytes of UDP behind the extension headers `ext`. -/
def smallPacket (proto : UInt8) (ext : List UInt8) : Uip where
  buf := fun i => ([0x60, 0, 0, 0, 0, UInt8.ofNat (ext.length + 8), proto, 64] ++ List.ofFn rootAddr ++ List.ofFn node2 ++
    ext ++ [0x16, 0x33, 0x16, 0x33, 0, 8, 0, 0]).getD i 0
  len := 48 + ext.length
  extLen := ext.length

def smallUdp : Upper := ⟨protoUdp, [0x16, 0x33, 0x16, 0x33, 0, 8, 0, 0], by decide, by decide⟩

def destOptions : ExtHdr := ⟨60, 0, [1, 4, 0, 0, 0, 0], by decide, by decide⟩

theorem smallPacket_carries : Carries (smallPacket protoUdp []) node2 [] smallUdp := by
  constructor
  case dest => decide
  case proto => decide
  case bytes => exact ⟨rfl, rfl, rfl, rfl, rfl, rfl, rfl, rfl, trivial⟩
  case len => rfl
  case extLen => rfl
  case field => decide
  case mtu => decide

theorem srh_routed_small : Routed smallIfaces (hops smallNode [1]) node2 [] smallUdp
    (rplExtHeaderUpdate smallNode (smallPacket protoUdp [])) :=
  (srh_routed smallNode_root smallIfaces_deployed smallPacket_carries (by decide) (by decide) smallNode_climb).1
    ⟨fun h => absurd h (by decide), .inr ⟨by simp, by decide, by decide, by simp [hops, Passable, isRevisited]⟩⟩

/-- A destination options header in the packet: it is gone when the packet arrives. -/
theorem destOptions_overwritten : ¬Routed smallIfaces (hops smallNode [1]) node2 [destOptions] smallUdp
    (rplExtHeaderUpdate smallNode (smallPacket 60 [17, 0, 1, 4, 0, 0, 0, 0])) := by
  intro h
  have hc : Carries (smallPacket 60 [17, 0, 1, 4, 0, 0, 0, 0]) node2 [destOptions] smallUdp := by
    constructor
    case dest => decide
    case proto => decide
    case bytes => exact ⟨rfl, rfl, rfl, rfl, rfl, rfl, rfl, rfl, rfl, rfl, rfl, rfl, rfl, rfl, rfl, rfl, trivial⟩
    case len => rfl
    case extLen => rfl
    case field => decide
    case mtu => decide
  rcases routed_only smallNode_root smallIfaces_deployed hc (by decide) (by decide) smallNode_climb
    (fun h => absurd h (by decide)) ⟨[], [destOptions], rfl, by simp, by decide⟩ h with hlong | hfits
  · revert hlong
    rintro ⟨-, hlong⟩
    revert hlong
    decide
  · have := hfits.own destOptions (by simp)
    revert this
    decide

end Contiki.RplLite
