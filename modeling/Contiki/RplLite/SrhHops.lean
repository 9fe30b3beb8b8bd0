/-
The parent path of a destination and the two loops of `insert_srh_header` that climb it: what the
first counts, what the second writes where, and when it runs out of the front of the buffer.
-/
import Contiki.RplLite.ExtHeader
import Contiki.Sr.Model

namespace Contiki.RplLite

section

open Contiki.Lib Contiki.Core Contiki.Sr

variable {node : Node} {root n : Nat} {ns : List Nat} {dest : Ipaddr}

/-! ## The path -/

/-- The nodes from `n` up to the root, which is left out. -/
inductive Climb (parent : Nat → Option Nat) (root : Nat) : Nat → List Nat → Prop where
  | root : Climb parent root root []
  | node {n p : Nat} {ns : List Nat} : n ≠ root → parent n = some p → Climb parent root p ns →
      Climb parent root n (n :: ns)

/-- The addresses a packet from the root passes on its way to the first of these nodes. -/
def hops (node : Node) (ns : List Nat) : List Ipaddr := (ns.map node.addrOf).reverse

theorem Climb.length_le {parent : Nat → Option Nat} {n k : Nat} {ns : List Nat} (h : Climb parent root n ns)
    (hw : walk parent k n = some root) : ns.length ≤ k := by
  induction h generalizing k with
  | root => exact Nat.zero_le k
  | @node n p ns hne hp _ ih =>
    cases k with
    | zero => exact absurd (Option.some.inj hw) hne
    | succ k =>
      simp only [walk, hp, Option.bind_some] at hw
      exact Nat.succ_le_succ (ih hw)

theorem climb_iff {parent : Nat → Option Nat} : Leads parent n root ↔ ∃ ns, Climb parent root n ns := by
  constructor
  · intro h
    induction h using Relation.ReflTransGen.head_induction_on with
    | refl => exact ⟨[], .root⟩
    | @head x y hxy _ ih =>
      obtain ⟨ns, hns⟩ := ih
      by_cases hx : x = root
      · rw [hx]
        exact ⟨[], .root⟩
      · exact ⟨x :: ns, .node hx hxy hns⟩
  · rintro ⟨ns, h⟩
    induction h with
    | root => exact .refl
    | node _ hp _ ih => exact .head hp ih

theorem reachable_iff (h : Inv node.env node.sr) : uipSrIsAddrReachable node.env node.sr 0 dest = true ↔
    ∃ d r ns, node.getNode dest = some d ∧ node.getNode node.inst.dagId = some r ∧ Climb node.parent r d ns := by
  rw [isAddrReachable_iff h]
  constructor
  · rintro ⟨d, hd, r, hr, hl⟩
    have hg : (node.sr.node d).graph = 0 := congrArg Prod.fst (getNode_some hd).2
    rw [hg] at hr
    obtain ⟨ns, hns⟩ := climb_iff.1 hl
    exact ⟨d, r, ns, hd, hr, hns⟩
  · rintro ⟨d, r, ns, hd, hr, hns⟩
    have hg : (node.sr.node d).graph = 0 := congrArg Prod.fst (getNode_some hd).2
    refine ⟨d, hd, r, ?_, climb_iff.2 ⟨ns, hns⟩⟩
    rw [hg]
    exact hr

theorem Climb.short (h : Climb node.parent root n ns) (hi : Inv node.env node.sr) (hn : n ∈ node.sr.nodelist) :
    ns.length < node.linkNum + 1 := by
  obtain ⟨k, hk, hw⟩ := short_walk hi.parents hn (climb_iff.2 ⟨ns, h⟩)
  have hle := hi.mem.length_le
  rw [hi.num] at hle
  have := h.length_le hw
  have : node.env.linkNum = node.linkNum := rfl
  omega

theorem Climb.root_eq {parent : Nat → Option Nat} (h : Climb parent root root ns) : ns = [] := by
  cases h with
  | root => rfl
  | node hne _ _ => exact absurd rfl hne

theorem Climb.nil_eq {parent : Nat → Option Nat} (h : Climb parent root n []) : n = root := by
  cases h
  rfl

/-! ## Counting -/

theorem matchLoop_spec (p1 p2 : Ipaddr) : ∀ todo i, i ≤ matchLoop p1 p2 todo i ∧ matchLoop p1 p2 todo i ≤ i + todo ∧
    ∀ j, i ≤ j → j < matchLoop p1 p2 todo i → byteOf p1 j = byteOf p2 j
  | 0, i => ⟨le_rfl, le_rfl, fun j h1 h2 => by rw [matchLoop] at h2; omega⟩
  | todo + 1, i => by
    rw [matchLoop]
    split
    · exact ⟨le_rfl, by omega, fun j h1 h2 => by omega⟩
    · rename_i he
      obtain ⟨h1, h2, h3⟩ := matchLoop_spec p1 p2 todo (i + 1)
      refine ⟨by omega, by omega, fun j hij hj => ?_⟩
      by_cases hji : j = i
      · rw [hji]
        exact not_not.1 he
      · exact h3 j (by omega) hj

/-- The bytes that all these nodes have in common with the destination, at most 15. -/
def commonBytes (node : Node) (dest : Ipaddr) (ns : List Nat) (c : Nat) : Nat :=
  ns.foldl (fun c n => min c (countMatchingBytes (node.addrOf n) dest)) c

theorem commonBytes_le (node : Node) (dest : Ipaddr) : ∀ (ns : List Nat) (c : Nat), commonBytes node dest ns c ≤ c
  | [], _ => le_rfl
  | _ :: ns, _ => (commonBytes_le node dest ns _).trans (Nat.min_le_left ..)

theorem commonBytes_eq (node : Node) (dest : Ipaddr) : ∀ (ns : List Nat) (c : Nat), ∀ n ∈ ns,
    ∀ j < commonBytes node dest ns c, byteOf (node.addrOf n) j = byteOf dest j
  | m :: ns, c, n, hn, j, hj => by
    have hj' : j < commonBytes node dest ns (min c (countMatchingBytes (node.addrOf m) dest)) := hj
    rcases List.mem_cons.1 hn with rfl | hn
    · have hle := commonBytes_le node dest ns (min c (countMatchingBytes (node.addrOf n) dest))
      exact (matchLoop_spec _ _ 16 0).2.2 j (Nat.zero_le j) (by unfold countMatchingBytes at hle hj'; omega)
    · exact commonBytes_eq node dest ns _ n hn j hj'

theorem pathLoop_climb {dest : Ipaddr} : ∀ {ns : List Nat} {n fuel pathLen cmpri : Nat}, Climb node.parent root n ns →
    ns.length < fuel → pathLen < 256 →
    pathLoop node root dest fuel (some n) pathLen cmpri =
      some ((pathLen + ns.length) % 256, commonBytes node dest ns cmpri)
  | [], n, fuel + 1, pathLen, cmpri, h, _, hp => by
    rw [h.nil_eq, pathLoop, if_pos rfl, List.length_nil, Nat.add_zero, Nat.mod_eq_of_lt hp]
    rfl
  | m :: ns, n, fuel + 1, pathLen, cmpri, h, hf, _ => by
    cases h with
    | @node _ p _ hne hpar hup =>
      rw [pathLoop, if_neg hne, hpar, pathLoop_climb hup (by simpa using hf) (by omega)]
      have hlen : ((pathLen + 1) % 256 + ns.length) % 256 = (pathLen + (m :: ns).length) % 256 := by
        rw [List.length_cons]
        omega
      rw [hlen]
      rfl

/-! ## Writing the addresses -/

theorem hops_cons (node : Node) (n : Nat) (ns : List Nat) : hops node (n :: ns) = hops node ns ++ [node.addrOf n] := by
  unfold hops
  rw [List.map_cons, List.reverse_cons]

theorem hops_length (node : Node) (ns : List Nat) : (hops node ns).length = ns.length := by
  unfold hops
  rw [List.length_reverse, List.length_map]

/-- The loop writes the addresses of all nodes but the last one, below the root, which it returns. -/
theorem addrLoop_climb {cmpri : Nat} : ∀ {ns : List Nat} {n fuel : Nat} (base : Nat) (addr : Ipaddr) (buf : Mem),
    Climb node.parent root n (n :: ns) → ns.length < fuel →
    ∃ a buf', addrLoop node root cmpri fuel (some n) addr (base + ns.length * (16 - cmpri)) buf = some (a, buf') ∧
      (hops node (n :: ns))[0]? = some a ∧
      Mem.SameOutside base (ns.length * (16 - cmpri)) buf buf' ∧
      ∀ i b, (hops node (n :: ns))[i + 1]? = some b → ∀ j < 16 - cmpri,
        buf' (base + i * (16 - cmpri) + j) = byteOf b (cmpri + j)
  | [], n, _ + 1, base, addr, buf, h, _ => by
    cases h with
    | @node _ p _ hne hpar hup =>
      rw [hup.nil_eq] at hpar
      refine ⟨node.addrOf n, buf, ?_, rfl, fun _ _ => rfl, fun i b hb => ?_⟩
      · rw [addrLoop, if_pos hpar]
      · simp [hops] at hb
  | m :: ns, n, fuel + 1, base, addr, buf, h, hf => by
    cases h with
    | @node _ p _ hne hpar hup =>
      have hm : m = p := by
        cases hup
        rfl
      subst hm
      have hroot : node.parent n ≠ some root := by
        rw [hpar]
        intro he
        have := Option.some.inj he
        rw [this] at hup
        cases hup.root_eq
      have hsucc : (m :: ns).length * (16 - cmpri) = ns.length * (16 - cmpri) + (16 - cmpri) := by
        rw [List.length_cons, Nat.succ_mul]
      obtain ⟨a, buf', hrun, hfirst, hout, hslots⟩ :=
        addrLoop_climb base (node.addrOf n) (Mem.paste (base + ns.length * (16 - cmpri)) (16 - cmpri)
          (fun j => byteOf (node.addrOf n) (cmpri + j)) buf) hup (by simpa using hf)
      have hlen : (hops node (m :: ns)).length = ns.length + 1 := hops_length node _
      refine ⟨a, buf', ?_, ?_, ?_, ?_⟩
      · rw [addrLoop, if_neg hroot, if_neg (by omega), hpar, hsucc,
          show base + (ns.length * (16 - cmpri) + (16 - cmpri)) - (16 - cmpri) = base + ns.length * (16 - cmpri) by omega]
        exact hrun
      · rw [hops_cons, List.getElem?_append_left (by omega)]
        exact hfirst
      · intro x hx
        rw [hout x (by omega), Mem.paste_of_out (by omega)]
      · intro i b hb j hj
        rw [hops_cons] at hb
        by_cases hi : i + 1 < ns.length + 1
        · rw [List.getElem?_append_left (by omega)] at hb
          exact hslots i b hb j hj
        · -- the address of `n` itself is the one written here, above all others
          rw [List.getElem?_append_right (by omega), hlen] at hb
          have hi' : i = ns.length := by
            by_contra hne'
            rw [List.getElem?_eq_none (by rw [List.length_singleton]; omega)] at hb
            cases hb
          subst hi'
          rw [Nat.sub_self] at hb
          cases hb
          rw [hout _ (by omega), Mem.paste_in (by omega) (by omega)]
          congr 1
          omega

theorem addrLoop_short {cmpri : Nat} : ∀ {ns : List Nat} {n fuel hopPtr : Nat} {addr : Ipaddr} {buf : Mem},
    Climb node.parent root n (n :: ns) → hopPtr < ns.length * (16 - cmpri) →
    addrLoop node root cmpri fuel (some n) addr hopPtr buf = none
  | [], _, _, _, _, _, _, hs => by simp at hs
  | m :: ns, n, fuel, hopPtr, addr, buf, h, hs => by
    cases fuel with
    | zero => rfl
    | succ fuel =>
      cases h with
      | @node _ p _ hne hpar hup =>
        have hm : m = p := by
          cases hup
          rfl
        subst hm
        have hroot : node.parent n ≠ some root := by
          rw [hpar]
          intro he
          have := Option.some.inj he
          rw [this] at hup
          cases hup.root_eq
        rw [addrLoop, if_neg hroot]
        split
        · rfl
        · rw [List.length_cons, Nat.succ_mul] at hs
          rw [hpar]
          exact addrLoop_short hup (by omega)

/-! ## The size of the header -/

def fullLen (count cmpri : Nat) : Nat := rhLen + srhLen + count * (16 - cmpri)

theorem srhSize_eq {count cmpri : Nat} (hc : cmpri ≤ 15) (h : fullLen count cmpri ≤ 248) :
    (srhSize (count % 256) cmpri).2 = fullLen count cmpri + (srhSize (count % 256) cmpri).1 ∧
      (srhSize (count % 256) cmpri).1 < 8 ∧ (srhSize (count % 256) cmpri).2 % 8 = 0 ∧
      (srhSize (count % 256) cmpri).2 ≤ 248 := by
  have hcount : count % 256 = count := by
    have : count * 1 ≤ count * (16 - cmpri) := Nat.mul_le_mul_left count (by omega)
    unfold fullLen rhLen srhLen at h
    exact Nat.mod_eq_of_lt (by omega)
  have hfull : toU8 ((rhLen : Int) + srhLen + ((count : Int) - 1) * (16 - cmpri) + (16 - cmpri)) = fullLen count cmpri := by
    have he : (rhLen : Int) + srhLen + ((count : Int) - 1) * (16 - cmpri) + (16 - cmpri) = (fullLen count cmpri : Nat) := by
      unfold fullLen
      push_cast [show cmpri ≤ 16 by omega]
      ring
    rw [he]
    unfold toU8
    omega
  rw [hcount]
  unfold srhSize padded
  rw [hfull]
  dsimp only
  split <;> omega

theorem srhSize_short {count cmpri : Nat} (hc : cmpri ≤ 15) (h : 248 < fullLen count cmpri) :
    iphLen + (srhSize (count % 256) cmpri).2 - (srhSize (count % 256) cmpri).1 < count * (16 - cmpri) := by
  have hfull : ∃ full : Nat, full = fullLen (count % 256) cmpri ∧
      toU8 ((rhLen : Int) + srhLen + (((count % 256 : Nat) : Int) - 1) * (16 - cmpri) + (16 - cmpri)) = full % 256 := by
    refine ⟨_, rfl, ?_⟩
    have he : (rhLen : Int) + srhLen + (((count % 256 : Nat) : Int) - 1) * (16 - cmpri) + (16 - cmpri) =
        (fullLen (count % 256) cmpri : Nat) := by
      unfold fullLen
      push_cast [show cmpri ≤ 16 by omega]
      ring
    rw [he]
    unfold toU8
    omega
  obtain ⟨full, hf, hu⟩ := hfull
  have hw : 1 ≤ 16 - cmpri := by omega
  unfold srhSize padded
  rw [hu]
  dsimp only
  unfold fullLen rhLen srhLen at h hf
  unfold iphLen
  rcases Nat.lt_or_ge count 256 with hlt | hge
  · rw [Nat.mod_eq_of_lt hlt] at hf
    generalize count * (16 - cmpri) = total at h hf ⊢
    split <;> omega
  · -- the count itself has wrapped: at least 256 addresses more are written than counted
    have hsplit : count * (16 - cmpri) = count % 256 * (16 - cmpri) + count / 256 * 256 * (16 - cmpri) := by
      rw [← Nat.add_mul]
      congr 1
      omega
    have hmore : 256 * 1 ≤ count / 256 * 256 * (16 - cmpri) := by
      apply Nat.mul_le_mul _ hw
      omega
    generalize count / 256 * 256 * (16 - cmpri) = more at hsplit hmore
    generalize count % 256 * (16 - cmpri) = counted at hf hsplit
    generalize count * (16 - cmpri) = total at hsplit ⊢
    split <;> omega

end

/-!
A packet with a source routing header on its way: the state of the header at each place of the path,
which hops let it pass, and what a whole way does to it.
-/

section

open Contiki.Lib Contiki.Core

variable {iface : Iface} {ifaces : Ipaddr → Iface} {path : List Ipaddr} {cmpri k count : Nat} {u u' q : Uip}
  {a : Ipaddr}

/-! ## The way of a packet -/

/-- The packet is addressed to each of these nodes in turn, and each applies
`rpl_ext_header_srh_update` to it once. -/
def Forwarded (ifaces : Ipaddr → Iface) : List Ipaddr → Uip → Uip → Prop
  | [], u, q => q = u
  | a :: as, u, q => u.destipaddr = a ∧ ∃ u', rplExtHeaderSrhUpdate (ifaces a) u = some u' ∧ Forwarded ifaces as u' q

/-- Addresses that no packet is sent to. -/
def isBadHop (a : Ipaddr) : Bool := isAddrMcast a || isAddrUnspecified a || isAddrLoopback a

/-- What `srh_is_valid` makes of the addresses ahead. -/
@[grind =]
def accepts (iface : Iface) : List Ipaddr → Bool → Nat → Bool
  | [], _, _ => true
  | a :: as, prevHopIsMyAddr, myAddrCount =>
    let mine := iface.isMyAddr a || iface.isMyMaddr a
    let myAddrCount := if mine then myAddrCount + 1 else myAddrCount
    if mine = true ∧ prevHopIsMyAddr = false ∧ 1 < myAddrCount then
      false
    else if isBadHop a then
      false
    else
      accepts iface as mine myAddrCount

/-- `a` is met again ahead, and then once more after another address. -/
def isRevisited (a : Ipaddr) (ahead : List Ipaddr) : Prop := a ∈ (ahead.dropWhile (· != a)).dropWhile (· == a)

/-- No hop of the path is bad for a packet, and none is passed so often that it takes the path for a
loop. -/
@[grind =]
def Passable : List Ipaddr → Prop
  | [] => True
  | a :: as => (∀ b ∈ as, isBadHop b = false) ∧ ¬isRevisited a as ∧ Passable as

section Accepts

variable {as : List Ipaddr} {myAddrCount : Nat}

theorem accepts_cons (b : Ipaddr) (as : List Ipaddr) (prev : Bool) (n : Nat)
    (hown : (iface.isMyAddr b || iface.isMyMaddr b) = decide (b = a)) : accepts iface (b :: as) prev n = true ↔
      ¬(b = a ∧ prev = false ∧ 1 ≤ n) ∧ isBadHop b = false ∧
        accepts iface as (decide (b = a)) (if b = a then n + 1 else n) = true := by
  rw [accepts, hown]
  by_cases hb : b = a
  · have hlt : 1 < n + 1 ↔ 1 ≤ n := by omega
    simp only [hb, decide_true, if_true, true_and, hlt]
    by_cases h1 : prev = false ∧ 1 ≤ n
    · simp [h1]
    · cases h2 : isBadHop a <;> simp [h1]
  · simp only [hb, decide_false, if_false, false_and, Bool.false_eq_true]
    split_ifs with h2
    · simp [h2]
    · simp [h2]

theorem accepts_passed : ∀ {as : List Ipaddr} {n : Nat}, 1 ≤ n →
    (∀ b ∈ as, (iface.isMyAddr b || iface.isMyMaddr b) = decide (b = a)) →
    (accepts iface as false n = true ↔ (∀ b ∈ as, isBadHop b = false) ∧ a ∉ as)
  | [], _, _, _ => by simp [accepts]
  | b :: as, n, hn, hown => by
    rw [accepts_cons b as false n (hown b (by simp))]
    by_cases hb : b = a
    · simp [hb, hn]
    · have ih := accepts_passed hn fun c hc => hown c (List.mem_cons_of_mem b hc)
      simp only [hb, decide_false, if_false, false_and, not_false_eq_true, true_and, ih, List.mem_cons, forall_eq_or_imp,
        not_or, Ne.symm hb, and_assoc]

theorem accepts_staying : ∀ {as : List Ipaddr} {n : Nat}, 1 ≤ n →
    (∀ b ∈ as, (iface.isMyAddr b || iface.isMyMaddr b) = decide (b = a)) →
    (accepts iface as true n = true ↔ (∀ b ∈ as, isBadHop b = false) ∧ a ∉ as.dropWhile (· == a))
  | [], _, _, _ => by simp [accepts]
  | b :: as, n, hn, hown => by
    have hown' : ∀ c ∈ as, (iface.isMyAddr c || iface.isMyMaddr c) = decide (c = a) :=
      fun c hc => hown c (List.mem_cons_of_mem b hc)
    rw [accepts_cons b as true n (hown b (by simp))]
    by_cases hb : b = a
    · have ih := accepts_staying (n := n + 1) (by omega) hown'
      simp only [hb, decide_true, if_true, Bool.true_eq_false, false_and, and_false, not_false_eq_true, true_and, ih,
        List.mem_cons, forall_eq_or_imp, List.dropWhile_cons_of_pos, beq_self_eq_true, and_assoc]
    · have ih := accepts_passed hn hown'
      have hdrop : (b :: as).dropWhile (· == a) = b :: as := List.dropWhile_cons_of_neg (by simpa using hb)
      simp only [hb, decide_false, if_false, false_and, not_false_eq_true, true_and, ih, hdrop, List.mem_cons,
        forall_eq_or_imp, not_or, Ne.symm hb, and_assoc]

/-- A node that knows just its own address accepts what does not come back to it twice. -/
theorem accepts_iff : ∀ {as : List Ipaddr},
    (∀ b ∈ as, (iface.isMyAddr b || iface.isMyMaddr b) = decide (b = a)) →
    (accepts iface as false 0 = true ↔ (∀ b ∈ as, isBadHop b = false) ∧ ¬isRevisited a as)
  | [], _ => by simp [accepts, isRevisited]
  | b :: as, hown => by
    have hown' : ∀ c ∈ as, (iface.isMyAddr c || iface.isMyMaddr c) = decide (c = a) :=
      fun c hc => hown c (List.mem_cons_of_mem b hc)
    rw [accepts_cons b as false 0 (hown b (by simp))]
    unfold isRevisited
    by_cases hb : b = a
    · have ih := accepts_staying (le_refl 1) hown'
      have hdrop : (b :: as).dropWhile (· != a) = b :: as := List.dropWhile_cons_of_neg (by simp [hb])
      have hdrop' : (b :: as).dropWhile (· == a) = as.dropWhile (· == a) := List.dropWhile_cons_of_pos (by simp [hb])
      rw [hdrop, hdrop']
      simp [hb, ih, and_assoc]
    · have ih := accepts_iff hown'
      have hdrop : (b :: as).dropWhile (· != a) = as.dropWhile (· != a) := List.dropWhile_cons_of_pos (by simp [hb])
      rw [hdrop]
      simp only [hb, decide_false, if_false, false_and, not_false_eq_true, true_and, ih, List.mem_cons, forall_eq_or_imp,
        and_assoc, isRevisited]

end Accepts

/-! ## The header on the way -/

/-- The packet is at the `k`-th address of the path, whose addresses share their first `cmpri` bytes:
behind the place it is at, the header holds the rest of the addresses that follow. -/
structure OnWay (path : List Ipaddr) (cmpri count k : Nat) (u : Uip) : Prop where
  length : path.length = count + 1
  comp : cmpri ≤ 15
  common : ∀ a ∈ path, ∀ b ∈ path, ∀ j < cmpri, byteOf a j = byteOf b j
  proto : u.buf 6 = protoRouting
  type : u.buf 42 = rhTypeSrh
  segs : (u.buf 43).toNat + k = count
  cmpr : (u.buf 44).toNat = cmpri * 16 + cmpri
  size : (u.buf 41).toNat * 8 + 8 = fullLen count cmpri + (u.buf 45).toNat / 16
  small : (u.buf 41).toNat * 8 + 8 ≤ 248
  room : 40 + ((u.buf 41).toNat * 8 + 8) ≤ u.len
  dest : path[k]? = some u.destipaddr
  slots : ∀ i b, k ≤ i → path[i + 1]? = some b → ∀ j < 16 - cmpri,
    u.buf (48 + i * (16 - cmpri) + j) = byteOf b (cmpri + j)

/-- What the hops change in a packet: its destination, the segments left and the addresses. -/
def OnlyRoute (cmpri count : Nat) (u u' : Uip) : Prop :=
  u'.len = u.len ∧ u'.extLen = u.extLen ∧
    ∀ x, x < 24 ∨ 40 ≤ x → x ≠ 43 → x < 48 ∨ 48 + count * (16 - cmpri) ≤ x → u'.buf x = u.buf x

theorem OnWay.search (h : OnWay path cmpri count k u) : searchHeader u.buf u.len protoRouting = some 40 := by
  have hroom := h.room
  have hnext : getNextHeader u.buf 0 u.len true = (protoRouting, some 40) := by
    unfold getNextHeader iphLen
    have hp : u.buf (0 + 6) = protoRouting := h.proto
    have hx : isProtoExtHdr protoRouting = true := by decide
    have h41 : u.buf (40 + 1) = u.buf 41 := rfl
    simp only [if_true, hp, hx, Nat.zero_add, true_and, h41]
    rw [if_neg (by omega), if_neg (by omega), if_neg (by omega)]
  unfold searchHeader
  rw [hnext, searchLoop, if_pos rfl]

theorem OnWay.parse (h : OnWay path cmpri count k u) : parseSrh u.buf 40 = ⟨count - k, cmpri, cmpri, count⟩ := by
  have hc := h.comp
  have hs := h.size
  have hsm := h.small
  have hcm := h.cmpr
  have hseg := h.segs
  have hcount : count < 256 := by
    have := (u.buf 43).toNat_lt
    have : count * 1 ≤ count * (16 - cmpri) := Nat.mul_le_mul_left count (by omega)
    unfold fullLen rhLen srhLen at hs
    omega
  have hdiv : (u.buf 44).toNat / 16 = cmpri := by omega
  have hmod : (u.buf 44).toNat % 16 = cmpri := by omega
  have hext : toU8 ((u.buf 41).toNat * 8 + 8) = (u.buf 41).toNat * 8 + 8 := by
    unfold toU8
    omega
  unfold parseSrh
  have h41 : u.buf (40 + 1) = u.buf 41 := rfl
  have h43 : u.buf (40 + 3) = u.buf 43 := rfl
  have h44 : u.buf (40 + 4) = u.buf 44 := rfl
  simp only [h41, h43, h44, hdiv, hmod, hext]
  congr 1
  · omega
  · -- the fixed part and the padding gone, `count` addresses are left
    have hw : ((16 : Int) - cmpri) ≠ 0 := by omega
    have hnum : (((u.buf 41).toNat * 8 + 8 : Nat) : Int) - ((u.buf 45).toNat / 16 : Nat) - rhLen - srhLen - (16 - cmpri) =
        ((count : Int) - 1) * (16 - cmpri) := by
      rw [hs]
      unfold fullLen
      push_cast [show cmpri ≤ 16 by omega]
      ring
    rw [hnum, Int.mul_tdiv_cancel _ hw]
    unfold toU8
    omega

theorem slot_lt {i : Nat} (hi : i < count) (w : Nat) : i * w + w ≤ count * w := by
  rw [← Nat.succ_mul]
  exact Nat.mul_le_mul_right w hi

theorem spliceAddr_eq {hop b : Ipaddr} {c : Nat} {bytes : Mem} (hlow : ∀ j < c, byteOf hop j = byteOf b j)
    (hhigh : ∀ j < 16 - c, bytes j = byteOf b (c + j)) : spliceAddr hop c bytes = b := by
  have hbyte : ∀ (x : Ipaddr) (j : Fin 16), byteOf x j.val = x j := fun x j => dif_pos j.isLt
  funext j
  unfold spliceAddr
  split
  · rename_i hj
    rw [← hbyte hop j, ← hbyte b j]
    exact hlow j hj
  · rename_i hj
    have hlt := j.isLt
    rw [hhigh (j.val - c) (by omega), ← hbyte b j]
    congr 1
    omega

theorem OnWay.validLoop (h : OnWay path cmpri count k u) (hbuf : u.len ≤ iface.bufSize) :
    ∀ (todo i : Nat) (hopAddr : Ipaddr) (prev : Bool) (n : Nat), i + todo = count → k ≤ i →
      (∀ b ∈ path, ∀ j < cmpri, byteOf hopAddr j = byteOf b j) →
      validLoop iface u.buf 40 cmpri cmpri todo i hopAddr prev n = accepts iface (path.drop (i + 1)) prev n
  | 0, i, hopAddr, prev, n, hi, _, _ => by
    have hlen := h.length
    rw [List.drop_of_length_le (by omega)]
    rfl
  | todo + 1, i, hopAddr, prev, n, hi, hk, hcommon => by
    have hlen := h.length
    have hc := h.comp
    have hroom := h.room
    have hsize := h.size
    unfold fullLen at hsize
    have hslot := slot_lt (show i < count by omega) (16 - cmpri)
    obtain ⟨b, hb⟩ : ∃ b, path[i + 1]? = some b := ⟨_, List.getElem?_eq_getElem (by omega)⟩
    have hmem : b ∈ path := List.mem_of_getElem? hb
    have hdrop : path.drop (i + 1) = b :: path.drop (i + 1 + 1) := by
      obtain ⟨hlt, hget⟩ := List.getElem?_eq_some_iff.1 hb
      rw [← hget]
      exact List.drop_eq_getElem_cons hlt
    have hsplice : spliceAddr hopAddr cmpri (fun j => u.buf (40 + (rhLen + srhLen + i * (16 - cmpri)) + j)) = b := by
      refine spliceAddr_eq (hcommon b hmem) fun j hj => ?_
      rw [← h.slots i b hk hb j hj]
      congr 1
      unfold rhLen srhLen
      omega
    rw [Contiki.RplLite.validLoop, if_neg (by omega), hsplice, hdrop, accepts]
    have ih := OnWay.validLoop h hbuf todo (i + 1) b
    have hcommon' : ∀ b' ∈ path, ∀ j < cmpri, byteOf b j = byteOf b' j := fun b' hb' => h.common b hmem b' hb'
    unfold isBadHop
    simp only [ih _ _ (by omega) (by omega) hcommon']

theorem OnWay.valid (h : OnWay path cmpri count k u) (hk : k ≤ count) (hbuf : u.len ≤ iface.bufSize) :
    srhIsValid iface u 40 = accepts iface (path.drop (k + 1)) false 0 := by
  have hmem : u.destipaddr ∈ path := List.mem_of_getElem? h.dest
  unfold srhIsValid Srh.cmpr
  rw [h.parse]
  dsimp only
  rw [show count - (count - k) = k by omega, ite_self]
  exact h.validLoop hbuf (count - k) k u.destipaddr false 0 (by omega) le_rfl (h.common _ hmem)

/-! ## One hop -/

theorem swapDest_out {buf : Mem} {addrPtr c segs x : Nat} (h1 : x < 24 + c ∨ 40 ≤ x) (h2 : x ≠ 43)
    (h3 : x < addrPtr ∨ addrPtr + (16 - c) ≤ x) (hc : c ≤ 16) : swapDest buf 40 addrPtr c segs x = buf x := by
  unfold swapDest
  rw [Mem.put_of_ne (by omega), Mem.paste_of_out h3, Mem.copy_of_out (by omega)]

theorem OnWay.step (h : OnWay path cmpri count k u) (hk : k < count) (hbuf : u.len ≤ iface.bufSize) :
    (accepts iface (path.drop (k + 1)) false 0 = false ∧ rplExtHeaderSrhUpdate iface u = none) ∨
      (accepts iface (path.drop (k + 1)) false 0 = true ∧ ∃ u', rplExtHeaderSrhUpdate iface u = some u' ∧
        OnWay path cmpri count (k + 1) u' ∧ OnlyRoute cmpri count u u') := by
  have hc := h.comp
  have hlen := h.length
  have hseg := h.segs
  have hroom := h.room
  have hsize := h.size
  have hslot := slot_lt hk (16 - cmpri)
  unfold fullLen rhLen srhLen at hsize
  have hupd : rplExtHeaderSrhUpdate iface u =
      if accepts iface (path.drop (k + 1)) false 0 = false then none
      else some { u with buf := swapDest u.buf 40 (48 + k * (16 - cmpri)) cmpri (count - k) } := by
    unfold rplExtHeaderSrhUpdate
    have htype : ¬u.buf (40 + 2) ≠ rhTypeSrh := not_not.2 h.type
    simp only [h.search, if_neg htype, h.valid (by omega) hbuf, h.parse]
    unfold rhLen srhLen Srh.cmpr
    dsimp only
    rw [if_neg (by omega), if_neg (by omega), ite_self, show count - (count - k) = k by omega,
      if_neg (c := iface.bufSize < 40 + (4 + 4 + k * (16 - cmpri)) + 16 - cmpri) (by omega),
      show 40 + (4 + 4 + k * (16 - cmpri)) = 48 + k * (16 - cmpri) by omega]
  rw [hupd]
  cases hacc : accepts iface (path.drop (k + 1)) false 0 with
  | false => exact .inl ⟨rfl, rfl⟩
  | true =>
    refine .inr ⟨rfl, _, rfl, ?_, ?_⟩
    · obtain ⟨b, hb⟩ : ∃ b, path[k + 1]? = some b := ⟨_, List.getElem?_eq_getElem (by omega)⟩
      have hmem : b ∈ path := List.mem_of_getElem? hb
      have hmem' : u.destipaddr ∈ path := List.mem_of_getElem? h.dest
      obtain ⟨buf', hbuf'⟩ : ∃ buf', buf' = swapDest u.buf 40 (48 + k * (16 - cmpri)) cmpri (count - k) := ⟨_, rfl⟩
      rw [← hbuf']
      have hout : ∀ x, x < 24 ∨ 40 ≤ x → x ≠ 43 → x < 48 + k * (16 - cmpri) ∨ 48 + k * (16 - cmpri) + (16 - cmpri) ≤ x →
          buf' x = u.buf x := by
        intro x h1 h2 h3
        rw [hbuf', swapDest_out (by omega) h2 h3 (by omega)]
      constructor
      case length => exact hlen
      case comp => exact hc
      case common => exact h.common
      case proto => exact (hout 6 (by omega) (by omega) (by omega)).trans h.proto
      case type => exact (hout 42 (by omega) (by omega) (by omega)).trans h.type
      case segs =>
        show (buf' 43).toNat + (k + 1) = count
        rw [hbuf']
        unfold swapDest
        have hlt := (u.buf 43).toNat_lt
        rw [Mem.put_same, UInt8.toNat_ofNat']
        omega
      case cmpr =>
        show (buf' 44).toNat = _
        rw [hout 44 (by omega) (by omega) (by omega)]
        exact h.cmpr
      case size =>
        show (buf' 41).toNat * 8 + 8 = _ + (buf' 45).toNat / 16
        rw [hout 41 (by omega) (by omega) (by omega), hout 45 (by omega) (by omega) (by omega)]
        exact h.size
      case small =>
        show (buf' 41).toNat * 8 + 8 ≤ 248
        rw [hout 41 (by omega) (by omega) (by omega)]
        exact h.small
      case room =>
        show 40 + ((buf' 41).toNat * 8 + 8) ≤ u.len
        rw [hout 41 (by omega) (by omega) (by omega)]
        exact h.room
      case dest =>
        -- the new destination is the old one with its last bytes from the header
        have hdest : ({ u with buf := buf' } : Uip).destipaddr =
            spliceAddr u.destipaddr cmpri (fun j => u.buf (48 + k * (16 - cmpri) + j)) := by
          funext j
          have hj := j.isLt
          show buf' (24 + j.val) = _
          rw [hbuf']
          unfold swapDest spliceAddr
          rw [Mem.put_of_ne (by omega), Mem.paste_of_out (by omega)]
          split
          · rw [Mem.copy_of_out (by omega)]
            rfl
          · rw [show 24 + j.val = 24 + cmpri + (j.val - cmpri) by omega, Mem.copy_in (by omega)]
        rw [hdest, spliceAddr_eq (h.common _ hmem' b hmem) fun j hj => h.slots k b le_rfl hb j hj]
        exact hb
      case slots =>
        intro i b' hi hb' j hj
        have hnext : k * (16 - cmpri) + (16 - cmpri) ≤ i * (16 - cmpri) := slot_lt hi _
        show buf' (48 + i * (16 - cmpri) + j) = _
        rw [hout _ (by omega) (by omega) (by omega)]
        exact h.slots i b' (by omega) hb' j hj
    · exact ⟨rfl, rfl, fun x h1 h2 h3 => swapDest_out (by omega) h2 (by omega) (by omega)⟩

theorem OnWay.arrived (h : OnWay path cmpri count count u) : rplExtHeaderSrhUpdate iface u = some u := by
  unfold rplExtHeaderSrhUpdate
  have htype : ¬u.buf (40 + 2) ≠ rhTypeSrh := not_not.2 h.type
  simp only [h.search, if_neg htype, h.parse, Nat.sub_self, if_true]

/-! ## The whole way -/

theorem OnlyRoute.refl (u : Uip) : OnlyRoute cmpri count u u := ⟨rfl, rfl, fun _ _ _ _ => rfl⟩

theorem OnlyRoute.trans (h : OnlyRoute cmpri count u u') (h' : OnlyRoute cmpri count u' q) : OnlyRoute cmpri count u q :=
  ⟨h'.1.trans h.1, h'.2.1.trans h.2.1, fun x h1 h2 h3 => (h'.2.2 x h1 h2 h3).trans (h.2.2 x h1 h2 h3)⟩

/-- All hops of the rest of the path accept what is ahead of them. -/
@[grind =]
def AllAccept (ifaces : Ipaddr → Iface) : List Ipaddr → Prop
  | [] => True
  | a :: as => accepts (ifaces a) as false 0 = true ∧ AllAccept ifaces as

/-- From any place of the path on, the packet comes through exactly when all hops accept it, and then it
is at the end of the path. -/
theorem OnWay.forwarded (hbuf : ∀ a, u.len ≤ (ifaces a).bufSize) : ∀ {left k : Nat} {u' : Uip}, k + left = count →
    OnWay path cmpri count k u' → u'.len = u.len →
    (AllAccept ifaces (path.drop k) → ∃ q, Forwarded ifaces (path.drop k) u' q) ∧
      ∀ q, Forwarded ifaces (path.drop k) u' q →
        AllAccept ifaces (path.drop k) ∧ OnWay path cmpri count count q ∧ OnlyRoute cmpri count u' q
  | left, k, u', hk, h, hl => by
    have hlen := h.length
    have hdrop : path.drop k = u'.destipaddr :: path.drop (k + 1) := by
      obtain ⟨hlt, hget⟩ := List.getElem?_eq_some_iff.1 h.dest
      rw [← hget]
      exact List.drop_eq_getElem_cons hlt
    rw [hdrop]
    cases left with
    | zero =>
      have hkc : k = count := by omega
      subst hkc
      have hlast : path.drop (k + 1) = [] := List.drop_of_length_le (by omega)
      rw [hlast]
      refine ⟨fun _ => ⟨u', rfl, u', h.arrived, rfl⟩, ?_⟩
      rintro q ⟨-, u'', hs, hq⟩
      rw [h.arrived] at hs
      cases hs
      cases hq
      exact ⟨⟨rfl, trivial⟩, h, OnlyRoute.refl _⟩
    | succ left =>
      have hroom : u'.len ≤ (ifaces u'.destipaddr).bufSize := hl ▸ hbuf u'.destipaddr
      rcases h.step (by omega) hroom with
        ⟨hacc, hnone⟩ | ⟨hacc, u'', hsome, hway, honly⟩
      · constructor
        · rintro ⟨ha, -⟩
          rw [hacc] at ha
          cases ha
        · rintro q ⟨-, u'', hs, -⟩
          rw [hnone] at hs
          cases hs
      · obtain ⟨ih1, ih2⟩ := OnWay.forwarded hbuf (show k + 1 + left = count by omega) hway (honly.1.trans hl)
        constructor
        · rintro ⟨-, ha⟩
          obtain ⟨q, hq⟩ := ih1 ha
          exact ⟨q, rfl, u'', hsome, hq⟩
        · rintro q ⟨-, u3, hs, hq⟩
          rw [hsome] at hs
          cases hs
          obtain ⟨ha, hend, ho⟩ := ih2 q hq
          exact ⟨⟨hacc, ha⟩, hend, honly.trans ho⟩

end

end Contiki.RplLite
