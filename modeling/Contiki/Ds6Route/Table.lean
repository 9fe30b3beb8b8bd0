/-
What the routing table says: a prefix is the string of its bits, and the table is a finite map from
prefixes to the link-layer address of the next hop. Lookup as longest match over that map, and what
each edit of the route list does to it.
-/
import Contiki.Ds6Route.Calls
import Contiki.Lib.Keyed

namespace Contiki.Ds6Route

section

open Contiki.Core Contiki.Lib

variable {cfg : Config} {s s' : State} {i r : Nat} {lladdr : Linkaddr}

/-! ## Prefixes -/

def bit (addr : Ipaddr) (k : Nat) : Bool :=
  if h : k / 8 < 16 then (addr ⟨k / 8, h⟩).toNat.testBit (7 - k % 8) else false

/-- The first `length` bits of an address. -/
def prefixBits (addr : Ipaddr) (length : Nat) : List Bool := (List.range length).map (bit addr)

theorem prefixBits_length (addr : Ipaddr) (length : Nat) : (prefixBits addr length).length = length := by
  simp [prefixBits]

theorem prefixBits_eq_iff {a b : Ipaddr} {l m : Nat} :
    prefixBits a l = prefixBits b m ↔ l = m ∧ ∀ k < l, bit a k = bit b k := by
  constructor
  · intro h
    have hl : l = m := by
      rw [← prefixBits_length a l, h, prefixBits_length]
    subst hl
    refine ⟨rfl, fun k hk => ?_⟩
    exact List.map_inj_left.1 h k (List.mem_range.2 hk)
  · rintro ⟨rfl, h⟩
    exact List.map_inj_left.2 fun k hk => h k (List.mem_range.1 hk)

theorem byte_eq {x y : UInt8} (h : ∀ j < 8, x.toNat.testBit j = y.toNat.testBit j) : x = y := by
  apply UInt8.toNat_inj.1
  apply Nat.eq_of_testBit_eq
  intro j
  by_cases hj : j < 8
  · exact h j hj
  · have hp : 256 ≤ 2 ^ j := Nat.pow_le_pow_right (n := 2) (by decide) (show 8 ≤ j by omega)
    rw [Nat.testBit_lt_two_pow (lt_of_lt_of_le x.toNat_lt hp),
      Nat.testBit_lt_two_pow (lt_of_lt_of_le y.toNat_lt hp)]

theorem prefixcmp_of_bits {a b : Ipaddr} {l : Nat} (h : prefixBits a l = prefixBits b l) : prefixcmp a b l = true := by
  have hb := (prefixBits_eq_iff.1 h).2
  unfold prefixcmp
  simp only [decide_eq_true_eq]
  intro i hi
  apply byte_eq
  intro j hj
  rw [Nat.shiftRight_eq_div_pow] at hi
  have hk := hb (8 * i.val + (7 - j)) (by omega)
  unfold bit at hk
  have hd : (8 * i.val + (7 - j)) / 8 = i.val := by omega
  have hm : 7 - (8 * i.val + (7 - j)) % 8 = j := by omega
  simpa only [hd, hm, i.isLt, dif_pos, Fin.eta] using hk

/-! ## The map -/

def keyOf (route : Nat → Route) (r : Nat) : List Bool := prefixBits (route r).ipaddr (route r).length

/-- The next hop that the table has for a prefix. -/
def table (s : State) (k : List Bool) : Option Linkaddr :=
  (assoc (keyOf s.route) s.routelist k).bind (uipDs6RouteNexthopLladdr s)

def IsMap (s : State) : Prop := Distinct (keyOf s.route) s.routelist

theorem table_of_mem (hm : IsMap s) (hr : r ∈ s.routelist) :
    table s (keyOf s.route r) = uipDs6RouteNexthopLladdr s r := by
  unfold table
  rw [hm.assoc_iff.2 ⟨hr, rfl⟩]
  rfl

theorem table_none {k : List Bool} (h : ∀ r ∈ s.routelist, keyOf s.route r ≠ k) : table s k = none := by
  unfold table
  rw [assoc_eq_none.2 h]
  rfl

theorem table_reorder (hm : IsMap s) (hr : r ∈ s.routelist) (k : List Bool) :
    table { s with routelist := listPush s.routelist r } k = table s k := by
  unfold table
  show (assoc (keyOf s.route) (listPush s.routelist r) k).bind _ = _
  rw [hm.assoc_perm (listPush_perm hr)]
  rfl

theorem table_kept (h : RoutesKept s s') (k : List Bool) : table s' k = table s k := by
  unfold table
  rw [h.routelist, h.route]
  cases ha : assoc (keyOf s.route) s.routelist k with
  | none => rfl
  | some r => exact h.through r (assoc_some ha).1

theorem table_sublist (hm : IsMap s) (hk : NbrKept s s') (hroute : s'.route = s.route)
    (hsub : s'.routelist.Sublist s.routelist) : IsMap s' ∧ ∀ k, table s' k = table s k ∨ (table s' k = none ∧
      ∃ r ∈ s.routelist, r ∉ s'.routelist ∧ keyOf s.route r = k) := by
  have hm' : IsMap s' := by
    unfold IsMap Distinct
    rw [hroute]
    exact List.Nodup.sublist (hsub.map _) hm
  refine ⟨hm', fun k => ?_⟩
  have hlladdr : uipDs6RouteNexthopLladdr s' = uipDs6RouteNexthopLladdr s := by
    funext r
    unfold uipDs6RouteNexthopLladdr
    rw [hroute, hk.lladdr]
  cases ha : assoc (keyOf s.route) s.routelist k with
  | none =>
    left
    have hn : assoc (keyOf s.route) s'.routelist k = none :=
      assoc_eq_none.2 fun r hr => assoc_eq_none.1 ha r (hsub.subset hr)
    unfold table
    rw [hroute, ha, hn]
    rfl
  | some r =>
    obtain ⟨hr, hkey⟩ := assoc_some ha
    by_cases hr' : r ∈ s'.routelist
    · left
      have hs : assoc (keyOf s.route) s'.routelist k = some r := by
        rw [← hroute] at hkey ⊢
        exact hm'.assoc_iff.2 ⟨hr', hkey⟩
      unfold table
      rw [hroute, ha, hs, hlladdr]
    · right
      refine ⟨table_none fun q hq hqk => ?_, r, hr, hr', hkey⟩
      rw [hroute] at hqk
      have he : q = r := hm.inj (hsub.subset hq) hr (hqk.trans hkey.symm)
      exact hr' (he ▸ hq)

theorem table_rm (h : Inv cfg s) (hm : IsMap s) (hr : r ∈ s.routelist) :
    IsMap (uipDs6RouteRm s r) ∧ ∀ k, table (uipDs6RouteRm s r) k = if k = keyOf s.route r then none else table s k := by
  obtain ⟨-, hk, hlist, hroute, -⟩ := rm_spec h hr
  have hsub : (uipDs6RouteRm s r).routelist.Sublist s.routelist := by
    rw [hlist]
    exact List.erase_sublist
  obtain ⟨hm', htab⟩ := table_sublist hm hk hroute hsub
  refine ⟨hm', fun k => ?_⟩
  split
  · rename_i hkr
    refine table_none fun q hq hqk => ?_
    rw [hroute] at hqk
    have he : q = r := hm.inj (hsub.subset hq) hr (hqk.trans hkr)
    rw [he, hlist] at hq
    exact h.nodupRoutes.not_mem_erase hq
  · rename_i hkr
    rcases htab k with ht | ⟨-, q, hq, hq', hqk⟩
    · exact ht
    · -- the only route that left has the other prefix
      have he : q = r := by
        by_contra hne
        rw [hlist] at hq'
        exact hq' ((List.mem_erase_of_ne hne).2 hq)
      rw [he] at hqk
      exact absurd hqk.symm hkr

theorem table_created {route : Route} (hc : Created cfg s s' r route) (hi : route.neighborRoutes = some i)
    (hm : IsMap s) (hnew : ∀ q ∈ s.routelist, keyOf s.route q ≠ prefixBits route.ipaddr route.length) :
    IsMap s' ∧ ∀ k, table s' k = if k = prefixBits route.ipaddr route.length then some (s.lladdr i) else table s k := by
  have hkey : keyOf s'.route r = prefixBits route.ipaddr route.length := by
    simp [keyOf, hc.route]
  have hold : ∀ q ∈ s.routelist, s'.route q = s.route q := by
    intro q hq
    rw [hc.route, Function.update_of_ne]
    rintro rfl
    exact hc.new hq
  have hkold : ∀ q ∈ s.routelist, keyOf s'.route q = keyOf s.route q := by
    intro q hq
    unfold keyOf
    rw [hold q hq]
  have hm' : IsMap s' := by
    unfold IsMap
    rw [hc.routelist]
    refine Distinct.cons ?_ ?_
    · unfold Distinct
      rw [List.map_congr_left hkold]
      exact hm
    · intro q hq
      rw [hkold q hq, hkey]
      exact hnew q hq
  refine ⟨hm', fun k => ?_⟩
  split
  · rename_i hk
    rw [hk, ← hkey, table_of_mem hm' (by rw [hc.routelist]; simp)]
    simp [uipDs6RouteNexthopLladdr, hc.route, hi, hc.kept.lladdr]
  · rename_i hk
    unfold table
    rw [hc.routelist, assoc_cons_of_ne (by rw [hkey]; exact Ne.symm hk), assoc_congr hkold]
    cases ha : assoc (keyOf s.route) s.routelist k with
    | none => rfl
    | some q =>
      simp [uipDs6RouteNexthopLladdr, hold q (assoc_some ha).1, hc.kept.lladdr]

/-! ## Lookup -/

/-- The route passes the comparison that lookup makes with the address. -/
def Covers (s : State) (addr : Ipaddr) (r : Nat) : Prop :=
  prefixcmp addr (s.route r).ipaddr (s.route r).length = true

/-- What the loop of lookup returns on the routes `rs`, with the match that it holds on entry. -/
@[grind =]
def LoopFinds (s : State) (addr : Ipaddr) (rs : List Nat) (longest : Nat) (found : Option Nat) :
    Option Nat → Prop
  | none => found = none ∧ ∀ r ∈ rs, ¬Covers s addr r
  | some r => (found = some r ∨ (r ∈ rs ∧ Covers s addr r)) ∧ longest ≤ (s.route r).length ∧
      ∀ q ∈ rs, Covers s addr q → (s.route q).length ≤ (s.route r).length

theorem routeLookupLoop_spec (s : State) (addr : Ipaddr) : ∀ (rs : List Nat) (longest : Nat) (found : Option Nat),
    (∀ r ∈ rs, (s.route r).length ≤ 128) → (found = none → longest = 0) →
    (∀ f, found = some f → longest = (s.route f).length) →
    LoopFinds s addr rs longest found (routeLookupLoop s.route addr rs longest found)
  | [], longest, found, hle, hn, hs => by
    unfold routeLookupLoop
    cases found with
    | none => exact ⟨rfl, by simp⟩
    | some f => exact ⟨.inl rfl, (hs f rfl).le, by simp⟩
  | r :: rs, longest, found, hle, hn, hs => by
    unfold routeLookupLoop
    have hler := hle r (by simp)
    have hlers : ∀ q ∈ rs, (s.route q).length ≤ 128 := fun q hq => hle q (by simp [hq])
    split
    · rename_i hc
      split
      · -- a match of all bits ends the loop
        rename_i h128
        refine ⟨.inr ⟨by simp, hc.2⟩, hc.1, fun q hq _ => ?_⟩
        have := hle q hq
        omega
      · have ih := routeLookupLoop_spec s addr rs (s.route r).length (some r) hlers (by simp)
          (by rintro f hf; cases hf; rfl)
        cases hres : routeLookupLoop s.route addr rs (s.route r).length (some r) with
        | none =>
          rw [hres] at ih
          cases ih.1
        | some t =>
          rw [hres] at ih
          obtain ⟨hfrom, hlong, hall⟩ := ih
          refine ⟨.inr ?_, hc.1.trans hlong, ?_⟩
          · rcases hfrom with hf | ⟨ht, htc⟩
            · cases hf
              exact ⟨by simp, hc.2⟩
            · exact ⟨by simp [ht], htc⟩
          · intro q hq hqc
            rcases List.mem_cons.1 hq with rfl | hq
            · exact hlong
            · exact hall q hq hqc
    · rename_i hc
      have ih := routeLookupLoop_spec s addr rs longest found hlers hn hs
      cases hres : routeLookupLoop s.route addr rs longest found with
      | none =>
        rw [hres] at ih
        obtain ⟨hf, hall⟩ := ih
        refine ⟨hf, fun q hq hqc => ?_⟩
        rcases List.mem_cons.1 hq with rfl | hq
        · exact hc ⟨by rw [hn hf]; omega, hqc⟩
        · exact hall q hq hqc
      | some t =>
        rw [hres] at ih
        obtain ⟨hfrom, hlong, hall⟩ := ih
        refine ⟨?_, hlong, ?_⟩
        · rcases hfrom with hf | ⟨ht, htc⟩
          · exact .inl hf
          · exact .inr ⟨by simp [ht], htc⟩
        · intro q hq hqc
          rcases List.mem_cons.1 hq with rfl | hq
          · by_contra hlt
            exact hc ⟨by omega, hqc⟩
          · exact hall q hq hqc

/-- No prefix of the table is longer than an address. -/
def Short (s : State) : Prop := ∀ r ∈ s.routelist, (s.route r).length ≤ 128

/-- Nothing when no route covers the address, and otherwise one of the longest that do. -/
def LongestCover (s : State) (addr : Ipaddr) : Option Nat → Prop
  | none => ∀ r ∈ s.routelist, ¬Covers s addr r
  | some r => r ∈ s.routelist ∧ Covers s addr r ∧
      ∀ q ∈ s.routelist, Covers s addr q → (s.route q).length ≤ (s.route r).length

theorem lookup_spec (hs : Short s) (addr : Ipaddr) :
    LongestCover s addr (routeLookupLoop s.route addr s.routelist 0 none) := by
  have h := routeLookupLoop_spec s addr s.routelist 0 none hs (fun _ => rfl) (by simp)
  cases hres : routeLookupLoop s.route addr s.routelist 0 none with
  | none =>
    rw [hres] at h
    exact h.2
  | some r =>
    rw [hres] at h
    obtain ⟨hf, -, hall⟩ := h
    rcases hf with hf | ⟨hr, hc⟩
    · cases hf
    · exact ⟨hr, hc, hall⟩

end

/-!
`uip_ds6_route_add`, taken apart: the route it finds and may remove, the room it makes, the route it
creates. Under the condition that lookup of the prefix can only find the route to be replaced, and
that a next hop is not refused once a route has been given up for it, the call sets the entry of its
prefix and changes no other but the least recently used one.
-/

section

open Contiki.Core Contiki.Lib

variable {cfg : Config} {s s' : State} {i r : Nat} {lladdr : Linkaddr} {policy : NbrPolicy}
  {ipaddr nexthop : Ipaddr} {length : Nat}

/-! ## Next hops -/

theorem nbrLladdr_some (h : Inv cfg s) (hn : uipDs6NbrLladdrFromIpaddr s nexthop = some lladdr) :
    ∃ i, indexFromLladdr s lladdr = some i ∧ uipDs6NbrIpaddrFromLladdr s lladdr = some nexthop := by
  unfold uipDs6NbrLladdrFromIpaddr at hn
  obtain ⟨i, hi, rfl⟩ := Option.map_eq_some_iff.1 hn
  have hp := List.find?_some hi
  simp only [Bool.and_eq_true, decide_eq_true_eq] at hp
  have hx := h.index (List.mem_of_find?_eq_some hi)
  refine ⟨i, hx, ?_⟩
  unfold uipDs6NbrIpaddrFromLladdr
  rw [nbrTableGet_eq hx, if_pos hp.1]
  simp [hp.2]

/-! ## Making room -/

/-- The state in which the next hop gets its entry: as it is, or without the last route. -/
inductive Room (cfg : Config) (s : State) : State → Prop
  | free : s.numRoutes ≠ cfg.routeNb → Room cfg s s
  | evict (oldest : Nat) : s.numRoutes = cfg.routeNb → cfg.removeLeastRecentlyUsed = true →
      s.routelist.getLast? = some oldest → Room cfg s (uipDs6RouteRm s oldest)

structure Fewer (cfg : Config) (s s' : State) : Prop where
  inv : Inv cfg s'
  kept : NbrKept s s'
  route : s'.route = s.route
  sub : s'.routelist.Sublist s.routelist

theorem Fewer.refl (h : Inv cfg s) : Fewer cfg s s := ⟨h, NbrKept.rfl, rfl, List.Sublist.refl _⟩

theorem rm_fewer (h : Inv cfg s) (hr : r ∈ s.routelist) : Fewer cfg s (uipDs6RouteRm s r) := by
  obtain ⟨hinv, hk, hlist, hroute, -⟩ := rm_spec h hr
  exact ⟨hinv, hk, hroute, by rw [hlist]; exact List.erase_sublist⟩

theorem Room.fewer (h : Inv cfg s) (hroom : Room cfg s s') : Fewer cfg s s' ∧ s'.routelist.length < cfg.routeNb := by
  have hle : s.routelist.length ≤ cfg.routeNb := by
    rw [← h.num]
    exact h.mem.length_le
  cases hroom with
  | free hne =>
    rw [h.count] at hne
    exact ⟨Fewer.refl h, by omega⟩
  | evict oldest _ _ hlast =>
    have hmem : oldest ∈ s.routelist := List.mem_of_getLast? hlast
    refine ⟨rm_fewer h hmem, ?_⟩
    have hpos := List.length_pos_of_mem hmem
    rw [(rm_spec h hmem).2.2.1, List.length_erase_of_mem hmem]
    omega

/-- What becomes of a route that is to be created through neighbor `i`: there is no room, it is
created in the room made, or the next hop is refused. -/
inductive Outcome (cfg : Config) (s : State) (i : Nat) (route : Route) (accepts : Bool) : State × Option Nat → Prop
  | noRoom : s.numRoutes = cfg.routeNb → Outcome cfg s i route accepts (s, none)
  | created {s1 s' : State} {r : Nat} : Room cfg s s1 → Created cfg s1 s' r route →
      Outcome cfg s i route accepts (s', some r)
  | refused {s1 : State} : Room cfg s s1 → s1.routeList i = [] → accepts = false →
      Outcome cfg s i route accepts (s1, none)

theorem Room.outcome (h : Inv cfg s) (hroom : Room cfg s s') (hi : indexFromLladdr s lladdr = some i)
    (policy : NbrPolicy) (ipaddr : Ipaddr) (length : Nat) :
    Outcome cfg s i ⟨ipaddr, length, some i⟩ (policy.canAcceptNew lladdr none)
      (addThrough s' policy ipaddr length lladdr) := by
  obtain ⟨hf, hlt⟩ := hroom.fewer h
  have hi' : indexFromLladdr s' lladdr = some i := by
    rw [hf.kept.index]
    exact hi
  rcases addThrough_spec hf.inv hi' hlt policy ipaddr length with ⟨r, t, he, hc⟩ | ⟨he, hnil, ha⟩
  · rw [he]
    exact .created hroom hc
  · rw [he]
    exact .refused hroom hnil ha

theorem addNew_spec (h : Inv cfg s) (hi : indexFromLladdr s lladdr = some i) (policy : NbrPolicy)
    (ipaddr : Ipaddr) (length : Nat) : Outcome cfg s i ⟨ipaddr, length, some i⟩ (policy.canAcceptNew lladdr none)
      (addNew cfg s policy ipaddr length lladdr) := by
  unfold addNew
  split
  · rename_i hfull
    cases hl : (if cfg.removeLeastRecentlyUsed then s.routelist.getLast? else none) with
    | none => exact .noRoom hfull
    | some oldest =>
      split_ifs at hl with hlru
      exact Room.outcome h (.evict oldest hfull hlru hl) hi policy ipaddr length
  · rename_i hfree
    exact Room.outcome h (.free hfree) hi policy ipaddr length

/-! ## The call -/

/-- The route that lookup of `addr` finds. -/
def found (s : State) (addr : Ipaddr) : Option Nat := routeLookupLoop s.route addr s.routelist 0 none

theorem add_eq (h : Inv cfg s) (hn : uipDs6NbrLladdrFromIpaddr s nexthop = some lladdr) :
    uipDs6RouteAdd cfg s policy ipaddr length nexthop =
      match found s ipaddr with
      | none => addNew cfg s policy ipaddr length lladdr
      | some r =>
        if uipDs6RouteNexthop s r = some nexthop then
          ({ s with routelist := listPush s.routelist r }, some r)
        else
          addNew cfg (uipDs6RouteRm { s with routelist := listPush s.routelist r } r)
            policy ipaddr length lladdr := by
  unfold uipDs6RouteAdd found
  rw [hn]
  simp only
  rw [lookup_eq h.toLinked]
  cases routeLookupLoop s.route ipaddr s.routelist 0 none with
  | none => rfl
  | some r => rfl

theorem rm_found (h : Inv cfg s) (hr : r ∈ s.routelist) :
    Fewer cfg s (uipDs6RouteRm { s with routelist := listPush s.routelist r } r) ∧
      (uipDs6RouteRm { s with routelist := listPush s.routelist r } r).routelist = s.routelist.erase r ∧
      (∀ j q, q ∈ (uipDs6RouteRm { s with routelist := listPush s.routelist r } r).routeList j ↔
        q ∈ s.routeList j ∧ q ≠ r) := by
  have hr' : r ∈ listPush s.routelist r := mem_listPush.2 (.inl rfl)
  obtain ⟨hinv, hk, hlist, hroute, hmem⟩ := rm_spec (h.reorder hr) hr'
  have he : (listPush s.routelist r).erase r = s.routelist.erase r := by
    unfold listPush listRemove
    rw [List.erase_cons_head]
  refine ⟨⟨hinv, ⟨hk.keys, hk.lladdr, hk.ipaddr, hk.mem, hk.used⟩, hroute, ?_⟩, hlist.trans he, hmem⟩
  rw [hlist, he]
  exact List.erase_sublist

end

end Contiki.Ds6Route
