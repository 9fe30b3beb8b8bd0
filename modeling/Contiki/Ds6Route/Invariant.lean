/-
What holds of the routing table and the neighbor tables between calls: the two block pools and the
route list agree, every route is on the list of exactly one neighbor, and `nbr_routes` uses and locks
exactly the neighbors that carry routes. Each call is summed up once: what it does to the routes and
what it leaves alone among the neighbors.
-/
import Contiki.Ds6Route.Model

namespace Contiki.Ds6Route

open Contiki.Core

/-! ## The invariant -/

/-- The pools, the route list and the lists of the neighbors agree. -/
structure Linked (cfg : Config) (s : State) : Prop where
  mem : s.routememb.Holds s.routelist
  num : s.routememb.num = cfg.routeNb
  same : s.neighborroutememb = s.routememb
  count : s.numRoutes = s.routelist.length
  nbrr : ∀ r ∈ s.routelist, s.nbrr r = r
  through : ∀ r ∈ s.routelist, ∃ i, (s.route r).neighborRoutes = some i
  link : ∀ i r, r ∈ s.routeList i ↔ r ∈ s.routelist ∧ (s.route r).neighborRoutes = some i
  nodup : ∀ i, (s.routeList i).Nodup
  locked : ∀ i, s.lockedMap i nbrRoutes = true ↔ s.routeList i ≠ []
  keys : s.neighborAddrMem.Holds s.nbrTableKeys
  used : ∀ i t, s.usedMap i t = true → i ∈ s.nbrTableKeys
  inj : ∀ i ∈ s.nbrTableKeys, ∀ j ∈ s.nbrTableKeys, s.lladdr i = s.lladdr j → i = j

/-- The state between two calls: `nbr_routes` uses the neighbors that carry routes, and no other. -/
structure Inv (cfg : Config) (s : State) : Prop extends Linked cfg s where
  carries : ∀ i, s.usedMap i nbrRoutes = true ↔ s.routeList i ≠ []

variable {cfg : Config} {s s' : State} {i r : Nat} {lladdr : Linkaddr}

theorem init_inv (cfg : Config) : Inv cfg (init cfg) := by
  constructor
  · constructor
    case mem => exact Memb.init_holds _
    case keys => exact Memb.init_holds _
    all_goals simp [init, Memb.init]
  · simp [init]

theorem Linked.nodupRoutes (h : Linked cfg s) : s.routelist.Nodup := h.mem.nodup

theorem Inv.key (h : Inv cfg s) (hr : r ∈ s.routelist) (hi : (s.route r).neighborRoutes = some i) :
    i ∈ s.nbrTableKeys := by
  have hmem : r ∈ s.routeList i := (h.link i r).2 ⟨hr, hi⟩
  exact h.used i nbrRoutes ((h.carries i).2 (List.ne_nil_of_mem hmem))

theorem Inv.unused (h : Inv cfg s) (hu : s.usedMap i nbrRoutes = false) : s.routeList i = [] := by
  by_contra hne
  rw [(h.carries i).2 hne] at hu
  cases hu

theorem Linked.unlocked (h : Linked cfg s) : s.lockedMap i nbrRoutes = false ↔ s.routeList i = [] := by
  have hl := h.locked i
  cases hm : s.lockedMap i nbrRoutes with
  | true => simp [hl.1 hm]
  | false => simpa [hm] using hl

/-! ## Bits and neighbors -/

theorem setBit_self (map : Nat → Table → Bool) (i : Nat) (t : Table) (v : Bool) : setBit map i t v i t = v := by
  simp [setBit]

theorem setBit_item {j : Nat} (h : j ≠ i) (map : Nat → Table → Bool) (t u : Table) (v : Bool) :
    setBit map i t v j u = map j u := by
  simp [setBit, h]

theorem setBit_table {t u : Table} (h : u ≠ t) (map : Nat → Table → Bool) (i j : Nat) (v : Bool) :
    setBit map i t v j u = map j u := by
  unfold setBit
  by_cases hj : j = i
  · subst hj; simp [h]
  · simp [hj]

theorem setBit_eq {map : Nat → Table → Bool} {t : Table} {v : Bool} (h : map i t = v) : setBit map i t v = map := by
  unfold setBit
  rw [← h]
  simp

theorem nbrRoutes_ne : nbrRoutes ≠ ds6Neighbors := by decide

theorem indexFromLladdr_some (h : indexFromLladdr s lladdr = some i) : i ∈ s.nbrTableKeys ∧ s.lladdr i = lladdr :=
  ⟨List.mem_of_find?_eq_some h, by simpa using List.find?_some h⟩

theorem indexFromLladdr_none (h : indexFromLladdr s lladdr = none) : ∀ i ∈ s.nbrTableKeys, s.lladdr i ≠ lladdr := by
  unfold indexFromLladdr at h
  rw [List.find?_eq_none] at h
  intro i hi
  simpa using h i hi

theorem Linked.index (h : Linked cfg s) (hi : i ∈ s.nbrTableKeys) : indexFromLladdr s (s.lladdr i) = some i := by
  cases hx : indexFromLladdr s (s.lladdr i) with
  | none => exact absurd rfl (indexFromLladdr_none hx i hi)
  | some j =>
    obtain ⟨hj, he⟩ := indexFromLladdr_some hx
    rw [h.inj j hj i hi he]

theorem nbrTableGet_some {t : Table} (h : nbrTableGetFromLladdr s t lladdr = some i) :
    indexFromLladdr s lladdr = some i ∧ s.usedMap i t = true := by
  unfold nbrTableGetFromLladdr at h
  cases hx : indexFromLladdr s lladdr with
  | none => rw [hx] at h; cases h
  | some j =>
    rw [hx] at h
    simp only at h
    split at h
    · cases h; exact ⟨rfl, ‹_›⟩
    · cases h

theorem nbrTableGet_eq {t : Table} (h : indexFromLladdr s lladdr = some i) :
    nbrTableGetFromLladdr s t lladdr = if s.usedMap i t then some i else none := by
  unfold nbrTableGetFromLladdr
  rw [h]

/-- What the neighbor cache says about addresses is left alone. -/
structure NbrKept (s s' : State) : Prop where
  keys : s'.nbrTableKeys = s.nbrTableKeys
  lladdr : s'.lladdr = s.lladdr
  ipaddr : s'.ipaddr = s.ipaddr
  mem : s'.neighborAddrMem = s.neighborAddrMem
  used : ∀ i t, t ≠ nbrRoutes → s'.usedMap i t = s.usedMap i t

theorem NbrKept.rfl : NbrKept s s := ⟨by rfl, by rfl, by rfl, by rfl, fun _ _ _ => by rfl⟩

theorem NbrKept.trans {s'' : State} (h : NbrKept s s') (h' : NbrKept s' s'') : NbrKept s s'' :=
  ⟨h'.keys.trans h.keys, h'.lladdr.trans h.lladdr, h'.ipaddr.trans h.ipaddr, h'.mem.trans h.mem,
    fun i t ht => (h'.used i t ht).trans (h.used i t ht)⟩

theorem NbrKept.index (h : NbrKept s s') (a : Linkaddr) : indexFromLladdr s' a = indexFromLladdr s a := by
  unfold indexFromLladdr
  rw [h.keys, h.lladdr]

theorem NbrKept.ipaddrFrom (h : NbrKept s s') (a : Linkaddr) :
    uipDs6NbrIpaddrFromLladdr s' a = uipDs6NbrIpaddrFromLladdr s a := by
  unfold uipDs6NbrIpaddrFromLladdr nbrTableGetFromLladdr
  simp only [h.index, h.ipaddr, h.used _ _ nbrRoutes_ne.symm]

/-! ## Lookup -/

theorem lookup_eq (h : Linked cfg s) (addr : Ipaddr) :
    uipDs6RouteLookup s addr =
      match routeLookupLoop s.route addr s.routelist 0 none with
      | none => (s, none)
      | some r => ({ s with routelist := listPush s.routelist r }, some r) := by
  unfold uipDs6RouteLookup
  cases routeLookupLoop s.route addr s.routelist 0 none with
  | none => rfl
  | some r =>
    simp only
    split
    · rename_i hh
      have hl : listPush s.routelist r = s.routelist := by
        obtain ⟨t, ht⟩ := List.head?_eq_some_iff.1 hh
        unfold listPush listRemove
        rw [ht, List.erase_cons_head]
      rw [hl]
    · have hn : r ∉ s.routelist.erase r := h.nodupRoutes.not_mem_erase
      have hl : listPush (listRemove s.routelist r) r = listPush s.routelist r := by
        unfold listPush listRemove
        rw [List.erase_of_not_mem hn]
      rw [hl]

theorem Inv.reorder (h : Inv cfg s) (hr : r ∈ s.routelist) :
    Inv cfg { s with routelist := listPush s.routelist r } := by
  have hp : (listPush s.routelist r).Perm s.routelist := listPush_perm hr
  constructor
  · constructor
    case mem => exact h.mem.perm hp
    case num => exact h.num
    case same => exact h.same
    case count => rw [h.count]; exact hp.length_eq.symm
    case nbrr => exact fun q hq => h.nbrr q (hp.mem_iff.1 hq)
    case through => exact fun q hq => h.through q (hp.mem_iff.1 hq)
    case link =>
      intro j q
      rw [h.link j q]
      simp only [hp.mem_iff]
    case nodup => exact h.nodup
    case locked => exact h.locked
    case keys => exact h.keys
    case used => exact h.used
    case inj => exact h.inj
  · exact h.carries

/-! ## Removing a route -/

/-- The state without the route `r` of neighbor `i`. -/
def without (s : State) (i r : Nat) : State :=
  let rest := (s.routeList i).erase r
  { s with
    routelist := s.routelist.erase r
    routeList := Function.update s.routeList i rest
    usedMap := if rest = [] then setBit s.usedMap i nbrRoutes false else s.usedMap
    lockedMap := if rest = [] then setBit s.lockedMap i nbrRoutes false else s.lockedMap
    routememb := s.routememb.free r
    neighborroutememb := s.neighborroutememb.free r
    numRoutes := s.numRoutes - 1 }

theorem rm_eq (h : Linked cfg s) (hr : r ∈ s.routelist) (hi : (s.route r).neighborRoutes = some i) :
    uipDs6RouteRm s r = without s i r := by
  have hmem : r ∈ s.routeList i := (h.link i r).2 ⟨hr, hi⟩
  -- the `neighbor_route` of a route has the index of the route
  have hfind : (s.routeList i).find? (fun b => s.nbrr b = r) = some r := by
    cases hf : (s.routeList i).find? (fun b => s.nbrr b = r) with
    | none =>
      rw [List.find?_eq_none] at hf
      exact absurd (h.nbrr r hr) (by simpa using hf r hmem)
    | some b =>
      have hb : s.nbrr b = r := by simpa using List.find?_some hf
      have hbl := ((h.link i b).1 (List.mem_of_find?_eq_some hf)).1
      rw [h.nbrr b hbl] at hb
      rw [hb]
  unfold uipDs6RouteRm without
  simp only [hi, hfind, listRemove]
  by_cases he : (s.routeList i).erase r = []
  · simp [he, nbrTableRemove]
  · simp [he]

theorem without_routeList (h : Linked cfg s) (hi : (s.route r).neighborRoutes = some i) (j q : Nat) :
    q ∈ (without s i r).routeList j ↔ q ∈ s.routeList j ∧ q ≠ r := by
  simp only [without]
  by_cases hj : j = i
  · subst hj
    rw [Function.update_self, (h.nodup j).mem_erase_iff]
    exact and_comm
  · rw [Function.update_of_ne hj]
    refine ⟨fun hq => ⟨hq, ?_⟩, fun hq => hq.1⟩
    rintro rfl
    have hjq := ((h.link j q).1 hq).2
    rw [hi] at hjq
    cases hjq
    exact hj rfl

theorem without_bits {map : Nat → Table → Bool} (hm : ∀ j, map j nbrRoutes = true ↔ s.routeList j ≠ []) (j : Nat) :
    (if (s.routeList i).erase r = [] then setBit map i nbrRoutes false else map) j nbrRoutes = true ↔
      (without s i r).routeList j ≠ [] := by
  simp only [without]
  by_cases hj : j = i
  · subst hj
    rw [Function.update_self]
    split
    · rename_i he
      simp [setBit_self, he]
    · rename_i he
      have hne : s.routeList j ≠ [] := by
        intro h0
        rw [h0] at he
        exact he (by simp)
      simp [he, (hm j).2 hne]
  · rw [Function.update_of_ne hj, ← hm j]
    split
    · rw [setBit_item hj]
    · exact Iff.rfl

theorem without_inv (h : Inv cfg s) (hr : r ∈ s.routelist) (hi : (s.route r).neighborRoutes = some i) :
    Inv cfg (without s i r) := by
  obtain ⟨hnum, hmem⟩ := h.mem.free hr
  have hne : ∀ q, q ∈ (without s i r).routelist ↔ q ∈ s.routelist ∧ q ≠ r := by
    intro q
    rw [show (without s i r).routelist = s.routelist.erase r from rfl, h.nodupRoutes.mem_erase_iff]
    exact and_comm
  constructor
  · constructor
    case mem => exact hmem
    case num => exact hnum.trans h.num
    case same =>
      show s.neighborroutememb.free r = s.routememb.free r
      rw [h.same]
    case count =>
      show s.numRoutes - 1 = (s.routelist.erase r).length
      rw [List.length_erase_of_mem hr, h.count]
    case nbrr => exact fun q hq => h.nbrr q ((hne q).1 hq).1
    case through => exact fun q hq => h.through q ((hne q).1 hq).1
    case link =>
      intro j q
      rw [without_routeList h.toLinked hi, h.link j q, hne q]
      show _ ↔ (q ∈ s.routelist ∧ q ≠ r) ∧ (s.route q).neighborRoutes = some j
      tauto
    case nodup =>
      intro j
      simp only [without]
      by_cases hj : j = i
      · subst hj
        rw [Function.update_self]
        exact (h.nodup j).erase r
      · rw [Function.update_of_ne hj]
        exact h.nodup j
    case locked => exact without_bits h.locked
    case keys => exact h.keys
    case used =>
      intro j t hu
      refine h.used j t ?_
      simp only [without] at hu
      split at hu
      · by_cases hj : j = i
        · subst hj
          by_cases ht : t = nbrRoutes
          · subst ht; rw [setBit_self] at hu; cases hu
          · rwa [setBit_table ht] at hu
        · rwa [setBit_item hj] at hu
      · exact hu
    case inj => exact h.inj
  · exact without_bits h.carries

theorem without_kept (s : State) (i r : Nat) : NbrKept s (without s i r) := by
  refine ⟨rfl, rfl, rfl, rfl, fun j t ht => ?_⟩
  simp only [without]
  split
  · rw [setBit_table ht]
  · rfl

theorem rm_spec (h : Inv cfg s) (hr : r ∈ s.routelist) : Inv cfg (uipDs6RouteRm s r) ∧ NbrKept s (uipDs6RouteRm s r) ∧
      (uipDs6RouteRm s r).routelist = s.routelist.erase r ∧ (uipDs6RouteRm s r).route = s.route ∧
      ∀ j q, q ∈ (uipDs6RouteRm s r).routeList j ↔ q ∈ s.routeList j ∧ q ≠ r := by
  obtain ⟨i, hi⟩ := h.through r hr
  rw [rm_eq h.toLinked hr hi]
  exact ⟨without_inv h hr hi, without_kept s i r, rfl, rfl, without_routeList h.toLinked hi⟩

end Contiki.Ds6Route
