/-
The calls that change the routing table or the neighbors under it, each with what it does to the
routes: adding a route through a neighbor, removing all routes of a neighbor, and the neighbor
tables taking in and giving up neighbors. A locked neighbor is never given up, so no route loses the
neighbor it goes through.
-/
import Contiki.Ds6Route.Invariant

namespace Contiki.Ds6Route

open Contiki.Core

variable {cfg : Config} {s s' : State} {i r : Nat} {lladdr : Linkaddr}

/-! ## Creating a route -/

/-- The state with the new route `r` through neighbor `i`, its block taken from both pools. -/
def withRoute (s : State) (mem : Memb) (i r : Nat) (route : Route) : State :=
  { s with
    routememb := mem
    neighborroutememb := mem
    routelist := r :: s.routelist
    nbrr := Function.update s.nbrr r r
    routeList := Function.update s.routeList i (s.routeList i ++ [r])
    route := Function.update s.route r route
    numRoutes := s.numRoutes + 1
    lockedMap := setBit s.lockedMap i nbrRoutes true }

/-- What a new route `r` changes, summed up. -/
structure Created (cfg : Config) (s s' : State) (r : Nat) (route : Route) : Prop where
  new : r ∉ s.routelist
  routelist : s'.routelist = r :: s.routelist
  route : s'.route = Function.update s.route r route
  kept : NbrKept s s'
  inv : Inv cfg s'

theorem createRoute_spec (h : Linked cfg s) (hi : i ∈ s.nbrTableKeys) (hu : s.usedMap i nbrRoutes = true)
    (hc : ∀ j, j ≠ i → (s.usedMap j nbrRoutes = true ↔ s.routeList j ≠ []))
    (hlt : s.routelist.length < cfg.routeNb) (ipaddr : Ipaddr) (length : Nat) :
    ∃ r s', createRoute s ipaddr length i = (s', some r) ∧ Created cfg s s' r ⟨ipaddr, length, some i⟩ := by
  obtain ⟨r, mem, ha⟩ := h.mem.alloc_of_lt (by rw [h.num]; exact hlt)
  obtain ⟨hnew, hnum, hmem⟩ := h.mem.alloc ha
  have hnewL : r ∉ s.routeList i := fun hm => hnew ((h.link i r).1 hm).1
  have hne : ∀ q ∈ s.routelist, q ≠ r := fun q hq he => hnew (he ▸ hq)
  -- both pools hand out the same block, since the same blocks are out
  have ha' : s.neighborroutememb.alloc = some (r, mem) := by rw [h.same]; exact ha
  refine ⟨r, withRoute s mem i r ⟨ipaddr, length, some i⟩, ?_, ?_⟩
  · unfold createRoute
    simp only [ha, ha', nbrTableLock, listPush_new hnew, listAdd_new hnewL, withRoute]
  · unfold withRoute
    constructor
    case new => exact hnew
    case routelist => rfl
    case route => rfl
    case kept => exact ⟨rfl, rfl, rfl, rfl, fun _ _ _ => rfl⟩
    case inv =>
      constructor
      · constructor
        case mem => exact hmem
        case num => exact hnum.trans h.num
        case same => rfl
        case count => simp [h.count]
        case nbrr =>
          intro q hq
          rcases List.mem_cons.1 hq with rfl | hq
          · simp
          · simp only [Function.update_of_ne (hne q hq)]
            exact h.nbrr q hq
        case through =>
          intro q hq
          rcases List.mem_cons.1 hq with rfl | hq
          · exact ⟨i, by simp⟩
          · simp only [Function.update_of_ne (hne q hq)]
            exact h.through q hq
        case link =>
          intro j q
          by_cases hq : q = r
          · subst hq
            have hqj : q ∉ s.routeList j := fun hm => hnew ((h.link j q).1 hm).1
            by_cases hj : j = i
            · subst hj; simp
            · simp [hj, hqj, Ne.symm hj]
          · by_cases hj : j = i
            · subst hj; simp [hq, h.link]
            · simp [hj, hq, h.link]
        case nodup =>
          intro j
          by_cases hj : j = i
          · subst hj
            simp only [Function.update_self]
            exact List.Nodup.append (h.nodup j) (List.nodup_singleton r) (by simpa using hnewL)
          · simp only [Function.update_of_ne hj]
            exact h.nodup j
        case locked =>
          intro j
          by_cases hj : j = i
          · subst hj; simp [setBit_self]
          · simp only [setBit_item hj, Function.update_of_ne hj]
            exact h.locked j
        case keys => exact h.keys
        case used => exact h.used
        case inj => exact h.inj
      · intro j
        by_cases hj : j = i
        · subst hj; simp [hu]
        · simp only [Function.update_of_ne hj]
          exact hc j hj

theorem initItem_routes (h : Inv cfg s) (hu : s.usedMap i nbrRoutes = false) (hi : i ∈ s.nbrTableKeys) :
    Linked cfg (initItem s nbrRoutes i) ∧ (initItem s nbrRoutes i).routeList = s.routeList ∧
      NbrKept s (initItem s nbrRoutes i) := by
  have he : s.routeList i = [] := h.unused hu
  have hl : (initItem s nbrRoutes i).routeList = s.routeList := by
    simp only [initItem, if_pos]
    rw [← he, Function.update_eq_self]
  refine ⟨?_, hl, ⟨rfl, rfl, rfl, rfl, fun j t ht => by simp only [initItem]; rw [setBit_table ht]⟩⟩
  constructor
  case mem => exact h.mem
  case num => exact h.num
  case same => exact h.same
  case count => exact h.count
  case nbrr => exact h.nbrr
  case through => exact h.through
  case link => rw [hl]; exact h.link
  case nodup => rw [hl]; exact h.nodup
  case locked => rw [hl]; exact h.locked
  case keys => exact h.keys
  case used =>
    intro j t hj
    simp only [initItem] at hj
    by_cases hji : j = i
    · subst hji; exact hi
    · rw [setBit_item hji] at hj
      exact h.used j t hj
  case inj => exact h.inj

theorem addThrough_spec (h : Inv cfg s) (hi : indexFromLladdr s lladdr = some i)
    (hlt : s.routelist.length < cfg.routeNb) (policy : NbrPolicy) (ipaddr : Ipaddr) (length : Nat) :
    (∃ r s', addThrough s policy ipaddr length lladdr = (s', some r) ∧ Created cfg s s' r ⟨ipaddr, length, some i⟩) ∨
    (addThrough s policy ipaddr length lladdr = (s, none) ∧ s.routeList i = [] ∧
      policy.canAcceptNew lladdr none = false) := by
  have hk := (indexFromLladdr_some hi).1
  unfold addThrough
  rw [nbrTableGet_eq hi]
  cases hu : s.usedMap i nbrRoutes with
  | true =>
    left
    simp only [if_pos]
    exact createRoute_spec h.toLinked hk hu (fun j _ => h.carries j) hlt ipaddr length
  | false =>
    have hne : s.routeList i = [] := h.unused hu
    have hallow : (entryIsAllowed s policy nbrRoutes lladdr).1 = policy.canAcceptNew lladdr none := by
      unfold entryIsAllowed
      rw [nbrTableGet_eq hi, hu, hi]
      simp
    have hadd : nbrTableAddLladdr s policy nbrRoutes lladdr =
        if policy.canAcceptNew lladdr none then (initItem s nbrRoutes i, some i) else (s, none) := by
      unfold nbrTableAddLladdr
      rw [hallow, hi]
    simp only [Bool.false_eq_true, if_false, hadd]
    cases ha : policy.canAcceptNew lladdr none with
    | true =>
      left
      simp only [if_pos]
      obtain ⟨hl, hr, hkept⟩ := initItem_routes h hu hk
      have hu' : (initItem s nbrRoutes i).usedMap i nbrRoutes = true := setBit_self _ _ _ _
      have hc : ∀ j, j ≠ i → ((initItem s nbrRoutes i).usedMap j nbrRoutes = true ↔
          (initItem s nbrRoutes i).routeList j ≠ []) := by
        intro j hj
        rw [hr]
        simp only [initItem]
        rw [setBit_item hj]
        exact h.carries j
      obtain ⟨r, s', he, hcr⟩ := createRoute_spec hl hk hu' hc hlt ipaddr length
      exact ⟨r, s', he, hcr.new, hcr.routelist, hcr.route, hkept.trans hcr.kept, hcr.inv⟩
    | false => exact .inr ⟨by simp, hne, rfl⟩

/-! ## Removing all routes of a neighbor -/

theorem rmRoutelistLoop_spec : ∀ (fuel : Nat) {s : State}, Inv cfg s → (s.routeList i).length ≤ fuel →
    Inv cfg (rmRoutelistLoop fuel s i) ∧ NbrKept s (rmRoutelistLoop fuel s i) ∧
      (rmRoutelistLoop fuel s i).routeList i = [] ∧ (rmRoutelistLoop fuel s i).route = s.route ∧
      (rmRoutelistLoop fuel s i).routelist.Sublist s.routelist ∧
      ∀ q, q ∈ (rmRoutelistLoop fuel s i).routelist ↔ q ∈ s.routelist ∧ q ∉ s.routeList i
  | 0, s, h, hf => by
    have he : s.routeList i = [] := List.eq_nil_of_length_eq_zero (by omega)
    exact ⟨h, NbrKept.rfl, he, rfl, List.Sublist.refl _, fun q => by simp [rmRoutelistLoop, he]⟩
  | fuel + 1, s, h, hf => by
    unfold rmRoutelistLoop
    cases hl : s.routeList i with
    | nil => exact ⟨h, NbrKept.rfl, hl, rfl, List.Sublist.refl _, fun q => by simp⟩
    | cons r rest =>
      simp only [List.head?_cons]
      have hr : r ∈ s.routelist := ((h.link i r).1 (by simp [hl])).1
      rw [h.nbrr r hr]
      obtain ⟨hinv, hkept, hlist, hroute, hmem⟩ := rm_spec h hr
      have hnd := h.nodup i
      rw [hl, List.nodup_cons] at hnd
      -- one route less is on the list of the neighbor
      have hlen : ((uipDs6RouteRm s r).routeList i).length ≤ fuel := by
        have hsub : (uipDs6RouteRm s r).routeList i ⊆ rest := by
          intro q hq
          obtain ⟨hq, hne⟩ := (hmem i q).1 hq
          rw [hl] at hq
          exact (List.mem_cons.1 hq).resolve_left hne
        have hle := ((hinv.nodup i).subperm hsub).length_le
        rw [hl, List.length_cons] at hf
        omega
      obtain ⟨hinv', hkept', hnil, hroute', hsub, hmem'⟩ := rmRoutelistLoop_spec fuel hinv hlen
      refine ⟨hinv', hkept.trans hkept', hnil, hroute'.trans hroute, ?_, fun q => ?_⟩
      · rw [hlist] at hsub
        exact hsub.trans List.erase_sublist
      · rw [hmem', hlist, h.nodupRoutes.mem_erase_iff, hmem, hl, List.mem_cons]
        tauto

theorem rmRoutelist_spec (h : Inv cfg s) (i : Nat) :
    Inv cfg (rmRoutelist s i) ∧ NbrKept s (rmRoutelist s i) ∧ (rmRoutelist s i).route = s.route ∧
      (rmRoutelist s i).routelist.Sublist s.routelist ∧
      ∀ q, q ∈ (rmRoutelist s i).routelist ↔ q ∈ s.routelist ∧ q ∉ s.routeList i := by
  obtain ⟨hinv, hkept, hnil, hroute, hsub, hmem⟩ :=
    rmRoutelistLoop_spec (i := i) (s.routeList i).length h le_rfl
  unfold rmRoutelist
  -- the loop has already taken the neighbor out of the table
  have hu : setBit (rmRoutelistLoop (s.routeList i).length s i).usedMap i nbrRoutes false = _ :=
    setBit_eq (by simpa [hnil] using hinv.carries i)
  have hk : setBit (rmRoutelistLoop (s.routeList i).length s i).lockedMap i nbrRoutes false = _ :=
    setBit_eq (by simpa [hnil] using hinv.locked i)
  unfold nbrTableRemove
  rw [hu, hk]
  exact ⟨hinv, hkept, hroute, hsub, hmem⟩

/-! ## The neighbor tables -/

/-- The routes and the addresses of the neighbors they go through are left alone. -/
structure RoutesKept (s s' : State) : Prop where
  routelist : s'.routelist = s.routelist
  route : s'.route = s.route
  through : ∀ r ∈ s.routelist, uipDs6RouteNexthopLladdr s' r = uipDs6RouteNexthopLladdr s r

theorem RoutesKept.rfl : RoutesKept s s := ⟨by rfl, by rfl, fun _ _ => by rfl⟩

theorem RoutesKept.trans {s'' : State} (h : RoutesKept s s') (h' : RoutesKept s' s'') : RoutesKept s s'' :=
  ⟨h'.routelist.trans h.routelist, h'.route.trans h.route,
    fun r hr => (h'.through r (h.routelist ▸ hr)).trans (h.through r hr)⟩

theorem Inv.bits (h : Inv cfg s) {used locked : Nat → Table → Bool}
    (hu : ∀ j, used j nbrRoutes = s.usedMap j nbrRoutes) (hk : ∀ j t, used j t = true → j ∈ s.nbrTableKeys)
    (hl : ∀ j, locked j nbrRoutes = s.lockedMap j nbrRoutes) (ipaddr : Nat → Ipaddr) :
    Inv cfg { s with usedMap := used, lockedMap := locked, ipaddr := ipaddr } := by
  constructor
  · exact { h.toLinked with
      locked := fun j => by rw [← h.locked j, ← hl j]
      used := hk }
  · intro j
    rw [← h.carries j, ← hu j]

theorem nbrTableRemove_inv (h : Inv cfg s) {t : Table} (ht : t ≠ nbrRoutes) (i : Nat) :
    Inv cfg (nbrTableRemove s t i) ∧ RoutesKept s (nbrTableRemove s t i) := by
  refine ⟨h.bits (fun j => setBit_table ht.symm _ _ _ _) ?_ (fun j => setBit_table ht.symm _ _ _ _) s.ipaddr,
    rfl, rfl, fun _ _ => rfl⟩
  intro j u hu
  by_cases hj : j = i
  · subst hj
    by_cases hut : u = t
    · subst hut; rw [setBit_self] at hu; cases hu
    · rw [setBit_table hut] at hu
      exact h.used j u hu
  · rw [setBit_item hj] at hu
    exact h.used j u hu

theorem setLocked_inv (h : Inv cfg s) {t : Table} (ht : t ≠ nbrRoutes) (i : Nat) (v : Bool) :
    Inv cfg { s with lockedMap := setBit s.lockedMap i t v } :=
  h.bits (fun _ => rfl) h.used (fun _ => setBit_table ht.symm _ _ _ _) s.ipaddr

theorem initItem_inv (h : Inv cfg s) {t : Table} (ht : t ≠ nbrRoutes) (hi : i ∈ s.nbrTableKeys) :
    Inv cfg (initItem s t i) ∧ RoutesKept s (initItem s t i) := by
  unfold initItem
  rw [if_neg ht]
  refine ⟨h.bits (fun j => setBit_table ht.symm _ _ _ _) ?_ (fun _ => rfl) _, rfl, rfl, fun _ _ => rfl⟩
  intro j u hu
  by_cases hj : j = i
  · subst hj; exact hi
  · rw [setBit_item hj] at hu
    exact h.used j u hu

theorem worstUnlocked_spec (s : State) (policy : NbrPolicy) {w : Linkaddr} :
    ∀ (ks : List Nat) (worst : Option Linkaddr), worstUnlocked s policy ks worst = some w →
      worst = some w ∨ ∃ k ∈ ks, (∀ t, s.lockedMap k t = false) ∧ s.lladdr k = w
  | [], worst, h => .inl h
  | k :: ks, worst, h => by
    unfold worstUnlocked at h
    split at h
    · rcases worstUnlocked_spec s policy ks worst h with h | ⟨j, hj, hl, he⟩
      · exact .inl h
      · exact .inr ⟨j, List.mem_cons_of_mem _ hj, hl, he⟩
    · rename_i hlock
      have hl : ∀ t, s.lockedMap k t = false := by
        intro t
        by_contra hc
        exact hlock ⟨t, by simpa using hc⟩
      cases worst with
      | none =>
        rcases worstUnlocked_spec s policy ks _ h with h | ⟨j, hj, hl', he⟩
        · cases h
          exact .inr ⟨k, by simp, hl, rfl⟩
        · exact .inr ⟨j, List.mem_cons_of_mem _ hj, hl', he⟩
      | some w' =>
        rcases worstUnlocked_spec s policy ks _ h with h | ⟨j, hj, hl', he⟩
        · split at h
          · cases h
            exact .inr ⟨k, by simp, hl, rfl⟩
          · exact .inl h
        · exact .inr ⟨j, List.mem_cons_of_mem _ hj, hl', he⟩

/-- The key `key`, on which no route depends, gets a new address. -/
def rekey (s : State) (used locked : Nat → Table → Bool) (keys : List Nat) (mem : Memb) (key : Nat)
    (lladdr : Linkaddr) : State :=
  { s with
    usedMap := used
    lockedMap := locked
    nbrTableKeys := keys
    neighborAddrMem := mem
    lladdr := Function.update s.lladdr key lladdr }

theorem rekey_inv (h : Inv cfg s) (used locked : Nat → Table → Bool) {keys : List Nat} {mem : Memb}
    {key : Nat} (hl : s.routeList key = []) (hm : mem.Holds keys) (hkeys : ∀ j, j ∈ keys ↔ j = key ∨ j ∈ s.nbrTableKeys)
    (hu : ∀ j, j ≠ key → used j = s.usedMap j) (huk : ∀ t, used key t = false)
    (hlo : ∀ j, j ≠ key → locked j = s.lockedMap j) (hlk : locked key nbrRoutes = false)
    (hnew : ∀ j ∈ s.nbrTableKeys, s.lladdr j ≠ lladdr) : Inv cfg (rekey s used locked keys mem key lladdr) ∧
      RoutesKept s (rekey s used locked keys mem key lladdr) := by
  constructor
  · constructor
    · exact { h.toLinked with
        keys := hm
        locked := by
          intro j
          by_cases hj : j = key
          · subst hj; simp [rekey, hlk, hl]
          · simp only [rekey, hlo j hj]; exact h.locked j
        used := by
          intro j t hjt
          by_cases hj : j = key
          · subst hj; exact (hkeys j).2 (.inl rfl)
          · simp only [rekey, hu j hj] at hjt
            exact (hkeys j).2 (.inr (h.used j t hjt))
        inj := by
          intro a ha b hb hab
          simp only [rekey] at hab
          by_cases hak : a = key <;> by_cases hbk : b = key
          · rw [hak, hbk]
          · subst hak
            rw [Function.update_self, Function.update_of_ne hbk] at hab
            exact absurd hab.symm (hnew b (((hkeys b).1 hb).resolve_left hbk))
          · subst hbk
            rw [Function.update_self, Function.update_of_ne hak] at hab
            exact absurd hab (hnew a (((hkeys a).1 ha).resolve_left hak))
          · rw [Function.update_of_ne hak, Function.update_of_ne hbk] at hab
            exact h.inj a (((hkeys a).1 ha).resolve_left hak) b (((hkeys b).1 hb).resolve_left hbk) hab }
    · intro j
      by_cases hj : j = key
      · subst hj; simp [rekey, huk, hl]
      · simp only [rekey, hu j hj]; exact h.carries j
  · refine ⟨rfl, rfl, fun r hr => ?_⟩
    obtain ⟨i, hi⟩ := h.through r hr
    have hne : i ≠ key := by
      rintro rfl
      have hm := (h.link i r).2 ⟨hr, hi⟩
      rw [hl] at hm
      cases hm
    simp [uipDs6RouteNexthopLladdr, rekey, hi, hne]

theorem removeKey_eq (h : Inv cfg s) (hl : s.lockedMap i nbrRoutes = false) :
    removeKey s i false = { s with
      usedMap := Function.update s.usedMap i (fun _ => false)
      lockedMap := Function.update s.lockedMap i (fun _ => false)
      nbrTableKeys := listRemove s.nbrTableKeys i } := by
  have hu : s.usedMap i nbrRoutes = false := by
    have hc := h.carries i
    simpa [h.unlocked.1 hl] using hc
  unfold removeKey
  by_cases hd : s.usedMap i ds6Neighbors = true
  · have hu' : (uipDs6NbrRm s i).usedMap i nbrRoutes = false := by
      simp only [uipDs6NbrRm, nbrTableRemove]
      rw [setBit_table nbrRoutes_ne, hu]
    simp only [hd, if_true, hu', Bool.false_eq_true, if_false]
    simp [uipDs6NbrRm, nbrTableRemove, setBit]
  · simp [hd, hu]

theorem victim_unlocked (h : Inv cfg s) {policy : NbrPolicy} {t : Table}
    (hb : (entryIsAllowed s policy t lladdr).2.bind (indexFromLladdr s) = some i) :
    i ∈ s.nbrTableKeys ∧ s.lockedMap i nbrRoutes = false := by
  obtain ⟨w, hw, hi⟩ := Option.bind_eq_some_iff.1 hb
  unfold entryIsAllowed at hw
  split_ifs at hw
  unfold selectForRemoval at hw
  cases hworst : worstUnlocked s policy s.nbrTableKeys none with
  | none => rw [hworst] at hw; cases hw
  | some w' =>
    rw [hworst] at hw
    simp only at hw
    split_ifs at hw
    cases hw
    rcases worstUnlocked_spec s policy s.nbrTableKeys none hworst with hn | ⟨k, hk, hl, hkw⟩
    · cases hn
    · rw [← hkw, h.index hk] at hi
      cases hi
      exact ⟨hk, hl nbrRoutes⟩

theorem nbrTableAdd_inv (h : Inv cfg s) {t : Table} (ht : t ≠ nbrRoutes) (policy : NbrPolicy) (lladdr : Linkaddr) :
    Inv cfg (nbrTableAddLladdr s policy t lladdr).1 ∧ RoutesKept s (nbrTableAddLladdr s policy t lladdr).1 := by
  unfold nbrTableAddLladdr
  split
  · cases hx : indexFromLladdr s lladdr with
    | some i => exact initItem_inv h ht (indexFromLladdr_some hx).1
    | none =>
      simp only
      have hnew := indexFromLladdr_none hx
      unfold nbrTableAllocate
      cases ha : s.neighborAddrMem.alloc with
      | some p =>
        obtain ⟨key, mem⟩ := p
        obtain ⟨hk, -, hm⟩ := h.keys.alloc ha
        have hu : ∀ t, s.usedMap key t = false := by
          intro t
          by_contra hc
          exact hk (h.used key t (by simpa using hc))
        have hl : s.routeList key = [] := h.unused (hu nbrRoutes)
        have hadd : mem.Holds (listAdd s.nbrTableKeys key) := by
          rw [listAdd_new hk]
          exact hm.perm (List.perm_append_singleton _ _)
        obtain ⟨hinv, hkept⟩ := rekey_inv h s.usedMap s.lockedMap hl hadd (fun j => mem_listAdd)
          (fun _ _ => rfl) hu (fun _ _ => rfl) (h.unlocked.2 hl) hnew
        obtain ⟨hinv', hkept'⟩ := initItem_inv hinv ht (mem_listAdd.2 (.inl rfl))
        exact ⟨hinv', hkept.trans hkept'⟩
      | none =>
        simp only
        cases hb : (entryIsAllowed s policy t lladdr).2.bind (indexFromLladdr s) with
        | none => exact ⟨h, RoutesKept.rfl⟩
        | some key =>
          obtain ⟨hk, hlock⟩ := victim_unlocked h hb
          have hl : s.routeList key = [] := h.unlocked.1 hlock
          simp only [removeKey_eq h hlock]
          have hadd : s.neighborAddrMem.Holds (listAdd (listRemove s.nbrTableKeys key) key) := by
            have hp : (listAdd (listRemove s.nbrTableKeys key) key).Perm s.nbrTableKeys := by
              unfold listRemove
              rw [listAdd_new h.keys.nodup.not_mem_erase]
              exact (List.perm_append_singleton _ _).trans (List.perm_cons_erase hk).symm
            exact h.keys.perm hp
          have hkeys : ∀ j, j ∈ listAdd (listRemove s.nbrTableKeys key) key ↔ j = key ∨ j ∈ s.nbrTableKeys := by
            intro j
            rw [mem_listAdd, listRemove, h.keys.nodup.mem_erase_iff]
            tauto
          obtain ⟨hinv, hkept⟩ := rekey_inv h (Function.update s.usedMap key fun _ => false)
            (Function.update s.lockedMap key fun _ => false) hl hadd hkeys
            (fun j hj => Function.update_of_ne hj _ _) (by simp)
            (fun j hj => Function.update_of_ne hj _ _) (by simp) hnew
          obtain ⟨hinv', hkept'⟩ := initItem_inv hinv ht ((hkeys key).2 (.inl rfl))
          exact ⟨hinv', hkept.trans hkept'⟩
  · exact ⟨h, RoutesKept.rfl⟩

end Contiki.Ds6Route
