/-
The routing table over whole runs: routes added, looked up and removed, neighbors taken in, given up
and removed, in any order, with the answers of the neighbor policy part of each call. A run also
keeps when each route was last returned, which is what "least recently used" refers to.
-/
import Contiki.Ds6Route.Table
import Contiki.Lib.Run

namespace Contiki.Ds6Route

section

open Contiki.Core Contiki.Lib

/-! ## The system -/

/-- The tables, the number of calls that returned a route, and for each route the number of the
last one that returned it. -/
structure Sys where
  tab : State
  now : Nat
  last : Nat → Nat

def start (cfg : Config) : Sys := ⟨init cfg, 0, fun _ => 0⟩

/-- A call. Removing a route takes one of the list; the tables other than `nbr_routes` and
`ds6_neighbors` belong to modules that use the neighbor tables on their own. -/
inductive Op where
  | add (policy : NbrPolicy) (ipaddr : Ipaddr) (length : UInt8) (nexthop : Ipaddr)
  | lookup (addr : Ipaddr)
  | rm (route : Nat)
  | rmByNexthop (nexthop : Ipaddr)
  | nbrAdd (policy : NbrPolicy) (ipaddr : Ipaddr) (lladdr : Linkaddr)
  | nbrRm (nbr : Nat)
  | tableAdd (table : Table) (policy : NbrPolicy) (lladdr : Linkaddr)
  | tableRemove (table : Table) (item : Nat)
  | tableLock (table : Table) (item : Nat) (value : Bool)

/-- The state after a call that returned `res`. -/
def Sys.returned (x : Sys) (s : State) : Option Nat → Sys
  | none => { x with tab := s }
  | some r => ⟨s, x.now + 1, Function.update x.last r (x.now + 1)⟩

@[grind =]
def step (cfg : Config) (x : Sys) : Op → Option Sys
  | .add policy ipaddr length nexthop =>
    let (s, res) := uipDs6RouteAdd cfg x.tab policy ipaddr length.toNat nexthop
    some (x.returned s res)
  | .lookup addr =>
    let (s, res) := uipDs6RouteLookup x.tab addr
    some (x.returned s res)
  | .rm route => if route ∈ x.tab.routelist then some { x with tab := uipDs6RouteRm x.tab route } else none
  | .rmByNexthop nexthop => some { x with tab := uipDs6RouteRmByNexthop x.tab nexthop }
  | .nbrAdd policy ipaddr lladdr => some { x with tab := (uipDs6NbrAdd x.tab policy ipaddr lladdr).1 }
  | .nbrRm nbr => some { x with tab := uipDs6NbrRm x.tab nbr }
  | .tableAdd table policy lladdr =>
    if table = nbrRoutes then none else some { x with tab := (nbrTableAddLladdr x.tab policy table lladdr).1 }
  | .tableRemove table item =>
    if table = nbrRoutes then none else some { x with tab := nbrTableRemove x.tab table item }
  | .tableLock table item value =>
    if table = nbrRoutes then none
    else some { x with tab := if value then nbrTableLock x.tab table item else nbrTableUnlock x.tab table item }

/-! ## What the calls owe the map -/

def LeastRecent (x : Sys) (r : Nat) : Prop :=
  r ∈ x.tab.routelist ∧ ∀ q ∈ x.tab.routelist, q ≠ r → x.last r < x.last q

/-- An add that succeeds sets the entry of its prefix and changes no other entry, except that of the
least recently used route when the table is full; one that fails changes nothing. -/
def AddRight (cfg : Config) (x : Sys) (ipaddr : Ipaddr) (length : Nat) (nexthop : Ipaddr) (s' : State) :
    Option Nat → Prop
  | none => ∀ k, table s' k = table x.tab k
  | some _ =>
    (∃ lladdr, table s' (prefixBits ipaddr length) = some lladdr ∧
      uipDs6NbrIpaddrFromLladdr s' lladdr = some nexthop) ∧
    ∀ k, k ≠ prefixBits ipaddr length → table s' k = table x.tab k ∨
      (x.tab.numRoutes = cfg.routeNb ∧ table s' k = none ∧ ∃ r, LeastRecent x r ∧ keyOf x.tab.route r = k)

/-- Lookup returns the entry of the longest prefix of the address that the table has, or nothing
when it has none. -/
def LookupRight (x : Sys) (addr : Ipaddr) (s' : State) (res : Option Nat) : Prop :=
  (∀ k, table s' k = table x.tab k) ∧
  match res with
  | none => ∀ l, table x.tab (prefixBits addr l) = none
  | some r => r ∈ x.tab.routelist ∧ keyOf x.tab.route r = prefixBits addr (x.tab.route r).length ∧
      ∀ l, (x.tab.route r).length < l → table x.tab (prefixBits addr l) = none

def Right (cfg : Config) (x : Sys) : Op → Prop
  | .add policy ipaddr length nexthop =>
    AddRight cfg x ipaddr length.toNat nexthop
      (uipDs6RouteAdd cfg x.tab policy ipaddr length.toNat nexthop).1
      (uipDs6RouteAdd cfg x.tab policy ipaddr length.toNat nexthop).2
  | .lookup addr => LookupRight x addr (uipDs6RouteLookup x.tab addr).1 (uipDs6RouteLookup x.tab addr).2
  | .rm route => ∀ x', step cfg x (.rm route) = some x' → ∀ k,
      table x'.tab k = if k = keyOf x.tab.route route then none else table x.tab k
  | .rmByNexthop nexthop => ∀ x', step cfg x (.rmByNexthop nexthop) = some x' → ∀ k,
      table x'.tab k = if table x.tab k = some ((uipDs6NbrLladdrFromIpaddr x.tab nexthop).getD linkaddrNull)
        then none else table x.tab k
  | op => ∀ x', step cfg x op = some x' → ∀ k, table x'.tab k = table x.tab k

/-! ## When they meet it -/

/-- The route that adding `(ipaddr, length)` through `nexthop` takes out of the table: the one it
replaces, or the last of a full table. -/
def Displaced (cfg : Config) (s : State) (k : List Bool) (nexthop : Ipaddr) (r : Nat) : Prop :=
  r ∈ s.routelist ∧
  ((keyOf s.route r = k ∧ uipDs6RouteNexthop s r ≠ some nexthop) ∨
    ((∀ q ∈ s.routelist, keyOf s.route q ≠ k) ∧ s.numRoutes = cfg.routeNb ∧
      cfg.removeLeastRecentlyUsed = true ∧ s.routelist.getLast? = some r))

/-- Any other route that covers the prefix to be added is shorter than the one to be replaced, and
the next hop is not refused once a route has been taken out for it. -/
def AddFits (cfg : Config) (s : State) (policy : NbrPolicy) (ipaddr : Ipaddr) (length : Nat)
    (nexthop : Ipaddr) : Prop :=
  length ≤ 128 ∧ ∀ lladdr, uipDs6NbrLladdrFromIpaddr s nexthop = some lladdr →
    ((∀ r ∈ s.routelist, ¬Covers s ipaddr r) ∨
      ∃ r ∈ s.routelist, keyOf s.route r = prefixBits ipaddr length ∧
        ∀ q ∈ s.routelist, q ≠ r → Covers s ipaddr q → (s.route q).length < length) ∧
    (policy.canAcceptNew lladdr none = true ∨
      ∀ r, Displaced cfg s (prefixBits ipaddr length) nexthop r →
        ∃ q ∈ s.routelist, q ≠ r ∧ uipDs6RouteNexthopLladdr s q = some lladdr)

/-- The routes whose whole bytes match the address match it in all their bits. -/
def LookupFits (s : State) (addr : Ipaddr) : Prop :=
  ∀ r ∈ s.routelist, Covers s addr r → keyOf s.route r = prefixBits addr (s.route r).length

def Fits (cfg : Config) (x : Sys) : Op → Prop
  | .add policy ipaddr length nexthop => AddFits cfg x.tab policy ipaddr length.toNat nexthop
  | .lookup addr => LookupFits x.tab addr
  | _ => True

/-! ## The invariant over runs -/

variable {cfg : Config} {x x' : Sys}

theorem Outcome.inv {s s0 : State} {i : Nat} {route : Route} {accepts : Bool} {res : State × Option Nat}
    (hf : Fewer cfg s s0) (h : Outcome cfg s0 i route accepts res) : Inv cfg res.1 := by
  cases h with
  | noRoom _ => exact hf.inv
  | created hroom hc => exact hc.inv
  | refused hroom _ _ => exact (hroom.fewer hf.inv).1.inv

theorem lookupLoop_mem {s : State} {addr : Ipaddr} {r : Nat} : ∀ (rs : List Nat) (longest : Nat) (f : Option Nat),
    routeLookupLoop s.route addr rs longest f = some r → f = some r ∨ r ∈ rs
  | [], longest, f, h => .inl h
  | q :: rs, longest, f, h => by
    unfold routeLookupLoop at h
    split_ifs at h
    · cases h; simp
    · rcases lookupLoop_mem rs _ _ h with h | h
      · cases h; simp
      · simp [h]
    · rcases lookupLoop_mem rs _ _ h with h | h
      · exact .inl h
      · simp [h]

theorem found_mem {s : State} {addr : Ipaddr} {r : Nat} (h : found s addr = some r) : r ∈ s.routelist :=
  (lookupLoop_mem _ _ _ h).resolve_left (by simp)

theorem add_inv {s : State} (h : Inv cfg s) (policy : NbrPolicy) (ipaddr : Ipaddr) (length : Nat)
    (nexthop : Ipaddr) : Inv cfg (uipDs6RouteAdd cfg s policy ipaddr length nexthop).1 := by
  cases hn : uipDs6NbrLladdrFromIpaddr s nexthop with
  | none =>
    unfold uipDs6RouteAdd
    rw [hn]
    exact h
  | some lladdr =>
    obtain ⟨i, hi, -⟩ := nbrLladdr_some h hn
    rw [add_eq h hn]
    cases hf : found s ipaddr with
    | none => exact (addNew_spec h hi policy ipaddr length).inv (Fewer.refl h)
    | some r =>
      have hr := found_mem hf
      simp only
      split_ifs
      · exact h.reorder hr
      · obtain ⟨hfew, -, -⟩ := rm_found h hr
        have hi' : indexFromLladdr _ lladdr = some i := (hfew.kept.index lladdr).trans hi
        exact (addNew_spec hfew.inv hi' policy ipaddr length).inv hfew

theorem lookup_inv {s : State} (h : Inv cfg s) (addr : Ipaddr) : Inv cfg (uipDs6RouteLookup s addr).1 := by
  rw [lookup_eq h.toLinked]
  cases hf : routeLookupLoop s.route addr s.routelist 0 none with
  | none => exact h
  | some r => exact h.reorder (found_mem hf)

theorem rmByNexthop_inv {s : State} (h : Inv cfg s) (nexthop : Ipaddr) :
    Inv cfg (uipDs6RouteRmByNexthop s nexthop) := by
  unfold uipDs6RouteRmByNexthop
  split
  · exact h
  · exact (rmRoutelist_spec h _).1

theorem nbrAdd_inv {s : State} (h : Inv cfg s) (policy : NbrPolicy) (ipaddr : Ipaddr) (lladdr : Linkaddr) :
    Inv cfg (uipDs6NbrAdd s policy ipaddr lladdr).1 ∧ RoutesKept s (uipDs6NbrAdd s policy ipaddr lladdr).1 := by
  obtain ⟨hinv, hk⟩ := nbrTableAdd_inv h nbrRoutes_ne.symm policy lladdr
  unfold uipDs6NbrAdd
  rcases he : nbrTableAddLladdr s policy ds6Neighbors lladdr with ⟨s1, _ | nbr⟩
  · rw [he] at hinv hk
    exact ⟨hinv, hk⟩
  · rw [he] at hinv hk
    exact ⟨hinv.bits (fun _ => rfl) hinv.used (fun _ => rfl) _, hk.routelist, hk.route, hk.through⟩

theorem step_inv (op : Op) (h : Inv cfg x.tab) (hs : step cfg x op = some x') : Inv cfg x'.tab := by
  have hret : ∀ (s : State) (res : Option Nat), (x.returned s res).tab = s := by
    intro s res
    cases res <;> rfl
  cases op with
  | add policy ipaddr length nexthop =>
    cases hs
    rw [hret]
    exact add_inv h policy ipaddr length.toNat nexthop
  | lookup addr =>
    cases hs
    rw [hret]
    exact lookup_inv h addr
  | rm route =>
    simp only [step] at hs
    split_ifs at hs with hr
    cases hs
    exact (rm_spec h hr).1
  | rmByNexthop nexthop =>
    cases hs
    exact rmByNexthop_inv h nexthop
  | nbrAdd policy ipaddr lladdr =>
    cases hs
    exact (nbrAdd_inv h policy ipaddr lladdr).1
  | nbrRm nbr =>
    cases hs
    exact (nbrTableRemove_inv h nbrRoutes_ne.symm nbr).1
  | tableAdd t policy lladdr =>
    simp only [step] at hs
    split_ifs at hs with ht
    cases hs
    exact (nbrTableAdd_inv h ht policy lladdr).1
  | tableRemove t item =>
    simp only [step] at hs
    split_ifs at hs with ht
    cases hs
    exact (nbrTableRemove_inv h ht item).1
  | tableLock t item value =>
    simp only [step] at hs
    split_ifs at hs with ht
    · cases hs
      exact setLocked_inv h ht item true
    · cases hs
      exact setLocked_inv h ht item false

end

/-!
The routing table as a finite map. In every run whose calls meet `Fits`, no prefix has two routes,
an add sets the entry of its prefix and no other, a failed add changes nothing, and lookup is longest
match. Without the condition an add takes the longest route that covers its prefix for the one to be
replaced: `covering_route_lost` is the shortest such run.
-/

section

open Contiki.Core Contiki.Lib

variable {cfg : Config} {x : Sys} {s s' : State} {i r : Nat} {lladdr : Linkaddr} {k : List Bool}

/-! ## What is kept along a run -/

/-- No prefix has two routes or more than 128 bits, and the route list is in the order in which the
routes were last returned. -/
structure Sound (x : Sys) : Prop where
  map : IsMap x.tab
  short : Short x.tab
  recent : Recent x.last x.tab.routelist
  past : ∀ r ∈ x.tab.routelist, x.last r ≤ x.now

theorem start_sound (cfg : Config) : Sound (start cfg) := by
  constructor
  case map => exact List.nodup_nil
  case short => exact fun r hr => by cases hr
  case recent => exact List.Pairwise.nil
  case past => exact fun r hr => by cases hr

theorem Sound.fewer (h : Sound x) (hf : Fewer cfg x.tab s) : Sound { x with tab := s } := by
  constructor
  case map => exact (table_sublist h.map hf.kept hf.route hf.sub).1
  case short =>
    intro r hr
    show (s.route r).length ≤ 128
    rw [hf.route]
    exact h.short r (hf.sub.subset hr)
  case recent => exact List.Pairwise.sublist hf.sub h.recent
  case past => exact fun r hr => h.past r (hf.sub.subset hr)

theorem Sound.kept (h : Sound x) (hk : RoutesKept x.tab s) : Sound { x with tab := s } := by
  constructor
  case map =>
    show Distinct (keyOf s.route) s.routelist
    rw [hk.routelist, hk.route]
    exact h.map
  case short =>
    intro r hr
    show (s.route r).length ≤ 128
    rw [hk.route]
    exact h.short r (hk.routelist ▸ hr)
  case recent => show Recent x.last s.routelist; rw [hk.routelist]; exact h.recent
  case past => exact fun r hr => h.past r (hk.routelist ▸ hr)

theorem Sound.use (h : Sound x) {rest : List Nat} (hsub : rest.Sublist x.tab.routelist) (hr : r ∉ rest)
    (hlist : s.routelist = r :: rest) (hm : IsMap s) (hs : Short s) : Sound (x.returned s (some r)) := by
  constructor
  case map => exact hm
  case short => exact hs
  case recent =>
    show Recent _ s.routelist
    rw [hlist]
    have hrest : Recent x.last rest := List.Pairwise.sublist hsub h.recent
    exact hrest.use hr fun c hc => Nat.lt_succ_of_le (h.past c (hsub.subset hc))
  case past =>
    intro q hq
    show Function.update x.last r (x.now + 1) q ≤ x.now + 1
    by_cases hqr : q = r
    · simp [hqr]
    · rw [Function.update_of_ne hqr]
      have hq' : q ∈ r :: rest := hlist ▸ hq
      have hmem := hsub.subset ((List.mem_cons.1 hq').resolve_left hqr)
      exact (h.past q hmem).trans (Nat.le_succ _)

theorem Sound.reorder (h : Sound x) (hinv : Inv cfg x.tab) (hr : r ∈ x.tab.routelist) :
    Sound (x.returned { x.tab with routelist := listPush x.tab.routelist r } (some r)) := by
  have hsub : (x.tab.routelist.erase r).Sublist x.tab.routelist := List.erase_sublist
  refine h.use hsub hinv.nodupRoutes.not_mem_erase rfl
    (h.map.perm (listPush_perm hr)) ?_
  exact fun q hq => h.short q ((listPush_perm hr).mem_iff.1 hq)

/-! ## Lookup -/

theorem key_covers {addr : Ipaddr} (hk : keyOf s.route r = prefixBits addr (s.route r).length) : Covers s addr r :=
  prefixcmp_of_bits hk.symm

theorem covers_of_key {addr : Ipaddr} {l : Nat} (hk : keyOf s.route r = prefixBits addr l) :
    Covers s addr r ∧ (s.route r).length = l := by
  have hl : (s.route r).length = l := (prefixBits_eq_iff.1 hk).1
  exact ⟨key_covers (by rw [hl]; exact hk), hl⟩

theorem lookup_right (hinv : Inv cfg x.tab) (h : Sound x) {addr : Ipaddr} (hf : LookupFits x.tab addr) :
    LookupRight x addr (uipDs6RouteLookup x.tab addr).1 (uipDs6RouteLookup x.tab addr).2 ∧
      Sound (x.returned (uipDs6RouteLookup x.tab addr).1 (uipDs6RouteLookup x.tab addr).2) := by
  have hlong := lookup_spec h.short addr
  rw [lookup_eq hinv.toLinked]
  cases hres : routeLookupLoop x.tab.route addr x.tab.routelist 0 none with
  | none =>
    rw [hres] at hlong
    refine ⟨⟨fun _ => rfl, fun l => table_none fun r hr hk => ?_⟩, h⟩
    exact hlong r hr (covers_of_key hk).1
  | some r =>
    rw [hres] at hlong
    obtain ⟨hr, hc, hall⟩ := hlong
    refine ⟨⟨table_reorder h.map hr, hr, hf r hr hc, fun l hl => table_none fun q hq hk => ?_⟩,
      h.reorder hinv hr⟩
    obtain ⟨hqc, hql⟩ := covers_of_key hk
    have := hall q hq hqc
    omega

/-! ## Adding -/

theorem Sound.created {s1 : State} {route : Route} (h : Sound x) (hf : Fewer cfg x.tab s1)
    (hc : Created cfg s1 s' r route) (hi : route.neighborRoutes = some i) (hlen : route.length ≤ 128)
    (hnew : ∀ q ∈ s1.routelist, keyOf s1.route q ≠ prefixBits route.ipaddr route.length) :
    Sound (x.returned s' (some r)) ∧ ∀ k, table s' k =
      if k = prefixBits route.ipaddr route.length then some (s1.lladdr i) else table s1 k := by
  obtain ⟨hm', htab⟩ := table_created hc hi (h.fewer hf).map hnew
  refine ⟨h.use hf.sub hc.new hc.routelist hm' ?_, htab⟩
  intro q hq
  rw [hc.route]
  by_cases hqr : q = r
  · rw [hqr, Function.update_self]
    exact hlen
  · rw [Function.update_of_ne hqr]
    rw [hc.routelist] at hq
    exact (h.fewer hf).short q ((List.mem_cons.1 hq).resolve_left hqr)

theorem Room.table (h : Sound x) (hinv : Inv cfg x.tab) (hroom : Room cfg x.tab s) (k : List Bool) :
    Ds6Route.table s k = Ds6Route.table x.tab k ∨ (x.tab.numRoutes = cfg.routeNb ∧ Ds6Route.table s k = none ∧
        ∃ r, LeastRecent x r ∧ keyOf x.tab.route r = k) := by
  cases hroom with
  | free _ => exact .inl rfl
  | evict oldest hfull _ hlast =>
    have hmem : oldest ∈ x.tab.routelist := List.mem_of_getLast? hlast
    rw [(table_rm hinv h.map hmem).2 k]
    split
    · rename_i hk
      exact .inr ⟨hfull, rfl, oldest, ⟨hmem, h.recent.getLast hlast⟩, hk.symm⟩
    · exact .inl rfl

theorem carries_other (hinv : Inv cfg s) (hi : indexFromLladdr s lladdr = some i) {q : Nat}
    (hq : q ∈ s.routelist) (hl : uipDs6RouteNexthopLladdr s q = some lladdr) : q ∈ s.routeList i := by
  obtain ⟨j, hj⟩ := hinv.through q hq
  unfold uipDs6RouteNexthopLladdr at hl
  rw [hj] at hl
  have hx := hinv.index (hinv.key hq hj)
  simp only [Option.map_some, Option.some.injEq] at hl
  rw [hl, hi] at hx
  cases hx
  exact (hinv.link i q).2 ⟨hq, hj⟩

section AddRight

variable {policy : NbrPolicy} {ipaddr nexthop : Ipaddr} {length : Nat}

theorem nexthop_of_created {s1 : State} {route : Route} (hk : NbrKept x.tab s1) (hc : Created cfg s1 s' r route)
    (hi : indexFromLladdr x.tab lladdr = some i) (hip : uipDs6NbrIpaddrFromLladdr x.tab lladdr = some nexthop) :
    uipDs6NbrIpaddrFromLladdr s' (s1.lladdr i) = some nexthop := by
  rw [hk.lladdr, (indexFromLladdr_some hi).2, (hk.trans hc.kept).ipaddrFrom]
  exact hip

theorem add_right_new (hinv : Inv cfg x.tab) (h : Sound x) (hfits : AddFits cfg x.tab policy ipaddr length nexthop)
    (hn : uipDs6NbrLladdrFromIpaddr x.tab nexthop = some lladdr)
    (hcov : ∀ r ∈ x.tab.routelist, ¬Covers x.tab ipaddr r) :
    AddRight cfg x ipaddr length nexthop (addNew cfg x.tab policy ipaddr length lladdr).1
        (addNew cfg x.tab policy ipaddr length lladdr).2 ∧
      Sound (x.returned (addNew cfg x.tab policy ipaddr length lladdr).1
        (addNew cfg x.tab policy ipaddr length lladdr).2) := by
  obtain ⟨i, hi, hip⟩ := nbrLladdr_some hinv hn
  have hnew : ∀ q ∈ x.tab.routelist, keyOf x.tab.route q ≠ prefixBits ipaddr length :=
    fun q hq hk => hcov q hq (covers_of_key hk).1
  have hout := addNew_spec hinv hi policy ipaddr length
  generalize addNew cfg x.tab policy ipaddr length lladdr = res at hout ⊢
  cases hout with
  | noRoom _ => exact ⟨fun _ => rfl, h⟩
  | created hroom hc =>
    obtain ⟨hf, -⟩ := hroom.fewer hinv
    obtain ⟨hsound, htab⟩ := h.created hf hc rfl hfits.1 fun q hq => by
      rw [hf.route]
      exact hnew q (hf.sub.subset hq)
    refine ⟨⟨⟨_, by rw [htab, if_pos rfl], nexthop_of_created hf.kept hc hi hip⟩, fun k hk => ?_⟩, hsound⟩
    rw [htab, if_neg hk]
    exact hroom.table h hinv k
  | refused hroom hnil hacc =>
    cases hroom with
    | free _ => exact ⟨fun _ => rfl, h⟩
    | evict oldest hfull hlru hlast =>
      -- a route has been given up, so the next hop is accepted or carries another route
      exfalso
      have hmem : oldest ∈ x.tab.routelist := List.mem_of_getLast? hlast
      rcases (hfits.2 lladdr hn).2 with ha | hd
      · rw [ha] at hacc
        cases hacc
      · obtain ⟨q, hq, hne, hl⟩ := hd oldest ⟨hmem, .inr ⟨hnew, hfull, hlru, hlast⟩⟩
        have hqi := ((rm_spec hinv hmem).2.2.2.2 i q).2 ⟨carries_other hinv hi hq hl, hne⟩
        rw [hnil] at hqi
        cases hqi

theorem add_right_replace (hinv : Inv cfg x.tab) (h : Sound x)
    (hfits : AddFits cfg x.tab policy ipaddr length nexthop)
    (hn : uipDs6NbrLladdrFromIpaddr x.tab nexthop = some lladdr) (hr : r ∈ x.tab.routelist)
    (hkey : keyOf x.tab.route r = prefixBits ipaddr length)
    (hother : uipDs6RouteNexthop x.tab r ≠ some nexthop)
    (hs : s = uipDs6RouteRm { x.tab with routelist := listPush x.tab.routelist r } r) :
    AddRight cfg x ipaddr length nexthop (addNew cfg s policy ipaddr length lladdr).1
        (addNew cfg s policy ipaddr length lladdr).2 ∧
      Sound (x.returned (addNew cfg s policy ipaddr length lladdr).1
        (addNew cfg s policy ipaddr length lladdr).2) := by
  obtain ⟨i, hi, hip⟩ := nbrLladdr_some hinv hn
  obtain ⟨hf, hlist, hmem⟩ := rm_found hinv hr
  rw [← hs] at hf hlist hmem
  have hi' : indexFromLladdr s lladdr = some i := (hf.kept.index lladdr).trans hi
  -- the table has lost the entry of the prefix, and there is room for one route
  have hlen : s.routelist.length < cfg.routeNb := by
    have hle := hinv.mem.length_le
    rw [hinv.num] at hle
    have hpos := List.length_pos_of_mem hr
    rw [hlist, List.length_erase_of_mem hr]
    omega
  have hnew : ∀ q ∈ s.routelist, keyOf s.route q ≠ prefixBits ipaddr length := by
    intro q hq hk
    rw [hf.route, ← hkey] at hk
    have he : q = r := h.map.inj (hf.sub.subset hq) hr hk
    rw [he, hlist] at hq
    exact hinv.nodupRoutes.not_mem_erase hq
  have hsame : ∀ k, k ≠ prefixBits ipaddr length → table s k = table x.tab k := by
    intro k hk
    rcases (table_sublist h.map hf.kept hf.route hf.sub).2 k with ht | ⟨-, q, hq, hq', hqk⟩
    · exact ht
    · exfalso
      have he : q = r := by
        by_contra hne
        rw [hlist] at hq'
        exact hq' ((List.mem_erase_of_ne hne).2 hq)
      rw [he, hkey] at hqk
      exact hk hqk.symm
  have hroomy : ∀ t, Room cfg s t → t = s := by
    intro t hroom
    cases hroom with
    | free _ => rfl
    | evict _ hfull _ _ =>
      rw [hf.inv.count] at hfull
      omega
  have hout := addNew_spec hf.inv hi' policy ipaddr length
  generalize addNew cfg s policy ipaddr length lladdr = res at hout ⊢
  cases hout with
  | noRoom hfull =>
    rw [hf.inv.count] at hfull
    omega
  | created hroom hc =>
    rw [hroomy _ hroom] at hc
    obtain ⟨hsound, htab⟩ := h.created hf hc rfl hfits.1 hnew
    refine ⟨⟨⟨_, by rw [htab, if_pos rfl], nexthop_of_created hf.kept hc hi hip⟩, fun k hk => ?_⟩, hsound⟩
    left
    rw [htab, if_neg hk, hsame k hk]
  | refused hroom hnil hacc =>
    rw [hroomy _ hroom] at hnil
    exfalso
    rcases (hfits.2 lladdr hn).2 with ha | hd
    · rw [ha] at hacc
      cases hacc
    · obtain ⟨q, hq, hne, hl⟩ := hd r ⟨hr, .inl ⟨hkey, hother⟩⟩
      have hqi := (hmem i q).2 ⟨carries_other hinv hi hq hl, hne⟩
      rw [hnil] at hqi
      cases hqi

theorem add_right (hinv : Inv cfg x.tab) (h : Sound x) (hfits : AddFits cfg x.tab policy ipaddr length nexthop) :
    AddRight cfg x ipaddr length nexthop (uipDs6RouteAdd cfg x.tab policy ipaddr length nexthop).1
        (uipDs6RouteAdd cfg x.tab policy ipaddr length nexthop).2 ∧
      Sound (x.returned (uipDs6RouteAdd cfg x.tab policy ipaddr length nexthop).1
        (uipDs6RouteAdd cfg x.tab policy ipaddr length nexthop).2) := by
  cases hn : uipDs6NbrLladdrFromIpaddr x.tab nexthop with
  | none =>
    unfold uipDs6RouteAdd
    rw [hn]
    exact ⟨fun _ => rfl, h⟩
  | some lladdr =>
    have hlong := lookup_spec h.short ipaddr
    rw [add_eq hinv hn]
    unfold found
    cases hres : routeLookupLoop x.tab.route ipaddr x.tab.routelist 0 none with
    | none =>
      rw [hres] at hlong
      exact add_right_new hinv h hfits hn hlong
    | some r =>
      rw [hres] at hlong
      obtain ⟨hr, hc, hall⟩ := hlong
      -- the route found is the one of the prefix: any other that covers it is shorter
      have hkey : keyOf x.tab.route r = prefixBits ipaddr length := by
        rcases (hfits.2 lladdr hn).1 with hno | ⟨r0, hr0, hk0, hshort⟩
        · exact absurd hc (hno r hr)
        · by_cases he : r = r0
          · rw [he]
            exact hk0
          · obtain ⟨hc0, hl0⟩ := covers_of_key hk0
            have h1 := hshort r hr he hc
            have h2 := hall r0 hr0 hc0
            omega
      simp only
      split_ifs with hnh
      · refine ⟨⟨?_, fun k _ => .inl (table_reorder h.map hr k)⟩, h.reorder hinv hr⟩
        unfold uipDs6RouteNexthop at hnh
        obtain ⟨ll, hll, hip⟩ := Option.bind_eq_some_iff.1 hnh
        refine ⟨ll, ?_, hip⟩
        rw [table_reorder h.map hr, ← hkey, table_of_mem h.map hr]
        exact hll
      · exact add_right_replace hinv h hfits hn hr hkey hnh rfl

end AddRight

/-! ## The other calls -/

theorem rm_right (hinv : Inv cfg x.tab) (h : Sound x) (hr : r ∈ x.tab.routelist) :
    (∀ k, table (uipDs6RouteRm x.tab r) k = if k = keyOf x.tab.route r then none else table x.tab k) ∧
      Sound { x with tab := uipDs6RouteRm x.tab r } :=
  ⟨(table_rm hinv h.map hr).2, h.fewer (rm_fewer hinv hr)⟩

/-- Removing all routes of a neighbor takes out exactly the entries that go through it. -/
theorem rmRoutelist_right (hinv : Inv cfg x.tab) (h : Sound x) (hi : indexFromLladdr x.tab lladdr = some i) :
    (∀ k, table (rmRoutelist x.tab i) k = if table x.tab k = some lladdr then none else table x.tab k) ∧
      Sound { x with tab := rmRoutelist x.tab i } := by
  obtain ⟨hinv', hk, hroute, hsub, hmem⟩ := rmRoutelist_spec hinv i
  refine ⟨fun k => ?_, h.fewer ⟨hinv', hk, hroute, hsub⟩⟩
  obtain ⟨hm', htab⟩ := table_sublist h.map hk hroute hsub
  split
  · rename_i hthrough
    refine table_none fun q hq hqk => ?_
    obtain ⟨hq', hqi⟩ := (hmem q).1 hq
    rw [hroute] at hqk
    rw [← hqk, table_of_mem h.map hq'] at hthrough
    exact hqi (carries_other hinv hi hq' hthrough)
  · rename_i hthrough
    rcases htab k with ht | ⟨-, q, hq, hq', hqk⟩
    · exact ht
    · exfalso
      have hqi : q ∈ x.tab.routeList i := by
        by_contra hno
        exact hq' ((hmem q).2 ⟨hq, hno⟩)
      rw [← hqk, table_of_mem h.map hq] at hthrough
      unfold uipDs6RouteNexthopLladdr at hthrough
      rw [((hinv.link i q).1 hqi).2] at hthrough
      exact hthrough (by simp [(indexFromLladdr_some hi).2])

theorem rmByNexthop_right (hinv : Inv cfg x.tab) (h : Sound x) (nexthop : Ipaddr) :
    (∀ k, table (uipDs6RouteRmByNexthop x.tab nexthop) k =
      if table x.tab k = some ((uipDs6NbrLladdrFromIpaddr x.tab nexthop).getD linkaddrNull) then none
        else table x.tab k) ∧
      Sound { x with tab := uipDs6RouteRmByNexthop x.tab nexthop } := by
  unfold uipDs6RouteRmByNexthop
  generalize (uipDs6NbrLladdrFromIpaddr x.tab nexthop).getD linkaddrNull = lladdr
  cases hg : nbrTableGetFromLladdr x.tab nbrRoutes lladdr with
  | some routes => exact rmRoutelist_right hinv h (nbrTableGet_some hg).1
  | none =>
    refine ⟨fun k => ?_, h⟩
    show table x.tab k = _
    split
    · -- no neighbor of that address carries a route
      rename_i hthrough
      exfalso
      unfold table at hthrough
      obtain ⟨q, hq, hl⟩ := Option.bind_eq_some_iff.1 hthrough
      obtain ⟨j, hj⟩ := hinv.through q (assoc_some hq).1
      have hl' := hl
      unfold uipDs6RouteNexthopLladdr at hl'
      rw [hj] at hl'
      simp only [Option.map_some, Option.some.injEq] at hl'
      have hx := hinv.index (hinv.key (assoc_some hq).1 hj)
      rw [hl'] at hx
      have hqj := carries_other hinv hx (assoc_some hq).1 hl
      rw [nbrTableGet_eq hx, if_pos ((hinv.carries j).2 (List.ne_nil_of_mem hqj))] at hg
      cases hg
    · rfl

/-! ## Every run -/

theorem step_sound (op : Op) {x' : Sys} (hinv : Inv cfg x.tab) (h : Sound x) (hf : Fits cfg x op)
    (hs : step cfg x op = some x') : Sound x' := by
  cases op with
  | add policy ipaddr length nexthop =>
    cases hs
    exact (add_right hinv h hf).2
  | lookup addr =>
    cases hs
    exact (lookup_right hinv h hf).2
  | rm route =>
    simp only [step] at hs
    split_ifs at hs with hr
    cases hs
    exact (rm_right hinv h hr).2
  | rmByNexthop nexthop =>
    cases hs
    exact (rmByNexthop_right hinv h nexthop).2
  | nbrAdd policy ipaddr lladdr =>
    cases hs
    exact h.kept (nbrAdd_inv hinv policy ipaddr lladdr).2
  | nbrRm nbr =>
    cases hs
    exact h.kept (nbrTableRemove_inv hinv nbrRoutes_ne.symm nbr).2
  | tableAdd t policy lladdr =>
    simp only [step] at hs
    split_ifs at hs with ht
    cases hs
    exact h.kept (nbrTableAdd_inv hinv ht policy lladdr).2
  | tableRemove t item =>
    simp only [step] at hs
    split_ifs at hs with ht
    cases hs
    exact h.kept (nbrTableRemove_inv hinv ht item).2
  | tableLock t item value =>
    simp only [step] at hs
    split_ifs at hs with ht
    all_goals
      cases hs
      exact h.kept ⟨rfl, rfl, fun _ _ => rfl⟩

theorem step_right (op : Op) (hinv : Inv cfg x.tab) (h : Sound x) (hf : Fits cfg x op) : Right cfg x op := by
  cases op with
  | add policy ipaddr length nexthop => exact (add_right hinv h hf).1
  | lookup addr => exact (lookup_right hinv h hf).1
  | rm route =>
    intro x' hs
    simp only [step] at hs
    split_ifs at hs with hr
    cases hs
    exact (rm_right hinv h hr).1
  | rmByNexthop nexthop =>
    intro x' hs
    cases hs
    exact (rmByNexthop_right hinv h nexthop).1
  | nbrAdd policy ipaddr lladdr =>
    intro x' hs
    cases hs
    exact table_kept (nbrAdd_inv hinv policy ipaddr lladdr).2
  | nbrRm nbr =>
    intro x' hs
    cases hs
    exact table_kept (nbrTableRemove_inv hinv nbrRoutes_ne.symm nbr).2
  | tableAdd t policy lladdr =>
    intro x' hs
    simp only [step] at hs
    split_ifs at hs with ht
    cases hs
    exact table_kept (nbrTableAdd_inv hinv ht policy lladdr).2
  | tableRemove t item =>
    intro x' hs
    simp only [step] at hs
    split_ifs at hs with ht
    cases hs
    exact table_kept (nbrTableRemove_inv hinv ht item).2
  | tableLock t item value =>
    intro x' hs
    simp only [step] at hs
    split_ifs at hs with ht
    all_goals
      cases hs
      exact table_kept ⟨rfl, rfl, fun _ _ => rfl⟩

/-- The table is a finite map in every state of the run, and every call does to it what it should. -/
def TableIsMap (cfg : Config) (ops : List Op) : Prop :=
  AllStates (step cfg) (fun x => IsMap x.tab) (start cfg) ops ∧ AllSteps (step cfg) (Right cfg) (start cfg) ops

/-- In every run whose calls meet `Fits` the routing table is a finite map with longest-match
lookup. -/
theorem table_is_map (cfg : Config) (ops : List Op) (h : AllSteps (step cfg) (Fits cfg) (start cfg) ops) :
    TableIsMap cfg ops := by
  have hJ : ∀ x op x', Inv cfg x.tab → step cfg x op = some x' → Inv cfg x'.tab :=
    fun _ op _ hi hs => step_inv op hi hs
  have hP : ∀ x op x', Inv cfg x.tab → Sound x → Fits cfg x op → step cfg x op = some x' → Sound x' :=
    fun _ op _ hi hp hf hs => step_sound op hi hp hf hs
  have hstates := allStates_of_allSteps hJ hP ops (start cfg) (init_inv cfg) (start_sound cfg) h
  have hsteps := allSteps_of_allSteps hJ hP (fun _ op hi hp hf => step_right op hi hp hf) ops (start cfg)
    (init_inv cfg) (start_sound cfg) h
  exact ⟨hstates.mono fun _ hx => hx.map, hsteps⟩

/-! ## Runs -/

def acceptAll : NbrPolicy := ⟨fun _ _ => false, fun _ _ => true⟩

/-- Two neighbors, and an address under the prefix `2001::/32`. -/
def nbrA : Ipaddr := ![0xfe, 0x80, 0, 0, 0, 0, 0, 0, 0, 0, 0, 0, 0, 0, 0, 0xa]
def nbrB : Ipaddr := ![0xfe, 0x80, 0, 0, 0, 0, 0, 0, 0, 0, 0, 0, 0, 0, 0, 0xb]
def host : Ipaddr := ![0x20, 0x01, 0, 0, 0, 0, 0, 0, 0, 0, 0, 0, 0, 0, 0, 1]

def smallConfig : Config := ⟨4, false, 4⟩

def oneRoute : List Op := [.nbrAdd acceptAll nbrA [0xa], .add acceptAll host 32 nbrA, .lookup host]

theorem table_is_map_oneRoute : AllSteps (step smallConfig) (Fits smallConfig) (start smallConfig) oneRoute ∧
      TableIsMap smallConfig oneRoute := by
  have hfits : AllSteps (step smallConfig) (Fits smallConfig) (start smallConfig) oneRoute := by
    refine ⟨trivial, fun x1 h1 => ?_⟩
    cases h1
    refine ⟨⟨by decide, fun lladdr _ => ⟨.inl ?_, .inl rfl⟩⟩, fun x2 h2 => ?_⟩
    · intro r hr
      cases hr
    · cases h2
      refine ⟨?_, fun _ _ => trivial⟩
      show LookupFits _ host
      unfold LookupFits Covers keyOf
      decide
  exact ⟨hfits, table_is_map smallConfig oneRoute hfits⟩

/-- A prefix through one neighbor, then a host under it through another. -/
def coveringRoute : List Op :=
  [.nbrAdd acceptAll nbrA [0xa], .nbrAdd acceptAll nbrB [0xb], .add acceptAll host 32 nbrA,
    .add acceptAll host 128 nbrB]

/-- The host route takes the entry of the prefix out of a table with three free places. -/
theorem covering_route_lost : ¬TableIsMap smallConfig coveringRoute := by
  rintro ⟨-, h⟩
  have h1 := h.2 _ rfl
  have h2 := h1.2 _ rfl
  have h3 := h2.2 _ rfl
  have hadd := h3.1
  rcases hadd.2 (prefixBits host 32) (by decide) with hsame | ⟨hfull, -, -⟩
  · revert hsame
    decide
  · revert hfull
    decide

end

end Contiki.Ds6Route
