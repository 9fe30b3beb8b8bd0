/-
The routing table of uip-ds6-route.c with the tables it stands on: the neighbor tables of
nbr-table.c, the neighbor cache of uip-ds6-nbr.c and the block pools. A neighbor is the index of its
key, and the item of a table at that index belongs to it; a route and a `neighbor_route` are the
indices of their blocks. What a configuration may replace (which neighbor is the worst, whether a
new one is accepted) is a parameter of the calls that ask for it.
-/
import Contiki.Core.Memb
import Contiki.Core.Uip

namespace Contiki.Ds6Route

open Contiki.Core

/-! ## Addresses -/

/-- `linkaddr_t`. -/
abbrev Linkaddr := List UInt8

def linkaddrNull : Linkaddr := List.replicate 8 0

/-- `uip_ipaddr_prefixcmp`: `memcmp` over the first `length >> 3` bytes. -/
def prefixcmp (addr1 addr2 : Ipaddr) (length : Nat) : Bool :=
  decide (∀ i : Fin 16, i.val < length >>> 3 → addr1 i = addr2 i)

/-! ## State -/

/-- The index of a registered neighbor table; `MAX_NUM_TABLES` is 8. -/
abbrev Table := Fin 8

/-- The table `ds6_neighbors`, registered by `uip_ds6_neighbors_init`. -/
def ds6Neighbors : Table := 0

/-- The table `nbr_routes`, registered by `uip_ds6_route_init`. -/
def nbrRoutes : Table := 1

/-- What `uip_ds6_route_t` holds; `neighborRoutes` is the neighbor whose route list it is on. -/
structure Route where
  ipaddr : Ipaddr
  length : Nat
  neighborRoutes : Option Nat

/-- `UIP_DS6_ROUTE_NB`, `UIP_DS6_ROUTE_REMOVE_LEAST_RECENTLY_USED` and `NBR_TABLE_MAX_NEIGHBORS`. -/
structure Config where
  routeNb : Nat
  removeLeastRecentlyUsed : Bool
  maxNeighbors : Nat

/-- `NBR_TABLE_GC_GET_WORST` (whether the second address is the worse one) and
`NBR_TABLE_CAN_ACCEPT_NEW`, as they answer at the moment of a call. -/
structure NbrPolicy where
  gcGetWorst : Linkaddr → Linkaddr → Bool
  canAcceptNew : Linkaddr → Option Linkaddr → Bool

structure State where
  neighborAddrMem : Memb
  nbrTableKeys : List Nat
  lladdr : Nat → Linkaddr
  usedMap : Nat → Table → Bool
  lockedMap : Nat → Table → Bool
  /-- The address of each item of `ds6_neighbors`. -/
  ipaddr : Nat → Ipaddr
  /-- The `route_list` of each item of `nbr_routes`. -/
  routeList : Nat → List Nat
  neighborroutememb : Memb
  /-- The route of each `neighbor_route` block. -/
  nbrr : Nat → Nat
  routememb : Memb
  route : Nat → Route
  routelist : List Nat
  numRoutes : Nat

/-- After the initialization of the neighbor tables and `uip_ds6_route_init`. -/
def init (cfg : Config) : State where
  neighborAddrMem := .init cfg.maxNeighbors
  nbrTableKeys := []
  lladdr := fun _ => linkaddrNull
  usedMap := fun _ _ => false
  lockedMap := fun _ _ => false
  ipaddr := fun _ _ => 0
  routeList := fun _ => []
  neighborroutememb := .init cfg.routeNb
  nbrr := fun _ => 0
  routememb := .init cfg.routeNb
  route := fun _ => ⟨fun _ => 0, 0, none⟩
  routelist := []
  numRoutes := 0

/-! ## nbr-table.c -/

def setBit (map : Nat → Table → Bool) (item : Nat) (table : Table) (value : Bool) : Nat → Table → Bool :=
  Function.update map item (Function.update (map item) table value)

def indexFromLladdr (s : State) (lladdr : Linkaddr) : Option Nat :=
  s.nbrTableKeys.find? (fun i => s.lladdr i = lladdr)

@[grind =]
def nbrTableGetFromLladdr (s : State) (table : Table) (lladdr : Linkaddr) : Option Nat :=
  match indexFromLladdr s lladdr with
  | none => none
  | some i => if s.usedMap i table then some i else none

/-- `nbr_table_remove`: the neighbor stays in the key list. -/
def nbrTableRemove (s : State) (table : Table) (item : Nat) : State :=
  { s with
    usedMap := setBit s.usedMap item table false
    lockedMap := setBit s.lockedMap item table false }

def nbrTableLock (s : State) (table : Table) (item : Nat) : State :=
  { s with lockedMap := setBit s.lockedMap item table true }

def nbrTableUnlock (s : State) (table : Table) (item : Nat) : State :=
  { s with lockedMap := setBit s.lockedMap item table false }

/-! ## uip-ds6-nbr.c -/

def uipDs6NbrLookup (s : State) (ipaddr : Ipaddr) : Option Nat :=
  s.nbrTableKeys.find? (fun i => s.usedMap i ds6Neighbors && decide (s.ipaddr i = ipaddr))

def uipDs6NbrLladdrFromIpaddr (s : State) (ipaddr : Ipaddr) : Option Linkaddr :=
  (uipDs6NbrLookup s ipaddr).map s.lladdr

def uipDs6NbrIpaddrFromLladdr (s : State) (lladdr : Linkaddr) : Option Ipaddr :=
  (nbrTableGetFromLladdr s ds6Neighbors lladdr).map s.ipaddr

def uipDs6NbrRm (s : State) (nbr : Nat) : State := nbrTableRemove s ds6Neighbors nbr

/-! ## Lookup and removal of routes -/

def uipDs6RouteNexthopLladdr (s : State) (route : Nat) : Option Linkaddr :=
  (s.route route).neighborRoutes.map s.lladdr

def uipDs6RouteNexthop (s : State) (route : Nat) : Option Ipaddr :=
  (uipDs6RouteNexthopLladdr s route).bind (uipDs6NbrIpaddrFromLladdr s)

/-- The loop of `uip_ds6_route_lookup`: the rest of the list, `longestmatch` and `found_route`. -/
@[grind =]
def routeLookupLoop (route : Nat → Route) (addr : Ipaddr) : List Nat → Nat → Option Nat → Option Nat
  | [], _, found => found
  | r :: rs, longestmatch, found =>
    if longestmatch ≤ (route r).length ∧ prefixcmp addr (route r).ipaddr (route r).length then
      if (route r).length = 128 then
        some r
      else
        routeLookupLoop route addr rs (route r).length (some r)
    else
      routeLookupLoop route addr rs longestmatch found

/-- `uip_ds6_route_lookup`: the route found goes to the front of the list. -/
def uipDs6RouteLookup (s : State) (addr : Ipaddr) : State × Option Nat :=
  match routeLookupLoop s.route addr s.routelist 0 none with
  | none => (s, none)
  | some found =>
    if s.routelist.head? = some found then
      (s, some found)
    else
      ({ s with routelist := listPush (listRemove s.routelist found) found }, some found)

def uipDs6RouteRm (s : State) (route : Nat) : State :=
  match (s.route route).neighborRoutes with
  | none => s
  | some nbr =>
    let s := { s with routelist := listRemove s.routelist route }
    let neighborRoute := (s.routeList nbr).find? (fun b => s.nbrr b = route)
    let s := match neighborRoute with
      | none => s
      | some b => { s with routeList := Function.update s.routeList nbr (listRemove (s.routeList nbr) b) }
    -- the only route through this neighbor: the neighbor leaves the table, which unlocks it
    let s := if s.routeList nbr = [] then nbrTableRemove s nbrRoutes nbr else s
    { s with
      routememb := s.routememb.free route
      neighborroutememb := match neighborRoute with
        | none => s.neighborroutememb
        | some b => s.neighborroutememb.free b
      numRoutes := s.numRoutes - 1 }

/-- The loop of `rm_routelist`, which runs until the route list is empty. -/
@[grind =]
def rmRoutelistLoop : Nat → State → Nat → State
  | 0, s, _ => s
  | fuel + 1, s, routes =>
    match (s.routeList routes).head? with
    | none => s
    | some r => rmRoutelistLoop fuel (uipDs6RouteRm s (s.nbrr r)) routes

/-- `rm_routelist`, also as the callback `rm_routelist_callback`. -/
def rmRoutelist (s : State) (routes : Nat) : State :=
  nbrTableRemove (rmRoutelistLoop (s.routeList routes).length s routes) nbrRoutes routes

def uipDs6RouteRmByNexthop (s : State) (nexthop : Ipaddr) : State :=
  match nbrTableGetFromLladdr s nbrRoutes ((uipDs6NbrLladdrFromIpaddr s nexthop).getD linkaddrNull) with
  | none => s
  | some routes => rmRoutelist s routes

/-! ## Adding a neighbor -/

/-- `remove_key`: the callbacks of the tables that use the neighbor, then all its bits. -/
def removeKey (s : State) (key : Nat) (doFree : Bool) : State :=
  let s := if s.usedMap key ds6Neighbors then uipDs6NbrRm s key else s
  let s := if s.usedMap key nbrRoutes then rmRoutelist s key else s
  { s with
    usedMap := Function.update s.usedMap key (fun _ => false)
    lockedMap := Function.update s.lockedMap key (fun _ => false)
    nbrTableKeys := listRemove s.nbrTableKeys key
    neighborAddrMem := if doFree then s.neighborAddrMem.free key else s.neighborAddrMem }

/-- The loop of `select_for_removal`: the worst neighbor that no table locks. -/
@[grind =]
def worstUnlocked (s : State) (policy : NbrPolicy) : List Nat → Option Linkaddr → Option Linkaddr
  | [], worst => worst
  | k :: ks, worst =>
    if ∃ t, s.lockedMap k t = true then
      worstUnlocked s policy ks worst
    else
      match worst with
      | none => worstUnlocked s policy ks (some (s.lladdr k))
      | some w =>
        worstUnlocked s policy ks (some (if policy.gcGetWorst w (s.lladdr k) then s.lladdr k else w))

def selectForRemoval (s : State) (policy : NbrPolicy) (new : Linkaddr) : Option Linkaddr :=
  match worstUnlocked s policy s.nbrTableKeys none with
  | none => none
  | some worst => if policy.canAcceptNew new (some worst) then some worst else none

/-- `entry_is_allowed`: the answer and the neighbor to be removed for the new one. -/
def entryIsAllowed (s : State) (policy : NbrPolicy) (table : Table) (lladdr : Linkaddr) :
    Bool × Option Linkaddr :=
  if (nbrTableGetFromLladdr s table lladdr).isSome then
    (true, none)
  else if (indexFromLladdr s lladdr).isSome ∨ 0 < s.neighborAddrMem.numfree then
    (policy.canAcceptNew lladdr none, none)
  else
    ((selectForRemoval s policy lladdr).isSome, selectForRemoval s policy lladdr)

def nbrTableAllocate (s : State) (toBeRemoved : Option Linkaddr) : Option (Nat × State) :=
  match s.neighborAddrMem.alloc with
  | some (key, mem) => some (key, { s with neighborAddrMem := mem })
  | none =>
    match toBeRemoved.bind (indexFromLladdr s) with
    | none => none
    | some key => some (key, removeKey s key false)

/-- The end of `nbr_table_add_lladdr`: the item is cleared and marked used. -/
def initItem (s : State) (table : Table) (item : Nat) : State :=
  { s with
    routeList := if table = nbrRoutes then Function.update s.routeList item [] else s.routeList
    ipaddr := if table = ds6Neighbors then Function.update s.ipaddr item (fun _ => 0) else s.ipaddr
    usedMap := setBit s.usedMap item table true }

@[grind =]
def nbrTableAddLladdr (s : State) (policy : NbrPolicy) (table : Table) (lladdr : Linkaddr) :
    State × Option Nat :=
  if (entryIsAllowed s policy table lladdr).1 then
    match indexFromLladdr s lladdr with
    | some i => (initItem s table i, some i)
    | none =>
      match nbrTableAllocate s (entryIsAllowed s policy table lladdr).2 with
      | none => (s, none)
      | some (key, s) =>
        let s := { s with
          nbrTableKeys := listAdd s.nbrTableKeys key
          lladdr := Function.update s.lladdr key lladdr }
        (initItem s table key, some key)
  else
    (s, none)

/-- `uip_ds6_nbr_add`, for the address and the place of the entry. -/
@[grind =]
def uipDs6NbrAdd (s : State) (policy : NbrPolicy) (ipaddr : Ipaddr) (lladdr : Linkaddr) : State × Option Nat :=
  match nbrTableAddLladdr s policy ds6Neighbors lladdr with
  | (s, none) => (s, none)
  | (s, some nbr) => ({ s with ipaddr := Function.update s.ipaddr nbr ipaddr }, some nbr)

/-! ## Adding a route -/

/-- The end of `uip_ds6_route_add`, for a neighbor that has its entry in `nbr_routes`. -/
def createRoute (s : State) (ipaddr : Ipaddr) (length routes : Nat) : State × Option Nat :=
  match s.routememb.alloc with
  | none => (s, none)
  | some (r, mem) =>
    let s := { s with routememb := mem, routelist := listPush s.routelist r }
    match s.neighborroutememb.alloc with
    | none => ({ s with routememb := s.routememb.free r }, none)
    | some (b, nmem) =>
      let s := { s with
        neighborroutememb := nmem
        nbrr := Function.update s.nbrr b r
        routeList := Function.update s.routeList routes (listAdd (s.routeList routes) b)
        route := Function.update s.route r ⟨ipaddr, length, some routes⟩
        numRoutes := s.numRoutes + 1 }
      (nbrTableLock s nbrRoutes routes, some r)

/-- The part of `uip_ds6_route_add` that gets the next hop its entry in `nbr_routes`. -/
def addThrough (s : State) (policy : NbrPolicy) (ipaddr : Ipaddr) (length : Nat) (lladdr : Linkaddr) :
    State × Option Nat :=
  match nbrTableGetFromLladdr s nbrRoutes lladdr with
  | some routes => createRoute s ipaddr length routes
  | none =>
    match nbrTableAddLladdr s policy nbrRoutes lladdr with
    | (s, none) => (s, none)
    | (s, some routes) => createRoute s ipaddr length routes

/-- The part of `uip_ds6_route_add` that makes room for the route. -/
def addNew (cfg : Config) (s : State) (policy : NbrPolicy) (ipaddr : Ipaddr) (length : Nat)
    (lladdr : Linkaddr) : State × Option Nat :=
  if s.numRoutes = cfg.routeNb then
    match (if cfg.removeLeastRecentlyUsed then s.routelist.getLast? else none) with
    | none => (s, none)
    | some oldest => addThrough (uipDs6RouteRm s oldest) policy ipaddr length lladdr
  else
    addThrough s policy ipaddr length lladdr

def uipDs6RouteAdd (cfg : Config) (s : State) (policy : NbrPolicy) (ipaddr : Ipaddr) (length : Nat)
    (nexthop : Ipaddr) : State × Option Nat :=
  match uipDs6NbrLladdrFromIpaddr s nexthop with
  | none => (s, none)
  | some lladdr =>
    match uipDs6RouteLookup s ipaddr with
    | (s, none) => addNew cfg s policy ipaddr length lladdr
    | (s, some r) =>
      -- the route found is taken for the one to be replaced, whatever its length
      if uipDs6RouteNexthop s r = some nexthop then
        (s, some r)
      else
        addNew cfg (uipDs6RouteRm s r) policy ipaddr length lladdr

end Contiki.Ds6Route
