/-
The source-routing graph of uip-sr.c at the root: nodes in a block pool and on one list, each with
the parent it claimed. A node is the index of its block. What the routing protocol provides, the
prefix of a graph and the address of the root, is the environment of the module.
-/
import Contiki.Core.Memb
import Contiki.Core.Uip
import Contiki.Lib.Keyed
import Contiki.Lib.Walk

namespace Contiki.Sr

section

open Contiki.Core

/-! ## State -/

/-- `UIP_SR_INFINITE_LIFETIME`. -/
def infiniteLifetime : Nat := 0xFFFFFFFF

/-- `uip_sr_node_t`; a graph is known by its pointer. -/
structure Node where
  lifetime : Nat
  graph : Nat
  linkIdentifier : Half
  parent : Option Nat

/-- The prefix that `get_sr_node_ipaddr` puts before the link identifiers of a graph, the address
that `get_root_ipaddr` returns, `UIP_SR_LINK_NUM` and `UIP_SR_REMOVAL_DELAY`. -/
structure Env where
  net : Nat → Half
  root : Ipaddr
  linkNum : Nat
  removalDelay : Nat

structure State where
  nodememb : Memb
  nodelist : List Nat
  node : Nat → Node
  numNodes : Nat

def uipSrInit (env : Env) : State := ⟨.init env.linkNum, [], fun _ => ⟨0, 0, fun _ => 0, none⟩, 0⟩

/-! ## Looking up nodes -/

def getSrNodeIpaddr (env : Env) (node : Node) : Ipaddr := .join (env.net node.graph) node.linkIdentifier

/-- `node_matches_address`, for a node and an address that are not NULL. -/
def nodeMatchesAddress (env : Env) (graph : Nat) (node : Node) (addr : Ipaddr) : Bool :=
  graph = node.graph && getSrNodeIpaddr env node = addr

def uipSrGetNode (env : Env) (s : State) (graph : Nat) (addr : Ipaddr) : Option Nat :=
  s.nodelist.find? (fun n => nodeMatchesAddress env graph (s.node n) addr)

/-- The loop of `uip_sr_is_addr_reachable`: the node where it stops, after at most `maxDepth`
parents. -/
@[grind =]
def reachLoop (node : Nat → Node) (rootNode : Option Nat) : Nat → Option Nat → Option Nat
  | 0, n => n
  | _ + 1, none => none
  | maxDepth + 1, some n =>
    if some n = rootNode then some n else reachLoop node rootNode maxDepth (node n).parent

@[grind =]
def uipSrIsAddrReachable (env : Env) (s : State) (graph : Nat) (addr : Ipaddr) : Bool :=
  let rootNode := uipSrGetNode env s graph env.root
  match reachLoop s.node rootNode env.linkNum (uipSrGetNode env s graph addr) with
  | none => false
  | some n => some n = rootNode

/-! ## Updating nodes -/

def setNode (s : State) (n : Nat) (node : Node) : State := { s with node := Function.update s.node n node }

def setParent (s : State) (n : Nat) (parent : Option Nat) : State :=
  setNode s n { s.node n with parent := parent }

def uipSrExpireParent (env : Env) (s : State) (graph : Nat) (child parent : Ipaddr) : State :=
  match uipSrGetNode env s graph child with
  | none => s
  | some l =>
    match (s.node l).parent with
    | none => s
    | some p =>
      if nodeMatchesAddress env graph (s.node p) parent ∧ env.removalDelay < (s.node l).lifetime then
        setNode s l { s.node l with lifetime := env.removalDelay }
      else
        s

/-- The last part of `uip_sr_update_node`: the node of `child` is initialized and gets its parent,
unless that makes it unreachable. -/
def initNode (env : Env) (s : State) (graph : Nat) (child : Ipaddr) (lifetime childNode : Nat)
    (parentNode : Option Nat) : State :=
  let s := setNode s childNode
    { s.node childNode with graph := graph, lifetime := lifetime, linkIdentifier := child.iid }
  if uipSrIsAddrReachable env s graph child then
    let old := (s.node childNode).parent
    let s := setParent s childNode parentNode
    -- the new parent may close a loop: then the old one is restored
    if uipSrIsAddrReachable env s graph child then s else setParent s childNode old
  else
    setParent s childNode parentNode

/-- `uip_sr_update_node` once the node of the parent is known: `childNode` is what the lookup of the
child found on entry. -/
def updateChild (env : Env) (s : State) (graph : Nat) (child : Ipaddr) (lifetime : Nat)
    (childNode parentNode : Option Nat) : State × Option Nat :=
  match childNode with
  | some c => (initNode env s graph child lifetime c parentNode, some c)
  | none =>
    match s.nodememb.alloc with
    | none => (s, none)
    | some (c, mem) =>
      let s := { setParent s c none with
        nodememb := mem
        nodelist := listAdd s.nodelist c
        numNodes := s.numNodes + 1 }
      (initNode env s graph child lifetime c parentNode, some c)

/-- `uip_sr_update_node`; a parent that has no node gets one by a call of the function for it, with
no parent. -/
@[grind =]
def uipSrUpdateNode (env : Env) (s : State) (graph : Nat) (child : Ipaddr) (parent : Option Ipaddr)
    (lifetime : Nat) : State × Option Nat :=
  let childNode := uipSrGetNode env s graph child
  match parent with
  | none => updateChild env s graph child lifetime childNode none
  | some p =>
    match uipSrGetNode env s graph p with
    | some parentNode => updateChild env s graph child lifetime childNode (some parentNode)
    | none =>
      match updateChild env s graph p infiniteLifetime none none with
      | (s, none) => (s, none)
      | (s, some parentNode) => updateChild env s graph child lifetime childNode (some parentNode)

/-! ## Aging -/

/-- The body of the loop of `uip_sr_periodic`, for the node `l`. -/
def periodicNode (seconds : Nat) (s : State) (l : Nat) : State :=
  if (s.node l).lifetime = 0 then
    if ∃ l2 ∈ s.nodelist, (s.node l2).parent = some l then
      s
    else
      { s with
        nodelist := listRemove s.nodelist l
        nodememb := s.nodememb.free l
        numNodes := s.numNodes - 1 }
  else if (s.node l).lifetime ≠ infiniteLifetime then
    setNode s l { s.node l with lifetime :=
      if seconds < (s.node l).lifetime then (s.node l).lifetime - seconds else 0 }
  else
    s

/-- `uip_sr_periodic`: the successor of a node is read before the node can be removed, so the loop
visits the nodes of the list as it was. -/
def uipSrPeriodic (s : State) (seconds : Nat) : State := s.nodelist.foldl (periodicNode seconds) s

end

/-!
What holds of the graph after any sequence of calls: the pool and the list agree, a parent is a node
of the list and of the same graph. Reachability as a path of parents to the node of the root, which
the bounded loop of `uip_sr_is_addr_reachable` decides, and what setting one parent does to it.
-/

section

open Contiki.Core Contiki.Lib

variable {env : Env} {s s' : State} {graph c n : Nat} {addr : Ipaddr}

/-! ## Graph and address of a node -/

def keyOf (s : State) (n : Nat) : Nat × Half := ((s.node n).graph, (s.node n).linkIdentifier)

def parentOf (s : State) (n : Nat) : Option Nat := (s.node n).parent

theorem matches_iff {node : Node} : nodeMatchesAddress env graph node addr = true ↔
    node.graph = graph ∧ node.linkIdentifier = addr.iid ∧ env.net graph = addr.net := by
  unfold nodeMatchesAddress getSrNodeIpaddr
  rw [Bool.and_eq_true, decide_eq_true_eq, decide_eq_true_eq, Ipaddr.join_eq_iff]
  constructor
  · rintro ⟨rfl, h1, h2⟩
    exact ⟨rfl, h2, h1⟩
  · rintro ⟨rfl, h1, h2⟩
    exact ⟨rfl, h2, h1⟩

theorem getNode_some (h : uipSrGetNode env s graph addr = some n) : n ∈ s.nodelist ∧ keyOf s n = (graph, addr.iid) := by
  have hf := List.find?_some h
  have hm := matches_iff.1 hf
  refine ⟨List.mem_of_find?_eq_some h, ?_⟩
  unfold keyOf
  rw [hm.1, hm.2.1]

theorem getNode_congr (hl : s'.nodelist = s.nodelist) (hk : ∀ n, keyOf s' n = keyOf s n) (graph : Nat)
    (addr : Ipaddr) : uipSrGetNode env s' graph addr = uipSrGetNode env s graph addr := by
  unfold uipSrGetNode
  rw [hl]
  apply List.find?_congr
  intro n _
  have h := hk n
  unfold keyOf at h
  obtain ⟨h1, h2⟩ := Prod.mk.inj h
  unfold nodeMatchesAddress getSrNodeIpaddr
  rw [h1, h2]

theorem getNode_append (hl : s'.nodelist = s.nodelist ++ [c]) (hsame : ∀ n ∈ s.nodelist, s'.node n = s.node n)
    (h : uipSrGetNode env s graph addr = some n) : uipSrGetNode env s' graph addr = some n := by
  unfold uipSrGetNode at h ⊢
  rw [hl, List.find?_append]
  have he : s.nodelist.find? (fun n => nodeMatchesAddress env graph (s'.node n) addr) = some n := by
    rw [← h]
    apply List.find?_congr
    intro m hm
    rw [hsame m hm]
  rw [he]
  rfl

/-! ## Reachability -/

/-- The node has a path of parents to the node of the root in its graph. -/
def Reach (env : Env) (s : State) (n : Nat) : Prop :=
  ∃ r, uipSrGetNode env s (s.node n).graph env.root = some r ∧ Leads (parentOf s) n r

theorem reachLoop_none (node : Nat → Node) (root : Option Nat) : ∀ fuel, reachLoop node root fuel none = none
  | 0 => rfl
  | _ + 1 => rfl

theorem reachLoop_iff (s : State) (r : Nat) : ∀ (fuel n : Nat),
    reachLoop s.node (some r) fuel (some n) = some r ↔ ∃ k ≤ fuel, walk (parentOf s) k n = some r
  | 0, n => by simp [reachLoop, walk]
  | fuel + 1, n => by
    by_cases hn : n = r
    · subst hn
      exact ⟨fun _ => ⟨0, Nat.zero_le _, rfl⟩, fun _ => by simp [reachLoop]⟩
    · simp only [reachLoop, Option.some.injEq, hn, if_false]
      cases hp : (s.node n).parent with
      | none =>
        rw [reachLoop_none]
        constructor
        · intro h
          cases h
        · rintro ⟨k, -, hw⟩
          cases k with
          | zero => exact absurd (Option.some.inj hw) hn
          | succ k => simp [walk, parentOf, hp] at hw
      | some m =>
        rw [reachLoop_iff s r fuel m]
        constructor
        · rintro ⟨k, hk, hw⟩
          exact ⟨k + 1, by omega, by simp [walk, parentOf, hp, hw]⟩
        · rintro ⟨k, hk, hw⟩
          cases k with
          | zero => exact absurd (Option.some.inj hw) hn
          | succ k => exact ⟨k, by omega, by simpa [walk, parentOf, hp] using hw⟩

/-- The pool, the list and the parents agree. -/
structure Inv (env : Env) (s : State) : Prop where
  mem : s.nodememb.Holds s.nodelist
  num : s.nodememb.num = env.linkNum
  count : s.numNodes = s.nodelist.length
  parents : ∀ n ∈ s.nodelist, ∀ p, parentOf s n = some p → p ∈ s.nodelist
  graphs : ∀ n ∈ s.nodelist, ∀ p, parentOf s n = some p → (s.node p).graph = (s.node n).graph

theorem init_inv (env : Env) : Inv env (uipSrInit env) := by
  constructor
  case mem => exact Memb.init_holds _
  case num => rfl
  case count => rfl
  case parents => exact fun n hn => by cases hn
  case graphs => exact fun n hn => by cases hn

/-- `uip_sr_is_addr_reachable` decides reachability: its depth bound is no limit, since a path
without repetition has at most as many nodes as the pool has blocks. -/
theorem isAddrReachable_iff (h : Inv env s) : uipSrIsAddrReachable env s graph addr = true ↔
    ∃ n, uipSrGetNode env s graph addr = some n ∧ Reach env s n := by
  unfold uipSrIsAddrReachable
  cases hn : uipSrGetNode env s graph addr with
  | none => simp [reachLoop_none]
  | some n =>
    obtain ⟨hmem, hkey⟩ := getNode_some hn
    have hg : (s.node n).graph = graph := congrArg Prod.fst hkey
    unfold Reach
    simp only [Option.some.injEq, exists_eq_left', hg]
    cases hr : uipSrGetNode env s graph env.root with
    | none => cases reachLoop s.node none env.linkNum (some n) <;> simp
    | some r =>
      have hloop := reachLoop_iff s r env.linkNum n
      constructor
      · intro ht
        refine ⟨r, rfl, leads_iff.2 ?_⟩
        cases hl : reachLoop s.node (some r) env.linkNum (some n) with
        | none => rw [hl] at ht; cases ht
        | some m =>
          rw [hl] at ht
          simp only [decide_eq_true_eq] at ht
          obtain ⟨k, -, hk⟩ := hloop.1 (hl.trans ht)
          exact ⟨k, hk⟩
      · rintro ⟨r', hr', hlead⟩
        cases hr'
        obtain ⟨k, hk, hw⟩ := short_walk h.parents hmem hlead
        have hle := h.mem.length_le
        rw [h.num] at hle
        rw [hloop.2 ⟨k, by omega, hw⟩]
        simp

theorem Inv.leads_graph (h : Inv env s) (hn : n ∈ s.nodelist) {m : Nat} (hl : Leads (parentOf s) n m) :
    m ∈ s.nodelist ∧ (s.node m).graph = (s.node n).graph := by
  induction hl with
  | refl => exact ⟨hn, rfl⟩
  | tail _ hm ih => exact ⟨h.parents _ ih.1 _ hm, (h.graphs _ ih.1 _ hm).trans ih.2⟩

theorem Reach.congr (hl : s'.nodelist = s.nodelist) (hk : ∀ n, keyOf s' n = keyOf s n)
    (hp : parentOf s' = parentOf s) (h : Reach env s n) : Reach env s' n := by
  obtain ⟨r, hr, hlead⟩ := h
  have hg : (s'.node n).graph = (s.node n).graph := congrArg Prod.fst (hk n)
  refine ⟨r, ?_, ?_⟩
  · rw [hg, getNode_congr hl hk]
    exact hr
  · rw [hp]
    exact hlead

/-! ## Setting a parent -/

theorem setParent_key (s : State) (c : Nat) (p : Option Nat) (n : Nat) : keyOf (setParent s c p) n = keyOf s n := by
  unfold keyOf setParent setNode
  by_cases h : n = c
  · subst h; simp
  · simp [h]

theorem setParent_parent (s : State) (c : Nat) (p : Option Nat) (n : Nat) :
    parentOf (setParent s c p) n = if n = c then p else parentOf s n := by
  unfold parentOf setParent setNode
  by_cases h : n = c
  · subst h; simp
  · simp [h]

theorem setParent_inv (h : Inv env s) {p : Option Nat}
    (hp : ∀ q, p = some q → q ∈ s.nodelist ∧ (s.node q).graph = (s.node c).graph) : Inv env (setParent s c p) := by
  have hg : ∀ n, ((setParent s c p).node n).graph = (s.node n).graph :=
    fun n => congrArg Prod.fst (setParent_key s c p n)
  constructor
  case mem => exact h.mem
  case num => exact h.num
  case count => exact h.count
  case parents =>
    intro n hn q hq
    rw [setParent_parent] at hq
    split_ifs at hq
    · exact (hp q hq).1
    · exact h.parents n hn q hq
  case graphs =>
    intro n hn q hq
    rw [setParent_parent] at hq
    rw [hg, hg]
    split_ifs at hq with hc
    · rw [hc]
      exact (hp q hq).2
    · exact h.graphs n hn q hq

theorem setParent_reach (h : Inv env s) (hn : n ∈ s.nodelist) {p : Option Nat}
    (hc : Reach env s c → Reach env (setParent s c p) c) (hr : Reach env s n) : Reach env (setParent s c p) n := by
  obtain ⟨r, hr, hlead⟩ := hr
  have hg : ∀ n, ((setParent s c p).node n).graph = (s.node n).graph :=
    fun n => congrArg Prod.fst (setParent_key s c p n)
  have hroot : ∀ g, uipSrGetNode env (setParent s c p) g env.root = uipSrGetNode env s g env.root :=
    fun g => getNode_congr (by rfl) (setParent_key s c p) g env.root
  refine ⟨r, by rw [hg, hroot]; exact hr, ?_⟩
  by_cases hon : Leads (parentOf s) n c
  · -- `c` is on the path, so the root of its graph is the same node
    have hgc := (h.leads_graph hn hon).2
    refine hlead.redirect (c := c) (fun x hx => by rw [setParent_parent, if_neg hx]) fun hcr => ?_
    obtain ⟨r', hr', hlead'⟩ := hc ⟨r, by rw [hgc]; exact hr, hcr⟩
    rw [hg, hgc, hroot, hr] at hr'
    cases hr'
    exact hlead'
  · refine hlead.mono fun x hx _ _ => ?_
    have hxc : x ≠ c := by
      rintro rfl
      exact hon hx
    rw [setParent_parent, if_neg hxc]

end

end Contiki.Sr
