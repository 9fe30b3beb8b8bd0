/-
The calls on the graph, each summed up by the keys of the nodes it creates and by the nodes it leaves
reachable. An update initializes a node that is known or a new one at the end of the list; when it
has to create its parent too it may run out of blocks between the two.
-/
import Contiki.Sr.Model

namespace Contiki.Sr

open Contiki.Core Contiki.Lib

variable {env : Env} {s s' : State} {graph c n lifetime : Nat} {child : Ipaddr} {parentNode : Option Nat}

def keys (s : State) : List (Nat × Half) := s.nodelist.map (keyOf s)

/-- Nodes of the keys `new` have been created; all others are where they were, and those that were
reachable still are. -/
structure Grown (env : Env) (s s' : State) (new : List (Nat × Half)) : Prop where
  inv : Inv env s'
  keys : Sr.keys s' = Sr.keys s ++ new
  sub : ∀ n ∈ s.nodelist, n ∈ s'.nodelist
  found : ∀ graph addr n, uipSrGetNode env s graph addr = some n → uipSrGetNode env s' graph addr = some n
  reach : ∀ n ∈ s.nodelist, Reach env s n → Reach env s' n

theorem Grown.length {new : List (Nat × Half)} (h : Grown env s s' new) :
    s'.nodelist.length = s.nodelist.length + new.length := by
  have hl := congrArg List.length h.keys
  simpa [Sr.keys] using hl

theorem Grown.trans {s'' : State} {new new' : List (Nat × Half)} (h : Grown env s s' new)
    (h' : Grown env s' s'' new') : Grown env s s'' (new ++ new') := by
  constructor
  case inv => exact h'.inv
  case keys => rw [h'.keys, h.keys, List.append_assoc]
  case sub => exact fun n hn => h'.sub n (h.sub n hn)
  case found => exact fun g a n hn => h'.found g a n (h.found g a n hn)
  case reach => exact fun n hn hr => h'.reach n (h.sub n hn) (h.reach n hn hr)

theorem Grown.same (h : Inv env s) (hl : s'.nodelist = s.nodelist) (hm : s'.nodememb = s.nodememb)
    (hc : s'.numNodes = s.numNodes) (hk : ∀ n, keyOf s' n = keyOf s n) (hp : parentOf s' = parentOf s) :
    Grown env s s' [] := by
  have hg : ∀ n, (s'.node n).graph = (s.node n).graph := fun n => congrArg Prod.fst (hk n)
  constructor
  case inv =>
    constructor
    case mem => rw [hl, hm]; exact h.mem
    case num => rw [hm]; exact h.num
    case count => rw [hl, hc]; exact h.count
    case parents => rw [hl, hp]; exact h.parents
    case graphs =>
      intro n hn p hp'
      rw [hl] at hn
      rw [hp] at hp'
      rw [hg, hg]
      exact h.graphs n hn p hp'
  case keys =>
    unfold Sr.keys
    rw [hl, List.append_nil]
    exact List.map_congr_left fun n _ => hk n
  case sub => rw [hl]; exact fun _ hn => hn
  case found => exact fun g a n hn => (getNode_congr hl hk g a).trans hn
  case reach => exact fun n _ hr => hr.congr hl hk hp

theorem Grown.parent (h : Inv env s) {p : Option Nat}
    (hp : ∀ q, p = some q → q ∈ s.nodelist ∧ (s.node q).graph = (s.node c).graph)
    (hc : Reach env s c → Reach env (setParent s c p) c) : Grown env s (setParent s c p) [] := by
  constructor
  case inv => exact setParent_inv h hp
  case keys =>
    rw [List.append_nil]
    exact List.map_congr_left fun n _ => setParent_key s c p n
  case sub => exact fun _ hn => hn
  case found => exact fun g a n hn => (getNode_congr (by rfl) (setParent_key s c p) g a).trans hn
  case reach => exact fun n hn hr => setParent_reach h hn hc hr

/-! ## Initializing a node -/

/-- The node with the fields of `child` filled in. -/
def fillNode (s : State) (graph : Nat) (child : Ipaddr) (lifetime c : Nat) : State :=
  setNode s c { s.node c with graph := graph, lifetime := lifetime, linkIdentifier := child.iid }

theorem fillNode_parent : parentOf (fillNode s graph child lifetime c) = parentOf s := by
  funext n
  unfold parentOf fillNode setNode
  by_cases h : n = c
  · subst h; simp
  · simp [h]

theorem fillNode_key (n : Nat) : keyOf (fillNode s graph child lifetime c) n =
    if n = c then (graph, child.iid) else keyOf s n := by
  unfold keyOf fillNode setNode
  by_cases h : n = c
  · subst h; simp
  · simp [h]

theorem setParent_restore (s : State) (c : Nat) (p : Option Nat) :
    setParent (setParent s c p) c (s.node c).parent = s := by
  unfold setParent setNode
  simp

theorem initNode_cases (env : Env) (s : State) (graph : Nat) (child : Ipaddr) (lifetime c : Nat)
    (parentNode : Option Nat) : initNode env s graph child lifetime c parentNode = fillNode s graph child lifetime c ∨
    (initNode env s graph child lifetime c parentNode = setParent (fillNode s graph child lifetime c) c parentNode ∧
      (uipSrIsAddrReachable env (fillNode s graph child lifetime c) graph child = true →
        uipSrIsAddrReachable env (setParent (fillNode s graph child lifetime c) c parentNode) graph child = true)) := by
  unfold initNode
  simp only
  rw [show setNode s c { s.node c with graph := graph, lifetime := lifetime, linkIdentifier := child.iid } =
    fillNode s graph child lifetime c from rfl]
  split_ifs with h1 h2
  · exact .inr ⟨rfl, fun _ => h2⟩
  · exact .inl (setParent_restore _ c parentNode)
  · exact .inr ⟨rfl, fun h => absurd h h1⟩

/-- The parent given to a node is on the list and of the graph. -/
def ValidParent (s : State) (graph : Nat) (parentNode : Option Nat) : Prop :=
  ∀ q, parentNode = some q → q ∈ s.nodelist ∧ (s.node q).graph = graph

theorem initNode_known (h : Inv env s) (hc : uipSrGetNode env s graph child = some c)
    (hp : ValidParent s graph parentNode) : Grown env s (initNode env s graph child lifetime c parentNode) [] := by
  have hkey : ∀ n, keyOf (fillNode s graph child lifetime c) n = keyOf s n := by
    intro n
    rw [fillNode_key]
    split_ifs with hn
    · rw [hn, (getNode_some hc).2]
    · rfl
  have hg : ∀ n, ((fillNode s graph child lifetime c).node n).graph = (s.node n).graph :=
    fun n => congrArg Prod.fst (hkey n)
  have hcg : (s.node c).graph = graph := congrArg Prod.fst (getNode_some hc).2
  have hfill : Grown env s (fillNode s graph child lifetime c) [] :=
    Grown.same h rfl rfl rfl hkey fillNode_parent
  rcases initNode_cases env s graph child lifetime c parentNode with he | ⟨he, hre⟩
  · rw [he]
    exact hfill
  · rw [he]
    have hp' : ∀ q, parentNode = some q → q ∈ (fillNode s graph child lifetime c).nodelist ∧
        ((fillNode s graph child lifetime c).node q).graph =
          ((fillNode s graph child lifetime c).node c).graph := by
      intro q hq
      rw [hg, hg, hcg]
      exact hp q hq
    refine hfill.trans (Grown.parent hfill.inv hp' fun hr => ?_)
    -- the function has checked the address of the child, which is the address of this node
    have hfound := hfill.found graph child c hc
    obtain ⟨c', hc', hr'⟩ := (isAddrReachable_iff (setParent_inv hfill.inv hp')).1
      (hre ((isAddrReachable_iff hfill.inv).2 ⟨c, hfound, hr⟩))
    rw [getNode_congr (by rfl) (setParent_key _ c parentNode), hfound] at hc'
    cases hc'
    exact hr'

/-! ## Creating a node -/

/-- The state with the new block `c` at the end of the list. -/
def withBlock (s : State) (mem : Memb) (c : Nat) : State :=
  { setParent s c none with
    nodememb := mem
    nodelist := s.nodelist ++ [c]
    numNodes := s.numNodes + 1 }

def newNode (s : State) (mem : Memb) (graph : Nat) (child : Ipaddr) (lifetime c : Nat) : State :=
  fillNode (withBlock s mem c) graph child lifetime c

theorem newNode_spec (h : Inv env s) {mem : Memb} (ha : s.nodememb.alloc = some (c, mem)) :
    Grown env s (newNode s mem graph child lifetime c) [(graph, child.iid)] ∧
      c ∈ (newNode s mem graph child lifetime c).nodelist ∧
      keyOf (newNode s mem graph child lifetime c) c = (graph, child.iid) ∧
      parentOf (newNode s mem graph child lifetime c) c = none := by
  obtain ⟨hnew, hnum, hmem⟩ := h.mem.alloc ha
  have hne : ∀ n ∈ s.nodelist, n ≠ c := fun n hn he => hnew (he ▸ hn)
  have hnode : ∀ n ∈ s.nodelist, (newNode s mem graph child lifetime c).node n = s.node n := by
    intro n hn
    simp [newNode, withBlock, fillNode, setParent, setNode, hne n hn]
  have hpar : ∀ n ∈ s.nodelist, parentOf (newNode s mem graph child lifetime c) n = parentOf s n := by
    intro n hn
    unfold parentOf
    rw [hnode n hn]
  have hkc : keyOf (newNode s mem graph child lifetime c) c = (graph, child.iid) := by
    unfold newNode
    rw [fillNode_key, if_pos rfl]
  have hpc : parentOf (newNode s mem graph child lifetime c) c = none := by
    unfold newNode
    rw [fillNode_parent]
    show parentOf (setParent s c none) c = none
    rw [setParent_parent, if_pos rfl]
  have hlist : (newNode s mem graph child lifetime c).nodelist = s.nodelist ++ [c] := rfl
  refine ⟨?_, by simp [hlist], hkc, hpc⟩
  constructor
  case inv =>
    constructor
    case mem =>
      rw [hlist]
      exact hmem.perm (List.perm_append_singleton _ _)
    case num => exact hnum.trans h.num
    case count =>
      rw [hlist, List.length_append]
      show s.numNodes + 1 = _
      rw [h.count]
      rfl
    case parents =>
      intro n hn p hp
      rw [hlist] at hn ⊢
      rcases List.mem_append.1 hn with hn | hn
      · rw [hpar n hn] at hp
        exact List.mem_append_left _ (h.parents n hn p hp)
      · rw [List.mem_singleton.1 hn, hpc] at hp
        cases hp
    case graphs =>
      intro n hn p hp
      rw [hlist] at hn
      rcases List.mem_append.1 hn with hn | hn
      · rw [hpar n hn] at hp
        rw [hnode n hn, hnode p (h.parents n hn p hp)]
        exact h.graphs n hn p hp
      · rw [List.mem_singleton.1 hn, hpc] at hp
        cases hp
  case keys =>
    unfold Sr.keys
    rw [hlist, List.map_append, List.map_singleton, hkc]
    congr 1
    refine List.map_congr_left fun n hn => ?_
    unfold keyOf
    rw [hnode n hn]
  case sub => exact fun n hn => List.mem_append_left _ hn
  case found => exact fun g a n hn => getNode_append hlist hnode hn
  case reach =>
    rintro n hn ⟨r, hr, hlead⟩
    refine ⟨r, ?_, ?_⟩
    · rw [hnode n hn]
      exact getNode_append hlist hnode hr
    · refine hlead.mono fun x hx _ _ => hpar x ?_
      obtain ⟨k, hk⟩ := leads_iff.1 hx
      exact walk_closed h.parents k hn hk

theorem reach_of_no_parent (hc : parentOf s c = none) (p : Option Nat) (hr : Reach env s c) :
    Reach env (setParent s c p) c := by
  obtain ⟨r, hr, hlead⟩ := hr
  have hcr : c = r := by
    rcases Relation.ReflTransGen.cases_head hlead with he | ⟨m, hm, -⟩
    · exact he
    · rw [hc] at hm
      cases hm
  refine ⟨c, ?_, .refl⟩
  rw [show ((setParent s c p).node c).graph = (s.node c).graph from congrArg Prod.fst (setParent_key s c p c),
    getNode_congr (by rfl) (setParent_key s c p), hr, hcr]

/-! ## Updating -/

theorem updateChild_known (h : Inv env s) (hc : uipSrGetNode env s graph child = some c)
    (hp : ValidParent s graph parentNode) : ∃ s',
    updateChild env s graph child lifetime (some c) parentNode = (s', some c) ∧ Grown env s s' [] :=
  ⟨_, rfl, initNode_known h hc hp⟩

theorem updateChild_full (ha : s.nodememb.alloc = none) :
    updateChild env s graph child lifetime none parentNode = (s, none) := by
  unfold updateChild
  rw [ha]

theorem updateChild_new (h : Inv env s) {mem : Memb} (ha : s.nodememb.alloc = some (c, mem))
    (hp : ValidParent s graph parentNode) : ∃ s',
    updateChild env s graph child lifetime none parentNode = (s', some c) ∧
      Grown env s s' [(graph, child.iid)] ∧ c ∈ s'.nodelist ∧ (s'.node c).graph = graph := by
  obtain ⟨hgrow, hmem, hkey, hpar⟩ := @newNode_spec _ _ graph _ lifetime child h _ ha
  obtain ⟨hnew, -, -⟩ := h.mem.alloc ha
  have hg : ((newNode s mem graph child lifetime c).node c).graph = graph := congrArg Prod.fst hkey
  refine ⟨initNode env (withBlock s mem c) graph child lifetime c parentNode, ?_, ?_⟩
  · unfold updateChild withBlock
    rw [ha]
    simp only [listAdd_new hnew]
  · rcases initNode_cases env (withBlock s mem c) graph child lifetime c parentNode with he | ⟨he, -⟩
    · rw [he]
      exact ⟨hgrow, hmem, hg⟩
    · rw [he]
      have hp' : ∀ q, parentNode = some q → q ∈ (newNode s mem graph child lifetime c).nodelist ∧
          ((newNode s mem graph child lifetime c).node q).graph =
            ((newNode s mem graph child lifetime c).node c).graph := by
        intro q hq
        obtain ⟨hq', hqg⟩ := hp q hq
        refine ⟨hgrow.sub q hq', ?_⟩
        have hqc : q ≠ c := by
          rintro rfl
          exact hnew hq'
        rw [hg, ← hqg]
        simp [newNode, withBlock, fillNode, setParent, setNode, hqc]
      have hset := Grown.parent hgrow.inv hp' (reach_of_no_parent hpar parentNode)
      have hboth := hgrow.trans hset
      rw [List.append_nil] at hboth
      exact ⟨hboth, hmem, (congrArg Prod.fst (setParent_key _ c parentNode c)).trans hg⟩

/-- The keys of the nodes that an update has to create, the parent's first. -/
def newKeys (env : Env) (s : State) (graph : Nat) (child : Ipaddr) (parent : Option Ipaddr) : List (Nat × Half) :=
  (match parent with
    | none => []
    | some p => if uipSrGetNode env s graph p = none then [(graph, p.iid)] else []) ++
  if uipSrGetNode env s graph child = none then [(graph, child.iid)] else []

/-- What an update does: it creates the nodes it needs, it finds no free block, or it creates the
parent and then finds none for the child. -/
inductive Outcome (env : Env) (s : State) (new : List (Nat × Half)) : State × Option Nat → Prop
  | full : new ≠ [] → s.nodememb.alloc = none → Outcome env s new (s, none)
  | half {s1 : State} : new.length = 2 → s1.nodelist.length = s.nodelist.length + 1 →
      s1.nodelist.length = env.linkNum → Grown env s s1 (new.take 1) → Outcome env s new (s1, none)
  | done {s' : State} {c : Nat} : Grown env s s' new → Outcome env s new (s', some c)

theorem updateChild_outcome (h : Inv env s) (hp : ValidParent s graph parentNode) :
    Outcome env s (if uipSrGetNode env s graph child = none then [(graph, child.iid)] else [])
      (updateChild env s graph child lifetime (uipSrGetNode env s graph child) parentNode) := by
  cases hc : uipSrGetNode env s graph child with
  | some c =>
    obtain ⟨s', he, hg⟩ := @updateChild_known _ _ _ _ lifetime _ _ h hc hp
    rw [he]
    exact .done hg
  | none =>
    simp only [if_true]
    cases ha : s.nodememb.alloc with
    | none =>
      rw [updateChild_full ha]
      exact .full (by simp) ha
    | some a =>
      obtain ⟨s', he, hg, -, -⟩ := @updateChild_new _ _ _ _ lifetime child _ h _ ha hp
      rw [he]
      exact .done hg

theorem updateNode_outcome (h : Inv env s) (graph : Nat) (child : Ipaddr) (parent : Option Ipaddr) (lifetime : Nat) :
    Outcome env s (newKeys env s graph child parent) (uipSrUpdateNode env s graph child parent lifetime) := by
  unfold uipSrUpdateNode newKeys
  cases parent with
  | none => exact updateChild_outcome h fun q hq => by cases hq
  | some p =>
    cases hpn : uipSrGetNode env s graph p with
    | some q =>
      simp only [hpn, reduceCtorEq, if_false, List.nil_append]
      refine updateChild_outcome h fun q' hq' => ?_
      cases hq'
      obtain ⟨hq, hk⟩ := getNode_some hpn
      exact ⟨hq, congrArg Prod.fst hk⟩
    | none =>
      simp only [hpn, if_true]
      cases ha : s.nodememb.alloc with
      | none =>
        rw [updateChild_full ha]
        exact .full (by simp) ha
      | some a =>
        obtain ⟨s1, he, hg1, hq, hqg⟩ := @updateChild_new _ _ _ _ infiniteLifetime p none h _ ha fun q hq => by cases hq
        rw [he]
        simp only
        have hvalid : ValidParent s1 graph (some a.1) := fun q' hq' => by
          cases hq'
          exact ⟨hq, hqg⟩
        cases hc : uipSrGetNode env s graph child with
        | some c =>
          obtain ⟨s', he', hg'⟩ := @updateChild_known _ _ _ _ lifetime _ _ hg1.inv (hg1.found _ _ _ hc) hvalid
          rw [he']
          exact .done (hg1.trans hg')
        | none =>
          simp only [if_true]
          cases ha1 : s1.nodememb.alloc with
          | none =>
            rw [updateChild_full ha1]
            refine .half rfl ?_ ?_ hg1
            · rw [hg1.length]
              rfl
            · rw [← hg1.inv.num]
              exact hg1.inv.mem.alloc_none_iff.1 ha1
          | some b =>
            obtain ⟨s', he', hg', -, -⟩ := @updateChild_new _ _ _ _ lifetime child _ hg1.inv _ ha1 hvalid
            rw [he']
            exact .done (hg1.trans hg')

end Contiki.Sr
