/-
The source-routing graph over every sequence of updates, expirations and periodic calls. Parents on
the list, the node count and reachability hold in all of them. That no two nodes have one graph and
address, and that an update which returns NULL changes nothing, hold in exactly the runs whose
updates create nodes of new identifiers only and never run out of blocks between a parent and its
child: `selfParent_duplicated` is a node that names itself as its parent.
-/
import Contiki.Sr.Update
import Contiki.Lib.Run

namespace Contiki.Sr

open Contiki.Core Contiki.Lib

variable {env : Env} {s s' : State} {l n : Nat}

/-! ## Expiring and aging -/

theorem setLifetime_grown (h : Inv env s) (n lifetime : Nat) :
    Grown env s (setNode s n { s.node n with lifetime := lifetime }) [] := by
  refine Grown.same h rfl rfl rfl (fun m => ?_) ?_
  · unfold keyOf setNode
    by_cases hm : m = n
    · subst hm; simp
    · simp [hm]
  · funext m
    unfold parentOf setNode
    by_cases hm : m = n
    · subst hm; simp
    · simp [hm]

theorem expireParent_grown (h : Inv env s) (graph : Nat) (child parent : Ipaddr) :
    Grown env s (uipSrExpireParent env s graph child parent) [] := by
  have hsame : Grown env s s [] := Grown.same h rfl rfl rfl (fun _ => rfl) rfl
  unfold uipSrExpireParent
  split
  · exact hsame
  · split
    · exact hsame
    · split
      · exact setLifetime_grown h _ _
      · exact hsame

/-- Nodes have been deallocated; the others are where they were and still reachable. -/
structure Shrunk (env : Env) (s s' : State) : Prop where
  inv : Inv env s'
  keys : (keys s').Sublist (keys s)
  sub : s'.nodelist.Sublist s.nodelist
  reach : ∀ n ∈ s'.nodelist, Reach env s n → Reach env s' n

theorem Grown.shrunk (h : Grown env s s' []) (hl : s'.nodelist = s.nodelist) : Shrunk env s s' := by
  constructor
  case inv => exact h.inv
  case keys =>
    rw [h.keys, List.append_nil]
  case sub => rw [hl]
  case reach => exact fun n hn hr => h.reach n (hl ▸ hn) hr

theorem Shrunk.refl (h : Inv env s) : Shrunk env s s :=
  ⟨h, List.Sublist.refl _, List.Sublist.refl _, fun _ _ hr => hr⟩

theorem Shrunk.trans {s'' : State} (h : Shrunk env s s') (h' : Shrunk env s' s'') : Shrunk env s s'' :=
  ⟨h'.inv, h'.keys.trans h.keys, h'.sub.trans h.sub,
    fun n hn hr => h'.reach n hn (h.reach n (h'.sub.subset hn) hr)⟩

theorem dealloc_shrunk (h : Inv env s) (hl : l ∈ s.nodelist)
    (hno : ∀ m ∈ s.nodelist, parentOf s m ≠ some l) :
    Shrunk env s { s with
      nodelist := listRemove s.nodelist l
      nodememb := s.nodememb.free l
      numNodes := s.numNodes - 1 } := by
  have hnd := h.mem.nodup
  obtain ⟨hnum, hmem⟩ := h.mem.free hl
  have hiff : ∀ m, m ∈ listRemove s.nodelist l ↔ m ∈ s.nodelist ∧ m ≠ l := by
    intro m
    unfold listRemove
    rw [hnd.mem_erase_iff]
    exact and_comm
  constructor
  case inv =>
    constructor
    case mem => exact hmem
    case num => exact hnum.trans h.num
    case count =>
      show s.numNodes - 1 = (s.nodelist.erase l).length
      rw [List.length_erase_of_mem hl, h.count]
    case parents =>
      intro m hm p hp
      have hm' := ((hiff m).1 hm).1
      refine (hiff p).2 ⟨h.parents m hm' p hp, ?_⟩
      rintro rfl
      exact hno m hm' hp
    case graphs => exact fun m hm p hp => h.graphs m ((hiff m).1 hm).1 p hp
  case keys => exact List.erase_sublist.map _
  case sub => exact List.erase_sublist
  case reach =>
    rintro m hm ⟨r, hr, hlead⟩
    obtain ⟨hm', hml⟩ := (hiff m).1 hm
    refine ⟨r, ?_, hlead⟩
    -- the root of the path is not the node that went: someone on the path would have it as parent
    have hrl : r ≠ l := by
      rintro rfl
      rcases Relation.ReflTransGen.cases_tail hlead with he | ⟨x, hx, hxr⟩
      · exact hml he.symm
      · exact hno x (h.leads_graph hm' hx).1 hxr
    have hfind : uipSrGetNode env s (s.node m).graph env.root = some r := hr
    unfold uipSrGetNode at hfind ⊢
    show (s.nodelist.erase l).find? _ = some r
    obtain ⟨hp, as, bs, hsplit, has⟩ := List.find?_eq_some_iff_append.1 hfind
    refine List.find?_eq_some_iff_append.2 ⟨hp, as.erase l, ?_⟩
    by_cases hla : l ∈ as
    · exact ⟨bs, by rw [hsplit, List.erase_append_left _ hla], fun x hx => has x (List.mem_of_mem_erase hx)⟩
    · refine ⟨bs.erase l, ?_, fun x hx => has x (List.mem_of_mem_erase hx)⟩
      rw [hsplit, List.erase_append_right _ hla, List.erase_of_not_mem hla,
        List.erase_cons_tail (by simpa using hrl)]

theorem periodicNode_shrunk (h : Inv env s) (hl : l ∈ s.nodelist) (seconds : Nat) :
    Shrunk env s (periodicNode seconds s l) ∧ ∀ m ∈ s.nodelist, m ≠ l → m ∈ (periodicNode seconds s l).nodelist := by
  unfold periodicNode
  split
  · split
    · exact ⟨Shrunk.refl h, fun m hm _ => hm⟩
    · rename_i hchild
      refine ⟨dealloc_shrunk h hl fun m hm hp => hchild ⟨m, hm, hp⟩, fun m hm hne => ?_⟩
      exact (List.mem_erase_of_ne hne).2 hm
  · split
    · exact ⟨(setLifetime_grown h _ _).shrunk rfl, fun m hm _ => hm⟩
    · exact ⟨Shrunk.refl h, fun m hm _ => hm⟩

theorem periodic_shrunk (h : Inv env s) (seconds : Nat) : Shrunk env s (uipSrPeriodic s seconds) := by
  -- the nodes still to be visited are on the list, each once
  have hloop : ∀ (ls : List Nat) (t : State), Inv env t → ls.Nodup → (∀ l ∈ ls, l ∈ t.nodelist) →
      Shrunk env t (ls.foldl (periodicNode seconds) t) := by
    intro ls
    induction ls with
    | nil => exact fun t ht _ _ => Shrunk.refl ht
    | cons l ls ih =>
      intro t ht hnd hin
      obtain ⟨hnl, hnd'⟩ := List.nodup_cons.1 hnd
      obtain ⟨hs, hstay⟩ := periodicNode_shrunk ht (hin l (by simp)) seconds
      refine hs.trans (ih _ hs.inv hnd' fun m hm => hstay m (hin m (by simp [hm])) ?_)
      rintro rfl
      exact hnl hm
  exact hloop s.nodelist s h h.mem.nodup fun _ hl => hl

/-! ## The system -/

inductive Op where
  | update (graph : Nat) (child : Ipaddr) (parent : Option Ipaddr) (lifetime : Nat)
  | expireParent (graph : Nat) (child parent : Ipaddr)
  | periodic (seconds : Nat)

def step (env : Env) (s : State) : Op → Option State
  | .update graph child parent lifetime => some (uipSrUpdateNode env s graph child parent lifetime).1
  | .expireParent graph child parent => some (uipSrExpireParent env s graph child parent)
  | .periodic seconds => some (uipSrPeriodic s seconds)

/-- No two nodes have one graph and address. -/
def Unique (s : State) : Prop := (keys s).Nodup

/-- What holds in a state: nodes of different graph or address, parents on the list, the count. -/
structure Good (s : State) : Prop where
  unique : Unique s
  parents : ∀ n ∈ s.nodelist, ∀ p, parentOf s n = some p → p ∈ s.nodelist
  count : s.numNodes = s.nodelist.length

/-- A node that was reachable and is still on the list is reachable. -/
def ReachKept (env : Env) (s s' : State) : Prop :=
  ∀ n ∈ s.nodelist, n ∈ s'.nodelist → Reach env s n → Reach env s' n

/-- What a call does: it keeps nodes reachable, and an update that returns NULL has changed
nothing. -/
def StepGood (env : Env) (s : State) : Op → Prop
  | .update graph child parent lifetime =>
    ReachKept env s (uipSrUpdateNode env s graph child parent lifetime).1 ∧
      ((uipSrUpdateNode env s graph child parent lifetime).2 = none →
        (uipSrUpdateNode env s graph child parent lifetime).1 = s)
  | .expireParent graph child parent => ReachKept env s (uipSrExpireParent env s graph child parent)
  | .periodic seconds => ReachKept env s (uipSrPeriodic s seconds)

/-- There is nothing to create, there is no free block, or there is one for each of the nodes to be
created and their identifiers are new to the graph and different. -/
def Creatable (env : Env) (s : State) (new : List (Nat × Half)) : Prop :=
  new = [] ∨ s.nodememb.alloc = none ∨
    ((keys s ++ new).Nodup ∧ s.nodelist.length + new.length ≤ env.linkNum)

def Fits (env : Env) (s : State) : Op → Prop
  | .update graph child parent _ => Creatable env s (newKeys env s graph child parent)
  | _ => True

theorem step_inv (h : Inv env s) (op : Op) (hs : step env s op = some s') : Inv env s' := by
  cases op with
  | update graph child parent lifetime =>
    cases hs
    have hout := updateNode_outcome h graph child parent lifetime
    generalize uipSrUpdateNode env s graph child parent lifetime = res at hout
    cases hout with
    | full _ _ => exact h
    | half _ _ _ hg => exact hg.inv
    | done hg => exact hg.inv
  | expireParent graph child parent =>
    cases hs
    exact (expireParent_grown h graph child parent).inv
  | periodic seconds =>
    cases hs
    exact (periodic_shrunk h seconds).inv

/-- An update meets `Creatable` exactly when it does what it should and leaves no node twice. -/
theorem Outcome.good_iff (h : Inv env s) (hu : Good s) {new : List (Nat × Half)} {res : State × Option Nat}
    (hout : Outcome env s new res) : Creatable env s new ↔
      (ReachKept env s res.1 ∧ (res.2 = none → res.1 = s)) ∧ Good res.1 := by
  have hlen := h.mem.length_le
  have hfull := h.mem.alloc_none_iff
  rw [h.num] at hlen hfull
  cases hout with
  | full hne ha => exact ⟨fun _ => ⟨⟨fun n _ _ hr => hr, fun _ => rfl⟩, hu⟩, fun _ => .inr (.inl ha)⟩
  | half h2 hlen1 hlast hg =>
    constructor
    · rintro (hf | hf | ⟨-, hf⟩)
      · rw [hf] at h2
        cases h2
      · have := hfull.1 hf
        omega
      · omega
    · rintro ⟨⟨-, hnull⟩, -⟩
      have he := congrArg (fun t => t.nodelist.length) (hnull rfl)
      simp only at he
      omega
  | done hg =>
    have hlen1 := hg.inv.mem.length_le
    rw [hg.inv.num, hg.length] at hlen1
    constructor
    · intro hf
      refine ⟨⟨fun n hn _ hr => hg.reach n hn hr, fun he => by cases he⟩, ?_, hg.inv.parents, hg.inv.count⟩
      unfold Unique
      rw [hg.keys]
      rcases hf with hf | hf | ⟨hf, -⟩
      · rw [hf, List.append_nil]
        exact hu.unique
      · -- no free block, yet the nodes exist: there were none to create
        have hall := hfull.1 hf
        have hnil : new = [] := List.eq_nil_of_length_eq_zero (by omega)
        rw [hnil, List.append_nil]
        exact hu.unique
      · exact hf
    · rintro ⟨-, hq⟩
      have hnd := hq.unique
      unfold Unique at hnd
      rw [hg.keys] at hnd
      exact .inr (.inr ⟨hnd, hlen1⟩)

theorem step_good_iff (h : Inv env s) (hu : Good s) (op : Op) :
    Fits env s op ↔ StepGood env s op ∧ ∀ s', step env s op = some s' → Good s' := by
  have hsome : ∀ (t : State), (∀ s', some t = some s' → Good s') ↔ Good t :=
    fun t => ⟨fun hg => hg t rfl, fun hg s' he => Option.some.inj he ▸ hg⟩
  cases op with
  | update graph child parent lifetime =>
    unfold Fits StepGood step
    rw [hsome]
    exact (updateNode_outcome h graph child parent lifetime).good_iff h hu
  | expireParent graph child parent =>
    have hg := expireParent_grown h graph child parent
    unfold Fits StepGood step
    rw [hsome]
    refine ⟨fun _ => ⟨fun n hn _ hr => hg.reach n hn hr, ?_, hg.inv.parents, hg.inv.count⟩, fun _ => trivial⟩
    unfold Unique
    rw [hg.keys, List.append_nil]
    exact hu.unique
  | periodic seconds =>
    have hg := periodic_shrunk h seconds
    unfold Fits StepGood step
    rw [hsome]
    exact ⟨fun _ => ⟨fun n _ hn hr => hg.reach n hn hr, hg.keys.nodup hu.unique, hg.inv.parents, hg.inv.count⟩,
      fun _ => trivial⟩

/-! ## Every run -/

/-- The graph is sound in every state of the run and every call of it does what it should. -/
def GraphSound (env : Env) (ops : List Op) : Prop :=
  AllStates (step env) Good (uipSrInit env) ops ∧ AllSteps (step env) (StepGood env) (uipSrInit env) ops

/-- Whatever the order of the calls, the graph is sound exactly when every update meets `Fits`. -/
theorem graph_sound_iff (env : Env) (ops : List Op) :
    GraphSound env ops ↔ AllSteps (step env) (Fits env) (uipSrInit env) ops :=
  allStates_and_allSteps_iff (fun _ op _ hi hs => step_inv hi op hs)
    (fun _ op hi hg => step_good_iff hi hg op) ops (uipSrInit env) (init_inv env)
    ⟨List.nodup_nil, (init_inv env).parents, rfl⟩

/-- A graph of eight nodes under the prefix `fd00::`, with the root at `fd00::1`. -/
def smallEnv : Env where
  net := fun _ => ![0xfd, 0, 0, 0, 0, 0, 0, 0]
  root := .join ![0xfd, 0, 0, 0, 0, 0, 0, 0] ![0, 0, 0, 0, 0, 0, 0, 1]
  linkNum := 8
  removalDelay := 60

/-- `fd00::2`. -/
def node2 : Ipaddr := .join ![0xfd, 0, 0, 0, 0, 0, 0, 0] ![0, 0, 0, 0, 0, 0, 0, 2]

/-- The first update of a node that names itself as its parent creates it twice. -/
theorem selfParent_duplicated : ¬GraphSound smallEnv [.update 0 node2 (some node2) 1800] := by
  rintro ⟨h, -⟩
  have hu := (h.2 _ rfl).unique
  revert hu
  unfold Unique
  decide

end Contiki.Sr
