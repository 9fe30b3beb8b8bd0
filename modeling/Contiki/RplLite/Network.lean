/-
A network of nodes that run `rpl_dag_update_state` in any order, each on what it has heard of its neighbors. Where every node
with a parent has been updated since it heard of its neighbors, and knows the rank that its parent has, the parents make no
loop.
-/
import Contiki.RplLite.Dag
import Contiki.Lib.Walk

namespace Contiki.RplLite.Dag

open Contiki.Lib

variable {ν : Type} [DecidableEq ν] {cfg : Conf}

/-- The nodes, and which of them have heard of their neighbors since their last update. -/
structure Network (ν : Type) where
  node : ν → Node ν
  heard : ν → Bool

/-- Whether a node has unprocessed news behind an act. -/
def hears (heard : Bool) : Act ν → Bool
  | .neighbors _ _ _ => true
  | .update => false
  | _ => heard

variable (cfg) in
def Network.step (w : Network ν) (a : ν × Act ν) : Option (Network ν) :=
  (Dag.step cfg (w.node a.1) a.2).map fun s =>
    ⟨Function.update w.node a.1 s, Function.update w.heard a.1 (hears (w.heard a.1) a.2)⟩

/-- The preferred parent of a node that is part of a DAG. -/
def Network.parent (w : Network ν) (n : ν) : Option ν :=
  if (w.node n).inst.used then (w.node n).inst.preferredParent else none

/-- Every node with a parent was updated on what it has heard, and knows the rank of the parent. -/
def Network.Settled (w : Network ν) : Prop :=
  ∀ n p, w.parent n = some p → w.heard n = false ∧ ((w.node n).nbr p).rank = (w.node p).inst.rank

theorem step_stays_above {s t : Node ν} {a : Act ν} {heard : Bool} (hsound : s.inst.used = true → Sound s)
    (hfits : UpdateFits cfg s a) (habove : s.inst.used = true → heard = false → Above s) (h : step cfg s a = some t)
    (hused : t.inst.used = true) (hnews : hears heard a = false) : Above t := by
  cases a with
  | join dio =>
    rw [step] at h
    split_ifs at h
    cases h
    exact ⟨nofun, nofun⟩
  | initRoot root =>
    rw [step] at h
    split_ifs at h
    cases h
    exact ⟨nofun, nofun⟩
  | leave =>
    cases h
    cases hused
  | dropParent =>
    cases h
    obtain ⟨switch, hset⟩ := setPreferredParent_eq none s.inst
    rw [hset]
    exact ⟨nofun, nofun⟩
  -- what the neighbors have told is news until the next update
  | neighbors table nbr clock => cases hnews
  | update =>
    cases h
    exact step_above hsound hfits hused
  -- the others keep the rank, the parent and what is known of it
  | setState state =>
    cases h
    exact ⟨(habove hused hnews).parent, (habove hused hnews).bound⟩
  | advertise =>
    cases h
    exact ⟨(habove hused hnews).parent, (habove hused hnews).bound⟩
  | probe target =>
    cases h
    exact ⟨(habove hused hnews).parent, (habove hused hnews).bound⟩

/-- The nodes of a DAG are not taken for roots, and those without news are above their parents. -/
def Network.Inv (w : Network ν) : Prop :=
  ∀ n, (w.node n).inst.used = true → Sound (w.node n) ∧ (w.heard n = false → Above (w.node n))

theorem Network.Inv.step {w w' : Network ν} {a : ν × Act ν} (h : w.Inv) (hfits : UpdateFits cfg (w.node a.1) a.2)
    (hs : w.step cfg a = some w') : w'.Inv := by
  obtain ⟨s, hstep, rfl⟩ := Option.map_eq_some_iff.1 hs
  intro n hused
  by_cases hn : n = a.1
  · subst hn
    dsimp only at hused ⊢
    rw [Function.update_self] at hused ⊢
    rw [Function.update_self]
    have hsound := fun hu => (h a.1 hu).1
    exact ⟨step_sound hsound hfits hstep hused,
      fun hnews => step_stays_above hsound hfits (fun hu => (h a.1 hu).2) hstep hused hnews⟩
  · dsimp only at hused ⊢
    rw [Function.update_of_ne hn] at hused ⊢
    rw [Function.update_of_ne hn]
    exact h n hused

omit [DecidableEq ν] in
theorem Network.Inv.rank_walk {w : Network ν} (h : w.Inv) (hsettled : w.Settled) :
    ∀ (k : Nat) {n m : ν}, walk w.parent k n = some m → (w.node m).inst.rank.toNat + k ≤ (w.node n).inst.rank.toNat
  | 0, n, m, hw => by
    cases hw
    exact le_rfl
  | k + 1, n, m, hw => by
    obtain ⟨p, hp, hw⟩ := Option.bind_eq_some_iff.1 hw
    have hle := h.rank_walk hsettled k hw
    -- the node is above the rank it knows of its parent, which is the one the parent has
    obtain ⟨hnews, hrank⟩ := hsettled n p hp
    unfold Network.parent at hp
    split_ifs at hp with hused
    have hlt := UInt16.lt_iff_toNat_lt.1 (((h n hused).2 hnews).parent p hp)
    rw [hrank] at hlt
    omega

def twoNodes : Network Bool where
  node _ := ⟨{ Adopted.init ⟨.of0, ⟨0, 0, 0, 0, 0, .etx 0⟩, 0, 256⟩ 0 .initialized with used := false }, [],
    fun _ => rootNbr 0, 1⟩
  heard _ := false

/-- The root starts its DAG; the other node joins it, hears the root and is updated. -/
def joinTwo : List (Bool × Act Bool) :=
  [(true, .initRoot ⟨.of0, ⟨0, 0, 0, 0, 0, .etx 0⟩, 0, 256⟩), (false, .join ⟨.of0, ⟨0, 0, 0, 0, 0, .etx 0⟩, 0, 256⟩),
    (false, .neighbors [true] (fun _ => rootNbr 256) 1), (false, .update)]

end Contiki.RplLite.Dag
