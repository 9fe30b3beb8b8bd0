/-
Event timers in any run: calls by any processes, starts and exits of processes, polls with any room in
the event queue, a clock that moves on by any amount. The list of timers is as it should be and each
setting posts its event once; the cached next expiration is right as long as it is never computed with
some timers due and others not, and no exiting process owns the timer that expires first.
-/
import Contiki.Etimer.Calls
import Contiki.Lib.Run

namespace Contiki.Etimer

open Contiki.Lib

variable {n w : Nat}

/-! ## Runs -/

/-- What became of the last setting of a timer: the process that made it, the receivers of the events
posted for it, and whether the timer was stopped or the process exited since. -/
structure Setting where
  owner : Option Process
  posts : List (Option Process)
  cancelled : Bool

/-- The state with the processes that run and the last setting of each timer. -/
structure World (n w : Nat) where
  state : State n w
  running : Process → Bool
  setting : Fin n → Option Setting

/-- What can happen; `current` is `PROCESS_CURRENT()`, `free` the room in the event queue. -/
inductive Action (n w : Nat)
  | set (current : Option Process) (et : Fin n) (interval : BitVec w)
  | resetWithNewInterval (current : Option Process) (et : Fin n) (interval : BitVec w)
  | reset (current : Option Process) (et : Fin n)
  | restart (current : Option Process) (et : Fin n)
  | adjust (et : Fin n) (timediff : Int)
  | stop (et : Fin n)
  | start (p : Process)
  | exit (p : Process)
  | poll (free : Nat)
  | tick (d : BitVec w)

def Setting.cancel (σ : Setting) : Setting := { σ with cancelled := true }

def World.settle (W : World n w) (current : Option Process) (et : Fin n) (s : State n w) : World n w :=
  { W with state := s, setting := Function.update W.setting et (some ⟨current, [], false⟩) }

def World.cancel (W : World n w) (et : Fin n) (s : State n w) : World n w :=
  { W with state := s, setting := Function.update W.setting et ((W.setting et).map Setting.cancel) }

def World.exited (W : World n w) (p : Process) (s : State n w) : World n w where
  state := s
  running := Function.update W.running p false
  setting := fun t => (W.setting t).map fun σ => if σ.owner = some p then σ.cancel else σ

def World.posted (W : World n w) (events : List (Option Process × Fin n)) (s : State n w) : World n w :=
  { W with
    state := s
    setting := fun t => (W.setting t).map fun σ =>
      { σ with posts := σ.posts ++ (events.filter (·.2 = t)).map (·.1) } }

@[grind =]
def step (W : World n w) : Action n w → Option (World n w)
  | .set current et interval => (etimerSet current et interval W.state).map (W.settle current et)
  | .resetWithNewInterval current et interval =>
    (etimerResetWithNewInterval current et interval W.state).map (W.settle current et)
  | .reset current et => (etimerReset current et W.state).map (W.settle current et)
  | .restart current et => (etimerRestart current et W.state).map (W.settle current et)
  | .adjust et timediff => (etimerAdjust et timediff W.state).map fun s => { W with state := s }
  | .stop et => (etimerStop et W.state).map (W.cancel et)
  | .start p => some { W with running := Function.update W.running p true }
  | .exit p => (etimerExited p W.state).map (W.exited p)
  | .poll free => (etimerPoll free W.state).map fun r => W.posted r.2 r.1
  | .tick d => some { W with state := { W.state with clock := W.state.clock + d } }

def World.init (n w : Nat) (clock : BitVec w) : World n w where
  state := ⟨fun _ => ⟨0, 0, none, none⟩, none, 0, clock⟩
  running := fun _ => false
  setting := fun _ => none

/-! ## The property -/

/-- Set, and since then not stopped, not expired, and its process not exited. -/
def World.Active (W : World n w) (t : Fin n) : Prop :=
  ∃ σ, W.setting t = some σ ∧ σ.cancelled = false ∧ σ.posts = []

/-- The list of timers and what was posted are as they should be. -/
structure Good (W : World n w) (l : List (Fin n)) : Prop where
  chain : Chain W.state.next W.state.timerlist l
  nodup : l.Nodup
  active : ∀ t, t ∈ l ↔ W.Active t
  owned : ∀ t ∈ l, ∃ p, (W.state.timers t).p = some p ∧ W.running p = true
  posts : ∀ t σ, W.setting t = some σ →
    (σ.posts = [] ∨ σ.posts = [σ.owner]) ∧ (σ.cancelled = false → (t ∉ l ↔ σ.posts = [σ.owner]))
  next : l ≠ [] → Earliest W.state.exp l (etimerNextExpirationTime W.state)

def World.members (W : World n w) : List (Fin n) := W.state.list.getD []

/-- A call that sets the timer `et` to `t`: made by a running process, and the timers that are then on
the list are all due or none is. -/
def World.CallOk (W : World n w) (current : Option Process) (et : Fin n) (t : Timer n w) : Prop :=
  (∃ p, current = some p ∧ W.running p = true) ∧ Level W.state.clock (W.state.set et t).exp (added et W.members)

def Cond (W : World n w) : Action n w → Prop
  | .set current et interval => W.CallOk current et (timerSet W.state.clock (W.state.timers et) interval)
  | .resetWithNewInterval current et interval =>
    W.CallOk current et { timerReset W.state.clock (W.state.timers et) with interval := interval }
  | .reset current et => W.CallOk current et (timerReset W.state.clock (W.state.timers et))
  | .restart current et => W.CallOk current et (timerRestart W.state.clock (W.state.timers et))
  | .adjust et timediff =>
    Level W.state.clock
      (W.state.set et { W.state.timers et with start := (W.state.timers et).start + BitVec.ofInt w timediff }).exp W.members
  | .stop et => et ∈ W.members → Level W.state.clock W.state.exp (W.members.erase et)
  | .start _ => True
  | .exit p =>
    W.state.others p W.members = [] ∨ W.state.others p W.members = W.members ∨
      ∃ t ∈ W.state.others p W.members, W.state.exp t = W.state.nextExpiration
  | .poll free =>
    let expired := fun t => timerExpired W.state.clock (W.state.timers t)
    taken expired free W.members = [] ∨ Level W.state.clock W.state.exp (left expired free W.members)
  | .tick _ => True

/-! ## One step -/

/-- `Good` with what else a run keeps: a timer on the list has the owner of its setting. -/
structure Inv (W : World n w) (l : List (Fin n)) : Prop extends Good W l where
  owner : ∀ t ∈ l, ∀ σ, W.setting t = some σ → (W.state.timers t).p = σ.owner

variable {W W' : World n w} {l : List (Fin n)}

theorem Inv.members (h : Inv W l) : W.members = l := by
  rw [World.members, list_of_chain h.chain]
  rfl

theorem Inv.expiration (h : Inv W l) (hl : l ≠ []) : Earliest W.state.exp l W.state.nextExpiration := by
  have hn := h.next hl
  have hne : W.state.timerlist ≠ none := by
    intro he
    have hc := h.chain
    rw [he] at hc
    cases l with
    | nil => exact hl rfl
    | cons t l => cases hc.1
  rwa [etimerNextExpirationTime, if_pos hne] at hn

theorem Inv.mk' (chain : Chain W.state.next W.state.timerlist l) (active : ∀ t, t ∈ l ↔ W.Active t)
    (owned : ∀ t ∈ l, ∃ p, (W.state.timers t).p = some p ∧ W.running p = true)
    (posts : ∀ t σ, W.setting t = some σ → σ.posts = [] ∨ σ.posts = [σ.owner])
    (next : l ≠ [] → Earliest W.state.exp l W.state.nextExpiration)
    (owner : ∀ t ∈ l, ∀ σ, W.setting t = some σ → (W.state.timers t).p = σ.owner) : Inv W l where
  chain := chain
  nodup := chain.nodup
  active := active
  owned := owned
  posts t σ hσ := by
    refine ⟨posts t σ hσ, fun hc => ?_⟩
    rw [active t]
    constructor
    · intro hna
      exact (posts t σ hσ).resolve_left fun he => hna ⟨σ, hσ, hc, he⟩
    · rintro hp ⟨σ', hσ', -, he⟩
      obtain rfl := Option.some.inj (hσ.symm.trans hσ')
      rw [hp] at he
      cases he
  next hl := by
    have hne : W.state.timerlist ≠ none := by
      intro he
      rw [he] at chain
      cases l with
      | nil => exact hl rfl
      | cons t l => cases chain.1
    rw [etimerNextExpirationTime, if_pos hne]
    exact next hl
  owner := owner

theorem mem_added {et t : Fin n} : t ∈ added et l ↔ t = et ∨ t ∈ l := by
  unfold added
  split
  · rename_i h
    exact ⟨Or.inr, fun ht => ht.elim (fun he => he ▸ h) id⟩
  · exact List.mem_cons

theorem inv_settle (h : Inv W l) {current : Option Process} {et : Fin n} {t : Timer n w}
    (hok : W.CallOk current et t) (hnext : t.next = (W.state.timers et).next) (hp : t.p = (W.state.timers et).p) :
    ∃ s, addTimer current et (W.state.set et t) = some s ∧ Inv (W.settle current et s) (added et l) := by
  obtain ⟨⟨p, rfl, hrun⟩, hlevel⟩ := hok
  rw [h.members] at hlevel
  have hchain : Chain (W.state.set et t).next (W.state.set et t).timerlist l := by
    refine h.chain.congr fun x _ => ?_
    by_cases hx : x = et <;> simp [State.next, hx, hnext]
  have hsame : ∀ x, ((W.state.set et t).timers x).p = (W.state.timers x).p := by
    intro x
    by_cases hx : x = et <;> simp [hx, hp]
  obtain ⟨s, hs, hleaves, hexp⟩ := addTimer_spec (some p) et hchain fun x hx => by
    obtain ⟨q, hq, -⟩ := h.owned x hx
    rw [hsame, hq]
    exact Option.some_ne_none q
  refine ⟨s, hs, Inv.mk' hleaves.chain (fun x => ?_) (fun x hx => ?_) (fun x σ hσ => ?_) (fun hne => ?_) fun x hx σ hσ => ?_⟩
  · rw [mem_added]
    by_cases hx : x = et
    · simp [hx, World.Active, World.settle]
    · simp [hx, World.Active, World.settle, h.active x]
  · rw [show (W.settle (some p) et s).state = s from rfl, hleaves.p]
    by_cases hxe : x = et
    · exact ⟨p, if_pos hxe, hrun⟩
    · rw [if_neg hxe, hsame]
      exact h.owned x ((mem_added.1 hx).resolve_left hxe)
  · by_cases hx : x = et
    · simp only [World.settle, hx, Function.update_self, Option.some.injEq] at hσ
      rw [← hσ]
      exact Or.inl rfl
    · simp only [World.settle, Function.update_of_ne hx] at hσ
      exact (h.posts x σ hσ).1
  · rw [show (W.settle (some p) et s).state = s from rfl, hleaves.exp, hexp]
    exact earliest_of_level hne hlevel
  · rw [show (W.settle (some p) et s).state = s from rfl, hleaves.p]
    by_cases hxe : x = et
    · simp only [World.settle, hxe, Function.update_self, Option.some.injEq] at hσ
      rw [if_pos hxe, ← hσ]
    · simp only [World.settle, Function.update_of_ne hxe] at hσ
      rw [if_neg hxe, hsame]
      exact h.owner x ((mem_added.1 hx).resolve_left hxe) σ hσ

theorem inv_adjust (h : Inv W l) (et : Fin n) (timediff : Int) (hok : Cond W (.adjust et timediff)) :
    ∃ s, etimerAdjust et timediff W.state = some s ∧ Inv { W with state := s } l := by
  have hlevel : Level W.state.clock _ W.members := hok
  rw [h.members] at hlevel
  unfold etimerAdjust
  generalize ht : ({ W.state.timers et with start := (W.state.timers et).start + BitVec.ofInt w timediff } : Timer n w) = t
    at hlevel ⊢
  have hsame : ∀ x, ((W.state.set et t).timers x).p = (W.state.timers x).p ∧ (W.state.set et t).next x = W.state.next x := by
    intro x
    by_cases hx : x = et <;> simp [hx, State.next, ← ht]
  have hchain : Lib.Chain (W.state.set et t).next _ l := h.chain.congr fun x _ => (hsame x).2
  refine ⟨_, updateTime_eq hchain, Inv.mk' hchain h.active (fun x hx => ?_) (fun x σ hσ => (h.posts x σ hσ).1)
    (fun hne => earliest_of_level hne hlevel) fun x hx σ hσ => ?_⟩
  · obtain ⟨p, hp, hrun⟩ := h.owned x hx
    exact ⟨p, (hsame x).1.trans hp, hrun⟩
  · exact (hsame x).1.trans (h.owner x hx σ hσ)

theorem inv_stop (h : Inv W l) (et : Fin n) (hok : Cond W (.stop et)) :
    ∃ s, etimerStop et W.state = some s ∧ Inv (W.cancel et s) (l.erase et) := by
  have hlevel : et ∈ W.members → Level W.state.clock W.state.exp (W.members.erase et) := hok
  rw [h.members] at hlevel
  obtain ⟨s, hs, hleaves, hexp⟩ := etimerStop_spec et h.chain
  have hmem : ∀ x, x ∈ l.erase et ↔ x ≠ et ∧ x ∈ l := fun x => h.nodup.mem_erase_iff
  have hset : ∀ x, x ≠ et → (W.cancel et s).setting x = W.setting x := fun x hx => Function.update_of_ne hx ..
  have hself : (W.cancel et s).setting et = (W.setting et).map Setting.cancel := Function.update_self ..
  refine ⟨s, hs, Inv.mk' hleaves.chain (fun x => ?_) (fun x hx => ?_) (fun x σ hσ => ?_) (fun hne => ?_) fun x hx σ hσ => ?_⟩
  · rw [hmem, h.active, World.Active, World.Active]
    by_cases hx : x = et
    · subst hx
      rw [hself]
      simp only [ne_eq, not_true_eq_false, false_and, false_iff, not_exists]
      rintro σ ⟨hσ, hc, -⟩
      obtain ⟨σ', -, rfl⟩ := Option.map_eq_some_iff.1 hσ
      cases hc
    · rw [hset x hx]
      simp [hx]
  · obtain ⟨hne, hxl⟩ := (hmem x).1 hx
    rw [show (W.cancel et s).state = s from rfl, hleaves.p, if_neg hne]
    exact h.owned x hxl
  · by_cases hx : x = et
    · subst hx
      rw [hself] at hσ
      obtain ⟨σ', hσ', rfl⟩ := Option.map_eq_some_iff.1 hσ
      exact (h.posts x σ' hσ').1
    · rw [hset x hx] at hσ
      exact (h.posts x σ hσ).1
  · rw [show (W.cancel et s).state = s from rfl, hleaves.exp, hexp]
    split
    · exact earliest_of_level hne (hlevel ‹_›)
    · rename_i het
      rw [List.erase_of_not_mem het] at hne ⊢
      exact h.expiration hne
  · obtain ⟨hne, hxl⟩ := (hmem x).1 hx
    rw [hset x hne] at hσ
    rw [show (W.cancel et s).state = s from rfl, hleaves.p, if_neg hne]
    exact h.owner x hxl σ hσ

theorem inv_exit (h : Inv W l) (p : Process) (hok : Cond W (.exit p)) :
    ∃ s, etimerExited p W.state = some s ∧ Inv (W.exited p s) (W.state.others p l) := by
  have hleft : W.state.others p W.members = [] ∨ W.state.others p W.members = W.members ∨
      ∃ t ∈ W.state.others p W.members, W.state.exp t = W.state.nextExpiration := hok
  rw [h.members] at hleft
  obtain ⟨s, hs, hleaves, hexp⟩ := etimerExited_spec p h.chain
  have hmem : ∀ x, x ∈ W.state.others p l ↔ x ∈ l ∧ (W.state.timers x).p ≠ some p := by
    intro x
    simp [State.others]
  have hset : ∀ x σ, (W.exited p s).setting x = some σ → ∃ σ', W.setting x = some σ' ∧
      σ = if σ'.owner = some p then σ'.cancel else σ' := by
    intro x σ hσ
    obtain ⟨σ', hσ', he⟩ := Option.map_eq_some_iff.1 hσ
    exact ⟨σ', hσ', he.symm⟩
  refine ⟨s, hs, Inv.mk' hleaves.chain (fun x => ?_) (fun x hx => ?_) (fun x σ hσ => ?_) (fun hne => ?_) fun x hx σ hσ => ?_⟩
  · rw [hmem]
    constructor
    · rintro ⟨hxl, hne⟩
      obtain ⟨σ, hσ, hc, hp⟩ := (h.active x).1 hxl
      have howner : σ.owner ≠ some p := by
        rw [← h.owner x hxl σ hσ]
        exact hne
      refine ⟨σ, ?_, hc, hp⟩
      simp [World.exited, hσ, howner]
    · rintro ⟨σ, hσ, hc, hp⟩
      obtain ⟨σ', hσ', rfl⟩ := hset x σ hσ
      split at hc
      · cases hc
      · rename_i howner
        rw [if_neg howner] at hp
        have hxl := (h.active x).2 ⟨σ', hσ', hc, hp⟩
        rw [h.owner x hxl σ' hσ']
        exact ⟨hxl, howner⟩
  · obtain ⟨hxl, hne⟩ := (hmem x).1 hx
    obtain ⟨q, hq, hrun⟩ := h.owned x hxl
    refine ⟨q, (hleaves.p x).trans hq, ?_⟩
    have hqp : q ≠ p := fun he => hne (he ▸ hq)
    exact (Function.update_of_ne hqp ..).trans hrun
  · obtain ⟨σ', hσ', rfl⟩ := hset x σ hσ
    have hpost := (h.posts x σ' hσ').1
    split
    · exact hpost
    · exact hpost
  · rw [show (W.exited p s).state = s from rfl, hleaves.exp, hexp]
    have hl : l ≠ [] := by
      rintro rfl
      exact hne rfl
    obtain ⟨t, ht, he, hall⟩ := h.expiration hl
    have hall' : ∀ x ∈ W.state.others p l, (W.state.exp x - W.state.nextExpiration).toNat < 2 ^ (w - 1) :=
      fun x hx => hall x ((hmem x).1 hx).1
    rcases hleft with hnil | hsame | ⟨u, hu, hue⟩
    · exact absurd hnil hne
    · rw [hsame] at hall' ⊢
      exact ⟨t, ht, he, hall'⟩
    · exact ⟨u, hu, hue.symm, hall'⟩
  · obtain ⟨hxl, hne⟩ := (hmem x).1 hx
    obtain ⟨σ', hσ', rfl⟩ := hset x σ hσ
    rw [show (W.exited p s).state = s from rfl, hleaves.p, h.owner x hxl σ' hσ']
    split
    · rfl
    · rfl

theorem taken_sublist {expired : Fin n → Bool} : ∀ {free : Nat} {l : List (Fin n)}, (taken expired free l).Sublist l
  | _, [] => List.Sublist.slnil
  | free, t :: l => by
    unfold taken
    split
    · exact taken_sublist.cons_cons t
    · exact taken_sublist.cons t

theorem left_sublist {expired : Fin n → Bool} : ∀ {free : Nat} {l : List (Fin n)}, (left expired free l).Sublist l
  | _, [] => List.Sublist.slnil
  | free, t :: l => by
    unfold left
    split
    · exact left_sublist.cons t
    · exact left_sublist.cons_cons t

theorem not_taken_and_left {expired : Fin n → Bool} : ∀ {free : Nat} {l : List (Fin n)} {t : Fin n}, l.Nodup →
    t ∈ taken expired free l → t ∈ left expired free l → False
  | _, [], t, _, ht, _ => by simp [taken] at ht
  | free, u :: l, t, hnd, ht, hl => by
    obtain ⟨hu, hnd⟩ := List.nodup_cons.1 hnd
    unfold taken at ht
    unfold left at hl
    split at ht
    · rw [if_pos ‹_›] at hl
      rcases List.mem_cons.1 ht with rfl | ht
      · exact hu (left_sublist.mem hl)
      · exact not_taken_and_left hnd ht hl
    · rw [if_neg ‹_›] at hl
      rcases List.mem_cons.1 hl with rfl | hl
      · exact hu (taken_sublist.mem ht)
      · exact not_taken_and_left hnd ht hl

theorem filter_events {f : Fin n → Option Process} {t : Fin n} : ∀ {l : List (Fin n)}, l.Nodup →
    (((l.map fun t => (f t, t)).filter (·.2 = t)).map (·.1)) = if t ∈ l then [f t] else []
  | [], _ => rfl
  | u :: l, hnd => by
    obtain ⟨hu, hnd⟩ := List.nodup_cons.1 hnd
    have ih := filter_events (f := f) (t := t) hnd
    by_cases hut : u = t
    · subst hut
      rw [if_neg hu] at ih
      simp only [List.map_cons, List.filter_cons, decide_true, if_true, List.mem_cons, true_or]
      rw [ih]
    · have htu : ¬ t = u := fun he => hut he.symm
      simp only [List.map_cons, List.filter_cons, hut, decide_false, Bool.false_eq_true, if_false, List.mem_cons, htu, false_or]
      exact ih

theorem inv_poll (h : Inv W l) (free : Nat) (hok : Cond W (.poll free)) : ∃ r, etimerPoll free W.state = some r ∧
      Inv (W.posted r.2 r.1) (left (fun t => timerExpired W.state.clock (W.state.timers t)) free l) := by
  have hlevel : taken (fun t => timerExpired W.state.clock (W.state.timers t)) free W.members = [] ∨
      Level W.state.clock W.state.exp (left (fun t => timerExpired W.state.clock (W.state.timers t)) free W.members) := hok
  rw [h.members] at hlevel
  have hlen := h.chain.length_le
  obtain ⟨s, hs, hleaves, hexp⟩ := pollLoop_spec (k := n + 1) free (fun _ => rfl) h.chain (by omega)
  generalize (fun t => timerExpired W.state.clock (W.state.timers t)) = expired at hlevel hs hleaves hexp ⊢
  have hnd : (taken expired free l).Nodup := taken_sublist.nodup h.nodup
  refine ⟨_, hs, ?_⟩
  have hset : ∀ x σ, (W.posted ((taken expired free l).map fun t => ((W.state.timers t).p, t)) s).setting x = some σ →
      ∃ σ', W.setting x = some σ' ∧ σ.owner = σ'.owner ∧ σ.cancelled = σ'.cancelled ∧
        σ.posts = σ'.posts ++ if x ∈ taken expired free l then [(W.state.timers x).p] else [] := by
    intro x σ hσ
    obtain ⟨σ', hσ', rfl⟩ := Option.map_eq_some_iff.1 hσ
    refine ⟨σ', hσ', rfl, rfl, ?_⟩
    rw [filter_events hnd]
  refine Inv.mk' hleaves.chain (fun x => ?_) (fun x hx => ?_) (fun x σ hσ => ?_) (fun hne => ?_) fun x hx σ hσ => ?_
  · constructor
    · intro hx
      obtain ⟨σ, hσ, hc, hp⟩ := (h.active x).1 (left_sublist.mem hx)
      have hnot : x ∉ taken expired free l := fun ht => not_taken_and_left h.nodup ht hx
      refine ⟨{ σ with posts := σ.posts ++ [] }, ?_, hc, by simpa using hp⟩
      simp only [World.posted, hσ, Option.map_some, filter_events hnd, if_neg hnot]
    · rintro ⟨σ, hσ, hc, hp⟩
      obtain ⟨σ', hσ', -, hc', hposts⟩ := hset x σ hσ
      rw [hp] at hposts
      obtain ⟨hnil, hnone⟩ := List.append_eq_nil_iff.1 hposts.symm
      have hxl := (h.active x).2 ⟨σ', hσ', hc' ▸ hc, hnil⟩
      refine (mem_taken_or_left.1 hxl).resolve_left fun ht => ?_
      rw [if_pos ht] at hnone
      cases hnone
  · have hnot : x ∉ taken expired free l := fun ht => not_taken_and_left h.nodup ht hx
    obtain ⟨p, hp, hrun⟩ := h.owned x (left_sublist.mem hx)
    exact ⟨p, by rw [show (W.posted _ s).state = s from rfl, hleaves.p, if_neg hnot, hp], hrun⟩
  · obtain ⟨σ', hσ', ho, -, hposts⟩ := hset x σ hσ
    rw [hposts, ho]
    split
    · rename_i ht
      have hxl := mem_taken_or_left.2 (Or.inl ht)
      obtain ⟨σ₀, hσ₀, -, hp⟩ := (h.active x).1 hxl
      obtain rfl := Option.some.inj (hσ'.symm.trans hσ₀)
      rw [hp, h.owner x hxl σ' hσ']
      exact Or.inr rfl
    · rw [List.append_nil]
      exact (h.posts x σ' hσ').1
  · rw [show (W.posted _ s).state = s from rfl, hleaves.exp, hexp]
    split
    · rename_i hnil
      rw [left_of_taken_nil hnil] at hne ⊢
      exact h.expiration hne
    · rename_i hsome
      exact earliest_of_level hne (hlevel.resolve_left hsome)
  · have hnot : x ∉ taken expired free l := fun ht => not_taken_and_left h.nodup ht hx
    obtain ⟨σ', hσ', ho, -, -⟩ := hset x σ hσ
    rw [show (W.posted _ s).state = s from rfl, hleaves.p, if_neg hnot, ho]
    exact h.owner x (left_sublist.mem hx) σ' hσ'

/-! ## All runs -/

theorem inv_step (h : Inv W l) (a : Action n w) (hok : Cond W a) : ∃ W' l', step W a = some W' ∧ Inv W' l' := by
  cases a with
  | set current et interval =>
    obtain ⟨s, hs, hinv⟩ := inv_settle h (show W.CallOk current et _ from hok) rfl rfl
    exact ⟨_, _, by simp only [step, etimerSet, hs, Option.map_some], hinv⟩
  | resetWithNewInterval current et interval =>
    have htimer : (timerReset W.state.clock (W.state.timers et)).next = (W.state.timers et).next ∧
        (timerReset W.state.clock (W.state.timers et)).p = (W.state.timers et).p := by
      unfold timerReset
      split <;> exact ⟨rfl, rfl⟩
    obtain ⟨s, hs, hinv⟩ := inv_settle h (show W.CallOk current et _ from hok) htimer.1 htimer.2
    exact ⟨_, _, by simp only [step, etimerResetWithNewInterval, hs, Option.map_some], hinv⟩
  | reset current et =>
    have htimer : (timerReset W.state.clock (W.state.timers et)).next = (W.state.timers et).next ∧
        (timerReset W.state.clock (W.state.timers et)).p = (W.state.timers et).p := by
      unfold timerReset
      split <;> exact ⟨rfl, rfl⟩
    obtain ⟨s, hs, hinv⟩ := inv_settle h (show W.CallOk current et _ from hok) htimer.1 htimer.2
    exact ⟨_, _, by simp only [step, etimerReset, hs, Option.map_some], hinv⟩
  | restart current et =>
    obtain ⟨s, hs, hinv⟩ := inv_settle h (show W.CallOk current et _ from hok) rfl rfl
    exact ⟨_, _, by simp only [step, etimerRestart, hs, Option.map_some], hinv⟩
  | adjust et timediff =>
    obtain ⟨s, hs, hinv⟩ := inv_adjust h et timediff hok
    exact ⟨_, _, by simp only [step, hs, Option.map_some], hinv⟩
  | stop et =>
    obtain ⟨s, hs, hinv⟩ := inv_stop h et hok
    exact ⟨_, _, by simp only [step, hs, Option.map_some], hinv⟩
  | start p =>
    refine ⟨_, l, rfl, { h with owned := fun t ht => ?_ }⟩
    obtain ⟨q, hq, hrun⟩ := h.owned t ht
    refine ⟨q, hq, ?_⟩
    by_cases hqp : q = p
    · rw [hqp]
      exact Function.update_self ..
    · exact (Function.update_of_ne hqp ..).trans hrun
  | exit p =>
    obtain ⟨s, hs, hinv⟩ := inv_exit h p hok
    exact ⟨_, _, by simp only [step, hs, Option.map_some], hinv⟩
  | poll free =>
    obtain ⟨r, hr, hinv⟩ := inv_poll h free hok
    exact ⟨_, _, by simp only [step, hr, Option.map_some], hinv⟩
  | tick d => exact ⟨_, l, rfl, { h with }⟩

theorem inv_init (n w : Nat) (clock : BitVec w) : Inv (World.init n w clock) [] :=
  Inv.mk' rfl (fun t => by simp [World.Active, World.init]) (fun t ht => absurd ht List.not_mem_nil)
    (fun t σ hσ => by cases hσ) (fun hne => absurd rfl hne) fun t ht => absurd ht List.not_mem_nil

/-- A run whose steps all meet the condition can be taken to its end, and the list, the events and the
next expiration are right there. -/
theorem etimer_run {clock : BitVec w} {as : List (Action n w)} (h : AllSteps step Cond (World.init n w clock) as) :
    ∃ W l, exec step (World.init n w clock) as = some W ∧ Good W l := by
  have hstep : ∀ (W : World n w) (a : Action n w), (∃ l, Inv W l) → Cond W a → ∃ W', step W a = some W' ∧ ∃ l, Inv W' l := by
    rintro W a ⟨l, hinv⟩ hok
    obtain ⟨W', l', hs, hinv'⟩ := inv_step hinv a hok
    exact ⟨W', hs, l', hinv'⟩
  obtain ⟨W, hW, l, hinv⟩ := exec_total hstep as ⟨[], inv_init n w clock⟩ h
  exact ⟨W, l, hW, hinv.toGood⟩

theorem etimer_run_one : ∃ W l,
    exec step (World.init 1 32 0) [.start 1, .set (some 1) 0 5, .tick 5, .poll 8] = some W ∧ Good W l := by
  refine etimer_run ⟨trivial, ?_⟩
  rintro _ ⟨⟩
  refine ⟨⟨⟨1, rfl, rfl⟩, Or.inl ?_⟩, ?_⟩
  · intro t ht
    unfold Due
    revert t
    decide
  rintro _ ⟨⟩
  refine ⟨trivial, ?_⟩
  rintro _ ⟨⟩
  exact ⟨Or.inr (Or.inl fun t ht => absurd ht (by revert t; decide)), fun _ _ => trivial⟩

/-- A process exits whose timer expires first: the next expiration stays that of the timer taken out. -/
theorem exit_keeps_expiration : ∃ W,
    exec step (World.init 2 32 0) [.start 1, .start 2, .set (some 1) 0 5, .set (some 2) 1 20, .exit 1] = some W ∧
      ∀ l, Chain W.state.next W.state.timerlist l →
        l = [1] ∧ ¬ Earliest W.state.exp l (etimerNextExpirationTime W.state) := by
  have hsome : (exec step (World.init 2 32 0)
      [.start 1, .start 2, .set (some 1) 0 5, .set (some 2) 1 20, .exit 1]).isSome := by decide
  have hval : (exec step (World.init 2 32 0) [.start 1, .start 2, .set (some 1) 0 5, .set (some 2) 1 20, .exit 1]).map
      (fun W => (W.state.list, etimerNextExpirationTime W.state, W.state.exp 1)) = some (some [1], 5, 20) := by decide
  obtain ⟨W, hW⟩ := Option.isSome_iff_exists.1 hsome
  rw [hW] at hval
  simp only [Option.map_some, Option.some.injEq, Prod.mk.injEq] at hval
  obtain ⟨hlist, hnext, hexp⟩ := hval
  refine ⟨W, hW, fun l hc => ?_⟩
  have hl : l = [1] := Option.some.inj ((list_of_chain hc).symm.trans hlist)
  refine ⟨hl, ?_⟩
  rintro ⟨t, ht, he, -⟩
  rw [hl, List.mem_singleton] at ht
  rw [hnext, ht, hexp] at he
  revert he
  decide

end Contiki.Etimer
