/-
Runs of a partial step function, over any state and action types: the state a list of actions
leads to, conditions on every step taken and on every state passed through, the invariant rule,
and the rule that turns a one-step equivalence into an equivalence over whole runs.
-/
import Mathlib.Tactic

namespace Contiki.Lib

variable {σ α : Type}

@[grind =]
def exec (step : σ → α → Option σ) : σ → List α → Option σ
  | s, [] => some s
  | s, a :: as => match step s a with
    | none => none
    | some s' => exec step s' as

/-- Every action of the run meets `C` in the state it is taken in. -/
def AllSteps (step : σ → α → Option σ) (C : σ → α → Prop) : σ → List α → Prop
  | _, [] => True
  | s, a :: as => C s a ∧ ∀ s', step s a = some s' → AllSteps step C s' as

/-- Every state of the run, the first one included, meets `P`. -/
def AllStates (step : σ → α → Option σ) (P : σ → Prop) : σ → List α → Prop
  | s, [] => P s
  | s, a :: as => P s ∧ ∀ s', step s a = some s' → AllStates step P s' as

variable {step : σ → α → Option σ}

instance instDecidableAllSteps {C : σ → α → Prop} [∀ s a, Decidable (C s a)] : ∀ (s : σ) (as : List α), Decidable (AllSteps step C s as)
  | _, [] => isTrue trivial
  | s, a :: as =>
    have : Decidable (∀ s', step s a = some s' → AllSteps step C s' as) := match step s a with
      | none => isTrue fun _ h => nomatch h
      | some s' =>
        have : Decidable (AllSteps step C s' as) := instDecidableAllSteps s' as
        decidable_of_iff (AllSteps step C s' as) ⟨fun h _ he => Option.some.inj he ▸ h, fun h => h s' rfl⟩
    inferInstanceAs (Decidable (_ ∧ _))

/-! ## Composing runs -/

@[simp] theorem exec_nil (s : σ) : exec step s [] = some s := rfl

theorem exec_cons {s s' : σ} {a : α} (h : step s a = some s') (as : List α) :
    exec step s (a :: as) = exec step s' as := by
  simp only [exec, h]

theorem exec_cons_some {s t : σ} {a : α} {as : List α} (h : exec step s (a :: as) = some t) :
    ∃ s', step s a = some s' ∧ exec step s' as = some t := by
  simp only [exec] at h
  cases hs : step s a with
  | none => rw [hs] at h; cases h
  | some s' => rw [hs] at h; exact ⟨s', rfl, h⟩

theorem exec_append : ∀ (as bs : List α) (s : σ),
    exec step s (as ++ bs) = (exec step s as).bind (fun s' => exec step s' bs)
  | [], bs, s => rfl
  | a :: as, bs, s => by
    simp only [List.cons_append, exec]
    cases step s a with
    | none => rfl
    | some s' => exact exec_append as bs s'

/-! ## Invariants of runs -/

theorem exec_invariant {J : σ → Prop} (hstep : ∀ s a s', J s → step s a = some s' → J s') :
    ∀ (as : List α) {s t : σ}, J s → exec step s as = some t → J t
  | [], s, t, hJ, h => by cases h; exact hJ
  | a :: as, s, t, hJ, h => by
    obtain ⟨s', hs, ht⟩ := exec_cons_some h
    exact exec_invariant hstep as (hstep s a s' hJ hs) ht

/-- Where every step under `C` can be taken and keeps `P`, so can a run whose steps meet `C`. -/
theorem exec_total {P : σ → Prop} {C : σ → α → Prop} (hstep : ∀ s a, P s → C s a → ∃ s', step s a = some s' ∧ P s') :
    ∀ (as : List α) {s : σ}, P s → AllSteps step C s as → ∃ t, exec step s as = some t ∧ P t
  | [], s, hP, _ => ⟨s, rfl, hP⟩
  | a :: as, s, hP, hC => by
    obtain ⟨s', hs, hP'⟩ := hstep s a hP hC.1
    obtain ⟨t, ht, hPt⟩ := exec_total hstep as hP' (hC.2 s' hs)
    exact ⟨t, (exec_cons hs as).trans ht, hPt⟩

theorem exec_map {τ : Type} {step' : τ → α → Option τ} {f : σ → τ} {J : σ → Prop}
    (hJ : ∀ s a s', J s → step s a = some s' → J s') (hf : ∀ s a, J s → (step s a).map f = step' (f s) a) :
    ∀ (as : List α) {s : σ}, J s → (exec step s as).map f = exec step' (f s) as
  | [], _, _ => rfl
  | a :: as, s, hj => by
    have hstep := hf s a hj
    simp only [exec, ← hstep]
    cases hs : step s a with
    | none => rfl
    | some s' => exact exec_map hJ hf as (hJ s a s' hj hs)

theorem AllSteps.and {C D : σ → α → Prop} : ∀ {as : List α} {s : σ},
    AllSteps step C s as → AllSteps step D s as → AllSteps step (fun s a => C s a ∧ D s a) s as
  | [], _, _, _ => trivial
  | _ :: _, _, hc, hd => ⟨⟨hc.1, hd.1⟩, fun s' hs => (hc.2 s' hs).and (hd.2 s' hs)⟩

theorem allSteps_of_forall {C : α → Prop} : ∀ {as : List α} (s : σ), (∀ a ∈ as, C a) → AllSteps step (fun _ a => C a) s as
  | [], _, _ => trivial
  | a :: _, _, h =>
    ⟨h a List.mem_cons_self, fun s' _ => allSteps_of_forall s' fun b hb => h b (List.mem_cons_of_mem a hb)⟩

theorem allSteps_append {C : σ → α → Prop} {bs : List α} : ∀ {as : List α} {s t : σ},
    AllSteps step C s (as ++ bs) → exec step s as = some t → AllSteps step C s as ∧ AllSteps step C t bs
  | [], _, _, h, he => by
    cases he
    exact ⟨trivial, h⟩
  | _ :: _, _, _, h, he => by
    obtain ⟨s', hs, ht⟩ := exec_cons_some he
    obtain ⟨ha, hb⟩ := allSteps_append (h.2 s' hs) ht
    refine ⟨⟨h.1, fun s'' hs'' => ?_⟩, hb⟩
    rw [hs] at hs''
    cases hs''
    exact ha

theorem AllSteps.last {C : σ → α → Prop} {b : α} : ∀ {as : List α} {s t : σ},
    AllSteps step C s (as ++ [b]) → exec step s as = some t → C t b
  | [], _, _, h, he => by cases he; exact h.1
  | _ :: _, _, _, h, he => by
    obtain ⟨s', hs, ht⟩ := exec_cons_some he
    exact (h.2 s' hs).last ht

theorem AllStates.head {P : σ → Prop} {s : σ} : ∀ {as : List α}, AllStates step P s as → P s
  | [], h => h
  | _ :: _, h => h.1

theorem AllStates.last {P : σ → Prop} : ∀ {as : List α} {s t : σ},
    AllStates step P s as → exec step s as = some t → P t
  | [], s, t, h, he => by cases he; exact h
  | a :: as, s, t, h, he => by
    obtain ⟨s', hs, ht⟩ := exec_cons_some he
    exact (h.2 s' hs).last ht

theorem AllStates.mono {P Q : σ → Prop} (h : ∀ s, P s → Q s) : ∀ {as : List α} {s : σ},
    AllStates step P s as → AllStates step Q s as
  | [], s, hp => h s hp
  | _ :: _, s, hp => ⟨h s hp.1, fun s' hs => (hp.2 s' hs).mono h⟩

/-- A property that a step keeps under `C` holds all along a run whose steps meet `C`. -/
theorem allStates_of_allSteps {J P : σ → Prop} {C : σ → α → Prop}
    (hJ : ∀ s a s', J s → step s a = some s' → J s')
    (hP : ∀ s a s', J s → P s → C s a → step s a = some s' → P s') :
    ∀ (as : List α) (s : σ), J s → P s → AllSteps step C s as → AllStates step P s as
  | [], _, _, hp, _ => hp
  | a :: as, s, hj, hp, hc =>
    ⟨hp, fun s' hs => allStates_of_allSteps hJ hP as s' (hJ s a s' hj hs)
      (hP s a s' hj hp hc.1 hs) (hc.2 s' hs)⟩

theorem allStates_of_invariant {J : σ → Prop} (hJ : ∀ s a s', J s → step s a = some s' → J s') :
    ∀ (as : List α) {s : σ}, J s → AllStates step J s as
  | [], _, hj => hj
  | a :: as, s, hj => ⟨hj, fun s' hs => allStates_of_invariant hJ as (hJ s a s' hj hs)⟩

theorem allSteps_of_invariant {J : σ → Prop} {C : σ → α → Prop} (hJ : ∀ s a s', J s → step s a = some s' → J s')
    (hC : ∀ s a, J s → C s a) : ∀ (as : List α) {s : σ}, J s → AllSteps step C s as
  | [], _, _ => trivial
  | a :: as, s, hj => ⟨hC s a hj, fun s' hs => allSteps_of_invariant hJ hC as (hJ s a s' hj hs)⟩

/-- What every step under `C` does, the steps of a run that meets `C` do. -/
theorem allSteps_of_allSteps {J P : σ → Prop} {C D : σ → α → Prop}
    (hJ : ∀ s a s', J s → step s a = some s' → J s')
    (hP : ∀ s a s', J s → P s → C s a → step s a = some s' → P s')
    (hD : ∀ s a, J s → P s → C s a → D s a) :
    ∀ (as : List α) (s : σ), J s → P s → AllSteps step C s as → AllSteps step D s as
  | [], _, _, _, _ => trivial
  | a :: as, s, hj, hp, hc =>
    ⟨hD s a hj hp hc.1, fun s' hs => allSteps_of_allSteps hJ hP hD as s' (hJ s a s' hj hs)
      (hP s a s' hj hp hc.1 hs) (hc.2 s' hs)⟩

/-- Where a step keeps `P` exactly when it meets `C`, a run keeps `P` exactly when its steps
meet `C`. -/
theorem allStates_iff_allSteps {J P : σ → Prop} {C : σ → α → Prop}
    (hJ : ∀ s a s', J s → step s a = some s' → J s')
    (hP : ∀ s a, J s → P s → (C s a ↔ ∀ s', step s a = some s' → P s')) :
    ∀ (as : List α) (s : σ), J s → P s → (AllStates step P s as ↔ AllSteps step C s as)
  | [], _, _, hp => ⟨fun _ => trivial, fun _ => hp⟩
  | a :: as, s, hj, hp => by
    constructor
    · intro h
      refine ⟨(hP s a hj hp).2 fun s' hs => (h.2 s' hs).head, fun s' hs => ?_⟩
      exact (allStates_iff_allSteps hJ hP as s' (hJ s a s' hj hs) (h.2 s' hs).head).1 (h.2 s' hs)
    · intro h
      refine ⟨hp, fun s' hs => ?_⟩
      have hp' : P s' := (hP s a hj hp).1 h.1 s' hs
      exact (allStates_iff_allSteps hJ hP as s' (hJ s a s' hj hs) hp').2 (h.2 s' hs)

/-- The same with a property of the steps besides that of the states. -/
theorem allStates_and_allSteps_iff {J P : σ → Prop} {C D : σ → α → Prop}
    (hJ : ∀ s a s', J s → step s a = some s' → J s')
    (hP : ∀ s a, J s → P s → (C s a ↔ D s a ∧ ∀ s', step s a = some s' → P s')) :
    ∀ (as : List α) (s : σ), J s → P s →
      (AllStates step P s as ∧ AllSteps step D s as ↔ AllSteps step C s as)
  | [], _, _, hp => ⟨fun _ => trivial, fun _ => ⟨hp, trivial⟩⟩
  | a :: as, s, hj, hp => by
    constructor
    · rintro ⟨hs, hd⟩
      refine ⟨(hP s a hj hp).2 ⟨hd.1, fun s' h => (hs.2 s' h).head⟩, fun s' h => ?_⟩
      exact (allStates_and_allSteps_iff hJ hP as s' (hJ s a s' hj h) (hs.2 s' h).head).1
        ⟨hs.2 s' h, hd.2 s' h⟩
    · intro h
      obtain ⟨hd, hp'⟩ := (hP s a hj hp).1 h.1
      have hrest := fun s' hs => (allStates_and_allSteps_iff hJ hP as s' (hJ s a s' hj hs) (hp' s' hs)).2
        (h.2 s' hs)
      exact ⟨⟨hp, fun s' hs => (hrest s' hs).1⟩, hd, fun s' hs => (hrest s' hs).2⟩

end Contiki.Lib
