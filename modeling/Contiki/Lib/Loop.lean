/-
A loop as a function that gives the next state or the result. Whether the loop ends well is decided round by round, when
every round in which the condition holds keeps the invariant, and a round in which it does not hold spoils the result.
-/
import Mathlib.Tactic

namespace Contiki.Lib

variable {σ ρ : Type} {step : σ → σ ⊕ ρ} {s s' t : σ} {r : ρ} {fuel : Nat}

/-- The result of a loop that ends within `fuel` rounds. -/
@[grind =]
def loop (step : σ → σ ⊕ ρ) : Nat → σ → Option ρ
  | 0, _ => none
  | fuel + 1, s => match step s with
    | .inl s' => loop step fuel s'
    | .inr r => some r

def Comes (step : σ → σ ⊕ ρ) : σ → σ → Prop := Relation.ReflTransGen fun s s' => step s = .inl s'

theorem loop_next (h : step s = .inl s') (fuel : Nat) : loop step (fuel + 1) s = loop step fuel s' := by
  simp only [loop, h]

theorem loop_end (h : step s = .inr r) (fuel : Nat) : loop step (fuel + 1) s = some r := by
  simp only [loop, h]

theorem loop_cases (h : loop step (fuel + 1) s = some r) :
    (∃ s', step s = .inl s' ∧ loop step fuel s' = some r) ∨ step s = .inr r := by
  simp only [loop] at h
  cases hs : step s with
  | inl s' =>
    rw [hs] at h
    exact .inl ⟨s', rfl, h⟩
  | inr r' =>
    rw [hs] at h
    cases h
    exact .inr rfl

theorem loop_add : ∀ {fuel : Nat} {s : σ} (k : Nat), loop step fuel s = some r → loop step (fuel + k) s = some r
  | 0, s, _, h => by cases h
  | fuel + 1, s, k, h => by
    rw [Nat.add_right_comm]
    rcases loop_cases h with ⟨s', hs, h⟩ | hs
    · rw [loop_next hs]
      exact loop_add k h
    · exact loop_end hs _

theorem loop_unique {fuel' : Nat} {r' : ρ} (h : loop step fuel s = some r) (h' : loop step fuel' s = some r') :
    r = r' := by
  have h := loop_add fuel' h
  have h' := loop_add fuel h'
  rw [Nat.add_comm] at h'
  exact Option.some.inj (h.symm.trans h')

/-- From any state that the loop comes to, it has the same result. -/
theorem loop_of_comes (h : Comes step s t) (ht : loop step fuel t = some r) : ∃ fuel, loop step fuel s = some r := by
  induction h using Relation.ReflTransGen.head_induction_on with
  | refl => exact ⟨fuel, ht⟩
  | head hs _ ih =>
    obtain ⟨fuel, h⟩ := ih
    exact ⟨fuel + 1, (loop_next hs fuel).trans h⟩

theorem loop_computes {α : Type} {f : σ → α} {g : ρ → α} (hnext : ∀ s s', step s = .inl s' → f s' = f s)
    (hend : ∀ s r, step s = .inr r → g r = f s) :
    ∀ {fuel : Nat} {s : σ}, loop step fuel s = some r → g r = f s
  | 0, _, h => by cases h
  | fuel + 1, s, h => by
    rcases loop_cases h with ⟨s', hs, h⟩ | hs
    · exact (loop_computes hnext hend h).trans (hnext s s' hs)
    · exact hend s r hs

section

variable {I C B : σ → Prop} {G : ρ → Prop} {μ : σ → Nat}

/-- A loop whose rounds keep an invariant and make a measure smaller ends within more rounds than that. -/
theorem loop_within (hnext : ∀ s s', I s → step s = .inl s' → I s' ∧ μ s' < μ s)
    (hend : ∀ s r, I s → step s = .inr r → G r) :
    ∀ {fuel : Nat} {s : σ}, μ s < fuel → I s → ∃ r, loop step fuel s = some r ∧ G r
  | 0, _, hμ, _ => absurd hμ (Nat.not_lt_zero _)
  | fuel + 1, s, hμ, hI => by
    cases hs : step s with
    | inl s' =>
      obtain ⟨hI', hlt⟩ := hnext s s' hI hs
      rw [loop_next hs]
      exact loop_within hnext hend (by omega) hI'
    | inr r => exact ⟨r, loop_end hs fuel, hend s r hI hs⟩

def Spoils (step : σ → σ ⊕ ρ) (B : σ → Prop) (G : ρ → Prop) (s : σ) : Prop :=
  (∀ s', step s = .inl s' → B s') ∧ ∀ r, step s = .inr r → ¬ G r

/-- The loop ends, and ends well, when every round meets the condition. -/
theorem loop_ends (hnext : ∀ s s', I s → C s → step s = .inl s' → I s' ∧ μ s' < μ s)
    (hend : ∀ s r, I s → C s → step s = .inr r → G r) :
    ∀ (n : Nat) (s : σ), μ s ≤ n → I s → (∀ t, Comes step s t → C t) → ∃ fuel r, loop step fuel s = some r ∧ G r := by
  intro n
  induction n with
  | zero =>
    intro s hμ hI hC
    cases hs : step s with
    | inl s' =>
      have := (hnext s s' hI (hC s .refl) hs).2
      omega
    | inr r => exact ⟨1, r, loop_end hs 0, hend s r hI (hC s .refl) hs⟩
  | succ n ih =>
    intro s hμ hI hC
    cases hs : step s with
    | inl s' =>
      obtain ⟨hI', hlt⟩ := hnext s s' hI (hC s .refl) hs
      obtain ⟨fuel, r, hloop, hgood⟩ := ih s' (by omega) hI' fun t ht => hC t (.head hs ht)
      exact ⟨fuel + 1, r, (loop_next hs fuel).trans hloop, hgood⟩
    | inr r => exact ⟨1, r, loop_end hs 0, hend s r hI (hC s .refl) hs⟩

theorem loop_bad (hbad : ∀ s, B s → Spoils step B G s) :
    ∀ {fuel : Nat} {s : σ}, B s → loop step fuel s = some r → ¬ G r
  | 0, _, _, h => by cases h
  | fuel + 1, s, hs, h => by
    rcases loop_cases h with ⟨s', he, h⟩ | he
    · exact loop_bad hbad ((hbad s hs).1 s' he) h
    · exact (hbad s hs).2 r he

/-- The loop ends well exactly when every round meets the condition. -/
theorem loop_good_iff (hnext : ∀ s s', I s → C s → step s = .inl s' → I s' ∧ μ s' < μ s)
    (hend : ∀ s r, I s → C s → step s = .inr r → G r) (hspoil : ∀ s, I s → ¬ C s → Spoils step B G s)
    (hbad : ∀ s, B s → Spoils step B G s) (hI : I s) :
    (∃ fuel r, loop step fuel s = some r ∧ G r) ↔ ∀ t, Comes step s t → C t := by
  constructor
  · rintro ⟨fuel, r, h, hgood⟩
    induction fuel generalizing s with
    | zero => cases h
    | succ fuel ih =>
      have hC : C s := by
        by_contra hC
        rcases loop_cases h with ⟨s', he, h⟩ | he
        · exact loop_bad hbad ((hspoil s hI hC).1 s' he) h hgood
        · exact (hspoil s hI hC).2 r he hgood
      intro t ht
      rcases Relation.ReflTransGen.cases_head ht with rfl | ⟨s', he, ht⟩
      · exact hC
      · refine ih (hnext s s' hI hC he).1 ?_ t ht
        rwa [loop_next he] at h
  · exact loop_ends hnext hend (μ s) s le_rfl hI

end

end Contiki.Lib
