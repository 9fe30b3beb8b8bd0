/-
Histories: a list of events, the latest first, and what holds since an event of one kind because none of another kind
came later.
-/
import Mathlib.Tactic

namespace Contiki.Lib

variable {ε : Type}

/-- An event of `on` happened, and none of `off` after it. -/
def Since (on off : ε → Prop) (history : List ε) : Prop :=
  ∃ later e earlier, history = later ++ e :: earlier ∧ on e ∧ ∀ e' ∈ later, ¬ off e'

variable {on off : ε → Prop} {e : ε} {es history : List ε}

theorem since_nil : ¬ Since on off [] := by
  rintro ⟨later, e, earlier, h, -⟩
  simp at h

theorem since_cons : Since on off (e :: history) ↔ on e ∨ ¬ off e ∧ Since on off history := by
  constructor
  · rintro ⟨later, e₁, earlier, h, hon, hoff⟩
    cases later with
    | nil =>
      simp only [List.nil_append, List.cons.injEq] at h
      exact .inl (h.1 ▸ hon)
    | cons e₂ later =>
      simp only [List.cons_append, List.cons.injEq] at h
      refine .inr ⟨h.1 ▸ hoff e₂ (by simp), later, e₁, earlier, h.2, hon, fun e' he' => hoff e' (by simp [he'])⟩
  · rintro (hon | ⟨hne, later, e₁, earlier, rfl, hon, hoff⟩)
    · exact ⟨[], e, history, rfl, hon, by simp⟩
    · refine ⟨e :: later, e₁, earlier, rfl, hon, fun e' he' => ?_⟩
      rcases List.mem_cons.1 he' with rfl | he'
      · exact hne
      · exact hoff e' he'

/-- Events that are not of the first kind can only end it. -/
theorem since_append (hon : ∀ e ∈ es, ¬ on e) :
    Since on off (es ++ history) ↔ (∀ e ∈ es, ¬ off e) ∧ Since on off history := by
  induction es with
  | nil => simp
  | cons e es ih =>
    rw [List.cons_append, since_cons, ih fun e' he' => hon e' (by simp [he'])]
    simp [hon e (by simp), and_assoc]

end Contiki.Lib
