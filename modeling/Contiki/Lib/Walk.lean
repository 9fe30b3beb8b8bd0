/-
Following a partial function: where a number of steps leads, the relation of what can be reached, and
the bound that a finite set closed under the function puts on the number of steps.
-/
import Mathlib.Tactic

namespace Contiki.Lib

variable {α : Type} {next next' : α → Option α} {a b c : α}

@[grind =]
def walk (next : α → Option α) : Nat → α → Option α
  | 0, a => some a
  | k + 1, a => (next a).bind (walk next k)

/-- `b` lies on the path of `a`. -/
def Leads (next : α → Option α) : α → α → Prop := Relation.ReflTransGen fun a b => next a = some b

theorem leads_iff : Leads next a b ↔ ∃ k, walk next k a = some b := by
  constructor
  · intro h
    induction h using Relation.ReflTransGen.head_induction_on with
    | refl => exact ⟨0, rfl⟩
    | head hab _ ih =>
      obtain ⟨k, hk⟩ := ih
      exact ⟨k + 1, by simp [walk, hab, hk]⟩
  · rintro ⟨k, hk⟩
    induction k generalizing a with
    | zero =>
      cases hk
      exact .refl
    | succ k ih =>
      simp only [walk] at hk
      obtain ⟨m, hm, hw⟩ := Option.bind_eq_some_iff.1 hk
      exact .head hm (ih hw)

theorem walk_add (j k : Nat) (a : α) : walk next (j + k) a = (walk next j a).bind (walk next k) := by
  induction j generalizing a with
  | zero => simp [walk]
  | succ j ih =>
    rw [show j + 1 + k = (j + k) + 1 by omega]
    simp only [walk, Option.bind_assoc]
    congr 1
    funext m
    exact ih m

theorem walk_closed {l : List α} (hl : ∀ x ∈ l, ∀ y, next x = some y → y ∈ l) :
    ∀ (k : Nat) {a : α}, a ∈ l → walk next k a = some b → b ∈ l
  | 0, a, ha, h => by cases h; exact ha
  | k + 1, a, ha, h => by
    simp only [walk] at h
    obtain ⟨m, hm, hw⟩ := Option.bind_eq_some_iff.1 h
    exact walk_closed hl k (hl a ha m hm) hw

/-- Within a finite set closed under the function, what is reached is reached in fewer steps than
the set has places. -/
theorem short_walk {l : List α} (hl : ∀ x ∈ l, ∀ y, next x = some y → y ∈ l) (ha : a ∈ l)
    (h : Leads next a b) : ∃ k < l.length, walk next k a = some b := by
  classical
  have hex : ∃ k, walk next k a = some b := leads_iff.1 h
  refine ⟨Nat.find hex, ?_, Nat.find_spec hex⟩
  -- the places of a shortest walk are pairwise different
  have hsome : ∀ i ≤ Nat.find hex, ∃ m ∈ l, walk next i a = some m := by
    intro i hi
    have hw := Nat.find_spec hex
    rw [show Nat.find hex = i + (Nat.find hex - i) by omega, walk_add] at hw
    obtain ⟨m, hm, -⟩ := Option.bind_eq_some_iff.1 hw
    exact ⟨m, walk_closed hl i ha hm, hm⟩
  have hne : ∀ i j, i < j → j ≤ Nat.find hex → walk next i a ≠ walk next j a := by
    intro i j hij hj he
    have hw := Nat.find_spec hex
    rw [show Nat.find hex = j + (Nat.find hex - j) by omega, walk_add, ← he, ← walk_add] at hw
    have := Nat.find_min hex (show i + (Nat.find hex - j) < Nat.find hex by omega)
    exact this hw
  have hnodup : ((List.range (Nat.find hex + 1)).map fun i => walk next i a).Nodup := by
    refine List.Nodup.map_on ?_ List.nodup_range
    intro i hi j hj he
    rw [List.mem_range] at hi hj
    by_contra hij
    rcases Nat.lt_or_gt_of_ne hij with hlt | hlt
    · exact hne i j hlt (by omega) he
    · exact hne j i hlt (by omega) he.symm
  have hsub : (List.range (Nat.find hex + 1)).map (fun i => walk next i a) ⊆ l.map some := by
    intro o ho
    obtain ⟨i, hi, rfl⟩ := List.mem_map.1 ho
    rw [List.mem_range] at hi
    obtain ⟨m, hm, hw⟩ := hsome i (by omega)
    rw [hw]
    exact List.mem_map_of_mem hm
  have hle := (hnodup.subperm hsub).length_le
  simp only [List.length_map, List.length_range] at hle
  omega

/-! ## Changing the function -/

theorem Leads.mono (h : Leads next a b) (hsame : ∀ x, Leads next a x → Leads next x b → x ≠ b →
    next' x = next x) : Leads next' a b := by
  induction h using Relation.ReflTransGen.head_induction_on with
  | refl => exact .refl
  | @head x y hxy hyb ih =>
    by_cases hx : x = b
    · rw [hx]
      exact .refl
    · have he : next' x = some y := (hsame x .refl (.head hxy hyb) hx).trans hxy
      exact .head he (ih fun z hz hzb hne => hsame z (.head hxy hz) hzb hne)

/-- Redirecting one place `c`: what reached `b` still does, if `c` does or did not before. -/
theorem Leads.redirect (h : Leads next a b) (hsame : ∀ x, x ≠ c → next' x = next x)
    (hc : Leads next c b → Leads next' c b) : Leads next' a b := by
  induction h using Relation.ReflTransGen.head_induction_on with
  | refl => exact .refl
  | @head x y hxy hyb ih =>
    by_cases hx : x = c
    · rw [hx]
      exact hc (hx ▸ .head hxy hyb)
    · exact .head ((hsame x hx).trans hxy) ih

end Contiki.Lib
