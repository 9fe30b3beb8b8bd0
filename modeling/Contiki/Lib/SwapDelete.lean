/-
Deletion from an array by moving the last element into the hole, at given places one after the other.
-/
import Mathlib.Tactic
import Mathlib.Data.List.Nodup

namespace Contiki.Lib

variable {α : Type*} {f : Nat → α} {ds : List Nat} {n : Nat}

/-- The array of `n` elements after deletions at `ds`. -/
@[grind =]
def swapDeletes : List Nat → Nat → (Nat → α) → (Nat → α)
  | [], _, f => f
  | d :: ds, n, f => swapDeletes ds (n - 1) (Function.update f d (f (n - 1)))

/-- Where the element that ends up at `p` comes from. -/
def cameFrom (ds : List Nat) (n p : Nat) : Nat := if p ∈ ds then n - 1 - ds.idxOf p else p

/-- Deletions in increasing order fill the holes in what is left from the end. -/
theorem swapDeletes_apply : ∀ {ds : List Nat} {n : Nat} {f : Nat → α} {p : Nat}, ds.Pairwise (· < ·) →
    p + ds.length < n → swapDeletes ds n f p = f (cameFrom ds n p)
  | [], _, _, _, _, _ => rfl
  | d :: ds, n, f, p, hsorted, hp => by
    rw [List.pairwise_cons] at hsorted
    rw [List.length_cons] at hp
    rw [swapDeletes, swapDeletes_apply hsorted.2 (by omega)]
    by_cases hmem : p ∈ ds
    · have hlt := hsorted.1 p hmem
      have hidx := List.idxOf_lt_length_iff.2 hmem
      have hne : d ≠ p := hlt.ne
      have hfrom : cameFrom (d :: ds) n p = cameFrom ds (n - 1) p := by
        rw [cameFrom, cameFrom, if_pos hmem, if_pos (List.mem_cons_of_mem d hmem), List.idxOf_cons_ne _ hne]
        omega
      rw [hfrom, Function.update_of_ne]
      rw [cameFrom, if_pos hmem]
      omega
    · by_cases heq : p = d
      · subst heq
        have hfrom : cameFrom (p :: ds) n p = n - 1 := by
          rw [cameFrom, if_pos List.mem_cons_self, List.idxOf_cons_self, Nat.sub_zero]
        rw [hfrom, cameFrom, if_neg hmem, Function.update_self]
      · have hfrom : cameFrom (d :: ds) n p = p := by
          rw [cameFrom, if_neg]
          exact fun h => hmem (List.mem_of_ne_of_mem heq h)
        rw [hfrom, cameFrom, if_neg hmem, Function.update_of_ne heq]

/-! ## Deletions at any places -/

theorem swapDeletes_map {β : Type*} (g : α → β) : ∀ (ds : List Nat) (n : Nat) (f : Nat → α) (p : Nat),
    swapDeletes ds n (fun i => g (f i)) p = g (swapDeletes ds n f p)
  | [], _, _, _ => rfl
  | d :: ds, n, f, p => by
    rw [swapDeletes, swapDeletes, ← swapDeletes_map g ds]
    congr 1
    funext i
    by_cases hi : i = d
    · rw [hi, Function.update_self, Function.update_self]
    · rw [Function.update_of_ne hi, Function.update_of_ne hi]

theorem swapDeletes_all {P : α → Prop} : ∀ {ds : List Nat} {n : Nat} {f : Nat → α}, (∀ p < n, P (f p)) →
    ∀ p < n - ds.length, P (swapDeletes ds n f p)
  | [], _, _, h, p, hp => h p hp
  | d :: ds, n, f, h, p, hp => by
    rw [List.length_cons] at hp
    rw [swapDeletes]
    refine swapDeletes_all (n := n - 1) (fun q hq => ?_) p (by omega)
    by_cases hqd : q = d
    · rw [hqd, Function.update_self]
      exact h _ (by omega)
    · rw [Function.update_of_ne hqd]
      exact h q (by omega)

theorem swapDeletes_inj : ∀ {ds : List Nat} {n : Nat} {f : Nat → α}, (∀ p < n, ∀ q < n, f p = f q → p = q) →
    ∀ p < n - ds.length, ∀ q < n - ds.length, swapDeletes ds n f p = swapDeletes ds n f q → p = q
  | [], _, _, h, p, hp, q, hq, heq => h p hp q hq heq
  | d :: ds, n, f, h, p, hp, q, hq, heq => by
    rw [List.length_cons] at hp hq
    rw [swapDeletes] at heq
    refine swapDeletes_inj (n := n - 1) (fun a ha b hb hab => ?_) p (by omega) q (by omega) heq
    by_cases had : a = d <;> by_cases hbd : b = d
    · rw [had, hbd]
    · rw [had, Function.update_self, Function.update_of_ne hbd] at hab
      exact absurd (h _ (by omega) _ (by omega) hab) (by omega)
    · rw [hbd, Function.update_self, Function.update_of_ne had] at hab
      exact absurd (h _ (by omega) _ (by omega) hab) (by omega)
    · rw [Function.update_of_ne had, Function.update_of_ne hbd] at hab
      exact h _ (by omega) _ (by omega) hab

/-! ## Deletions in increasing order -/

/-- No hole is filled with an element that is to be deleted. -/
def KeepsLast (ds : List Nat) (n : Nat) : Prop := ∀ d ∈ ds, d + ds.length < n → n - 1 - ds.idxOf d ∉ ds

theorem length_kept_le (hds : ds.Nodup) (hlt : ∀ d ∈ ds, d < n) :
    ((List.range n).filter fun p => p ∉ ds).length + ds.length ≤ n := by
  have hsub : ds.Subperm ((List.range n).filter fun p => p ∈ ds) :=
    List.subperm_of_subset hds fun d hd => List.mem_filter.2 ⟨List.mem_range.2 (hlt d hd), by simpa using hd⟩
  have hsplit := List.length_eq_length_filter_add (l := List.range n) fun p => decide (p ∈ ds)
  have hle := hsub.length_le
  simp only [List.length_range, ← decide_not] at hsplit
  omega

theorem cameFrom_perm (hsorted : ds.Pairwise (· < ·)) (hlt : ∀ d ∈ ds, d < n) (hk : KeepsLast ds n) :
    ((List.range (n - ds.length)).map (cameFrom ds n)).Perm ((List.range n).filter fun p => p ∉ ds) := by
  have hnodup : ds.Nodup := hsorted.imp fun h => h.ne
  have hinj : ∀ p ∈ List.range (n - ds.length), ∀ q ∈ List.range (n - ds.length), cameFrom ds n p = cameFrom ds n q →
      p = q := by
    intro p hp q hq heq
    rw [List.mem_range] at hp hq
    unfold cameFrom at heq
    by_cases hmp : p ∈ ds <;> by_cases hmq : q ∈ ds
    · rw [if_pos hmp, if_pos hmq] at heq
      have hip := List.idxOf_lt_length_iff.2 hmp
      have hiq := List.idxOf_lt_length_iff.2 hmq
      exact (List.idxOf_inj hmp).1 (by omega)
    · rw [if_pos hmp, if_neg hmq] at heq
      have hip := List.idxOf_lt_length_iff.2 hmp
      omega
    · rw [if_neg hmp, if_pos hmq] at heq
      have hiq := List.idxOf_lt_length_iff.2 hmq
      omega
    · rwa [if_neg hmp, if_neg hmq] at heq
  have hsub : (List.range (n - ds.length)).map (cameFrom ds n) ⊆ (List.range n).filter fun p => p ∉ ds := by
    intro q hq
    obtain ⟨p, hp, rfl⟩ := List.mem_map.1 hq
    rw [List.mem_range] at hp
    rw [List.mem_filter, List.mem_range, decide_eq_true_eq]
    unfold cameFrom
    by_cases hmp : p ∈ ds
    · rw [if_pos hmp]
      exact ⟨by omega, hk p hmp (by omega)⟩
    · rw [if_neg hmp]
      exact ⟨by omega, hmp⟩
  refine (List.subperm_of_subset (List.Nodup.map_on hinj List.nodup_range) hsub).perm_of_length_le ?_
  have hle := length_kept_le hnodup hlt
  rw [List.length_map, List.length_range]
  omega

/-- The elements that are not deleted are left, in some order, exactly when no hole is filled with one that is. -/
theorem swapDeletes_perm_iff {P : α → Prop} (hsorted : ds.Pairwise (· < ·)) (hlt : ∀ d ∈ ds, d < n)
    (hbad : ∀ p < n, p ∈ ds ↔ P (f p)) :
    ((List.range (n - ds.length)).map (swapDeletes ds n f)).Perm (((List.range n).filter fun p => p ∉ ds).map f) ↔
      KeepsLast ds n := by
  have hmap : (List.range (n - ds.length)).map (swapDeletes ds n f) =
      ((List.range (n - ds.length)).map (cameFrom ds n)).map f := by
    rw [List.map_map]
    refine List.map_congr_left fun p hp => ?_
    rw [List.mem_range] at hp
    exact swapDeletes_apply hsorted (by omega)
  rw [hmap]
  constructor
  · intro hperm d hd hlen hmem
    have hfrom : cameFrom ds n d = n - 1 - ds.idxOf d := if_pos hd
    have hidx := List.idxOf_lt_length_iff.2 hd
    have hin : f (cameFrom ds n d) ∈ ((List.range n).filter fun p => p ∉ ds).map f :=
      hperm.mem_iff.1 (List.mem_map_of_mem (List.mem_map_of_mem (List.mem_range.2 (by omega))))
    obtain ⟨p, hp, heq⟩ := List.mem_map.1 hin
    rw [List.mem_filter, List.mem_range, decide_eq_true_eq] at hp
    rw [hfrom] at heq
    exact hp.2 ((hbad p hp.1).2 (heq ▸ (hbad _ (by omega)).1 hmem))
  · exact fun hk => (cameFrom_perm hsorted hlt hk).map f

end Contiki.Lib
