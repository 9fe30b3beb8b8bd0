/-
Cutting `n` items into pieces, at most `first` in the first piece and at most `rest` in each later one: where the cuts are,
and how many items the last piece has.
-/
import Mathlib.Tactic

namespace Contiki.Lib

section

/-- How many items the piece may have that begins behind the first `k`. -/
def segmentRoom (first rest k : Nat) : Nat := if k = 0 then first else rest

def AtCut (first rest k : Nat) : Prop := k = 0 ∨ first ≤ k ∧ rest ∣ k - first

def lastSegment (first rest n : Nat) : Nat := if n ≤ first then n else (n - first - 1) % rest + 1

variable {first rest n k : Nat}

theorem AtCut.zero : AtCut first rest 0 := .inl rfl

theorem AtCut.next (h : AtCut first rest k) : AtCut first rest (k + segmentRoom first rest k) := by
  unfold segmentRoom
  rcases h with rfl | ⟨hle, hdvd⟩
  · right
    simp
  · right
    split
    · rename_i h₀
      subst h₀
      obtain rfl : first = 0 := by omega
      simp
    · refine ⟨by omega, ?_⟩
      rw [Nat.sub_add_comm hle]
      exact hdvd.add (dvd_refl rest)

theorem AtCut.last (h : AtCut first rest k) (hk : k < n) (hroom : n - k ≤ segmentRoom first rest k) :
    lastSegment first rest n = n - k := by
  unfold segmentRoom at hroom
  unfold lastSegment
  rcases h with rfl | ⟨hle, j, hj⟩
  · rw [if_pos rfl] at hroom
    rw [if_pos (by omega), Nat.sub_zero]
  · split at hroom
    · rename_i h₀
      rw [if_pos (by omega)]
      omega
    · -- the items behind the first piece are `j` whole pieces and the last one
      rw [if_neg (by omega), show n - first - 1 = rest * j + (n - k - 1) by omega, Nat.mul_add_mod,
        Nat.mod_eq_of_lt (by omega)]
      omega

theorem lastSegment_pos (h : 0 < n) : 0 < lastSegment first rest n := by
  unfold lastSegment
  split
  · exact h
  · exact Nat.succ_pos _

end

/-!
Blocks of positions: a finite family of blocks inside a range, no two of which overlap, fills the
range as soon as its lengths add up to it, and never adds up to more; blocks one behind the other.
-/

section

def Apart (p q : Nat × Nat) : Prop := p.1 + p.2 ≤ q.1 ∨ q.1 + q.2 ≤ p.1

theorem Apart.symm {p q : Nat × Nat} (h : Apart p q) : Apart q p := Or.symm h

variable {ι : Type} {s : Finset ι} {block : ι → Nat × Nat} {a n : Nat}

def covered (s : Finset ι) (block : ι → Nat × Nat) : Finset Nat :=
  s.biUnion fun j => Finset.Ico (block j).1 ((block j).1 + (block j).2)

theorem mem_covered {x : Nat} : x ∈ covered s block ↔ ∃ j ∈ s, (block j).1 ≤ x ∧ x < (block j).1 + (block j).2 := by
  simp [covered]

theorem card_covered (hap : ∀ j ∈ s, ∀ k ∈ s, j ≠ k → Apart (block j) (block k)) :
    (covered s block).card = ∑ j ∈ s, (block j).2 := by
  unfold covered
  rw [Finset.card_biUnion]
  · simp
  · intro j hj k hk hjk
    rw [Function.onFun, Finset.disjoint_left]
    intro x hx hx'
    rw [Finset.mem_Ico] at hx hx'
    have := hap j hj k hk hjk
    unfold Apart at this
    omega

theorem covered_subset (hin : ∀ j ∈ s, a ≤ (block j).1 ∧ (block j).1 + (block j).2 ≤ n) :
    covered s block ⊆ Finset.Ico a n := by
  intro x hx
  obtain ⟨j, hj, h1, h2⟩ := mem_covered.1 hx
  have := hin j hj
  rw [Finset.mem_Ico]
  omega

theorem sum_le_of_apart (hin : ∀ j ∈ s, a ≤ (block j).1 ∧ (block j).1 + (block j).2 ≤ n)
    (hap : ∀ j ∈ s, ∀ k ∈ s, j ≠ k → Apart (block j) (block k)) : ∑ j ∈ s, (block j).2 ≤ n - a := by
  rw [← card_covered hap, ← Nat.card_Ico]
  exact Finset.card_le_card (covered_subset hin)

/-- Blocks that add up to the range leave nothing out. -/
theorem cover_of_sum (hin : ∀ j ∈ s, a ≤ (block j).1 ∧ (block j).1 + (block j).2 ≤ n)
    (hap : ∀ j ∈ s, ∀ k ∈ s, j ≠ k → Apart (block j) (block k)) (hsum : n ≤ a + ∑ j ∈ s, (block j).2)
    {x : Nat} (h1 : a ≤ x) (h2 : x < n) : ∃ j ∈ s, (block j).1 ≤ x ∧ x < (block j).1 + (block j).2 := by
  have hfull : covered s block = Finset.Ico a n := by
    refine Finset.eq_of_subset_of_card_le (covered_subset hin) ?_
    rw [card_covered hap, Nat.card_Ico]
    omega
  rw [← mem_covered, hfull, Finset.mem_Ico]
  exact ⟨h1, h2⟩

/-! ## Blocks one behind the other -/

/-- The blocks lead from `a` to `n`, each beginning where the one before it ends. -/
def Consecutive : Nat → List (Nat × Nat) → Nat → Prop
  | a, [], n => a = n
  | a, b :: bs, n => b.1 = a ∧ Consecutive (a + b.2) bs n

theorem Consecutive.sum : ∀ {bs : List (Nat × Nat)} {a : Nat}, Consecutive a bs n → a + (bs.map Prod.snd).sum = n
  | [], _, h => h
  | b :: bs, a, h => by
    have := h.2.sum
    rw [List.map_cons, List.sum_cons]
    omega

theorem Consecutive.inside : ∀ {bs : List (Nat × Nat)} {a : Nat}, Consecutive a bs n →
    ∀ b ∈ bs, a ≤ b.1 ∧ b.1 + b.2 ≤ n
  | [], _, _ => by simp
  | b :: bs, a, h => by
    intro c hc
    rcases List.mem_cons.1 hc with rfl | hc
    · have := h.2.sum
      exact ⟨h.1.ge, by rw [h.1]; omega⟩
    · have := h.2.inside c hc
      omega

theorem Consecutive.pairwise : ∀ {bs : List (Nat × Nat)} {a : Nat}, Consecutive a bs n → bs.Pairwise Apart
  | [], _, _ => .nil
  | b :: bs, a, h => by
    refine .cons (fun c hc => .inl ?_) h.2.pairwise
    have := h.2.inside c hc
    rw [h.1]
    omega

end

end Contiki.Lib
