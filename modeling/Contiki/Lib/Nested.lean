/-
Lists that are kept in parts, one part for each key: what replacing one part does to the whole.
-/
import Mathlib.Tactic

namespace Contiki.Lib

variable {α β : Type} [DecidableEq α] {keys : List α} {parts : α → List β} {k : α} {ys : List β} {x : β}

theorem flatMap_update_off (h : k ∉ keys) : keys.flatMap (Function.update parts k ys) = keys.flatMap parts := by
  apply List.flatMap_congr
  intro k' hk'
  have hne : k' ≠ k := by
    rintro rfl
    exact h hk'
  rw [Function.update_of_ne hne]

theorem flatMap_update_perm (h : k ∈ keys) (hn : keys.Nodup) (parts : α → List β) (ys : List β) :
    (keys.flatMap (Function.update parts k ys) ++ parts k).Perm (keys.flatMap parts ++ ys) := by
  induction keys with
  | nil => cases h
  | cons k' keys ih =>
    obtain ⟨hk', hn⟩ := List.nodup_cons.1 hn
    rw [List.flatMap_cons, List.flatMap_cons]
    by_cases hkk : k' = k
    · subst hkk
      rw [Function.update_self, flatMap_update_off hk']
      calc (ys ++ keys.flatMap parts ++ parts k').Perm (parts k' ++ (ys ++ keys.flatMap parts)) := List.perm_append_comm
        _ |>.Perm (parts k' ++ (keys.flatMap parts ++ ys)) := List.perm_append_comm.append_left _
        _ = parts k' ++ keys.flatMap parts ++ ys := (List.append_assoc _ _ _).symm
    · rw [Function.update_of_ne hkk, List.append_assoc, List.append_assoc]
      exact (ih ((List.mem_cons.1 h).resolve_left (Ne.symm hkk)) hn).append_left _

theorem flatMap_append_perm (h : k ∈ keys) (hn : keys.Nodup) :
    (keys.flatMap (Function.update parts k (parts k ++ [x]))).Perm (x :: keys.flatMap parts) := by
  have hp := flatMap_update_perm h hn parts (parts k ++ [x])
  refine (List.perm_append_right_iff (parts k)).1 ?_
  refine hp.trans ?_
  rw [← List.append_assoc, List.cons_append]
  exact List.perm_append_singleton _ _

theorem flatMap_erase_perm [DecidableEq β] (h : k ∈ keys) (hn : keys.Nodup) (hx : x ∈ parts k) :
    (x :: keys.flatMap (Function.update parts k ((parts k).erase x))).Perm (keys.flatMap parts) := by
  have hp := flatMap_update_perm h hn parts ((parts k).erase x)
  have hpart : (parts k).Perm (x :: (parts k).erase x) := List.perm_cons_erase hx
  refine (List.perm_append_right_iff ((parts k).erase x)).1 ?_
  calc (x :: keys.flatMap (Function.update parts k ((parts k).erase x)) ++ (parts k).erase x).Perm
        (keys.flatMap (Function.update parts k ((parts k).erase x)) ++ x :: (parts k).erase x) :=
          List.perm_middle.symm
    _ |>.Perm (keys.flatMap (Function.update parts k ((parts k).erase x)) ++ parts k) := hpart.symm.append_left _
    _ |>.Perm (keys.flatMap parts ++ (parts k).erase x) := hp

end Contiki.Lib
