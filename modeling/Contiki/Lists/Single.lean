/-
The singly linked lists of list.c keep the sequence that the calls stand for.
-/
import Contiki.Lists.Model
import Contiki.Lib.Linked

namespace Contiki.Lists

open Contiki.Lib

variable {α : Type} {s : State α} {h : Option α} {l l₁ l₂ : List α} {p x : α}

def Single (s : State α) (l : List α) : Prop := Chain s.next s.list l

theorem length_le_card [Fintype α] {next : α → Option α} (hc : Chain next h l) : l.length ≤ Fintype.card α :=
  hc.nodup.length_le_card

/-! ## The loops -/

theorem tailFrom_eq : ∀ {l : List α} {a : α} {k : Nat}, Chain s.next (some a) (a :: l) → (a :: l).length ≤ k →
    tailFrom s k a = some ((a :: l).getLast (List.cons_ne_nil a l))
  | [], a, k + 1, ⟨_, hc⟩, _ => by
    rw [tailFrom, chain_nil.1 hc]
    rfl
  | b :: l, a, k + 1, ⟨_, hc⟩, hk => by
    rw [tailFrom, hc.1]
    dsimp only
    rw [tailFrom_eq ⟨rfl, hc.2⟩ (Nat.le_of_succ_le_succ hk), List.getLast_cons (List.cons_ne_nil b l)]

theorem listTail_eq [Fintype α] (hs : Single s l) : listTail s = some l.getLast? := by
  unfold Single at hs
  unfold listTail
  cases l with
  | nil => rw [chain_nil.1 hs]; rfl
  | cons a l =>
    have hc := hs
    rw [hs.1] at hc ⊢
    dsimp only
    rw [tailFrom_eq hc (length_le_card hc), List.getLast?_eq_some_getLast (List.cons_ne_nil a l)]
    rfl

variable [DecidableEq α]

theorem removeFrom_absent : ∀ {l : List α} {h r : Option α} {k : Nat}, Chain s.next h l → x ∉ l → l.length ≤ k →
    removeFrom s x k r h = some s
  | [], _, r, k, hc, _, _ => by
    rw [chain_nil.1 hc]
    cases k <;> rfl
  | a :: l, _, r, k + 1, ⟨rfl, hc⟩, hx, hk => by
    rw [List.mem_cons, not_or] at hx
    rw [removeFrom, if_neg (Ne.symm hx.1)]
    exact removeFrom_absent hc hx.2 (Nat.le_of_succ_le_succ hk)

theorem removeFrom_found : ∀ {l₁ : List α} {h r : Option α} {k : Nat}, Chain s.next h (l₁ ++ x :: l₂) → x ∉ l₁ →
    (l₁ ++ x :: l₂).length ≤ k → removeFrom s x k r h = some (listUnlink s (l₁.getLast?.or r) x)
  | [], _, r, k + 1, ⟨rfl, _⟩, _, _ => by
    rw [removeFrom, if_pos rfl]
    rfl
  | a :: l₁, _, r, k + 1, ⟨rfl, hc⟩, hx, hk => by
    rw [List.mem_cons, not_or] at hx
    rw [removeFrom, if_neg (Ne.symm hx.1), removeFrom_found hc hx.2 (Nat.le_of_succ_le_succ hk)]
    cases l₁ with
    | nil => rfl
    | cons b l₁ => rw [List.getLast?_cons_cons]; rfl

/-! ## The calls -/

theorem listUnlink_single (hs : Single s (l₁ ++ x :: l₂)) : Single (listUnlink s (l₁.getLast?.or none) x) (l₁ ++ l₂) := by
  have hnd := hs.nodup
  have hx : x ∉ l₁ ∧ x ∉ l₂ := by
    have := (List.nodup_middle.1 hnd)
    rw [List.nodup_cons, List.mem_append, not_or] at this
    exact this.1
  rcases List.eq_nil_or_concat l₁ with rfl | ⟨l₁, u, rfl⟩
  · obtain ⟨hhead, hc⟩ := hs
    exact hc.congr fun y hy => Function.update_of_ne (ne_of_mem_of_not_mem hy hx.2) _ _
  · rw [List.concat_eq_append] at hs hx hnd ⊢
    rw [List.append_assoc, List.singleton_append] at hs
    rw [List.getLast?_append, List.getLast?_singleton, Option.some_or, Option.some_or, List.append_assoc,
      List.singleton_append]
    have hux : u ≠ x := fun he => hx.1 (he ▸ List.mem_append_right l₁ (List.mem_singleton_self u))
    have hnd' := hs.nodup
    have hu : u ∉ l₁ ∧ u ∉ x :: l₂ := by
      have := (List.nodup_middle.1 hnd')
      rw [List.nodup_cons, List.mem_append, not_or] at this
      exact this.1
    refine Chain.unlink hs ?_ (fun y hy => ?_) fun y hy => ?_
    · show Function.update (Function.update s.next u (s.next x)) x none u = _
      rw [Function.update_of_ne hux, Function.update_self]
    · show Function.update (Function.update s.next u (s.next x)) x none y = _
      rw [Function.update_of_ne (ne_of_mem_of_not_mem (List.mem_append_left [u] hy) hx.1),
        Function.update_of_ne (ne_of_mem_of_not_mem hy hu.1)]
    · show Function.update (Function.update s.next u (s.next x)) x none y = _
      rw [Function.update_of_ne (ne_of_mem_of_not_mem hy hx.2),
        Function.update_of_ne (ne_of_mem_of_not_mem (List.mem_cons_of_mem x hy) hu.2)]

variable [Fintype α]

theorem listRemove_single (hs : Single s l) (x : α) : ∃ t, listRemove s x = some t ∧ Single t (l.erase x) := by
  have hlen := length_le_card hs
  by_cases hx : x ∈ l
  · obtain ⟨l₁, l₂, rfl, hx₁⟩ := List.eq_append_cons_of_mem hx
    refine ⟨_, removeFrom_found hs hx₁ hlen, ?_⟩
    rw [List.erase_append_right _ hx₁, List.erase_cons_head]
    exact listUnlink_single hs
  · refine ⟨s, removeFrom_absent hs hx hlen, ?_⟩
    rw [List.erase_of_not_mem hx]
    exact hs

omit [Fintype α] in
theorem splice_single {t : State α} {u : α} (ht : Single t (l₁ ++ u :: l₂)) (hx : x ∉ l₁ ++ u :: l₂) :
    Single ((t.setNext x (t.next u)).setNext u (some x)) (l₁ ++ u :: x :: l₂) := by
  have hu : u ∉ l₁ ∧ u ∉ l₂ := by
    have := List.nodup_middle.1 ht.nodup
    rw [List.nodup_cons, List.mem_append, not_or] at this
    exact this.1
  rw [List.mem_append, List.mem_cons, not_or, not_or] at hx
  refine Chain.splice ht (Function.update_self _ _ _) ?_ (fun y hy => ?_) fun y hy => ?_
  · exact (Function.update_of_ne hx.2.1 _ _).trans (Function.update_self _ _ _)
  · exact (Function.update_of_ne (ne_of_mem_of_not_mem hy hu.1) _ _).trans
      (Function.update_of_ne (ne_of_mem_of_not_mem hy hx.1) _ _)
  · exact (Function.update_of_ne (ne_of_mem_of_not_mem hy hu.2) _ _).trans
      (Function.update_of_ne (ne_of_mem_of_not_mem hy hx.2.2) _ _)

theorem listAdd_single (hs : Single s l) (x : α) : ∃ t, listAdd s x = some t ∧ Single t (l.erase x ++ [x]) := by
  obtain ⟨t, ht, hc⟩ := listRemove_single hs x
  have hx : x ∉ l.erase x := hs.nodup.not_mem_erase
  have hc' : Single (t.setNext x none) (l.erase x) :=
    Chain.congr hc fun y hy => Function.update_of_ne (ne_of_mem_of_not_mem hy hx) _ _
  unfold listAdd
  rw [ht]
  dsimp only [Option.bind_eq_bind, Option.bind_some]
  rw [listTail_eq hc']
  dsimp only [Option.bind_some]
  rcases List.eq_nil_or_concat (l.erase x) with hnil | ⟨l', u, hl⟩
  · rw [hnil]
    exact ⟨_, rfl, rfl, Function.update_self _ _ _⟩
  · rw [List.concat_eq_append] at hl
    rw [hl] at hc hx ⊢
    rw [List.getLast?_append, List.getLast?_singleton, Option.some_or, List.append_assoc, List.singleton_append]
    refine ⟨_, rfl, ?_⟩
    -- the last element has no next one
    have hu : t.next u = none := by
      have hlast := Chain.suffix (show Chain t.next t.list (l' ++ u :: []) from hc)
      exact hlast.2
    have := splice_single (show Single t (l' ++ u :: []) from hc) hx
    rw [hu] at this
    exact this

end Contiki.Lists
