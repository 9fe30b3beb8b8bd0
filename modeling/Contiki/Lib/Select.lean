/-
A list from which the first item that passes a test is taken out, against the list without all items that are meant: a
test that lets more items pass takes out the right ones exactly when its first one is the only one meant.
-/
import Mathlib.Tactic
import Mathlib.Data.List.Basic

namespace Contiki.Lib

section

variable {α : Type} {loose exact : α → Bool} {l : List α}

/-- The first item that the test finds is the only one meant; without one there is nothing to take out. -/
def FirstOnly (loose exact : α → Bool) (l : List α) : Prop := ∀ a, l.find? loose = some a → l.filter exact = [a]

/-- The items that are not meant, with one of them in front, are not the list they came from. -/
theorem cons_filter_ne (a : α) (l : List α) (ha : exact a = false) : a :: l.filter (fun b => !exact b) ≠ l := by
  induction l with
  | nil => exact List.cons_ne_nil _ _
  | cons b l ih =>
    intro h
    obtain ⟨rfl, h⟩ := List.cons.inj h
    rw [List.filter_cons_of_pos (by rw [ha]; rfl)] at h
    exact ih h

theorem eraseP_eq_filter_iff (h : ∀ a ∈ l, exact a = true → loose a = true) :
    l.eraseP loose = l.filter (fun a => !exact a) ↔ FirstOnly loose exact l := by
  unfold FirstOnly
  induction l with
  | nil => exact iff_of_true rfl fun a ha => nomatch ha
  | cons b l ih =>
    by_cases hb : loose b = true
    · rw [List.eraseP_cons_of_pos hb, List.find?_cons_of_pos hb]
      by_cases he : exact b = true
      · rw [List.filter_cons_of_neg (by rw [he]; decide), List.filter_cons_of_pos he]
        constructor
        · rintro hl a ⟨⟩
          have hnone : l.filter exact = [] := by
            rw [hl, List.filter_filter, List.filter_eq_nil_iff]
            intro a _
            simp
          rw [hnone]
        · intro hall
          have hnone := (List.cons.inj (hall b rfl)).2
          rw [eq_comm, List.filter_eq_self]
          intro a ha
          simpa using List.filter_eq_nil_iff.1 hnone a ha
      · rw [Bool.not_eq_true] at he
        rw [List.filter_cons_of_pos (by rw [he]; rfl), List.filter_cons_of_neg (by rw [he]; decide)]
        refine iff_of_false (fun hl => cons_filter_ne b l he hl.symm) fun hall => ?_
        have hmem : b ∈ l.filter exact := by
          rw [hall b rfl]
          exact List.mem_singleton_self b
        rw [(List.mem_filter.1 hmem).2] at he
        cases he
    · have he : exact b = false := by
        rw [← Bool.not_eq_true]
        exact fun he => hb (h b List.mem_cons_self he)
      rw [List.eraseP_cons_of_neg hb, List.find?_cons_of_neg hb, List.filter_cons_of_pos (by rw [he]; rfl),
        List.filter_cons_of_neg (by rw [he]; decide), List.cons.injEq, and_iff_right rfl]
      exact ih fun a ha => h a (List.mem_cons_of_mem b ha)

end

/-!
One pass over a list for its earliest elements: each element has a time, a smaller time starts over, and the elements of
the same time are combined in their order. The pass is a fold over the earliest elements alone.
-/

section

section

variable {β γ : Type} (time : β → Nat) (start : β → γ) (combine : γ → β → γ)

def earliestRound (acc : Option (Nat × γ)) (x : β) : Option (Nat × γ) :=
  match acc with
  | none => some (time x, start x)
  | some (t, c) =>
    if time x < t then some (time x, start x)
    else if time x = t then some (t, combine c x)
    else some (t, c)

variable {time start combine} {t : Nat} {c : γ} {x : β} {xs : List β}

/-- What the pass over `xs` has found: the least time, and the fold over the elements that have it. -/
structure Earliest (time : β → Nat) (start : β → γ) (combine : γ → β → γ) (xs : List β) (t : Nat) (c : γ) : Prop where
  least : ∀ y ∈ xs, t ≤ time y
  fold : ∃ x rest, xs.filter (fun y => decide (time y = t)) = x :: rest ∧ c = rest.foldl combine (start x)

theorem earliest_singleton (x : β) : Earliest time start combine [x] (time x) (start x) where
  least := by
    intro y hy
    rw [List.mem_singleton.1 hy]
  fold := ⟨x, [], by simp, rfl⟩

theorem Earliest.round (h : Earliest time start combine xs t c) (x : β) :
    ∃ t' c', earliestRound time start combine (some (t, c)) x = some (t', c') ∧
      Earliest time start combine (xs ++ [x]) t' c' := by
  obtain ⟨y, rest, hfilter, hc⟩ := h.fold
  unfold earliestRound
  dsimp only
  by_cases hlt : time x < t
  · refine ⟨time x, start x, if_pos hlt, ?_, x, [], ?_, rfl⟩
    · intro z hz
      rcases List.mem_append.1 hz with hz | hz
      · exact hlt.le.trans (h.least z hz)
      · rw [List.mem_singleton.1 hz]
    · -- none of the elements before has the smaller time
      have hnone : xs.filter (fun z => decide (time z = time x)) = [] := by
        rw [List.filter_eq_nil_iff]
        intro z hz
        have := h.least z hz
        rw [decide_eq_true_iff]
        omega
      simp [List.filter_append, hnone]
  · rw [if_neg hlt]
    by_cases heq : time x = t
    · refine ⟨t, combine c x, if_pos heq, ?_, y, rest ++ [x], ?_, ?_⟩
      · intro z hz
        rcases List.mem_append.1 hz with hz | hz
        · exact h.least z hz
        · rw [List.mem_singleton.1 hz, heq]
      · simp [List.filter_append, hfilter, heq]
      · rw [List.foldl_append, ← hc]
        rfl
    · refine ⟨t, c, if_neg heq, ?_, y, rest, ?_, hc⟩
      · intro z hz
        rcases List.mem_append.1 hz with hz | hz
        · exact h.least z hz
        · rw [List.mem_singleton.1 hz]
          omega
      · simp [List.filter_append, hfilter, heq]

theorem Earliest.foldl : ∀ (ys : List β) {xs : List β} {t : Nat} {c : γ}, Earliest time start combine xs t c →
    ∃ t' c', ys.foldl (earliestRound time start combine) (some (t, c)) = some (t', c') ∧
      Earliest time start combine (xs ++ ys) t' c'
  | [], _, t, c, h => ⟨t, c, rfl, by rwa [List.append_nil]⟩
  | y :: ys, _, _, _, h => by
    obtain ⟨t', c', hround, h'⟩ := h.round y
    obtain ⟨t'', c'', hfold, h''⟩ := Earliest.foldl ys h'
    refine ⟨t'', c'', ?_, ?_⟩
    · rw [List.foldl_cons, hround, hfold]
    · rwa [List.append_assoc] at h''

theorem foldl_earliestRound (xs : List β) : (xs = [] ∧ xs.foldl (earliestRound time start combine) none = none) ∨
    ∃ t c, xs.foldl (earliestRound time start combine) none = some (t, c) ∧ Earliest time start combine xs t c := by
  cases xs with
  | nil => exact .inl ⟨rfl, rfl⟩
  | cons x xs =>
    have hx : Earliest time start combine [x] (time x) (start x) := earliest_singleton x
    obtain ⟨t, c, hfold, h⟩ := Earliest.foldl xs hx
    exact .inr ⟨t, c, hfold, h⟩

end

/-! ## The first least element -/

section

variable {β κ : Type} [LinearOrder κ] {key : β → κ} {xs ys pre pre' aft aft' : List β} {x y z : β}

/-- `x` is the first of the elements of `xs` with the least key. -/
structure FirstLeast (key : β → κ) (xs pre : List β) (x : β) (aft : List β) : Prop where
  split : xs = pre ++ x :: aft
  before : ∀ y ∈ pre, key x < key y
  after : ∀ y ∈ aft, key x ≤ key y

theorem FirstLeast.mem (h : FirstLeast key xs pre x aft) : x ∈ xs := h.split ▸ List.mem_append_right _ List.mem_cons_self

theorem FirstLeast.mem_iff (h : FirstLeast key xs pre x aft) : y ∈ xs ↔ y = x ∨ y ∈ pre ++ aft := by
  rw [h.split]
  simp only [List.mem_append, List.mem_cons]
  tauto

theorem FirstLeast.le (h : FirstLeast key xs pre x aft) (hy : y ∈ xs) : key x ≤ key y := by
  rcases h.mem_iff.1 hy with rfl | hy
  · exact le_rfl
  · rcases List.mem_append.1 hy with hy | hy
    · exact (h.before y hy).le
    · exact h.after y hy

theorem FirstLeast.unique (h : FirstLeast key xs pre x aft) (h' : FirstLeast key xs pre' y aft') :
    pre = pre' ∧ x = y ∧ aft = aft' := by
  -- neither can lie before the other
  have apart : ∀ {pre pre' aft aft' a : List β} {x y : β}, FirstLeast key xs pre x aft →
      FirstLeast key xs pre' y aft' → pre' = pre ++ a → x :: aft = a ++ y :: aft' → a = [] := by
    intro pre pre' aft aft' a x y h h' hpre haft
    cases a with
    | nil => rfl
    | cons z a =>
      obtain ⟨rfl, -⟩ := List.cons.inj haft
      have hlt := h'.before x (by simp [hpre])
      exact absurd (h.le h'.mem) (not_le.2 hlt)
  rcases List.append_eq_append_iff.1 (h.split.symm.trans h'.split) with ⟨a, hpre, haft⟩ | ⟨a, hpre, haft⟩
  · obtain rfl := apart h h' hpre haft
    obtain ⟨rfl, rfl⟩ := List.cons.inj haft
    exact ⟨by simpa using hpre.symm, rfl, rfl⟩
  · obtain rfl := apart h' h hpre haft
    obtain ⟨rfl, rfl⟩ := List.cons.inj haft
    exact ⟨by simpa using hpre, rfl, rfl⟩

theorem firstLeast_singleton (x : β) : FirstLeast key [x] [] x [] := ⟨rfl, by simp, by simp⟩

theorem FirstLeast.below (h : FirstLeast key xs pre x aft) (hy : key y < key x) :
    FirstLeast key (xs ++ [y]) xs y [] where
  split := rfl
  before := fun _ hz => hy.trans_le (h.le hz)
  after := by simp

theorem FirstLeast.notBelow (h : FirstLeast key xs pre x aft) (hy : ¬ key y < key x) :
    FirstLeast key (xs ++ [y]) pre x (aft ++ [y]) where
  split := by rw [h.split, List.append_assoc, List.cons_append]
  before := h.before
  after := by
    intro z hz
    rcases List.mem_append.1 hz with hz | hz
    · exact h.after z hz
    · rw [List.mem_singleton.1 hz]
      exact not_lt.1 hy

end

end

/-!
A fold that selects one element of a list by a comparison that need not be associative: an element that is kept against
every other is selected, wherever it stands.
-/

section

variable {α : Type} {f : Option α → α → Option α} {x : α} {l : List α}

theorem foldl_keeps (hleft : ∀ y ∈ l, f (some x) y = some x) : l.foldl f (some x) = some x := by
  induction l with
  | nil => rfl
  | cons y l ih =>
    rw [List.foldl_cons, hleft y List.mem_cons_self]
    exact ih fun z hz => hleft z (List.mem_cons_of_mem y hz)

/-- One of the elements is selected before the one that is kept against all others comes, which is selected then. -/
theorem foldl_reaches {s : List α} : ∀ {l : List α} {y : α}, l ⊆ s → y ∈ s → x ∈ l →
    (∀ y ∈ s, ∀ z ∈ s, f (some y) z = some y ∨ f (some y) z = some z) → (∀ y ∈ s, f (some x) y = some x) →
      (∀ y ∈ s, f (some y) x = some x) → l.foldl f (some y) = some x
  | [], _, _, _, hx, _, _, _ => absurd hx List.not_mem_nil
  | z :: l, y, hsub, hy, hx, hor, hleft, hright => by
    have hsub' : l ⊆ s := fun w hw => hsub (List.mem_cons_of_mem z hw)
    rw [List.foldl_cons]
    rcases List.mem_cons.1 hx with rfl | hx
    · rw [hright y hy]
      exact foldl_keeps fun w hw => hleft w (hsub' hw)
    · have hz : z ∈ s := hsub List.mem_cons_self
      rcases hor y hy z hz with h | h
      · rw [h]
        exact foldl_reaches hsub' hy hx hor hleft hright
      · rw [h]
        exact foldl_reaches hsub' hz hx hor hleft hright

theorem foldl_eq_of_keeps (hmem : x ∈ l) (hnone : ∀ y ∈ l, f none y = some y)
    (hor : ∀ y ∈ l, ∀ z ∈ l, f (some y) z = some y ∨ f (some y) z = some z)
    (hleft : ∀ y ∈ l, f (some x) y = some x) (hright : ∀ y ∈ l, f (some y) x = some x) : l.foldl f none = some x := by
  cases l with
  | nil => exact absurd hmem List.not_mem_nil
  | cons y l =>
    rw [List.foldl_cons, hnone y List.mem_cons_self]
    rcases List.mem_cons.1 hmem with rfl | hx
    · exact foldl_keeps fun z hz => hleft z (List.mem_cons_of_mem x hz)
    · exact foldl_reaches (List.subset_cons_self y l) List.mem_cons_self hx hor hleft hright

end

end Contiki.Lib
