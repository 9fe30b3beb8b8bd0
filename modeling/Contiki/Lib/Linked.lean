/-
Singly linked lists threaded through nodes of any type: the nodes that a head and the links lead
through, in order. Such a list has no node twice; pushing a node at the front and taking nodes out
change the list as they should, whatever links stand outside of it.
-/
import Mathlib.Tactic

namespace Contiki.Lib

section

variable {α : Type} {next next' : α → Option α} {h : Option α} {a u : α} {l l₁ l₂ : List α}

/-- From `h` the links lead through the nodes of `l` and end. -/
def Chain (next : α → Option α) : Option α → List α → Prop
  | h, [] => h = none
  | h, a :: l => h = some a ∧ Chain next (next a) l

@[simp] theorem chain_nil : Chain next h [] ↔ h = none := Iff.rfl

@[simp] theorem chain_cons : Chain next h (a :: l) ↔ h = some a ∧ Chain next (next a) l := Iff.rfl

theorem Chain.unique : ∀ {h : Option α} {l l' : List α}, Chain next h l → Chain next h l' → l = l'
  | _, [], [], _, _ => rfl
  | _, [], b :: l', h₁, h₂ => by
    rw [chain_nil.1 h₁] at h₂
    cases h₂.1
  | _, a :: l, [], h₁, h₂ => by
    rw [chain_nil.1 h₂] at h₁
    cases h₁.1
  | _, a :: l, b :: l', h₁, h₂ => by
    obtain ⟨rfl, h₁⟩ := h₁
    obtain ⟨he, h₂⟩ := h₂
    obtain rfl := Option.some.inj he
    rw [h₁.unique h₂]

theorem Chain.congr : ∀ {h : Option α} {l : List α}, Chain next h l → (∀ x ∈ l, next' x = next x) → Chain next' h l
  | _, [], hc, _ => hc
  | _, a :: l, ⟨rfl, hc⟩, hs => by
    refine ⟨rfl, ?_⟩
    rw [hs a (List.mem_cons_self ..)]
    exact hc.congr fun x hx => hs x (List.mem_cons_of_mem _ hx)

theorem Chain.suffix : ∀ {h : Option α} {l₁ : List α}, Chain next h (l₁ ++ a :: l₂) → Chain next (some a) (a :: l₂)
  | _, [], ⟨_, hc⟩ => ⟨rfl, hc⟩
  | _, _ :: _, ⟨_, hc⟩ => hc.suffix

theorem Chain.nodup : ∀ {h : Option α} {l : List α}, Chain next h l → l.Nodup
  | _, [], _ => List.nodup_nil
  | _, a :: l, ⟨rfl, hc⟩ => by
    refine List.nodup_cons.2 ⟨fun ha => ?_, hc.nodup⟩
    -- a second visit of `a` would have to go on as the first one does
    obtain ⟨l₁, l₂, rfl⟩ := List.append_of_mem ha
    have heq := Chain.unique (show Chain next (some a) (a :: (l₁ ++ a :: l₂)) from ⟨rfl, hc⟩) hc.suffix
    have hlen := congrArg List.length heq
    simp only [List.length_cons, List.length_append] at hlen
    omega

theorem Chain.closed : ∀ {h : Option α} {l : List α}, Chain next h l → a ∈ l → next a = some u → u ∈ l
  | _, b :: l, ⟨rfl, hc⟩, ha, hu => by
    rcases List.mem_cons.1 ha with rfl | ha
    · rw [hu] at hc
      cases l with
      | nil => cases hc
      | cons c l =>
        obtain rfl := Option.some.inj hc.1
        exact List.mem_cons_of_mem _ (List.mem_cons_self ..)
    · exact List.mem_cons_of_mem _ (hc.closed ha hu)

/-! ## Changing the links -/

theorem Chain.push (hc : Chain next h l) (hn : next' a = h) (hs : ∀ x ∈ l, next' x = next x) :
    Chain next' (some a) (a :: l) := by
  refine ⟨rfl, ?_⟩
  rw [hn]
  exact hc.congr hs

/-- Taking a node out by redirecting the link of the one before it. -/
theorem Chain.unlink : ∀ {h : Option α} {l₁ : List α}, Chain next h (l₁ ++ u :: a :: l₂) → next' u = next a →
    (∀ x ∈ l₁, next' x = next x) → (∀ x ∈ l₂, next' x = next x) → Chain next' h (l₁ ++ u :: l₂)
  | _, [], ⟨rfl, hu, hc⟩, hn, _, hs => by
    refine ⟨rfl, ?_⟩
    rw [hn]
    exact hc.congr hs
  | _, x :: l₁, ⟨rfl, hc⟩, hn, hs₁, hs₂ => by
    refine ⟨rfl, ?_⟩
    rw [hs₁ x (List.mem_cons_self ..)]
    exact hc.unlink hn (fun y hy => hs₁ y (List.mem_cons_of_mem _ hy)) hs₂

/-- Putting a node in after another one. -/
theorem Chain.splice : ∀ {h : Option α} {l₁ : List α}, Chain next h (l₁ ++ u :: l₂) → next' u = some a → next' a = next u →
    (∀ x ∈ l₁, next' x = next x) → (∀ x ∈ l₂, next' x = next x) → Chain next' h (l₁ ++ u :: a :: l₂)
  | _, [], ⟨rfl, hc⟩, hu, ha, _, hs => by
    refine ⟨rfl, ?_⟩
    rw [hu]
    refine ⟨rfl, ?_⟩
    rw [ha]
    exact hc.congr hs
  | _, x :: l₁, ⟨rfl, hc⟩, hu, ha, hs₁, hs₂ => by
    refine ⟨rfl, ?_⟩
    rw [hs₁ x (List.mem_cons_self ..)]
    exact hc.splice hu ha (fun y hy => hs₁ y (List.mem_cons_of_mem _ hy)) hs₂

/-! ## Reading the list -/

/-- The nodes from `h` on, if the links end within `k` of them. -/
@[grind =]
def follow (next : α → Option α) : Nat → Option α → Option (List α)
  | _, none => some []
  | 0, some _ => none
  | k + 1, some a => (follow next k (next a)).map (a :: ·)

theorem follow_of_chain : ∀ {h : Option α} {l : List α} {k : Nat}, Chain next h l → l.length ≤ k → follow next k h = some l
  | _, [], k, hc, _ => by
    rw [chain_nil.1 hc]
    cases k <;> rfl
  | _, a :: l, k + 1, ⟨rfl, hc⟩, hk => by
    rw [follow, follow_of_chain hc (by simpa using hk)]
    rfl

theorem Chain.length_le {n : Nat} {next : Fin n → Option (Fin n)} {h : Option (Fin n)} {l : List (Fin n)}
    (hc : Chain next h l) : l.length ≤ n := by
  simpa using hc.nodup.length_le_card

end

/-!
Doubly linked lists threaded through nodes of any type, with a sentinel that stands before the first
node and after the last one: consecutive nodes are linked both ways, except that nothing need lead
back from the sentinel. Taking a node out and putting one in change the links of its neighbours only.
-/

section

variable {α : Type} {z : α} {fd bk fd' bk' : α → α}

/-- Consecutive nodes of the list are linked both ways; nothing is asked of `bk z`. -/
@[grind =]
def Links (z : α) (fd bk : α → α) : List α → Prop
  | x :: y :: l => fd x = y ∧ (y ≠ z → bk y = x) ∧ Links z fd bk (y :: l)
  | _ => True

/-- The nodes hang between two sentinels. -/
def DList (z : α) (fd bk : α → α) (l : List α) : Prop :=
  Links z fd bk (z :: l ++ [z])

theorem links_append : ∀ (l₁ : List α) (x : α) (l₂ : List α),
    Links z fd bk (l₁ ++ x :: l₂) ↔ Links z fd bk (l₁ ++ [x]) ∧ Links z fd bk (x :: l₂)
  | [], x, l₂ => by simp [Links]
  | [a], x, l₂ => by simp [Links, and_assoc]
  | a :: b :: l₁, x, l₂ => by
    have ih := links_append (b :: l₁) x l₂
    simp only [List.cons_append, Links] at ih ⊢
    rw [ih]
    simp only [and_assoc]

/-- Links look at `fd` of all nodes but the last and at `bk` of all but the first. -/
theorem Links.congr : ∀ {l : List α}, Links z fd bk l → (∀ x ∈ l.dropLast, fd' x = fd x) →
    (∀ y ∈ l.tail, y ≠ z → bk' y = bk y) → Links z fd' bk' l
  | [], _, _, _ => trivial
  | [_], _, _, _ => trivial
  | x :: y :: l, ⟨hf, hb, hl⟩, hfd, hbk => by
    refine ⟨(hfd x (by simp)).trans hf, fun hy => (hbk y (by simp) hy).trans (hb hy), ?_⟩
    refine hl.congr (fun a ha => hfd a ?_) (fun a ha => hbk a ?_)
    · rw [List.dropLast_cons_of_ne_nil (by simp)]; exact List.mem_cons_of_mem _ ha
    · exact List.mem_cons_of_mem _ ha

theorem links_remove {pre post : List α} {x y w : α} (h : Links z fd bk (pre ++ x :: y :: w :: post))
    (hx : fd' x = w) (hw : w ≠ z → bk' w = x) (hfd : ∀ a ∈ pre ++ (w :: post).dropLast, fd' a = fd a)
    (hbk : ∀ a ∈ (pre ++ [x]).tail ++ post, a ≠ z → bk' a = bk a) : Links z fd' bk' (pre ++ x :: w :: post) := by
  rw [links_append] at h ⊢
  obtain ⟨hpre, _, _, _, _, hpost⟩ := h
  refine ⟨hpre.congr (fun a ha => hfd a ?_) (fun a ha => hbk a ?_), hx, hw,
    hpost.congr (fun a ha => hfd a ?_) (fun a ha => hbk a ?_)⟩
  · rw [List.dropLast_concat] at ha; exact List.mem_append_left _ ha
  · exact List.mem_append_left _ ha
  · exact List.mem_append_right _ ha
  · exact List.mem_append_right _ ha

theorem dlist_push {l : List α} {y : α} (h : DList z fd bk l) (hfirst : fd' z = y) (hback : bk' y = z)
    (hnext : fd' y = fd z) (hhead : fd z ≠ z → bk' (fd z) = y) (hfd : ∀ a ∈ l, fd' a = fd a)
    (hbk : ∀ a ∈ l.tail, a ≠ z → bk' a = bk a) : DList z fd' bk' (y :: l) := by
  unfold DList at h ⊢
  cases l with
  | nil =>
    obtain ⟨hf, _⟩ := h
    exact ⟨hfirst, fun _ => hback, by rw [hnext, hf], fun hz => absurd rfl hz, trivial⟩
  | cons x l =>
    obtain ⟨hf, _, hl⟩ := h
    rw [hf] at hnext hhead
    refine ⟨hfirst, fun _ => hback, hnext, hhead, hl.congr (fun a ha => hfd a ?_) (fun a ha ha' => hbk a ?_ ha')⟩
    · have ha : a ∈ (x :: l ++ [z]).dropLast := ha
      rw [List.dropLast_concat] at ha; exact ha
    · rcases List.mem_append.1 (show a ∈ l ++ [z] from ha) with ha | ha
      · exact ha
      · rw [List.mem_singleton] at ha; exact absurd ha ha'

end

end Contiki.Lib
