/-
Lists that stand for finite maps: items with a key, no two of one key, kept in the order of their
last use. What a list says about a key under reordering, removal and insertion, and which item is
the least recently used one.
-/
import Mathlib.Tactic

namespace Contiki.Lib

variable {β κ : Type} {key : β → κ} {last : β → Nat} {l m : List β} {b : β} {k : κ}

/-! ## Keys -/

def Distinct (key : β → κ) (l : List β) : Prop := (l.map key).Nodup

theorem Distinct.inj (h : Distinct key l) {a c : β} (ha : a ∈ l) (hc : c ∈ l) (hk : key a = key c) : a = c :=
  List.inj_on_of_nodup_map h ha hc hk

theorem Distinct.perm (h : Distinct key l) (hp : m.Perm l) : Distinct key m :=
  (hp.map key).nodup_iff.2 h

theorem Distinct.cons (h : Distinct key l) (hk : ∀ c ∈ l, key c ≠ key b) : Distinct key (b :: l) := by
  unfold Distinct
  rw [List.map_cons, List.nodup_cons]
  refine ⟨?_, h⟩
  intro hm
  obtain ⟨c, hc, he⟩ := List.mem_map.1 hm
  exact hk c hc he

/-! ## The item of a key -/

section Assoc

variable [DecidableEq κ]

def assoc (key : β → κ) (l : List β) (k : κ) : Option β := l.find? (fun b => key b = k)

theorem assoc_some (h : assoc key l k = some b) : b ∈ l ∧ key b = k :=
  ⟨List.mem_of_find?_eq_some h, by simpa using List.find?_some h⟩

theorem assoc_eq_none : assoc key l k = none ↔ ∀ b ∈ l, key b ≠ k := by
  unfold assoc
  rw [List.find?_eq_none]
  simp

theorem assoc_cons_of_ne (h : key b ≠ k) : assoc key (b :: l) k = assoc key l k := by
  simp [assoc, h]

theorem assoc_congr {key' : β → κ} (h : ∀ b ∈ l, key' b = key b) (k : κ) : assoc key' l k = assoc key l k := by
  unfold assoc
  exact List.find?_congr fun b hb => by rw [h b hb]

theorem Distinct.assoc_iff (h : Distinct key l) : assoc key l k = some b ↔ b ∈ l ∧ key b = k := by
  refine ⟨assoc_some, ?_⟩
  rintro ⟨hb, rfl⟩
  cases hf : assoc key l (key b) with
  | none => exact absurd rfl (assoc_eq_none.1 hf b hb)
  | some c =>
    obtain ⟨hc, hk⟩ := assoc_some hf
    rw [h.inj hc hb hk]

theorem Distinct.assoc_perm (h : Distinct key l) (hp : m.Perm l) (k : κ) : assoc key m k = assoc key l k := by
  apply Option.ext
  intro b
  rw [(h.perm hp).assoc_iff, h.assoc_iff, hp.mem_iff]

end Assoc

/-! ## The order of last use -/

/-- The items stand in the order of their last use, the latest first. -/
def Recent (last : β → Nat) (l : List β) : Prop := l.Pairwise (fun a c => last c < last a)

theorem Recent.getLast (h : Recent last l) (hl : l.getLast? = some b) : ∀ c ∈ l, c ≠ b → last b < last c := by
  obtain ⟨l', rfl⟩ := List.getLast?_eq_some_iff.1 hl
  unfold Recent at h
  rw [List.pairwise_append] at h
  intro c hc hne
  rcases List.mem_append.1 hc with hc | hc
  · exact h.2.2 c hc b (by simp)
  · exact absurd (List.mem_singleton.1 hc) hne

variable [DecidableEq β]

theorem Recent.use (h : Recent last l) (hb : b ∉ l) {t : Nat} (ht : ∀ c ∈ l, last c < t) :
    Recent (Function.update last b t) (b :: l) := by
  unfold Recent at h ⊢
  have hne : ∀ c ∈ l, c ≠ b := fun c hc he => hb (he ▸ hc)
  refine List.pairwise_cons.2 ⟨?_, ?_⟩
  · intro c hc
    rw [Function.update_self, Function.update_of_ne (hne c hc)]
    exact ht c hc
  · refine List.Pairwise.imp_of_mem ?_ h
    intro a c ha hc hac
    rwa [Function.update_of_ne (hne a ha), Function.update_of_ne (hne c hc)]

end Contiki.Lib
