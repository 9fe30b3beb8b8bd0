/-
The lists of seeds as serial numbers: the macros of mpl.c compare plain bytes, a new message goes between
the smaller and the larger ones, and the loop of buffer_reclaim finds a seed with most messages.
-/
import Contiki.Mpl.Model

namespace Contiki.Mpl

section

/-! ## Serial numbers -/

/-- RFC 1982 for eight bits: `j` lies in the half of the number space behind `i`. -/
def SerialLt (i j : UInt8) : Prop := 0 < (j - i).toNat ∧ (j - i).toNat < 128

instance (i j : UInt8) : Decidable (SerialLt i j) := inferInstanceAs (Decidable (_ ∧ _))

theorem seqValIsLt_iff (i j : UInt8) : seqValIsLt i j = true ↔ i < j := by
  have hi := i.toNat_lt
  have hj := j.toNat_lt
  unfold seqValIsLt
  simp only [Bool.and_eq_true, Bool.or_eq_true, decide_eq_true_eq, ne_eq, gt_iff_lt, UInt8.lt_iff_toNat_lt]
  constructor
  · rintro ⟨-, ⟨h, -⟩ | ⟨-, h⟩⟩
    · exact h
    · omega
  · intro h
    refine ⟨fun he => ?_, .inl ⟨h, by omega⟩⟩
    rw [he] at h
    omega

theorem seqValIsGt_iff (i j : UInt8) : seqValIsGt i j = true ↔ j < i := by
  have hi := i.toNat_lt
  have hj := j.toNat_lt
  unfold seqValIsGt
  simp only [Bool.and_eq_true, Bool.or_eq_true, decide_eq_true_eq, ne_eq, gt_iff_lt, UInt8.lt_iff_toNat_lt]
  constructor
  · rintro ⟨-, ⟨-, h⟩ | ⟨h, -⟩⟩
    · omega
    · exact h
  · intro h
    refine ⟨fun he => ?_, .inr ⟨h, by omega⟩⟩
    rw [he] at h
    omega

theorem serial_length {q : UInt8} {l : List UInt8} (h : (q :: l).Pairwise SerialLt) : (q :: l).length ≤ 128 := by
  have hq := List.pairwise_cons.1 h
  have hnd : (q :: l).Nodup := h.imp fun {i j} hij he => by
    subst he
    simp [SerialLt] at hij
  have hsub : (q :: l).map (fun x => (x - q).toNat) ⊆ List.range 128 := by
    intro n hn
    obtain ⟨x, hx, rfl⟩ := List.mem_map.1 hn
    rw [List.mem_range]
    rcases List.mem_cons.1 hx with rfl | hx
    · simp
    · exact (hq.1 x hx).2
  have hinj : Function.Injective fun x : UInt8 => (x - q).toNat := by
    intro x y hxy
    have h := UInt8.toNat_inj.1 hxy
    have := congrArg (· + q) h
    simpa using this
  have := ((List.nodup_map_iff hinj).2 hnd).subperm hsub |>.length_le
  simpa using this

/-! ## Inserting a message -/

theorem insertMsg_split {seq : Nat → UInt8} {k : Nat} : ∀ {x : Nat} {l : List Nat},
    ((x :: l).map seq).Pairwise (· < ·) → seq x < seq k → (∀ y ∈ x :: l, seq y ≠ seq k) →
    ∃ l₁ l₂, x :: l = l₁ ++ l₂ ∧ l₁.head? = some x ∧ insertMsg seq k (x :: l) = l₁ ++ k :: l₂ ∧
      (∀ y ∈ l₁, seq y < seq k) ∧ ∀ y ∈ l₂, seq k < seq y
  | x, [], _, hx, _ => ⟨[x], [], rfl, rfl, rfl, by simpa using hx, by simp⟩
  | x, y :: l, hs, hx, hne => by
    rw [List.map_cons, List.pairwise_cons] at hs
    have hy := hs.2
    by_cases hlt : seq k < seq y
    · refine ⟨[x], y :: l, rfl, rfl, ?_, by simpa using hx, fun z hz => ?_⟩
      · have hg := (seqValIsGt_iff (seq k) (seq x)).2 hx
        have hl := (seqValIsLt_iff (seq k) (seq y)).2 hlt
        rw [insertMsg, hg, hl]
        rfl
      · rcases List.mem_cons.1 hz with rfl | hz
        · exact hlt
        · rw [List.map_cons, List.pairwise_cons] at hy
          exact UInt8.lt_trans hlt (hy.1 (seq z) (List.mem_map.2 ⟨z, hz, rfl⟩))
    · have hyk : seq y < seq k := by
        have hyne := hne y (by simp)
        rw [UInt8.lt_iff_toNat_lt] at hlt ⊢
        have : (seq y).toNat ≠ (seq k).toNat := fun h => hyne (UInt8.toNat_inj.1 h)
        omega
      obtain ⟨l₁, l₂, hsplit, hhead, hins, h₁, h₂⟩ := insertMsg_split hy hyk fun z hz => hne z (List.mem_cons_of_mem _ hz)
      refine ⟨x :: l₁, l₂, by rw [hsplit]; rfl, rfl, ?_, fun z hz => ?_, h₂⟩
      · have hl : seqValIsLt (seq k) (seq y) = false := by
          rw [← Bool.not_eq_true, seqValIsLt_iff]
          exact hlt
        rw [insertMsg, hl, Bool.and_false, hins]
        rfl
      · rcases List.mem_cons.1 hz with rfl | hz
        · exact hx
        · exact h₁ z hz

theorem pairwise_insert {R : UInt8 → UInt8 → Prop} {l₁ l₂ : List UInt8} {q : UInt8} (h : (l₁ ++ l₂).Pairwise R)
    (h₁ : ∀ x ∈ l₁, R x q) (h₂ : ∀ x ∈ l₂, R q x) : (l₁ ++ q :: l₂).Pairwise R := by
  obtain ⟨hl, hr, hlr⟩ := List.pairwise_append.1 h
  refine List.pairwise_append.2 ⟨hl, List.pairwise_cons.2 ⟨h₂, hr⟩, fun x hx y hy => ?_⟩
  rcases List.mem_cons.1 hy with rfl | hy
  · exact h₁ x hx
  · exact hlr x hx y hy

/-! ## The largest seed set -/

@[grind =]
def larger (s : State) (l : Option Nat) (i : Nat) : Option Nat :=
  if (s.seeds i).used && (match l with
    | none => true
    | some l => (s.seeds i).count > (s.seeds l).count) then some i else l

variable {s : State}

theorem larger_none {i : Nat} : larger s none i = if (s.seeds i).used then some i else none := by
  simp [larger]

theorem larger_some {l i : Nat} :
    larger s (some l) i = if (s.seeds i).used ∧ (s.seeds l).count < (s.seeds i).count then some i else some l := by
  simp [larger]

theorem foldl_larger : ∀ (is : List Nat) {l : Nat}, (s.seeds l).used →
    ∃ r, is.foldl (larger s) (some l) = some r ∧ (s.seeds r).used ∧ (r = l ∨ r ∈ is ∧ (s.seeds l).count < (s.seeds r).count) ∧
      (s.seeds l).count ≤ (s.seeds r).count ∧ ∀ i ∈ is, (s.seeds i).used → (s.seeds i).count ≤ (s.seeds r).count
  | [], l, hl => ⟨l, rfl, hl, .inl rfl, UInt8.le_refl _, by simp⟩
  | i :: is, l, hl => by
    rw [List.foldl_cons, larger_some]
    by_cases hi : (s.seeds i).used ∧ (s.seeds l).count < (s.seeds i).count
    · rw [if_pos hi]
      obtain ⟨r, hr, hu, hor, hle, hall⟩ := foldl_larger is hi.1
      have hlr : (s.seeds l).count < (s.seeds r).count := UInt8.lt_of_lt_of_le hi.2 hle
      refine ⟨r, hr, hu, .inr ⟨?_, hlr⟩, UInt8.le_of_lt hlr, fun j hj hju => ?_⟩
      · rcases hor with rfl | ⟨hmem, -⟩
        · exact List.mem_cons_self ..
        · exact List.mem_cons_of_mem _ hmem
      · rcases List.mem_cons.1 hj with rfl | hj
        · exact hle
        · exact hall j hj hju
    · rw [if_neg hi]
      obtain ⟨r, hr, hu, hor, hle, hall⟩ := foldl_larger is hl
      refine ⟨r, hr, hu, ?_, hle, fun j hj hju => ?_⟩
      · rcases hor with rfl | ⟨hmem, hlt⟩
        · exact .inl rfl
        · exact .inr ⟨List.mem_cons_of_mem _ hmem, hlt⟩
      · rcases List.mem_cons.1 hj with rfl | hj
        · exact UInt8.le_trans (UInt8.not_lt.1 fun hlt => hi ⟨hju, hlt⟩) hle
        · exact hall j hj hju

theorem foldl_larger_none : ∀ (is : List Nat),
    (is.foldl (larger s) none = none ∧ ∀ i ∈ is, ¬ (s.seeds i).used) ∨
      ∃ r ∈ is, is.foldl (larger s) none = some r ∧ (s.seeds r).used ∧
        ∀ i ∈ is, (s.seeds i).used → (s.seeds i).count ≤ (s.seeds r).count
  | [] => .inl ⟨rfl, by simp⟩
  | i :: is => by
    rw [List.foldl_cons, larger_none]
    by_cases hi : (s.seeds i).used
    · rw [if_pos hi]
      obtain ⟨r, hr, hu, hor, hle, hall⟩ := foldl_larger is hi
      refine .inr ⟨r, ?_, hr, hu, fun j hj hju => ?_⟩
      · rcases hor with rfl | ⟨hmem, -⟩
        · exact List.mem_cons_self ..
        · exact List.mem_cons_of_mem _ hmem
      · rcases List.mem_cons.1 hj with rfl | hj
        · exact hle
        · exact hall j hj hju
    · rw [if_neg hi]
      rcases foldl_larger_none is with ⟨hn, hall⟩ | ⟨r, hmem, hr, hu, hall⟩
      · refine .inl ⟨hn, fun j hj => ?_⟩
        rcases List.mem_cons.1 hj with rfl | hj
        · exact hi
        · exact hall j hj
      · refine .inr ⟨r, List.mem_cons_of_mem _ hmem, hr, hu, fun j hj hju => ?_⟩
        rcases List.mem_cons.1 hj with rfl | hj
        · exact absurd hju hi
        · exact hall j hj hju

theorem mem_down {n i : Nat} : i ∈ down n ↔ i < n := by
  simp [down]

theorem down_succ (n : Nat) : down (n + 1) = n :: down n := by
  simp [down, List.range_succ]

theorem largest_eq (c : Conf) (s : State) : largest c s = (down (c.seedSetSize + 1)).foldl (larger s) none := rfl

theorem foldl_larger_first : ∀ (is : List Nat) {l r : Nat}, (s.seeds l).used → (l :: is).Pairwise (· > ·) →
    is.foldl (larger s) (some l) = some r →
    ∀ i ∈ l :: is, r < i → (s.seeds i).used → (s.seeds i).count < (s.seeds r).count
  | [], l, r, _, _, h, i, hi, hri, _ => by
    obtain rfl := Option.some.inj h
    exact absurd (List.mem_singleton.1 hi) (ne_of_gt hri)
  | j :: is, l, r, hl, hp, h, i, hi, hri, hu => by
    obtain ⟨hlgt, hp'⟩ := List.pairwise_cons.1 hp
    rw [List.foldl_cons, larger_some] at h
    by_cases hj : (s.seeds j).used ∧ (s.seeds l).count < (s.seeds j).count
    · rw [if_pos hj] at h
      rcases List.mem_cons.1 hi with rfl | hi
      · obtain ⟨r', hr, -, -, hle, -⟩ := foldl_larger is hj.1
        rw [hr] at h
        obtain rfl := Option.some.inj h
        exact UInt8.lt_of_lt_of_le hj.2 hle
      · exact foldl_larger_first is hj.1 hp' h i hi hri hu
    · rw [if_neg hj] at h
      have hp'' : (l :: is).Pairwise (· > ·) :=
        List.pairwise_cons.2 ⟨fun x hx => hlgt x (List.mem_cons_of_mem _ hx), (List.pairwise_cons.1 hp').2⟩
      by_cases hij : i = j
      · obtain ⟨r', hr, -, hor, -, -⟩ := foldl_larger is hl
        rw [hr] at h
        obtain rfl := Option.some.inj h
        rw [hij] at hri hu ⊢
        -- the set that was passed over is no larger than the one held, which was left for a larger one
        rcases hor with rfl | ⟨-, hlt⟩
        · exact absurd (hlgt j (List.mem_cons_self ..)) (not_lt_of_gt hri)
        · exact UInt8.lt_of_le_of_lt (UInt8.not_lt.1 fun hlt' => hj ⟨hu, hlt'⟩) hlt
      · have hi' : i ∈ l :: is := by
          rcases List.mem_cons.1 hi with rfl | hi
          · exact List.mem_cons_self ..
          · exact List.mem_cons_of_mem _ ((List.mem_cons.1 hi).resolve_left hij)
        exact foldl_larger_first is hl hp'' h i hi' hri hu

theorem foldl_larger_find : ∀ (is : List Nat) {r : Nat}, is.Pairwise (· > ·) →
    is.foldl (larger s) none = some r → ∀ i ∈ is, r < i → (s.seeds i).used → (s.seeds i).count < (s.seeds r).count
  | [], r, _, h, _, _, _, _ => by cases h
  | j :: is, r, hp, h, i, hi, hri, hu => by
    rw [List.foldl_cons, larger_none] at h
    by_cases hj : (s.seeds j).used
    · rw [if_pos hj] at h
      exact foldl_larger_first is hj hp h i hi hri hu
    · rw [if_neg hj] at h
      rcases List.mem_cons.1 hi with rfl | hi
      · exact absurd hu hj
      · exact foldl_larger_find is (List.pairwise_cons.1 hp).2 h i hi hri hu

theorem pairwise_down (n : Nat) : (down n).Pairwise (· > ·) := by
  rw [down, List.pairwise_reverse]
  exact List.pairwise_lt_range

/-- The set that `buffer_reclaim` takes: none has more messages, and none behind it as many. -/
structure Largest (c : Conf) (s : State) (l : Nat) : Prop where
  le : l ≤ c.seedSetSize
  used : (s.seeds l).used
  count : ∀ i ≤ c.seedSetSize, (s.seeds i).used → (s.seeds i).count ≤ (s.seeds l).count
  first : ∀ i ≤ c.seedSetSize, l < i → (s.seeds i).used → (s.seeds i).count < (s.seeds l).count

theorem largest_some {c : Conf} {l : Nat} (h : largest c s = some l) : Largest c s l := by
  rw [largest_eq] at h
  rcases foldl_larger_none (s := s) (down (c.seedSetSize + 1)) with ⟨hn, -⟩ | ⟨r, hmem, hr, hu, hall⟩
  · rw [hn] at h
    cases h
  · rw [hr] at h
    obtain rfl := Option.some.inj h
    refine ⟨Nat.le_of_lt_succ (mem_down.1 hmem), hu, fun i hi => hall i (mem_down.2 (Nat.lt_succ_of_le hi)),
      fun i hi hri hiu => ?_⟩
    exact foldl_larger_find (down (c.seedSetSize + 1)) (pairwise_down _) hr i (mem_down.2 (Nat.lt_succ_of_le hi)) hri hiu

theorem largest_none {c : Conf} (h : largest c s = none) : ∀ i, i ≤ c.seedSetSize → ¬ (s.seeds i).used := by
  rw [largest_eq] at h
  rcases foldl_larger_none (s := s) (down (c.seedSetSize + 1)) with ⟨-, hall⟩ | ⟨r, -, hr, -⟩
  · exact fun i hi => hall i (mem_down.2 (Nat.lt_succ_of_le hi))
  · rw [hr] at h
    cases h

theorem Largest.unique {c : Conf} {l r : Nat} (hl : Largest c s l) (hr : Largest c s r) : l = r := by
  rcases lt_trichotomy l r with h | h | h
  · exact absurd (hl.first r hr.le h hr.used) (UInt8.not_lt.2 (hr.count l hl.le hl.used))
  · exact h
  · exact absurd (hr.first l hl.le h hl.used) (UInt8.not_lt.2 (hl.count r hr.le hr.used))

theorem largest_iff {c : Conf} {l : Nat} : largest c s = some l ↔ Largest c s l := by
  refine ⟨largest_some, fun hl => ?_⟩
  cases h : largest c s with
  | none => exact absurd hl.used (largest_none h l hl.le)
  | some r => rw [hl.unique (largest_some h)]

end

/-!
What holds of the sets between two calls, and what the list operations of a data message do to it: a
message joins the list of its seed, and the first message of a largest list makes room for another.
-/

section

/-! ## The invariant -/

/-- The list of a seed: in ascending order, as bytes and as serial numbers, with its length and its
first number kept beside it. -/
structure SeedOk (seq : Nat → UInt8) (v : Seed) : Prop where
  order : (v.minSeq.map seq).Pairwise (· < ·)
  serial : (v.minSeq.map seq).Pairwise SerialLt
  count : v.count.toNat = v.minSeq.length
  head : ∀ k l, v.minSeq = k :: l → v.minSeqno = seq k

def State.seq (s : State) (k : Nat) : UInt8 := (s.msgs k).seq

/-- Used seeds have their messages, used messages their seed, and a domain. -/
structure Inv (c : Conf) (s : State) : Prop where
  owned : ∀ i < c.seedSetSize, (s.seeds i).used → ∀ k ∈ (s.seeds i).minSeq,
    k < c.bufferedMessageSetSize ∧ (s.msgs k).seed = some i
  listed : ∀ k < c.bufferedMessageSetSize, ∀ i, (s.msgs k).seed = some i →
    i < c.seedSetSize ∧ (s.seeds i).used ∧ k ∈ (s.seeds i).minSeq
  seedOk : ∀ i < c.seedSetSize, (s.seeds i).used → SeedOk s.seq (s.seeds i)
  unique : ∀ i < c.seedSetSize, ∀ j < c.seedSetSize, (s.seeds i).used → (s.seeds j).used →
    (s.seeds i).seedId.id = (s.seeds j).seedId.id → (s.seeds i).domain = (s.seeds j).domain → i = j
  domains : ∀ i < c.seedSetSize, ∀ d, (s.seeds i).domain = some d → (s.domains d).used
  sound : s.wild = false

/-- The data address of a domain is not link-local, its control address is. -/
def DomainsOk (s : State) : Prop :=
  ∀ d, (s.domains d).used → scope (s.domains d).dataAddr ≠ 2 ∧ scope (s.domains d).ctrlAddr = 2

/-- A message that was accepted: its entry in the seed set, its domain, its seed and its number. -/
structure Accepted where
  entry : Nat
  domain : Nat
  seed : Fin 16 → UInt8
  seq : UInt8

/-- The entry of an accepted message remembers it: it is on the list, or below the minimum. -/
structure Remembered (c : Conf) (s : State) (r : Accepted) : Prop where
  entry : r.entry < c.seedSetSize
  domain : (s.seeds r.entry).domain = some r.domain
  seed : (s.seeds r.entry).seedId.id = r.seed
  seq : (∃ k ∈ (s.seeds r.entry).minSeq, s.seq k = r.seq) ∨ r.seq < (s.seeds r.entry).minSeqno ∨
    ((s.seeds r.entry).minSeq = [] ∧ r.seq = (s.seeds r.entry).minSeqno)

variable {c : Conf} {s t : State} {r : Accepted} {i k d : Nat}

theorem Remembered.used (h : Remembered c s r) : (s.seeds r.entry).used := by
  rw [Seed.used, h.domain]
  rfl

/-! ## What leaves the sets alone -/

/-- The two states differ in timers, lifetimes, addresses and in domains that were not used. -/
structure SameSets (c : Conf) (s t : State) : Prop where
  seed : ∀ k, (t.msgs k).seed = (s.msgs k).seed
  seq : ∀ k, (t.msgs k).seq = (s.msgs k).seq
  minSeq : ∀ i < c.seedSetSize, (t.seeds i).minSeq = (s.seeds i).minSeq
  minSeqno : ∀ i < c.seedSetSize, (t.seeds i).minSeqno = (s.seeds i).minSeqno
  count : ∀ i < c.seedSetSize, (t.seeds i).count = (s.seeds i).count
  seedId : ∀ i < c.seedSetSize, (t.seeds i).seedId.id = (s.seeds i).seedId.id
  domain : ∀ i < c.seedSetSize, (t.seeds i).domain = (s.seeds i).domain
  domains : ∀ d, (s.domains d).used → (t.domains d).used
  ok : DomainsOk s → DomainsOk t
  wild : t.wild = s.wild

theorem SameSets.refl (c : Conf) (s : State) : SameSets c s s :=
  ⟨fun _ => rfl, fun _ => rfl, fun _ _ => rfl, fun _ _ => rfl, fun _ _ => rfl, fun _ _ => rfl, fun _ _ => rfl,
    fun _ h => h, id, rfl⟩

theorem SameSets.trans {u : State} (h : SameSets c s t) (h' : SameSets c t u) : SameSets c s u where
  seed k := (h'.seed k).trans (h.seed k)
  seq k := (h'.seq k).trans (h.seq k)
  minSeq i hi := (h'.minSeq i hi).trans (h.minSeq i hi)
  minSeqno i hi := (h'.minSeqno i hi).trans (h.minSeqno i hi)
  count i hi := (h'.count i hi).trans (h.count i hi)
  seedId i hi := (h'.seedId i hi).trans (h.seedId i hi)
  domain i hi := (h'.domain i hi).trans (h.domain i hi)
  domains d hd := h'.domains d (h.domains d hd)
  ok hok := h'.ok (h.ok hok)
  wild := h'.wild.trans h.wild

theorem SameSets.used (h : SameSets c s t) (hi : i < c.seedSetSize) : (t.seeds i).used = (s.seeds i).used := by
  rw [Seed.used, Seed.used, h.domain i hi]

theorem SeedOk.congr {seq seq' : Nat → UInt8} {v w : Seed} (h : SeedOk seq v) (hl : w.minSeq = v.minSeq)
    (hm : w.minSeqno = v.minSeqno) (hc : w.count = v.count) (hs : ∀ k ∈ v.minSeq, seq' k = seq k) : SeedOk seq' w := by
  have hmap : w.minSeq.map seq' = v.minSeq.map seq := by
    rw [hl]
    exact List.map_congr_left hs
  refine ⟨hmap ▸ h.order, hmap ▸ h.serial, by rw [hc, hl, h.count], fun k l hkl => ?_⟩
  rw [hl] at hkl
  rw [hm, h.head k l hkl, hs k (hkl ▸ List.mem_cons_self ..)]

theorem Inv.same (h : Inv c s) (hs : SameSets c s t) : Inv c t where
  owned i hi hu k hk := by
    rw [hs.used hi] at hu
    rw [hs.minSeq i hi] at hk
    rw [hs.seed]
    exact h.owned i hi hu k hk
  listed k hk i hki := by
    rw [hs.seed] at hki
    obtain ⟨hi, hu, hmem⟩ := h.listed k hk i hki
    exact ⟨hi, by rwa [hs.used hi], by rwa [hs.minSeq i hi]⟩
  seedOk i hi hu := by
    rw [hs.used hi] at hu
    exact (h.seedOk i hi hu).congr (hs.minSeq i hi) (hs.minSeqno i hi) (hs.count i hi) fun k _ => hs.seq k
  unique i hi j hj hiu hju hid hd := by
    rw [hs.used hi] at hiu
    rw [hs.used hj] at hju
    rw [hs.seedId i hi, hs.seedId j hj] at hid
    rw [hs.domain i hi, hs.domain j hj] at hd
    exact h.unique i hi j hj hiu hju hid hd
  domains i hi d hd := by
    rw [hs.domain i hi] at hd
    exact hs.domains d (h.domains i hi d hd)
  sound := hs.wild.trans h.sound

theorem Remembered.same (h : Remembered c s r) (hs : SameSets c s t) : Remembered c t r := by
  refine ⟨h.entry, by rw [hs.domain _ h.entry, h.domain], by rw [hs.seedId _ h.entry, h.seed], ?_⟩
  simp only [hs.minSeq _ h.entry, hs.minSeqno _ h.entry, State.seq, hs.seq]
  exact h.seq

/-! ## A new entry in the seed set -/

theorem seedSetAllocate_some (h : seedSetAllocate c s = some i) : i < c.seedSetSize ∧ (s.seeds i).used = false := by
  have hmem := List.mem_of_find?_eq_some h
  have hp := List.find?_some h
  exact ⟨mem_down.1 hmem, by simpa using hp⟩

theorem seedSetLookup_some {id : Fin 16 → UInt8} (h : seedSetLookup c id d s = some i) :
    i < c.seedSetSize ∧ (s.seeds i).used ∧ (s.seeds i).seedId.id = id ∧ (s.seeds i).domain = some d := by
  have hmem := List.mem_of_find?_eq_some h
  have hp := List.find?_some h
  simp only [Bool.and_eq_true, decide_eq_true_eq] at hp
  exact ⟨mem_down.1 hmem, hp.1.1, hp.1.2, hp.2⟩

theorem seedSetLookup_none {id : Fin 16 → UInt8} (h : seedSetLookup c id d s = none) (hi : i < c.seedSetSize)
    (hid : (s.seeds i).seedId.id = id) : (s.seeds i).domain ≠ some d := by
  intro hd
  have := List.find?_eq_none.1 h i (mem_down.2 hi)
  simp [hid, hd, Seed.used] at this

section

variable {seedId : SeedId}

theorem setSeed_self (v : Seed) : (s.setSeed i v).seeds i = v := Function.update_self ..

theorem setSeed_ne {j : Nat} (v : Seed) (h : j ≠ i) : (s.setSeed i v).seeds j = s.seeds j := Function.update_of_ne h ..

theorem setMsg_self (v : Msg) : (s.setMsg k v).msgs k = v := Function.update_self ..

theorem setMsg_ne {j : Nat} (v : Msg) (h : j ≠ k) : (s.setMsg k v).msgs j = s.msgs j := Function.update_of_ne h ..

theorem Inv.newSeed (h : Inv c s) (hu : (s.seeds i).used = false)
    (hl : seedSetLookup c seedId.id d s = none) (hd : (s.domains d).used) :
    Inv c (s.setSeed i ⟨seedId, 0, 0, 0, [], some d⟩) := by
  have hne : ∀ {j : Nat}, (s.seeds j).used = true → j ≠ i := fun hj he => by
    rw [he, hu] at hj
    cases hj
  refine ⟨fun j hj hju k hk => ?_, fun k hk j hkj => ?_, fun j hj hju => ?_, fun j hj l hl' hju hlu hid hdom => ?_,
    fun j hj e he => ?_, h.sound⟩
  · by_cases hji : j = i
    · rw [hji, setSeed_self] at hk
      cases hk
    · rw [setSeed_ne _ hji] at hju hk
      exact h.owned j hj hju k hk
  · obtain ⟨hj, hju, hmem⟩ := h.listed k hk j hkj
    rw [setSeed_ne _ (hne hju)]
    exact ⟨hj, hju, hmem⟩
  · by_cases hji : j = i
    · rw [hji, setSeed_self]
      exact ⟨List.Pairwise.nil, List.Pairwise.nil, rfl, fun k l hkl => by cases hkl⟩
    · rw [setSeed_ne _ hji] at hju ⊢
      exact h.seedOk j hj hju
  · by_cases hji : j = i
    · by_cases hli : l = i
      · rw [hji, hli]
      · rw [hji, setSeed_self, setSeed_ne _ hli] at hid hdom
        exact absurd hdom.symm (seedSetLookup_none hl hl' hid.symm)
    · rw [setSeed_ne _ hji] at hju hid hdom
      by_cases hli : l = i
      · rw [hli, setSeed_self] at hid hdom
        exact absurd hdom (seedSetLookup_none hl hj hid)
      · rw [setSeed_ne _ hli] at hlu hid hdom
        exact h.unique j hj l hl' hju hlu hid hdom
  · by_cases hji : j = i
    · rw [hji, setSeed_self] at he
      obtain rfl := Option.some.inj he
      exact hd
    · rw [setSeed_ne _ hji] at he
      exact h.domains j hj e he

theorem Remembered.newSeed (h : Remembered c s r) (hu : (s.seeds i).used = false) (v : Seed) :
    Remembered c (s.setSeed i v) r := by
  have hne : r.entry ≠ i := fun he => by
    have := h.used
    rw [he, hu] at this
    cases this
  refine ⟨h.entry, ?_, ?_, ?_⟩
  · rw [setSeed_ne _ hne, h.domain]
  · rw [setSeed_ne _ hne, h.seed]
  · rw [setSeed_ne _ hne]
    exact h.seq

end

end

end Contiki.Mpl
