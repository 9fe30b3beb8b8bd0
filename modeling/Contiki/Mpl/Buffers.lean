/-
A message gets a buffer and a place in the list of its seed. When no buffer is free, the first message of
a largest list gives up its own, and the minimum of its seed moves on.
-/
import Contiki.Mpl.Invariant

namespace Contiki.Mpl

variable {c : Conf} {s t : State} {r : Accepted} {i k d l : Nat} {q : UInt8} {l₁ l₂ : List Nat}

/-! ## A message joins a list -/

/-- The message `q` in the buffer `k` has joined the list of the seed `i` between `l₁` and `l₂`. -/
structure Placed (c : Conf) (s t : State) (i k : Nat) (q : UInt8) (l₁ l₂ : List Nat) : Prop where
  seedSelf : (t.msgs k).seed = some i
  seqSelf : t.seq k = q
  seed : ∀ j, j ≠ k → (t.msgs j).seed = (s.msgs j).seed
  seq : ∀ j, j ≠ k → t.seq j = s.seq j
  old : (s.seeds i).minSeq = l₁ ++ l₂
  minSeq : (t.seeds i).minSeq = l₁ ++ k :: l₂
  minSeqno : (t.seeds i).minSeqno = if (s.seeds i).minSeq = [] then q else (s.seeds i).minSeqno
  count : (t.seeds i).count = (s.seeds i).count + 1
  seedId : (t.seeds i).seedId.id = (s.seeds i).seedId.id
  domain : (t.seeds i).domain = (s.seeds i).domain
  seeds : ∀ j, j ≠ i → t.seeds j = s.seeds j
  dataAddr : ∀ e, (t.domains e).dataAddr = (s.domains e).dataAddr
  ctrlAddr : ∀ e, (t.domains e).ctrlAddr = (s.domains e).ctrlAddr
  wild : t.wild = s.wild

/-- The place is right: the numbers before it are smaller, those behind it larger, as bytes and as serial
numbers, and a list that is not empty keeps its head. -/
structure Between (seq : Nat → UInt8) (q : UInt8) (l₁ l₂ : List Nat) : Prop where
  before : ∀ x ∈ l₁, seq x < q ∧ SerialLt (seq x) q
  behind : ∀ x ∈ l₂, q < seq x ∧ SerialLt q (seq x)
  head : l₁ = [] → l₂ = []

theorem domains_used {e : Nat} (h : (t.domains e).dataAddr = (s.domains e).dataAddr) (hu : (s.domains e).used) :
    (t.domains e).used := by
  rw [Domain.used] at hu ⊢
  rwa [h]

theorem domains_ok (hd : ∀ e, (t.domains e).dataAddr = (s.domains e).dataAddr)
    (hc : ∀ e, (t.domains e).ctrlAddr = (s.domains e).ctrlAddr) (h : DomainsOk s) : DomainsOk t := by
  intro e he
  rw [hd, hc]
  exact h e (domains_used (hd e).symm he)

theorem Placed.used (hp : Placed c s t i k q l₁ l₂) (j : Nat) : (t.seeds j).used = (s.seeds j).used := by
  by_cases hj : j = i
  · rw [hj, Seed.used, Seed.used, hp.domain]
  · rw [hp.seeds j hj]

theorem Placed.seedIds (hp : Placed c s t i k q l₁ l₂) (j : Nat) : (t.seeds j).seedId.id = (s.seeds j).seedId.id := by
  by_cases hj : j = i
  · rw [hj, hp.seedId]
  · rw [hp.seeds j hj]

theorem Placed.seedDomains (hp : Placed c s t i k q l₁ l₂) (j : Nat) : (t.seeds j).domain = (s.seeds j).domain := by
  by_cases hj : j = i
  · rw [hj, hp.domain]
  · rw [hp.seeds j hj]

theorem Placed.map_seq (hp : Placed c s t i k q l₁ l₂) {xs : List Nat} (hk : k ∉ xs) : xs.map t.seq = xs.map s.seq :=
  List.map_congr_left fun x hx => hp.seq x fun he => hk (he ▸ hx)

theorem Placed.seedOk (hp : Placed c s t i k q l₁ l₂) (h : SeedOk s.seq (s.seeds i)) (hb : Between s.seq q l₁ l₂)
    (hk : k ∉ (s.seeds i).minSeq) : SeedOk t.seq (t.seeds i) := by
  have hk' := hk
  rw [hp.old, List.mem_append, not_or] at hk'
  have hmap : (t.seeds i).minSeq.map t.seq = l₁.map s.seq ++ q :: l₂.map s.seq := by
    rw [hp.minSeq, List.map_append, List.map_cons, hp.map_seq hk'.1, hp.map_seq hk'.2, hp.seqSelf]
  have horder := h.order
  have hserial := h.serial
  rw [hp.old, List.map_append] at horder hserial
  have hsorted : ((t.seeds i).minSeq.map t.seq).Pairwise SerialLt := by
    rw [hmap]
    refine pairwise_insert hserial (fun x hx => ?_) fun x hx => ?_
    · obtain ⟨y, hy, rfl⟩ := List.mem_map.1 hx
      exact (hb.before y hy).2
    · obtain ⟨y, hy, rfl⟩ := List.mem_map.1 hx
      exact (hb.behind y hy).2
  refine ⟨?_, hsorted, ?_, fun x xs hx => ?_⟩
  · rw [hmap]
    refine pairwise_insert horder (fun x hx => ?_) fun x hx => ?_
    · obtain ⟨y, hy, rfl⟩ := List.mem_map.1 hx
      exact (hb.before y hy).1
    · obtain ⟨y, hy, rfl⟩ := List.mem_map.1 hx
      exact (hb.behind y hy).1
  · -- a list in serial order has at most 128 messages, so the count does not wrap
    have hlen : (t.seeds i).minSeq.length ≤ 128 := by
      cases hl : (t.seeds i).minSeq with
      | nil => simp
      | cons x xs =>
        rw [hl, List.map_cons] at hsorted
        simpa using serial_length hsorted
    have hnew : (t.seeds i).minSeq.length = (s.seeds i).minSeq.length + 1 := by
      rw [hp.minSeq, hp.old]
      simp only [List.length_append, List.length_cons]
      omega
    rw [hp.count, UInt8.toNat_add, UInt8.toNat_one, h.count]
    omega
  · rw [hp.minSeqno]
    cases l₁ with
    | nil =>
      have hl₂ := hb.head rfl
      rw [if_pos (by rw [hp.old, hl₂]; rfl)]
      rw [hp.minSeq, hl₂] at hx
      obtain rfl : k = x := (List.cons.inj hx).1
      exact hp.seqSelf.symm
    | cons y ys =>
      have hy : (s.seeds i).minSeq = y :: (ys ++ l₂) := by rw [hp.old, List.cons_append]
      rw [if_neg (by rw [hy]; exact List.cons_ne_nil _ _), h.head y _ hy]
      rw [hp.minSeq, List.cons_append] at hx
      obtain rfl : y = x := (List.cons.inj hx).1
      refine (hp.seq y fun he => hk ?_).symm
      rw [hy, ← he]
      exact List.mem_cons_self ..

theorem Inv.place (h : Inv c s) (hp : Placed c s t i k q l₁ l₂) (hb : Between s.seq q l₁ l₂) (hi : i < c.seedSetSize)
    (hu : (s.seeds i).used) (hk : k < c.bufferedMessageSetSize) (hfree : (s.msgs k).seed = none) : Inv c t := by
  have hnot : ∀ {j : Nat}, j < c.seedSetSize → (s.seeds j).used → k ∉ (s.seeds j).minSeq := by
    intro j hj hju hmem
    have := (h.owned j hj hju k hmem).2
    rw [hfree] at this
    cases this
  refine ⟨fun j hj hju x hx => ?_, fun x hx j hj => ?_, fun j hj hju => ?_, fun j hj e he hju heu hid hdom => ?_,
    fun j hj e he => ?_, hp.wild.trans h.sound⟩
  · rw [hp.used] at hju
    by_cases hxk : x = k
    · rw [hxk] at hx ⊢
      refine ⟨hk, ?_⟩
      by_cases hji : j = i
      · rw [hji]
        exact hp.seedSelf
      · rw [hp.seeds j hji] at hx
        exact absurd hx (hnot hj hju)
    · rw [hp.seed x hxk]
      by_cases hji : j = i
      · rw [hji, hp.minSeq] at hx
        rw [hji]
        refine h.owned i hi hu x ?_
        rw [hp.old]
        rcases List.mem_append.1 hx with hx | hx
        · exact List.mem_append_left _ hx
        · exact List.mem_append_right _ ((List.mem_cons.1 hx).resolve_left hxk)
      · rw [hp.seeds j hji] at hx
        exact h.owned j hj hju x hx
  · by_cases hxk : x = k
    · rw [hxk, hp.seedSelf] at hj
      obtain rfl := Option.some.inj hj
      refine ⟨hi, by rwa [hp.used], ?_⟩
      rw [hxk, hp.minSeq]
      simp
    · rw [hp.seed x hxk] at hj
      obtain ⟨hjlt, hju, hmem⟩ := h.listed x hx j hj
      refine ⟨hjlt, by rwa [hp.used], ?_⟩
      by_cases hji : j = i
      · rw [hji, hp.old] at hmem
        rw [hji, hp.minSeq]
        rcases List.mem_append.1 hmem with hmem | hmem
        · exact List.mem_append_left _ hmem
        · exact List.mem_append_right _ (List.mem_cons_of_mem _ hmem)
      · rwa [hp.seeds j hji]
  · by_cases hji : j = i
    · rw [hji]
      exact hp.seedOk (h.seedOk i hi hu) hb (hnot hi hu)
    · rw [hp.used] at hju
      refine (h.seedOk j hj hju).congr (by rw [hp.seeds j hji]) (by rw [hp.seeds j hji]) (by rw [hp.seeds j hji]) ?_
      intro x hx
      exact hp.seq x fun he => hnot hj hju (he ▸ hx)
  · rw [hp.used] at hju heu
    rw [hp.seedIds, hp.seedIds] at hid
    rw [hp.seedDomains, hp.seedDomains] at hdom
    exact h.unique j hj e he hju heu hid hdom
  · rw [hp.seedDomains] at he
    exact domains_used (hp.dataAddr e) (h.domains j hj e he)

theorem Remembered.place (h : Remembered c s r) (hp : Placed c s t i k q l₁ l₂)
    (hk : ∀ j < c.seedSetSize, (s.seeds j).used → k ∉ (s.seeds j).minSeq)
    (hq : r.entry = i → (s.seeds i).minSeq = [] → (s.seeds i).minSeqno < q) : Remembered c t r := by
  have hke := hk r.entry h.entry h.used
  refine ⟨h.entry, ?_, ?_, ?_⟩
  · by_cases he : r.entry = i
    · rw [he, hp.domain, ← he, h.domain]
    · rw [hp.seeds _ he, h.domain]
  · by_cases he : r.entry = i
    · rw [he, hp.seedId, ← he, h.seed]
    · rw [hp.seeds _ he, h.seed]
  · by_cases he : r.entry = i
    · rcases h.seq with ⟨x, hx, hxq⟩ | hlt | ⟨hnil, heq⟩
      · refine .inl ⟨x, ?_, ?_⟩
        · rw [he, hp.old] at hx
          rw [he, hp.minSeq]
          rcases List.mem_append.1 hx with hx | hx
          · exact List.mem_append_left _ hx
          · exact List.mem_append_right _ (List.mem_cons_of_mem _ hx)
        · rw [hp.seq x fun hxk => hke (hxk ▸ hx), hxq]
      · refine .inr (.inl ?_)
        rw [he, hp.minSeqno]
        rw [he] at hlt
        split
        · rename_i hnil
          exact UInt8.lt_trans hlt (hq he hnil)
        · exact hlt
      · rw [he] at hnil heq
        refine .inr (.inl ?_)
        rw [he, hp.minSeqno, if_pos hnil, heq]
        exact hq he hnil
    · rcases h.seq with ⟨x, hx, hxq⟩ | hrest
      · exact .inl ⟨x, by rwa [hp.seeds _ he], by rw [hp.seq x fun hxk => hke (hxk ▸ hx), hxq]⟩
      · rw [hp.seeds _ he]
        exact .inr hrest

theorem Placed.remembered (hp : Placed c s t i k q l₁ l₂) (hi : i < c.seedSetSize) (hd : (s.seeds i).domain = some d) :
    Remembered c t ⟨i, d, (s.seeds i).seedId.id, q⟩ :=
  ⟨hi, hp.domain.trans hd, hp.seedId, .inl ⟨k, by rw [hp.minSeq]; simp, hp.seqSelf⟩⟩

/-! ## placeMessage -/

def withMessage (s : State) (q : UInt8) (i k : Nat) : List Nat :=
  if (s.seeds i).minSeq = [] then [k] else insertMsg (Function.update s.seq k q) k (s.seeds i).minSeq

/-- The state in which `placeMessage` accepts. -/
def placed (c : Conf) (m : DataMsg) (d i k : Nat) (s : State) : State :=
  { s with
    msgs := Function.update s.msgs k ⟨some i, if c.proactiveForwarding then ⟨true, 0⟩ else (s.msgs k).tt, m.seq⟩
    seeds := Function.update s.seeds i { s.seeds i with
      minSeq := withMessage s m.seq i k
      minSeqno := if (s.seeds i).minSeq = [] then m.seq else (s.seeds i).minSeqno
      count := (s.seeds i).count + 1
      lifetime := c.seedSetEntryLifetime }
    domains := if c.controlMessageTimerExpirations > 0 then
        Function.update s.domains d { s.domains d with tt := ⟨true, 0⟩ }
      else s.domains }

theorem placeMessage_accept {m : DataMsg} (hc : c.dataTimerOk = true) :
    placeMessage c m d i k s = (.accept, placed c m d i k s) := by
  have hseq : (fun j => (Function.update s.msgs k { s.msgs k with seq := m.seq, seed := some i } j).seq) =
      Function.update s.seq k m.seq := by
    funext j
    by_cases hj : j = k
    · rw [hj, Function.update_self, Function.update_self]
    · rw [Function.update_of_ne hj, Function.update_of_ne hj]
      rfl
  unfold placeMessage placed withMessage
  simp only [hc, Bool.not_true, Bool.false_eq_true, if_false, State.setMsg, State.setSeed, State.setDomain, hseq]
  by_cases hl : (s.seeds i).minSeq = [] <;> by_cases hf : c.proactiveForwarding <;>
    by_cases hd : c.controlMessageTimerExpirations > 0 <;>
    simp [hl, hf, hd, Function.update_idem]

theorem placeMessage_drop {m : DataMsg} (hc : c.dataTimerOk = false) :
    placeMessage c m d i k s = (.drop, bufferFree k (s.setMsg k { s.msgs k with seq := m.seq, seed := some i })) := by
  unfold placeMessage
  simp [hc]

theorem placed_placed {m : DataMsg} (hl : (s.seeds i).minSeq = l₁ ++ l₂) (hw : withMessage s m.seq i k = l₁ ++ k :: l₂) :
    Placed c s (placed c m d i k s) i k m.seq l₁ l₂ where
  seedSelf := by simp [placed]
  seqSelf := by simp [placed, State.seq]
  seed j hj := by simp [placed, Function.update_of_ne hj]
  seq j hj := by simp [placed, State.seq, Function.update_of_ne hj]
  old := hl
  minSeq := by simpa [placed] using hw
  minSeqno := by simp [placed]
  count := by simp [placed]
  seedId := by simp [placed]
  domain := by simp [placed]
  seeds j hj := by simp [placed, Function.update_of_ne hj]
  dataAddr e := by
    simp only [placed]
    split
    · by_cases hed : e = d
      · rw [hed, Function.update_self]
      · rw [Function.update_of_ne hed]
    · rfl
  ctrlAddr e := by
    simp only [placed]
    split
    · by_cases hed : e = d
      · rw [hed, Function.update_self]
      · rw [Function.update_of_ne hed]
    · rfl
  wild := rfl

/-- The numbers of a list agree with the new one both as bytes and as serial numbers. -/
def NoWrap (s : State) (i : Nat) (q : UInt8) : Prop :=
  ∀ x ∈ (s.seeds i).minSeq, (s.seq x < q → SerialLt (s.seq x) q) ∧ (q < s.seq x → SerialLt q (s.seq x))

theorem withMessage_between (h : SeedOk s.seq (s.seeds i)) (hk : k ∉ (s.seeds i).minSeq) (hw : NoWrap s i q)
    (hne : ∀ x ∈ (s.seeds i).minSeq, s.seq x ≠ q) (hhead : ∀ x l, (s.seeds i).minSeq = x :: l → s.seq x < q) :
    ∃ l₁ l₂, (s.seeds i).minSeq = l₁ ++ l₂ ∧ withMessage s q i k = l₁ ++ k :: l₂ ∧ Between s.seq q l₁ l₂ := by
  unfold withMessage
  cases hl : (s.seeds i).minSeq with
  | nil => exact ⟨[], [], rfl, rfl, by simp, by simp, fun _ => rfl⟩
  | cons x l =>
    rw [if_neg (List.cons_ne_nil x l)]
    have hne' : ∀ y ∈ x :: l, y ≠ k := fun y hy he => hk (by rw [hl, ← he]; exact hy)
    have hupd : ∀ y ∈ x :: l, Function.update s.seq k q y = s.seq y := fun y hy => Function.update_of_ne (hne' y hy) ..
    have hself : Function.update s.seq k q k = q := Function.update_self ..
    have horder : ((x :: l).map (Function.update s.seq k q)).Pairwise (· < ·) := by
      rw [List.map_congr_left hupd, ← hl]
      exact h.order
    obtain ⟨l₁, l₂, hsplit, hfirst, hins, h₁, h₂⟩ := insertMsg_split (k := k) horder
      (by rw [hupd x (by simp), hself]; exact hhead x l hl)
      (fun y hy => by rw [hupd y hy, hself]; exact hne y (hl ▸ hy))
    rw [hself] at h₁ h₂
    have hmem₁ : ∀ y ∈ l₁, y ∈ x :: l := fun y hy => by rw [hsplit]; exact List.mem_append_left _ hy
    have hmem₂ : ∀ y ∈ l₂, y ∈ x :: l := fun y hy => by rw [hsplit]; exact List.mem_append_right _ hy
    refine ⟨l₁, l₂, hsplit, hins, fun y hy => ?_, fun y hy => ?_, fun hnil => ?_⟩
    · have hlt := h₁ y hy
      rw [hupd y (hmem₁ y hy)] at hlt
      exact ⟨hlt, (hw y (hl ▸ hmem₁ y hy)).1 hlt⟩
    · have hlt := h₂ y hy
      rw [hupd y (hmem₂ y hy)] at hlt
      exact ⟨hlt, (hw y (hl ▸ hmem₂ y hy)).2 hlt⟩
    · rw [hnil] at hfirst
      cases hfirst

/-! ## Reclaiming a buffer -/

/-- The first message `k` of the seed `l` has left its list. -/
structure Reclaimed (c : Conf) (s t : State) (l k : Nat) (rest : List Nat) : Prop where
  seedSelf : (t.msgs k).seed = none
  seed : ∀ j, j ≠ k → (t.msgs j).seed = (s.msgs j).seed
  seq : ∀ j, j ≠ k → t.seq j = s.seq j
  old : (s.seeds l).minSeq = k :: rest
  minSeq : (t.seeds l).minSeq = rest
  minSeqno : (t.seeds l).minSeqno = s.seq (rest.headD k)
  count : (t.seeds l).count = (s.seeds l).count - 1
  seedId : (t.seeds l).seedId.id = (s.seeds l).seedId.id
  domain : (t.seeds l).domain = (s.seeds l).domain
  seeds : ∀ j, j ≠ l → t.seeds j = s.seeds j
  dataAddr : ∀ e, (t.domains e).dataAddr = (s.domains e).dataAddr
  ctrlAddr : ∀ e, (t.domains e).ctrlAddr = (s.domains e).ctrlAddr
  wild : t.wild = s.wild

theorem bufferReclaim_spec {rest : List Nat} (hl : largest c s = some l) (hne : l ≠ c.seedSetSize)
    (hk : (s.seeds l).minSeq = k :: rest) (hseed : (s.msgs k).seed = some l) :
    ∃ t, bufferReclaim c s = (some k, t) ∧ t.seedId = s.seedId ∧ Reclaimed c s t l k rest := by
  have hl' : largest c { s with outside := true } = some l := hl
  obtain ⟨d, hd⟩ := Option.isSome_iff_exists.1 (largest_some hl).used
  unfold bufferReclaim
  simp only [hl', if_neg hne, hk]
  refine ⟨_, rfl, ?_⟩
  simp only [reclaimTimerReset, State.setSeed, hseed, Option.bind_some, Function.update_self, hd, domainTimerReset,
    State.setDomain, State.setMsg]
  refine ⟨trivial, ?_, fun j hj => ?_, fun j hj => ?_, hk, ?_, ?_, ?_, ?_, ?_, fun j hj => ?_, fun e => ?_, fun e => ?_, rfl⟩
  · simp [Msg.zero]
  · simp [Function.update_of_ne hj]
  · simp [State.seq, Function.update_of_ne hj]
  · simp
  · simp only [Function.update_self]
    cases rest <;> rfl
  · simp
  · simp
  · simp [hd]
  · simp [Function.update_of_ne hj]
  · by_cases hed : e = d
    · simp only [hed, Function.update_self]
    · simp only [Function.update_of_ne hed]
  · by_cases hed : e = d
    · simp only [hed, Function.update_self]
    · simp only [Function.update_of_ne hed]

section

variable {rest : List Nat}

theorem Reclaimed.used (hp : Reclaimed c s t l k rest) (j : Nat) : (t.seeds j).used = (s.seeds j).used := by
  by_cases hj : j = l
  · rw [hj, Seed.used, Seed.used, hp.domain]
  · rw [hp.seeds j hj]

theorem Reclaimed.seedIds (hp : Reclaimed c s t l k rest) (j : Nat) :
    (t.seeds j).seedId.id = (s.seeds j).seedId.id := by
  by_cases hj : j = l
  · rw [hj, hp.seedId]
  · rw [hp.seeds j hj]

theorem Reclaimed.seedDomains (hp : Reclaimed c s t l k rest) (j : Nat) : (t.seeds j).domain = (s.seeds j).domain := by
  by_cases hj : j = l
  · rw [hj, hp.domain]
  · rw [hp.seeds j hj]

theorem Reclaimed.seedOk (hp : Reclaimed c s t l k rest) (h : SeedOk s.seq (s.seeds l)) : SeedOk t.seq (t.seeds l) := by
  have horder := h.order
  have hserial := h.serial
  rw [hp.old, List.map_cons, List.pairwise_cons] at horder hserial
  have hnot : k ∉ rest := fun hmem => absurd (horder.1 (s.seq k) (List.mem_map.2 ⟨k, hmem, rfl⟩)) (UInt8.lt_irrefl _)
  have hmap : rest.map t.seq = rest.map s.seq := List.map_congr_left fun x hx => hp.seq x fun he => hnot (he ▸ hx)
  refine ⟨by rw [hp.minSeq, hmap]; exact horder.2, by rw [hp.minSeq, hmap]; exact hserial.2, ?_, fun x xs hx => ?_⟩
  · have hc := h.count
    have hlt := (s.seeds l).count.toNat_lt
    rw [hp.old, List.length_cons] at hc
    rw [hp.count, hp.minSeq, UInt8.toNat_sub, UInt8.toNat_one, hc]
    omega
  · rw [hp.minSeq] at hx
    rw [hp.minSeqno]
    simp only [hx, List.headD_cons]
    refine (hp.seq x fun he => hnot ?_).symm
    rw [hx, ← he]
    exact List.mem_cons_self ..

theorem Inv.reclaim (h : Inv c s) (hp : Reclaimed c s t l k rest) (hl : l < c.seedSetSize) (hu : (s.seeds l).used) :
    Inv c t := by
  have hk := h.owned l hl hu k (by rw [hp.old]; exact List.mem_cons_self ..)
  have hother : ∀ {j : Nat}, j < c.seedSetSize → (s.seeds j).used → j ≠ l → k ∉ (s.seeds j).minSeq := by
    intro j hj hju hjl hmem
    have := (h.owned j hj hju k hmem).2
    rw [hk.2] at this
    exact hjl (Option.some.inj this).symm
  have hrest : k ∉ rest := by
    have horder := (h.seedOk l hl hu).order
    rw [hp.old, List.map_cons, List.pairwise_cons] at horder
    exact fun hmem => absurd (horder.1 (s.seq k) (List.mem_map.2 ⟨k, hmem, rfl⟩)) (UInt8.lt_irrefl _)
  refine ⟨fun j hj hju x hx => ?_, fun x hx j hj => ?_, fun j hj hju => ?_, fun j hj e he hju heu hid hdom => ?_,
    fun j hj e he => ?_, hp.wild.trans h.sound⟩
  · rw [hp.used] at hju
    by_cases hjl : j = l
    · rw [hjl, hp.minSeq] at hx
      rw [hjl, hp.seed x fun he => hrest (he ▸ hx)]
      exact h.owned l hl hu x (by rw [hp.old]; exact List.mem_cons_of_mem _ hx)
    · rw [hp.seeds j hjl] at hx
      rw [hp.seed x fun he => hother hj hju hjl (he ▸ hx)]
      exact h.owned j hj hju x hx
  · have hxk : x ≠ k := by
      rintro rfl
      rw [hp.seedSelf] at hj
      cases hj
    rw [hp.seed x hxk] at hj
    obtain ⟨hjlt, hju, hmem⟩ := h.listed x hx j hj
    refine ⟨hjlt, by rwa [hp.used], ?_⟩
    by_cases hjl : j = l
    · rw [hjl, hp.old] at hmem
      rw [hjl, hp.minSeq]
      exact (List.mem_cons.1 hmem).resolve_left hxk
    · rwa [hp.seeds j hjl]
  · rw [hp.used] at hju
    by_cases hjl : j = l
    · rw [hjl]
      exact hp.seedOk (h.seedOk l hl hu)
    · refine (h.seedOk j hj hju).congr (by rw [hp.seeds j hjl]) (by rw [hp.seeds j hjl]) (by rw [hp.seeds j hjl]) ?_
      intro x hx
      exact hp.seq x fun he => hother hj hju hjl (he ▸ hx)
  · rw [hp.used] at hju heu
    rw [hp.seedIds, hp.seedIds] at hid
    rw [hp.seedDomains, hp.seedDomains] at hdom
    exact h.unique j hj e he hju heu hid hdom
  · rw [hp.seedDomains] at he
    exact domains_used (hp.dataAddr e) (h.domains j hj e he)

theorem Remembered.reclaim (h : Remembered c s r) (hi : Inv c s) (hp : Reclaimed c s t l k rest)
    (hl : l < c.seedSetSize) (hu : (s.seeds l).used) : Remembered c t r := by
  refine ⟨h.entry, by rw [hp.seedDomains, h.domain], by rw [hp.seedIds, h.seed], ?_⟩
  by_cases he : r.entry = l
  · have hseq := h.seq
    rw [he] at hseq
    have hok := hi.seedOk l hl hu
    have horder := hok.order
    have hhead := hok.head k rest hp.old
    rw [hp.old, List.map_cons, List.pairwise_cons] at horder
    have hnot : k ∉ rest := fun hmem => absurd (horder.1 (s.seq k) (List.mem_map.2 ⟨k, hmem, rfl⟩)) (UInt8.lt_irrefl _)
    rw [he, hp.minSeq, hp.minSeqno]
    -- a number up to the old head is remembered through the new minimum
    have hbelow : ∀ {q : UInt8}, q < s.seq k ∨ q = s.seq k → q < s.seq (rest.headD k) ∨ rest = [] ∧ q = s.seq (rest.headD k) := by
      intro q hq
      cases rest with
      | nil =>
        rcases hq with hq | hq
        · exact .inl hq
        · exact .inr ⟨rfl, hq⟩
      | cons y ys =>
        have hky : s.seq k < s.seq y := horder.1 _ (List.mem_map.2 ⟨y, List.mem_cons_self .., rfl⟩)
        rcases hq with hq | hq
        · exact .inl (UInt8.lt_trans hq hky)
        · exact .inl (hq ▸ hky)
    rcases hseq with ⟨x, hx, hxq⟩ | hlt | ⟨hnil, -⟩
    · rw [hp.old] at hx
      rcases List.mem_cons.1 hx with rfl | hx
      · exact .inr (hbelow (.inr hxq.symm))
      · exact .inl ⟨x, hx, by rw [hp.seq x fun hxk => hnot (hxk ▸ hx), hxq]⟩
    · rw [hhead] at hlt
      exact .inr (hbelow (.inl hlt))
    · rw [hp.old] at hnil
      cases hnil
  · rw [hp.seeds _ he]
    rcases h.seq with ⟨x, hx, hxq⟩ | hrest
    · have hxk : x ≠ k := by
        rintro rfl
        have h₁ := (hi.owned r.entry h.entry h.used x hx).2
        have h₂ := (hi.owned l hl hu x (by rw [hp.old]; exact List.mem_cons_self ..)).2
        rw [h₁] at h₂
        exact he (Option.some.inj h₂)
      exact .inl ⟨x, hx, by rw [hp.seq x hxk, hxq]⟩
    · exact .inr hrest

end

end Contiki.Mpl
