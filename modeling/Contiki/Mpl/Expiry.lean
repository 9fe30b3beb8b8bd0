/-
The calls that free: a seed whose lifetime is over gives its buffers back, and a domain that this node has
left takes its seeds with it.
-/
import Contiki.Mpl.Accept

namespace Contiki.Mpl

open Contiki.Core Contiki.Lib

variable {c : Conf} {s t : State} {r : Accepted} {i k d : Nat} {a : Ipaddr}

/-- A call that frees seeds: the entries that are left remember what they did. -/
structure Shrinks (c : Conf) (s t : State) : Prop where
  inv : Inv c t
  remembered : ∀ r, Remembered c s r → (t.seeds r.entry).used → Remembered c t r
  used : ∀ i < c.seedSetSize, (t.seeds i).used → (s.seeds i).used

theorem Shrinks.refl (h : Inv c s) : Shrinks c s s := ⟨h, fun _ hr _ => hr, fun _ _ hu => hu⟩

theorem Shrinks.trans {u : State} (h : Shrinks c s t) (h' : Shrinks c t u) : Shrinks c s u where
  inv := h'.inv
  remembered r hr hu := h'.remembered r (h.remembered r hr (h'.used r.entry hr.entry hu)) hu
  used i hi hu := h.used i hi (h'.used i hi hu)

theorem SameSets.shrinks (h : Inv c s) (hs : SameSets c s t) : Shrinks c s t :=
  ⟨h.same hs, fun _ hr _ => hr.same hs, fun i hi hu => by rwa [hs.used hi] at hu⟩

/-! ## seed_set_free -/

theorem bufferFree_seed (j : Nat) : ((bufferFree k s).msgs j).seed = if j = k then none else (s.msgs j).seed := by
  unfold bufferFree
  by_cases hj : j = k
  · rw [if_pos hj, hj, setMsg_self]
  · rw [if_neg hj, setMsg_ne _ hj]

theorem bufferFree_seq (j : Nat) : (bufferFree k s).seq j = s.seq j := by
  unfold bufferFree State.seq
  by_cases hj : j = k
  · rw [hj, setMsg_self]
  · rw [setMsg_ne _ hj]

theorem foldl_bufferFree : ∀ (l : List Nat) (s : State),
    (∀ j, ((l.foldl (fun s k => bufferFree k s) s).msgs j).seed = if j ∈ l then none else (s.msgs j).seed) ∧
      (∀ j, (l.foldl (fun s k => bufferFree k s) s).seq j = s.seq j) ∧
      (l.foldl (fun s k => bufferFree k s) s) = { s with msgs := (l.foldl (fun s k => bufferFree k s) s).msgs }
  | [], s => ⟨fun j => by simp, fun _ => rfl, rfl⟩
  | k :: l, s => by
    obtain ⟨hseed, hseq, hrest⟩ := foldl_bufferFree l (bufferFree k s)
    rw [List.foldl_cons]
    refine ⟨fun j => ?_, fun j => ?_, ?_⟩
    · rw [hseed, bufferFree_seed]
      by_cases hj : j ∈ l
      · simp [hj]
      · by_cases hjk : j = k
        · simp [hjk]
        · simp [hj, hjk]
    · rw [hseq, bufferFree_seq]
    · rw [hrest]
      rfl

/-- What `seed_set_free` does. -/
structure SeedFreed (s t : State) (i : Nat) : Prop where
  seed : ∀ j, (t.msgs j).seed = if j ∈ (s.seeds i).minSeq then none else (s.msgs j).seed
  seq : ∀ j, t.seq j = s.seq j
  self : (t.seeds i).used = false
  seeds : ∀ j, j ≠ i → t.seeds j = s.seeds j
  domains : t.domains = s.domains
  maddrs : t.maddrs = s.maddrs
  outside : t.outside = s.outside
  wild : t.wild = s.wild

theorem seedSetFree_spec (i : Nat) (s : State) : SeedFreed s (seedSetFree i s) i := by
  obtain ⟨hseed, hseq, hrest⟩ := foldl_bufferFree (s.seeds i).minSeq s
  unfold seedSetFree
  rw [hrest]
  refine ⟨hseed, hseq, ?_, fun j hj => ?_, rfl, rfl, rfl, rfl⟩
  · rw [setSeed_self]
    rfl
  · rw [setSeed_ne _ hj]
    exact Function.update_of_ne hj ..

theorem SeedFreed.shrinks (hf : SeedFreed s t i) (h : Inv c s) (hi : i < c.seedSetSize) (hu : (s.seeds i).used) :
    Shrinks c s t := by
  have hne : ∀ {j : Nat}, (t.seeds j).used = true → j ≠ i := fun hj he => by
    rw [he, hf.self] at hj
    cases hj
  have hdisj : ∀ {j x : Nat}, j < c.seedSetSize → (s.seeds j).used → j ≠ i → x ∈ (s.seeds j).minSeq →
      x ∉ (s.seeds i).minSeq := by
    intro j x hj hju hji hx hxi
    have h₁ := (h.owned j hj hju x hx).2
    have h₂ := (h.owned i hi hu x hxi).2
    rw [h₁] at h₂
    exact hji (Option.some.inj h₂)
  refine ⟨⟨fun j hj hju x hx => ?_, fun x hx j hj => ?_, fun j hj hju => ?_, fun j hj e he hju heu hid hdom => ?_,
    fun j hj e he => ?_, hf.wild.trans h.sound⟩, fun r hr hru => ?_, fun j hj hju => ?_⟩
  · have hji := hne hju
    rw [hf.seeds j hji] at hju hx
    rw [hf.seed, if_neg (hdisj hj hju hji hx)]
    exact h.owned j hj hju x hx
  · rw [hf.seed] at hj
    split at hj
    · cases hj
    · rename_i hxi
      obtain ⟨hjlt, hju, hmem⟩ := h.listed x hx j hj
      have hji : j ≠ i := fun he => hxi (he ▸ hmem)
      rw [hf.seeds j hji]
      exact ⟨hjlt, hju, hmem⟩
  · have hji := hne hju
    rw [hf.seeds j hji] at hju ⊢
    exact (h.seedOk j hj hju).congr rfl rfl rfl fun x _ => hf.seq x
  · have hji := hne hju
    have hei := hne heu
    rw [hf.seeds j hji] at hju hid hdom
    rw [hf.seeds e hei] at heu hid hdom
    exact h.unique j hj e he hju heu hid hdom
  · rw [hf.domains]
    have hji := hne (show (t.seeds j).used = true by rw [Seed.used, he]; rfl)
    rw [hf.seeds j hji] at he
    exact h.domains j hj e he
  · have hri := hne hru
    refine ⟨hr.entry, by rw [hf.seeds _ hri, hr.domain], by rw [hf.seeds _ hri, hr.seed], ?_⟩
    rw [hf.seeds _ hri]
    simp only [hf.seq]
    exact hr.seq
  · rwa [hf.seeds j (hne hju)] at hju

/-! ## The lifetimes of the seeds -/

/-- A call that frees seeds, and leaves alone the domains, the addresses, what stands behind the seed set, and
whether that was read. -/
structure SeedsOnly (c : Conf) (s t : State) : Prop where
  shrinks : Shrinks c s t
  domains : t.domains = s.domains
  maddrs : t.maddrs = s.maddrs
  outside : t.outside = s.outside
  behind : t.seeds c.seedSetSize = s.seeds c.seedSetSize

theorem SeedsOnly.trans {u : State} (h : SeedsOnly c s t) (h' : SeedsOnly c t u) : SeedsOnly c s u :=
  ⟨h.shrinks.trans h'.shrinks, h'.domains.trans h.domains, h'.maddrs.trans h.maddrs, h'.outside.trans h.outside,
    h'.behind.trans h.behind⟩

theorem SameSets.lifetime (c : Conf) (s : State) (i : Nat) (v : UInt8) :
    SameSets c s (s.setSeed i { s.seeds i with lifetime := v }) := by
  have hj : ∀ j, j = i ∨ (s.setSeed i { s.seeds i with lifetime := v }).seeds j = s.seeds j := by
    intro j
    by_cases hji : j = i
    · exact .inl hji
    · exact .inr (setSeed_ne _ hji)
  refine ⟨fun _ => rfl, fun _ => rfl, fun j _ => ?_, fun j _ => ?_, fun j _ => ?_, fun j _ => ?_, fun j _ => ?_,
    fun _ h => h, id, rfl⟩ <;>
  · rcases hj j with rfl | hj
    · rw [setSeed_self]
    · rw [hj]

theorem seedLifetime_spec (h : Inv c s) (hi : i < c.seedSetSize) : SeedsOnly c s (seedLifetime i s) := by
  have hne : c.seedSetSize ≠ i := ne_of_gt hi
  have hfree : SeedsOnly c s (if (s.seeds i).used && (s.seeds i).lifetime = 0 &&
      (s.seeds i).minSeq.all (fun k => !(s.msgs k).tt.running) then seedSetFree i s else s) := by
    split
    · rename_i hcond
      simp only [Bool.and_eq_true] at hcond
      have hf := seedSetFree_spec i s
      exact ⟨hf.shrinks h hi hcond.1.1, hf.domains, hf.maddrs, hf.outside, hf.seeds _ hne⟩
    · exact ⟨Shrinks.refl h, rfl, rfl, rfl, rfl⟩
  unfold seedLifetime
  dsimp only
  generalize (if (s.seeds i).used && (s.seeds i).lifetime = 0 &&
      (s.seeds i).minSeq.all (fun k => !(s.msgs k).tt.running) then seedSetFree i s else s) = u at hfree ⊢
  split
  · exact hfree.trans ⟨SameSets.shrinks hfree.shrinks.inv (SameSets.lifetime c u i _), rfl, rfl, rfl, setSeed_ne _ hne⟩
  · exact hfree

theorem foldl_seedLifetime : ∀ (is : List Nat) {s : State}, Inv c s → (∀ i ∈ is, i < c.seedSetSize) →
    SeedsOnly c s (is.foldl (fun s i => seedLifetime i s) s)
  | [], s, h, _ => ⟨Shrinks.refl h, rfl, rfl, rfl, rfl⟩
  | i :: is, s, h, hi => by
    have hs := seedLifetime_spec h (hi i (List.mem_cons_self ..))
    rw [List.foldl_cons]
    exact hs.trans (foldl_seedLifetime is hs.shrinks.inv fun j hj => hi j (List.mem_cons_of_mem _ hj))

/-! ## domain_set_free -/

/-- One turn of the loop of `domain_set_free`. -/
def domainSeedFree (c : Conf) (d : Nat) (s : State) (i : Nat) : State :=
  if (s.seeds i).used && (s.seeds i).domain = some d then
    if i = c.seedSetSize then { s with wild := true } else seedSetFree i s
  else s

theorem domainSeedFree_spec (h : Inv c s) (hi : i < c.seedSetSize) :
    SeedsOnly c s (domainSeedFree c d s i) ∧ ((domainSeedFree c d s i).seeds i).domain ≠ some d ∧
      ∀ j, j ≠ i → (domainSeedFree c d s i).seeds j = s.seeds j := by
  unfold domainSeedFree
  split
  · rename_i hcond
    simp only [Bool.and_eq_true] at hcond
    have hf := seedSetFree_spec i s
    rw [if_neg (ne_of_lt hi)]
    refine ⟨⟨hf.shrinks h hi hcond.1, hf.domains, hf.maddrs, hf.outside, hf.seeds _ (ne_of_gt hi)⟩, fun he => ?_, hf.seeds⟩
    have := hf.self
    rw [Seed.used, he] at this
    cases this
  · rename_i hcond
    refine ⟨⟨Shrinks.refl h, rfl, rfl, rfl, rfl⟩, fun he => hcond ?_, fun _ _ => rfl⟩
    simp [he, Seed.used]

theorem foldl_domainSeedFree : ∀ (is : List Nat) {s : State}, Inv c s → (∀ i ∈ is, i < c.seedSetSize) →
    SeedsOnly c s (is.foldl (domainSeedFree c d) s) ∧
      (∀ i, (s.seeds i).domain ≠ some d → ((is.foldl (domainSeedFree c d) s).seeds i).domain ≠ some d) ∧
      ∀ i ∈ is, ((is.foldl (domainSeedFree c d) s).seeds i).domain ≠ some d
  | [], s, h, _ => ⟨⟨Shrinks.refl h, rfl, rfl, rfl, rfl⟩, fun _ hi => hi, by simp⟩
  | i :: is, s, h, hlt => by
    obtain ⟨hs, hself, hother⟩ := domainSeedFree_spec (d := d) h (hlt i (List.mem_cons_self ..))
    obtain ⟨hs', hkeep, hall⟩ := foldl_domainSeedFree is hs.shrinks.inv fun j hj => hlt j (List.mem_cons_of_mem _ hj)
    rw [List.foldl_cons]
    refine ⟨hs.trans hs', fun j hj => hkeep j ?_, fun j hj => ?_⟩
    · by_cases hji : j = i
      · rw [hji]
        exact hself
      · rwa [hother j hji]
    · rcases List.mem_cons.1 hj with rfl | hj
      · exact hkeep j hself
      · exact hall j hj

theorem maddrRm_spec (c : Conf) (a : Ipaddr) (s : State) :
    ∃ maddrs, maddrRm c a s = { s with maddrs := maddrs } ∧ ∀ i b, b ≠ a → s.maddrs i = some b → maddrs i = some b := by
  unfold maddrRm
  cases hl : maddrLookup c a s with
  | none => exact ⟨s.maddrs, rfl, fun _ _ _ h => h⟩
  | some j =>
    have hj : s.maddrs j = some a := by simpa using List.find?_some hl
    refine ⟨_, rfl, fun i b hba hi => ?_⟩
    have hij : i ≠ j := fun he => by
      rw [he, hj] at hi
      exact hba (Option.some.inj hi).symm
    rwa [Function.update_of_ne hij]

theorem maddrLookup_some {j : Nat} (h : maddrLookup c a s = some j) : j < c.maddrNb ∧ s.maddrs j = some a :=
  ⟨List.mem_range.1 (List.mem_of_find?_eq_some h), by simpa using List.find?_some h⟩

theorem maddrLookup_ne_none {j : Nat} (hj : j < c.maddrNb) (h : s.maddrs j = some a) : maddrLookup c a s ≠ none := by
  intro hn
  have := List.find?_eq_none.1 hn j (List.mem_range.2 hj)
  simp [h] at this

theorem maddrLookup_rm {b : Ipaddr} (hab : a ≠ b) (h : maddrLookup c a s ≠ none) : maddrLookup c a (maddrRm c b s) ≠ none := by
  obtain ⟨j, hj⟩ := Option.ne_none_iff_exists'.1 h
  obtain ⟨hjlt, hja⟩ := maddrLookup_some hj
  obtain ⟨maddrs, hm, hkeep⟩ := maddrRm_spec c b s
  rw [hm]
  exact maddrLookup_ne_none hjlt (hkeep j a hab hja)

/-- What a freed domain leaves. -/
structure DomainFreed (c : Conf) (s t : State) (d : Nat) : Prop where
  shrinks : Shrinks c s t
  self : (t.domains d).used = false
  domains : ∀ e, e ≠ d → t.domains e = s.domains e
  behind : t.seeds c.seedSetSize = s.seeds c.seedSetSize
  maddrs : ∀ b, b ≠ (s.domains d).dataAddr → b ≠ (s.domains d).ctrlAddr → maddrLookup c b s ≠ none →
    maddrLookup c b t ≠ none

theorem domainSetFree_eq (c : Conf) (d : Nat) (s : State) : domainSetFree c d s =
    let u := (down (c.seedSetSize + 1)).foldl (domainSeedFree c d) { s with outside := true }
    let u := maddrRm c (u.domains d).dataAddr u
    let u := maddrRm c (u.domains d).ctrlAddr u
    u.setDomain d { u.domains d with dataAddr := fun _ => 0, tt := { (u.domains d).tt with running := false } } := rfl

theorem Shrinks.domain (h : Inv c s) (hd : ∀ i < c.seedSetSize, (s.seeds i).domain ≠ some d)
    (maddrs : Nat → Option Ipaddr) (v : Domain) : Shrinks c s ({ s with maddrs := maddrs }.setDomain d v) := by
  refine ⟨⟨h.owned, h.listed, h.seedOk, h.unique, fun i hi e he => ?_, h.sound⟩, fun r hr _ => ⟨hr.entry, hr.domain, hr.seed, hr.seq⟩,
    fun _ _ hu => hu⟩
  have hed : e ≠ d := fun hed => hd i hi (by rw [← hed]; exact he)
  show (Function.update s.domains d v e).used
  rw [Function.update_of_ne hed]
  exact h.domains i hi e he

theorem domainSetFree_spec (h : Inv c s) (hb : (s.seeds c.seedSetSize).domain ≠ some d) :
    DomainFreed c s (domainSetFree c d s) d := by
  have hout : SameSets c s { s with outside := true } :=
    ⟨fun _ => rfl, fun _ => rfl, fun _ _ => rfl, fun _ _ => rfl, fun _ _ => rfl, fun _ _ => rfl, fun _ _ => rfl,
      fun _ h => h, id, rfl⟩
  have hskip : domainSeedFree c d { s with outside := true } c.seedSetSize = { s with outside := true } := by
    unfold domainSeedFree
    rw [if_neg (by simp [hb])]
  rw [domainSetFree_eq, down_succ, List.foldl_cons, hskip]
  obtain ⟨hs, -, hall⟩ := foldl_domainSeedFree (d := d) (down c.seedSetSize) (h.same hout) fun i hi => mem_down.1 hi
  generalize (down c.seedSetSize).foldl (domainSeedFree c d) { s with outside := true } = u at hs hall
  have hdom : u.domains = s.domains := hs.domains
  have hmaddrs : ∀ b, maddrLookup c b u = maddrLookup c b s := fun b => by rw [maddrLookup, hs.maddrs, maddrLookup]
  have hrm₁ : ∀ b, b ≠ (s.domains d).dataAddr → maddrLookup c b u ≠ none →
      maddrLookup c b (maddrRm c (u.domains d).dataAddr u) ≠ none := by
    intro b hne hl
    rw [hdom]
    exact maddrLookup_rm hne hl
  obtain ⟨m₁, hm₁, -⟩ := maddrRm_spec c (u.domains d).dataAddr u
  rw [hm₁] at hrm₁
  dsimp only
  rw [hm₁]
  have hrm₂ : ∀ b, b ≠ (s.domains d).ctrlAddr → maddrLookup c b { u with maddrs := m₁ } ≠ none →
      maddrLookup c b (maddrRm c (u.domains d).ctrlAddr { u with maddrs := m₁ }) ≠ none := by
    intro b hne hl
    rw [hdom]
    exact maddrLookup_rm hne hl
  obtain ⟨m₂, hm₂, -⟩ := maddrRm_spec c (u.domains d).ctrlAddr { u with maddrs := m₁ }
  rw [hm₂] at hrm₂
  dsimp only
  rw [hm₂]
  have hd : ∀ i < c.seedSetSize, (u.seeds i).domain ≠ some d := fun i hi => hall i (mem_down.2 hi)
  refine ⟨((SameSets.shrinks h hout).trans hs.shrinks).trans (Shrinks.domain hs.shrinks.inv hd m₂ _), ?_, fun e he => ?_,
    hs.behind, fun b hb₁ hb₂ hl => ?_⟩
  · show (Function.update u.domains d _ d).used = false
    rw [Function.update_self]
    simp [Domain.used]
  · show Function.update u.domains d _ e = s.domains e
    rw [Function.update_of_ne he, hdom]
  · rw [← hmaddrs b] at hl
    exact hrm₂ b hb₂ (hrm₁ b hb₁ hl)

/-! ## mpl_maddr_check -/

theorem domainSetAllocate_shape (c : Conf) (a : Ipaddr) (s : State) :
    ∃ maddrs, (∀ i x, s.maddrs i = some x → maddrs i = some x) ∧
      ((domainSetAllocate c a s).2 = { s with maddrs := maddrs } ∨
        ∃ d v, (domainSetAllocate c a s).2 = { s with maddrs := maddrs }.setDomain d v ∧
          (v.used → domainAddrs c a s = some (v.dataAddr, v.ctrlAddr))) := by
  unfold domainSetAllocate
  cases ha : domainAddrs c a s with
  | none => exact ⟨s.maddrs, fun _ _ h => h, .inl rfl⟩
  | some p =>
    obtain ⟨b, e⟩ := p
    dsimp only
    cases hf : (down c.domainSetSize).find? fun d => !(s.domains d).used with
    | none => exact ⟨s.maddrs, fun _ _ h => h, .inl rfl⟩
    | some d =>
      dsimp only
      cases hm : (if (maddrLookup c e s).isSome then some s else maddrAdd c e s) with
      | none => exact ⟨s.maddrs, fun _ _ h => h, .inl rfl⟩
      | some u =>
        obtain ⟨maddrs, hmaddrs, rfl⟩ : ∃ maddrs, (∀ i x, s.maddrs i = some x → maddrs i = some x) ∧
            u = { s with maddrs := maddrs } := by
          split at hm
          · obtain rfl := Option.some.inj hm
            exact ⟨s.maddrs, fun _ _ h => h, rfl⟩
          · unfold maddrAdd at hm
            split at hm
            · cases hm
            · obtain ⟨i, hi, rfl⟩ := Option.map_eq_some_iff.1 hm
              have hfree : s.maddrs i = none := by simpa using List.find?_some hi
              refine ⟨_, fun j x hj => ?_, rfl⟩
              have hji : j ≠ i := fun he => by
                rw [he, hfree] at hj
                cases hj
              rwa [Function.update_of_ne hji]
        refine ⟨maddrs, hmaddrs, .inr ?_⟩
        cases hc : c.controlTimerOk with
        | true => exact ⟨d, _, rfl, fun _ => rfl⟩
        | false => exact ⟨d, _, rfl, fun hu => by simp [Domain.used] at hu⟩

/-- A domain that is used after the first loop was used before, or its address is in the table. -/
structure Checked (c : Conf) (s t : State) : Prop where
  same : SameSets c s t
  seeds : t.seeds = s.seeds
  outside : t.outside = s.outside
  ok : DomainsOk t
  maddrs : ∀ i x, s.maddrs i = some x → t.maddrs i = some x
  domains : ∀ d, (t.domains d).used → maddrLookup c (t.domains d).dataAddr t = none → t.domains d = s.domains d

theorem maddrLookup_mono (hm : ∀ i x, s.maddrs i = some x → t.maddrs i = some x) (h : maddrLookup c a s ≠ none) :
    maddrLookup c a t ≠ none := by
  obtain ⟨j, hj⟩ := Option.ne_none_iff_exists'.1 h
  obtain ⟨hjlt, hja⟩ := maddrLookup_some hj
  exact maddrLookup_ne_none hjlt (hm j a hja)

def maddrCheck (c : Conf) (s : State) (i : Nat) : State :=
  match s.maddrs i with
  | some a => if scope a > 2 && domainSetLookup c a s = none then (domainSetAllocate c a s).2 else s
  | none => s

theorem maddrCheck_spec (h : DomainsOk s) (hi : i < c.maddrNb) : Checked c s (maddrCheck c s i) := by
  have hrefl : Checked c s s := ⟨SameSets.refl c s, rfl, rfl, h, fun _ _ hx => hx, fun _ _ _ => rfl⟩
  unfold maddrCheck
  cases ha : s.maddrs i with
  | none => exact hrefl
  | some a =>
    dsimp only
    split
    · rename_i hcond
      obtain ⟨hsame, -, hout, hseeds, -⟩ := domainSetAllocate_spec c a s
      have hok := hsame.ok h
      obtain ⟨maddrs, hmaddrs, hs | ⟨d, v, hs, hv⟩⟩ := domainSetAllocate_shape c a s
      · rw [hs] at hsame hout hseeds hok ⊢
        exact ⟨hsame, hseeds, hout, hok, hmaddrs, fun _ _ _ => rfl⟩
      · rw [hs] at hsame hout hseeds hok ⊢
        refine ⟨hsame, hseeds, hout, hok, hmaddrs, fun e he hl => ?_⟩
        by_cases hed : e = d
        · have hself : (State.setDomain { s with maddrs := maddrs } d v).domains e = v := by
            rw [hed]
            exact Function.update_self ..
          rw [hself] at he hl
          -- its data address is the element of the table itself
          have hscope : scope a ≠ 2 := by
            intro h2
            rw [h2] at hcond
            simp at hcond
          have haddrs := hv he
          rw [domainAddrs, if_neg hscope] at haddrs
          rw [← (Prod.mk.inj (Option.some.inj haddrs)).1] at hl
          exact absurd hl (maddrLookup_ne_none hi (hmaddrs i a ha))
        · exact Function.update_of_ne hed ..
    · exact hrefl

theorem foldl_maddrCheck : ∀ (is : List Nat) {s : State}, DomainsOk s → (∀ i ∈ is, i < c.maddrNb) →
    Checked c s (is.foldl (maddrCheck c) s)
  | [], s, h, _ => ⟨SameSets.refl c s, rfl, rfl, h, fun _ _ hx => hx, fun _ _ _ => rfl⟩
  | i :: is, s, h, hi => by
    have h₁ := maddrCheck_spec h (hi i (List.mem_cons_self ..))
    have h₂ := foldl_maddrCheck is h₁.ok fun j hj => hi j (List.mem_cons_of_mem _ hj)
    rw [List.foldl_cons]
    refine ⟨h₁.same.trans h₂.same, h₂.seeds.trans h₁.seeds, h₂.outside.trans h₁.outside, h₂.ok,
      fun j x hx => h₂.maddrs j x (h₁.maddrs j x hx), fun d hd hl => ?_⟩
    have heq := h₂.domains d hd hl
    rw [heq] at hd hl
    refine heq.trans (h₁.domains d hd ?_)
    by_contra hne
    exact maddrLookup_mono h₂.maddrs hne hl

def Left (c : Conf) (s : State) (d : Nat) : Prop := (s.domains d).used ∧ maddrLookup c (s.domains d).dataAddr s = none

def domainCheck (c : Conf) (s : State) (d : Nat) : State :=
  if (s.domains d).used && maddrLookup c (s.domains d).dataAddr s = none then domainSetFree c d s else s

theorem foldl_domainCheck : ∀ (ds : List Nat) {s : State}, Inv c s → DomainsOk s →
    (∀ d, Left c s d → (s.seeds c.seedSetSize).domain ≠ some d) →
    Shrinks c s (ds.foldl (domainCheck c) s) ∧ DomainsOk (ds.foldl (domainCheck c) s)
  | [], s, h, hok, _ => ⟨Shrinks.refl h, hok⟩
  | d :: ds, s, h, hok, hb => by
    rw [List.foldl_cons]
    by_cases hd : Left c s d
    · have hstep : domainCheck c s d = domainSetFree c d s := by
        rw [domainCheck, if_pos (by simpa [Left] using hd)]
      have hf := domainSetFree_spec h (hb d hd)
      have hne : ∀ {e : Nat}, ((domainSetFree c d s).domains e).used = true → e ≠ d := fun he hed => by
        rw [hed, hf.self] at he
        cases he
      have hok' : DomainsOk (domainSetFree c d s) := by
        intro e he
        have hed := hne he
        rw [hf.domains e hed] at he ⊢
        exact hok e he
      rw [hstep]
      have hrec := foldl_domainCheck ds hf.shrinks.inv hok' fun e he => ?_
      · exact ⟨hf.shrinks.trans hrec.1, hrec.2⟩
      · -- a domain whose address is there keeps it: only link-local addresses were removed
        have hed := hne he.1
        rw [hf.behind]
        refine hb e ⟨by rw [← hf.domains e hed]; exact he.1, ?_⟩
        by_contra hl
        refine hf.maddrs _ ?_ ?_ hl (by rw [← hf.domains e hed]; exact he.2)
        · intro heq
          rw [heq] at hl
          exact hl hd.2
        · intro heq
          have hu : (s.domains e).used := by
            rw [← hf.domains e hed]
            exact he.1
          exact (hok e hu).1 (by rw [heq]; exact (hok d hd.1).2)
    · have hstep : domainCheck c s d = s := by
        rw [domainCheck, if_neg (by simpa [Left] using hd)]
      rw [hstep]
      exact foldl_domainCheck ds h hok hb

theorem foldl_domainCheck_none : ∀ (ds : List Nat) {s : State}, (∀ d, ¬ Left c s d) → ds.foldl (domainCheck c) s = s
  | [], _, _ => rfl
  | d :: ds, s, h => by
    have hstep : domainCheck c s d = s := by
      rw [domainCheck, if_neg (by simpa [Left] using h d)]
    rw [List.foldl_cons, hstep]
    exact foldl_domainCheck_none ds h

theorem mplMaddrCheck_eq (c : Conf) (s : State) :
    mplMaddrCheck c s = (down c.domainSetSize).foldl (domainCheck c) ((down c.maddrNb).foldl (maddrCheck c) s) := rfl

theorem mplMaddrCheck_spec (h : Inv c s) (hok : DomainsOk s)
    (hb : ∀ d, Left c s d → (s.seeds c.seedSetSize).domain ≠ some d) :
    Shrinks c s (mplMaddrCheck c s) ∧ DomainsOk (mplMaddrCheck c s) ∧
      ((∀ d, ¬ Left c s d) → (mplMaddrCheck c s).outside = s.outside) := by
  have hc := foldl_maddrCheck (down c.maddrNb) hok fun i hi => mem_down.1 hi
  rw [mplMaddrCheck_eq]
  generalize (down c.maddrNb).foldl (maddrCheck c) s = u at hc
  have hleft : ∀ d, Left c u d → Left c s d := by
    intro d hd
    have heq := hc.domains d hd.1 hd.2
    rw [Left, heq] at hd
    refine ⟨hd.1, ?_⟩
    by_contra hne
    exact maddrLookup_mono hc.maddrs hne hd.2
  obtain ⟨hs, hok'⟩ := foldl_domainCheck (down c.domainSetSize) (h.same hc.same) hc.ok fun d hd => by
    rw [hc.seeds]
    exact hb d (hleft d hd)
  refine ⟨(SameSets.shrinks h hc.same).trans hs, hok', fun hn => ?_⟩
  rw [foldl_domainCheck_none _ fun d hd => hn d (hleft d hd), hc.outside]

theorem lifetimeTimerExpiration_spec (h : Inv c s) (hok : DomainsOk s)
    (hb : ∀ d, Left c s d → (s.seeds c.seedSetSize).domain ≠ some d) :
    Shrinks c s (lifetimeTimerExpiration c s) ∧ DomainsOk (lifetimeTimerExpiration c s) ∧
      ((∀ d, ¬ Left c s d) → (lifetimeTimerExpiration c s).outside = s.outside) := by
  have hs := foldl_seedLifetime (down c.seedSetSize) h fun i hi => mem_down.1 hi
  unfold lifetimeTimerExpiration
  generalize (down c.seedSetSize).foldl (fun s i => seedLifetime i s) s = u at hs
  have hleft : ∀ d, Left c u d ↔ Left c s d := fun d => by
    rw [Left, Left, hs.domains, maddrLookup, maddrLookup, hs.maddrs]
  have hok' : DomainsOk u := fun d hd => by
    rw [hs.domains] at hd ⊢
    exact hok d hd
  obtain ⟨hm, hmok, hmout⟩ := mplMaddrCheck_spec hs.shrinks.inv hok' fun d hd => by
    rw [hs.behind]
    exact hb d ((hleft d).1 hd)
  refine ⟨hs.shrinks.trans hm, hmok, fun hn => ?_⟩
  rw [hmout fun d hd => hn d ((hleft d).1 hd), hs.outside]

end Contiki.Mpl
