/-
The counters of the zones against the chunks allocated in them. A counter follows the size a call asks
for, the chunk the size it gets: the two agree all along a run exactly when every chunk that is picked
fits or can be split, and no object moves.
-/
import Contiki.Heapmem.Safety

namespace Contiki.Heapmem

open Contiki.Lib Contiki.Lib.Mem

/-! ## What a zone holds -/

/-- The loop of `held` from the chunk at `p`. -/
@[grind =]
def heldLoop (c : Config) (z : Nat) (h : Heap) : Nat → Nat → Nat
  | 0, _ => 0
  | fuel + 1, p =>
    if p < c.base + h.heapUsage then
      (if chunkAllocated c p h.mem ∧ chunkZone c p h.mem = z then c.chunkSize + chunkSizeOf c p h.mem else 0) +
        heldLoop c z h fuel (nextChunk c p h.mem)
    else 0

/-- The bytes of the chunks allocated in the zone, headers included, by a walk over the chunks. -/
def held (c : Config) (z : Nat) (h : Heap) : Nat := heldLoop c z h h.heapUsage c.base

def Counted (c : Config) (h : Heap) : Prop := ∀ z < c.maxZones, (h.zones z).allocated = held c z h

def heldOf (c : Config) (z : Nat) (us : List Blk) : Nat :=
  (us.map fun b => if b.st = .used z then c.chunkSize + b.size else 0).sum

variable {c : Config} {h h' : Heap} {bs bs' us us' : List Blk} {z : Nat}

@[simp] theorem heldOf_nil : heldOf c z [] = 0 := rfl

@[simp] theorem heldOf_cons (b : Blk) : heldOf c z (b :: us) =
    (if b.st = .used z then c.chunkSize + b.size else 0) + heldOf c z us := by
  simp [heldOf]

theorem heldOf_perm (hp : us.Perm us') : heldOf c z us = heldOf c z us' := (hp.map _).sum_eq

theorem heldOf_used : ∀ bs : List Blk, heldOf c z (usedOf bs) = heldOf c z bs
  | [] => rfl
  | b :: bs => by
    cases hst : b.st with
    | used k => rw [usedOf_cons_used hst, heldOf_cons, heldOf_cons, heldOf_used bs]
    | free => rw [usedOf_cons_unused (by rw [hst]; rfl), heldOf_cons, if_neg (by rw [hst]; simp), heldOf_used bs, Nat.zero_add]
    | detached =>
      rw [usedOf_cons_unused (by rw [hst]; rfl), heldOf_cons, if_neg (by rw [hst]; simp), heldOf_used bs, Nat.zero_add]

theorem heldOf_le (z : Nat) : ∀ {bs : List Blk} {a e : Nat}, Tiles c a bs e → a + heldOf c z bs ≤ e
  | [], a, e, ht => by have : a = e := ht; simp [this]
  | b :: bs, a, e, ⟨_, ht⟩ => by
    have ih := heldOf_le z ht
    rw [heldOf_cons]
    split <;> omega

theorem heldLoop_eq (hok : ∀ b ∈ bs, b.Ok c h.mem) (hw : Whole bs) :
    ∀ {fuel p : Nat}, Tiles c p bs (c.base + h.heapUsage) → bs.length ≤ fuel → heldLoop c z h fuel p = heldOf c z bs := by
  induction bs with
  | nil =>
    intro fuel p ht _
    have hp : p = c.base + h.heapUsage := ht
    cases fuel with
    | zero => rfl
    | succ fuel => rw [heldLoop, if_neg (by omega), heldOf_nil]
  | cons b bs ih =>
    intro fuel p ht hlen
    obtain ⟨rfl, ht⟩ := ht
    have hle := ht.le
    have hS := c.chunkSize_pos
    have hb := hok b (by simp)
    cases fuel with
    | zero => simp at hlen
    | succ fuel =>
      have hnext : nextChunk c b.addr h.mem = b.addr + c.chunkSize + b.size := by
        unfold nextChunk; rw [hb.size]
      rw [heldLoop, if_pos (by omega), heldOf_cons, hnext, hb.size,
        ih (fun d hd => hok d (List.mem_cons_of_mem _ hd)) (Whole.cons.1 hw).2 ht (by simpa using hlen)]
      congr 1
      cases hst : b.st with
      | used k =>
        obtain ⟨h₁, h₂, -⟩ := hb.used k hst
        simp [h₁, h₂]
      | free => simp [hb.free hst]
      | detached => exact absurd hst (hw b (by simp))

theorem held_eq (hh : Holds c h bs) (hp : (usedOf bs).Perm us) : held c z h = heldOf c z us := by
  obtain ⟨hw, fl, hr⟩ := hh
  have hlen := hr.tiles.length
  rw [← heldOf_perm hp, heldOf_used]
  exact heldLoop_eq hr.ok hw hr.tiles (by omega)

theorem held_le (hh : Holds c h bs) (hp : (usedOf bs).Perm us) : heldOf c z us ≤ c.arena := by
  obtain ⟨-, fl, hr⟩ := hh
  have h₁ := heldOf_le z hr.tiles
  have h₂ := hr.usage
  rw [← heldOf_perm hp, heldOf_used]
  omega

/-! ## One call -/

theorem setAllocated_allocated (zone v : Nat) : ((setAllocated zone v h).zones z).allocated =
    if z = zone then v else (h.zones z).allocated := by
  unfold setAllocated
  dsimp only
  by_cases hz : z = zone
  · subst hz; simp
  · simp [hz]

theorem counted_iff {zone v : Nat} (hc : Counted c h) (hzone : zone < c.maxZones) (hh : Holds c h bs)
    (hp : (usedOf bs).Perm us) (hh' : Holds c h' bs') (hp' : (usedOf bs').Perm us')
    (hz : h'.zones = (setAllocated zone v h).zones) (hother : ∀ z, z ≠ zone → heldOf c z us' = heldOf c z us) :
    Counted c h' ↔ v = heldOf c zone us' := by
  constructor
  · intro hc'
    have hat := hc' zone hzone
    rw [hz, setAllocated_allocated, if_pos rfl, held_eq hh' hp'] at hat
    exact hat
  · intro hv z hzm
    rw [hz, setAllocated_allocated, held_eq hh' hp']
    split
    · rename_i he
      rw [he]; exact hv
    · rename_i he
      rw [hother z he, hc z hzm, held_eq hh hp]

theorem counted_same (hc : Counted c h) (hh : Holds c h bs) (hp : (usedOf bs).Perm us) (hh' : Holds c h' bs')
    (hp' : (usedOf bs').Perm us) (hz : ∀ z, (h'.zones z).allocated = (h.zones z).allocated) : Counted c h' := by
  intro z hzm
  rw [hz, hc z hzm, held_eq hh hp, held_eq hh' hp']

theorem heapmemZoneAlloc_counted {zone size : Nat} (hc : Counted c h) (hh : Holds c h bs) :
    Counted c (heapmemZoneAlloc c zone size h).2 ↔ (Granted c zone size h → AllocExact c size h) := by
  obtain ⟨hgr, hnone, hsome⟩ := @heapmemZoneAlloc_rep _ _ _ zone size hh
  have hp := List.Perm.refl (usedOf bs)
  by_cases hg : Granted c zone size h
  · obtain ⟨n, bs', ⟨hh', hu, -, -⟩, hle, -, hexact, hz⟩ := hsome hg
    rw [counted_iff hc hg.1 hh hp hh' hu hz fun z hne => ?_]
    · have hbound := held_le (z := zone) hh' hu
      have haw := c.arena_word
      rw [heldOf_cons, if_pos rfl] at hbound ⊢
      dsimp only at hbound ⊢
      rw [hc zone hg.1, held_eq hh hp, c.wordAdd_natCast (by omega)]
      constructor
      · exact fun he _ => hexact.1 (by omega)
      · intro he
        have := hexact.2 (he hg)
        omega
    · rw [heldOf_cons, if_neg (by simpa using Ne.symm hne), Nat.zero_add]
  · have h0 : (heapmemZoneAlloc c zone size h).1 = 0 := by
      by_contra hne
      exact hg (hgr.1 hne)
    obtain ⟨bs', hh', hre⟩ := hnone h0
    refine ⟨fun _ hg' => absurd hg' hg, fun _ => ?_⟩
    refine counted_same hc hh hp hh' (by rw [hre.used]) fun z => by rw [hre.zones]

theorem heapmemFree_counted {b : Blk} {rest : List Blk} (hc : Counted c h) (hh : Holds c h bs)
    (hu : (usedOf bs).Perm (b :: rest)) (hb : b.st = .used z) (hz : z < c.maxZones) :
    Counted c (heapmemFree c (getPtr c b.addr) h).2 := by
  obtain ⟨h', bs', he, hh', hu', -, hzones⟩ := heapmemFree_rep hh hu hb
  rw [he]
  refine (counted_iff hc hz hh hu hh' hu' hzones fun k hk => ?_).2 ?_
  · rw [heldOf_cons, if_neg (by rw [hb]; simpa using Ne.symm hk), Nat.zero_add]
  · have hbound := held_le (z := z) hh hu
    have haw := c.arena_word
    rw [hc z hz, held_eq hh hu]
    rw [heldOf_cons, if_pos hb] at hbound ⊢
    rw [c.wordSub_of_le (by omega) (by omega)]
    omega

theorem resizeObject_counted {b : Blk} {rest : List Blk} {size : Nat} {r : Nat × Heap} (hc : Counted c h)
    (hh : Holds c h bs) (hu : (usedOf bs).Perm (b :: rest)) (hb : b.st = .used z) (hz : z < c.maxZones)
    (hr : Resized c h b rest z size r) : Counted c r.2 ↔ ResizeExact c (getPtr c b.addr) size h := by
  have hold := held_eq (z := z) hh hu
  have hpos : 0 < b.size := by
    obtain ⟨-, fl, hrep⟩ := hh
    exact (hrep.ok b (mem_usedOf.1 (hu.mem_iff.2 (by simp))).1).pos
  rw [heldOf_cons, if_pos hb] at hold
  have haw := c.arena_word
  have hother : ∀ (p n k : Nat), k ≠ z → heldOf c k ((⟨p, n, .used z⟩ : Blk) :: rest) = heldOf c k rest := by
    intro p n k hk
    rw [heldOf_cons, if_neg (by simpa using Ne.symm hk), Nat.zero_add]
  have hrest : ∀ k, k ≠ z → heldOf c k (b :: rest) = heldOf c k rest := by
    intro k hk
    rw [heldOf_cons, if_neg (by rw [hb]; simpa using Ne.symm hk), Nat.zero_add]
  have hwith : ∀ n, ({ b with size := n } : Blk) = ⟨b.addr, n, .used z⟩ := fun n => by rw [← hb]
  cases hr with
  | kept h' bs' n holds used le keeps data zones exact =>
    rw [hwith] at used
    have hnew := held_le (z := z) holds used
    rw [heldOf_cons, if_pos rfl] at hnew
    dsimp only at hnew
    rw [counted_iff hc hz hh hu holds used zones fun k hk => (hother _ _ k hk).trans (hrest k hk).symm, ← exact,
      heldOf_cons, if_pos rfl, hc z hz, hold]
    dsimp only
    have hadd : ((c.chunkSize + b.size + heldOf c z rest : Nat) : Int) + ((size : Int) - b.size) =
        ((c.chunkSize + heldOf c z rest : Nat) : Int) + (size : Nat) := by push_cast; ring
    have hw : c.wordAdd (c.chunkSize + b.size + heldOf c z rest) ((size : Int) - b.size) =
        c.chunkSize + heldOf c z rest + size := by
      have hn := c.wordAdd_natCast (a := c.chunkSize + heldOf c z rest) (x := size) (by omega)
      unfold Config.wordAdd at hn ⊢
      rw [hadd]; exact hn
    rw [hw]
    omega
  | failed h' bs' n holds used le keeps zones exact =>
    rw [hwith] at used
    rw [← exact]
    constructor
    · intro hc'
      have hat := hc' z hz
      rw [zones, hc z hz, hold, held_eq holds used, heldOf_cons, if_pos rfl] at hat
      dsimp only at hat
      omega
    · rintro rfl
      refine counted_same hc hh hu holds ?_ fun k => by rw [zones]
      rw [← hwith] at used
      exact used
  | moved h' bs' ptr n holds used ptr_le le waste lt keeps data zones limit inexact =>
    refine ⟨fun hc' => ?_, fun he => absurd he inexact⟩
    -- the old chunk is still on the counter
    have hat := (counted_iff hc hz hh hu holds used zones fun k hk => (hother _ _ k hk).trans (hrest k hk).symm).1 hc'
    have hnew := held_le (z := z) holds used
    have hbound := held_le (z := z) hh hu
    rw [heldOf_cons, if_pos hb] at hbound
    rw [heldOf_cons, if_pos rfl] at hnew hat
    dsimp only at hnew hat
    rw [hc z hz, hold, c.wordAdd_natCast (by omega)] at hat
    omega

/-! ## Runs -/

variable {s : Sys}

/-- What a call must find for the counters to stay right: an allocation a chunk of its size or one that
can be split, a resize the same in place, or no place at all. -/
@[grind =]
def KeepsCounters (c : Config) (s : Sys) : Call → Prop
  | .alloc zone size => Granted c zone size s.heap → AllocExact c size s.heap
  | .calloc nmemb size => Granted c zoneGeneral (nmemb * size) s.heap → AllocExact c (nmemb * size) s.heap
  | .realloc ptr size => s.respects ptr →
      if ptr = 0 then Granted c zoneGeneral size s.heap → AllocExact c size s.heap
      else size = 0 ∨ c.arena < size ∨ ResizeExact c ptr (c.alignUp size) s.heap
  | _ => True

theorem born_counted {r : Nat × Heap} {size : Nat} {live : List Obj} :
    Counted c (born r size live).heap ↔ Counted c r.2 := Iff.rfl

theorem Backed.counted {s' : Sys} (hb : Backed c us s) (hb' : Backed c us s')
    (hz : ∀ z, (s'.heap.zones z).allocated = (s.heap.zones z).allocated) (hc : Counted c s.heap) : Counted c s'.heap := by
  obtain ⟨⟨bs, hh, hp⟩, -⟩ := hb
  obtain ⟨⟨bs', hh', hp'⟩, -⟩ := hb'
  intro z hzm
  rw [hz, hc z hzm, held_eq hh hp, held_eq hh' hp']

theorem heapmemCalloc_counted (hb : Backed c us s) (hc : Counted c s.heap) (nmemb size : Nat) :
    Counted c (heapmemCalloc c nmemb size s.heap).2 ↔
      (Granted c zoneGeneral (nmemb * size) s.heap → AllocExact c (nmemb * size) s.heap) := by
  rcases heapmemCalloc_eq nmemb size s.heap with ⟨he, hng⟩ | he
  · rw [he]
    exact ⟨fun _ hg => absurd hg hng, fun _ => hc⟩
  · obtain ⟨us', hb', -, hnew⟩ := hb.alloc zoneGeneral (nmemb * size)
    obtain ⟨⟨bs, hh, hp⟩, -⟩ := hb
    rw [← heapmemZoneAlloc_counted hc hh, he]
    generalize heapmemZoneAlloc c zoneGeneral (nmemb * size) s.heap = r at *
    by_cases h0 : r.1 = 0
    · rw [if_pos h0]
    · rw [if_neg h0]
      obtain ⟨d, rfl, hd⟩ := hnew h0
      obtain ⟨hb'', -⟩ := hb'.fill hd
      exact ⟨hb''.counted hb' fun _ => rfl, hb'.counted hb'' fun _ => rfl⟩

theorem heapmemFree_keeps (hb : Backed c us s) (hc : Counted c s.heap) {ptr : Nat} (hr : s.respects ptr = true) :
    Counted c (heapmemFree c ptr s.heap).2 := by
  by_cases hp : ptr = 0
  · rw [hp, heapmemFree_null]
    exact hc
  · obtain ⟨o, l₁, l₂, b, u₁, u₂, -, rfl, -, rfl, hbo, -, -⟩ := hb.object hp hr
    obtain ⟨z, hz, hzm⟩ := hb.used (b := b) (by simp)
    obtain ⟨⟨bs, hh, hperm⟩, -⟩ := hb
    rw [hbo.1]
    exact heapmemFree_counted hc hh (hperm.trans List.perm_middle) hz hzm

theorem heapmemRealloc_counted (hb : Backed c us s) (hc : Counted c s.heap) {ptr size : Nat}
    (hr : s.respects ptr = true) : Counted c (heapmemRealloc c ptr size s.heap).2 ↔
      if ptr = 0 then Granted c zoneGeneral size s.heap → AllocExact c size s.heap
      else size = 0 ∨ c.arena < size ∨ ResizeExact c ptr (c.alignUp size) s.heap := by
  by_cases hp : ptr = 0
  · obtain ⟨⟨bs, hh, -⟩, -⟩ := hb
    rw [if_pos hp, hp, heapmemRealloc_null]
    exact heapmemZoneAlloc_counted hc hh
  · rw [if_neg hp]
    have hfree := heapmemFree_keeps hb hc hr
    obtain ⟨o, l₁, l₂, b, u₁, u₂, -, rfl, -, rfl, hbo, -, -⟩ := hb.object hp hr
    obtain ⟨z, hz, hzm⟩ := hb.used (b := b) (by simp)
    obtain ⟨⟨bs, hh, hperm⟩, -⟩ := hb
    have hperm' := hperm.trans (@List.perm_middle _ b u₁ u₂)
    have hbm : b ∈ bs := (mem_usedOf.1 (hperm'.mem_iff.2 (by simp))).1
    rw [hbo.1] at hfree ⊢
    rw [heapmemRealloc_object hh hbm hz]
    by_cases hsize : c.arena < size
    · rw [if_pos hsize]
      exact ⟨fun _ => Or.inr (Or.inl hsize), fun _ => hc⟩
    rw [if_neg hsize]
    by_cases hs0 : size = 0
    · rw [if_pos hs0]
      exact ⟨fun _ => Or.inl hs0, fun _ => hfree⟩
    rw [if_neg hs0]
    have hres := resizeObject_rep hh hperm' hz (c.alignUp_dvd size)
      (lt_of_lt_of_le (Nat.pos_of_ne_zero hs0) (c.le_alignUp size)) (c.alignUp_int (not_lt.1 hsize))
    rw [resizeObject_counted hc hh hperm' hz hzm hres]
    tauto

/-- A step keeps the counters right exactly when the call finds what it must. -/
theorem step_counted (hb : Backed c us s) (hc : Counted c s.heap) (call : Call) :
    KeepsCounters c s call ↔ ∀ s', step c s call = some s' → Counted c s'.heap := by
  have hsame : ∀ {P : Prop}, P → ((True : Prop) ↔ P) := fun hp => ⟨fun _ => hp, fun _ => trivial⟩
  obtain ⟨⟨bs, hh, hp⟩, hf⟩ := id hb
  cases call with
  | register name zoneSize =>
    refine hsame fun s' hs => ?_
    obtain rfl : _ = s' := Option.some.inj hs
    obtain ⟨zones, he, hz⟩ := heapmemZoneRegister_frame (c := c) name zoneSize s.heap
    rw [he]
    exact hb.counted (hb.withZones zones) hz hc
  | alloc zone size =>
    simp only [KeepsCounters, step, Option.some.injEq, forall_eq', born_counted]
    exact (heapmemZoneAlloc_counted hc hh).symm
  | free ptr =>
    refine hsame fun s' hs => ?_
    simp only [step] at hs
    split at hs
    · rename_i hr
      obtain rfl : _ = s' := Option.some.inj hs
      exact heapmemFree_keeps hb hc hr
    · cases hs
  | realloc ptr size =>
    simp only [KeepsCounters, step]
    by_cases hr : s.respects ptr = true
    · simp only [hr, if_true, Option.some.injEq, forall_eq', born_counted, true_implies]
      exact (heapmemRealloc_counted hb hc hr).symm
    · simp [hr]
  | calloc nmemb size =>
    simp only [KeepsCounters, step, Option.some.injEq, forall_eq', born_counted]
    exact (heapmemCalloc_counted hb hc nmemb size).symm
  | stats =>
    refine hsame fun s' hs => ?_
    obtain rfl : _ = s' := Option.some.inj hs
    obtain ⟨bs', hh', hre⟩ := heapmemStats_rep hh
    exact counted_same hc hh hp hh' (by rw [hre.used]; exact hp) fun z => by rw [hre.zones]
  | write ptr i v =>
    refine hsame fun s' hs => ?_
    simp only [step] at hs
    split at hs
    · rename_i hw
      obtain rfl : _ = s' := Option.some.inj hs
      obtain ⟨o, ho, rfl, hi⟩ := hw
      exact hb.counted (hb.writeByte ho hi v).1 (fun _ => rfl) hc
    · cases hs

/-- Over every run that respects the API: the counters are right in every state reached if and only if
every call finds what it must. -/
theorem counters_right_iff (c : Config) (mem : Mem) (calls : List Call) :
    AllStates (step c) (fun s => Counted c s.heap) (Sys.start c mem) calls ↔
      AllSteps (step c) (KeepsCounters c) (Sys.start c mem) calls := by
  refine allStates_iff_allSteps (J := fun s => ∃ us, Backed c us s) (fun _ _ _ ⟨_, hb⟩ hs => (step_backed hb hs).1)
    (fun s call ⟨us, hb⟩ hc => step_counted hb hc call) calls _ ⟨[], start_backed mem⟩ ?_
  obtain ⟨⟨bs, hh, hp⟩, -⟩ := start_backed (c := c) mem
  intro z _
  rw [held_eq hh hp]
  simp only [Sys.start]
  split <;> rfl

/-- Four bytes in a free chunk of eight: the rest is too small to split off, and the counter gets the
four, the chunk the eight. -/
def unsplit : List Call := [.alloc 0 8, .alloc 0 8, .free 80, .alloc 0 4, .free 80, .free 104]

/-- Everything is freed, and the counter of the general zone has wrapped. -/
theorem unsplit_wraps : ∃ s, exec (step smallHeap) (Sys.start smallHeap fun _ => 0) unsplit = some s ∧ s.live = [] ∧
      held smallHeap zoneGeneral s.heap = 0 ∧ (s.heap.zones zoneGeneral).allocated = 2 ^ 32 - 4 ∧
      ¬Counted smallHeap s.heap :=
  ⟨_, rfl, by decide, by decide, by decide, fun hc => absurd (hc 0 (by decide)) (by decide)⟩

end Contiki.Heapmem
