/-
The limits of the zones. Their sizes always sum to the arena; that no counter is above the size of its
zone holds all along a run exactly when no zone is registered out of space that is in use, no object
grows in place past the limit, and no counter is lowered below zero.
-/
import Contiki.Heapmem.Counters

namespace Contiki.Heapmem

open Contiki.Lib Contiki.Lib.Mem

variable {c : Config} {h h' : Heap} {bs : List Blk} {us : List Blk} {s : Sys}

def zoneSizes (c : Config) (h : Heap) : Nat := ∑ z ∈ Finset.range c.maxZones, (h.zones z).zoneSize

/-- The zones divide the arena, and none holds more than its share. -/
def Limited (c : Config) (h : Heap) : Prop :=
  zoneSizes c h = c.arena ∧ ∀ z < c.maxZones, (h.zones z).allocated ≤ (h.zones z).zoneSize

/-- The zones divide the arena, and those not registered have no part of it. -/
structure Divided (c : Config) (h : Heap) : Prop where
  sum : zoneSizes c h = c.arena
  unregistered : ∀ z < c.maxZones, (h.zones z).name = none → (h.zones z).zoneSize = 0

theorem Divided.le_arena (hd : Divided c h) {z : Nat} (hz : z < c.maxZones) : (h.zones z).zoneSize ≤ c.arena := by
  rw [← hd.sum]
  exact Finset.single_le_sum (f := fun z => (h.zones z).zoneSize) (fun _ _ => Nat.zero_le _) (Finset.mem_range.2 hz)

theorem Divided.congr (hd : Divided c h) (hz : ∀ z, (h'.zones z).zoneSize = (h.zones z).zoneSize ∧
    (h'.zones z).name = (h.zones z).name) : Divided c h' := by
  refine ⟨?_, fun z hzm hn => ?_⟩
  · rw [← hd.sum]
    exact Finset.sum_congr rfl fun z _ => (hz z).1
  · rw [(hz z).1]
    exact hd.unregistered z hzm (by rw [← (hz z).2]; exact hn)

theorem setAllocated_frame (zone v z : Nat) : ((setAllocated zone v h).zones z).zoneSize = (h.zones z).zoneSize ∧
    ((setAllocated zone v h).zones z).name = (h.zones z).name := by
  unfold setAllocated
  dsimp only
  by_cases hz : z = zone
  · subst hz; simp
  · simp [hz]

/-! ## Registering a zone -/

/-- The zones with `i` registered out of the general zone. -/
def registered (name : String) (zoneSize i : Nat) (zones : Nat → Zone) : Nat → Zone :=
  Function.update (Function.update zones i { zones i with name := some name, zoneSize := zoneSize }) zoneGeneral
    { zones zoneGeneral with zoneSize := (zones zoneGeneral).zoneSize - zoneSize }

def Slot (c : Config) (name : String) (h : Heap) (i : Nat) : Prop :=
  zoneGeneral < i ∧ i < c.maxZones ∧ (h.zones i).name = none ∧
    ∀ j, zoneGeneral < j → j < i → (h.zones j).name ≠ none ∧ (h.zones j).name ≠ some name

def Registrable (c : Config) (name : Option String) (zoneSize : Nat) (h : Heap) : Prop :=
  0 < zoneSize ∧ zoneSize ≤ (h.zones zoneGeneral).zoneSize ∧ ∃ n, name = some n ∧ ∃ i, Slot c n h i

theorem registerLoop_slot (name : String) (zoneSize : Nat) : ∀ (k i : Nat), zoneGeneral < i → i + k = c.maxZones →
    (∀ j, zoneGeneral < j → j < i → (h.zones j).name ≠ none ∧ (h.zones j).name ≠ some name) →
    (∃ j, Slot c name h j ∧ (registerLoop name zoneSize k i h).2 = { h with zones := registered name zoneSize j h.zones }) ∨
      ((registerLoop name zoneSize k i h).2 = h ∧ ¬∃ j, Slot c name h j) := by
  intro k
  induction k with
  | zero =>
    intro i _ hik hbefore
    refine Or.inr ⟨rfl, ?_⟩
    rintro ⟨j, hj, hjm, hnone, -⟩
    exact (hbefore j hj (by omega)).1 hnone
  | succ k ih =>
    intro i hi hik hbefore
    unfold registerLoop
    cases hname : (h.zones i).name with
    | none => exact Or.inl ⟨i, ⟨hi, by omega, hname, hbefore⟩, rfl⟩
    | some other =>
      dsimp only
      by_cases ho : other = name
      · -- a zone of the name ends the search
        rw [if_pos ho]
        refine Or.inr ⟨rfl, ?_⟩
        rintro ⟨j, hj, hjm, hnone, hfirst⟩
        rcases lt_trichotomy j i with hlt | rfl | hgt
        · exact (hbefore j hj hlt).1 hnone
        · rw [hname] at hnone; cases hnone
        · exact (hfirst i hi hgt).2 (by rw [hname, ho])
      · rw [if_neg ho]
        refine ih (i + 1) (by omega) (by omega) fun j hj hji => ?_
        rcases Nat.lt_succ_iff_lt_or_eq.1 hji with hlt | rfl
        · exact hbefore j hj hlt
        · rw [hname]
          exact ⟨by simp, by simpa using ho⟩

theorem heapmemZoneRegister_zones (name : Option String) (zoneSize : Nat) (h : Heap) :
    (∃ n i, name = some n ∧ Registrable c name zoneSize h ∧ Slot c n h i ∧
      (heapmemZoneRegister c name zoneSize h).2 = { h with zones := registered n zoneSize i h.zones }) ∨
    ((heapmemZoneRegister c name zoneSize h).2 = h ∧ ¬Registrable c name zoneSize h) := by
  unfold heapmemZoneRegister
  by_cases hsize : zoneSize > (h.zones zoneGeneral).zoneSize
  · rw [if_pos hsize]
    exact Or.inr ⟨rfl, fun hr => absurd hr.2.1 (by omega)⟩
  rw [if_neg hsize]
  cases name with
  | none => exact Or.inr ⟨rfl, by rintro ⟨-, -, n, hn, -⟩; cases hn⟩
  | some n =>
    dsimp only
    by_cases h0 : zoneSize = 0
    · rw [if_pos h0]
      exact Or.inr ⟨rfl, fun hr => absurd hr.1 (by omega)⟩
    rw [if_neg h0]
    have hpos := c.zones_pos
    rcases registerLoop_slot (c := c) (h := h) n zoneSize (c.maxZones - 1) (zoneGeneral + 1) (by omega)
      (by unfold zoneGeneral; omega) (fun j hj hji => by omega) with ⟨i, hslot, he⟩ | ⟨he, hno⟩
    · exact Or.inl ⟨n, i, rfl, ⟨by omega, by omega, n, rfl, i, hslot⟩, hslot, he⟩
    · refine Or.inr ⟨he, ?_⟩
      rintro ⟨-, -, n', hn, i, hslot⟩
      obtain rfl : n = n' := Option.some.inj hn
      exact hno ⟨i, hslot⟩

theorem registered_apply (name : String) (zoneSize i z : Nat) (zones : Nat → Zone) :
    registered name zoneSize i zones z =
      if z = zoneGeneral then { zones zoneGeneral with zoneSize := (zones zoneGeneral).zoneSize - zoneSize }
      else if z = i then { zones i with name := some name, zoneSize := zoneSize } else zones z := by
  unfold registered
  rw [Function.update_apply, Function.update_apply]

theorem registered_divided (hd : Divided c h) {name : String} {zoneSize i : Nat} (hs : Slot c name h i)
    (hle : zoneSize ≤ (h.zones zoneGeneral).zoneSize) (hpos : 0 < zoneSize) :
    Divided c { h with zones := registered name zoneSize i h.zones } := by
  obtain ⟨hi, him, hnone, -⟩ := hs
  have hz0 := hd.unregistered i him hnone
  have hne : i ≠ zoneGeneral := by omega
  refine ⟨?_, fun z hzm hn => ?_⟩
  · have hsum := hd.sum
    unfold zoneSizes at hsum ⊢
    dsimp only
    have hgm : zoneGeneral ∈ Finset.range c.maxZones := Finset.mem_range.2 (by unfold zoneGeneral at *; omega)
    have him' : i ∈ (Finset.range c.maxZones).erase zoneGeneral := Finset.mem_erase.2 ⟨hne, Finset.mem_range.2 him⟩
    rw [← Finset.add_sum_erase _ _ hgm, ← Finset.add_sum_erase _ _ him'] at hsum ⊢
    have hrest : ∑ z ∈ ((Finset.range c.maxZones).erase zoneGeneral).erase i, (registered name zoneSize i h.zones z).zoneSize =
        ∑ z ∈ ((Finset.range c.maxZones).erase zoneGeneral).erase i, (h.zones z).zoneSize := by
      refine Finset.sum_congr rfl fun z hz => ?_
      obtain ⟨hzi, hz⟩ := Finset.mem_erase.1 hz
      rw [registered_apply, if_neg (Finset.mem_erase.1 hz).1, if_neg hzi]
    rw [hrest, registered_apply, registered_apply, if_pos rfl, if_neg hne, if_pos rfl]
    dsimp only
    omega
  · dsimp only at hn ⊢
    rw [registered_apply] at hn ⊢
    split at hn
    · rename_i hzg
      rw [if_pos hzg]
      have := hd.unregistered z hzm (by rw [hzg]; exact hn)
      rw [hzg] at this
      dsimp only; omega
    · split at hn
      · cases hn
      · rename_i h₁ h₂
        rw [if_neg h₁, if_neg h₂]
        exact hd.unregistered z hzm hn

/-! ## One call -/

theorem limited_iff {zone v : Nat} (hl : Limited c h) (hzone : zone < c.maxZones)
    (hz : h'.zones = (setAllocated zone v h).zones) : Limited c h' ↔ v ≤ (h.zones zone).zoneSize := by
  have hframe := fun z => setAllocated_frame (h := h) zone v z
  constructor
  · intro hl'
    have hat := hl'.2 zone hzone
    rw [hz, setAllocated_allocated, if_pos rfl, (hframe zone).1] at hat
    exact hat
  · intro hv
    refine ⟨?_, fun z hzm => ?_⟩
    · rw [← hl.1]
      exact Finset.sum_congr rfl fun z _ => by rw [hz, (hframe z).1]
    · rw [hz, setAllocated_allocated, (hframe z).1]
      split
      · rename_i he; rw [he]; exact hv
      · exact hl.2 z hzm

theorem limited_same (hl : Limited c h) (hz : h'.zones = h.zones) : Limited c h' := by
  unfold Limited zoneSizes
  rw [hz]
  exact hl

/-- A registration keeps the limits exactly when the general zone does not need what it gives away. -/
theorem heapmemZoneRegister_limited (hd : Divided c h) (hl : Limited c h) (name : Option String) (zoneSize : Nat) :
    Limited c (heapmemZoneRegister c name zoneSize h).2 ↔
      (Registrable c name zoneSize h → (h.zones zoneGeneral).allocated + zoneSize ≤ (h.zones zoneGeneral).zoneSize) := by
  rcases heapmemZoneRegister_zones (c := c) name zoneSize h with ⟨n, i, -, hreg, hs, he⟩ | ⟨he, hno⟩
  · rw [he]
    have hdiv := registered_divided hd hs hreg.2.1 hreg.1
    obtain ⟨hi, him, hnone, -⟩ := hs
    have hle := hreg.2.1
    have hpos := c.zones_pos
    constructor
    · intro hl' _
      have hat := hl'.2 zoneGeneral (by unfold zoneGeneral; omega)
      dsimp only at hat
      rw [registered_apply, if_pos rfl] at hat
      dsimp only at hat
      omega
    · intro hroom
      refine ⟨hdiv.sum, fun z hzm => ?_⟩
      dsimp only
      rw [registered_apply]
      split
      · dsimp only
        have := hroom hreg
        omega
      · split
        · -- nothing was allocated in a zone that did not exist
          have h₁ := hl.2 i him
          have h₂ := hd.unregistered i him hnone
          dsimp only
          omega
        · exact hl.2 z hzm
  · rw [he]
    exact ⟨fun _ hreg => absurd hreg hno, fun _ => hl⟩

theorem heapmemZoneAlloc_limited {zone size : Nat} (hh : Holds c h bs) (hd : Divided c h) (hl : Limited c h) :
    Limited c (heapmemZoneAlloc c zone size h).2 := by
  obtain ⟨hgr, hnone, hsome⟩ := @heapmemZoneAlloc_rep _ _ _ zone size hh
  by_cases hg : Granted c zone size h
  · obtain ⟨n, bs', -, -, -, -, hz⟩ := hsome hg
    have hle := hl.2 zone hg.1
    have harena := hd.le_arena hg.1
    have haw := c.arena_word
    have hlim := hg.2.2.2.2.1
    rw [c.wordSub_of_le hle (by omega)] at hlim
    rw [limited_iff hl hg.1 hz, c.wordAdd_natCast (by omega)]
    omega
  · have h0 : (heapmemZoneAlloc c zone size h).1 = 0 := by
      by_contra hne
      exact hg (hgr.1 hne)
    obtain ⟨bs', -, hre⟩ := hnone h0
    exact limited_same hl hre.zones

theorem heapmemFree_limited {b : Blk} {rest : List Blk} {z : Nat} (hh : Holds c h bs) (hd : Divided c h)
    (hl : Limited c h) (hu : (usedOf bs).Perm (b :: rest)) (hb : b.st = .used z) (hz : z < c.maxZones) :
    Limited c (heapmemFree c (getPtr c b.addr) h).2 ↔ c.chunkSize + b.size ≤ (h.zones z).allocated := by
  obtain ⟨h', bs', he, -, -, -, hzones⟩ := heapmemFree_rep hh hu hb
  have hbound := held_le (z := z) hh hu
  rw [heldOf_cons, if_pos hb] at hbound
  have hle := hl.2 z hz
  have harena := hd.le_arena hz
  have haw := c.arena_word
  rw [he, limited_iff hl hz hzones]
  constructor
  · intro hv
    by_contra hlt
    unfold Config.wordSub at hv
    rw [Nat.mod_eq_of_lt (by omega)] at hv
    omega
  · intro hge
    rw [c.wordSub_of_le hge (by omega)]
    omega

def RoomFor (z old size : Nat) (h : Heap) : Prop :=
  old ≤ (h.zones z).allocated + size ∧ (h.zones z).allocated + size ≤ (h.zones z).zoneSize + old

theorem resizeObject_limited {b : Blk} {rest : List Blk} {z size : Nat} {r : Nat × Heap} (hh : Holds c h bs)
    (hd : Divided c h) (hl : Limited c h) (hu : (usedOf bs).Perm (b :: rest)) (hb : b.st = .used z)
    (hz : z < c.maxZones) (hint : size ≤ 2 ^ (c.intBits - 1)) (hr : Resized c h b rest z size r) :
    Limited c r.2 ↔ (InPlace c (getPtr c b.addr) size h → RoomFor z b.size size h) := by
  have hbound := held_le (z := z) hh hu
  rw [heldOf_cons, if_pos hb] at hbound
  have hle := hl.2 z hz
  have harena := hd.le_arena hz
  have haint := c.arena_int
  have hiw : 2 ^ (c.intBits - 1) * 2 ≤ c.word := c.int_word
  cases hr with
  | kept h' bs' n holds used le keeps data zones exact inPlace =>
    have hroom : (InPlace c (getPtr c b.addr) size h → RoomFor z b.size size h) ↔ RoomFor z b.size size h :=
      ⟨fun hi => hi inPlace, fun hi _ => hi⟩
    rw [hroom, limited_iff hl hz zones]
    unfold RoomFor Config.wordAdd
    generalize (h.zones z).allocated = a at *
    by_cases hneg : b.size ≤ a + size
    · have hval : ((a : Int) + ((size : Int) - b.size)) = ((a + size - b.size : Nat) : Int) := by omega
      rw [hval, ← Int.natCast_mod, Int.toNat_natCast, Nat.mod_eq_of_lt (by omega)]
      omega
    · -- below zero the counter wraps
      have hval : ((a : Int) + ((size : Int) - b.size)) = ((a + size + c.word - b.size : Nat) : Int) + (-1) * (c.word : Int) := by
        omega
      rw [hval, Int.add_mul_emod_self_right, ← Int.natCast_mod, Int.toNat_natCast, Nat.mod_eq_of_lt (by omega)]
      omega
  | failed h' bs' n holds used le keeps zones exact notInPlace =>
    exact ⟨fun _ hi => absurd hi notInPlace, fun _ => limited_same hl zones⟩
  | moved h' bs' ptr n holds used ptr_le le waste lt keeps data zones limit inexact notInPlace =>
    refine ⟨fun _ hi => absurd hi notInPlace, fun _ => ?_⟩
    rw [c.wordSub_of_le hle (by omega)] at limit
    refine (limited_iff hl hz zones).2 ?_
    rw [c.wordAdd_natCast (by omega)]
    omega

/-! ## Runs -/

def OneCounter (h h' : Heap) : Prop := h'.zones = h.zones ∨ ∃ zone v, h'.zones = (setAllocated zone v h).zones

theorem OneCounter.divided (ho : OneCounter h h') (hd : Divided c h) : Divided c h' := by
  rcases ho with hz | ⟨zone, v, hz⟩
  · exact hd.congr fun z => by rw [hz]; exact ⟨rfl, rfl⟩
  · exact hd.congr fun z => by rw [hz]; exact setAllocated_frame zone v z

theorem heapmemZoneAlloc_counter (hh : Holds c h bs) (zone size : Nat) :
    OneCounter h (heapmemZoneAlloc c zone size h).2 := by
  obtain ⟨hgr, hnone, hsome⟩ := @heapmemZoneAlloc_rep _ _ _ zone size hh
  by_cases h0 : (heapmemZoneAlloc c zone size h).1 = 0
  · obtain ⟨bs', -, hre⟩ := hnone h0
    exact Or.inl hre.zones
  · obtain ⟨n, bs', -, -, -, -, hz⟩ := hsome (hgr.1 h0)
    exact Or.inr ⟨_, _, hz⟩

theorem Resized.counter {b : Blk} {rest : List Blk} {z size : Nat} {r : Nat × Heap} (hr : Resized c h b rest z size r) :
    OneCounter h r.2 := by
  cases hr with
  | kept h' bs' n holds used le keeps data zones => exact Or.inr ⟨_, _, zones⟩
  | failed h' bs' n holds used le keeps zones => exact Or.inl zones
  | moved h' bs' ptr n holds used ptr_le le waste lt keeps data zones => exact Or.inr ⟨_, _, zones⟩

def Releasable (c : Config) (ptr : Nat) (h : Heap) : Prop :=
  c.chunkSize + chunkSizeOf c (getChunk c ptr) h.mem ≤ (h.zones (chunkZone c (getChunk c ptr) h.mem)).allocated

/-- What a call must find for the limits to be kept. -/
@[grind =]
def KeepsLimits (c : Config) (s : Sys) : Call → Prop
  | .register name zoneSize => Registrable c name zoneSize s.heap →
      (s.heap.zones zoneGeneral).allocated + zoneSize ≤ (s.heap.zones zoneGeneral).zoneSize
  | .free ptr => s.respects ptr → ptr = 0 ∨ Releasable c ptr s.heap
  | .realloc ptr size => s.respects ptr → ptr = 0 ∨ c.arena < size ∨
      if size = 0 then Releasable c ptr s.heap
      else InPlace c ptr (c.alignUp size) s.heap →
        RoomFor (chunkZone c (getChunk c ptr) s.heap.mem) (chunkSizeOf c (getChunk c ptr) s.heap.mem) (c.alignUp size) s.heap
  | _ => True

theorem heapmemFree_limits (hb : Backed c us s) (hd : Divided c s.heap) (hl : Limited c s.heap) {ptr : Nat}
    (hr : s.respects ptr = true) : Limited c (heapmemFree c ptr s.heap).2 ↔ ptr = 0 ∨ Releasable c ptr s.heap := by
  by_cases hp : ptr = 0
  · rw [hp, heapmemFree_null]
    exact ⟨fun _ => Or.inl rfl, fun _ => hl⟩
  · rw [or_iff_right hp]
    obtain ⟨o, l₁, l₂, b, u₁, u₂, -, rfl, -, rfl, hbo, -, -⟩ := hb.object hp hr
    obtain ⟨z, hz, hzm⟩ := hb.used (b := b) (by simp)
    obtain ⟨⟨bs, hh, hperm⟩, -⟩ := hb
    have hperm' := hperm.trans (@List.perm_middle _ b u₁ u₂)
    have hbm : b ∈ bs := (mem_usedOf.1 (hperm'.mem_iff.2 (by simp))).1
    rw [hbo.1, heapmemFree_limited hh hd hl hperm' hz hzm]
    obtain ⟨-, fl, hrep⟩ := hh
    unfold Releasable
    rw [(hrep.pointer hbm).1, (hrep.ok b hbm).size, ((hrep.ok b hbm).used z hz).2.1]

theorem heapmemFree_counter (hb : Backed c us s) {ptr : Nat} (hr : s.respects ptr = true) :
    OneCounter s.heap (heapmemFree c ptr s.heap).2 := by
  by_cases hp : ptr = 0
  · rw [hp, heapmemFree_null]
    exact Or.inl rfl
  · obtain ⟨o, l₁, l₂, b, u₁, u₂, -, rfl, -, rfl, hbo, -, -⟩ := hb.object hp hr
    obtain ⟨z, hz, -⟩ := hb.used (b := b) (by simp)
    obtain ⟨⟨bs, hh, hperm⟩, -⟩ := hb
    obtain ⟨h', bs', he, -, -, -, hzones⟩ := heapmemFree_rep hh (hperm.trans List.perm_middle) hz
    rw [hbo.1, he]
    exact Or.inr ⟨_, _, hzones⟩

theorem heapmemRealloc_limits (hb : Backed c us s) (hd : Divided c s.heap) {ptr size : Nat} (hr : s.respects ptr = true) :
    OneCounter s.heap (heapmemRealloc c ptr size s.heap).2 ∧
    (Limited c s.heap → (Limited c (heapmemRealloc c ptr size s.heap).2 ↔ ptr = 0 ∨ c.arena < size ∨
      if size = 0 then Releasable c ptr s.heap
      else InPlace c ptr (c.alignUp size) s.heap → RoomFor (chunkZone c (getChunk c ptr) s.heap.mem)
        (chunkSizeOf c (getChunk c ptr) s.heap.mem) (c.alignUp size) s.heap)) := by
  by_cases hp : ptr = 0
  · obtain ⟨⟨bs, hh, -⟩, -⟩ := hb
    rw [hp, heapmemRealloc_null]
    exact ⟨heapmemZoneAlloc_counter hh _ _, fun hl => ⟨fun _ => Or.inl rfl, fun _ => heapmemZoneAlloc_limited hh hd hl⟩⟩
  · rw [or_iff_right hp]
    have hfree := heapmemFree_counter hb hr
    have hfree' := fun hl => heapmemFree_limits hb hd hl hr
    rw [or_iff_right hp] at hfree'
    obtain ⟨o, l₁, l₂, b, u₁, u₂, -, rfl, -, rfl, hbo, -, -⟩ := hb.object hp hr
    obtain ⟨z, hz, hzm⟩ := hb.used (b := b) (by simp)
    obtain ⟨⟨bs, hh, hperm⟩, -⟩ := hb
    have hperm' := hperm.trans (@List.perm_middle _ b u₁ u₂)
    have hbm : b ∈ bs := (mem_usedOf.1 (hperm'.mem_iff.2 (by simp))).1
    have hfields : getChunk c (getPtr c b.addr) = b.addr ∧ chunkSizeOf c b.addr s.heap.mem = b.size ∧
        chunkZone c b.addr s.heap.mem = z := by
      obtain ⟨-, fl, hrep⟩ := hh
      exact ⟨(hrep.pointer hbm).1, (hrep.ok b hbm).size, ((hrep.ok b hbm).used z hz).2.1⟩
    rw [hbo.1] at hfree hfree' ⊢
    rw [heapmemRealloc_object hh hbm hz]
    by_cases hsize : c.arena < size
    · rw [if_pos hsize]
      exact ⟨Or.inl rfl, fun hl => ⟨fun _ => Or.inl hsize, fun _ => hl⟩⟩
    rw [if_neg hsize, or_iff_right hsize]
    by_cases hs0 : size = 0
    · rw [if_pos hs0, if_pos hs0]
      exact ⟨hfree, hfree'⟩
    rw [if_neg hs0, if_neg hs0]
    have hint := c.alignUp_int (not_lt.1 hsize)
    have hres := resizeObject_rep hh hperm' hz (c.alignUp_dvd size)
      (lt_of_lt_of_le (Nat.pos_of_ne_zero hs0) (c.le_alignUp size)) hint
    refine ⟨hres.counter, fun hl => ?_⟩
    rw [resizeObject_limited hh hd hl hperm' hz hzm hint hres, hfields.1, hfields.2.1, hfields.2.2]

theorem heapmemCalloc_limits (hb : Backed c us s) (hd : Divided c s.heap) (nmemb size : Nat) :
    OneCounter s.heap (heapmemCalloc c nmemb size s.heap).2 ∧
    (Limited c s.heap → Limited c (heapmemCalloc c nmemb size s.heap).2) := by
  obtain ⟨⟨bs, hh, -⟩, -⟩ := hb
  rcases heapmemCalloc_eq nmemb size s.heap with ⟨he, -⟩ | he
  · rw [he]
    exact ⟨Or.inl rfl, fun hl => hl⟩
  · have hcnt := heapmemZoneAlloc_counter hh zoneGeneral (nmemb * size)
    have hlim := fun hl => @heapmemZoneAlloc_limited _ _ _ zoneGeneral (nmemb * size) hh hd hl
    rw [he]
    split
    · exact ⟨hcnt, hlim⟩
    · exact ⟨hcnt, fun hl => limited_same (hlim hl) rfl⟩

/-- A step divides the arena as before, and keeps the limits exactly when the call finds what it must. -/
theorem step_limited (hb : Backed c us s) (hd : Divided c s.heap) (call : Call) :
    (∀ s', step c s call = some s' → Divided c s'.heap) ∧
    (Limited c s.heap → (KeepsLimits c s call ↔ ∀ s', step c s call = some s' → Limited c s'.heap)) := by
  cases call with
  | register name zoneSize =>
    simp only [KeepsLimits, step, Option.some.injEq, forall_eq']
    refine ⟨?_, fun hl => (heapmemZoneRegister_limited hd hl name zoneSize).symm⟩
    rcases heapmemZoneRegister_zones (c := c) name zoneSize s.heap with ⟨n, i, -, hreg, hs, he⟩ | ⟨he, -⟩
    · rw [he]; exact registered_divided hd hs hreg.2.1 hreg.1
    · rw [he]; exact hd
  | alloc zone size =>
    obtain ⟨⟨bs, hh, -⟩, -⟩ := hb
    simp only [KeepsLimits, step, Option.some.injEq, forall_eq', true_iff]
    exact ⟨(heapmemZoneAlloc_counter hh zone size).divided hd, fun hl => heapmemZoneAlloc_limited hh hd hl⟩
  | free ptr =>
    simp only [KeepsLimits, step]
    by_cases hr : s.respects ptr = true
    · simp only [hr, if_true, Option.some.injEq, forall_eq', true_implies]
      exact ⟨(heapmemFree_counter hb hr).divided hd, fun hl => (heapmemFree_limits hb hd hl hr).symm⟩
    · simp [hr]
  | realloc ptr size =>
    simp only [KeepsLimits, step]
    by_cases hr : s.respects ptr = true
    · simp only [hr, if_true, Option.some.injEq, forall_eq', true_implies]
      obtain ⟨hcnt, hlim⟩ := @heapmemRealloc_limits _ _ _ hb hd _ size hr
      exact ⟨hcnt.divided hd, fun hl => (hlim hl).symm⟩
    · simp [hr]
  | calloc nmemb size =>
    simp only [KeepsLimits, step, Option.some.injEq, forall_eq', true_iff]
    obtain ⟨hcnt, hlim⟩ := heapmemCalloc_limits hb hd nmemb size
    exact ⟨hcnt.divided hd, hlim⟩
  | stats =>
    obtain ⟨⟨bs, hh, -⟩, -⟩ := hb
    obtain ⟨bs', -, hre⟩ := heapmemStats_rep hh
    simp only [KeepsLimits, step, Option.some.injEq, forall_eq', true_iff]
    exact ⟨OneCounter.divided (Or.inl hre.zones) hd, fun hl => limited_same hl hre.zones⟩
  | write ptr i v =>
    simp only [KeepsLimits, step]
    split
    · simp only [Option.some.injEq, forall_eq', true_iff]
      exact ⟨OneCounter.divided (h := s.heap) (Or.inl rfl) hd, fun hl => limited_same (h := s.heap) hl rfl⟩
    · simp

theorem start_divided (c : Config) (mem : Mem) : Divided c (Sys.start c mem).heap := by
  have hpos := c.zones_pos
  refine ⟨?_, fun z _ hn => ?_⟩
  · unfold zoneSizes
    rw [Finset.sum_eq_single_of_mem zoneGeneral (Finset.mem_range.2 (by unfold zoneGeneral; omega))]
    · rfl
    · intro z _ hz
      simp [Sys.start, hz]
  · simp only [Sys.start] at hn ⊢
    split
    · rename_i hz; rw [if_pos hz] at hn; cases hn
    · rfl

/-- Over every run that respects the API: the zones divide the arena and keep to their limits in every
state reached if and only if every call finds what it must. -/
theorem limits_kept_iff (c : Config) (mem : Mem) (calls : List Call) :
    AllStates (step c) (fun s => Limited c s.heap) (Sys.start c mem) calls ↔
      AllSteps (step c) (KeepsLimits c) (Sys.start c mem) calls := by
  refine allStates_iff_allSteps (J := fun s => (∃ us, Backed c us s) ∧ Divided c s.heap)
    (fun s call s' ⟨⟨us, hb⟩, hd⟩ hs => ⟨(step_backed hb hs).1, (step_limited hb hd call).1 s' hs⟩)
    (fun s call ⟨⟨us, hb⟩, hd⟩ hl => (step_limited hb hd call).2 hl) calls _
    ⟨⟨[], start_backed mem⟩, start_divided c mem⟩ ⟨(start_divided c mem).sum, fun z _ => ?_⟩
  simp only [Sys.start]
  split
  · exact Nat.zero_le _
  · exact le_rfl

/-- A zone is registered after the general zone has given most of the arena to an object. -/
def lateRegistration : List Call := [.alloc 0 200, .register (some "net") 100]

/-- The general zone holds more than is left to it. -/
theorem lateRegistration_over_limit :
    ∃ s, exec (step smallHeap) (Sys.start smallHeap fun _ => 0) lateRegistration = some s ∧
      (s.heap.zones zoneGeneral).allocated = 216 ∧ (s.heap.zones zoneGeneral).zoneSize = 156 ∧ ¬Limited smallHeap s.heap :=
  ⟨_, rfl, by decide, by decide, fun hl => absurd (hl.2 0 (by decide)) (by decide)⟩

end Contiki.Heapmem
