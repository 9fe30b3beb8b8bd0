/-
What each call of the API does to the chunks: allocation takes free space, `heapmem_free` gives it
back, and `heapmem_realloc` keeps an object in its place, moves it, or fails. The data of all other
objects stays, and so does that of the object as far as both sizes go.
-/
import Contiki.Heapmem.Space

namespace Contiki.Heapmem

open Contiki.Lib Contiki.Lib.Mem

variable {c : Config} {h : Heap} {bs pre post : List Blk} {fl : List Nat}

def Holds (c : Config) (h : Heap) (bs : List Blk) : Prop := Whole bs ∧ ∃ fl, Rep c h bs fl

theorem Rep.withZones (hr : Rep c h bs fl) (zones : Nat → Zone) : Rep c { h with zones := zones } bs fl :=
  ⟨hr.tiles, hr.ok, hr.usage, hr.list, hr.nodup, hr.free⟩

theorem Holds.withZones (hh : Holds c h bs) (zones : Nat → Zone) : Holds c { h with zones := zones } bs := by
  obtain ⟨hw, fl, hr⟩ := hh
  exact ⟨hw, fl, hr.withZones zones⟩

variable {b : Blk}

theorem usedOf_focus {z : Nat} (hb : b.st = .used z) :
    (usedOf (pre ++ b :: post)).Perm (b :: (usedOf pre ++ usedOf post)) := by
  rw [usedOf_append, usedOf_cons_used hb]
  exact List.perm_middle

variable {rest : List Blk}

theorem focus_used {z : Nat} (hu : (usedOf bs).Perm (b :: rest)) (hb : b.st = .used z) :
    ∃ pre post, bs = pre ++ b :: post ∧ (usedOf pre ++ usedOf post).Perm rest := by
  have hmem : b ∈ usedOf bs := hu.mem_iff.2 (by simp)
  obtain ⟨pre, post, rfl⟩ := List.append_of_mem (mem_usedOf.1 hmem).1
  exact ⟨pre, post, rfl, ((usedOf_focus hb).symm.trans hu).cons_inv⟩

theorem mem_insert {x y : Blk} {l₁ l₂ : List Blk} : x ∈ l₁ ++ y :: l₂ ↔ x = y ∨ x ∈ l₁ ++ l₂ := by
  simp only [List.mem_append, List.mem_cons]
  tauto

theorem mem_around {x : Blk} (hrest : (usedOf pre ++ usedOf post).Perm rest) (hx : x ∈ rest) :
    x ∈ pre ++ post := by
  rcases List.mem_append.1 (hrest.mem_iff.2 hx) with hx | hx
  · exact List.mem_append_left _ (mem_usedOf.1 hx).1
  · exact List.mem_append_right _ (mem_usedOf.1 hx).1

/-! ## Writes to data -/

theorem Rep.writeData {m' : Mem} (hr : Rep c h (pre ++ b :: post) fl) (hm : ∀ x, ¬b.Data c x → m' x = h.mem x) :
    Rep c { h with mem := m' } (pre ++ b :: post) fl ∧ KeepsData c (pre ++ post) h.mem m' := by
  have hbm : b ∈ pre ++ b :: post := by simp
  have hhdr : ∀ d ∈ pre ++ b :: post, hdr c d.addr m' = hdr c d.addr h.mem := by
    intro d hd
    refine hdr_congr fun x hx₁ hx₂ => hm x fun hx => ?_
    have := hr.data_out hd hbm hx
    omega
  refine ⟨hr.rewrite (fun d hd => ?_) (fun d hd _ => ?_), fun d hd x hx => hm x fun hbx => ?_⟩
  · rw [hhdr d hd]; exact ⟨rfl, rfl, rfl⟩
  · rw [hhdr d hd]; exact ⟨rfl, rfl⟩
  · -- the data of two chunks are disjoint
    have hne := hr.addr_ne hd
    have hdm : d ∈ pre ++ b :: post := by
      rcases List.mem_append.1 hd with hd | hd <;> simp [hd]
    obtain ⟨hx₁, hx₂⟩ := hx
    obtain ⟨hb₁, hb₂⟩ := hbx
    rcases hr.tiles.disjoint d hdm b hbm with he | hlt | hlt
    · exact hne (by rw [he])
    · omega
    · omega

/-! ## Allocation -/

theorem use_rep {p n zone : Nat} (hr : Rep c h (pre ++ ⟨p, n, .detached⟩ :: post) fl) (hz : zone < c.maxZones) :
    Rep c { h with mem := setZone c p zone (setFlags c p 1 h.mem) } (pre ++ ⟨p, n, .used zone⟩ :: post) fl ∧
      KeepsData c (pre ++ ⟨p, n, .detached⟩ :: post) h.mem (setZone c p zone (setFlags c p 1 h.mem)) := by
  have hpm : (⟨p, n, .detached⟩ : Blk) ∈ pre ++ ⟨p, n, .detached⟩ :: post := by simp
  have hzb : zone < 256 := by have := c.zones_byte; omega
  have hpok := hr.ok _ hpm
  generalize hm' : setZone c p zone (setFlags c p 1 h.mem) = m'
  have hhp : hdr c p m' = { hdr c p h.mem with flags := 1, zone := zone } := by
    rw [← hm', hdr_setZone hzb, hdr_setFlags (by omega)]
  have hother : ∀ d ∈ pre ++ post, hdr c d.addr m' = hdr c d.addr h.mem := by
    intro d hd
    have hdm : d ∈ pre ++ ⟨p, n, .detached⟩ :: post := by
      rcases List.mem_append.1 hd with hd | hd <;> simp [hd]
    have ha : Apart c p d.addr := hr.apart hpm hdm (hr.addr_ne hd).symm
    rw [← hm', hdr_of_apart ha (setZone_same c p zone _), hdr_of_apart ha (setFlags_same c p 1 _)]
  obtain ⟨hpfl, hofl⟩ := hr.free_focus
  have hfl : ∀ y ∈ fl, hdr c y m' = hdr c y h.mem := by
    intro y hy
    have hyp : y ≠ p := by rintro rfl; exact absurd (hpfl.1 hy) (by simp)
    obtain ⟨d, hd, _, rfl⟩ := (hofl y hyp).1 hy
    exact hother d hd
  refine ⟨⟨?_, ?_, hr.usage, ?_, hr.nodup, ?_⟩, ?_⟩
  · obtain ⟨h₁, h₂⟩ := hr.tiles.around
    exact Tiles.build h₁ h₂
  · have hok : ∀ d ∈ pre ++ post, d.Ok c m' := by
      intro d hd
      have hdm : d ∈ pre ++ ⟨p, n, .detached⟩ :: post := by
        rcases List.mem_append.1 hd with hd | hd <;> simp [hd]
      refine (hr.ok d hdm).congr ?_ ?_ ?_ <;> rw [hother d hd]
    intro d hd
    rcases List.mem_append.1 hd with hd | hd
    · exact hok d (List.mem_append_left _ hd)
    rcases List.mem_cons.1 hd with rfl | hd
    · refine ⟨?_, hpok.aligned, hpok.pos, ?_, by rintro ⟨⟩⟩
      · show chunkSizeOf c p m' = n
        rw [chunkSizeOf_hdr, hhp]; exact hpok.size
      · rintro z ⟨⟩
        refine ⟨?_, ?_, hz⟩
        · show chunkAllocated c p m' = true
          rw [chunkAllocated_hdr, hhp]; rfl
        · show chunkZone c p m' = zone
          rw [chunkZone_hdr, hhp]
    · exact hok d (List.mem_append_right _ hd)
  · refine Links.congr hr.list (fun y hy => ?_) (fun y hy hy0 => ?_)
    · have hy : y ∈ (0 :: fl ++ [0]).dropLast := hy
      rw [List.dropLast_concat] at hy
      by_cases hy0 : y = 0
      · simp [freeNext, hy0]
      · simp only [freeNext, if_neg hy0]
        rw [chunkNext_hdr, hfl y (by simpa [hy0] using hy), chunkNext_hdr]
    · have hy : y ∈ fl ++ [0] := hy
      show chunkPrev c y m' = chunkPrev c y h.mem
      rw [chunkPrev_hdr, hfl y (by simpa [hy0] using hy), chunkPrev_hdr]
  · refine free_of_focus (b := ⟨p, n, .used zone⟩) (fun d hd => hr.addr_ne hd) ?_ hofl
    exact ⟨fun hm => absurd (hpfl.1 hm) (by simp), fun hf => by cases hf⟩
  · rw [← hm']
    exact (hr.keepsData hpm (setFlags_same c p 1 _)).trans fun d hd x hx =>
      setZone_same c p zone _ x (hr.data_out hpm hd hx)

def Granted (c : Config) (zone size : Nat) (h : Heap) : Prop :=
  zone < c.maxZones ∧ (h.zones zone).name ≠ none ∧ 0 < size ∧ size ≤ c.arena ∧
    c.chunkSize + c.alignUp size ≤ c.wordSub (h.zones zone).zoneSize (h.zones zone).allocated ∧
    (bestChunk c (c.alignUp size) (defragChunks c h) ≠ 0 ∨ c.chunkSize + c.alignUp size ≤ c.arena - h.heapUsage)

instance (zone size : Nat) : Decidable (Granted c zone size h) :=
  inferInstanceAs (Decidable (_ ∧ _ ∧ _ ∧ _ ∧ _ ∧ (_ ∨ _)))

def AllocExact (c : Config) (size : Nat) (h : Heap) : Prop :=
  bestChunk c (c.alignUp size) (defragChunks c h) ≠ 0 →
    Exact c (c.alignUp size) (bestChunk c (c.alignUp size) (defragChunks c h)) (defragChunks c h).mem

instance (size : Nat) : Decidable (AllocExact c size h) := inferInstanceAs (Decidable (_ → _))

/-- A new object of `n` bytes at `ptr`, where there was none. -/
structure Allocated (c : Config) (h h' : Heap) (bs bs' : List Blk) (zone ptr n : Nat) : Prop where
  holds : Holds c h' bs'
  used : (usedOf bs').Perm (⟨getChunk c ptr, n, .used zone⟩ :: usedOf bs)
  ptr : c.chunkSize ≤ ptr
  keeps : KeepsData c (usedOf bs) h.mem h'.mem

theorem heapmemZoneAlloc_rep {zone size : Nat} (hh : Holds c h bs) :
    ((heapmemZoneAlloc c zone size h).1 ≠ 0 ↔ Granted c zone size h) ∧
    ((heapmemZoneAlloc c zone size h).1 = 0 → ∃ bs', Holds c (heapmemZoneAlloc c zone size h).2 bs' ∧
      Rearranged c h (heapmemZoneAlloc c zone size h).2 bs bs') ∧ (Granted c zone size h → ∃ n bs',
      Allocated c h (heapmemZoneAlloc c zone size h).2 bs bs' zone (heapmemZoneAlloc c zone size h).1 n ∧
      c.alignUp size ≤ n ∧ n ≤ c.alignUp size + c.chunkSize ∧ (n = c.alignUp size ↔ AllocExact c size h) ∧
      (heapmemZoneAlloc c zone size h).2.zones = (setAllocated zone
        (c.wordAdd (h.zones zone).allocated (c.chunkSize + c.alignUp size : Nat)) h).zones) := by
  obtain ⟨hw, fl, hr⟩ := hh
  have hstay : ∃ bs', Holds c h bs' ∧ Rearranged c h h bs bs' := ⟨bs, ⟨hw, fl, hr⟩, Rearranged.refl hw⟩
  have hpos : 0 < size → 0 < c.alignUp size := fun hs => lt_of_lt_of_le hs (c.le_alignUp size)
  unfold heapmemZoneAlloc
  by_cases h₁ : zone ≥ c.maxZones ∨ (h.zones zone).name = none
  · rw [if_pos h₁]
    have hng : ¬Granted c zone size h := by
      rintro ⟨hz, hn, -⟩
      rcases h₁ with h₁ | h₁
      · omega
      · exact hn h₁
    exact ⟨⟨fun hn => absurd rfl hn, fun hg => absurd hg hng⟩, fun _ => hstay, fun hg => absurd hg hng⟩
  rw [if_neg h₁]
  by_cases h₂ : size > c.arena ∨ size = 0
  · rw [if_pos h₂]
    have hng : ¬Granted c zone size h := by
      rintro ⟨-, -, hs, ha, -⟩
      omega
    exact ⟨⟨fun hn => absurd rfl hn, fun hg => absurd hg hng⟩, fun _ => hstay, fun hg => absurd hg hng⟩
  rw [if_neg h₂]
  dsimp only
  by_cases h₃ : c.chunkSize + c.alignUp size > c.wordSub (h.zones zone).zoneSize (h.zones zone).allocated
  · rw [if_pos h₃]
    have hng : ¬Granted c zone size h := by
      rintro ⟨-, -, -, -, hl, -⟩
      omega
    exact ⟨⟨fun hn => absurd rfl hn, fun hg => absurd hg hng⟩, fun _ => hstay, fun hg => absurd hg hng⟩
  rw [if_neg h₃]
  have hzone : zone < c.maxZones := not_le.1 fun hz => h₁ (Or.inl hz)
  have hsize : size ≤ c.arena := not_lt.1 fun hs => h₂ (Or.inl hs)
  have hs0 : 0 < size := Nat.pos_of_ne_zero fun hs => h₂ (Or.inr hs)
  obtain ⟨hzero, hnone, hsome⟩ := obtainChunk_rep hr hw (c.alignUp_dvd size) (hpos hs0)
  have hgr : Granted c zone size h ↔ (obtainChunk c (c.alignUp size) h).1 ≠ 0 := by
    rw [ne_eq, hzero]
    unfold Granted
    constructor
    · rintro ⟨-, -, -, -, -, hb⟩ ⟨hb₁, hb₂⟩
      rcases hb with hb | hb
      · exact hb hb₁
      · omega
    · intro hn
      refine ⟨hzone, fun hname => h₁ (Or.inr hname), hs0, hsize, not_lt.1 h₃, ?_⟩
      by_cases hb : bestChunk c (c.alignUp size) (defragChunks c h) = 0
      · exact Or.inr (not_lt.1 fun hlt => hn ⟨hb, hlt⟩)
      · exact Or.inl hb
  by_cases h₄ : (obtainChunk c (c.alignUp size) h).1 = 0
  · rw [if_pos h₄]
    obtain ⟨bs', fl', hr', hre⟩ := hnone h₄
    have hng : ¬Granted c zone size h := fun hg => (hgr.1 hg) h₄
    exact ⟨⟨fun hn => absurd rfl hn, fun hg => absurd hg hng⟩, fun _ => ⟨bs', ⟨hre.whole, fl', hr'⟩, hre⟩,
      fun hg => absurd hg hng⟩
  · rw [if_neg h₄]
    dsimp only
    obtain ⟨n, pre, post, fl', hob, hn⟩ := hsome h₄
    have hS := c.chunkSize_pos
    obtain ⟨hr', hk⟩ := use_rep hob.rep hzone
    generalize obtainChunk c (c.alignUp size) h = r at *
    have hptr : getChunk c (getPtr c r.1) = r.1 := by unfold getChunk getPtr; omega
    have hne : getPtr c r.1 ≠ 0 := by unfold getPtr; omega
    refine ⟨⟨fun _ => hgr.2 h₄, fun _ => hne⟩, fun he => absurd he hne, fun _ => ?_⟩
    refine ⟨n, pre ++ ⟨r.1, n, .used zone⟩ :: post, ⟨⟨?_, fl', hr'.withZones _⟩, ?_, by unfold getPtr; omega, ?_⟩,
      hob.le, hob.waste, hn, ?_⟩
    · have hw' := hob.whole
      rw [Whole.append] at hw'
      exact Whole.append.2 ⟨hw'.1, Whole.cons.2 ⟨by simp, hw'.2⟩⟩
    · have hperm := @usedOf_focus pre post (⟨r.1, n, .used zone⟩) _ rfl
      rw [← usedOf_append, hob.used] at hperm
      rw [hptr]
      exact hperm
    · refine hob.keeps.trans (hk.mono fun x hx => ?_)
      rw [← hob.used, usedOf_append] at hx
      rcases List.mem_append.1 hx with hx | hx
      · exact List.mem_append_left _ (mem_usedOf.1 hx).1
      · exact List.mem_append_right _ (List.mem_cons_of_mem _ (mem_usedOf.1 hx).1)
    · show (setAllocated zone _ _).zones = (setAllocated zone _ _).zones
      unfold setAllocated
      dsimp only
      rw [hob.zones]

/-! ## Release -/

theorem freeChunk_rep {z : Nat} (hr : Rep c h (pre ++ b :: post) fl) (hw : Whole (pre ++ b :: post))
    (hb : b.st = .used z) : ∃ bs', Holds c (freeChunk c b.addr h) bs' ∧ usedOf bs' = usedOf pre ++ usedOf post ∧
      KeepsData c (pre ++ post) h.mem (freeChunk c b.addr h).mem := by
  have hbf : b.st ≠ .free := by rw [hb]; simp
  rw [Whole.append, Whole.cons] at hw
  obtain ⟨hwpre, -, hwpost⟩ := hw
  have hsub : ∀ x ∈ pre ++ post, x ∈ pre ++ b :: post := by
    intro x hx
    rcases List.mem_append.1 hx with hx | hx <;> simp [hx]
  by_cases hpost : post = []
  · subst hpost
    obtain ⟨hr', hk, -⟩ := free_last_rep hr hbf
    refine ⟨pre, ⟨hwpre, fl, hr'⟩, ?_, hk.mono hsub⟩
    rw [show usedOf [] = [] from rfl, List.append_nil]
  · obtain ⟨hr', hk, -⟩ := free_rep hr hpost hbf
    refine ⟨_, ⟨Whole.append.2 ⟨hwpre, Whole.cons.2 ⟨by simp, hwpost⟩⟩, _, hr'⟩, ?_, hk.mono hsub⟩
    rw [usedOf_append, usedOf_cons_unused rfl]

theorem Rep.pointer (hr : Rep c h bs fl) (hb : b ∈ bs) :
    getChunk c (getPtr c b.addr) = b.addr ∧ getPtr c b.addr ≠ 0 ∧ notInHeap c (getPtr c b.addr) h = false := by
  have hb' := hr.addr_bounds hb
  have hpos := c.base_pos
  have hS := c.chunkSize_pos
  refine ⟨by unfold getChunk getPtr; omega, by unfold getPtr; omega, ?_⟩
  unfold notInHeap getPtr
  simp only [decide_eq_false_iff_not]
  omega

theorem heapmemFree_rep {z : Nat} (hh : Holds c h bs) (hu : (usedOf bs).Perm (b :: rest))
    (hb : b.st = .used z) :
    ∃ h' bs', heapmemFree c (getPtr c b.addr) h = (true, h') ∧ Holds c h' bs' ∧ (usedOf bs').Perm rest ∧
      KeepsData c rest h.mem h'.mem ∧
      h'.zones = (setAllocated z (c.wordSub (h.zones z).allocated (c.chunkSize + b.size)) h).zones := by
  obtain ⟨pre, post, rfl, hrest⟩ := focus_used hu hb
  obtain ⟨hw, fl, hr⟩ := hh
  have hbm : b ∈ pre ++ b :: post := by simp
  obtain ⟨hchunk, -, hin⟩ := hr.pointer hbm
  obtain ⟨halloc, hzone, -⟩ := (hr.ok b hbm).used z hb
  have hsize := (hr.ok b hbm).size
  obtain ⟨bs', hh', hu', hk⟩ := freeChunk_rep
    (hr.withZones (setAllocated z (c.wordSub (h.zones z).allocated (c.chunkSize + b.size)) h).zones) hw hb
  refine ⟨_, bs', ?_, hh', by rw [hu']; exact hrest, hk.mono fun x hx => mem_around hrest hx, freeChunk_zones _ _⟩
  unfold heapmemFree
  rw [hin]
  dsimp only
  rw [hchunk, halloc, hzone, hsize]
  rfl

/-! ## Resizing -/

/-- Whether a resize leaves the counter of the zone right: the chunk ends with the size asked for, or
nothing changes. An object that moves never does. -/
def ResizeExact (c : Config) (ptr size : Nat) (h : Heap) : Prop :=
  let p := getChunk c ptr
  if size ≤ chunkSizeOf c p h.mem then Exact c size p h.mem
  else if isLastChunk c p h then
    size - chunkSizeOf c p h.mem ≤ c.arena - h.heapUsage ∨ ¬Granted c (chunkZone c p h.mem) size h
  else
    let h' := coalesceChunks c p h
    if size ≤ chunkSizeOf c p h'.mem then Exact c size p h'.mem
    else chunkSizeOf c p h'.mem = chunkSizeOf c p h.mem ∧ ¬Granted c (chunkZone c p h'.mem) size h'

/-- A resize finds its bytes in place: in the chunk, at the end of the footprint, or in the free chunks
after it. -/
def InPlace (c : Config) (ptr size : Nat) (h : Heap) : Prop :=
  let p := getChunk c ptr
  size ≤ chunkSizeOf c p h.mem ∨
    if isLastChunk c p h then size - chunkSizeOf c p h.mem ≤ c.arena - h.heapUsage
    else size ≤ chunkSizeOf c p (coalesceChunks c p h).mem

/-- How a resize of the object in `b` to `size` bytes can end; `rest` are the other used chunks. -/
inductive Resized (c : Config) (h : Heap) (b : Blk) (rest : List Blk) (z size : Nat) : Nat × Heap → Prop
  | kept (h' : Heap) (bs' : List Blk) (n : Nat) (holds : Holds c h' bs')
      (used : (usedOf bs').Perm ({ b with size := n } :: rest)) (le : size ≤ n) (keeps : KeepsData c rest h.mem h'.mem)
      (data : ∀ i, i < b.size → i < n → h'.mem (getPtr c b.addr + i) = h.mem (getPtr c b.addr + i))
      (zones : h'.zones = (setAllocated z (c.wordAdd (h.zones z).allocated ((size : Int) - b.size)) h).zones)
      (exact : n = size ↔ ResizeExact c (getPtr c b.addr) size h) (inPlace : InPlace c (getPtr c b.addr) size h) :
      Resized c h b rest z size (getPtr c b.addr, h')
  | failed (h' : Heap) (bs' : List Blk) (n : Nat) (holds : Holds c h' bs')
      (used : (usedOf bs').Perm ({ b with size := n } :: rest)) (le : b.size ≤ n)
      (keeps : KeepsData c (b :: rest) h.mem h'.mem) (zones : h'.zones = h.zones)
      (exact : n = b.size ↔ ResizeExact c (getPtr c b.addr) size h) (notInPlace : ¬InPlace c (getPtr c b.addr) size h) :
      Resized c h b rest z size (0, h')
  | moved (h' : Heap) (bs' : List Blk) (ptr n : Nat) (holds : Holds c h' bs')
      (used : (usedOf bs').Perm (⟨getChunk c ptr, n, .used z⟩ :: rest)) (ptr_le : c.chunkSize ≤ ptr) (le : size ≤ n)
      (waste : n ≤ size + c.chunkSize) (lt : b.size < size) (keeps : KeepsData c rest h.mem h'.mem)
      (data : ∀ i, i < b.size → h'.mem (ptr + i) = h.mem (getPtr c b.addr + i))
      (zones : h'.zones = (setAllocated z (c.wordAdd (h.zones z).allocated (c.chunkSize + size : Nat)) h).zones)
      (limit : c.chunkSize + size ≤ c.wordSub (h.zones z).zoneSize (h.zones z).allocated)
      (inexact : ¬ResizeExact c (getPtr c b.addr) size h) (notInPlace : ¬InPlace c (getPtr c b.addr) size h) :
      Resized c h b rest z size (ptr, h')

theorem Holds.addr_inj (hh : Holds c h bs) {b d : Blk} (hu : (usedOf bs).Perm (b :: rest))
    (hd : d ∈ rest) (hb : b.st.isUsed) : d.addr ≠ b.addr := by
  obtain ⟨-, fl, hr⟩ := hh
  obtain ⟨z, hz⟩ : ∃ z, b.st = .used z := by
    cases hst : b.st with
    | used z => exact ⟨z, rfl⟩
    | free => rw [hst] at hb; cases hb
    | detached => rw [hst] at hb; cases hb
  obtain ⟨pre, post, rfl, hrest⟩ := focus_used hu hz
  exact hr.addr_ne (mem_around hrest hd)

theorem moveObject_rep {z size : Nat} (hh : Holds c h bs)
    (hu : (usedOf bs).Perm (b :: rest)) (hb : b.st = .used z) (hlt : b.size < size) (hdvd : c.align ∣ size) :
    (¬Granted c z size h → ∃ h' bs', moveObject c (getPtr c b.addr) size h = (0, h') ∧ Holds c h' bs' ∧
      Rearranged c h h' bs bs') ∧
    (Granted c z size h → ∃ h' bs' ptr n, moveObject c (getPtr c b.addr) size h = (ptr, h') ∧
      Holds c h' bs' ∧ (usedOf bs').Perm (⟨getChunk c ptr, n, .used z⟩ :: rest) ∧
      c.chunkSize ≤ ptr ∧ size ≤ n ∧ n ≤ size + c.chunkSize ∧ KeepsData c rest h.mem h'.mem ∧
      (∀ i, i < b.size → h'.mem (ptr + i) = h.mem (getPtr c b.addr + i)) ∧
      h'.zones = (setAllocated z (c.wordAdd (h.zones z).allocated (c.chunkSize + size : Nat)) h).zones) := by
  have hbu : b ∈ usedOf bs := hu.mem_iff.2 (by simp)
  have hbm : b ∈ bs := (mem_usedOf.1 hbu).1
  obtain ⟨hchunk, hzone⟩ : getChunk c (getPtr c b.addr) = b.addr ∧ chunkZone c b.addr h.mem = z := by
    obtain ⟨-, fl, hr⟩ := hh
    exact ⟨(hr.pointer hbm).1, ((hr.ok b hbm).used z hb).2.1⟩
  obtain ⟨hgr, hnone, hsome⟩ := @heapmemZoneAlloc_rep _ _ _ z size hh
  unfold moveObject
  rw [hchunk]
  dsimp only
  rw [hzone]
  constructor
  · intro hng
    have h0 : (heapmemZoneAlloc c z size h).1 = 0 := by
      by_contra hne
      exact hng (hgr.1 hne)
    rw [if_pos h0]
    obtain ⟨bs', hh', hre⟩ := hnone h0
    exact ⟨_, bs', rfl, hh', hre⟩
  · intro hg
    have hne := hgr.2 hg
    rw [if_neg hne]
    obtain ⟨n, bs₁, ⟨hh₁, hu₁, hptr, hk₁⟩, hle, hwaste, -, hz⟩ := hsome hg
    rw [c.alignUp_of_dvd hdvd] at hle hwaste hz
    generalize heapmemZoneAlloc c z size h = r at *
    obtain ⟨newptr, h₁⟩ := r
    dsimp only at *
    generalize hd : (⟨getChunk c newptr, n, .used z⟩ : Blk) = d at *
    have hda : d.addr + c.chunkSize = newptr := by rw [← hd]; unfold getChunk; dsimp only; omega
    have hdn : d.size = n := by rw [← hd]
    have hdst : d.st = .used z := by rw [← hd]
    -- the new chunk and the old one among the used chunks after the allocation
    have hud : (usedOf bs₁).Perm (d :: b :: rest) := hu₁.trans (hu.cons d)
    have hub : (usedOf bs₁).Perm (b :: d :: rest) := hud.trans (List.Perm.swap b d rest)
    have hbm₁ : b ∈ bs₁ := (mem_usedOf.1 (hub.mem_iff.2 (by simp))).1
    obtain ⟨pre₁, post₁, rfl, hrest₁⟩ := focus_used hud hdst
    obtain ⟨hw₁, fl₁, hr₁⟩ := hh₁
    have hsz₁ : chunkSizeOf c b.addr h₁.mem = b.size := (hr₁.ok b hbm₁).size
    rw [hsz₁]
    have hout : ∀ x, ¬d.Data c x → h₁.mem.copy newptr (getPtr c b.addr) b.size x = h₁.mem x := by
      intro x hx
      refine copy_of_out ?_
      unfold Blk.Data at hx
      omega
    obtain ⟨hr₂, hk₂⟩ := hr₁.writeData hout
    obtain ⟨pre₂, post₂, heq, hrest₂⟩ := focus_used hub hb
    rw [heq] at hr₂ hw₁
    obtain ⟨bs', hh₃, hu₃, hk₃⟩ := freeChunk_rep hr₂ hw₁ hb
    refine ⟨_, bs', newptr, n, rfl, hh₃, ?_, hptr, hle, hwaste, ?_, ?_, ?_⟩
    · rw [hd, hu₃]; exact hrest₂
    · -- others: kept by the allocation, by the copy and by the release
      refine ((hk₁.mono fun x hx => hu.mem_iff.2 (List.mem_cons_of_mem _ hx)).trans
        (hk₂.mono fun x hx => mem_around hrest₁ (List.mem_cons_of_mem _ hx))).trans
        (hk₃.mono fun x hx => mem_around hrest₂ (List.mem_cons_of_mem _ hx))
    · intro i hi
      have hdd : d.Data c (newptr + i) := ⟨by omega, by omega⟩
      rw [hk₃ d (mem_around hrest₂ (by simp)) _ hdd]
      show h₁.mem.copy newptr (getPtr c b.addr) b.size (newptr + i) = _
      rw [copy_in hi]
      exact hk₁ b hbu _ ⟨by unfold getPtr; omega, by unfold getPtr; omega⟩
    · rw [freeChunk_zones]; exact hz

theorem adjustAllocated_eq {z : Nat} (hr : Rep c h bs fl) (hbm : b ∈ bs) (hb : b.st = .used z) (adj : Int) :
    adjustAllocated c b.addr adj h = setAllocated z (c.wordAdd (h.zones z).allocated adj) h := by
  unfold adjustAllocated
  dsimp only
  rw [((hr.ok b hbm).used z hb).2.1]

theorem shrink_rep {z size : Nat} (adj : Int) (hr : Rep c h (pre ++ b :: post) fl)
    (hw : Whole (pre ++ b :: post)) (hb : b.st = .used z) (hdvd : c.align ∣ size) (hpos : 0 < size)
    (hle : size ≤ b.size) :
    ∃ h' bs' n, adjustAllocated c b.addr adj (splitChunk c b.addr size h) = h' ∧ Holds c h' bs' ∧
      (usedOf bs').Perm ({ b with size := n } :: (usedOf pre ++ usedOf post)) ∧ size ≤ n ∧ n ≤ b.size ∧
      KeepsData c (pre ++ { b with size := n } :: post) h.mem h'.mem ∧
      h'.zones = (setAllocated z (c.wordAdd (h.zones z).allocated adj) h).zones ∧
      (n = size ↔ Exact c size b.addr h.mem) := by
  obtain ⟨n, post', fl', hr', hpost, hk, hz, hn, hn', -, hiff⟩ := splitChunk_rep hr (by rw [hb]; simp) hdvd hpos hle
  generalize splitChunk c b.addr size h = g at *
  have hb' : ({ b with size := n } : Blk).st = .used z := hb
  have hadj : adjustAllocated c b.addr adj g = _ := adjustAllocated_eq (b := { b with size := n }) hr' (by simp) hb' adj
  rw [Whole.append, Whole.cons] at hw
  have hfree : Whole post' ∧ usedOf post' = usedOf post := by
    rcases hpost with rfl | ⟨r, hrf, rfl⟩
    · exact ⟨hw.2.2, rfl⟩
    · exact ⟨Whole.cons.2 ⟨by rw [hrf]; simp, hw.2.2⟩, usedOf_cons_unused (by rw [hrf]; rfl)⟩
  refine ⟨_, _, n, hadj, ⟨?_, fl', hr'.withZones _⟩, ?_, hn, hn', hk, ?_, ?_⟩
  · exact Whole.append.2 ⟨hw.1, Whole.cons.2 ⟨hw.2.1, hfree.1⟩⟩
  · rw [← hfree.2]
    exact usedOf_focus hb'
  · unfold setAllocated
    dsimp only
    rw [hz]
  · rw [hiff]
    unfold Exact
    rw [(hr.ok b (by simp)).size]

theorem resizeObject_rep {z size : Nat} (hh : Holds c h bs)
    (hu : (usedOf bs).Perm (b :: rest)) (hb : b.st = .used z) (hdvd : c.align ∣ size) (hpos : 0 < size)
    (hint : size ≤ 2 ^ (c.intBits - 1)) : Resized c h b rest z size (resizeObject c (getPtr c b.addr) size h) := by
  obtain ⟨pre, post, rfl, hrest⟩ := focus_used hu hb
  have hbm : b ∈ pre ++ b :: post := by simp
  obtain ⟨hw, fl, hr⟩ := id hh
  have hchunk := (hr.pointer hbm).1
  have hsz := (hr.ok b hbm).size
  have hzone := ((hr.ok b hbm).used z hb).2.1
  have hbnd := hr.addr_bounds hbm
  have hadj := c.toInt_wordSub hint (by omega) (hr.ok b hbm).pos
  have hS := c.chunkSize_pos
  have hexact : ResizeExact c (getPtr c b.addr) size h ↔
      if size ≤ b.size then Exact c size b.addr h.mem
      else if isLastChunk c b.addr h then size - b.size ≤ c.arena - h.heapUsage ∨ ¬Granted c z size h
      else if size ≤ chunkSizeOf c b.addr (coalesceChunks c b.addr h).mem then
        Exact c size b.addr (coalesceChunks c b.addr h).mem
      else chunkSizeOf c b.addr (coalesceChunks c b.addr h).mem = b.size ∧
        ¬Granted c (chunkZone c b.addr (coalesceChunks c b.addr h).mem) size (coalesceChunks c b.addr h) := by
    unfold ResizeExact
    dsimp only
    rw [hchunk, hsz, hzone]
  have hplace : InPlace c (getPtr c b.addr) size h ↔ size ≤ b.size ∨
      if isLastChunk c b.addr h then size - b.size ≤ c.arena - h.heapUsage
      else size ≤ chunkSizeOf c b.addr (coalesceChunks c b.addr h).mem := by
    unfold InPlace
    dsimp only
    rw [hchunk, hsz]
  -- how the others of the list of used chunks keep their data
  have hothers : ∀ {n : Nat} {m : Mem}, KeepsData c (pre ++ { b with size := n } :: post) h.mem m →
      KeepsData c rest h.mem m ∧
        ∀ i, i < b.size → i < n → m (getPtr c b.addr + i) = h.mem (getPtr c b.addr + i) := by
    intro n m hk
    refine ⟨hk.mono fun x hx => ?_, fun i _ hi => hk { b with size := n } (by simp) _ ⟨?_, ?_⟩⟩
    · exact mem_insert.2 (Or.inr (mem_around hrest hx))
    · unfold getPtr; dsimp only; omega
    · unfold getPtr; dsimp only; omega
  unfold resizeObject
  rw [hchunk]
  dsimp only
  rw [hsz, hadj]
  by_cases hle : size ≤ b.size
  · -- smaller, or the same
    rw [if_pos (by omega)]
    obtain ⟨h', bs', n, he, hh', hu', hn, hn', hk, hz, hiff⟩ := shrink_rep ((size : Int) - b.size) hr hw hb hdvd hpos hle
    rw [he]
    obtain ⟨hk₁, hk₂⟩ := hothers hk
    refine .kept h' bs' n hh' (hu'.trans (hrest.cons _)) hn hk₁ hk₂ hz ?_ (hplace.2 (Or.inl hle))
    rw [hexact, if_pos hle]
    exact hiff
  rw [if_neg (by omega)]
  have hlt : b.size < size := by omega
  have hnat : ((size : Int) - b.size).toNat = size - b.size := by omega
  rw [hnat]
  rw [if_neg hle] at hexact
  rw [or_iff_right hle] at hplace
  by_cases hlast : isLastChunk c b.addr h
  · rw [if_pos hlast]
    rw [if_pos hlast] at hexact hplace
    obtain rfl : post = [] := (isLast_iff hr hsz).1 hlast
    unfold extendSpace
    by_cases hfit : size - b.size > c.arena - h.heapUsage
    · -- the arena is full: the object moves, or stays
      rw [if_pos hfit]
      dsimp only
      obtain ⟨hstay, hmove⟩ := moveObject_rep hh hu hb hlt hdvd
      by_cases hg : Granted c z size h
      · obtain ⟨h', bs', ptr, n, he, hh', hu', hp, hn, hwaste, hk, hd, hz⟩ := hmove hg
        rw [he]
        refine .moved h' bs' ptr n hh' hu' hp hn hwaste hlt hk hd hz ?_ ?_ fun hx => absurd (hplace.1 hx) (by omega)
        · have := hg.2.2.2.2.1
          rwa [c.alignUp_of_dvd hdvd] at this
        · rw [hexact]
          rintro (hx | hx)
          · omega
          · exact hx hg
      · obtain ⟨h', bs', he, hh', hre⟩ := hstay hg
        rw [he]
        refine .failed h' bs' b.size hh' ?_ le_rfl ?_ hre.zones ?_ fun hx => absurd (hplace.1 hx) (by omega)
        · rw [hre.used]; exact hu
        · exact hre.keeps.mono fun x hx => hu.mem_iff.2 hx
        · rw [hexact]
          exact ⟨fun _ => Or.inr hg, fun _ => rfl⟩
    · -- the footprint grows with the chunk
      rw [if_neg hfit]
      dsimp only
      have husage := hr.usage
      have hend : b.addr + c.chunkSize + b.size = c.base + h.heapUsage := hr.tiles.around.2
      have htiles : Tiles c (b.addr + c.chunkSize + size) [] (c.base + (h.heapUsage + (size - b.size))) := by
        show b.addr + c.chunkSize + size = c.base + (h.heapUsage + (size - b.size))
        omega
      obtain ⟨hr', hk⟩ := @resize_rep _ _ _ ([]) _ b ([]) _ _ (if h.heapUsage + (size - b.size) > h.maxHeapUsage then
          h.heapUsage + (size - b.size) else h.maxHeapUsage) hr (by simp) hdvd hpos htiles (by omega)
      have hb' : ({ b with size := size } : Blk).st = .used z := hb
      rw [adjustAllocated_eq (b := { b with size := size }) hr' (by simp) hb']
      rw [Whole.append, Whole.cons] at hw
      refine .kept _ (pre ++ [(⟨b.addr, size, b.st⟩ : Blk)]) size ?_ ?_ le_rfl ?_ ?_ ?_ ?_ (hplace.2 (by omega))
      · exact ⟨Whole.append.2 ⟨hw.1, Whole.cons.2 ⟨hw.2.1, hw.2.2⟩⟩, fl, hr'.withZones _⟩
      · exact (usedOf_focus hb').trans (hrest.cons _)
      · exact hk.mono fun x hx => mem_insert.2 (Or.inr (mem_around hrest hx))
      · intro i hi _
        exact hk b hbm _ ⟨by unfold getPtr; omega, by unfold getPtr; omega⟩
      · rfl
      · rw [hexact]
        exact ⟨fun _ => Or.inl (by omega), fun _ => rfl⟩
  · rw [if_neg hlast]
    rw [if_neg hlast] at hexact hplace
    rw [Whole.append, Whole.cons] at hw
    obtain ⟨n, post', fl', hc⟩ := coalesceChunks_rep hr hw.2.2
    have hb' : ({ b with size := n } : Blk).st = .used z := hb
    have hsz' : chunkSizeOf c b.addr (coalesceChunks c b.addr h).mem = n := (hc.rep.ok { b with size := n } (by simp)).size
    have hzone' : chunkZone c b.addr (coalesceChunks c b.addr h).mem = z :=
      ((hc.rep.ok { b with size := n } (by simp)).used z hb).2.1
    rw [hsz', hzone'] at hexact
    rw [hsz'] at hplace
    obtain ⟨frees, hpost, hfrees⟩ := hc.frees
    have hpu : usedOf post' = usedOf post := by
      rw [hpost, usedOf_append, usedOf_frees hfrees, List.nil_append]
    have hw' : Whole (pre ++ { b with size := n } :: post') := by
      rw [hpost, Whole.append] at hw
      rw [Whole.append, Whole.cons]
      exact ⟨hw.1, hw.2.1, hw.2.2.2⟩
    have hz₁ := hc.zones
    have hk₁ := hc.keeps
    have hr₁ := hc.rep
    have hle₁ := hc.le
    generalize coalesceChunks c b.addr h = g at *
    rw [hsz']
    have hrest' : (usedOf pre ++ usedOf post').Perm rest := by rw [hpu]; exact hrest
    have hsub : ∀ x ∈ pre ++ post', x ∈ pre ++ b :: post' := fun x hx => mem_insert.2 (Or.inr hx)
    by_cases hfit : size ≤ n
    · -- room enough in place
      rw [if_pos hfit]
      rw [if_pos hfit] at hexact
      obtain ⟨h', bs', n', he, hh', hu', hn, hn', hk, hz, hiff⟩ :=
        shrink_rep (b := { b with size := n }) ((size : Int) - b.size) hr₁ hw' hb' hdvd hpos hfit
      rw [he]
      refine .kept h' bs' n' hh' (hu'.trans (hrest'.cons _)) hn ?_ ?_ ?_ ?_ (hplace.2 hfit)
      · refine (hk₁.mono fun x hx => hsub x (mem_around hrest' hx)).trans (hk.mono fun x hx => ?_)
        exact mem_insert.2 (Or.inr (mem_around hrest' hx))
      · intro i hi hi'
        have hx : b.Data c (getPtr c b.addr + i) := ⟨by unfold getPtr; omega, by unfold getPtr; omega⟩
        rw [hk { b with size := n' } (by simp) _ ⟨hx.1, by unfold getPtr; dsimp only; omega⟩]
        exact hk₁ b (by simp) _ hx
      · rw [hz]
        unfold setAllocated
        dsimp only
        rw [hz₁]
      · rw [hexact]
        exact hiff
    · rw [if_neg hfit]
      rw [if_neg hfit] at hexact
      have hu' : (usedOf (pre ++ { b with size := n } :: post')).Perm ({ b with size := n } :: rest) :=
        (usedOf_focus hb').trans (hrest'.cons _)
      obtain ⟨hstay, hmove⟩ := moveObject_rep (b := { b with size := n }) ⟨hw', fl', hr₁⟩ hu' hb' (by dsimp only; omega) hdvd
      have hkb : KeepsData c (b :: rest) h.mem g.mem := by
        refine hk₁.mono fun x hx => ?_
        rcases List.mem_cons.1 hx with rfl | hx
        · simp
        · exact hsub x (mem_around hrest' hx)
      by_cases hg : Granted c z size g
      · obtain ⟨h', bs', ptr, k, he, hh', hu'', hp, hn, hwaste, hk, hd, hz⟩ := hmove hg
        dsimp only at he hd
        rw [he]
        refine .moved h' bs' ptr k hh' hu'' hp hn hwaste hlt ?_ ?_ ?_ ?_ ?_ fun hx => hfit (hplace.1 hx)
        · exact (hkb.mono fun x hx => List.mem_cons_of_mem _ hx).trans hk
        · intro i hi
          rw [hd i (by omega)]
          exact hkb b (by simp) _ ⟨by unfold getPtr; omega, by unfold getPtr; omega⟩
        · rw [hz]
          unfold setAllocated
          dsimp only
          rw [hz₁]
        · have hlim := hg.2.2.2.2.1
          rwa [c.alignUp_of_dvd hdvd, hz₁] at hlim
        · rw [hexact]
          exact fun hx => hx.2 hg
      · obtain ⟨h', bs', he, hh', hre⟩ := hstay hg
        dsimp only at he
        rw [he]
        refine .failed h' bs' n hh' ?_ hle₁ ?_ (hre.zones.trans hz₁) ?_ fun hx => hfit (hplace.1 hx)
        · rw [hre.used]; exact hu'
        · refine hkb.trans fun x hx y hy => ?_
          have hkr := hre.keeps
          rcases List.mem_cons.1 hx with rfl | hx
          · refine hkr { x with size := n } (hu'.mem_iff.2 (by simp)) y ⟨hy.1, ?_⟩
            have := hy.2
            dsimp only; omega
          · exact hkr x (hu'.mem_iff.2 (List.mem_cons_of_mem _ hx)) y hy
        · rw [hexact]
          exact ⟨fun he => ⟨he, hg⟩, fun hx => hx.1⟩

/-! ## Statistics -/

theorem statsLoop_rep : ∀ (fuel : Nat) {h : Heap} {pre post : List Blk} {fl : List Nat} {p : Nat} {st : Stats},
    Rep c h (pre ++ post) fl → Whole (pre ++ post) → Tiles c p post (c.base + h.heapUsage) →
    ∃ bs' fl', Rep c (statsLoop c fuel p (st, h)).2 bs' fl' ∧
      Rearranged c h (statsLoop c fuel p (st, h)).2 (pre ++ post) bs' := by
  intro fuel
  induction fuel with
  | zero => exact fun hr hw _ => ⟨_, _, hr, Rearranged.refl hw⟩
  | succ fuel ih =>
    intro h pre post fl p st hr hw ht
    unfold statsLoop
    by_cases hlt : p < c.base + h.heapUsage
    · rw [if_pos hlt]
      cases post with
      | nil =>
        have hp : p = c.base + h.heapUsage := ht
        omega
      | cons b post =>
        obtain ⟨rfl, ht⟩ := ht
        have hbm : b ∈ pre ++ b :: post := by simp
        have hsz := (hr.ok b hbm).size
        by_cases ha : chunkAllocated c b.addr h.mem = true
        · rw [if_pos ha]
          have hassoc : pre ++ b :: post = (pre ++ [b]) ++ post := by simp
          rw [hassoc] at hr hw ⊢
          refine ih hr hw ?_
          unfold nextChunk
          rw [hsz]; exact ht
        · -- a free chunk is coalesced on the way
          rw [if_neg ha]
          dsimp only
          have hbf : b.st = .free := by
            cases hst : b.st with
            | free => rfl
            | used z => exact absurd ((hr.ok b hbm).used z hst).1 ha
            | detached => exact absurd hst (hw b hbm)
          obtain ⟨n, post', fl', hc⟩ := coalesceChunks_rep hr (Whole.cons.1 (Whole.append.1 hw).2).2
          have hre := hc.rearranged hbf hw
          have hr₁ := hc.rep
          have hnext : nextChunk c b.addr (coalesceChunks c b.addr h).mem = b.addr + c.chunkSize + n := by
            unfold nextChunk
            rw [(hr₁.ok { b with size := n } (by simp)).size]
          have hwhole := hre.whole
          have hassoc : pre ++ { b with size := n } :: post' = (pre ++ [{ b with size := n }]) ++ post' := by simp
          have ht' := hr₁.tiles.around.2
          rw [hnext]
          rw [hassoc] at hr₁ hwhole hre
          have hrun : ∀ st' : Stats, _ := fun st' => @ih _ _ _ _ _ st' hr₁ hwhole ht'
          obtain ⟨bs', fl'', hr', hre'⟩ := hrun _
          exact ⟨bs', fl'', hr', hre.trans hre'⟩
    · rw [if_neg hlt]
      exact ⟨_, _, hr, Rearranged.refl hw⟩

theorem heapmemStats_rep (hh : Holds c h bs) :
    ∃ bs', Holds c (heapmemStats c h).2 bs' ∧ Rearranged c h (heapmemStats c h).2 bs bs' := by
  obtain ⟨hw, fl, hr⟩ := hh
  obtain ⟨bs', fl', hr', hre⟩ := @statsLoop_rep _ h.heapUsage _ ([]) _ _ _ (⟨0, 0, 0, 0, 0, 0⟩) hr hw hr.tiles
  exact ⟨bs', ⟨hre.whole, fl', hr'⟩, hre⟩

end Contiki.Heapmem
