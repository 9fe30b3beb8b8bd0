/-
Memory safety of the heap over all runs of a program: the chunks tile the footprint, the free list
links exactly the chunks that are not allocated, and the objects are apart, aligned, inside the arena
and large enough; each call leaves the bytes of all other objects alone.
-/
import Contiki.Heapmem.System

namespace Contiki.Heapmem

section

open Contiki.Lib Contiki.Lib.Mem

variable {c : Config} {s s' : Sys} {us : List Blk}

/-- What the memory of the heap looks like to the program and to the allocator. -/
structure Sound (c : Config) (s : Sys) : Prop where
  layout : ∃ bs fl, Tiles c c.base bs (c.base + s.heap.heapUsage) ∧
    (∀ b ∈ bs, chunkSizeOf c b.addr s.heap.mem = b.size) ∧ s.heap.heapUsage ≤ c.arena ∧
    DList 0 (freeNext c s.heap) (fun p => chunkPrev c p s.heap.mem) fl ∧ fl.Nodup ∧
    ∀ p, p ∈ fl ↔ ∃ b ∈ bs, b.addr = p ∧ chunkAllocated c p s.heap.mem = false
  disjoint : s.live.Pairwise fun o o' => o.ptr + o.req ≤ o'.ptr ∨ o'.ptr + o'.req ≤ o.ptr
  aligned : ∀ o ∈ s.live, c.align ∣ o.ptr
  large : ∀ o ∈ s.live, chunkAllocated c (getChunk c o.ptr) s.heap.mem = true ∧
    o.req ≤ chunkSizeOf c (getChunk c o.ptr) s.heap.mem
  inside : ∀ o ∈ s.live, c.base ≤ o.ptr ∧ o.ptr + chunkSizeOf c (getChunk c o.ptr) s.heap.mem ≤ c.base + c.arena

/-! ## Addresses of a tiling -/

theorem Tiles.pairwise : ∀ {bs : List Blk} {a e : Nat}, Tiles c a bs e →
    bs.Pairwise fun b b' => b.addr + c.chunkSize + b.size ≤ b'.addr
  | [], _, _, _ => List.Pairwise.nil
  | b :: bs, a, e, ⟨hb, ht⟩ => List.Pairwise.cons (fun b' hb' => by have := ht.mem b' hb'; omega) ht.pairwise

theorem Tiles.aligned : ∀ {bs : List Blk} {a e : Nat}, Tiles c a bs e → c.align ∣ a → (∀ b ∈ bs, c.align ∣ b.size) →
    ∀ b ∈ bs, c.align ∣ b.addr
  | b :: bs, a, e, ⟨hb, ht⟩, ha, hsize, b', hb' => by
    rcases List.mem_cons.1 hb' with rfl | hb'
    · rw [hb]; exact ha
    · refine ht.aligned ?_ (fun d hd => hsize d (List.mem_cons_of_mem _ hd)) b' hb'
      exact dvd_add (dvd_add ha c.chunk_aligned) (hsize b (by simp))

theorem forall₂_pairwise {R : Blk → Obj → Prop} {D : Blk → Blk → Prop} {E : Obj → Obj → Prop}
    (hde : ∀ b b' o o', R b o → R b' o' → D b b' → E o o') : ∀ {us : List Blk} {live : List Obj},
    List.Forall₂ R us live → us.Pairwise D → live.Pairwise E
  | _, _, .nil, _ => List.Pairwise.nil
  | _, _, .cons hb ht, hp => by
    obtain ⟨h₁, h₂⟩ := List.pairwise_cons.1 hp
    refine List.Pairwise.cons (fun o' ho' => ?_) (forall₂_pairwise hde ht h₂)
    obtain ⟨b', hb', hbo'⟩ := forall₂_mem ht ho'
    exact hde _ _ _ _ hb hbo' (h₁ b' hb')

theorem Backed.sound (hb : Backed c us s) : Sound c s := by
  obtain ⟨⟨bs, ⟨hw, fl, hr⟩, hp⟩, hf⟩ := hb
  have hS := c.chunkSize_pos
  -- the chunk behind an object
  have hchunk : ∀ o ∈ s.live, ∃ b ∈ bs, (∃ z, b.st = .used z) ∧ Backs c b o ∧ getChunk c o.ptr = b.addr := by
    intro o ho
    obtain ⟨b, hbm, hbo⟩ := forall₂_mem hf ho
    obtain ⟨hbs, hz⟩ := mem_usedOf.1 (hp.mem_iff.2 hbm)
    refine ⟨b, hbs, hz, hbo, ?_⟩
    rw [hbo.1]
    exact (hr.pointer hbs).1
  refine ⟨⟨bs, fl, hr.tiles, fun b hbm => (hr.ok b hbm).size, hr.usage, hr.list, hr.nodup, fun p => ?_⟩, ?_, ?_, ?_, ?_⟩
  · rw [hr.free]
    constructor
    · rintro ⟨b, hbm, hst, rfl⟩
      exact ⟨b, hbm, rfl, (hr.ok b hbm).free hst⟩
    · rintro ⟨b, hbm, rfl, ha⟩
      refine ⟨b, hbm, ?_, rfl⟩
      cases hst : b.st with
      | free => rfl
      | used z => rw [((hr.ok b hbm).used z hst).1] at ha; cases ha
      | detached => exact absurd hst (hw b hbm)
  · have hpair : (usedOf bs).Pairwise fun b b' =>
        b.addr + c.chunkSize + b.size ≤ b'.addr ∨ b'.addr + c.chunkSize + b'.size ≤ b.addr :=
      (hr.tiles.pairwise.sublist List.filter_sublist).imp Or.inl
    refine forall₂_pairwise ?_ hf ((hp.pairwise_iff Or.symm).1 hpair)
    rintro b b' o o' ⟨h₁, h₂⟩ ⟨h₃, h₄⟩ hd
    unfold getPtr at h₁ h₃
    omega
  · intro o ho
    obtain ⟨b, hbm, -, hbo, -⟩ := hchunk o ho
    rw [hbo.1]
    exact dvd_add (hr.tiles.aligned c.base_aligned (fun d hd => (hr.ok d hd).aligned) b hbm) c.chunk_aligned
  · intro o ho
    obtain ⟨b, hbm, ⟨z, hz⟩, hbo, he⟩ := hchunk o ho
    rw [he, (hr.ok b hbm).size]
    exact ⟨((hr.ok b hbm).used z hz).1, hbo.2⟩
  · intro o ho
    obtain ⟨b, hbm, -, hbo, he⟩ := hchunk o ho
    have hbnd := hr.addr_bounds hbm
    rw [he, (hr.ok b hbm).size, hbo.1]
    unfold getPtr
    omega

theorem run_backed (mem : Mem) (calls : List Call) (he : exec (step c) (Sys.start c mem) calls = some s) :
    ∃ us, Backed c us s :=
  exec_invariant (J := fun s => ∃ us, Backed c us s) (fun _ _ _ ⟨_, hb⟩ hs => (step_backed hb hs).1) calls
    ⟨[], start_backed mem⟩ he

/-- Over every run that respects the API, whatever was in memory at the start: the heap is sound in
every state, and every further call preserves the bytes of all objects but the one passed to it, and
those of a resized object as far as both sizes go. -/
theorem heap_sound (c : Config) (mem : Mem) (calls : List Call) (s : Sys)
    (he : exec (step c) (Sys.start c mem) calls = some s) :
    Sound c s ∧ ∀ call s', step c s call = some s' → Preserves c s call s' := by
  obtain ⟨us, hb⟩ := run_backed mem calls he
  exact ⟨hb.sound, fun call s' hs => (step_backed hb hs).2⟩

def smallHeap : Config where
  wordBytes := 4
  intBits := 32
  arena := 256
  base := 64
  chunkSize := 16
  align := 4
  searchMax := 16
  maxZones := 3
  align_pow := ⟨2, rfl⟩
  header := by decide
  chunk_aligned := by decide
  base_pos := by decide
  base_aligned := by decide
  address_space := by decide
  arena_int := by decide
  header_int := by decide
  int_word := by decide
  int_pos := by decide
  zones_pos := by decide
  zones_byte := by decide

/-- Two objects, one of which is filled, freed in part and grown over the space behind it. -/
def growAndShrink : List Call :=
  [.alloc 0 40, .alloc 0 8, .write 80 0 7, .realloc 80 4, .realloc 80 12, .free 136, .stats]

theorem heap_sound_growAndShrink : ∃ s, exec (step smallHeap) (Sys.start smallHeap fun _ => 0) growAndShrink = some s ∧
      s.live = [⟨80, 12⟩] ∧ Sound smallHeap s ∧
      ∀ call s', step smallHeap s call = some s' → Preserves smallHeap s call s' :=
  ⟨_, rfl, by decide, heap_sound smallHeap (fun _ => 0) growAndShrink _ rfl⟩

end

/-!
Pointers outside of the heap: what `heapmem_free` and `heapmem_realloc` do with them depends on the byte that stands
where the flags of a chunk would be, for those behind the heap.
-/

section

open Contiki.Lib

variable {c : Config} {h : Heap} {ptr : Nat}

def OutOfHeap (c : Config) (h : Heap) (ptr : Nat) : Prop := ptr ≠ 0 ∧ ¬ (c.base ≤ ptr ∧ ptr < c.base + h.heapUsage)

def Refused (c : Config) (h : Heap) (ptr : Nat) : Prop :=
  heapmemFree c ptr h = (false, h) ∧ ∀ n, heapmemRealloc c ptr n h = (0, h)

theorem notInHeap_below (hlt : ptr < c.base) : notInHeap c ptr h = true := by
  unfold notInHeap
  rw [decide_eq_true_eq]
  constructor
  · rintro ⟨-, hle⟩
    omega
  · omega

theorem notInHeap_behind (hle : c.base + h.heapUsage ≤ ptr) : notInHeap c ptr h = false := by
  unfold notInHeap
  rw [decide_eq_false_iff_not]
  rintro ⟨-, hlt⟩
  omega

theorem refused_below (hptr : ptr ≠ 0) (hlt : ptr < c.base) : Refused c h ptr := by
  have hnot := notInHeap_below (h := h) hlt
  refine ⟨?_, fun n => ?_⟩
  · rw [heapmemFree, if_pos hnot]
  · rw [heapmemRealloc, if_pos ⟨hptr, hnot⟩]

theorem free_behind (hle : c.base + h.heapUsage ≤ ptr)
    (hflag : chunkAllocated c (getChunk c ptr) h.mem = false) : heapmemFree c ptr h = (false, h) := by
  have hnot := notInHeap_behind (h := h) hle
  rw [heapmemFree, if_neg (by rw [hnot]; exact Bool.false_ne_true)]
  dsimp only
  rw [if_pos (by rw [hflag]; rfl)]

theorem refused_behind (hptr : ptr ≠ 0) (hle : c.base + h.heapUsage ≤ ptr)
    (hflag : chunkAllocated c (getChunk c ptr) h.mem = false) : Refused c h ptr := by
  have hfree := free_behind hle hflag
  refine ⟨hfree, fun n => ?_⟩
  have hnot := notInHeap_behind (h := h) hle
  rw [heapmemRealloc, if_neg fun hn => absurd (hnot.symm.trans hn.2) Bool.false_ne_true]
  by_cases hbig : n > c.arena
  · rw [if_pos hbig]
  · rw [if_neg hbig, if_neg hptr]
    by_cases hzero : n = 0
    · rw [if_pos hzero, hfree]
    · rw [if_neg hzero, if_pos (by rw [hflag]; rfl)]

theorem accepted_behind (hle : c.base + h.heapUsage ≤ ptr)
    (hflag : chunkAllocated c (getChunk c ptr) h.mem = true) : (heapmemFree c ptr h).1 = true := by
  have hnot := notInHeap_behind (h := h) hle
  rw [heapmemFree, if_neg (by rw [hnot]; exact Bool.false_ne_true)]
  dsimp only
  rw [if_neg (by rw [hflag]; exact Bool.false_ne_true)]

/-- A pointer outside of the heap is refused exactly when it lies in front of the heap, or the byte before it that
would hold the flags does not say that it is allocated. -/
theorem refused_iff (c : Config) (h : Heap) (ptr : Nat) (hout : OutOfHeap c h ptr) :
    Refused c h ptr ↔ ptr < c.base ∨ chunkAllocated c (getChunk c ptr) h.mem = false := by
  obtain ⟨hptr, hrange⟩ := hout
  by_cases hlt : ptr < c.base
  · exact ⟨fun _ => .inl hlt, fun _ => refused_below hptr hlt⟩
  · have hle : c.base + h.heapUsage ≤ ptr := by
      by_contra hn
      exact hrange ⟨by omega, by omega⟩
    constructor
    · rintro ⟨hfree, -⟩
      refine .inr ?_
      by_contra hflag
      have haccepted := accepted_behind hle (by simpa using hflag)
      rw [hfree] at haccepted
      exact Bool.false_ne_true haccepted
    · rintro (hlow | hflag)
      · exact absurd hlow hlt
      · exact refused_behind hptr hle hflag

theorem refused_iff_low : (OutOfHeap smallHeap (Sys.start smallHeap fun _ => 0).heap 60) ∧
    (Refused smallHeap (Sys.start smallHeap fun _ => 0).heap 60 ↔
      60 < smallHeap.base ∨ chunkAllocated smallHeap (getChunk smallHeap 60) (Sys.start smallHeap fun _ => 0).heap.mem = false) :=
  have hout : OutOfHeap smallHeap (Sys.start smallHeap fun _ => 0).heap 60 := ⟨by decide, by decide⟩
  ⟨hout, refused_iff smallHeap (Sys.start smallHeap fun _ => 0).heap 60 hout⟩

def writtenAndFreed : List Call := [.alloc 0 40, .write 80 12 1, .free 80]

/-- The byte that was written is taken for the flags of a chunk behind the heap. -/
theorem stale_byte_freed : ∃ s, exec (step smallHeap) (Sys.start smallHeap fun _ => 0) writtenAndFreed = some s ∧
    OutOfHeap smallHeap s.heap 96 ∧ ¬ Refused smallHeap s.heap 96 := by
  refine ⟨_, rfl, ⟨by decide, by decide⟩, fun hr => ?_⟩
  have haccepted := congrArg Prod.fst hr.1
  exact absurd haccepted (by decide)

end

end Contiki.Heapmem
