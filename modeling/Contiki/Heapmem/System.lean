/-
A program that uses the heap: the objects it holds, the calls it makes, and the writes to its own
objects. A call that does not respect the API (freeing or resizing what is not a live object) is not
a step. Each live object is backed by a used chunk of its own, in every state reached.
-/
import Contiki.Lib.Run
import Contiki.Heapmem.Calls

namespace Contiki.Heapmem

open Contiki.Lib Contiki.Lib.Mem

/-! ## The program -/

structure Obj where
  ptr : Nat
  req : Nat
  deriving DecidableEq, Repr

/-- What the program does: the calls of the API, and a write to byte `i` of the object at `ptr`. -/
inductive Call where
  | register (name : Option String) (zoneSize : Nat)
  | alloc (zone size : Nat)
  | free (ptr : Nat)
  | realloc (ptr size : Nat)
  | calloc (nmemb size : Nat)
  | stats
  | write (ptr i : Nat) (v : UInt8)
  deriving DecidableEq, Repr

/-- The heap and the objects the program holds. -/
structure Sys where
  heap : Heap
  live : List Obj

variable (c : Config)

def Sys.respects (s : Sys) (ptr : Nat) : Bool := ptr = 0 ∨ ∃ o ∈ s.live, o.ptr = ptr

def Sys.drop (s : Sys) (ptr : Nat) : List Obj := s.live.eraseP (·.ptr = ptr)

/-- The pointer of a call, unless it is NULL, is that of a new object. -/
def born (r : Nat × Heap) (size : Nat) (live : List Obj) : Sys :=
  { heap := r.2, live := if r.1 = 0 then live else ⟨r.1, size⟩ :: live }

def step (s : Sys) : Call → Option Sys
  | .register name zoneSize => some { s with heap := (heapmemZoneRegister c name zoneSize s.heap).2 }
  | .alloc zone size => some (born (heapmemZoneAlloc c zone size s.heap) size s.live)
  | .free ptr =>
    if s.respects ptr then some { heap := (heapmemFree c ptr s.heap).2, live := s.drop ptr } else none
  | .realloc ptr size =>
    if s.respects ptr then
      let r := heapmemRealloc c ptr size s.heap
      -- NULL for a size other than 0 leaves the object alone
      some (born r size (if r.1 = 0 ∧ size ≠ 0 then s.live else s.drop ptr))
    else none
  | .calloc nmemb size => some (born (heapmemCalloc c nmemb size s.heap) (nmemb * size) s.live)
  | .stats => some { s with heap := (heapmemStats c s.heap).2 }
  | .write ptr i v =>
    if ∃ o ∈ s.live, o.ptr = ptr ∧ i < o.req then
      some { s with heap := { s.heap with mem := Function.update s.heap.mem (ptr + i) v } }
    else none

/-- The static variables of the module before any call: `zones[0]` is the general zone. -/
def Sys.start (mem : Mem) : Sys where
  heap :=
    { mem := mem, heapUsage := 0, maxHeapUsage := 0, freeList := 0
      zones := fun i => if i = zoneGeneral then ⟨some "GENERAL", c.arena, 0⟩ else ⟨none, 0, 0⟩ }
  live := []

/-! ## The invariant -/

def Backs (b : Blk) (o : Obj) : Prop := o.ptr = getPtr c b.addr ∧ o.req ≤ b.size

def Backed (us : List Blk) (s : Sys) : Prop :=
  (∃ bs, Holds c s.heap bs ∧ (usedOf bs).Perm us) ∧ List.Forall₂ (Backs c) us s.live

variable {c : Config} {s s' : Sys} {us : List Blk}

theorem start_backed (mem : Mem) : Backed c [] (Sys.start c mem) := by
  refine ⟨⟨[], ⟨fun _ hb => (List.not_mem_nil hb).elim, [], ?_⟩, List.Perm.refl _⟩, List.Forall₂.nil⟩
  exact ⟨rfl, fun _ hb => (List.not_mem_nil hb).elim, Nat.zero_le _, ⟨rfl, fun h => absurd rfl h, trivial⟩,
    List.nodup_nil, fun p => ⟨fun hp => (List.not_mem_nil hp).elim, fun ⟨_, hb, _⟩ => (List.not_mem_nil hb).elim⟩⟩

theorem forall₂_split {R : Blk → Obj → Prop} : ∀ {l₁ l₂ : List Obj} {o : Obj} {us : List Blk},
    List.Forall₂ R us (l₁ ++ o :: l₂) →
    ∃ u₁ b u₂, us = u₁ ++ b :: u₂ ∧ R b o ∧ List.Forall₂ R (u₁ ++ u₂) (l₁ ++ l₂) ∧
      ∀ b', R b' o → List.Forall₂ R (u₁ ++ b' :: u₂) (l₁ ++ o :: l₂)
  | [], _, _, _, h => by
    cases h with
    | cons hb ht => exact ⟨[], _, _, rfl, hb, ht, fun b' hb' => List.Forall₂.cons hb' ht⟩
  | a :: l₁, l₂, o, _, h => by
    cases h with
    | cons ha ht =>
      obtain ⟨u₁, b, u₂, rfl, hb, hrest, hput⟩ := forall₂_split ht
      exact ⟨_ :: u₁, b, u₂, rfl, hb, List.Forall₂.cons ha hrest, fun b' hb' => List.Forall₂.cons ha (hput b' hb')⟩

theorem forall₂_mem {R : Blk → Obj → Prop} {us : List Blk} {live : List Obj} (h : List.Forall₂ R us live) {o : Obj}
    (ho : o ∈ live) : ∃ b ∈ us, R b o := by
  obtain ⟨l₁, l₂, rfl⟩ := List.append_of_mem ho
  obtain ⟨u₁, b, u₂, rfl, hb, -, -⟩ := forall₂_split h
  exact ⟨b, by simp, hb⟩

theorem mem_insert_iff {x y : Obj} {l₁ l₂ : List Obj} : x ∈ l₁ ++ y :: l₂ ↔ x = y ∨ x ∈ l₁ ++ l₂ := by
  simp only [List.mem_append, List.mem_cons]
  tauto

namespace Backed

theorem used (hb : Backed c us s) {b : Blk} (hbm : b ∈ us) : ∃ z, b.st = .used z ∧ z < c.maxZones := by
  obtain ⟨⟨bs, ⟨-, fl, hr⟩, hp⟩, -⟩ := hb
  obtain ⟨hbs, z, hz⟩ := mem_usedOf.1 (hp.mem_iff.2 hbm)
  exact ⟨z, hz, ((hr.ok b hbs).used z hz).2.2⟩

theorem getPtr_pos (b : Blk) : getPtr c b.addr ≠ 0 := by
  have := c.chunkSize_pos
  unfold getPtr; omega

theorem ptr_ne_zero (hb : Backed c us s) {o : Obj} (ho : o ∈ s.live) : o.ptr ≠ 0 := by
  obtain ⟨b, -, hbo⟩ := forall₂_mem hb.2 ho
  rw [hbo.1]
  exact getPtr_pos b

theorem drop_null (hb : Backed c us s) : s.drop 0 = s.live :=
  List.eraseP_of_forall_not fun o ho => by simpa using hb.ptr_ne_zero ho

theorem object (hb : Backed c us s) {ptr : Nat} (hp : ptr ≠ 0) (hr : s.respects ptr = true) :
    ∃ o l₁ l₂ b u₁ u₂, s.live = l₁ ++ o :: l₂ ∧ o.ptr = ptr ∧ s.drop ptr = l₁ ++ l₂ ∧ us = u₁ ++ b :: u₂ ∧
      Backs c b o ∧ List.Forall₂ (Backs c) (u₁ ++ u₂) (l₁ ++ l₂) ∧
      ∀ b', Backs c b' o → List.Forall₂ (Backs c) (u₁ ++ b' :: u₂) s.live := by
  unfold Sys.respects at hr
  obtain ⟨o, ho, hop⟩ := (of_decide_eq_true hr).resolve_left hp
  obtain ⟨o', l₁, l₂, -, hop', hl, hd⟩ := List.exists_of_eraseP ho (p := (·.ptr = ptr)) (by simpa using hop)
  obtain ⟨-, hf⟩ := hb
  rw [hl] at hf
  obtain ⟨u₁, b, u₂, hu, hbo, hrest, hput⟩ := forall₂_split hf
  exact ⟨o', l₁, l₂, b, u₁, u₂, hl, by simpa using hop', hd, hu, hbo, hrest, by rw [hl]; exact hput⟩

end Backed

theorem KeepsData.objects {m m' : Mem} {live : List Obj} (hk : KeepsData c us m m') (hf : List.Forall₂ (Backs c) us live) :
    ∀ o ∈ live, ∀ i < o.req, m' (o.ptr + i) = m (o.ptr + i) := by
  intro o ho i hi
  obtain ⟨b, hbm, hptr, hreq⟩ := forall₂_mem hf ho
  exact hk b hbm _ ⟨by rw [hptr]; unfold getPtr; omega, by rw [hptr]; unfold getPtr; omega⟩

/-! ## The calls on objects -/

theorem heapmemFree_null (h : Heap) : heapmemFree c 0 h = (false, h) := by
  unfold heapmemFree
  rw [if_pos]
  have := c.base_pos
  simp only [notInHeap, ne_eq, not_true_eq_false, false_and, not_false_eq_true, true_and, decide_eq_true_eq]
  omega

theorem heapmemRealloc_null (size : Nat) (h : Heap) :
    heapmemRealloc c 0 size h = heapmemZoneAlloc c zoneGeneral size h := by
  unfold heapmemRealloc heapmemAlloc
  rw [if_neg (by simp)]
  split
  · rename_i hsize
    unfold heapmemZoneAlloc
    split
    · rfl
    · rw [if_pos (Or.inl hsize)]
  · rw [if_pos rfl]

theorem heapmemRealloc_object {h : Heap} {bs : List Blk} {b : Blk} {z size : Nat} (hh : Holds c h bs) (hbm : b ∈ bs)
    (hb : b.st = .used z) : heapmemRealloc c (getPtr c b.addr) size h = if size > c.arena then (0, h)
      else if size = 0 then (0, (heapmemFree c (getPtr c b.addr) h).2)
      else resizeObject c (getPtr c b.addr) (c.alignUp size) h := by
  obtain ⟨-, fl, hr⟩ := hh
  obtain ⟨hchunk, hne, hin⟩ := hr.pointer hbm
  have halloc := ((hr.ok b hbm).used z hb).1
  unfold heapmemRealloc
  rw [hin, hchunk, halloc, if_neg (by simp), if_neg hne]
  rfl

theorem heapmemCalloc_total {nmemb size : Nat} (hs : size ≠ 0) (ht : nmemb * size % c.word / size = nmemb) :
    nmemb * size % c.word = nmemb * size := by
  have hle : nmemb * size ≤ nmemb * size % c.word := by
    rw [← Nat.le_div_iff_mul_le (Nat.pos_of_ne_zero hs), ht]
  exact le_antisymm (Nat.mod_le _ _) hle

theorem heapmemCalloc_eq (nmemb size : Nat) (h : Heap) :
    (heapmemCalloc c nmemb size h = (0, h) ∧ ¬Granted c zoneGeneral (nmemb * size) h) ∨
      heapmemCalloc c nmemb size h = (if (heapmemZoneAlloc c zoneGeneral (nmemb * size) h).1 = 0 then
        (0, (heapmemZoneAlloc c zoneGeneral (nmemb * size) h).2)
      else ((heapmemZoneAlloc c zoneGeneral (nmemb * size) h).1,
        { (heapmemZoneAlloc c zoneGeneral (nmemb * size) h).2 with
          mem := (heapmemZoneAlloc c zoneGeneral (nmemb * size) h).2.mem.fill
            (heapmemZoneAlloc c zoneGeneral (nmemb * size) h).1 (nmemb * size) 0 })) := by
  unfold heapmemCalloc
  dsimp only
  by_cases ht : size = 0 ∨ nmemb * size % c.word / size ≠ nmemb
  · rw [if_pos ht]
    refine Or.inl ⟨rfl, ?_⟩
    rintro ⟨-, -, hpos, harena, -⟩
    have hword := c.arena_word
    rcases ht with rfl | ht
    · exact absurd hpos (lt_irrefl 0)
    · have hsize : 0 < size := Nat.pos_of_mul_pos_left hpos
      rw [Nat.mod_eq_of_lt (by omega), Nat.mul_div_cancel _ hsize] at ht
      exact ht rfl
  · rw [if_neg ht]
    have hsize : size ≠ 0 := fun h0 => ht (Or.inl h0)
    have htotal := heapmemCalloc_total hsize (not_not.1 fun h0 => ht (Or.inr h0))
    rw [htotal]
    exact Or.inr rfl

/-! ## What a step keeps -/

def Call.target : Call → Nat
  | .free ptr => ptr
  | .realloc ptr _ => ptr
  | .write ptr _ _ => ptr
  | _ => 0

/-- An object that is resized keeps its bytes as far as both sizes go, at its old pointer or a new one. -/
@[grind =]
def KeepsResized (c : Config) (s s' : Sys) : Call → Prop
  | .realloc ptr size => (heapmemRealloc c ptr size s.heap).1 ≠ 0 → ∀ o ∈ s.live, o.ptr = ptr →
      ∀ i, i < o.req → i < size → s'.heap.mem ((heapmemRealloc c ptr size s.heap).1 + i) = s.heap.mem (ptr + i)
  | _ => True

/-- All objects but the one passed to the call stay, with their bytes. -/
structure Preserves (c : Config) (s : Sys) (call : Call) (s' : Sys) : Prop where
  others : ∀ o ∈ s.live, o.ptr ≠ call.target →
    o ∈ s'.live ∧ ∀ i < o.req, s'.heap.mem (o.ptr + i) = s.heap.mem (o.ptr + i)
  resized : KeepsResized c s s' call

theorem heapmemZoneRegister_frame (name : Option String) (zoneSize : Nat) (h : Heap) :
    ∃ zones, (heapmemZoneRegister c name zoneSize h).2 = { h with zones := zones } ∧
      ∀ z, (zones z).allocated = (h.zones z).allocated := by
  have hstay : ∃ zones, h = { h with zones := zones } ∧ ∀ z, (zones z).allocated = (h.zones z).allocated :=
    ⟨h.zones, rfl, fun _ => rfl⟩
  have hloop : ∀ (name : String) (k i : Nat), ∃ zones, (registerLoop name zoneSize k i h).2 = { h with zones := zones } ∧
      ∀ z, (zones z).allocated = (h.zones z).allocated := by
    intro name k
    induction k with
    | zero => exact fun _ => hstay
    | succ k ih =>
      intro i
      unfold registerLoop
      split
      · refine ⟨_, rfl, fun z => ?_⟩
        simp only [Function.update_apply]
        split
        · rename_i hz; rw [hz]
        · split
          · rename_i hz; rw [hz]
          · rfl
      · split
        · exact hstay
        · exact ih (i + 1)
  unfold heapmemZoneRegister
  split
  · exact hstay
  · split
    · exact hstay
    · split
      · exact hstay
      · exact hloop _ _ _

namespace Backed

theorem ptr_inj (hb : Backed c us s) {o o' : Obj} (ho : o ∈ s.live) (ho' : o' ∈ s.live) (he : o.ptr = o'.ptr) :
    o = o' := by
  obtain ⟨l₁, l₂, hl⟩ := List.append_of_mem ho'
  have hf := hb.2
  rw [hl] at hf ho
  obtain ⟨u₁, b, u₂, rfl, hbo, hrest, -⟩ := forall₂_split hf
  rcases mem_insert_iff.1 ho with h | h
  · exact h
  · obtain ⟨d, hd, hdo⟩ := forall₂_mem hrest h
    obtain ⟨z, hz, -⟩ := hb.used (b := b) (by simp)
    obtain ⟨⟨bs, hh, hp⟩, -⟩ := hb
    refine absurd ?_ (hh.addr_inj (hp.trans List.perm_middle) hd (by rw [hz]; rfl))
    have h₁ := hdo.1
    have h₂ := hbo.1
    unfold getPtr at h₁ h₂
    omega

theorem rearranged {h' : Heap} {bs bs' : List Blk} (hf : List.Forall₂ (Backs c) us s.live) (hp : (usedOf bs).Perm us)
    (hh : Holds c h' bs') (hre : Rearranged c s.heap h' bs bs') :
    Backed c us { s with heap := h' } ∧ KeepsData c us s.heap.mem h'.mem :=
  ⟨⟨⟨bs', hh, by rw [hre.used]; exact hp⟩, hf⟩, hre.keeps.mono fun _ hx => hp.mem_iff.2 hx⟩

theorem alloc (hb : Backed c us s) (zone size : Nat) :
    ∃ us', Backed c us' (born (heapmemZoneAlloc c zone size s.heap) size s.live) ∧
      KeepsData c us s.heap.mem (heapmemZoneAlloc c zone size s.heap).2.mem ∧
      ((heapmemZoneAlloc c zone size s.heap).1 ≠ 0 → ∃ d, us' = d :: us ∧
        Backs c d ⟨(heapmemZoneAlloc c zone size s.heap).1, size⟩) := by
  obtain ⟨⟨bs, hh, hp⟩, hf⟩ := hb
  obtain ⟨hgr, hnone, hsome⟩ := @heapmemZoneAlloc_rep _ _ _ zone size hh
  by_cases h0 : (heapmemZoneAlloc c zone size s.heap).1 = 0
  · obtain ⟨bs', hh', hre⟩ := hnone h0
    obtain ⟨hb', hk⟩ := rearranged hf hp hh' hre
    refine ⟨us, ?_, hk, fun hn => absurd h0 hn⟩
    unfold born
    rw [if_pos h0]
    exact hb'
  · obtain ⟨n, bs', ⟨hh', hu, hptr, hk⟩, hle, -, -, -⟩ := hsome (hgr.1 h0)
    have hback : Backs c ⟨getChunk c (heapmemZoneAlloc c zone size s.heap).1, n, .used zone⟩
        ⟨(heapmemZoneAlloc c zone size s.heap).1, size⟩ := by
      refine ⟨?_, le_trans (c.le_alignUp size) hle⟩
      unfold getPtr getChunk
      dsimp only; omega
    refine ⟨_ :: us, ?_, hk.mono fun x hx => hp.mem_iff.2 hx, fun _ => ⟨_, rfl, hback⟩⟩
    unfold born
    rw [if_neg h0]
    exact ⟨⟨bs', hh', hu.trans (hp.cons _)⟩, List.Forall₂.cons hback hf⟩

theorem write {b : Blk} {u₁ u₂ : List Blk} {m' : Mem} (hb : Backed c (u₁ ++ b :: u₂) s)
    (hm : ∀ x, ¬b.Data c x → m' x = s.heap.mem x) :
    Backed c (u₁ ++ b :: u₂) { s with heap := { s.heap with mem := m' } } ∧ KeepsData c (u₁ ++ u₂) s.heap.mem m' := by
  obtain ⟨z, hz, -⟩ := hb.used (b := b) (by simp)
  obtain ⟨⟨bs, ⟨hw, fl, hr⟩, hp⟩, hf⟩ := hb
  obtain ⟨pre, post, rfl, hrest⟩ := focus_used (hp.trans List.perm_middle) hz
  obtain ⟨hr', hk⟩ := hr.writeData hm
  exact ⟨⟨⟨_, ⟨hw, fl, hr'⟩, hp⟩, hf⟩, hk.mono fun x hx => mem_around hrest hx⟩

theorem fill {r : Nat × Heap} {size : Nat} {live : List Obj} {d : Blk} (hb : Backed c (d :: us) (born r size live))
    (hd : Backs c d ⟨r.1, size⟩) :
    Backed c (d :: us) { born r size live with heap := { r.2 with mem := r.2.mem.fill r.1 size 0 } } ∧
      KeepsData c us r.2.mem (r.2.mem.fill r.1 size 0) := by
  have hb' : Backed c ([] ++ d :: us) (born r size live) := hb
  refine hb'.write fun x hx => fill_of_out ?_
  obtain ⟨h₁, h₂⟩ := hd
  unfold Blk.Data at hx
  unfold getPtr at h₁
  dsimp only at h₁ h₂
  omega

theorem withZones (hb : Backed c us s) (zones : Nat → Zone) :
    Backed c us { s with heap := { s.heap with zones := zones } } := by
  obtain ⟨⟨bs, hh, hp⟩, hf⟩ := hb
  exact ⟨⟨bs, hh.withZones zones, hp⟩, hf⟩

theorem writeByte (hb : Backed c us s) {o : Obj} {i : Nat} (ho : o ∈ s.live) (hi : i < o.req) (v : UInt8) :
    Backed c us { s with heap := { s.heap with mem := Function.update s.heap.mem (o.ptr + i) v } } ∧
      ∀ o' ∈ s.live, o'.ptr ≠ o.ptr → ∀ j < o'.req,
        Function.update s.heap.mem (o.ptr + i) v (o'.ptr + j) = s.heap.mem (o'.ptr + j) := by
  obtain ⟨l₁, l₂, hl⟩ := List.append_of_mem ho
  have hf := hb.2
  rw [hl] at hf
  obtain ⟨u₁, b, u₂, rfl, hbo, hrest, -⟩ := forall₂_split hf
  have hout : ∀ x, ¬b.Data c x → Function.update s.heap.mem (o.ptr + i) v x = s.heap.mem x := by
    intro x hx
    refine Function.update_of_ne ?_ _ _
    rintro rfl
    obtain ⟨h₁, h₂⟩ := hbo
    exact hx ⟨by rw [h₁]; unfold getPtr; omega, by rw [h₁]; unfold getPtr; omega⟩
  obtain ⟨hb', hk⟩ := hb.write hout
  refine ⟨hb', fun o' ho' hne => ?_⟩
  rw [hl, mem_insert_iff] at ho'
  exact hk.objects hrest o' (ho'.resolve_left fun he => hne (by rw [he]))

theorem free (hb : Backed c us s) {ptr : Nat} (hr : s.respects ptr = true) :
    ∃ us', Backed c us' { heap := (heapmemFree c ptr s.heap).2, live := s.drop ptr } ∧
      KeepsData c us' s.heap.mem (heapmemFree c ptr s.heap).2.mem := by
  by_cases hp : ptr = 0
  · subst hp
    rw [heapmemFree_null, hb.drop_null]
    exact ⟨us, hb, KeepsData.refl _ _⟩
  · obtain ⟨o, l₁, l₂, b, u₁, u₂, hl, rfl, hd, rfl, hbo, hrest, -⟩ := hb.object hp hr
    obtain ⟨z, hz, -⟩ := hb.used (b := b) (by simp)
    obtain ⟨⟨bs, hh, hperm⟩, -⟩ := hb
    obtain ⟨h', bs', he, hh', hu', hk, -⟩ := heapmemFree_rep hh (hperm.trans List.perm_middle) hz
    rw [hd, hbo.1, he]
    exact ⟨u₁ ++ u₂, ⟨⟨bs', hh', hu'⟩, hrest⟩, hk⟩

end Backed

theorem born_live {r : Nat × Heap} {size : Nat} {live : List Obj} {o : Obj} (ho : o ∈ live) : o ∈ (born r size live).live := by
  unfold born
  dsimp only
  split
  · exact ho
  · exact List.mem_cons_of_mem _ ho

/-- The objects after a resize of the one at `ptr`. -/
def resized (r : Nat × Heap) (s : Sys) (ptr size : Nat) : Sys :=
  born r size (if r.1 = 0 ∧ size ≠ 0 then s.live else s.drop ptr)

theorem resized_some {r : Nat × Heap} {ptr size : Nat} (h : r.1 ≠ 0) :
    resized r s ptr size = ⟨r.2, ⟨r.1, size⟩ :: s.drop ptr⟩ := by
  unfold resized born
  rw [if_neg h, if_neg fun hr => h hr.1]

theorem resized_none {r : Nat × Heap} {ptr size : Nat} (h : r.1 = 0) (hs : size ≠ 0) :
    resized r s ptr size = ⟨r.2, s.live⟩ := by
  unfold resized born
  rw [if_pos h, if_pos ⟨h, hs⟩]

theorem Backed.realloc (hb : Backed c us s) {ptr size : Nat} (hp : ptr ≠ 0) (hr : s.respects ptr = true) :
    ∃ r us', heapmemRealloc c ptr size s.heap = r ∧ Backed c us' (resized r s ptr size) ∧ (∀ o ∈ s.live, o.ptr ≠ ptr →
        o ∈ (resized r s ptr size).live ∧ ∀ i < o.req, r.2.mem (o.ptr + i) = s.heap.mem (o.ptr + i)) ∧
      (r.1 ≠ 0 → ∀ o ∈ s.live, o.ptr = ptr → ∀ i, i < o.req → i < size → r.2.mem (r.1 + i) = s.heap.mem (ptr + i)) := by
  obtain ⟨us₀, hfree, hkfree⟩ := hb.free hr
  obtain ⟨o, l₁, l₂, b, u₁, u₂, hl, rfl, hd, rfl, hbo, hrest, hput⟩ := hb.object hp hr
  obtain ⟨z, hz, -⟩ := hb.used (b := b) (by simp)
  have hinj : ∀ o' ∈ s.live, o'.ptr = o.ptr → o' = o := fun o' ho' he => hb.ptr_inj ho' (by rw [hl]; simp) he
  obtain ⟨⟨bs, hh, hperm⟩, hf⟩ := id hb
  have hperm' := hperm.trans (@List.perm_middle _ b u₁ u₂)
  have hbm : b ∈ bs := (mem_usedOf.1 (hperm'.mem_iff.2 (by simp))).1
  have hother : ∀ o' ∈ s.live, o'.ptr ≠ o.ptr → o' ∈ l₁ ++ l₂ := by
    intro o' ho' hne
    rw [hl, mem_insert_iff] at ho'
    exact ho'.resolve_left fun he => hne (by rw [he])
  obtain ⟨hptr, hreq⟩ := hbo
  have heq := @heapmemRealloc_object _ _ _ _ _ size hh hbm hz
  rw [← hptr] at heq
  by_cases hsize : size > c.arena
  · -- too large: nothing happens
    rw [if_pos hsize] at heq
    refine ⟨_, u₁ ++ b :: u₂, heq, ?_, ?_, fun hne => absurd rfl hne⟩
    · unfold resized
      rw [if_pos ⟨rfl, by omega⟩]
      exact hb
    · intro o' ho' _
      unfold resized
      rw [if_pos ⟨rfl, by omega⟩]
      exact ⟨ho', fun _ _ => rfl⟩
  rw [if_neg hsize] at heq
  by_cases hs0 : size = 0
  · -- the object is freed
    rw [if_pos hs0] at heq
    have hres : resized (0, (heapmemFree c o.ptr s.heap).2) s o.ptr size =
        { heap := (heapmemFree c o.ptr s.heap).2, live := s.drop o.ptr } := by
      unfold resized born
      simp [hs0]
    refine ⟨_, us₀, heq, by rw [hres]; exact hfree, ?_, fun hne => absurd rfl hne⟩
    intro o' ho' hne
    rw [hres]
    have hin : o' ∈ s.drop o.ptr := by rw [hd]; exact hother o' ho' hne
    exact ⟨hin, hkfree.objects hfree.2 o' hin⟩
  rw [if_neg hs0] at heq
  have hres := resizeObject_rep hh hperm' hz (c.alignUp_dvd size) (lt_of_lt_of_le (Nat.pos_of_ne_zero hs0) (c.le_alignUp size))
    (c.alignUp_int (not_lt.1 hsize))
  rw [← hptr] at hres
  have hle := c.le_alignUp size
  generalize resizeObject c o.ptr (c.alignUp size) s.heap = r at heq hres
  cases hres with
  | kept h' bs' n holds used le keeps data =>
    have hne : getPtr c b.addr ≠ 0 := Backed.getPtr_pos b
    refine ⟨_, { b with size := n } :: (u₁ ++ u₂), heq, ?_, ?_, ?_⟩
    · rw [resized_some hne, hd]
      exact ⟨⟨bs', holds, used⟩, List.Forall₂.cons ⟨rfl, by dsimp only; omega⟩ hrest⟩
    · intro o' ho' hne'
      rw [resized_some hne, hd]
      exact ⟨List.mem_cons_of_mem _ (hother o' ho' hne'), keeps.objects hrest o' (hother o' ho' hne')⟩
    · intro _ o' ho' he i hi hi'
      rw [hinj o' ho' he] at hi
      rw [hptr]
      exact data i (by omega) (by omega)
  | failed h' bs' n holds used le keeps =>
    refine ⟨_, u₁ ++ { b with size := n } :: u₂, heq, ?_, ?_, fun hne => absurd rfl hne⟩
    · rw [resized_none rfl hs0]
      exact ⟨⟨bs', holds, used.trans List.perm_middle.symm⟩, hput _ ⟨hptr, by dsimp only; omega⟩⟩
    · intro o' ho' hne'
      rw [resized_none rfl hs0]
      exact ⟨ho', (keeps.mono fun x hx => List.mem_cons_of_mem _ hx).objects hrest o' (hother o' ho' hne')⟩
  | moved h' bs' ptr n holds used ptr_le le waste lt keeps data =>
    have hne : ptr ≠ 0 := by have := c.chunkSize_pos; omega
    refine ⟨_, ⟨getChunk c ptr, n, .used z⟩ :: (u₁ ++ u₂), heq, ?_, ?_, ?_⟩
    · rw [resized_some hne, hd]
      refine ⟨⟨bs', holds, used⟩, List.Forall₂.cons ⟨?_, by dsimp only; omega⟩ hrest⟩
      unfold getPtr getChunk
      dsimp only; omega
    · intro o' ho' hne'
      rw [resized_some hne, hd]
      exact ⟨List.mem_cons_of_mem _ (hother o' ho' hne'), keeps.objects hrest o' (hother o' ho' hne')⟩
    · intro _ o' ho' he i hi _
      rw [hinj o' ho' he] at hi
      rw [hptr]
      exact data i (by omega)

theorem Backed.calloc (hb : Backed c us s) (nmemb size : Nat) :
    ∃ us', Backed c us' (born (heapmemCalloc c nmemb size s.heap) (nmemb * size) s.live) ∧
      KeepsData c us s.heap.mem (heapmemCalloc c nmemb size s.heap).2.mem := by
  rcases heapmemCalloc_eq nmemb size s.heap with ⟨he, -⟩ | he
  · rw [he]
    refine ⟨us, ?_, KeepsData.refl _ _⟩
    unfold born
    rw [if_pos rfl]
    exact hb
  · obtain ⟨us', hb', hk, hnew⟩ := hb.alloc zoneGeneral (nmemb * size)
    rw [he]
    generalize heapmemZoneAlloc c zoneGeneral (nmemb * size) s.heap = r at *
    by_cases h0 : r.1 = 0
    · rw [if_pos h0]
      refine ⟨us', ?_, hk⟩
      unfold born at hb' ⊢
      rw [if_pos h0] at hb'
      exact hb'
    · rw [if_neg h0]
      obtain ⟨d, rfl, hd⟩ := hnew h0
      obtain ⟨hb'', hk'⟩ := hb'.fill hd
      refine ⟨d :: us, ?_, hk.trans hk'⟩
      unfold born at hb'' ⊢
      rw [if_neg h0] at hb''
      rw [if_neg h0]
      exact hb''

theorem step_backed {call : Call} (hb : Backed c us s) (hs : step c s call = some s') :
    (∃ us', Backed c us' s') ∧ Preserves c s call s' := by
  have hall : ∀ {s' : Sys}, KeepsData c us s.heap.mem s'.heap.mem → (∀ o ∈ s.live, o ∈ s'.live) → ∀ o ∈ s.live,
      o.ptr ≠ call.target → o ∈ s'.live ∧ ∀ i < o.req, s'.heap.mem (o.ptr + i) = s.heap.mem (o.ptr + i) :=
    fun hk hsub o ho _ => ⟨hsub o ho, hk.objects hb.2 o ho⟩
  cases call with
  | register name zoneSize =>
    obtain rfl : _ = s' := Option.some.inj hs
    obtain ⟨zones, he, -⟩ := heapmemZoneRegister_frame (c := c) name zoneSize s.heap
    rw [he]
    exact ⟨⟨us, hb.withZones zones⟩, hall (KeepsData.refl _ _) fun _ ho => ho, trivial⟩
  | alloc zone size =>
    obtain rfl : _ = s' := Option.some.inj hs
    obtain ⟨us', hb', hk, -⟩ := hb.alloc zone size
    exact ⟨⟨us', hb'⟩, hall hk fun o ho => born_live ho, trivial⟩
  | free ptr =>
    simp only [step] at hs
    split at hs
    · rename_i hr
      obtain rfl : _ = s' := Option.some.inj hs
      obtain ⟨us', hb', hk⟩ := hb.free hr
      refine ⟨⟨us', hb'⟩, fun o ho hne => ?_, trivial⟩
      have hne : o.ptr ≠ ptr := hne
      have hin : o ∈ s.drop ptr := (List.mem_eraseP_of_neg (by simpa using hne)).2 ho
      exact ⟨hin, hk.objects hb'.2 o hin⟩
    · cases hs
  | realloc ptr size =>
    simp only [step] at hs
    split at hs
    · rename_i hr
      obtain rfl : _ = s' := Option.some.inj hs
      by_cases hp : ptr = 0
      · subst hp
        obtain ⟨us', hb', hk, -⟩ := hb.alloc zoneGeneral size
        rw [heapmemRealloc_null, hb.drop_null, ite_self]
        refine ⟨⟨us', hb'⟩, hall hk fun o ho => born_live ho, fun _ o ho he => ?_⟩
        exact absurd he (hb.ptr_ne_zero ho)
      · obtain ⟨r, us', he, hb', hothers, hres⟩ := @Backed.realloc _ _ _ hb _ size hp hr
        rw [he]
        refine ⟨⟨us', hb'⟩, hothers, ?_⟩
        simp only [KeepsResized, he]
        exact hres
    · cases hs
  | calloc nmemb size =>
    obtain rfl : _ = s' := Option.some.inj hs
    obtain ⟨us', hb', hk⟩ := hb.calloc nmemb size
    exact ⟨⟨us', hb'⟩, hall hk fun o ho => born_live ho, trivial⟩
  | stats =>
    obtain rfl : _ = s' := Option.some.inj hs
    obtain ⟨⟨bs, hh, hp⟩, hf⟩ := id hb
    obtain ⟨bs', hh', hre⟩ := heapmemStats_rep hh
    obtain ⟨hb', hk⟩ := Backed.rearranged hf hp hh' hre
    exact ⟨⟨us, hb'⟩, hall hk fun _ ho => ho, trivial⟩
  | write ptr i v =>
    simp only [step] at hs
    split at hs
    · rename_i hw
      obtain rfl : _ = s' := Option.some.inj hs
      obtain ⟨o, ho, rfl, hi⟩ := hw
      obtain ⟨hb', hk⟩ := hb.writeByte ho hi v
      exact ⟨⟨us, hb'⟩, fun o' ho' hne => ⟨ho', hk o' ho' hne⟩, trivial⟩
    · cases hs

end Contiki.Heapmem
