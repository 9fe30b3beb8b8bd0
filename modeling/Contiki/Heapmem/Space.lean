/-
Finding space: coalescing a chunk with the free ones after it, the bounded defragmentation and the
bounded best-fit search over the free list, and the extension into the wilderness. All of it only
rearranges free space: the used chunks stay where they are, with their data.
-/
import Contiki.Heapmem.Edits

namespace Contiki.Heapmem

open Contiki.Lib Contiki.Lib.Mem

variable {c : Config} {h : Heap} {bs pre post : List Blk} {fl : List Nat}

/-! ## Used chunks -/

@[grind =]
def BlkState.isUsed : BlkState → Bool
  | .used _ => true
  | _ => false

def usedOf (bs : List Blk) : List Blk := bs.filter (·.st.isUsed)

def Whole (bs : List Blk) : Prop := ∀ b ∈ bs, b.st ≠ .detached

@[simp] theorem usedOf_append (l₁ l₂ : List Blk) : usedOf (l₁ ++ l₂) = usedOf l₁ ++ usedOf l₂ := List.filter_append ..

theorem mem_usedOf {b : Blk} : b ∈ usedOf bs ↔ b ∈ bs ∧ ∃ z, b.st = .used z := by
  unfold usedOf
  rw [List.mem_filter]
  refine and_congr_right fun _ => ?_
  cases b.st <;> simp [BlkState.isUsed]

theorem usedOf_cons_used {b : Blk} {z : Nat} (hb : b.st = .used z) : usedOf (b :: bs) = b :: usedOf bs := by
  simp [usedOf, hb, BlkState.isUsed]

theorem usedOf_cons_unused {b : Blk} (hb : b.st.isUsed = false) : usedOf (b :: bs) = usedOf bs := by
  simp [usedOf, hb]

theorem usedOf_frees {l : List Blk} (hl : ∀ d ∈ l, d.st = .free) : usedOf l = [] := by
  unfold usedOf
  rw [List.filter_eq_nil_iff]
  intro d hd
  simp [hl d hd, BlkState.isUsed]

theorem Whole.append {l₁ l₂ : List Blk} : Whole (l₁ ++ l₂) ↔ Whole l₁ ∧ Whole l₂ := by
  simp only [Whole, List.mem_append]
  constructor
  · exact fun hw => ⟨fun b hb => hw b (Or.inl hb), fun b hb => hw b (Or.inr hb)⟩
  · rintro ⟨h₁, h₂⟩ b (hb | hb)
    · exact h₁ b hb
    · exact h₂ b hb

theorem Whole.cons {b : Blk} : Whole (b :: bs) ↔ b.st ≠ .detached ∧ Whole bs := by
  simp [Whole]

structure Rearranged (c : Config) (h h' : Heap) (bs bs' : List Blk) : Prop where
  whole : Whole bs'
  used : usedOf bs' = usedOf bs
  keeps : KeepsData c (usedOf bs) h.mem h'.mem
  usage : h'.heapUsage = h.heapUsage
  zones : h'.zones = h.zones

theorem Rearranged.refl (hw : Whole bs) : Rearranged c h h bs bs := ⟨hw, rfl, KeepsData.refl _ _, rfl, rfl⟩

theorem Rearranged.trans {h₁ h₂ h₃ : Heap} {l₁ l₂ l₃ : List Blk} (h₁₂ : Rearranged c h₁ h₂ l₁ l₂)
    (h₂₃ : Rearranged c h₂ h₃ l₂ l₃) : Rearranged c h₁ h₃ l₁ l₃ :=
  ⟨h₂₃.whole, h₂₃.used.trans h₁₂.used, h₁₂.keeps.trans (by rw [← h₁₂.used]; exact h₂₃.keeps),
    h₂₃.usage.trans h₁₂.usage, h₂₃.zones.trans h₁₂.zones⟩

/-! ## Merging two chunks -/

theorem Rep.freePrev_mem (hr : Rep c h bs fl) {q : Nat} (hq : q ∈ fl) : q = h.freeList ∨ chunkPrev c q h.mem ∈ fl := by
  obtain ⟨l₁, l₂, rfl⟩ := List.append_of_mem hq
  obtain ⟨P, x, w, Q, hP, hQ⟩ := neighbours l₁ l₂
  have hl := hr.list
  unfold DList at hl
  rw [show 0 :: (l₁ ++ q :: l₂) ++ [0] = (0 :: l₁) ++ q :: (l₂ ++ [0]) by simp, hP, hQ, List.append_assoc] at hl
  obtain ⟨hxq, hqx, _⟩ := ((links_append P x _).1 hl).2
  have hx : x ∈ 0 :: l₁ := by rw [hP]; simp
  rcases List.mem_cons.1 hx with rfl | hx
  · left
    rw [← hxq]; simp [freeNext]
  · right
    show chunkPrev c q h.mem ∈ l₁ ++ q :: l₂
    rw [show chunkPrev c q h.mem = x from hqx (hr.free_ne_zero hq)]
    exact List.mem_append_left _ hx

theorem remove_setSize {p q v : Nat} (hr : Rep c h bs fl) (hp : ∃ b ∈ bs, b.addr = p) (hq : q ∈ fl) (hne : p ≠ q) :
    removeChunkFromFreeList c q { h with mem := setSize c p v h.mem } =
      { removeChunkFromFreeList c q h with mem := setSize c p v (removeChunkFromFreeList c q h).mem } := by
  have hnode : ∀ y ∈ fl, y = p ∨ Apart c p y := by
    intro y hy
    obtain ⟨b, hb, hbp⟩ := hp
    obtain ⟨d, hd, _, hda⟩ := hr.mem_free hy
    by_cases he : y = p
    · exact Or.inl he
    · right
      rw [← hbp, ← hda]
      exact hr.apart hb hd (by rw [hbp, hda]; exact Ne.symm he)
  have hapart : Apart c p q := (hnode q hq).resolve_left hne.symm
  have hnext : ∀ m, chunkNext c q (setSize c p v m) = chunkNext c q m := fun m => by
    rw [chunkNext_hdr, hdr_setSize_apart hapart, chunkNext_hdr]
  have hprev : ∀ m, chunkPrev c q (setSize c p v m) = chunkPrev c q m := fun m => by
    rw [chunkPrev_hdr, hdr_setSize_apart hapart, chunkPrev_hdr]
  have hq0 : q ≠ 0 := hr.free_ne_zero hq
  have hnm : chunkNext c q h.mem = 0 ∨ chunkNext c q h.mem ∈ fl := by
    simpa [freeNext, hq0] using hr.freeNext_mem (Or.inr hq)
  have hkeepNext : ∀ y ∈ fl, ∀ v m, chunkNext c q (setPrev c y v m) = chunkNext c q m := fun y hy v m => by
    have hh := c.header
    obtain ⟨b, hb, _, rfl⟩ := hr.mem_free hy
    obtain ⟨d, hd, _, rfl⟩ := hr.mem_free hq
    refine load_store_apart ?_
    by_cases he : b.addr = d.addr
    · omega
    · rcases hr.apart hb hd he with ha | ha <;> omega
  unfold removeChunkFromFreeList
  simp only [hnext, hprev]
  by_cases hf : q = h.freeList
  · simp only [if_pos hf]
    by_cases h0 : chunkNext c q h.mem = 0
    · simp only [h0, ne_eq, not_true_eq_false, if_false, hnext]
    · have hnf := hnm.resolve_left h0
      simp only [ne_eq, h0, not_false_eq_true, if_true, setSize_setPrev (hnode _ hnf), hnext, hprev, hkeepNext _ hnf]
  · have hpf := (hr.freePrev_mem hq).resolve_left hf
    simp only [if_neg hf, setSize_setNext (hnode _ hpf), hnext, hprev]
    have hsame : chunkNext c q (setNext c (chunkPrev c q h.mem) (chunkNext c q h.mem) h.mem) = chunkNext c q h.mem := by
      obtain ⟨b, hb, _, hbp⟩ := hr.mem_free hpf
      obtain ⟨d, hd, _, rfl⟩ := hr.mem_free hq
      have hww := chunkNext_lt (c := c) d.addr h.mem
      rw [chunkNext_hdr, hdr_setNext_of hr.spread ⟨b, hb, hbp⟩ ⟨d, hd, rfl⟩ hww]
      split <;> rfl
    rw [hsame]
    by_cases h0 : chunkNext c q h.mem = 0
    · simp only [h0, ne_eq, not_true_eq_false, if_false]
    · simp only [ne_eq, h0, not_false_eq_true, if_true, setSize_setPrev (hnode _ (hnm.resolve_left h0))]

theorem resize_rep {b : Blk} {mid : List Blk} {n usage : Nat} (mx : Nat) (hr : Rep c h (pre ++ b :: (mid ++ post)) fl)
    (hmid : ∀ d ∈ mid, d.st = .detached) (hdvd : c.align ∣ n) (hpos : 0 < n)
    (htiles : Tiles c (b.addr + c.chunkSize + n) post (c.base + usage)) (husage : usage ≤ c.arena) :
    Rep c { h with mem := setSize c b.addr n h.mem, heapUsage := usage, maxHeapUsage := mx }
        (pre ++ { b with size := n } :: post) fl ∧
      KeepsData c (pre ++ b :: (mid ++ post)) h.mem (setSize c b.addr n h.mem) := by
  have hbm : b ∈ pre ++ b :: (mid ++ post) := by simp
  obtain ⟨h₁, -⟩ := hr.tiles.around
  have haw := c.arena_word
  have hbok := hr.ok b hbm
  have hnw : n < c.word := by
    have := htiles.le; have := (hr.addr_bounds hbm).1; omega
  have hb' : hdr c b.addr (setSize c b.addr n h.mem) = { hdr c b.addr h.mem with size := n } := hdr_setSize hnw
  have hsub : ∀ x ∈ pre ++ post, x ∈ pre ++ b :: (mid ++ post) := by
    intro x hx
    rcases List.mem_append.1 hx with hx | hx <;> simp [hx]
  have hother : ∀ x ∈ pre ++ post, hdr c x.addr (setSize c b.addr n h.mem) = hdr c x.addr h.mem := by
    intro x hx
    refine hdr_setSize_apart (hr.apart hbm (hsub x hx) (hr.addr_ne ?_).symm)
    rcases List.mem_append.1 hx with hx | hx <;> simp [hx]
  have hlinks : ∀ x ∈ pre ++ b :: (mid ++ post), (hdr c x.addr (setSize c b.addr n h.mem)).prev = (hdr c x.addr h.mem).prev ∧
      (hdr c x.addr (setSize c b.addr n h.mem)).next = (hdr c x.addr h.mem).next := by
    intro x hx
    by_cases he : x.addr = b.addr
    · rw [he, hb']; exact ⟨rfl, rfl⟩
    · rw [hdr_setSize_apart (hr.apart hbm hx (Ne.symm he))]; exact ⟨rfl, rfl⟩
  refine ⟨⟨Tiles.build h₁ htiles, ?_, husage, ?_, hr.nodup, ?_⟩, hr.keepsData hbm (setSize_same c _ _ _)⟩
  · have hok : ∀ x ∈ pre ++ post, x.Ok c (setSize c b.addr n h.mem) := fun x hx => by
      refine (hr.ok x (hsub x hx)).congr ?_ ?_ ?_ <;> rw [hother x hx]
    intro x hx
    rcases List.mem_append.1 hx with hx | hx
    · exact hok x (List.mem_append_left _ hx)
    rcases List.mem_cons.1 hx with rfl | hx
    · refine ⟨?_, hdvd, hpos, fun z hst => ?_, fun hst => ?_⟩
      · show chunkSizeOf c b.addr _ = n
        rw [chunkSizeOf_hdr, hb']
      · obtain ⟨hu₁, hu₂, hu₃⟩ := hbok.used z hst
        refine ⟨?_, ?_, hu₃⟩
        · show chunkAllocated c b.addr _ = true
          rw [chunkAllocated_hdr, hb']; exact hu₁
        · show chunkZone c b.addr _ = z
          rw [chunkZone_hdr, hb']; exact hu₂
      · show chunkAllocated c b.addr _ = false
        rw [chunkAllocated_hdr, hb']; exact hbok.free hst
    · exact hok x (List.mem_append_right _ hx)
  · refine Links.congr hr.list (fun y hy => ?_) (fun y hy hy0 => ?_)
    · have hy : y ∈ (0 :: fl ++ [0]).dropLast := hy
      rw [List.dropLast_concat] at hy
      by_cases hy0 : y = 0
      · simp [freeNext, hy0]
      · obtain ⟨x, hx, _, rfl⟩ := hr.mem_free (p := y) (by simpa [hy0] using hy)
        simp only [freeNext, if_neg hy0]
        exact (hlinks x hx).2
    · have hy : y ∈ fl ++ [0] := hy
      obtain ⟨x, hx, _, rfl⟩ := hr.mem_free (p := y) (by simpa [hy0] using hy)
      exact (hlinks x hx).1
  · intro y
    rw [hr.free]
    constructor
    · rintro ⟨x, hx, hf, rfl⟩
      rcases List.mem_append.1 hx with hx | hx
      · exact ⟨x, List.mem_append_left _ hx, hf, rfl⟩
      rcases List.mem_cons.1 hx with rfl | hx
      · exact ⟨{ x with size := n }, by simp, hf, rfl⟩
      rcases List.mem_append.1 hx with hx | hx
      · rw [hmid x hx] at hf; cases hf
      · exact ⟨x, by simp [hx], hf, rfl⟩
    · rintro ⟨x, hx, hf, rfl⟩
      rcases List.mem_append.1 hx with hx | hx
      · exact ⟨x, List.mem_append_left _ hx, hf, rfl⟩
      rcases List.mem_cons.1 hx with rfl | hx
      · exact ⟨b, hbm, hf, rfl⟩
      · exact ⟨x, by simp [hx], hf, rfl⟩

theorem merge_rep {b d : Blk} (hr : Rep c h (pre ++ b :: d :: post) fl) (hd : d.st = .detached) :
    Rep c { h with mem := setSize c b.addr (b.size + (c.chunkSize + d.size)) h.mem }
        (pre ++ { b with size := b.size + (c.chunkSize + d.size) } :: post) fl ∧
      KeepsData c (pre ++ b :: d :: post) h.mem (setSize c b.addr (b.size + (c.chunkSize + d.size)) h.mem) := by
  obtain ⟨-, hda, h₂⟩ := hr.tiles.around
  have hbok := hr.ok b (by simp)
  have hdok := hr.ok d (by simp)
  refine @resize_rep _ _ _ _ _ _ ([d]) _ _ h.maxHeapUsage hr ?_ ?_ ?_ ?_ hr.usage
  · intro x hx
    rw [List.mem_singleton.1 hx]; exact hd
  · exact dvd_add hbok.aligned (dvd_add c.chunk_aligned hdok.aligned)
  · have := hbok.pos; omega
  · rw [show b.addr + c.chunkSize + (b.size + (c.chunkSize + d.size)) =
      b.addr + c.chunkSize + b.size + c.chunkSize + d.size by omega]
    exact h₂

/-! ## Coalescing -/

/-- The chunk grows over the free chunks after it, which leave the free list. -/
structure Coalesced (c : Config) (h h' : Heap) (pre : List Blk) (b : Blk) (post : List Blk) (n : Nat)
    (post' : List Blk) (fl' : List Nat) : Prop where
  rep : Rep c h' (pre ++ { b with size := n } :: post') fl'
  le : b.size ≤ n
  frees : ∃ frees, post = frees ++ post' ∧ ∀ d ∈ frees, d.st = .free
  /-- The loop has ended at a chunk that is not free. -/
  done : ∀ d ∈ post'.head?, d.st ≠ .free
  keeps : KeepsData c (pre ++ b :: post') h.mem h'.mem
  usage : h'.heapUsage = h.heapUsage
  zones : h'.zones = h.zones

theorem coalesceLoop_rep : ∀ (fuel : Nat) {h : Heap} {b : Blk} {post : List Blk} {fl : List Nat},
    Rep c h (pre ++ b :: post) fl → Whole post → post.length ≤ fuel →
    ∃ n post' fl', Coalesced c h (coalesceLoop c b.addr fuel (b.addr + c.chunkSize + b.size) h) pre b post n post' fl' := by
  intro fuel
  induction fuel with
  | zero =>
    intro h b post fl hr _ hlen
    obtain rfl : post = [] := List.eq_nil_of_length_eq_zero (by omega)
    exact ⟨b.size, [], fl, hr, le_rfl, ⟨[], rfl, by simp⟩, by simp, KeepsData.refl _ _, rfl, rfl⟩
  | succ fuel ih =>
    intro h b post fl hr hw hlen
    cases post with
    | nil =>
      -- the end of the footprint
      have he : b.addr + c.chunkSize + b.size = c.base + h.heapUsage := hr.tiles.around.2
      refine ⟨b.size, [], fl, ?_⟩
      rw [coalesceLoop, if_neg (by rw [he]; simp)]
      exact ⟨hr, le_rfl, ⟨[], rfl, by simp⟩, by simp, KeepsData.refl _ _, rfl, rfl⟩
    | cons d post =>
      obtain ⟨hdw, hw⟩ := Whole.cons.1 hw
      have hdm : d ∈ pre ++ b :: d :: post := by simp
      have hda : d.addr = b.addr + c.chunkSize + b.size := hr.tiles.around.2.1
      have hlast := (hr.tiles.mem d hdm).2
      have hpos := c.chunkSize_pos
      rw [← hda]
      by_cases hdf : d.st = .free
      · have hfree : chunkAllocated c d.addr h.mem = false := (hr.ok d hdm).free hdf
        have hdsize : chunkSizeOf c d.addr h.mem = d.size := (hr.ok d hdm).size
        have hbsize : chunkSizeOf c b.addr h.mem = b.size := (hr.ok b (by simp)).size
        have hrd : Rep c h ((pre ++ [b]) ++ d :: post) fl := by simpa using hr
        obtain ⟨fl₁, hrem, hk₁, hu₁, hz₁⟩ := remove_rep hrd hdf
        have hne : b.addr ≠ d.addr := hrd.addr_ne (d := b) (by simp)
        have hdfl : d.addr ∈ fl := hrd.free_focus.1.2 hdf
        have hrem' : Rep c (removeChunkFromFreeList c d.addr h) (pre ++ b :: { d with st := .detached } :: post) fl₁ := by
          simpa using hrem
        obtain ⟨hmerge, hk₂⟩ := merge_rep hrem' rfl
        have hstep : removeChunkFromFreeList c d.addr { h with mem := setSize c b.addr (b.size + (c.chunkSize + d.size)) h.mem } =
            { removeChunkFromFreeList c d.addr h with
              mem := setSize c b.addr (b.size + (c.chunkSize + d.size)) (removeChunkFromFreeList c d.addr h).mem } :=
          remove_setSize hr ⟨b, by simp, rfl⟩ hdfl hne
        have hnext : nextChunk c d.addr (setSize c b.addr (b.size + (c.chunkSize + d.size))
            (removeChunkFromFreeList c d.addr h).mem) = b.addr + c.chunkSize + (b.size + (c.chunkSize + d.size)) := by
          have hds : chunkSizeOf c d.addr (removeChunkFromFreeList c d.addr h).mem = d.size :=
            (hrem.ok { d with st := .detached } (by simp)).size
          unfold nextChunk
          rw [chunkSizeOf_hdr, hdr_setSize_apart (hr.apart (by simp) hdm hne), ← chunkSizeOf_hdr, hds]
          omega
        obtain ⟨n, post', fl', hc⟩ := ih (b := { b with size := b.size + (c.chunkSize + d.size) }) hmerge hw
          (by rw [List.length_cons] at hlen; omega)
        refine ⟨n, post', fl', ?_⟩
        rw [coalesceLoop, if_pos ⟨by omega, by rw [hfree]; rfl⟩]
        dsimp only
        rw [hbsize, hdsize, hstep, hnext]
        obtain ⟨frees, hpost, hfrees⟩ := hc.frees
        have hle := hc.le
        refine ⟨hc.rep, ?_, ⟨d :: frees, by rw [hpost]; rfl, ?_⟩, hc.done, ?_, hc.usage.trans hu₁, hc.zones.trans hz₁⟩
        · dsimp only at hle; omega
        · intro x hx
          rcases List.mem_cons.1 hx with rfl | hx
          · exact hdf
          · exact hfrees x hx
        · have hsub : ∀ x ∈ pre ++ b :: post', x ∈ pre ++ b :: { d with st := BlkState.detached } :: post := by
            intro x hx
            rw [hpost]; simp only [List.mem_append, List.mem_cons] at hx ⊢; tauto
          have hsub' : ∀ x ∈ pre ++ b :: post', x ∈ (pre ++ [b]) ++ d :: post := by
            intro x hx
            rw [hpost]; simp only [List.mem_append, List.mem_cons] at hx ⊢; tauto
          refine ((hk₁.mono hsub').trans (hk₂.mono hsub)).trans fun x hx y hy => ?_
          -- the data of the chunk is part of the data of the grown one
          rcases List.mem_append.1 hx with hx | hx
          · exact hc.keeps x (List.mem_append_left _ hx) y hy
          rcases List.mem_cons.1 hx with rfl | hx
          · refine hc.keeps _ (List.mem_append_right _ (List.mem_cons_self ..)) y ⟨hy.1, ?_⟩
            have := hy.2
            dsimp only; omega
          · exact hc.keeps x (by simp [hx]) y hy
      · -- an allocated chunk ends the loop
        have hused : chunkAllocated c d.addr h.mem = true := by
          cases hst : d.st with
          | used z => exact ((hr.ok d hdm).used z hst).1
          | free => exact absurd hst hdf
          | detached => exact absurd hst hdw
        refine ⟨b.size, d :: post, fl, ?_⟩
        rw [coalesceLoop, if_neg (by rw [hused]; simp)]
        exact ⟨hr, le_rfl, ⟨[], rfl, by simp⟩, by simpa using hdf, KeepsData.refl _ _, rfl, rfl⟩

theorem coalesceChunks_rep {b : Blk} (hr : Rep c h (pre ++ b :: post) fl) (hw : Whole post) :
    ∃ n post' fl', Coalesced c h (coalesceChunks c b.addr h) pre b post n post' fl' := by
  have hnext : nextChunk c b.addr h.mem = b.addr + c.chunkSize + b.size := by
    unfold nextChunk; rw [(hr.ok b (by simp)).size]
  unfold coalesceChunks
  rw [hnext]
  refine coalesceLoop_rep h.heapUsage hr hw ?_
  have hlen := hr.tiles.length
  rw [List.length_append, List.length_cons] at hlen
  omega

/-- Coalescing a free chunk rearranges free space. -/
theorem Coalesced.rearranged {h' : Heap} {b : Blk} {n : Nat} {post' : List Blk} {fl' : List Nat}
    (hc : Coalesced c h h' pre b post n post' fl') (hb : b.st = .free) (hw : Whole (pre ++ b :: post)) :
    Rearranged c h h' (pre ++ b :: post) (pre ++ { b with size := n } :: post') := by
  obtain ⟨frees, rfl, hfrees⟩ := hc.frees
  have hused : usedOf (pre ++ b :: (frees ++ post')) = usedOf pre ++ usedOf post' := by
    rw [usedOf_append, usedOf_cons_unused (by rw [hb]; rfl), usedOf_append, usedOf_frees hfrees, List.nil_append]
  refine ⟨?_, ?_, ?_, hc.usage, hc.zones⟩
  · rw [Whole.append, Whole.cons, Whole.append] at hw
    rw [Whole.append, Whole.cons]
    exact ⟨hw.1, hw.2.1, hw.2.2.2⟩
  · rw [hused, usedOf_append, usedOf_cons_unused (by show b.st.isUsed = false; rw [hb]; rfl)]
  · rw [hused]
    refine hc.keeps.mono fun x hx => ?_
    rcases List.mem_append.1 hx with hx | hx
    · exact List.mem_append_left _ (mem_usedOf.1 hx).1
    · exact List.mem_append_right _ (List.mem_cons_of_mem _ (mem_usedOf.1 hx).1)

/-! ## Defragmentation -/

theorem defragLoop_rep : ∀ (i : Nat) {h : Heap} {bs : List Blk} {fl : List Nat} {p : Nat},
    Rep c h bs fl → Whole bs → p = 0 ∨ p ∈ fl →
    ∃ bs' fl', Rep c (defragLoop c i p h) bs' fl' ∧ Rearranged c h (defragLoop c i p h) bs bs' := by
  intro i
  induction i with
  | zero => exact fun hr hw _ => ⟨_, _, hr, Rearranged.refl hw⟩
  | succ i ih =>
    intro h bs fl p hr hw hp
    by_cases hp0 : p = 0
    · rw [defragLoop, if_pos hp0]
      exact ⟨_, _, hr, Rearranged.refl hw⟩
    · obtain ⟨b, hbm, hbf, rfl⟩ := hr.mem_free (hp.resolve_left hp0)
      obtain ⟨pre, post, rfl⟩ := List.append_of_mem hbm
      obtain ⟨hwpre, hwb, hwpost⟩ : Whole pre ∧ b.st ≠ .detached ∧ Whole post := by
        rw [Whole.append, Whole.cons] at hw; exact hw
      obtain ⟨n, post', fl₁, hc⟩ := coalesceChunks_rep hr hwpost
      have hre := hc.rearranged hbf hw
      have hnext : chunkNext c b.addr (coalesceChunks c b.addr h).mem = 0 ∨
          chunkNext c b.addr (coalesceChunks c b.addr h).mem ∈ fl₁ := by
        have hm := hc.rep.freeNext_mem (Or.inr (hc.rep.free_focus.1.2 hbf))
        simpa [freeNext, hp0] using hm
      obtain ⟨bs', fl', hr', hre'⟩ := ih hc.rep hre.whole hnext
      rw [defragLoop, if_neg hp0]
      exact ⟨bs', fl', hr', hre.trans hre'⟩

theorem defragChunks_rep (hr : Rep c h bs fl) (hw : Whole bs) :
    ∃ bs' fl', Rep c (defragChunks c h) bs' fl' ∧ Rearranged c h (defragChunks c h) bs bs' := by
  refine defragLoop_rep c.searchMax hr hw ?_
  simpa [freeNext] using hr.freeNext_mem (q := 0) (Or.inl rfl)

/-! ## The search -/

theorem searchLoop_mem (hr : Rep c h bs fl) (size : Nat) : ∀ (i p best : Nat), p = 0 ∨ p ∈ fl →
    best = 0 ∨ (best ∈ fl ∧ size ≤ chunkSizeOf c best h.mem) →
    searchLoop c size h.mem i p best = 0 ∨ (searchLoop c size h.mem i p best ∈ fl ∧
      size ≤ chunkSizeOf c (searchLoop c size h.mem i p best) h.mem) := by
  intro i
  induction i with
  | zero => exact fun p best _ hb => hb
  | succ i ih =>
    intro p best hp hb
    by_cases hp0 : p = 0
    · rw [searchLoop, if_pos hp0]; exact hb
    · have hpf := hp.resolve_left hp0
      have hnext : chunkNext c p h.mem = 0 ∨ chunkNext c p h.mem ∈ fl := by
        simpa [freeNext, hp0] using hr.freeNext_mem (Or.inr hpf)
      rw [searchLoop, if_neg hp0]
      split
      · rename_i hsize
        have hbest : ∀ q, (if best = 0 ∨ chunkSizeOf c p h.mem < chunkSizeOf c best h.mem then p else best) = q →
            q = 0 ∨ (q ∈ fl ∧ size ≤ chunkSizeOf c q h.mem) := by
          rintro q rfl
          split
          · exact Or.inr ⟨hpf, hsize⟩
          · exact hb
        dsimp only
        generalize hq : (if best = 0 ∨ chunkSizeOf c p h.mem < chunkSizeOf c best h.mem then p else best) = q
        have hqb := hbest q hq
        split
        · exact hqb
        · exact ih _ _ hnext hqb
      · exact ih _ _ hnext hb

theorem bestChunk_mem (hr : Rep c h bs fl) (size : Nat) (hne : bestChunk c size h ≠ 0) :
    bestChunk c size h ∈ fl ∧ size ≤ chunkSizeOf c (bestChunk c size h) h.mem := by
  refine (searchLoop_mem hr size c.searchMax h.freeList 0 ?_ (Or.inl rfl)).resolve_left hne
  simpa [freeNext] using hr.freeNext_mem (q := 0) (Or.inl rfl)

/-! ## Obtaining a chunk -/

/-- Best fit has a chunk of the size, or one that leaves room for a chunk when it is split. -/
def Exact (c : Config) (size p : Nat) (m : Mem) : Prop :=
  chunkSizeOf c p m = size ∨ size + c.chunkSize < chunkSizeOf c p m

instance (c : Config) (size p : Nat) (m : Mem) : Decidable (Exact c size p m) := inferInstanceAs (Decidable (_ ∨ _))

/-- A chunk of `n` bytes at `p` is on its way, `size` at least; all else is as before. -/
structure Obtained (c : Config) (h h' : Heap) (bs : List Blk) (size p n : Nat) (pre post : List Blk) (fl : List Nat) :
    Prop where
  rep : Rep c h' (pre ++ ⟨p, n, .detached⟩ :: post) fl
  whole : Whole (pre ++ post)
  used : usedOf (pre ++ post) = usedOf bs
  le : size ≤ n
  /-- What is left over is too small for a chunk. -/
  waste : n ≤ size + c.chunkSize
  keeps : KeepsData c (usedOf bs) h.mem h'.mem
  zones : h'.zones = h.zones

theorem splitChunk_small {p off : Nat} (hdvd : c.align ∣ off) (hsz : ¬off + c.chunkSize < chunkSizeOf c p h.mem) :
    splitChunk c p off h = h := by
  unfold splitChunk
  dsimp only
  rw [c.alignUp_of_dvd hdvd, if_neg hsz]

/-- `split_chunk` of a chunk that is not on the free list: it keeps its place, with the size asked for
if the rest makes a chunk. -/
theorem splitChunk_rep {b : Blk} {off : Nat} (hr : Rep c h (pre ++ b :: post) fl) (hb : b.st ≠ .free)
    (hdvd : c.align ∣ off) (hpos : 0 < off) (hle : off ≤ b.size) :
    ∃ n rest fl', Rep c (splitChunk c b.addr off h) (pre ++ { b with size := n } :: rest) fl' ∧
      (rest = post ∨ ∃ r : Blk, r.st = .free ∧ rest = r :: post) ∧
      KeepsData c (pre ++ { b with size := n } :: post) h.mem (splitChunk c b.addr off h).mem ∧
      (splitChunk c b.addr off h).zones = h.zones ∧
      off ≤ n ∧ n ≤ b.size ∧ n ≤ off + c.chunkSize ∧ (n = off ↔ b.size = off ∨ off + c.chunkSize < b.size) := by
  have hsz : chunkSizeOf c b.addr h.mem = b.size := (hr.ok b (by simp)).size
  by_cases hlt : off + c.chunkSize < b.size
  · obtain ⟨rest, fl', hrest, hr', hk, hz⟩ := split_rep hr hb hdvd hpos hlt
    exact ⟨off, rest, fl', hr', hrest, hk, hz, le_rfl, hle, Nat.le_add_right _ _, by simp [hlt]⟩
  · rw [splitChunk_small hdvd (by rw [hsz]; exact hlt)]
    refine ⟨b.size, post, fl, hr, Or.inl rfl, KeepsData.refl _ _, rfl, hle, le_rfl, not_lt.1 hlt, ?_⟩
    constructor
    · exact Or.inl
    · rintro (he | he)
      · exact he
      · exact absurd he hlt

theorem getFreeChunk_rep {size : Nat} (hr : Rep c h bs fl) (hw : Whole bs) (hdvd : c.align ∣ size) (hpos : 0 < size) :
    ((getFreeChunk c size h).1 = bestChunk c size (defragChunks c h)) ∧
    ((getFreeChunk c size h).1 = 0 → ∃ bs' fl', Rep c (getFreeChunk c size h).2 bs' fl' ∧
      Rearranged c h (getFreeChunk c size h).2 bs bs') ∧ ((getFreeChunk c size h).1 ≠ 0 → ∃ n pre post fl',
      Obtained c h (getFreeChunk c size h).2 bs size (getFreeChunk c size h).1 n pre post fl' ∧
      (n = size ↔ Exact c size (bestChunk c size (defragChunks c h)) (defragChunks c h).mem)) := by
  obtain ⟨bs', fl', hr', hre⟩ := defragChunks_rep hr hw
  unfold getFreeChunk
  dsimp only
  by_cases hbest : bestChunk c size (defragChunks c h) = 0
  · rw [if_neg (by simpa using hbest)]
    exact ⟨hbest.symm, fun _ => ⟨bs', fl', hr', hre⟩, fun hne => absurd rfl hne⟩
  · rw [if_pos hbest]
    refine ⟨rfl, fun h0 => absurd h0 hbest, fun _ => ?_⟩
    dsimp only
    obtain ⟨hmem, hle⟩ := bestChunk_mem hr' size hbest
    generalize defragChunks c h = g at *
    generalize bestChunk c size g = p at *
    obtain ⟨b, hbm, hbf, rfl⟩ := hr'.mem_free hmem
    obtain ⟨pre, post, rfl⟩ := List.append_of_mem hbm
    have hbsz : chunkSizeOf c b.addr g.mem = b.size := (hr'.ok b hbm).size
    obtain ⟨fl₁, hr₁, hk₁, -, hz₁⟩ := remove_rep hr' hbf
    rw [hbsz] at hle
    obtain ⟨n, rest, fl₂, hr₂, hrest, hk₂, hz₂, hn, hn', hwaste, hiff⟩ :=
      splitChunk_rep (b := { b with st := .detached }) hr₁ (by simp) hdvd hpos hle
    have hwg := hre.whole
    have hused := hre.used
    rw [Whole.append, Whole.cons] at hwg
    rw [usedOf_append, usedOf_cons_unused (by rw [hbf]; rfl)] at hused
    have hfree : Whole rest ∧ usedOf rest = usedOf post := by
      rcases hrest with rfl | ⟨r, hrf, rfl⟩
      · exact ⟨hwg.2.2, rfl⟩
      · exact ⟨Whole.cons.2 ⟨by rw [hrf]; simp, hwg.2.2⟩, usedOf_cons_unused (by rw [hrf]; rfl)⟩
    refine ⟨n, pre, rest, fl₂, ⟨hr₂, ?_, ?_, hn, hwaste, ?_, hz₂.trans (hz₁.trans hre.zones)⟩, ?_⟩
    · exact Whole.append.2 ⟨hwg.1, hfree.1⟩
    · rw [usedOf_append, hfree.2, hused]
    · refine (hre.keeps.trans (hk₁.mono ?_)).trans (hk₂.mono ?_)
      · intro x hx
        rw [← hused] at hx
        rcases List.mem_append.1 hx with hx | hx
        · exact List.mem_append_left _ (mem_usedOf.1 hx).1
        · exact List.mem_append_right _ (List.mem_cons_of_mem _ (mem_usedOf.1 hx).1)
      · intro x hx
        rw [← hused] at hx
        rcases List.mem_append.1 hx with hx | hx
        · exact List.mem_append_left _ (mem_usedOf.1 hx).1
        · exact List.mem_append_right _ (List.mem_cons_of_mem _ (mem_usedOf.1 hx).1)
    · unfold Exact
      rw [hbsz]
      exact hiff

theorem extend_rep {size : Nat} (hr : Rep c h bs fl) (hdvd : c.align ∣ size) (hpos : 0 < size)
    (hfit : c.chunkSize + size ≤ c.arena - h.heapUsage) (mx : Nat) :
    Rep c { h with
        heapUsage := h.heapUsage + (c.chunkSize + size), maxHeapUsage := mx
        mem := setSize c (c.base + h.heapUsage) size h.mem }
      (bs ++ [⟨c.base + h.heapUsage, size, .detached⟩]) fl ∧
    KeepsData c bs h.mem (setSize c (c.base + h.heapUsage) size h.mem) := by
  have husage := hr.usage
  have hS := c.chunkSize_pos
  have haw := c.arena_word
  have hapart : ∀ b ∈ bs, Apart c (c.base + h.heapUsage) b.addr := fun b hb => by
    have := hr.tiles.mem b hb
    exact Or.inr (by omega)
  have hhdr : ∀ b ∈ bs, hdr c b.addr (setSize c (c.base + h.heapUsage) size h.mem) = hdr c b.addr h.mem :=
    fun b hb => hdr_setSize_apart (hapart b hb)
  refine ⟨⟨?_, ?_, ?_, ?_, hr.nodup, ?_⟩, ?_⟩
  · refine (tiles_append bs).2 ⟨_, hr.tiles, rfl, ?_⟩
    show c.base + h.heapUsage + c.chunkSize + size = c.base + (h.heapUsage + (c.chunkSize + size))
    omega
  · intro b hb
    rcases List.mem_append.1 hb with hb | hb
    · refine (hr.ok b hb).congr ?_ ?_ ?_ <;> rw [hhdr b hb]
    · obtain rfl := List.mem_singleton.1 hb
      refine ⟨?_, hdvd, hpos, by rintro _ ⟨⟩, by rintro ⟨⟩⟩
      show chunkSizeOf c (c.base + h.heapUsage) _ = size
      rw [chunkSizeOf_hdr, hdr_setSize (by omega)]
  · show h.heapUsage + (c.chunkSize + size) ≤ c.arena
    omega
  · refine Links.congr hr.list (fun y hy => ?_) (fun y hy hy0 => ?_)
    · have hy : y ∈ (0 :: fl ++ [0]).dropLast := hy
      rw [List.dropLast_concat] at hy
      by_cases hy0 : y = 0
      · simp [freeNext, hy0]
      · obtain ⟨x, hx, _, rfl⟩ := hr.mem_free (p := y) (by simpa [hy0] using hy)
        simp only [freeNext, if_neg hy0]
        rw [chunkNext_hdr, hhdr x hx, chunkNext_hdr]
    · have hy : y ∈ fl ++ [0] := hy
      obtain ⟨x, hx, _, rfl⟩ := hr.mem_free (p := y) (by simpa [hy0] using hy)
      show chunkPrev c x.addr _ = chunkPrev c x.addr h.mem
      rw [chunkPrev_hdr, hhdr x hx, chunkPrev_hdr]
  · intro y
    rw [hr.free]
    constructor
    · rintro ⟨x, hx, hf, rfl⟩; exact ⟨x, List.mem_append_left _ hx, hf, rfl⟩
    · rintro ⟨x, hx, hf, rfl⟩
      rcases List.mem_append.1 hx with hx | hx
      · exact ⟨x, hx, hf, rfl⟩
      · obtain rfl := List.mem_singleton.1 hx
        cases hf
  · intro b hb x hx
    refine setSize_same c _ _ _ x ?_
    have := hr.tiles.mem b hb
    have := hx.2
    omega

/-- What best fit or the wilderness gives: the condition says when the chunk has just the size. -/
theorem obtainChunk_rep {size : Nat} (hr : Rep c h bs fl) (hw : Whole bs) (hdvd : c.align ∣ size) (hpos : 0 < size) :
    ((obtainChunk c size h).1 = 0 ↔
      bestChunk c size (defragChunks c h) = 0 ∧ c.arena - h.heapUsage < c.chunkSize + size) ∧
    ((obtainChunk c size h).1 = 0 → ∃ bs' fl', Rep c (obtainChunk c size h).2 bs' fl' ∧
      Rearranged c h (obtainChunk c size h).2 bs bs') ∧ ((obtainChunk c size h).1 ≠ 0 → ∃ n pre post fl',
      Obtained c h (obtainChunk c size h).2 bs size (obtainChunk c size h).1 n pre post fl' ∧
      (n = size ↔ (bestChunk c size (defragChunks c h) ≠ 0 →
        Exact c size (bestChunk c size (defragChunks c h)) (defragChunks c h).mem))) := by
  obtain ⟨hbest, hnone, hsome⟩ := getFreeChunk_rep hr hw hdvd hpos
  unfold obtainChunk
  dsimp only
  by_cases h0 : (getFreeChunk c size h).1 = 0
  · obtain ⟨bs', fl', hr', hre⟩ := hnone h0
    rw [if_neg (by simpa using h0)]
    rw [h0] at hbest
    have husage := hre.usage
    unfold extendSpace
    by_cases hfit : c.chunkSize + size > c.arena - (getFreeChunk c size h).2.heapUsage
    · rw [if_pos hfit]
      dsimp only
      refine ⟨by rw [← hbest, ← husage]; simpa using hfit, fun _ => ⟨bs', fl', hr', hre⟩, fun hne => absurd rfl hne⟩
    · rw [if_neg hfit]
      dsimp only
      have hp : c.base + (getFreeChunk c size h).2.heapUsage ≠ 0 := by have := c.base_pos; omega
      refine ⟨?_, fun he => absurd he hp, fun _ => ?_⟩
      · rw [← hbest, ← husage]
        constructor
        · exact fun he => absurd he hp
        · rintro ⟨-, hlt⟩; exact absurd hlt hfit
      · obtain ⟨hrep, hk⟩ := extend_rep hr' hdvd hpos (by omega) _
        refine ⟨size, bs', [], fl', ⟨hrep, by rw [List.append_nil]; exact hre.whole,
          by rw [List.append_nil]; exact hre.used, le_rfl, Nat.le_add_right _ _, ?_, hre.zones⟩, ?_⟩
        · refine hre.keeps.trans (hk.mono fun x hx => ?_)
          rw [← hre.used] at hx
          exact (mem_usedOf.1 hx).1
        · rw [← hbest]; simp
  · rw [if_pos h0]
    obtain ⟨n, pre, post, fl', hob, hn⟩ := hsome h0
    refine ⟨?_, fun he => absurd he h0, fun _ => ⟨n, pre, post, fl', hob, ?_⟩⟩
    · rw [← hbest]; tauto
    · rw [← hbest] at hn ⊢
      rw [hn]
      exact ⟨fun he _ => he, fun he => he h0⟩

end Contiki.Heapmem
