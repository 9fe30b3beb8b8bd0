/-
The edits of the heap as edits of the lists it represents: `remove_chunk_from_free_list` detaches a
free chunk, `free_chunk` releases a chunk that is not on the free list, `split_chunk` cuts one in
two, and two neighbours merge.
-/
import Contiki.Heapmem.Layout

namespace Contiki.Heapmem

open Contiki.Lib Contiki.Lib.Mem

variable {c : Config} {h : Heap} {bs pre post : List Blk} {fl : List Nat}

/-! ## Transporting the representation -/

variable {b : Blk}

theorem Blk.Ok.congr {m m' : Mem} (hb : b.Ok c m) (hs : (hdr c b.addr m').size = (hdr c b.addr m).size)
    (hf : (hdr c b.addr m').flags = (hdr c b.addr m).flags) (hz : (hdr c b.addr m').zone = (hdr c b.addr m).zone) :
    b.Ok c m' := by
  refine ⟨hs.trans hb.size, hb.aligned, hb.pos, fun z hst => ?_, fun hst => ?_⟩
  · obtain ⟨h₁, h₂, h₃⟩ := hb.used z hst
    exact ⟨by rw [chunkAllocated_hdr, hf]; exact h₁, hz.trans h₂, h₃⟩
  · rw [chunkAllocated_hdr, hf]; exact hb.free hst

theorem Blk.Ok.detach {m : Mem} (hb : b.Ok c m) : Blk.Ok c m { b with st := .detached } :=
  ⟨hb.size, hb.aligned, hb.pos, (by rintro _ ⟨⟩), (by rintro ⟨⟩)⟩

/-! ## Taking a chunk off the free list -/

theorem neighbours (l₁ l₂ : List Nat) : ∃ P x w Q, 0 :: l₁ = P ++ [x] ∧ l₂ ++ [0] = w :: Q := by
  obtain ⟨P, x, hP⟩ : ∃ P x, 0 :: l₁ = P ++ [x] := by
    rcases List.eq_nil_or_concat (0 :: l₁) with h | ⟨P, x, h⟩
    · cases h
    · exact ⟨P, x, by rw [h, List.concat_eq_append]⟩
  cases l₂ with
  | nil => exact ⟨P, x, 0, [], hP, rfl⟩
  | cons w Q => exact ⟨P, x, w, Q ++ [0], hP, rfl⟩

/-- What `remove_chunk_from_free_list` writes: the links of the neighbours, and nothing else. -/
theorem remove_effect {a x w : Nat} {P Q l₁ l₂ : List Nat} (hr : Rep c h bs (l₁ ++ a :: l₂))
    (hP : 0 :: l₁ = P ++ [x]) (hQ : l₂ ++ [0] = w :: Q) :
    ∃ m', removeChunkFromFreeList c a h = { h with freeList := if x = 0 then w else h.freeList, mem := m' } ∧
      (∀ b ∈ bs, hdr c b.addr m' = { hdr c b.addr h.mem with
        next := if b.addr = x then w else (hdr c b.addr h.mem).next
        prev := if b.addr = w then x else (hdr c b.addr h.mem).prev }) ∧
      KeepsData c bs h.mem m' := by
  have hlinks : Links 0 (freeNext c h) (fun p => chunkPrev c p h.mem) (P ++ x :: a :: w :: Q) := by
    have hl := hr.list
    unfold DList at hl
    have he : 0 :: (l₁ ++ a :: l₂) ++ [0] = (0 :: l₁) ++ a :: (l₂ ++ [0]) := by simp
    rw [he, hP, hQ, List.append_assoc] at hl
    exact hl
  have ha0 : a ≠ 0 := hr.free_ne_zero (by simp)
  obtain ⟨hxa, hax, haw, hwa, _⟩ := ((links_append P x _).1 hlinks).2
  replace hax : chunkPrev c a h.mem = x := hax ha0
  have haw : chunkNext c a h.mem = w := by rw [← haw, freeNext, if_neg ha0]
  have hx : x = 0 ∨ x ∈ l₁ := by
    have : x ∈ 0 :: l₁ := by rw [hP]; simp
    simpa using this
  have hw : w = 0 ∨ w ∈ l₂ := by
    have : w ∈ l₂ ++ [0] := by rw [hQ]; simp
    simpa [or_comm] using this
  have hnd : a ∉ l₁ ∧ a ∉ l₂ := by
    have := hr.nodup
    rw [List.nodup_append] at this
    exact ⟨fun hm => this.2.2 a hm a (by simp) rfl, (List.nodup_cons.1 this.2.1).1⟩
  obtain ⟨ba, hba, _, rfl⟩ := hr.mem_free (p := a) (by simp)
  have hblk : ∀ y, y ∈ l₁ ∨ y ∈ l₂ → ∃ b ∈ bs, b.addr = y := by
    intro y hy
    obtain ⟨b, hb, _, hba⟩ := hr.mem_free (p := y) (by simp; tauto)
    exact ⟨b, hb, hba⟩
  have hhead : x = 0 ↔ ba.addr = h.freeList := by
    constructor
    · rintro rfl; rw [← hxa]; simp [freeNext]
    · intro he
      rcases hx with hx | hx
      · exact hx
      · -- the list begins with a node of l₁ then
        cases l₁ with
        | nil => cases hx
        | cons y l =>
          have hl := hr.list
          have hy : freeNext c h 0 = y := hl.1
          simp only [freeNext, if_pos] at hy
          exact absurd (by rw [he, hy]; simp) hnd.1
  have hA := hr.spread
  have hword : ∀ y, y = 0 ∨ (∃ b ∈ bs, b.addr = y) → y < c.word := by
    rintro y (rfl | ⟨b, hb, rfl⟩)
    · have := c.arena_word; omega
    · exact hr.addr_word hb
  have hxb : x ≠ 0 → ∃ b ∈ bs, b.addr = x := fun h0 => hblk x (Or.inl (hx.resolve_left h0))
  have hwb : w ≠ 0 → ∃ b ∈ bs, b.addr = w := fun h0 => hblk w (Or.inr (hw.resolve_left h0))
  have hxw : x < c.word := hword x (by tauto)
  have hww : w < c.word := hword w (by tauto)
  have hne : ∀ b ∈ bs, b.addr ≠ 0 := fun b hb => by
    have h₁ := hr.addr_bounds hb; have h₂ := c.base_pos; omega
  have hax' : ba.addr ≠ x := by
    rintro rfl
    rcases hx with h0 | h0
    · exact ha0 h0
    · exact hnd.1 h0
  have haw' : ba.addr ≠ w := by
    rintro rfl
    rcases hw with h0 | h0
    · exact ha0 h0
    · exact hnd.2 h0
  have hkeep : ∀ y, (∃ b ∈ bs, b.addr = y) → ∀ m m', SameOutside y c.chunkSize m m' → KeepsData c bs m m' := by
    rintro y ⟨b, hb, rfl⟩ m m' hm b' hb' z hz
    exact hm z (hr.data_out hb hb' hz)
  have hSa : ∃ b ∈ bs, b.addr = ba.addr := ⟨ba, hba, rfl⟩
  unfold removeChunkFromFreeList
  by_cases hx0 : x = 0
  · have hfl := hhead.1 hx0
    subst hx0
    rw [if_pos hfl]
    dsimp only
    rw [haw]
    by_cases hw0 : w = 0
    · subst hw0
      simp only [ne_eq, not_true_eq_false, if_false, if_true, haw]
      refine ⟨h.mem, rfl, fun b hb => ?_, KeepsData.refl bs h.mem⟩
      simp only [if_neg (hne b hb)]
    · have hS := hwb hw0
      simp only [ne_eq, hw0, not_false_eq_true, if_true]
      have hn1 : chunkNext c ba.addr (setPrev c w 0 h.mem) = w := by
        rw [chunkNext_hdr, hdr_setPrev_of hA hS hSa hxw, if_neg haw']; exact haw
      have hp1 : chunkPrev c ba.addr (setPrev c w 0 h.mem) = 0 := by
        rw [chunkPrev_hdr, hdr_setPrev_of hA hS hSa hxw, if_neg haw']; exact hax
      rw [hn1, hp1]
      refine ⟨_, by simp only [hw0, not_false_eq_true, if_true], fun b hb => ?_,
        (hkeep w hS _ _ (setPrev_same c w 0 h.mem)).trans (hkeep w hS _ _ (setPrev_same c w 0 _))⟩
      have hSb : ∃ b' ∈ bs, b'.addr = b.addr := ⟨b, hb, rfl⟩
      rw [hdr_setPrev_of hA hS hSb hxw, hdr_setPrev_of hA hS hSb hxw, if_neg (hne b hb)]
      by_cases hbw : b.addr = w <;> simp [hbw]
  · have hfl : ba.addr ≠ h.freeList := fun he => hx0 (hhead.2 he)
    have hS := hxb hx0
    rw [if_neg hfl]
    dsimp only
    rw [hax, haw]
    have hn1 : chunkNext c ba.addr (setNext c x w h.mem) = w := by
      rw [chunkNext_hdr, hdr_setNext_of hA hS hSa hww, if_neg hax']; exact haw
    have hp1 : chunkPrev c ba.addr (setNext c x w h.mem) = x := by
      rw [chunkPrev_hdr, hdr_setNext_of hA hS hSa hww, if_neg hax']; exact hax
    rw [hn1, hp1]
    simp only [if_neg hx0]
    by_cases hw0 : w = 0
    · rw [if_neg (not_not.2 hw0)]
      refine ⟨_, rfl, fun b hb => ?_, hkeep x hS _ _ (setNext_same c x w h.mem)⟩
      have hSb : ∃ b' ∈ bs, b'.addr = b.addr := ⟨b, hb, rfl⟩
      rw [hdr_setNext_of hA hS hSb hww, if_neg (show b.addr ≠ w by rw [hw0]; exact hne b hb)]
      by_cases hbx : b.addr = x <;> simp [hbx]
    · rw [if_pos hw0]
      have hSw := hwb hw0
      refine ⟨_, rfl, fun b hb => ?_, (hkeep x hS _ _ (setNext_same c x w h.mem)).trans
        (hkeep w hSw _ _ (setPrev_same c w x _))⟩
      have hSb : ∃ b' ∈ bs, b'.addr = b.addr := ⟨b, hb, rfl⟩
      rw [hdr_setPrev_of hA hSw hSb hxw, hdr_setNext_of hA hS hSb hww]
      by_cases hbx : b.addr = x <;> by_cases hbw : b.addr = w <;> simp [hbx, hbw] <;> simp_all

theorem remove_rep (hr : Rep c h (pre ++ b :: post) fl) (hb : b.st = .free) :
    ∃ fl', Rep c (removeChunkFromFreeList c b.addr h) (pre ++ { b with st := .detached } :: post) fl' ∧
      KeepsData c (pre ++ b :: post) h.mem (removeChunkFromFreeList c b.addr h).mem ∧
      (removeChunkFromFreeList c b.addr h).heapUsage = h.heapUsage ∧
      (removeChunkFromFreeList c b.addr h).zones = h.zones := by
  obtain ⟨hbfl, hofl⟩ := hr.free_focus
  obtain ⟨l₁, l₂, rfl⟩ := List.append_of_mem (hbfl.2 hb)
  obtain ⟨P, x, w, Q, hP, hQ⟩ := neighbours l₁ l₂
  obtain ⟨m', he, hhdr, hkeep⟩ := remove_effect hr hP hQ
  rw [he]
  have hmeta : ∀ d ∈ pre ++ b :: post, (hdr c d.addr m').size = (hdr c d.addr h.mem).size ∧
      (hdr c d.addr m').flags = (hdr c d.addr h.mem).flags ∧ (hdr c d.addr m').zone = (hdr c d.addr h.mem).zone := by
    intro d hd; rw [hhdr d hd]; exact ⟨rfl, rfl, rfl⟩
  have hok : ∀ d ∈ pre ++ b :: post, d.Ok c m' := fun d hd =>
    (hr.ok d hd).congr (hmeta d hd).1 (hmeta d hd).2.1 (hmeta d hd).2.2
  have hnd := hr.nodup
  have hnd' : (l₁ ++ l₂).Nodup ∧ b.addr ∉ l₁ ++ l₂ := by
    rw [List.nodup_append] at hnd
    obtain ⟨h₁, h₂, h₃⟩ := hnd
    rw [List.nodup_cons] at h₂
    refine ⟨List.nodup_append.2 ⟨h₁, h₂.2, fun y hy z hz => h₃ y hy z (List.mem_cons_of_mem _ hz)⟩, ?_⟩
    intro hm
    rcases List.mem_append.1 hm with hm | hm
    · exact h₃ _ hm b.addr (by simp) rfl
    · exact h₂.1 hm
  have h0 : 0 ∉ l₁ ++ l₂ := fun hm => hr.free_ne_zero (p := 0) (by
    rcases List.mem_append.1 hm with hm | hm <;> simp [hm]) rfl
  have hblk : ∀ y ∈ l₁ ++ l₂, ∃ d ∈ pre ++ b :: post, d.addr = y := by
    intro y hy
    obtain ⟨d, hd, _, hda⟩ := hr.mem_free (p := y) (by
      rcases List.mem_append.1 hy with hy | hy <;> simp [hy])
    exact ⟨d, hd, hda⟩
  refine ⟨l₁ ++ l₂, ⟨?_, ?_, hr.usage, ?_, hnd'.1, ?_⟩, hkeep, rfl, rfl⟩
  · obtain ⟨h₁, h₂⟩ := hr.tiles.around
    exact Tiles.build h₁ h₂
  · intro d hd
    rcases List.mem_append.1 hd with hd | hd
    · exact hok d (List.mem_append_left _ hd)
    · rcases List.mem_cons.1 hd with rfl | hd
      · exact (hok b (by simp)).detach
      · exact hok d (by simp [hd])
  · -- the links of the neighbours now lead past the chunk
    have hall : (0 :: (l₁ ++ l₂)).Nodup := List.nodup_cons.2 ⟨h0, hnd'.1⟩
    rw [← List.cons_append, hP, List.append_assoc] at hall
    have hPx : x ∉ P ∧ x ∉ l₂ := by
      rw [List.nodup_append] at hall
      refine ⟨fun hm => hall.2.2 x hm x (by simp) rfl, fun hm => ?_⟩
      have := (List.nodup_cons.1 (show (x :: l₂).Nodup from hall.2.1)).1
      exact this hm
    have hlinks : Links 0 (freeNext c h) (fun p => chunkPrev c p h.mem) (P ++ x :: b.addr :: w :: Q) := by
      have hl := hr.list
      unfold DList at hl
      rw [show 0 :: (l₁ ++ b.addr :: l₂) ++ [0] = (0 :: l₁) ++ b.addr :: (l₂ ++ [0]) by simp, hP, hQ,
        List.append_assoc] at hl
      exact hl
    unfold DList
    rw [show 0 :: (l₁ ++ l₂) ++ [0] = (0 :: l₁) ++ (l₂ ++ [0]) by simp, hP, hQ, List.append_assoc]
    have hl₂ : (w :: Q).dropLast = l₂ := by rw [← hQ, List.dropLast_concat]
    have hl₁ : (P ++ [x]).tail = l₁ := by rw [← hP]; rfl
    have hx : x = 0 ∨ x ∈ l₁ := by
      have hm : x ∈ 0 :: l₁ := by rw [hP]; simp
      simpa using hm
    have hw : w = 0 ∨ w ∈ l₂ := by
      have hm : w ∈ l₂ ++ [0] := by rw [hQ]; simp
      simpa [or_comm] using hm
    refine links_remove hlinks ?_ ?_ ?_ ?_
    · by_cases hx0 : x = 0
      · simp [freeNext, hx0]
      · obtain ⟨d, hd, rfl⟩ := hblk x (List.mem_append_left _ (hx.resolve_left hx0))
        simp only [freeNext, if_neg hx0]
        rw [chunkNext_hdr, hhdr d hd]; simp
    · intro hw0
      obtain ⟨d, hd, rfl⟩ := hblk w (List.mem_append_right _ (hw.resolve_left hw0))
      show chunkPrev c d.addr m' = x
      rw [chunkPrev_hdr, hhdr d hd]; simp
    · intro y hy
      rw [hl₂] at hy
      have hyx : y ≠ x := by
        rintro rfl
        rcases List.mem_append.1 hy with hy | hy
        · exact hPx.1 hy
        · exact hPx.2 hy
      by_cases hy0 : y = 0
      · have hx0 : x ≠ 0 := fun hx0 => hyx (hy0.trans hx0.symm)
        simp [freeNext, hy0, hx0]
      · have hyl : y ∈ l₁ ++ l₂ := by
          rcases List.mem_append.1 hy with hy | hy
          · have hm : y ∈ 0 :: l₁ := by rw [hP]; exact List.mem_append_left _ hy
            rcases List.mem_cons.1 hm with hm | hm
            · exact absurd hm hy0
            · exact List.mem_append_left _ hm
          · exact List.mem_append_right _ hy
        obtain ⟨d, hd, rfl⟩ := hblk y hyl
        simp only [freeNext, if_neg hy0]
        rw [chunkNext_hdr, hhdr d hd, chunkNext_hdr]; simp [hyx]
    · intro y hy hy0
      rw [hl₁] at hy
      have hwQ : w ∉ Q ∨ w = 0 := by
        by_cases hw0 : w = 0
        · exact Or.inr hw0
        · left
          intro hm
          have hl2 : (l₂ ++ [0]).Nodup := List.nodup_append.2 ⟨(List.nodup_append.1 hnd'.1).2.1, by simp, by
            rintro u hu v hv rfl
            rw [List.mem_singleton] at hv; subst hv
            exact h0 (List.mem_append_right _ hu)⟩
          rw [hQ] at hl2
          exact (List.nodup_cons.1 hl2).1 hm
      have hyw : y ≠ w := by
        rintro rfl
        rcases List.mem_append.1 hy with hy | hy
        · rcases hw with hw | hw
          · exact hy0 hw
          · exact (List.nodup_append.1 hnd'.1).2.2 y hy y hw rfl
        · rcases hwQ with hq | hq
          · exact hq hy
          · exact hy0 hq
      have hyl : y ∈ l₁ ++ l₂ := by
        rcases List.mem_append.1 hy with hy | hy
        · exact List.mem_append_left _ hy
        · have hm : y ∈ l₂ ++ [0] := by rw [hQ]; exact List.mem_cons_of_mem _ hy
          rcases List.mem_append.1 hm with hm | hm
          · exact List.mem_append_right _ hm
          · exact absurd (List.mem_singleton.1 hm) hy0
      obtain ⟨d, hd, rfl⟩ := hblk y hyl
      show chunkPrev c d.addr m' = chunkPrev c d.addr h.mem
      rw [chunkPrev_hdr, hhdr d hd, chunkPrev_hdr]; simp [hyw]
  · refine free_of_focus (b := { b with st := .detached }) (fun d hd => hr.addr_ne hd) ?_ ?_
    · exact ⟨fun hm => absurd hm hnd'.2, fun hf => by cases hf⟩
    · intro p hp
      rw [← hofl p hp]
      simp only [List.mem_append, List.mem_cons]
      constructor
      · rintro (hm | hm)
        · exact Or.inl hm
        · exact Or.inr (Or.inr hm)
      · rintro (hm | hm | hm)
        · exact Or.inl hm
        · exact absurd hm hp
        · exact Or.inr hm

/-! ## Releasing a chunk -/

theorem flags_cleared (f : Nat) : (f - f % 2) % 2 = 0 := by omega

theorem freeChunk_zones (p : Nat) (h : Heap) : (freeChunk c p h).zones = h.zones := by
  unfold freeChunk
  dsimp only
  split <;> rfl

theorem isLast_iff (hr : Rep c h (pre ++ b :: post) fl) {m : Mem}
    (hm : chunkSizeOf c b.addr m = b.size) : isLastChunk c b.addr { h with mem := m } = true ↔ post = [] := by
  obtain ⟨_, h₂⟩ := hr.tiles.around
  have hpos := c.chunkSize_pos
  simp only [isLastChunk, nextChunk, hm, decide_eq_true_eq]
  constructor
  · intro he
    cases post with
    | nil => rfl
    | cons d post =>
      have := h₂.mem d (by simp)
      omega
  · rintro rfl
    exact h₂

theorem freeChunk_effect (hr : Rep c h (pre ++ b :: post) fl) (hne : post ≠ []) (hb : b.st ≠ .free) :
    ∃ m', freeChunk c b.addr h = { h with freeList := b.addr, mem := m' } ∧
      (∀ d ∈ pre ++ b :: post, hdr c d.addr m' = { hdr c d.addr h.mem with
        flags := if d.addr = b.addr then (hdr c d.addr h.mem).flags - (hdr c d.addr h.mem).flags % 2
          else (hdr c d.addr h.mem).flags
        next := if d.addr = b.addr then h.freeList else (hdr c d.addr h.mem).next
        prev := if d.addr = b.addr then 0 else if d.addr = h.freeList then b.addr else (hdr c d.addr h.mem).prev }) ∧
      KeepsData c (pre ++ b :: post) h.mem m' := by
  have hbm : b ∈ pre ++ b :: post := by simp
  have hA := hr.spread
  have hSb : ∃ d ∈ pre ++ b :: post, d.addr = b.addr := ⟨b, hbm, rfl⟩
  have hbw : b.addr < c.word := hr.addr_word hbm
  have hf0 : h.freeList = 0 ∨ h.freeList ∈ fl := by
    have := hr.freeNext_mem (q := 0) (Or.inl rfl)
    simpa [freeNext] using this
  have hfb : h.freeList ≠ b.addr := by
    rintro he
    rcases hf0 with h0 | h0
    · have h₁ := hr.addr_bounds hbm; have h₂ := c.base_pos; omega
    · rw [he] at h0; exact hb (hr.free_focus.1.1 h0)
  have hSf : h.freeList ≠ 0 → ∃ d ∈ pre ++ b :: post, d.addr = h.freeList := by
    intro h0
    obtain ⟨d, hd, _, hda⟩ := hr.mem_free (hf0.resolve_left h0)
    exact ⟨d, hd, hda⟩
  have hfw : h.freeList < c.word := by
    by_cases h0 : h.freeList = 0
    · rw [h0]; omega
    · obtain ⟨d, hd, hda⟩ := hSf h0; rw [← hda]; exact hr.addr_word hd
  have hkeep : ∀ y, (∃ d ∈ pre ++ b :: post, d.addr = y) → ∀ m m', SameOutside y c.chunkSize m m' →
      KeepsData c (pre ++ b :: post) m m' := by
    rintro y ⟨d, hd, rfl⟩ m m' hm d' hd' z hz
    exact hm z (hr.data_out hd hd' hz)
  have hflag := chunkFlags_lt (c := c) b.addr h.mem
  generalize hm0 : setFlags c b.addr (chunkFlags c b.addr h.mem - chunkFlags c b.addr h.mem % 2) h.mem = m0
  have hsz : chunkSizeOf c b.addr m0 = b.size := by
    rw [← hm0, chunkSizeOf_hdr, hdr_setFlags (by omega)]
    exact (hr.ok b hbm).size
  have hnl : ¬ isLastChunk c b.addr { h with mem := m0 } = true := fun he => hne ((isLast_iff hr hsz).1 he)
  have hk0 : KeepsData c (pre ++ b :: post) h.mem m0 := by
    rw [← hm0]; exact hkeep _ hSb _ _ (setFlags_same c b.addr _ h.mem)
  have hk1 : KeepsData c (pre ++ b :: post) m0 (setNext c b.addr h.freeList (setPrev c b.addr 0 m0)) :=
    (hkeep _ hSb _ _ (setPrev_same c b.addr 0 m0)).trans (hkeep _ hSb _ _ (setNext_same c b.addr h.freeList _))
  have h0w : 0 < c.word := by omega
  unfold freeChunk
  dsimp only
  rw [hm0, if_neg hnl]
  by_cases h0 : h.freeList = 0
  · rw [if_neg (not_not.2 h0)]
    refine ⟨_, rfl, fun d hd => ?_, hk0.trans hk1⟩
    have hSd : ∃ d' ∈ pre ++ b :: post, d'.addr = d.addr := ⟨d, hd, rfl⟩
    have hd0 : d.addr ≠ h.freeList := by
      have h₁ := hr.addr_bounds hd; have h₂ := c.base_pos; omega
    rw [hdr_setNext_of hA hSb hSd hfw, hdr_setPrev_of hA hSb hSd h0w, ← hm0, hdr_setFlags_of hA hSb hSd (by omega)]
    by_cases hdb : d.addr = b.addr
    · simp [hdb, chunkFlags_hdr]
    · simp [hdb, hd0]
  · rw [if_pos h0]
    have hS := hSf h0
    refine ⟨_, rfl, fun d hd => ?_, (hk0.trans hk1).trans (hkeep _ hS _ _ (setPrev_same c h.freeList b.addr _))⟩
    have hSd : ∃ d' ∈ pre ++ b :: post, d'.addr = d.addr := ⟨d, hd, rfl⟩
    rw [hdr_setPrev_of hA hS hSd hbw, hdr_setNext_of hA hSb hSd hfw, hdr_setPrev_of hA hSb hSd h0w, ← hm0,
      hdr_setFlags_of hA hSb hSd (by omega)]
    by_cases hdb : d.addr = b.addr
    · simp [hdb, hfb.symm, chunkFlags_hdr]
    · by_cases hdf : d.addr = h.freeList
      · simp [hdf, hfb]
      · simp [hdb, hdf]

theorem free_rep (hr : Rep c h (pre ++ b :: post) fl) (hne : post ≠ []) (hb : b.st ≠ .free) :
    Rep c (freeChunk c b.addr h) (pre ++ { b with st := .free } :: post) (b.addr :: fl) ∧
      KeepsData c (pre ++ b :: post) h.mem (freeChunk c b.addr h).mem ∧
      (freeChunk c b.addr h).heapUsage = h.heapUsage := by
  obtain ⟨m', he, hhdr, hkeep⟩ := freeChunk_effect hr hne hb
  obtain ⟨hbfl, hofl⟩ := hr.free_focus
  have hbnf : b.addr ∉ fl := fun hm => hb (hbfl.1 hm)
  have hb0 : b.addr ≠ 0 := by
    have h₁ := hr.addr_bounds (b := b) (by simp); have h₂ := c.base_pos; omega
  rw [he]
  refine ⟨⟨?_, ?_, hr.usage, ?_, List.nodup_cons.2 ⟨hbnf, hr.nodup⟩, ?_⟩, hkeep, rfl⟩
  · obtain ⟨h₁, h₂⟩ := hr.tiles.around
    exact Tiles.build h₁ h₂
  · have hother : ∀ d ∈ pre ++ post, d.Ok c m' := by
      intro d hd
      have hm : d ∈ pre ++ b :: post := by
        rcases List.mem_append.1 hd with hd | hd <;> simp [hd]
      have hda := hr.addr_ne hd
      refine (hr.ok d hm).congr ?_ ?_ ?_ <;> rw [hhdr d hm] <;> simp [hda]
    intro d hd
    rcases List.mem_append.1 hd with hd | hd
    · exact hother d (List.mem_append_left _ hd)
    · rcases List.mem_cons.1 hd with rfl | hd
      · have hob := hr.ok b (by simp)
        have hhb := hhdr b (by simp)
        refine ⟨?_, hob.aligned, hob.pos, by rintro _ ⟨⟩, fun _ => ?_⟩
        · show chunkSizeOf c b.addr m' = b.size
          rw [chunkSizeOf_hdr, hhb]; exact hob.size
        · show chunkAllocated c b.addr m' = false
          rw [chunkAllocated_hdr, hhb]
          simp [flags_cleared]
      · exact hother d (List.mem_append_right _ hd)
  · have hblk : ∀ y ∈ fl, ∃ d ∈ pre ++ b :: post, d.addr = y ∧ d.addr ≠ b.addr := by
      intro y hy
      obtain ⟨d, hd, _, hda⟩ := hr.mem_free hy
      exact ⟨d, hd, hda, fun hdb => hbnf (by rw [← hdb, hda]; exact hy)⟩
    refine dlist_push hr.list ?_ ?_ ?_ ?_ ?_ ?_
    · simp [freeNext]
    · show chunkPrev c b.addr m' = 0
      rw [chunkPrev_hdr, hhdr b (by simp)]; simp
    · simp only [freeNext, if_neg hb0, if_true]
      rw [chunkNext_hdr, hhdr b (by simp)]; simp
    · intro h0
      simp only [freeNext, if_true] at h0 ⊢
      have hm : h.freeList ∈ fl := by
        have := hr.freeNext_mem (q := 0) (Or.inl rfl)
        simp only [freeNext, if_true] at this
        exact this.resolve_left h0
      obtain ⟨d, hd, hda, hdb⟩ := hblk _ hm
      show chunkPrev c h.freeList m' = b.addr
      rw [show h.freeList = d.addr from hda.symm, chunkPrev_hdr, hhdr d hd]
      simp only [if_neg hdb, if_pos hda]
    · intro y hy
      obtain ⟨d, hd, rfl, hdb⟩ := hblk y hy
      have hd0 : d.addr ≠ 0 := hr.free_ne_zero hy
      simp only [freeNext, if_neg hd0]
      rw [chunkNext_hdr, hhdr d hd]; simp [hdb, chunkNext_hdr]
    · intro y hy hy0
      obtain ⟨d, hd, rfl, hdb⟩ := hblk y (List.mem_of_mem_tail hy)
      have hdf : d.addr ≠ h.freeList := by
        intro hdf
        cases fl with
        | nil => cases hy
        | cons z l =>
          have hz : h.freeList = z := by
            have := hr.list.1
            simpa [freeNext] using this
          exact (List.nodup_cons.1 hr.nodup).1 (by rw [← hz, ← hdf]; exact hy)
      show chunkPrev c d.addr m' = chunkPrev c d.addr h.mem
      rw [chunkPrev_hdr, hhdr d hd]; simp [hdb, hdf, chunkPrev_hdr]
  · refine free_of_focus (b := { b with st := .free }) (fun d hd => hr.addr_ne hd) (by simp) fun p hp => ?_
    rw [← hofl p hp, List.mem_cons]
    exact ⟨fun hm => hm.resolve_left hp, Or.inr⟩

theorem free_last_rep (hr : Rep c h (pre ++ [b]) fl) (hb : b.st ≠ .free) :
    Rep c (freeChunk c b.addr h) pre fl ∧ KeepsData c (pre ++ [b]) h.mem (freeChunk c b.addr h).mem ∧
      (freeChunk c b.addr h).heapUsage + (c.chunkSize + b.size) = h.heapUsage := by
  have hbm : b ∈ pre ++ [b] := by simp
  have hA := hr.spread
  have hSb : ∃ d ∈ pre ++ [b], d.addr = b.addr := ⟨b, hbm, rfl⟩
  have hflag := chunkFlags_lt (c := c) b.addr h.mem
  obtain ⟨hbfl, hofl⟩ := hr.free_focus
  obtain ⟨h₁, h₂⟩ := hr.tiles.around
  have h₂ : b.addr + c.chunkSize + b.size = c.base + h.heapUsage := h₂
  generalize hm0 : setFlags c b.addr (chunkFlags c b.addr h.mem - chunkFlags c b.addr h.mem % 2) h.mem = m0
  have hhdr : ∀ d ∈ pre, hdr c d.addr m0 = hdr c d.addr h.mem := by
    intro d hd
    have hdb := hr.addr_ne (d := d) (by simpa using hd)
    rw [← hm0, hdr_setFlags_of hA hSb ⟨d, by simp [hd], rfl⟩ (by omega), if_neg hdb]
  have hsz : chunkSizeOf c b.addr m0 = b.size := by
    rw [← hm0, chunkSizeOf_hdr, hdr_setFlags (by omega)]
    exact (hr.ok b hbm).size
  have hkeep : KeepsData c (pre ++ [b]) h.mem m0 := by
    rw [← hm0]; exact hr.keepsData hbm (setFlags_same c b.addr _ h.mem)
  have he : freeChunk c b.addr h = { h with mem := m0, heapUsage := h.heapUsage - (c.chunkSize + b.size) } := by
    unfold freeChunk
    dsimp only
    rw [hm0, if_pos ((isLast_iff hr hsz).2 rfl), hsz]
  have hble := h₁.le
  rw [he]
  have hfl : ∀ y ∈ fl, ∃ d ∈ pre, d.addr = y := by
    intro y hy
    have hyb : y ≠ b.addr := by rintro rfl; exact hb (hbfl.1 hy)
    obtain ⟨d, hd, _, hda⟩ := (hofl y hyb).1 hy
    exact ⟨d, by simpa using hd, hda⟩
  refine ⟨⟨?_, fun d hd => ?_, ?_, ?_, hr.nodup, fun p => ?_⟩, hkeep, ?_⟩
  · show Tiles c c.base pre (c.base + (h.heapUsage - (c.chunkSize + b.size)))
    rw [show c.base + (h.heapUsage - (c.chunkSize + b.size)) = b.addr by omega]
    exact h₁
  · refine (hr.ok d (by simp [hd])).congr ?_ ?_ ?_ <;> rw [hhdr d hd]
  · have := hr.usage
    show h.heapUsage - (c.chunkSize + b.size) ≤ c.arena
    omega
  · refine Links.congr hr.list (fun y hy => ?_) (fun y hy hy0 => ?_)
    · have hy : y ∈ (0 :: fl ++ [0]).dropLast := hy
      rw [List.dropLast_concat] at hy
      by_cases hy0 : y = 0
      · simp [freeNext, hy0]
      · obtain ⟨d, hd, rfl⟩ := hfl y (by simpa [hy0] using hy)
        simp only [freeNext, if_neg hy0]
        rw [chunkNext_hdr, hhdr d hd, chunkNext_hdr]
    · have hyl : y ∈ fl := by
        have hy : y ∈ fl ++ [0] := hy
        simpa [hy0] using hy
      obtain ⟨d, hd, rfl⟩ := hfl y hyl
      show chunkPrev c d.addr m0 = chunkPrev c d.addr h.mem
      rw [chunkPrev_hdr, hhdr d hd, chunkPrev_hdr]
  · by_cases hp : p = b.addr
    · subst hp
      refine ⟨fun hm => absurd (hbfl.1 hm) hb, ?_⟩
      rintro ⟨d, hd, _, hda⟩
      exact absurd hda (hr.addr_ne (by simpa using hd))
    · rw [hofl p hp, List.append_nil]
  · show h.heapUsage - (c.chunkSize + b.size) + (c.chunkSize + b.size) = h.heapUsage
    have := h₁.le
    omega

/-! ## Rewriting headers -/

theorem Rep.rewrite (hr : Rep c h bs fl) {m' : Mem}
    (hmeta : ∀ d ∈ bs, (hdr c d.addr m').size = (hdr c d.addr h.mem).size ∧
      (hdr c d.addr m').flags = (hdr c d.addr h.mem).flags ∧ (hdr c d.addr m').zone = (hdr c d.addr h.mem).zone)
    (hlink : ∀ d ∈ bs, d.addr ∈ fl → (hdr c d.addr m').prev = (hdr c d.addr h.mem).prev ∧
      (hdr c d.addr m').next = (hdr c d.addr h.mem).next) : Rep c { h with mem := m' } bs fl := by
  refine ⟨hr.tiles, fun d hd => ?_, hr.usage, ?_, hr.nodup, hr.free⟩
  · obtain ⟨h₁, h₂, h₃⟩ := hmeta d hd
    exact (hr.ok d hd).congr h₁ h₂ h₃
  · refine Links.congr hr.list (fun y hy => ?_) (fun y hy hy0 => ?_)
    · have hy : y ∈ (0 :: fl ++ [0]).dropLast := hy
      rw [List.dropLast_concat] at hy
      by_cases hy0 : y = 0
      · simp [freeNext, hy0]
      · have hyl : y ∈ fl := by simpa [hy0] using hy
        obtain ⟨d, hd, _, rfl⟩ := hr.mem_free hyl
        simp only [freeNext, if_neg hy0]
        exact (hlink d hd hyl).2
    · have hyl : y ∈ fl := by
        have hy : y ∈ fl ++ [0] := hy
        simpa [hy0] using hy
      obtain ⟨d, hd, _, rfl⟩ := hr.mem_free hyl
      exact (hlink d hd hyl).1

theorem Rep.clearLinks (hr : Rep c h (pre ++ b :: post) fl) (hb : b.st ≠ .free) :
    Rep c { h with mem := setNext c b.addr 0 (setPrev c b.addr 0 h.mem) } (pre ++ b :: post) fl ∧
      KeepsData c (pre ++ b :: post) h.mem (setNext c b.addr 0 (setPrev c b.addr 0 h.mem)) := by
  have hbm : b ∈ pre ++ b :: post := by simp
  have hA := hr.spread
  have hSb : ∃ d ∈ pre ++ b :: post, d.addr = b.addr := ⟨b, hbm, rfl⟩
  have h0 : 0 < c.word := by have := hr.addr_word hbm; omega
  have hhdr : ∀ d ∈ pre ++ b :: post, hdr c d.addr (setNext c b.addr 0 (setPrev c b.addr 0 h.mem)) =
      if d.addr = b.addr then { hdr c d.addr h.mem with prev := 0, next := 0 } else hdr c d.addr h.mem := by
    intro d hd
    have hSd : ∃ d' ∈ pre ++ b :: post, d'.addr = d.addr := ⟨d, hd, rfl⟩
    rw [hdr_setNext_of hA hSb hSd h0, hdr_setPrev_of hA hSb hSd h0]
    split <;> rfl
  refine ⟨hr.rewrite (fun d hd => ?_) (fun d hd hdf => ?_), ?_⟩
  · rw [hhdr d hd]; split <;> exact ⟨rfl, rfl, rfl⟩
  · have hdb : d.addr ≠ b.addr := fun he => hb (hr.free_focus.1.1 (by rw [← he]; exact hdf))
    rw [hhdr d hd, if_neg hdb]; exact ⟨rfl, rfl⟩
  · intro d hd x hx
    have hout := hr.data_out hbm hd hx
    rw [setNext_same c b.addr 0 _ x hout, setPrev_same c b.addr 0 _ x hout]

/-! ## Splitting a chunk -/

section

variable {p q v w : Nat} {m : Mem}

theorem setSize_setFlags (ha : Apart c p q) : setFlags c q w (setSize c p v m) = setSize c p v (setFlags c q w m) :=
  store_comm (by have := c.header; rcases ha with ha | ha <;> omega)

theorem setSize_setPrev (ha : q = p ∨ Apart c p q) :
    setPrev c q w (setSize c p v m) = setSize c p v (setPrev c q w m) :=
  store_comm (by have := c.header; rcases ha with rfl | ha | ha <;> omega)

theorem setSize_setNext (ha : q = p ∨ Apart c p q) :
    setNext c q w (setSize c p v m) = setSize c p v (setNext c q w m) :=
  store_comm (by have := c.header; rcases ha with rfl | ha | ha <;> omega)

theorem hdr_setSize_apart (ha : Apart c p q) : hdr c q (setSize c p v m) = hdr c q m :=
  hdr_of_apart ha (setSize_same c p v m)

theorem freeChunk_setSize (ha : Apart c p q) (hf : h.freeList = 0 ∨ Apart c p h.freeList) :
    freeChunk c q { h with mem := setSize c p v h.mem } =
      { freeChunk c q h with mem := setSize c p v (freeChunk c q h).mem } := by
  have hflags : chunkFlags c q (setSize c p v h.mem) = chunkFlags c q h.mem := by
    rw [chunkFlags_hdr, hdr_setSize_apart ha, chunkFlags_hdr]
  have hsz : ∀ m, chunkSizeOf c q (setSize c p v m) = chunkSizeOf c q m := fun m => by
    rw [chunkSizeOf_hdr, hdr_setSize_apart ha, chunkSizeOf_hdr]
  have hlast : ∀ m, isLastChunk c q { h with mem := setSize c p v m } = isLastChunk c q { h with mem := m } := fun m =>
    decide_eq_decide.2 (by simp only [nextChunk, hsz])
  unfold freeChunk
  simp only [hflags, setSize_setFlags ha, hlast]
  split
  · rw [hsz]
  · rw [setSize_setPrev (Or.inr ha), setSize_setNext (Or.inr ha)]
    by_cases h0 : h.freeList = 0
    · simp only [h0, ne_eq, not_true_eq_false, if_false]
    · simp only [ne_eq, h0, not_false_eq_true, if_true, setSize_setPrev (Or.inr (hf.resolve_left h0))]

end

theorem cut_rep {off : Nat} (hr : Rep c h (pre ++ b :: post) fl) (hb : b.st ≠ .free)
    (hdvd : c.align ∣ off) (hpos : 0 < off) (hlt : off + c.chunkSize < b.size) :
    Rep c { h with mem := setSize c b.addr off (setFlags c (b.addr + c.chunkSize + off) 0
        (setSize c (b.addr + c.chunkSize + off) (b.size - c.chunkSize - off) h.mem)) }
      (pre ++ { b with size := off } :: ⟨b.addr + c.chunkSize + off, b.size - c.chunkSize - off, .detached⟩ :: post) fl ∧
    KeepsData c (pre ++ { b with size := off } :: post) h.mem
      (setSize c b.addr off (setFlags c (b.addr + c.chunkSize + off) 0
        (setSize c (b.addr + c.chunkSize + off) (b.size - c.chunkSize - off) h.mem))) := by
  have hbm : b ∈ pre ++ b :: post := by simp
  obtain ⟨h₁, h₂⟩ := hr.tiles.around
  have hS := c.chunkSize_pos
  have hbw := hr.addr_bounds hbm
  have hword := c.address_space
  have hbok := hr.ok b hbm
  generalize hq : b.addr + c.chunkSize + off = q
  generalize hrem : b.size - c.chunkSize - off = rem
  have haq : Apart c b.addr q := Or.inl (by omega)
  have hremw : rem < c.word := by have := c.arena_word; omega
  have hoffw : off < c.word := by have := c.arena_word; omega
  generalize hm' : setSize c b.addr off (setFlags c q 0 (setSize c q rem h.mem)) = m'
  have hhq : hdr c q m' = { hdr c q h.mem with size := rem, flags := 0 } := by
    rw [← hm', hdr_setSize_apart haq, hdr_setFlags (by omega), hdr_setSize hremw]
  have hhb : hdr c b.addr m' = { hdr c b.addr h.mem with size := off } := by
    rw [← hm', hdr_setSize hoffw, hdr_of_apart haq.symm (setFlags_same c q 0 _),
      hdr_of_apart haq.symm (setSize_same c q rem _)]
  have hout : ∀ d ∈ pre ++ post, Apart c b.addr d.addr ∧ Apart c q d.addr := by
    intro d hd
    rcases List.mem_append.1 hd with hd | hd
    · have := h₁.mem d hd; exact ⟨Or.inr (by omega), Or.inr (by omega)⟩
    · have := h₂.mem d hd; exact ⟨Or.inl (by omega), Or.inl (by omega)⟩
  have hho : ∀ d ∈ pre ++ post, hdr c d.addr m' = hdr c d.addr h.mem := by
    intro d hd
    obtain ⟨ha, ha'⟩ := hout d hd
    rw [← hm', hdr_of_apart ha (setSize_same c _ _ _), hdr_of_apart ha' (setFlags_same c _ _ _),
      hdr_of_apart ha' (setSize_same c _ _ _)]
  have hmo : ∀ d ∈ pre ++ post, d ∈ pre ++ b :: post := by
    intro d hd
    rcases List.mem_append.1 hd with hd | hd <;> simp [hd]
  have hbnf : b.addr ∉ fl := fun hm => hb (hr.free_focus.1.1 hm)
  have hfl : ∀ y ∈ fl, ∃ d ∈ pre ++ post, d.st = .free ∧ d.addr = y := fun y hy =>
    (hr.free_focus.2 y (by rintro rfl; exact hbnf hy)).1 hy
  refine ⟨⟨?_, ?_, hr.usage, ?_, hr.nodup, ?_⟩, ?_⟩
  · refine Tiles.build h₁ ⟨hq.symm, ?_⟩
    rw [show b.addr + c.chunkSize + off + c.chunkSize + rem = b.addr + c.chunkSize + b.size by omega]
    exact h₂
  · have hother : ∀ d ∈ pre ++ post, d.Ok c m' := fun d hd => by
      refine (hr.ok d (hmo d hd)).congr ?_ ?_ ?_ <;> rw [hho d hd]
    intro d hd
    rcases List.mem_append.1 hd with hd | hd
    · exact hother d (List.mem_append_left _ hd)
    rcases List.mem_cons.1 hd with rfl | hd
    · refine ⟨?_, hdvd, hpos, fun z hst => ?_, fun hst => absurd hst hb⟩
      · show chunkSizeOf c b.addr m' = off
        rw [chunkSizeOf_hdr, hhb]
      · obtain ⟨hu₁, hu₂, hu₃⟩ := hbok.used z hst
        refine ⟨?_, ?_, hu₃⟩
        · show chunkAllocated c b.addr m' = true
          rw [chunkAllocated_hdr, hhb]; exact hu₁
        · show chunkZone c b.addr m' = z
          rw [chunkZone_hdr, hhb]; exact hu₂
    rcases List.mem_cons.1 hd with rfl | hd
    · refine ⟨?_, ?_, ?_, by rintro _ ⟨⟩, by rintro ⟨⟩⟩
      · show chunkSizeOf c q m' = rem
        rw [chunkSizeOf_hdr, hhq]
      · show c.align ∣ rem
        rw [← hrem]
        exact Nat.dvd_sub (Nat.dvd_sub hbok.aligned c.chunk_aligned) hdvd
      · show 0 < rem
        omega
    · exact hother d (List.mem_append_right _ hd)
  · have hlink : ∀ y ∈ fl, hdr c y m' = hdr c y h.mem := by
      intro y hy
      obtain ⟨d, hd, _, rfl⟩ := hfl y hy
      exact hho d hd
    refine Links.congr hr.list (fun y hy => ?_) (fun y hy hy0 => ?_)
    · have hy : y ∈ (0 :: fl ++ [0]).dropLast := hy
      rw [List.dropLast_concat] at hy
      by_cases hy0 : y = 0
      · simp [freeNext, hy0]
      · have hyl : y ∈ fl := by simpa [hy0] using hy
        simp only [freeNext, if_neg hy0]
        rw [chunkNext_hdr, hlink y hyl, chunkNext_hdr]
    · have hyl : y ∈ fl := by
        have hy : y ∈ fl ++ [0] := hy
        simpa [hy0] using hy
      show chunkPrev c y m' = chunkPrev c y h.mem
      rw [chunkPrev_hdr, hlink y hyl, chunkPrev_hdr]
  · intro y
    constructor
    · intro hy
      obtain ⟨d, hd, hf, hda⟩ := hfl y hy
      refine ⟨d, ?_, hf, hda⟩
      rcases List.mem_append.1 hd with hd | hd <;> simp [hd]
    · rintro ⟨d, hd, hf, rfl⟩
      have hd' : d ∈ pre ++ post := by
        rcases List.mem_append.1 hd with hd | hd
        · exact List.mem_append_left _ hd
        rcases List.mem_cons.1 hd with rfl | hd
        · exact absurd hf hb
        rcases List.mem_cons.1 hd with rfl | hd
        · cases hf
        · exact List.mem_append_right _ hd
      exact (hr.free_focus.2 d.addr (hr.addr_ne hd')).2 ⟨d, hd', hf, rfl⟩
  · intro d hd x hx
    have hx' : (x < b.addr ∨ b.addr + c.chunkSize ≤ x) ∧ (x < q ∨ q + c.chunkSize ≤ x) := by
      obtain ⟨hx₁, hx₂⟩ := hx
      rcases List.mem_append.1 hd with hd | hd
      · have := h₁.mem d hd; omega
      rcases List.mem_cons.1 hd with rfl | hd
      · dsimp only at hx₁ hx₂; omega
      · have := h₂.mem d hd; omega
    rw [← hm', setSize_same c b.addr off _ x hx'.1, setFlags_same c q 0 _ x hx'.2, setSize_same c q rem _ x hx'.2]

/-- What `split_chunk` does to a chunk that is large enough: the cut, the release of the rest, and the
links of the chunk. -/
theorem splitChunk_eq {off : Nat} (hr : Rep c h (pre ++ b :: post) fl) (hb : b.st ≠ .free)
    (hdvd : c.align ∣ off) (hpos : 0 < off) (hlt : off + c.chunkSize < b.size) :
    ∃ h', h' = freeChunk c (b.addr + c.chunkSize + off) { h with
        mem := setSize c b.addr off (setFlags c (b.addr + c.chunkSize + off) 0
          (setSize c (b.addr + c.chunkSize + off) (b.size - c.chunkSize - off) h.mem)) } ∧
      splitChunk c b.addr off h = { h' with mem := setNext c b.addr 0 (setPrev c b.addr 0 h'.mem) } := by
  have hbm : b ∈ pre ++ b :: post := by simp
  have hS := c.chunkSize_pos
  have hsz : chunkSizeOf c b.addr h.mem = b.size := (hr.ok b hbm).size
  have haq : Apart c b.addr (b.addr + c.chunkSize + off) := Or.inl (by omega)
  have hfl : h.freeList = 0 ∨ Apart c b.addr h.freeList := by
    have hm := hr.freeNext_mem (q := 0) (Or.inl rfl)
    simp only [freeNext, if_true] at hm
    rcases hm with hm | hm
    · exact Or.inl hm
    · obtain ⟨d, hd, hf, hda⟩ := hr.mem_free hm
      have hne : b.addr ≠ d.addr := fun he => hb (by rw [hr.eq_of_addr hbm hd he]; exact hf)
      rw [← hda]
      exact Or.inr (hr.apart hbm hd hne)
  refine ⟨_, rfl, ?_⟩
  unfold splitChunk
  dsimp only
  rw [c.alignUp_of_dvd hdvd, hsz, if_pos hlt]
  simp only [getPtr]
  generalize setFlags c (b.addr + c.chunkSize + off) 0
    (setSize c (b.addr + c.chunkSize + off) (b.size - c.chunkSize - off) h.mem) = m
  rw [freeChunk_setSize (h := { h with mem := m }) haq hfl]

theorem split_rep {off : Nat} (hr : Rep c h (pre ++ b :: post) fl) (hb : b.st ≠ .free)
    (hdvd : c.align ∣ off) (hpos : 0 < off) (hlt : off + c.chunkSize < b.size) :
    ∃ rest fl', (rest = post ∨ ∃ r : Blk, r.st = .free ∧ rest = r :: post) ∧
      Rep c (splitChunk c b.addr off h) (pre ++ { b with size := off } :: rest) fl' ∧
      KeepsData c (pre ++ { b with size := off } :: post) h.mem (splitChunk c b.addr off h).mem ∧
      (splitChunk c b.addr off h).zones = h.zones := by
  obtain ⟨h', hh', he⟩ := splitChunk_eq hr hb hdvd hpos hlt
  obtain ⟨hcut, hkeep⟩ := cut_rep hr hb hdvd hpos hlt
  rw [he]
  generalize hm : setSize c b.addr off (setFlags c (b.addr + c.chunkSize + off) 0
    (setSize c (b.addr + c.chunkSize + off) (b.size - c.chunkSize - off) h.mem)) = m at hh' hcut hkeep
  generalize hd : (⟨b.addr + c.chunkSize + off, b.size - c.chunkSize - off, .detached⟩ : Blk) = d at hcut
  have hda : b.addr + c.chunkSize + off = d.addr := by rw [← hd]
  have hdst : d.st ≠ .free := by rw [← hd]; simp
  rw [hda] at hh'
  have hfocus : pre ++ { b with size := off } :: d :: post = (pre ++ [{ b with size := off }]) ++ d :: post := by simp
  rw [hfocus] at hcut
  by_cases hpost : post = []
  · subst hpost
    obtain ⟨hrep, hk, -⟩ := free_last_rep hcut hdst
    rw [← hh'] at hrep hk
    obtain ⟨hclear, hkc⟩ := @Rep.clearLinks _ _ _ ([]) _ ({ b with size := off }) hrep hb
    refine ⟨[], fl, Or.inl rfl, hclear, ?_, by rw [hh', freeChunk_zones]⟩
    refine (hkeep.trans (hk.mono ?_)).trans hkc
    intro x hx; simp only [List.mem_append] at hx ⊢; tauto
  · obtain ⟨hrep, hk, -⟩ := free_rep hcut hpost hdst
    rw [← hh'] at hrep hk
    rw [List.append_assoc] at hrep
    obtain ⟨hclear, hkc⟩ := Rep.clearLinks (b := { b with size := off }) hrep hb
    refine ⟨_, _, Or.inr ⟨{ d with st := .free }, rfl, rfl⟩, hclear, ?_, by rw [hh', freeChunk_zones]⟩
    refine (hkeep.trans (hk.mono ?_)).trans (hkc.mono ?_)
    · intro x hx; simp only [List.mem_append, List.mem_cons] at hx ⊢; tauto
    · intro x hx; simp only [List.mem_append, List.mem_cons] at hx ⊢; tauto

end Contiki.Heapmem
