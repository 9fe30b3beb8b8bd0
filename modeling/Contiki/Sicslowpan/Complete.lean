/-
N-fragments and the packets they complete: a fragment that fits adds its block to its context, a
context whose lengths add up to its size has every byte, and `copy_frags2uip` puts each where it
belongs.
-/
import Contiki.Sicslowpan.Reassembly
import Contiki.Sicslowpan.RoundTrip

namespace Contiki.Sicslowpan

open Contiki.Lib

section

variable {rc : ReassConfig} {history : List Frame} {opened : Nat → Nat} {s s' : Node} {i j : Nat} {f g : Frame}
  {h : Uncompressed} {o : Nat}

/-! ## Storing a fragment -/

theorem storeFragment_spec {offset len : Nat} (hs : storeFragment rc s f i offset = some (s', len)) :
    ∃ j < rc.buffers, (s.fragBuf j).len = 0 ∧ len = f.pb.datalen - fragnHdrLen ∧ 0 < len ∧
      s' = { s with fragBuf :=
        Function.update s.fragBuf j ⟨i, offset, len, fun k => f.pb.byte (fragnHdrLen + k)⟩ } := by
  unfold storeFragment at hs
  dsimp only at hs
  split at hs
  case isTrue => cases hs
  case isFalse hlen =>
    cases hfind : (List.range rc.buffers).find? fun j => decide ((s.fragBuf j).len = 0) with
    | none =>
      rw [hfind] at hs
      cases hs
    | some j =>
      rw [hfind] at hs
      cases hs
      have hj := List.mem_of_find?_eq_some hfind
      have hz := List.find?_some hfind
      exact ⟨j, List.mem_range.1 hj, by simpa using hz, rfl, by omega, rfl⟩

theorem findContext_spec (hi : findContext rc s f = some i) :
    (s.fragInfo i).tag = f.fragTag ∧ 0 < (s.fragInfo i).len ∧ (s.fragInfo i).sender = f.sender := by
  simpa using List.find?_some hi

def addLen (s : Node) (i len : Nat) : Node :=
  setInfo s i { s.fragInfo i with reassembledLen := ((s.fragInfo i).reassembledLen + len) % 65536 }

theorem addFragment_fragn {expired : Nat → Bool} {offset : Nat} (hn : NodeOk rc history opened s) (ho : offset ≠ 0) :
    (∃ s', addFragment rc expired s f offset = (s', none) ∧ NodeOk rc history opened s') ∨
    ∃ i s₁ s₂ len, findContext rc s f = some i ∧ NodeOk rc history opened s₁ ∧ SameContext rc i s s₁ ∧
      storeFragment rc s₁ f i offset = some (s₂, len) ∧
      addFragment rc expired s f offset = (addLen s₂ i len, some i) := by
  unfold addFragment
  rw [if_neg ho]
  cases hc : findContext rc s f with
  | none => exact .inl ⟨s, rfl, hn⟩
  | some i =>
    dsimp only
    cases hst : storeFragment rc s f i offset with
    | some r => exact .inr ⟨i, s, r.1, r.2, rfl, hn, .refl rc i s, hst, rfl⟩
    | none =>
      obtain ⟨ht, hsame⟩ := @timeout_ok _ _ _ _ expired hn i
      dsimp only
      split
      · cases hst' : storeFragment rc (timeoutFragments rc expired s i).1 f i offset with
        | some r => exact .inr ⟨i, _, r.1, r.2, rfl, ht, hsame, hst', rfl⟩
        | none => exact .inl ⟨_, rfl, ht⟩
      · exact .inl ⟨_, rfl, ht⟩

theorem store_belongs (hj : j < rc.buffers) (hfree : (s.fragBuf j).len = 0) {b : FragBuf} (hb : b.index = i)
    (hlen : 0 < b.len) (k l : Nat) :
    Belongs rc { s with fragBuf := Function.update s.fragBuf j b } k l ↔ Belongs rc s k l ∨ (k = i ∧ l = j) := by
  by_cases hl : l = j
  · subst hl
    unfold Belongs
    simp only [Function.update_self]
    constructor
    · rintro ⟨-, -, hk⟩
      exact .inr ⟨hk.symm.trans hb, trivial⟩
    · rintro (⟨-, hpos, -⟩ | ⟨rfl, -⟩)
      · omega
      · exact ⟨hj, hlen, hb⟩
  · unfold Belongs
    simp only [Function.update_of_ne hl]
    constructor
    · exact .inl
    · rintro (hbel | ⟨-, hlj⟩)
      · exact hbel
      · exact absurd hlj hl

theorem fragSize_lt (f : Frame) : f.fragSize < 2048 := Nat.mod_lt _ (by omega)

theorem FragnFits.same (hf : FragnFits rc s i f) (hs : SameContext rc i s s') : FragnFits rc s' i f := by
  refine ⟨by rw [hs.info]; exact hf.size, by rw [hs.info]; exact hf.behind, by rw [hs.info]; exact hf.inside,
    fun j hj => ?_⟩
  have hj' := (hs.belongs j).1 hj
  unfold block
  rw [hs.buf j hj']
  exact hf.apart j hj'

theorem store_ok (hc : ContextOk rc history o s i f h) (hfit : FragnFits rc s i g) {k : Nat} (hk : o < k)
    (hg : history[k]? = some g) (hsame : SamePacket f g) {len : Nat}
    (hst : storeFragment rc s g i g.fragOffset = some (s', len)) :
    ContextOk rc history o (addLen s' i len) i f h ∧ ∀ l, l ≠ i → SameContext rc l s (addLen s' i len) := by
  obtain ⟨j, hj, hfree, hlen, hpos, rfl⟩ := storeFragment_spec hst
  generalize hbd : (⟨i, g.fragOffset, len, fun k => g.pb.byte (fragnHdrLen + k)⟩ : FragBuf) = b at *
  have hbi : b.index = i := by rw [← hbd]
  have hbl : b.len = len := by rw [← hbd]
  have hbo : b.offset = g.fragOffset := by rw [← hbd]
  have hbblock : (b.offset * 8, b.len) = g.fragnBlock := by rw [hbo, hbl, hlen]; rfl
  have hbel := @store_belongs rc s _ _ hj hfree _ hbi (by omega)
  have hnotin : j ∉ slots rc s i := by
    rw [mem_slots]
    rintro ⟨-, h0, -⟩
    omega
  have hslots : slots rc (addLen { s with fragBuf := Function.update s.fragBuf j b } i len) i =
      insert j (slots rc s i) := by
    ext l
    rw [Finset.mem_insert, mem_slots, mem_slots]
    refine (hbel i l).trans ?_
    constructor
    · rintro (hl | ⟨-, rfl⟩)
      · exact .inr hl
      · exact .inl rfl
    · rintro (rfl | hl)
      · exact .inr ⟨rfl, rfl⟩
      · exact .inl hl
  have hbuf : ∀ l, (addLen { s with fragBuf := Function.update s.fragBuf j b } i len).fragBuf l =
      if l = j then b else s.fragBuf l := by
    intro l
    show Function.update s.fragBuf j b l = _
    by_cases hl : l = j
    · subst hl
      simp
    · simp [hl]
  have hblock : ∀ l ∈ slots rc s i, block (addLen { s with fragBuf := Function.update s.fragBuf j b } i len) l =
      block s l := by
    intro l hl
    have hlj : l ≠ j := fun he => hnotin (he ▸ hl)
    unfold block
    rw [hbuf, if_neg hlj]
  have hblockj : block (addLen { s with fragBuf := Function.update s.fragBuf j b } i len) j = g.fragnBlock := by
    unfold block
    rw [hbuf, if_pos rfl, hbblock]
  have hins := hfit.inside
  have hbeh := hfit.behind
  rw [hc.firstLen] at hbeh
  rw [hc.len] at hins
  have hsum : ∑ l ∈ insert j (slots rc s i), (block (addLen { s with fragBuf := Function.update s.fragBuf j b } i len) l).2 =
      len + ∑ l ∈ slots rc s i, (block s l).2 := by
    rw [Finset.sum_insert hnotin, hblockj, Finset.sum_congr rfl fun l hl => congrArg Prod.snd (hblock l hl), hlen]
    rfl
  have hinside : ∀ l ∈ insert j (slots rc s i),
      frag1Len f h ≤ (block (addLen { s with fragBuf := Function.update s.fragBuf j b } i len) l).1 ∧
      (block (addLen { s with fragBuf := Function.update s.fragBuf j b } i len) l).1 +
        (block (addLen { s with fragBuf := Function.update s.fragBuf j b } i len) l).2 ≤ f.fragSize := by
    intro l hl
    rcases Finset.mem_insert.1 hl with rfl | hl
    · rw [hblockj]
      exact ⟨hbeh, hins⟩
    · rw [hblock l hl]
      exact hc.inside l hl
  have hapart : ∀ l ∈ insert j (slots rc s i), ∀ k ∈ insert j (slots rc s i), l ≠ k →
      Apart (block (addLen { s with fragBuf := Function.update s.fragBuf j b } i len) l)
        (block (addLen { s with fragBuf := Function.update s.fragBuf j b } i len) k) := by
    intro l hl k hk hlk
    rcases Finset.mem_insert.1 hl with hlj | hl' <;> rcases Finset.mem_insert.1 hk with hkj | hk'
    · exact absurd (hlj.trans hkj.symm) hlk
    · rw [hlj, hblockj, hblock k hk']
      exact hfit.apart k (mem_slots.1 hk')
    · rw [hkj, hblockj, hblock l hl']
      exact (hfit.apart l (mem_slots.1 hl')).symm
    · rw [hblock l hl', hblock k hk']
      exact hc.apart l hl' k hk' hlk
  refine ⟨?_, fun l hl => ?_⟩
  · constructor
    case at_o => exact hc.at_o
    case first => exact hc.first
    case header => exact hc.header
    case len => simpa [addLen] using hc.len
    case tag => simpa [addLen] using hc.tag
    case sender => simpa [addLen] using hc.sender
    case firstLen => simpa [addLen] using hc.firstLen
    case room => exact hc.room
    case bytes => simpa [addLen] using hc.bytes
    case stored =>
      rw [hslots]
      intro l hl
      rw [hbuf]
      rcases Finset.mem_insert.1 hl with hlj | hl'
      · rw [if_pos hlj]
        exact ⟨k, g, hk, hg, hsame, hbblock.symm, fun y _ => by rw [← hbd]⟩
      · rw [if_neg fun he : l = j => hnotin (he ▸ hl')]
        exact hc.stored l hl'
    case inside =>
      rw [hslots]
      exact hinside
    case apart =>
      rw [hslots]
      exact hapart
    case sum =>
      -- the blocks lie in the packet, so the counter does not wrap
      have hle := sum_le_of_apart hinside hapart
      have hroom := hc.room
      have hsize := fragSize_lt f
      have hfs := rc.fragmentSize_le
      rw [hslots, hsum]
      rw [hsum] at hle
      simp only [addLen, setInfo_info, hc.sum]
      unfold ReassConfig.firstFragmentSize at hroom
      omega
  · refine ⟨by simp [addLen, setInfo, hl], fun q => ?_, fun q hq => ?_⟩
    · refine (hbel l q).trans (or_iff_left ?_)
      rintro ⟨hli, -⟩
      exact hl hli
    · rw [hbuf, if_neg]
      rintro rfl
      exact absurd hq.2.1 (by omega)

/-! ## Copying a packet out -/

theorem copyBufs_spec {context : Nat} : ∀ {js : List Nat} {uip uip' : Mem},
    copyBufs rc s context js uip = .ok uip' → js.Nodup → (∀ j ∈ js, j < rc.buffers) →
    (∀ j ∈ js, ∀ k ∈ js, j ≠ k → Belongs rc s context j → Belongs rc s context k → Apart (block s j) (block s k)) →
    (∀ x, (∀ j ∈ js, Belongs rc s context j → ¬ ((block s j).1 ≤ x ∧ x < (block s j).1 + (block s j).2)) →
      uip' x = uip x) ∧
    ∀ j ∈ js, Belongs rc s context j → ∀ x, (block s j).1 ≤ x → x < (block s j).1 + (block s j).2 →
      uip' x = (s.fragBuf j).data (x - (block s j).1)
  | [], uip, uip', hc, _, _, _ => by
    cases hc
    exact ⟨fun _ _ => rfl, by simp⟩
  | j :: js, uip, uip', hc, hnd, hlt, hap => by
    rw [List.nodup_cons] at hnd
    have hap' : ∀ k ∈ js, ∀ l ∈ js, k ≠ l → Belongs rc s context k → Belongs rc s context l →
        Apart (block s k) (block s l) :=
      fun k hk l hl => hap k (List.mem_cons_of_mem _ hk) l (List.mem_cons_of_mem _ hl)
    have hlt' : ∀ k ∈ js, k < rc.buffers := fun k hk => hlt k (List.mem_cons_of_mem _ hk)
    rw [copyBufs] at hc
    by_cases hj : 0 < (s.fragBuf j).len ∧ (s.fragBuf j).index = context
    · have hbel : Belongs rc s context j := ⟨hlt j (by simp), hj⟩
      rw [if_pos hj] at hc
      split at hc
      case isTrue => cases hc
      case isFalse =>
        obtain ⟨h1, h2⟩ := copyBufs_spec hc hnd.2 hlt' hap'
        constructor
        · intro x hx
          rw [h1 x fun k hk => hx k (List.mem_cons_of_mem _ hk)]
          have := hx j (by simp) hbel
          unfold block at this
          exact Mem.paste_of_out (by simp only at this; omega)
        · intro k hk hbk x hx1 hx2
          rcases List.mem_cons.1 hk with rfl | hk
          · -- later blocks do not touch it
            rw [h1 x ?_]
            · unfold block at hx1 hx2
              rw [Mem.paste_in hx1 hx2]
              rfl
            · intro l hl hbl hin
              have hne : k ≠ l := fun he => hnd.1 (he ▸ hl)
              have := hap k (by simp) l (List.mem_cons_of_mem _ hl) hne hbk hbl
              unfold Apart at this
              omega
          · exact h2 k hk hbk x hx1 hx2
    · have hbel : ¬ Belongs rc s context j := fun hb => hj hb.2
      rw [if_neg hj] at hc
      obtain ⟨h1, h2⟩ := copyBufs_spec hc hnd.2 hlt' hap'
      constructor
      · exact fun x hx => h1 x fun k hk => hx k (List.mem_cons_of_mem _ hk)
      · intro k hk hbk
        rcases List.mem_cons.1 hk with rfl | hk
        · exact absurd hbk hbel
        · exact h2 k hk hbk

theorem copyBufs_setInfo (s : Node) (i : Nat) (v : FragInfo) (context : Nat) : ∀ (js : List Nat) (uip : Mem),
    copyBufs rc (setInfo s i v) context js uip = copyBufs rc s context js uip
  | [], _ => rfl
  | j :: js, uip => by
    rw [copyBufs, copyBufs, copyBufs_setInfo s i v context js, copyBufs_setInfo s i v context js]
    rfl

/-- `input` sets the counter before the copy. -/
def setCounter (s : Node) (i v : Nat) : Node := setInfo s i { s.fragInfo i with reassembledLen := v }

/-- A context whose lengths reach its size is copied out completely. -/
theorem copyFrags_complete (hc : ContextOk rc history o s i f h) {v : Nat}
    (hfull : f.fragSize ≤ frag1Len f h + ∑ j ∈ slots rc s i, (block s j).2)
    (hcopy : copyFrags2uip rc (setCounter s i v) i = (s', true)) :
    Complete rc history ⟨⟨f.fragSize, s'.uip, some i⟩, o, history.length⟩ := by
  unfold copyFrags2uip setCounter at hcopy
  simp only [setInfo_info, copyBufs_setInfo] at hcopy
  rw [hc.len, hc.firstLen] at hcopy
  split at hcopy
  case isTrue => cases hcopy
  case isFalse hsize =>
    split at hcopy
    case h_1 => cases hcopy
    case h_2 uip huip =>
      cases hcopy
      obtain ⟨hout, hin⟩ := copyBufs_spec huip List.nodup_range (fun j hj => List.mem_range.1 hj)
        fun j _ k _ hjk hbj hbk => hc.apart j (mem_slots.2 hbj) k (mem_slots.2 hbk) hjk
      refine ⟨f, hc.at_o, hc.first, rfl, by simp only; omega, fun x hx => ?_⟩
      by_cases hfirst : x < frag1Len f h
      · -- the buffers lie behind the first fragment
        refine .inl ⟨h, hc.header, hfirst, ?_⟩
        show uip x = _
        rw [hout x fun j _ hb hin => ?_]
        · rw [Mem.fill_of_out (.inl hfirst), Mem.paste_in (by omega) (by omega)]
          exact hc.bytes x hfirst
        · have := (hc.inside j (mem_slots.2 hb)).1
          omega
      · obtain ⟨j, hj, h1, h2⟩ := cover_of_sum hc.inside hc.apart hfull (by omega) hx
        have hb := mem_slots.1 hj
        obtain ⟨k, g, hk, hg, hsame, hblk, hdata⟩ := hc.stored j hj
        have hblk' : g.fragnBlock = block s j := hblk
        refine .inr ⟨k, g, hk, (List.getElem?_eq_some_iff.1 hg).1, hg, hsame, by rw [hblk']; exact h1,
          by rw [hblk']; exact h2, ?_⟩
        show uip x = _
        rw [hin j (List.mem_range.2 hb.1) hb x h1 h2, hblk']
        exact hdata _ (by unfold block at h1 h2 ⊢; simp only at h1 h2 ⊢; omega)

theorem copyFrags_clear (rc : ReassConfig) (s : Node) (i : Nat) :
    ∃ uip, (copyFrags2uip rc s i).1 = (clearFragments rc { s with uip := uip } i).1 := by
  unfold copyFrags2uip
  dsimp only
  split
  · exact ⟨s.uip, rfl⟩
  · split
    case h_1 uip _ => exact ⟨uip, rfl⟩
    case h_2 uip _ => exact ⟨uip, rfl⟩

/-! ## Input -/

theorem cleared_ok {s₁ : Node} (hn : NodeOk rc history opened s) (hsame : ∀ l, l ≠ i → SameContext rc l s s₁) :
    NodeOk rc history opened (clearFragments rc s₁ i).1 := by
  refine hn.replace (fun l hl => (hsame l hl).trans (clear_same s₁ hl)) (fun _ _ => rfl) (fun j hj => ?_) fun hpos => ?_
  · exact absurd rfl ((clear_belongs s₁ i i j).1 hj).2
  · rw [clear_len] at hpos
    cases hpos

theorem inputFragn_ok {expired : Nat → Bool} (hn : NodeOk rc history opened s) (ho : f.fragOffset ≠ 0)
    (hlt : ∀ i, 0 < (s.fragInfo i).len → opened i < history.length) (hdisp : f.dispatch = dispatchFragn)
    (hfit : ∀ i, findContext rc s f = some i → FragnFits rc s i f) :
    NodeOk rc (history ++ [f]) opened (inputFragn rc expired s f).1 ∧
      ∀ p, (inputFragn rc expired s f).2 = some p → ∃ i, p.context = some i ∧
        Complete rc (history ++ [f]) ⟨p, opened i, history.length + 1⟩ := by
  have hn' := hn.append f
  unfold inputFragn
  rcases @addFragment_fragn _ _ _ _ f expired _ hn' ho with
    ⟨s', he, hok⟩ | ⟨i, s₁, s₂, len, hfind, hn₁, hsame, hst, he⟩
  · rw [he]
    exact ⟨hok, by simp⟩
  · rw [he]
    obtain ⟨htag, hpos, hsender⟩ := findContext_spec hfind
    have hfits := (hfit i hfind).same hsame
    obtain ⟨f₀, h, hc⟩ := hn₁.context i (by rw [hsame.info]; exact hpos)
    have hpacket : SamePacket f₀ f := by
      refine ⟨hdisp, ?_, ?_⟩
      · rw [← hsender, ← hsame.info, hc.sender]
      · rw [← htag, ← hsame.info, hc.tag]
    obtain ⟨hc', hother⟩ := store_ok hc hfits (k := history.length) (hlt i hpos) (by simp) hpacket hst
    have hok : NodeOk rc (history ++ [f]) opened (addLen s₂ i len) := by
      refine hn₁.replace hother (fun _ _ => rfl) (fun _ _ => ?_) fun _ => ⟨f₀, h, hc'⟩
      rw [hc'.len, ← hc.len, hsame.info]
      exact hpos
    have hsize : f.fragSize = f₀.fragSize := by rw [hfits.size, hc.len]
    have hsize0 : f.fragSize > 0 := by rw [hsize, ← hc.len, hsame.info]; exact hpos
    obtain ⟨j, -, -, hlen, hlen0, -⟩ := storeFragment_spec hst
    have hlen5 : ¬ f.pb.datalen < fragnHdrLen := by omega
    simp only [hlen5, hsize0, if_false, if_true]
    by_cases hbig : f.fragOffset * 8 + (f.pb.datalen - fragnHdrLen) > rc.bufSize
    · rw [if_pos hbig]
      exact ⟨clear_ok hok i, by simp⟩
    · rw [if_neg hbig]
      by_cases hlast : ((addLen s₂ i len).fragInfo i).reassembledLen ≥ f.fragSize
      · rw [if_pos hlast]
        have hcopy : ∀ r, copyFrags2uip rc (setCounter (addLen s₂ i len) i f.fragSize) i = r →
            NodeOk rc (history ++ [f]) opened r.1 ∧ (r.2 = true →
              Complete rc (history ++ [f]) ⟨⟨f.fragSize, r.1.uip, some i⟩, opened i, history.length + 1⟩) := by
          rintro r rfl
          constructor
          · obtain ⟨uip, hclear⟩ := copyFrags_clear rc (setCounter (addLen s₂ i len) i f.fragSize) i
            rw [hclear]
            exact cleared_ok hok fun l hl => ⟨by simp [setCounter, setInfo, hl], fun _ => Iff.rfl, fun _ _ => rfl⟩
          · intro htrue
            rw [hc'.sum, hsize] at hlast
            have hdone := copyFrags_complete hc' (v := f.fragSize) hlast (Prod.ext rfl htrue)
            rw [List.length_append, List.length_singleton, ← hsize] at hdone
            exact hdone
        obtain ⟨h1, h2⟩ := hcopy _ rfl
        unfold setCounter at h1 h2
        generalize copyFrags2uip rc _ i = r at h1 h2 ⊢
        obtain ⟨s', b⟩ := r
        cases b with
        | false => exact ⟨h1, by simp⟩
        | true =>
          refine ⟨h1, ?_⟩
          rintro p ⟨⟩
          exact ⟨i, rfl, h2 rfl⟩
      · rw [if_neg hlast]
        exact ⟨hok, by simp⟩

theorem inputWhole_ok (hn : NodeOk rc history opened s) : NodeOk rc history opened (inputWhole rc s f).1 ∧
    ∀ p, (inputWhole rc s f).2 = some p → p.context = none := by
  have huip : ∀ uip, NodeOk rc history opened { s with uip := uip } := fun uip =>
    hn.replace (i := 0) (fun l _ => ⟨rfl, fun _ => Iff.rfl, fun _ _ => rfl⟩) (fun _ _ => rfl) (hn.live 0) fun hpos => by
      obtain ⟨f, h, hc⟩ := hn.context 0 hpos
      exact ⟨f, h, hc.same ⟨rfl, fun _ => Iff.rfl, fun _ _ => rfl⟩⟩
  unfold inputWhole
  split
  case h_1 => exact ⟨huip _, by simp⟩
  case h_2 r _ =>
    dsimp only
    split
    · exact ⟨huip _, by simp⟩
    · split
      · exact ⟨clear_ok (huip _) 0, by simp⟩
      · refine ⟨huip _, ?_⟩
        rintro p ⟨⟩
        rfl

end

/-! ## Whole runs -/

section

variable {rc : ReassConfig} {x x' : Sys} {a : Arrival}

theorem SysOk.opened_lt (h : SysOk rc x) {i : Nat} (hi : 0 < (x.node.fragInfo i).len) :
    x.opened i < x.history.length := by
  obtain ⟨f, u, hc⟩ := h.node.context i hi
  exact (List.getElem?_eq_some_iff.1 hc.at_o).1

theorem SysOk.quiet (h : SysOk rc x) {node : Node} {opened : Nat → Nat} {g : Frame}
    (hn : NodeOk rc (x.history ++ [g]) opened node) : SysOk rc ⟨node, x.history ++ [g], opened, x.out⟩ :=
  ⟨hn, fun r hr => (h.out r hr).append g⟩

theorem receive_ok (h : SysOk rc x) (hfits : Fits rc x a) (hstep : x.receive rc a = some x') : SysOk rc x' := by
  unfold Sys.receive at hstep
  simp only [Option.some.injEq] at hstep
  subst hstep
  unfold Fits at hfits
  unfold Sys.openedAt opens input
  by_cases h0 : a.frame.pb.datalen = 0
  · simp only [h0, if_true, ne_eq, not_true_eq_false, false_and, if_false]
    exact h.quiet (h.node.append a.frame)
  · rw [if_neg h0] at hfits
    simp only [h0, if_false, ne_eq, not_false_eq_true, true_and]
    by_cases h1 : a.frame.dispatch = dispatchFrag1
    · -- a first fragment
      have hop : opens rc x.node a = (addFirst rc a.expired x.node a.frame).2 := by simp [opens, h0, h1]
      rw [if_pos h1, hop] at hfits
      simp only [h1, if_true, true_or]
      refine h.quiet (inputFrag1_ok (h.node.append a.frame) h1 (fun k hk => ?_) (fun k hk => ?_) hfits)
      · cases hadd : (addFirst rc a.expired x.node a.frame).2 with
        | none => rfl
        | some i =>
          rw [hadd] at hk
          exact Function.update_of_ne (by simpa using Ne.symm hk) ..
      · simp [hk]
    · rw [if_neg h1] at hfits
      simp only [h1, if_false, false_or]
      by_cases h2 : a.frame.dispatch = dispatchFragn
      · -- an N-fragment
        rw [if_pos h2] at hfits
        obtain ⟨hop, hfit⟩ := hfits
        simp only [h2, if_true, true_and]
        by_cases ho : a.frame.fragOffset = 0
        · -- with offset 0 it finds no free context and is dropped
          have hnone : (addFirst rc a.expired x.node a.frame).2 = none := by
            simpa [opens, h0, h1, h2, ho] using hop
          have hfree : (findFree rc a.expired x.node).2 = none := by
            unfold addFirst at hnone
            split at hnone
            case h_1 s he => rw [he]
            case h_2 => cases hnone
          have hin : inputFragn rc a.expired x.node a.frame = ((findFree rc a.expired x.node).1, none) := by
            unfold inputFragn addFragment
            rw [if_pos ho, addFirst_none hfree]
          rw [if_pos ho, hnone, hin]
          exact h.quiet (findFree_ok (h.node.append a.frame)).1
        · rw [if_neg ho]
          obtain ⟨hn, hp⟩ := @inputFragn_ok _ _ _ _ _ a.expired h.node ho (fun i hi => h.opened_lt hi) h2 hfit
          cases hr : (inputFragn rc a.expired x.node a.frame).2 with
          | none => exact h.quiet hn
          | some p =>
            obtain ⟨i, hi, hdone⟩ := hp p hr
            simp only [hi]
            refine ⟨hn, fun r hr => ?_⟩
            rcases List.mem_append.1 hr with hr | hr
            · exact (h.out r hr).append a.frame
            · rw [List.mem_singleton.1 hr]
              exact hdone
      · -- no fragmentation header
        simp only [h2, if_false, false_and]
        obtain ⟨hn, hp⟩ := inputWhole_ok (f := a.frame) (h.node.append a.frame)
        cases hr : (inputWhole rc x.node a.frame).2 with
        | none => exact h.quiet hn
        | some p =>
          simp only [hp p hr]
          exact h.quiet hn

/-- In every run whose frames fit, every reassembled packet that is handed on is complete. -/
theorem reassembled_complete (rc : ReassConfig) (as : List Arrival)
    (hfits : AllSteps (Sys.receive rc) (Fits rc) Sys.start as) :
    AllStates (Sys.receive rc) (fun x => ∀ r ∈ x.out, Complete rc x.history r) Sys.start as := by
  have hrun := allStates_of_allSteps (J := fun _ => True) (P := SysOk rc) (C := Fits rc)
    (fun _ _ _ _ _ => trivial) (fun x a x' _ hx hc hs => receive_ok hx hc hs) as _ trivial (start_ok rc) hfits
  exact hrun.mono fun x hx => hx.out

end

/-! ## Runs of two and three frames -/

def plainReass : ReassConfig := ⟨plainConfig, 2, 12, 110, 1280, by decide⟩

/-- A first fragment with an uncompressed header and 8 bytes of a packet of `size` bytes. -/
def plainFrag1 (size : UInt8) : Frame where
  sender := [1]
  receiver := [2]
  pb := ⟨fun i => if i = 0 then 0xc0 else if i = 1 then size else if i = 3 then 7 else if i = 4 then 0x41 else 0, 53⟩

def plainFragn (size : UInt8) : Frame where
  sender := [1]
  receiver := [2]
  pb := ⟨fun i => if i = 0 then 0xe0 else if i = 1 then size else if i = 3 then 7 else if i = 4 then 6 else 0, 13⟩

def noTimer (f : Frame) : Arrival := ⟨fun _ => false, f⟩

def plainHeader (size : UInt8) (buf : Mem) : Uncompressed :=
  ⟨Mem.paste 0 40 (fun i => (plainFrag1 size).pb.byte (5 + i)) buf, 45, 40⟩

theorem plainFrag1_header (size : UInt8) (buf : Mem) (n : Nat) :
    inputHeader plainReass (plainFrag1 size) frag1HdrLen buf n (plainFrag1 size).fragSize =
      .ok (plainHeader size buf) := by
  have hpaging : ¬ (0x41 : UInt8) &&& 0xf0 = 0xf0 := by decide
  have hiphc : ¬ (0x41 : UInt8) &&& 0xe0 = 0x60 := by decide
  simp [inputHeader, plainFrag1, plainHeader, frag1HdrLen, dispatchPaging, dispatchIphcMask, dispatchIphc,
    dispatchIpv6, hpaging, hiphc]

theorem plainFrag1_fits (size : UInt8) : Frag1Fits plainReass (plainFrag1 size) (plainHeader size fun _ => 0) := by
  constructor
  case header => exact plainFrag1_header size _ _
  case determined =>
    intro buf
    refine ⟨_, plainFrag1_header size buf _, rfl, rfl, fun x hx => ?_⟩
    have hx' : x < 0 + 40 := by simpa [plainHeader] using hx
    simp only [plainHeader]
    rw [Mem.paste_in (Nat.zero_le x) hx', Mem.paste_in (Nat.zero_le x) hx']
  case inside => simp [plainHeader, plainFrag1]
  case room =>
    left
    simp [frag1Len, plainHeader, plainFrag1, ReassConfig.firstFragmentSize, plainReass]

theorem plainFrag1_open {x : Sys} (hx : Sys.receive plainReass Sys.start (noTimer (plainFrag1 56)) = some x) :
    findContext plainReass x.node (plainFragn 56) = some 0 ∧ (x.node.fragInfo 0).len = 56 ∧
      (x.node.fragInfo 0).firstFragLen = 48 ∧ ∀ j < 12, (x.node.fragBuf j).len = 0 := by
  have hget : (Sys.receive plainReass Sys.start (noTimer (plainFrag1 56))).map (fun x : Sys =>
      (findContext plainReass x.node (plainFragn 56), (x.node.fragInfo 0).len, (x.node.fragInfo 0).firstFragLen,
        (List.range 12).all fun j => (x.node.fragBuf j).len = 0)) = some (some 0, 56, 48, true) := rfl
  rw [hx] at hget
  simpa using hget

/-- A packet of 56 bytes in two fragments. -/
theorem reassembled_complete_two : AllStates (Sys.receive plainReass)
    (fun x => ∀ r ∈ x.out, Complete plainReass x.history r) Sys.start
    [noTimer (plainFrag1 56), noTimer (plainFragn 56)] := by
  refine reassembled_complete plainReass _ ⟨.inr (.inr ⟨_, plainFrag1_fits 56⟩), fun x hx => ⟨?_, fun y _ => trivial⟩⟩
  obtain ⟨hfind, hlen, hfirst, hbufs⟩ := plainFrag1_open hx
  refine ⟨rfl, fun i hi => ?_⟩
  obtain rfl := Option.some.inj (hi.symm.trans hfind)
  constructor
  case size =>
    rw [hlen]
    rfl
  case behind =>
    rw [hfirst]
    exact le_refl 48
  case inside =>
    rw [hlen]
    exact le_refl 56
  case apart =>
    rintro j ⟨hj, hpos, -⟩
    have := hbufs j hj
    omega

/-- The second half of a packet of 64 bytes is received twice and its last 8 bytes never: the lengths
add up to the size of the packet, and it is handed on with zeros there. -/
theorem reassembled_hole : ¬ ∀ rc as, AllStates (Sys.receive rc)
    (fun x => ∀ r ∈ x.out, Complete rc x.history r) Sys.start as := by
  intro hall
  let as := [noTimer (plainFrag1 64), noTimer (plainFragn 64), noTimer (plainFragn 64)]
  have hout : (exec (Sys.receive plainReass) Sys.start as).map (fun x : Sys =>
      x.out.map fun r => (r.handed.len, r.opened, r.seen)) = some [(64, 0, 3)] := rfl
  have hhist : (exec (Sys.receive plainReass) Sys.start as).map (fun x : Sys => x.history) =
      some [plainFrag1 64, plainFragn 64, plainFragn 64] := rfl
  cases hrun : exec (Sys.receive plainReass) Sys.start as with
  | none => simp [hrun] at hout
  | some x =>
    rw [hrun] at hout hhist
    replace hout : x.out.map (fun r => (r.handed.len, r.opened, r.seen)) = [(64, 0, 3)] := Option.some.inj hout
    replace hhist : x.history = [plainFrag1 64, plainFragn 64, plainFragn 64] := Option.some.inj hhist
    obtain ⟨r, hr, hlen⟩ : ∃ r ∈ x.out, (r.handed.len, r.opened, r.seen) = (64, 0, 3) := by
      have : (64, 0, 3) ∈ x.out.map fun r => (r.handed.len, r.opened, r.seen) := by
        rw [hout]
        exact List.mem_singleton_self _
      exact List.mem_map.1 this
    simp only [Prod.mk.injEq] at hlen
    obtain ⟨f, hf, -, -, -, hbytes⟩ := (hall plainReass as).last hrun r hr
    rw [hhist, hlen.2.1] at hf
    cases hf
    rcases hbytes 60 (by omega) with ⟨h, hh, hx, -⟩ | ⟨k, g, hk, hk', hg, -, hlo, hhi, -⟩
    · have : h = plainHeader 64 fun _ => 0 := Except.ok.inj (hh.symm.trans (plainFrag1_header 64 _ _))
      rw [this] at hx
      exact absurd hx (by decide)
    · -- both later frames are the same second fragment
      have hg' : g = plainFragn 64 := by
        rw [hhist] at hg
        have : k = 1 ∨ k = 2 := by omega
        rcases this with rfl | rfl <;> exact (Option.some.inj hg).symm
      rw [hg'] at hhi
      exact absurd hhi (by decide)

end Contiki.Sicslowpan
