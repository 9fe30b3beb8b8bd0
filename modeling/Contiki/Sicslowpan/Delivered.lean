/-
A fragmented packet at a receiver with free buffers: its first fragment opens a context, every other
fragment finds that context, in whatever order they come, and the last one hands the packet on.
-/
import Contiki.Sicslowpan.Complete
import Contiki.Sicslowpan.Fragmentation

namespace Contiki.Sicslowpan

open Contiki.Lib

section

variable {rc : ReassConfig} {s s' : Node} {i : Nat} {f : Frame} {expired : Nat → Bool}

/-! ## Buffers of closed contexts -/

def Live (rc : ReassConfig) (s : Node) : Prop := ∀ i j, Belongs rc s i j → 0 < (s.fragInfo i).len

structure Shrinks (rc : ReassConfig) (s s' : Node) : Prop where
  info : ∀ k, s'.fragInfo k = s.fragInfo k ∨ (s'.fragInfo k).len = 0
  buf : ∀ j, s'.fragBuf j = s.fragBuf j ∨ (s'.fragBuf j).len = 0
  live : Live rc s → Live rc s'

theorem Shrinks.refl (rc : ReassConfig) (s : Node) : Shrinks rc s s := ⟨fun _ => .inl rfl, fun _ => .inl rfl, id⟩

theorem Shrinks.trans {s'' : Node} (h : Shrinks rc s s') (h' : Shrinks rc s' s'') : Shrinks rc s s'' := by
  refine ⟨fun k => ?_, fun j => ?_, fun hl => h'.live (h.live hl)⟩
  · rcases h'.info k with h1 | h1
    · rw [h1]
      exact h.info k
    · exact .inr h1
  · rcases h'.buf j with h1 | h1
    · rw [h1]
      exact h.buf j
    · exact .inr h1

theorem clear_shrinks (s : Node) (i : Nat) : Shrinks rc s (clearFragments rc s i).1 := by
  constructor
  case info =>
    intro k
    by_cases hk : k = i
    · right
      rw [hk]
      exact clear_len s i
    · exact .inl (@clear_same rc s _ _ hk).info
  case buf =>
    intro j
    unfold clearFragments
    dsimp only
    split
    · exact .inr rfl
    · exact .inl rfl
  case live =>
    intro hl k j hb
    obtain ⟨hb', hk⟩ := (clear_belongs s i k j).1 hb
    rw [(@clear_same rc s _ _ hk).info]
    exact hl k j hb'

theorem timeout_shrinks (s : Node) (i : Nat) : Shrinks rc s (timeoutFragments rc expired s i).1 := by
  have key : ∀ (l : List Nat) (r : Node × Nat), Shrinks rc r.1 (l.foldl (timeoutContext rc expired i) r).1 := by
    intro l
    induction l with
    | nil => exact fun r => .refl rc r.1
    | cons k l ih =>
      intro r
      refine Shrinks.trans ?_ (ih _)
      unfold timeoutContext
      split
      · exact clear_shrinks r.1 k
      · exact .refl rc r.1
  exact key _ (s, 0)

theorem timeout_same (s : Node) (i : Nat) : (timeoutFragments rc expired s i).1.fragInfo i = s.fragInfo i := by
  have key : ∀ (l : List Nat) (r : Node × Nat),
      (l.foldl (timeoutContext rc expired i) r).1.fragInfo i = r.1.fragInfo i := by
    intro l
    induction l with
    | nil => exact fun r => rfl
    | cons k l ih =>
      intro r
      refine (ih _).trans ?_
      unfold timeoutContext
      split
      case isTrue hk => exact (@clear_same rc r.1 _ _ (Ne.symm hk.2.1)).info
      case isFalse => rfl
  exact key _ (s, 0)

theorem findFree_spec (s : Node) : Shrinks rc s (findFree rc expired s).1 ∧
    (∀ i, (findFree rc expired s).2 = some i → i < rc.contexts ∧ ((findFree rc expired s).1.fragInfo i).len = 0) ∧
    ∀ k < rc.contexts, (s.fragInfo k).len = 0 → (findFree rc expired s).2 ≠ none := by
  have key : ∀ (l : List Nat) (r : Node × Option Nat), (∀ i, r.2 = some i → i < rc.contexts ∧ (r.1.fragInfo i).len = 0) →
      (∀ k ∈ l, k < rc.contexts) →
      Shrinks rc r.1 (l.foldl (freeContext rc expired) r).1 ∧
      (∀ i, (l.foldl (freeContext rc expired) r).2 = some i →
        i < rc.contexts ∧ ((l.foldl (freeContext rc expired) r).1.fragInfo i).len = 0) ∧
      (r.2 ≠ none ∨ (∃ k ∈ l, (r.1.fragInfo k).len = 0) → (l.foldl (freeContext rc expired) r).2 ≠ none) := by
    intro l
    induction l with
    | nil =>
      intro r hr _
      refine ⟨.refl rc r.1, hr, ?_⟩
      rintro (h | ⟨k, hk, -⟩)
      · exact h
      · cases hk
    | cons k l ih =>
      intro r hr hl
      generalize hs : (if 0 < (r.1.fragInfo k).len ∧ expired k = true then (clearFragments rc r.1 k).1 else r.1) = s₁
      have hstep : freeContext rc expired r k = (s₁, if r.2 = none ∧ (s₁.fragInfo k).len = 0 then some k else r.2) := by
        unfold freeContext
        dsimp only
        rw [hs]
      have hshr : Shrinks rc r.1 s₁ := by
        rw [← hs]
        split
        · exact clear_shrinks r.1 k
        · exact .refl rc r.1
      have hzero : ∀ m, (r.1.fragInfo m).len = 0 → (s₁.fragInfo m).len = 0 := fun m hm => by
        rcases hshr.info m with h | h
        · rw [h, hm]
        · exact h
      have hr' : ∀ i, (freeContext rc expired r k).2 = some i →
          i < rc.contexts ∧ ((freeContext rc expired r k).1.fragInfo i).len = 0 := by
        rw [hstep]
        intro i hi
        dsimp only at hi ⊢
        split at hi
        case isTrue hfree =>
          cases hi
          exact ⟨hl k List.mem_cons_self, hfree.2⟩
        case isFalse => exact ⟨(hr i hi).1, hzero i (hr i hi).2⟩
      obtain ⟨h1, h2, h3⟩ := ih _ hr' fun m hm => hl m (List.mem_cons_of_mem _ hm)
      refine ⟨Shrinks.trans (by rw [hstep]; exact hshr) h1, h2, fun hsome => h3 ?_⟩
      rw [hstep]
      dsimp only
      by_cases hfree : r.2 = none ∧ (s₁.fragInfo k).len = 0
      · left
        rw [if_pos hfree]
        exact nofun
      · rw [if_neg hfree]
        rcases hsome with h | ⟨m, hm, hm0⟩
        · exact .inl h
        · rcases List.mem_cons.1 hm with rfl | hm
          · exact .inl fun hnone => hfree ⟨hnone, hzero m hm0⟩
          · exact .inr ⟨m, hm, hzero m hm0⟩
  obtain ⟨h1, h2, h3⟩ := key (List.range rc.contexts) (s, none) nofun fun k hk => List.mem_range.1 hk
  exact ⟨h1, h2, fun k hk h0 => h3 (.inr ⟨k, List.mem_range.2 hk, h0⟩)⟩

theorem setInfo_live (h : Live rc s) {v : FragInfo} (hi : (∀ j, ¬ Belongs rc s i j) ∨ 0 < v.len) :
    Live rc (setInfo s i v) := by
  intro k j hb
  by_cases hk : k = i
  · subst hk
    rw [setInfo_info]
    rcases hi with hno | hpos
    · exact absurd hb (hno j)
    · exact hpos
  · rw [(@setInfo_same rc s _ _ hk v).info]
    exact h k j hb

theorem Live.free (h : Live rc s) (hi : (s.fragInfo i).len = 0) (j : Nat) : ¬ Belongs rc s i j := by
  intro hb
  have := h i j hb
  omega

theorem store_live {offset len : Nat} (h : Live rc s) (hi : 0 < (s.fragInfo i).len)
    (hst : storeFragment rc s f i offset = some (s', len)) : Live rc s' := by
  obtain ⟨j, hj, hfree, hlen, hpos, rfl⟩ := storeFragment_spec hst
  intro k l hb
  rcases (store_belongs hj hfree rfl hpos k l).1 hb with hb | ⟨rfl, -⟩
  · exact h k l hb
  · exact hi

/-- `add_fragment` keeps the buffers with open contexts, and the context it finds may be written. -/
theorem addFragment_live (h : Live rc s) (offset : Nat) :
    Live rc (addFragment rc expired s f offset).1 ∧ ∀ i, (addFragment rc expired s f offset).2 = some i →
      ∀ v : FragInfo, v.len = ((addFragment rc expired s f offset).1.fragInfo i).len →
        Live rc (setInfo (addFragment rc expired s f offset).1 i v) := by
  have hstore : ∀ {s₁ s₂ : Node} {i len : Nat}, Live rc s₁ → 0 < (s₁.fragInfo i).len →
      storeFragment rc s₁ f i offset = some (s₂, len) →
      Live rc (addLen s₂ i len) ∧ ∀ v : FragInfo, v.len = ((addLen s₂ i len).fragInfo i).len →
        Live rc (setInfo (addLen s₂ i len) i v) := by
    intro s₁ s₂ i len hl hpos hst
    have hl₂ := store_live hl hpos hst
    obtain ⟨j, -, -, -, -, rfl⟩ := storeFragment_spec hst
    unfold addLen
    rw [setInfo_info]
    refine ⟨setInfo_live hl₂ (.inr hpos), fun v hv => ?_⟩
    rw [setInfo_setInfo]
    exact setInfo_live hl₂ (.inr (by rw [hv]; exact hpos))
  unfold addFragment
  by_cases ho : offset = 0
  · rw [if_pos ho]
    obtain ⟨hshr, hfound, -⟩ := @findFree_spec rc expired s
    cases hf : (findFree rc expired s).2 with
    | none =>
      rw [addFirst_none hf]
      exact ⟨hshr.live h, nofun⟩
    | some i =>
      rw [addFirst_eq hf]
      have hno := (hshr.live h).free (hfound i hf).2
      refine ⟨setInfo_live (hshr.live h) (.inl hno), ?_⟩
      rintro k ⟨⟩ v -
      rw [setInfo_setInfo]
      exact setInfo_live (hshr.live h) (.inl hno)
  · rw [if_neg ho]
    cases hc : findContext rc s f with
    | none => exact ⟨h, nofun⟩
    | some i =>
      obtain ⟨-, hpos, -⟩ := findContext_spec hc
      dsimp only
      cases hst : storeFragment rc s f i offset with
      | some r =>
        obtain ⟨h1, h2⟩ := hstore h hpos hst
        refine ⟨h1, ?_⟩
        rintro k ⟨⟩
        exact h2
      | none =>
        have hshr := @timeout_shrinks rc expired s i
        dsimp only
        split
        · cases hst' : storeFragment rc (timeoutFragments rc expired s i).1 f i offset with
          | none => exact ⟨hshr.live h, nofun⟩
          | some r =>
            -- the context of the fragment is not timed out
            have hsame : (timeoutFragments rc expired s i).1.fragInfo i = s.fragInfo i := timeout_same s i
            obtain ⟨h1, h2⟩ := hstore (hshr.live h) (by rw [hsame]; exact hpos) hst'
            refine ⟨h1, ?_⟩
            rintro k ⟨⟩
            exact h2
        · exact ⟨hshr.live h, nofun⟩

theorem clear_live (h : Live rc s) (i : Nat) : Live rc (clearFragments rc s i).1 := (clear_shrinks s i).live h

theorem inputFrag1_live (h : Live rc s) : Live rc (inputFrag1 rc expired s f) := by
  obtain ⟨h1, h2⟩ := @addFragment_live _ _ f expired h 0
  unfold inputFrag1
  generalize addFragment rc expired s f 0 = r at h1 h2 ⊢
  obtain ⟨s₁, _ | i⟩ := r
  · exact h1
  · have hset := h2 i rfl
    dsimp only
    split
    case h_1 => exact hset _ rfl
    case h_2 u _ =>
      simp only [setInfo_info, setInfo_setInfo]
      split
      · exact hset _ rfl
      · split
        · exact clear_live (hset { s₁.fragInfo i with firstFrag := u.buf } rfl) i
        · split
          · exact hset _ rfl
          · split
            · exact hset _ rfl
            · exact hset _ rfl

theorem inputFragn_live (h : Live rc s) : Live rc (inputFragn rc expired s f).1 := by
  obtain ⟨h1, h2⟩ := @addFragment_live _ _ f expired h f.fragOffset
  unfold inputFragn
  generalize addFragment rc expired s f f.fragOffset = r at h1 h2 ⊢
  obtain ⟨s₁, _ | i⟩ := r
  · exact h1
  · have hset := h2 i rfl
    dsimp only
    split
    · exact h1
    · split
      · exact clear_live h1 i
      · split
        · split
          · -- the copy clears the context
            have hcopy : Live rc (copyFrags2uip rc
                (setInfo s₁ i { s₁.fragInfo i with reassembledLen := f.fragSize }) i).1 := by
              obtain ⟨uip, hclear⟩ := copyFrags_clear rc (setInfo s₁ i { s₁.fragInfo i with reassembledLen := f.fragSize }) i
              rw [hclear]
              exact clear_live (s := { setInfo s₁ i { s₁.fragInfo i with reassembledLen := f.fragSize } with uip := uip })
                (hset _ rfl) i
            generalize copyFrags2uip rc (setInfo s₁ i { s₁.fragInfo i with reassembledLen := f.fragSize }) i = c at hcopy ⊢
            obtain ⟨s₂, _ | _⟩ := c
            · exact hcopy
            · exact hcopy
          · exact h1
        · exact h1

theorem inputWhole_live (h : Live rc s) : Live rc (inputWhole rc s f).1 := by
  have huip : ∀ uip, Live rc { s with uip := uip } := fun _ => h
  unfold inputWhole
  split
  case h_1 => exact huip _
  case h_2 u _ =>
    dsimp only
    split
    · exact huip _
    · split
      · exact clear_live (huip _) 0
      · exact huip _

theorem input_live (h : Live rc s) : Live rc (input rc expired s f).1 := by
  unfold input
  split
  · exact h
  · split
    · exact inputFrag1_live h
    · split
      · exact inputFragn_live h
      · exact inputWhole_live h

theorem reachable_live {as : List Arrival} {x : Sys} (h : exec (Sys.receive rc) Sys.start as = some x) :
    Live rc x.node := by
  refine exec_invariant (J := fun x => Live rc x.node) ?_ as ?_ h
  · intro x a x' hx hstep
    unfold Sys.receive at hstep
    obtain rfl := Option.some.inj hstep
    exact input_live hx
  · rintro i j ⟨-, hlen, -⟩
    exact absurd hlen (by simp [Sys.start])

/-! ## A receiver with room -/

def freeBufs (rc : ReassConfig) (s : Node) : Finset Nat :=
  (Finset.range rc.buffers).filter fun j => (s.fragBuf j).len = 0

theorem mem_freeBufs {j : Nat} : j ∈ freeBufs rc s ↔ j < rc.buffers ∧ (s.fragBuf j).len = 0 := by
  unfold freeBufs
  rw [Finset.mem_filter, Finset.mem_range]

/-- A context is free, none is open for the sender and tag, and `n` buffers are free. -/
structure Ready (rc : ReassConfig) (s : Node) (o : Outgoing) (n : Nat) : Prop where
  context : ∃ i < rc.contexts, (s.fragInfo i).len = 0
  unused : ∀ i < rc.contexts, 0 < (s.fragInfo i).len →
    ¬ ((s.fragInfo i).tag = o.myTag.toNat ∧ (s.fragInfo i).sender = o.sender)
  buffers : n ≤ (freeBufs rc s).card

/-- The sizes of the receiver are those of the fragments at least. -/
structure Room (rc : ReassConfig) (o : Outgoing) (n : Nat) (gs : List Frame) : Prop where
  first : o.uncompHdrLen + n ≤ rc.firstFragmentSize
  rest : ∀ g ∈ gs, g.fragnBlock.2 ≤ rc.fragmentSize
  packet : o.uipLen ≤ rc.bufSize

/-- The receiver finds the headers of the packet in the first fragment. -/
def HeaderBack (rc : ReassConfig) (o : Outgoing) (f : Frame) : Prop :=
  ∀ buf, ∃ r, inputHeader rc f frag1HdrLen buf rc.firstFragmentSize o.uipLen = .ok r ∧
    r.packetbufHdrLen = frag1HdrLen + o.packetbufHdrLen ∧ r.uncompHdrLen = o.uncompHdrLen ∧
    ∀ x, x < o.uncompHdrLen → r.buf x = o.uip x

/-- The packet, as `tcpip_input` gets it. -/
def IsPacket (o : Outgoing) (p : Handed) : Prop := p.len = o.uipLen ∧ ∀ x, x < o.uipLen → p.uip x = o.uip x

/-! ## Collecting the fragments -/

/-- The first fragment of the packet, decompressed. -/
structure Opened (rc : ReassConfig) (o : Outgoing) (f : Frame) (h : Uncompressed) : Prop where
  dispatch : f.dispatch = dispatchFrag1
  sender : f.sender = o.sender
  tag : f.fragTag = o.myTag.toNat
  size : f.fragSize = o.uipLen
  some : 0 < frag1Len f h
  bytes : ∀ x, x < frag1Len f h → frag1Bytes f h x = o.uip x
  packet : o.uipLen ≤ rc.bufSize
  short : o.uipLen ≤ 2047

/-- Context `i` holds the first fragment, received at `start`, and all N-fragments but `gs`. -/
structure Collecting (rc : ReassConfig) (o : Outgoing) (f : Frame) (h : Uncompressed) (start i : Nat)
    (history : List Frame) (s : Node) (gs : List Frame) : Prop where
  context : ContextOk rc history start s i f h
  index : i < rc.contexts
  only : ∀ k < rc.contexts, 0 < (s.fragInfo k).len →
    (s.fragInfo k).tag = o.myTag.toNat → (s.fragInfo k).sender = o.sender → k = i
  buffers : gs.length ≤ (freeBufs rc s).card
  arrived : ∀ k g', start < k → history[k]? = some g' → IsFragn o g' ∧ ∀ g ∈ gs, Apart g.fragnBlock g'.fragnBlock
  pending : ∀ g ∈ gs, IsFragn o g ∧ frag1Len f h ≤ g.fragnBlock.1 ∧ g.fragnBlock.1 + g.fragnBlock.2 ≤ o.uipLen ∧
    g.fragnBlock.2 ≤ rc.fragmentSize
  apart : (gs.map Frame.fragnBlock).Pairwise Apart
  sum : (s.fragInfo i).reassembledLen + ((gs.map Frame.fragnBlock).map Prod.snd).sum = o.uipLen

variable {o : Outgoing} {h : Uncompressed} {start : Nat} {history : List Frame} {g : Frame} {gs : List Frame}

theorem storeFragment_some {offset : Nat} (hpos : 0 < g.fragnBlock.2) (hsmall : g.fragnBlock.2 ≤ rc.fragmentSize)
    (hfree : 0 < (freeBufs rc s).card) : ∃ s', storeFragment rc s g i offset = some (s', g.fragnBlock.2) := by
  unfold Frame.fragnBlock at hpos hsmall ⊢
  dsimp only at hpos hsmall ⊢
  unfold storeFragment
  dsimp only
  rw [if_neg (by omega)]
  cases hfind : (List.range rc.buffers).find? fun j => decide ((s.fragBuf j).len = 0) with
  | some j => exact ⟨_, rfl⟩
  | none =>
    obtain ⟨j, hj⟩ := Finset.card_pos.1 hfree
    rw [mem_freeBufs] at hj
    rw [List.find?_eq_none] at hfind
    exact absurd hj.2 (by simpa using hfind j (List.mem_range.2 hj.1))

theorem storeFragment_free {offset len : Nat} (hst : storeFragment rc s g i offset = some (s', len)) :
    s'.fragInfo = s.fragInfo ∧ (freeBufs rc s).card ≤ (freeBufs rc s').card + 1 := by
  obtain ⟨j, -, -, -, -, rfl⟩ := storeFragment_spec hst
  refine ⟨rfl, le_trans (Finset.card_le_card ?_) (Finset.card_insert_le j _)⟩
  intro k hk
  rw [Finset.mem_insert]
  by_cases hkj : k = j
  · exact .inl hkj
  · right
    rw [mem_freeBufs] at hk ⊢
    simpa [Function.update_of_ne hkj] using hk

theorem Collecting.find (hf : Opened rc o f h) (hc : Collecting rc o f h start i history s gs) (hg : IsFragn o g) :
    findContext rc s g = some i := by
  have hlen : 0 < (s.fragInfo i).len := by
    rw [hc.context.len, hf.size, ← hc.sum, hc.context.sum]
    have := hf.some
    omega
  cases hfind : findContext rc s g with
  | none =>
    unfold findContext at hfind
    rw [List.find?_eq_none] at hfind
    refine absurd ?_ (hfind i (List.mem_range.2 hc.index))
    rw [decide_eq_true_iff, hc.context.tag, hc.context.sender, hf.tag, hf.sender, hg.tag, hg.sender]
    exact ⟨rfl, hlen, rfl⟩
  | some k =>
    obtain ⟨htag, hpos, hsender⟩ := findContext_spec hfind
    have hk : k < rc.contexts := List.mem_range.1 (List.mem_of_find?_eq_some hfind)
    rw [hc.only k hk hpos (by rw [htag, hg.tag]) (by rw [hsender, hg.sender])]

theorem Collecting.add (hf : Opened rc o f h) (hc : Collecting rc o f h start i history s (g :: gs))
    (hstart : start < history.length) : ∃ s', addFragment rc expired s g g.fragOffset = (s', some i) ∧
      Collecting rc o f h start i (history ++ [g]) s' gs := by
  obtain ⟨hg, hbehind, hin, hsmall⟩ := hc.pending g List.mem_cons_self
  have hfind := hc.find hf hg
  have hbufs := hc.buffers
  rw [List.length_cons] at hbufs
  obtain ⟨s₂, hst⟩ := @storeFragment_some _ s i _ g.fragOffset hg.filled hsmall (by omega)
  obtain ⟨hinfo, hfree⟩ := storeFragment_free hst
  have ho : g.fragOffset ≠ 0 := by
    have := hf.some
    unfold Frame.fragnBlock at hbehind
    dsimp only at hbehind
    omega
  have hfit : FragnFits rc s i g := by
    constructor
    case size => rw [hg.size, hc.context.len, hf.size]
    case behind => rw [hc.context.firstLen]; exact hbehind
    case inside => rw [hc.context.len, hf.size]; exact hin
    case apart =>
      intro j hj
      obtain ⟨k, g', hk, hg', -, hblock, -⟩ := hc.context.stored j (mem_slots.2 hj)
      have := (hc.arrived k g' hk hg').2 g List.mem_cons_self
      rwa [hblock] at this
  have hpacket : SamePacket f g := ⟨hg.dispatch, by rw [hg.sender, hf.sender], by rw [hg.tag, hf.tag]⟩
  obtain ⟨hctx, hother⟩ := store_ok (hc.context.append g) hfit hstart (by simp) hpacket hst
  refine ⟨addLen s₂ i g.fragnBlock.2, ?_, ?_⟩
  · unfold addFragment
    rw [if_neg ho, hfind]
    dsimp only
    rw [hst]
    rfl
  have hsum := hc.sum
  rw [List.map_cons, List.map_cons, List.sum_cons] at hsum
  constructor
  case context => exact hctx
  case index => exact hc.index
  case only =>
    intro k hk hpos htag hsender
    by_cases hki : k = i
    · exact hki
    · rw [(hother k hki).info] at hpos htag hsender
      exact hc.only k hk hpos htag hsender
  case buffers =>
    show gs.length ≤ (freeBufs rc s₂).card
    omega
  case arrived =>
    intro k g' hk hg'
    rcases Nat.lt_or_ge k history.length with hlt | hge
    · rw [List.getElem?_append_left hlt] at hg'
      obtain ⟨h1, h2⟩ := hc.arrived k g' hk hg'
      exact ⟨h1, fun g₁ hg₁ => h2 g₁ (List.mem_cons_of_mem _ hg₁)⟩
    · -- the fragment itself
      rw [List.getElem?_append_right hge] at hg'
      obtain rfl : g = g' := by
        have := List.mem_of_getElem? hg'
        exact (List.mem_singleton.1 this).symm
      refine ⟨hg, fun g₁ hg₁ => ?_⟩
      have := List.rel_of_pairwise_cons hc.apart (List.mem_map.2 ⟨g₁, hg₁, rfl⟩)
      exact this.symm
  case pending => exact fun g₁ hg₁ => hc.pending g₁ (List.mem_cons_of_mem _ hg₁)
  case apart => exact (List.pairwise_cons.1 hc.apart).2
  case sum =>
    have hshort := hf.short
    unfold addLen
    rw [setInfo_info, hinfo]
    dsimp only
    omega

/-! ## Handing the packet on -/

theorem copyBufs_ok {context : Nat} : ∀ {js : List Nat} {uip : Mem},
    (∀ j ∈ js, 0 < (s.fragBuf j).len → (s.fragBuf j).index = context → (block s j).1 + (block s j).2 ≤ rc.bufSize) →
    ∃ uip', copyBufs rc s context js uip = .ok uip'
  | [], uip, _ => ⟨uip, rfl⟩
  | j :: js, uip, hin => by
    have hrest := fun uip => @copyBufs_ok context js uip fun k hk => hin k (List.mem_cons_of_mem j hk)
    rw [copyBufs]
    split
    case isTrue hj =>
      have hle := hin j List.mem_cons_self hj.1 hj.2
      unfold block at hle
      dsimp only at hle
      rw [if_neg (by omega)]
      exact hrest _
    case isFalse => exact hrest uip

theorem Collecting.copy (hf : Opened rc o f h) (hc : Collecting rc o f h start i history s []) {v : Nat} :
    ∃ s', copyFrags2uip rc (setCounter s i v) i = (s', true) ∧ IsPacket o ⟨o.uipLen, s'.uip, some i⟩ := by
  have hpacket := hf.packet
  have hfull : f.fragSize = frag1Len f h + ∑ j ∈ slots rc s i, (block s j).2 := by
    rw [← hc.context.sum, hf.size, ← hc.sum]
    rfl
  have hcopy : (copyFrags2uip rc (setCounter s i v) i).2 = true := by
    unfold copyFrags2uip setCounter
    simp only [setInfo_info, copyBufs_setInfo]
    rw [hc.context.len, hc.context.firstLen, if_neg (by rw [hf.size] at hfull ⊢; omega)]
    have hbufs : ∀ j ∈ List.range rc.buffers, 0 < (s.fragBuf j).len → (s.fragBuf j).index = i →
        (block s j).1 + (block s j).2 ≤ rc.bufSize := by
      intro j hj hpos hidx
      have := (hc.context.inside j (mem_slots.2 ⟨List.mem_range.1 hj, hpos, hidx⟩)).2
      rw [hf.size] at this
      omega
    split
    case h_1 uip herr =>
      obtain ⟨uip', hok⟩ := copyBufs_ok hbufs
      rw [herr] at hok
      cases hok
    case h_2 => rfl
  obtain ⟨f', hf', -, -, -, hbytes⟩ := copyFrags_complete hc.context (v := v) hfull.le (Prod.ext rfl hcopy)
  refine ⟨_, Prod.ext rfl hcopy, rfl, fun x hx => ?_⟩
  obtain rfl : f = f' := Option.some.inj (hc.context.at_o.symm.trans hf')
  rcases hbytes x (by rw [hf.size]; exact hx) with ⟨h', hh', hlt, heq⟩ | ⟨k, g, hk, -, hg, -, hlo, hhi, heq⟩
  · obtain rfl : h = h' := Except.ok.inj (hc.context.header.symm.trans hh')
    exact heq.trans (hf.bytes x hlt)
  · have hfrag := (hc.arrived k g hk hg).1
    refine heq.trans ?_
    rw [hfrag.bytes _ (by omega)]
    congr 1
    omega

theorem Collecting.input (hf : Opened rc o f h) (hc : Collecting rc o f h start i history s (g :: gs))
    (hstart : start < history.length) : (gs ≠ [] → ∃ s', Sicslowpan.input rc expired s g = (s', none) ∧
      Collecting rc o f h start i (history ++ [g]) s' gs) ∧
    (gs = [] → ∃ s' p, Sicslowpan.input rc expired s g = (s', some p) ∧ p.context = some i ∧ IsPacket o p) := by
  obtain ⟨hg, hbehind, hin, hsmall⟩ := hc.pending g List.mem_cons_self
  obtain ⟨s', hadd, hc'⟩ := @Collecting.add _ _ _ _ expired _ _ _ _ _ _ hf hc hstart
  have hpacket := hf.packet
  have hfill := hg.filled
  have hpos : 0 < o.uipLen := by omega
  unfold Frame.fragnBlock at hin hfill
  dsimp only at hin hfill
  have heq : Sicslowpan.input rc expired s g = inputFragn rc expired s g := by
    unfold Sicslowpan.input
    rw [if_neg (by omega), hg.dispatch, if_neg (by decide), if_pos rfl]
  have hsum := hc'.sum
  rw [heq]
  unfold inputFragn
  rw [hadd]
  dsimp only
  rw [if_neg (by omega), if_neg (by omega), hg.size]
  constructor
  · intro hmore
    refine ⟨s', ?_, hc'⟩
    -- a fragment is missing, and it is not empty
    obtain ⟨g', hg'⟩ := List.exists_mem_of_ne_nil gs hmore
    have hfill' := (hc'.pending g' hg').1.filled
    have hle : g'.fragnBlock.2 ≤ ((gs.map Frame.fragnBlock).map Prod.snd).sum :=
      List.single_le_sum (by simp) _ (List.mem_map.2 ⟨_, List.mem_map.2 ⟨g', hg', rfl⟩, rfl⟩)
    rw [if_neg (by omega)]
  · rintro rfl
    rw [List.map_nil, List.map_nil, List.sum_nil] at hsum
    obtain ⟨s'', hcopy, hdone⟩ := hc'.copy (v := o.uipLen) hf
    unfold setCounter at hcopy
    rw [if_pos (by omega), if_pos hpos, hcopy]
    exact ⟨s'', _, rfl, rfl, hdone⟩

/-! ## The first fragment -/

variable {n : Nat} {gs₀ : List Frame}

theorem Fragments.opened (hfrag : Fragments o f n gs₀) (hU : 0 < o.uncompHdrLen) (hlen : o.uipLen ≤ 2047)
    (hroom : Room rc o n gs₀) (hback : HeaderBack rc o f) :
    ∃ h, Frag1Fits rc f h ∧ frag1Len f h = o.uncompHdrLen + n ∧ Opened rc o f h := by
  have hf := hfrag.first
  obtain ⟨h, hh, hp, hu, hb⟩ := hback fun _ => 0
  have hdatalen := hf.datalen
  have hl : frag1Len f h = o.uncompHdrLen + n := by
    unfold frag1Len
    rw [hp, hu]
    omega
  refine ⟨h, ?_, hl, ?_⟩
  · constructor
    case header =>
      unfold Frame.header
      rw [hf.size]
      exact hh
    case determined =>
      intro buf
      obtain ⟨h', hh', hp', hu', hb'⟩ := hback buf
      rw [hf.size]
      refine ⟨h', hh', hp'.trans hp.symm, hu'.trans hu.symm, fun x hx => ?_⟩
      rw [hu] at hx
      rw [hb' x hx, hb x hx]
    case inside =>
      rw [hp]
      omega
    case room =>
      left
      rw [hl]
      exact hroom.first
  · constructor
    case dispatch => exact hf.dispatch
    case sender => exact hf.sender
    case tag => exact hf.tag
    case size => exact hf.size
    case some =>
      rw [hl]
      omega
    case bytes =>
      intro x hx
      rw [hl] at hx
      unfold frag1Bytes
      rw [hp, hu]
      by_cases hin : o.uncompHdrLen ≤ x
      · rw [Mem.paste_in hin (by omega), hf.bytes _ (by omega)]
        congr 1
        omega
      · rw [Mem.paste_of_out (by omega)]
        exact hb x (by omega)
    case packet => exact hroom.packet
    case short => exact hlen

theorem Fragments.collecting (hfrag : Fragments o f n gs₀) (hU : 0 < o.uncompHdrLen) (hlen : o.uipLen ≤ 2047)
    (hroom : Room rc o n gs₀) (hback : HeaderBack rc o f) (hperm : gs.Perm gs₀) (hlive : Live rc s)
    (hready : Ready rc s o gs₀.length) : ∃ h i s', input rc expired s f = (s', none) ∧ Opened rc o f h ∧
      Collecting rc o f h history.length i (history ++ [f]) s' gs := by
  obtain ⟨h, hfit, hl, hopen⟩ := hfrag.opened hU hlen hroom hback
  have hcons := hfrag.cover
  have hn : o.uncompHdrLen + n ≤ o.uipLen := (hcons.inside _ List.mem_cons_self).2
  have hf := hfrag.first
  have hdatalen := hf.datalen
  obtain ⟨hshr, hfound, hsome⟩ := @findFree_spec rc expired s
  obtain ⟨k, hk, hk0⟩ := hready.context
  obtain ⟨i, hi⟩ := Option.ne_none_iff_exists'.1 (hsome k hk hk0)
  obtain ⟨hilt, hi0⟩ := hfound i hi
  obtain ⟨v, hv, hvlen, hvtag, hvsender, hvfl, hvsum, hvbytes⟩ :=
    inputFrag1_stored hfit hi (by rw [hf.size]; omega) (by rw [hl]; have := hroom.packet; omega)
  refine ⟨h, i, inputFrag1 rc expired s f, ?_, hopen, ?_⟩
  · unfold input
    have h4 : 0 < frag1HdrLen := by decide
    rw [if_neg (by omega), if_pos hf.dispatch]
  · rw [hv]
    constructor
    case context =>
      exact stored_context ((hshr.live hlive).free hi0) (by simp) hf.dispatch hfit.header hvlen hvtag hvsender hvfl
        (by rw [hl]; exact hroom.first) hvbytes hvsum
    case index => exact hilt
    case only =>
      intro m hm hpos htag hsender
      by_contra hmi
      rw [(@setInfo_same rc _ _ _ hmi v).info] at hpos htag hsender
      rcases hshr.info m with heq | hzero
      · rw [heq] at hpos htag hsender
        exact hready.unused m hm hpos ⟨htag, hsender⟩
      · omega
    case buffers =>
      rw [hperm.length_eq]
      refine hready.buffers.trans (Finset.card_le_card fun j hj => ?_)
      rw [mem_freeBufs] at hj ⊢
      refine ⟨hj.1, ?_⟩
      rcases hshr.buf j with heq | hzero
      · exact (congrArg FragBuf.len heq).trans hj.2
      · exact hzero
    case arrived =>
      intro m g hm hg
      have := (List.getElem?_eq_some_iff.1 hg).1
      rw [List.length_append, List.length_singleton] at this
      omega
    case pending =>
      intro g hg
      have hg₀ := hperm.mem_iff.1 hg
      have hin := hcons.2.inside _ (List.mem_map.2 ⟨g, hg₀, rfl⟩)
      rw [hl]
      exact ⟨hfrag.rest g hg₀, hin.1, hin.2, hroom.rest g hg₀⟩
    case apart =>
      have hpair : (gs₀.map Frame.fragnBlock).Pairwise Apart := hcons.2.pairwise
      exact (List.Perm.pairwise_iff (fun h => Apart.symm h) (hperm.map _)).2 hpair
    case sum =>
      rw [setInfo_info, hvsum, hl, ((hperm.map Frame.fragnBlock).map Prod.snd).sum_eq]
      exact hcons.2.sum

/-! ## The run -/

theorem Collecting.run (hf : Opened rc o f h) : ∀ {as : List Arrival} {x : Sys}, as ≠ [] → start < x.history.length →
    Collecting rc o f h start i x.history x.node (as.map Arrival.frame) →
    ∃ x' r, exec (Sys.receive rc) x as = some x' ∧ x'.out = x.out ++ [r] ∧ IsPacket o r.handed
  | [], _, hne, _, _ => absurd rfl hne
  | a :: as, x, _, hstart, hc => by
    obtain ⟨hmore, hlast⟩ := @Collecting.input _ _ _ _ a.expired _ _ _ _ _ _ hf hc hstart
    by_cases hnil : as = []
    · subst hnil
      obtain ⟨s', p, hin, hctx, hp⟩ := hlast rfl
      refine ⟨_, ⟨p, x.openedAt rc a i, x.history.length + 1⟩, rfl, ?_, hp⟩
      simp only [hin, hctx]
    · obtain ⟨s', hin, hc'⟩ := hmore (by simpa using hnil)
      have hstep : Sys.receive rc x a = some ⟨s', x.history ++ [a.frame], x.openedAt rc a, x.out⟩ := by
        unfold Sys.receive
        rw [hin]
      rw [exec_cons hstep]
      exact Collecting.run hf hnil (by simp; omega) hc'

end

/-! ## Which headers come back -/

section

variable {rc : ReassConfig} {o : Outgoing} {f : Frame} {n : Nat}

theorem ipv6_headerBack (hf : IsFrag1 o f n) (hhdr : o.packetbufHdrLen = 41) (hU : o.uncompHdrLen = 40)
    (hdisp : o.packetbuf 0 = dispatchIpv6) (hbytes : ∀ k < 40, o.packetbuf (1 + k) = o.uip k) : HeaderBack rc o f := by
  intro buf
  have h0 : f.pb.byte frag1HdrLen = dispatchIpv6 := by
    rw [← hdisp]
    exact hf.header 0 (by omega)
  have hpaging : ¬ dispatchIpv6 &&& dispatchPaging = dispatchPaging := by decide
  have hiphc : ¬ dispatchIpv6 &&& dispatchIphcMask = dispatchIphc := by decide
  refine ⟨⟨Mem.paste 0 40 (fun i => f.pb.byte (frag1HdrLen + 1 + i)) buf, frag1HdrLen + 41, 40⟩, ?_, ?_, ?_, ?_⟩
  · unfold inputHeader
    rw [h0]
    simp [hpaging, h0, hiphc]
  · rw [hhdr]
  · rw [hU]
  · intro x hx
    rw [hU] at hx
    dsimp only
    rw [Mem.paste_in (Nat.zero_le x) (by omega), Nat.sub_zero, Nat.add_assoc, hf.header _ (by omega), hbytes x hx]

/-- What `output` has when `compress_hdr_iphc` has compressed the headers `es`, `udp` up to `e` to `out`. -/
structure Compressed (cfg : Config) (o : Outgoing) (es out : List UInt8) (udp : Bool) (e : Nat) : Prop where
  packet : WellFormed o.uip o.uipLen es udp e
  header : compressHdrIphc cfg o.macMaxPayload o.uip (lladdr o.sender) (lladdr o.receiver) 0 = some out
  written : Mem.Holds 0 out o.packetbuf
  hdrLen : o.packetbufHdrLen = out.length
  uncomp : o.uncompHdrLen = e % 256

theorem Headers.mod_eight {uip : Mem} {p : UInt8} {pos e : Nat} {es : List UInt8} {udp : Bool}
    (h : Headers uip p pos es udp e) : e % 8 = pos % 8 := by
  induction h with
  | other _ => rfl
  | udp => omega
  | ext _ _ ih => rw [ih, extLen]; omega

theorem Compressed.headerBack {es out : List UInt8} {udp : Bool} {e : Nat} (hf : IsFrag1 o f n)
    (hc : Compressed rc.iphc o es out udp e) (h256 : o.packetbufHdrLen + frag1HdrLen < 256) (hn : 1 ≤ n)
    (h16 : f.pb.datalen ≤ 65535)
    (hback : ComesBack rc.iphc o.uip (lladdr o.sender) (lladdr o.receiver) es udp e rc.firstFragmentSize o.uipLen
      (frag1HdrLen + out.length)) : HeaderBack rc o f := by
  intro buf
  have hhdr := hc.hdrLen
  have hdatalen : f.pb.datalen = frag1HdrLen + out.length + n := by rw [hf.datalen, hhdr]
  have hw : Mem.Holds frag1HdrLen out f.pb.byte := by
    have hw₀ := hc.written
    rw [Mem.holds_iff] at hw₀ ⊢
    intro k hk
    rw [← hw₀ k hk, Nat.zero_add]
    exact hf.header k (by omega)
  obtain ⟨r, hr, hp', hu', hb⟩ := @ComesBack.uncompressed _ _ _ _ _ _ _ _ _ _ _ buf _ _ _ _ _ hc.packet hc.header hw
    hdatalen hn h16 (.inr rfl) hback
  -- the first byte is an IPHC dispatch, not a paging one
  have hbits : ∀ b : UInt8, f.pb.byte frag1HdrLen = b → ¬ b &&& dispatchPaging = dispatchPaging ∧
      b &&& dispatchIphcMask = dispatchIphc := by
    rintro b rfl
    obtain ⟨hasCtx, rest, ptr, -, -, -, -, hout⟩ := compressHdrIphc_some hc.header
    rw [hout, Mem.holds_cons] at hw
    rw [hw.1]
    have hnh : (compressNextHeader o.uip).1 = 4 ∨ (compressNextHeader o.uip).1 = 0 := by
      rw [compressNextHeader_bits]
      split_ifs <;> simp
    exact iphc0_dispatch (compressTf_bits o.uip) hnh (compressTtl_bits o.uip)
  obtain ⟨hpaging, hiphc⟩ := hbits _ rfl
  refine ⟨r, ?_, ?_, ?_, fun x hx => hb x ?_⟩
  · unfold inputHeader
    rw [hf.sender, hf.receiver]
    simpa [hpaging, hiphc] using hr
  · rw [hp', ← hhdr]
    omega
  · rw [hu', hc.uncomp]
  · have := hc.uncomp
    have := Nat.mod_le e 256
    omega

end

/-! ## From sender to receiver -/

/-- `output` cuts the packet into as many fragments as it has counted, and a receiver with room gets
the packet back from them in whatever order they come behind the first one. -/
theorem output_delivered (o : Outgoing) (hlen : o.uipLen ≤ 2047) (hU : 0 < o.uncompHdrLen)
    (h8 : o.uncompHdrLen % 8 = 0) (hhdr : o.packetbufHdrLen + frag1HdrLen < 256)
    (hroom : o.packetbufHdrLen + frag1HdrLen ≤ o.macMaxPayload) (hmac : 13 ≤ o.macMaxPayload) (hneed : o.fragNeeded) :
    ∃ f n gs, Fragments o f n gs ∧
      (∀ bufs sent, ∃ es ok, o.output bufs sent = some (es, ok) ∧ es <+: f :: gs ∧ (ok = true → es = f :: gs)) ∧
      (∀ bufs : Nat, o.fragmentCount + 1 ≤ bufs → o.output bufs (fun _ => .ok) = some (f :: gs, true)) ∧
      ∀ (rc : ReassConfig) (past as : List Arrival) (x : Sys) (gs' : List Frame),
        exec (Sys.receive rc) Sys.start past = some x → Ready rc x.node o gs.length → Room rc o n gs →
        HeaderBack rc o f → gs'.Perm gs → as.map Arrival.frame = f :: gs' →
        ∃ x' r, exec (Sys.receive rc) x as = some x' ∧ x'.out = x.out ++ [r] ∧ IsPacket o r.handed := by
  obtain ⟨gs, hfrag, hne, hsend⟩ := sendFragments_spec hlen h8 hhdr hroom hmac hneed
  refine ⟨_, _, gs, hfrag, fun bufs sent => ?_, fun bufs hfree => ?_, ?_⟩
  · rw [output_eq hroom hneed]
    split
    · exact sendFragments_initial hsend
    · exact ⟨[], false, rfl, List.nil_prefix, nofun⟩
  · rw [output_eq hroom hneed, if_pos hfree, hsend]
  · intro rc past as x gs' hpast hready hsizes hback hperm has
    obtain ⟨a, as', rfl, ha, has'⟩ := List.map_eq_cons_iff.1 has
    obtain ⟨h, i, s', hin, hopen, hc⟩ := @Fragments.collecting _ _ _ a.expired _ x.history _ _ _ hfrag hU hlen hsizes
        hback hperm (reachable_live hpast) hready
    have hstep : Sys.receive rc x a = some ⟨s', x.history ++ [o.frag1Frame], x.openedAt rc a, x.out⟩ := by
      unfold Sys.receive
      rw [ha, hin]
    have hne' : as' ≠ [] := by
      rintro rfl
      exact hne (List.perm_nil.1 (has' ▸ hperm).symm)
    rw [exec_cons hstep]
    rw [← has'] at hc
    exact Collecting.run hopen hne' (by simp) hc

/-! ## Packets with an uncompressed header -/

/-- A packet of `len` bytes for frames of `mac` bytes. -/
def plainOutgoing (len mac : Nat) : Outgoing where
  sender := [1]
  receiver := [2]
  uip := fun _ => 0x60
  uipLen := len
  uncompHdrLen := 40
  packetbuf := fun i => if i = 0 then dispatchIpv6 else 0x60
  packetbufHdrLen := 41
  macMaxPayload := mac
  myTag := 7

theorem plainOutgoing_headerBack {rc : ReassConfig} {len mac n : Nat} {f : Frame}
    (hf : IsFrag1 (plainOutgoing len mac) f n) : HeaderBack rc (plainOutgoing len mac) f :=
  ipv6_headerBack hf rfl rfl rfl fun k hk => by
    show (if 1 + k = 0 then dispatchIpv6 else 0x60) = 0x60
    rw [if_neg (by omega)]

theorem start_ready (o : Outgoing) {n : Nat} (hn : n ≤ 12) : Ready plainReass Sys.start.node o n := by
  constructor
  case context => exact ⟨0, by decide, rfl⟩
  case unused =>
    intro i _ hpos
    exact absurd hpos (lt_irrefl 0)
  case buffers =>
    have : freeBufs plainReass Sys.start.node = Finset.range 12 := by
      ext j
      rw [mem_freeBufs, Finset.mem_range]
      exact and_iff_left rfl
    rw [this, Finset.card_range]
    exact hn

/-- Three fragments in frames of 100 bytes. -/
theorem output_delivered_plain : ∃ f n gs, Fragments (plainOutgoing 250 100) f n gs ∧ gs.length = 2 ∧
    ∀ gs', gs'.Perm gs → ∃ x' r, exec (Sys.receive plainReass) Sys.start ((f :: gs').map noTimer) = some x' ∧
      x'.out = [r] ∧ IsPacket (plainOutgoing 250 100) r.handed := by
  obtain ⟨f, n, gs, hfrag, -, -, hdeliver⟩ := output_delivered (plainOutgoing 250 100) (by decide) (by decide)
    (by decide) (by decide) (by decide) (by decide) (by decide)
  have hcount : gs.length = 2 := by
    have := hfrag.count
    rw [List.length_cons, show (plainOutgoing 250 100).fragmentCount = 3 by decide] at this
    omega
  refine ⟨f, n, gs, hfrag, hcount, fun gs' hperm => ?_⟩
  have hroom : Room plainReass (plainOutgoing 250 100) n gs := by
    constructor
    case first =>
      have h1 : f.pb.datalen ≤ 100 := hfrag.first.fits
      have h2 : f.pb.datalen = 4 + 41 + n := hfrag.first.datalen
      show 40 + n ≤ 110 + 38
      omega
    case rest =>
      intro g hg
      have : g.pb.datalen ≤ 100 := (hfrag.rest g hg).fits
      show g.pb.datalen - 5 ≤ 110
      omega
    case packet => decide
  have hframes : ((f :: gs').map noTimer).map Arrival.frame = f :: gs' := by
    rw [List.map_map]
    exact List.map_id _
  exact hdeliver plainReass [] ((f :: gs').map noTimer) Sys.start gs' rfl (start_ready _ (by omega)) hroom
    (plainOutgoing_headerBack hfrag.first) hperm hframes

/-- In frames of 116 bytes the last fragment takes 111, more than a fragment buffer of 110 holds: it is
dropped, and the packet is not handed on. -/
theorem lastFragment_dropped : ¬ ∀ (o : Outgoing) (rc : ReassConfig) (f : Frame) (gs : List Frame) (bufs : Nat),
    o.uipLen ≤ 2047 → 0 < o.uncompHdrLen → o.uncompHdrLen % 8 = 0 → o.packetbufHdrLen + frag1HdrLen ≤ o.macMaxPayload →
    o.output bufs (fun _ => .ok) = some (f :: gs, true) → HeaderBack rc o f → Ready rc Sys.start.node o gs.length →
    ∃ x r, exec (Sys.receive rc) Sys.start ((f :: gs).map noTimer) = some x ∧ x.out = [r] ∧ IsPacket o r.handed := by
  intro hall
  let o := plainOutgoing 215 116
  obtain ⟨f, n, gs, hfrag, -, hout, -⟩ := output_delivered o (by decide) (by decide)
    (by decide) (by decide) (by decide) (by decide) (by decide)
  have hcount : gs.length = 1 := by
    have := hfrag.count
    rw [List.length_cons, show o.fragmentCount = 2 by decide] at this
    omega
  obtain ⟨x, r, hrun, hone, -⟩ := hall o plainReass f gs 3 (by decide) (by decide) (by decide) (by decide)
    (hout 3 (by decide)) (plainOutgoing_headerBack hfrag.first) (start_ready o (by omega))
  have hnone : ((o.output 3 fun _ => .ok).bind fun r =>
      (exec (Sys.receive plainReass) Sys.start (r.1.map noTimer)).map fun x => x.out.length) = some 0 := by
    decide +kernel
  rw [hout 3 (by decide), Option.bind_some, hrun, Option.map_some, hone] at hnone
  cases hnone

/-! ## Packets with a compressed header -/

/-- A compressed packet comes back whole, header and payload, at a receiver in whatever state it is as long as it has
room, whatever the order of the fragments behind the first one. -/
theorem compressed_delivered {rc : ReassConfig} {o : Outgoing} {es out : List UInt8} {udp : Bool} {e : Nat}
    (hc : Compressed rc.iphc o es out udp e) (hlen : o.uipLen ≤ 2047) (hpos : e % 256 ≠ 0) (hneed : o.fragNeeded)
    (h256 : o.packetbufHdrLen + frag1HdrLen < 256) (hmac : o.packetbufHdrLen + frag1HdrLen + 8 ≤ o.macMaxPayload)
    (hback : ComesBack rc.iphc o.uip (lladdr o.sender) (lladdr o.receiver) es udp e rc.firstFragmentSize o.uipLen
      (frag1HdrLen + out.length))
    (hfirst : o.uncompHdrLen + o.frag1Payload.toNat ≤ rc.firstFragmentSize)
    (hrest : o.macMaxPayload ≤ fragnHdrLen + rc.fragmentSize) (hbuf : o.uipLen ≤ rc.bufSize) :
    ∃ f gs, (∀ bufs : Nat, o.fragmentCount + 1 ≤ bufs → o.output bufs (fun _ => .ok) = some (f :: gs, true)) ∧
      ((f :: gs).length : Int) = o.fragmentCount ∧
      ∀ (past as : List Arrival) (x : Sys) (gs' : List Frame), exec (Sys.receive rc) Sys.start past = some x →
        Ready rc x.node o gs.length → gs'.Perm gs → as.map Arrival.frame = f :: gs' →
        ∃ x' r, exec (Sys.receive rc) x as = some x' ∧ x'.out = x.out ++ [r] ∧ IsPacket o r.handed := by
  have h8 := hc.packet.headers.mod_eight
  have hU := hc.uncomp
  have hhdr : 4 = frag1HdrLen ∧ 5 = fragnHdrLen := ⟨rfl, rfl⟩
  have h40 : 40 < o.macMaxPayload := by
    have hsome := hc.header
    unfold compressHdrIphc at hsome
    split_ifs at hsome
    omega
  -- there is room for bytes of the payload behind the compressed headers
  have hpayload : 8 ≤ o.frag1Payload := by
    unfold Outgoing.frag1Payload
    omega
  obtain ⟨gs, hfrag, hne, hsend⟩ := sendFragments_spec hlen (by omega) h256 (by omega) (by omega) hneed
  refine ⟨o.frag1Frame, gs, fun bufs hfree => ?_, hfrag.count, fun past as x gs' hpast hready hperm has => ?_⟩
  · rw [output_eq (by omega) hneed, if_pos hfree, hsend]
  have hcut := (hfrag.cover.inside _ List.mem_cons_self).2
  dsimp only at hcut
  have hdatalen := hfrag.first.datalen
  have hheader : HeaderBack rc o o.frag1Frame := hc.headerBack hfrag.first h256 (by omega) (by omega) hback
  have hroom : Room rc o o.frag1Payload.toNat gs := by
    refine ⟨hfirst, fun g hg => ?_, hbuf⟩
    have := (hfrag.rest g hg).fits
    unfold Frame.fragnBlock
    dsimp only
    omega
  -- the first fragment opens a context, and the others fill it in whatever order they come
  obtain ⟨a, as', rfl, ha, has'⟩ := List.map_eq_cons_iff.1 has
  obtain ⟨h, i, s', hin, hopen, hcol⟩ := @Fragments.collecting _ _ _ a.expired _ x.history _ _ _ hfrag (by omega) hlen
    hroom hheader hperm (reachable_live hpast) hready
  have hstep : Sys.receive rc x a = some ⟨s', x.history ++ [o.frag1Frame], x.openedAt rc a, x.out⟩ := by
    unfold Sys.receive
    rw [ha, hin]
  have hne' : as' ≠ [] := by
    rintro rfl
    exact hne (List.perm_nil.1 (has' ▸ hperm).symm)
  rw [exec_cons hstep]
  rw [← has'] at hcol
  exact Collecting.run hopen hne' (by simp) hcol

/-- The header that `compress_hdr_iphc` makes of those of `reading`. -/
def readingHeader : List UInt8 :=
  [0x7e, 0] ++ (0xfd :: List.replicate 14 0 ++ [1]) ++ (0xfd :: List.replicate 14 0 ++ [2]) ++ [0xf3, 0x12, 0xab, 0xcd]

/-- A UDP datagram of 192 bytes between two global addresses. -/
def reading : Outgoing where
  sender := [1]
  receiver := [2]
  uip := fun i => ([0x60, 0, 0, 0, 0, 200, 17, 64] ++ (0xfd :: List.replicate 14 0 ++ [1]) ++
    (0xfd :: List.replicate 14 0 ++ [2]) ++ [0xf0, 0xb1, 0xf0, 0xb2, 0, 200, 0xab, 0xcd] : List UInt8).getD i (UInt8.ofNat i)
  uipLen := 240
  uncompHdrLen := 48
  packetbuf := fun i => readingHeader.getD i 0
  packetbufHdrLen := 38
  macMaxPayload := 100
  myTag := 7

theorem reading_compressed : Compressed plainConfig reading [] readingHeader true 48 where
  packet :=
    { version := by decide
      headers := .udp
      fits := by decide
      short := by decide
      len := by decide
      udpLen := fun _ => by decide }
  header := by decide
  written := by simp [readingHeader, reading]
  hdrLen := rfl
  uncomp := rfl

theorem reading_comesBack : ComesBack plainReass.iphc reading.uip (lladdr reading.sender) (lladdr reading.receiver) [] true
    48 plainReass.firstFragmentSize reading.uipLen (frag1HdrLen + readingHeader.length) where
  src := by
    rintro - hlocal
    exact absurd hlocal (by decide)
  dst := by
    rintro - hlocal
    exact absurd hlocal (by decide)
  exts := nofun
  room := fun _ => by decide
  counters := fun _ => by decide

theorem compressed_delivered_reading : ∃ f gs, reading.output 4 (fun _ => .ok) = some (f :: gs, true) ∧
    ∀ gs', gs'.Perm gs → ∃ x' r, exec (Sys.receive plainReass) Sys.start ((f :: gs').map noTimer) = some x' ∧
      x'.out = [r] ∧ IsPacket reading r.handed := by
  obtain ⟨f, gs, hout, hcount, hall⟩ := @compressed_delivered plainReass _ _ _ _ _ reading_compressed (by decide)
    (by decide) (by decide) (by decide) (by decide) reading_comesBack (by decide) (by decide) (by decide)
  rw [List.length_cons, show reading.fragmentCount = 3 by decide] at hcount
  refine ⟨f, gs, hout 4 (by decide), fun gs' hperm => ?_⟩
  exact hall [] ((f :: gs').map noTimer) Sys.start gs' rfl (start_ready _ (by omega)) hperm
    (by rw [List.map_map]; exact List.map_id _)

end Contiki.Sicslowpan
