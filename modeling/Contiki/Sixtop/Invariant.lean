/-
The invariant of the 6P layer, and its preservation by the functions of sixp-trans.c and sixp.c for
every scheduling function that preserves it: the transaction list, the blocks, the record of the
run, and, where it is asked for, that no frame with the MAC carries a dangling transaction pointer.
-/
import Contiki.Sixtop.Sixp

namespace Contiki.Sixtop

open TransState

/-! ## What a recorded run may look like -/

section

variable {A : Type}

def Obs.Answers (tr : Nat) : Obs A → Prop
  | .input .response _ _ (some u) _ _ => u = tr
  | _ => False

/-- What may be recorded after `pre`: the input handler gets a RESPONSE only for a transaction this
node opened with the sender, under the SeqNum it was opened with, while it is sending or has sent
its request, and not twice; it gets a CONFIRMATION only for a 3-step transaction that is sending or
has sent its response; and no two transactions on `trans_list` have one peer. -/
def Obs.SoundAfter (pre : List (Obs A)) : Obs A → Prop
  | .input .response seqno src tr state _ =>
    (state = requestSending ∨ state = requestSent) ∧
      ∃ u, tr = some u ∧ .opened u src seqno ∈ pre ∧ ∀ o ∈ pre, ¬ o.Answers u
  | .input .confirmation _ _ _ state mode => mode = .threeStep ∧ (state = responseSending ∨ state = responseSent)
  | .upcall peers => peers.Nodup
  | _ => True

/-- Everything recorded was allowed when it was recorded. -/
def TraceOk (trace : List (Obs A)) : Prop :=
  ∀ pre o post, trace = pre ++ o :: post → o.SoundAfter pre

theorem traceOk_nil : TraceOk ([] : List (Obs A)) := by
  intro pre o post h; simp at h

theorem traceOk_snoc {trace : List (Obs A)} {o : Obs A} (ht : TraceOk trace) (ho : o.SoundAfter trace) :
    TraceOk (trace ++ [o]) := by
  intro pre p post h
  rcases List.eq_nil_or_concat post with rfl | ⟨post', q, rfl⟩
  · obtain ⟨rfl, hp⟩ := List.append_inj' h rfl
    cases hp; exact ho
  · rw [List.concat_eq_append, ← List.cons_append, ← List.append_assoc] at h
    obtain ⟨hp, _⟩ := List.append_inj' h rfl
    exact ht pre p post' hp

/-! ## The invariant -/

def Awaiting (state : TransState) : Prop :=
  state = init ∨ state = requestSending ∨ state = requestSent

/-- The states in which `sixp_output` sends nothing for a transaction. -/
def Quiet (state : TransState) : Prop :=
  state = init ∨ state = terminating

end

variable {A K S : Type} {N M : Nat}

/-- Every transaction pointer held by the MAC denotes the transaction it denoted when it was given. -/
def NoDangling (s : Node A K S N M) : Prop :=
  ∀ f ∈ s.mac, ∀ i, f.ptr = some i → ∃ u, f.owner = some u ∧ s.alloc i = some u

/-- Every completion so far found the transaction its pointer was given for. -/
def CompletionsSound (trace : List (Obs A)) : Prop :=
  ∀ given found, .completion given found ∈ trace → ∃ u, given = some u ∧ found = some u

variable [Inhabited A]

/-- The invariant; `d` says whether dangling pointers are excluded too. -/
structure Inv (d : Bool) (s : Node A K S N M) : Prop where
  nodup : s.transList.Nodup
  listed : ∀ i, i ∈ s.transList ↔ (s.alloc i).isSome
  peers : ∀ i j, (s.alloc i).isSome → (s.alloc j).isSome → (s.mem i).peerAddr = (s.mem j).peerAddr → i = j
  free : ∀ i, s.alloc i = none → s.mem i = Trans.zero
  live : ∀ i, (s.alloc i).isSome → (s.mem i).state ≠ waitFree
  uid : ∀ i u, s.alloc i = some u → u < s.nextUid
  uidInj : ∀ i j u, s.alloc i = some u → s.alloc j = some u → i = j
  opened : ∀ i u, s.alloc i = some u → Awaiting (s.mem i).state →
    .opened u (s.mem i).peerAddr (s.mem i).seqno ∈ s.trace ∧ ∀ o ∈ s.trace, ¬ o.Answers u
  fresh : ∀ u, s.nextUid ≤ u → ∀ o ∈ s.trace, ¬ o.Answers u
  trace : TraceOk s.trace
  denotes : d = true → NoDangling s
  sound : d = true → CompletionsSound s.trace

/-- What a call into a scheduling function leaves alone: allocated transactions stay allocated, and
those that are in a quiet state stay in it and get no frame. -/
structure Ext (s s' : Node A K S N M) : Prop where
  keeps : ∀ i, (s.alloc i).isSome → s'.alloc i = s.alloc i
  quiet : ∀ i, (s.alloc i).isSome → Quiet (s.mem i).state →
    (s'.mem i).state = (s.mem i).state ∧ ∀ f ∈ s'.mac, f.ptr = some i → f ∈ s.mac

/-- A scheduling function that preserves the invariant. -/
def Handler.Ok (h : Handler A K S N M) : Prop :=
  ∀ d u s, Inv d s → Inv d (h u s) ∧ Ext s (h u s)

namespace Ext

omit [Inhabited A] in
theorem refl (s : Node A K S N M) : Ext s s :=
  ⟨fun _ _ => rfl, fun _ _ _ => ⟨rfl, fun _ hf _ => hf⟩⟩

omit [Inhabited A] in
theorem trans {s t u : Node A K S N M} (h₁ : Ext s t) (h₂ : Ext t u) : Ext s u := by
  refine ⟨fun i hi => ?_, fun i hi hq => ?_⟩
  · rw [h₂.keeps i (by rw [h₁.keeps i hi]; exact hi), h₁.keeps i hi]
  · have hi' : (t.alloc i).isSome := by rw [h₁.keeps i hi]; exact hi
    obtain ⟨e₁, f₁⟩ := h₁.quiet i hi hq
    obtain ⟨e₂, f₂⟩ := h₂.quiet i hi' (by rw [e₁]; exact hq)
    exact ⟨by rw [e₂, e₁], fun f hf hp => f₁ f (f₂ f hf hp) hp⟩

omit [Inhabited A] in
theorem some {s t : Node A K S N M} (h : Ext s t) {i : Fin N} (hi : (s.alloc i).isSome) : (t.alloc i).isSome := by
  rw [h.keeps i hi]; exact hi

end Ext

/-! ## Changing one block -/

/-- `t` may become `t'` while its transaction goes on. -/
structure Trans.Evolves (t t' : Trans A K) : Prop where
  peer : t'.peerAddr = t.peerAddr
  seqno : t'.seqno = t.seqno
  live : t'.state ≠ waitFree
  awaiting : Awaiting t'.state → Awaiting t.state

namespace Inv

variable {d : Bool} {s : Node A K S N M}

theorem peers_nodup (hs : Inv d s) : s.peers.Nodup := by
  refine (List.nodup_map_iff_inj_on hs.nodup).2 fun i hi j hj h => ?_
  exact hs.peers i j ((hs.listed i).1 hi) ((hs.listed j).1 hj) h

theorem setTrans (hs : Inv d s) {i : Fin N} (hi : (s.alloc i).isSome) {t : Trans A K}
    (ht : (s.mem i).Evolves t) : Inv d (s.setTrans i t) := by
  have hpeer : ∀ j, ((s.setTrans i t).mem j).peerAddr = (s.mem j).peerAddr := by
    intro j
    by_cases hj : j = i
    · subst hj; simp [Node.setTrans, ht.peer]
    · simp [Node.setTrans, hj]
  refine ⟨hs.nodup, hs.listed, ?_, ?_, ?_, hs.uid, hs.uidInj, ?_, hs.fresh, hs.trace, hs.denotes, hs.sound⟩
  · intro j k hj hk h
    rw [hpeer, hpeer] at h
    exact hs.peers j k hj hk h
  · intro j hj
    have hne : j ≠ i := by rintro rfl; simp [show s.alloc j = none from hj] at hi
    simpa [Node.setTrans, hne] using hs.free j hj
  · intro j hj
    by_cases hji : j = i
    · subst hji; simpa [Node.setTrans] using ht.live
    · simpa [Node.setTrans, hji] using hs.live j hj
  · intro j u hj ha
    by_cases hji : j = i
    · subst hji
      simp only [Node.setTrans, Function.update_self] at ha ⊢
      rw [ht.peer, ht.seqno]
      exact hs.opened j u hj (ht.awaiting ha)
    · simp only [Node.setTrans, Function.update_of_ne hji] at ha ⊢
      exact hs.opened j u hj ha

theorem recordAnswer (hs : Inv d s) {o : Obs A} (ho : o.SoundAfter s.trace)
    (hold : ∀ i u, s.alloc i = some u → Awaiting (s.mem i).state → ¬ o.Answers u)
    (hnew : ∀ u, s.nextUid ≤ u → ¬ o.Answers u)
    (hc : d = true → ∀ given found, o = .completion given found → ∃ u, given = some u ∧ found = some u) :
    Inv d (s.record o) := by
  refine ⟨hs.nodup, hs.listed, hs.peers, hs.free, hs.live, hs.uid, hs.uidInj, ?_, ?_, traceOk_snoc hs.trace ho,
    hs.denotes, ?_⟩
  · intro i u hi ha
    obtain ⟨hopen, hnone⟩ := hs.opened i u hi ha
    refine ⟨List.mem_append_left _ hopen, fun p hp => ?_⟩
    rcases List.mem_append.1 hp with hp | hp
    · exact hnone p hp
    · rw [List.mem_singleton] at hp; subst hp; exact hold i u hi ha
  · intro u hu p hp
    rcases List.mem_append.1 hp with hp | hp
    · exact hs.fresh u hu p hp
    · rw [List.mem_singleton] at hp; subst hp; exact hnew u hu
  · intro hd g f hgf
    rcases List.mem_append.1 hgf with hgf | hgf
    · exact hs.sound hd g f hgf
    · rw [List.mem_singleton] at hgf; exact hc hd g f hgf.symm

theorem record (hs : Inv d s) {o : Obs A} (ho : o.SoundAfter s.trace) (hna : ∀ u, ¬ o.Answers u)
    (hc : ∀ given found, o ≠ .completion given found) : Inv d (s.record o) :=
  hs.recordAnswer ho (fun _ u _ _ => hna u) (fun u _ => hna u) fun _ g f h => absurd h (hc g f)

theorem congr (hs : Inv d s) {s' : Node A K S N M} (hmem : s'.mem = s.mem) (hlist : s'.transList = s.transList)
    (hmac : d = true → NoDangling s → NoDangling s') (halloc : s'.alloc = s.alloc)
    (huid : s'.nextUid = s.nextUid) (htr : s'.trace = s.trace) : Inv d s' := by
  refine ⟨by rw [hlist]; exact hs.nodup, by rw [hlist, halloc]; exact hs.listed,
    by rw [halloc, hmem]; exact hs.peers, by rw [halloc, hmem]; exact hs.free,
    by rw [halloc, hmem]; exact hs.live, by rw [halloc, huid]; exact hs.uid,
    by rw [halloc]; exact hs.uidInj, by rw [halloc, hmem, htr]; exact hs.opened,
    by rw [huid, htr]; exact hs.fresh, by rw [htr]; exact hs.trace, fun h => hmac h (hs.denotes h),
    by rw [htr]; exact hs.sound⟩

theorem nbrs (hs : Inv d s) (nb : Fin M → Option (A × UInt8)) : Inv d { s with nbrs := nb } :=
  hs.congr rfl rfl (fun _ h => h) rfl rfl rfl

theorem alloc_of_timer (hs : Inv d s) {i : Fin N} {k : TransTimer} (h : (s.mem i).timer = some k) :
    (s.alloc i).isSome := by
  cases ha : s.alloc i with
  | some u => rfl
  | none => rw [hs.free i ha] at h; simp [Trans.zero] at h

theorem timer (hs : Inv d s) {i : Fin N} (hi : (s.alloc i).isSome) (k : Option TransTimer) :
    Inv d (s.setTrans i { s.mem i with timer := k }) :=
  hs.setTrans hi ⟨rfl, rfl, hs.live i hi, id⟩

theorem setCallback (hs : Inv d s) {i : Fin N} (hi : (s.alloc i).isSome) (k : Option K) :
    Inv d (s.sixpTransSetCallback i k) :=
  hs.setTrans hi ⟨rfl, rfl, hs.live i hi, id⟩

theorem release (hs : Inv d s) {i : Fin N} (hf : d = true → ∀ f ∈ s.mac, f.ptr ≠ some i) :
    Inv d { s with mem := Function.update s.mem i Trans.zero, alloc := Function.update s.alloc i none,
                   transList := s.transList.erase i } := by
  have hal : ∀ j, j ≠ i → Function.update s.alloc i none j = s.alloc j := fun j hj => by simp [hj]
  have hne : ∀ j, (Function.update s.alloc i none j).isSome → j ≠ i := by
    rintro j hj rfl; simp at hj
  have hnes : ∀ j u, Function.update s.alloc i none j = some u → j ≠ i := by
    intro j u hj; exact hne j (by rw [hj]; rfl)
  refine ⟨hs.nodup.erase i, ?_, ?_, ?_, ?_, ?_, ?_, ?_, hs.fresh, hs.trace, ?_, hs.sound⟩
  · intro j
    by_cases hj : j = i
    · subst hj; simp [hs.nodup.not_mem_erase]
    · simp only [hal j hj, List.mem_erase_of_ne hj]; exact hs.listed j
  · intro j k hj hk h
    have hj' := hne j hj; have hk' := hne k hk
    simp only [Function.update_of_ne hj', Function.update_of_ne hk'] at hj hk h
    exact hs.peers j k hj hk h
  · intro j hj
    by_cases hji : j = i
    · subst hji; simp
    · simp only [Function.update_of_ne hji] at hj ⊢; exact hs.free j hj
  · intro j hj
    have hj' := hne j hj
    simp only [Function.update_of_ne hj'] at hj ⊢; exact hs.live j hj
  · intro j u hj
    have hj' := hnes j u hj
    simp only [Function.update_of_ne hj'] at hj; exact hs.uid j u hj
  · intro j k u hj hk
    have hj' := hnes j u hj; have hk' := hnes k u hk
    simp only [Function.update_of_ne hj', Function.update_of_ne hk'] at hj hk
    exact hs.uidInj j k u hj hk
  · intro j u hj
    have hj' := hnes j u hj
    simp only [Function.update_of_ne hj'] at hj ⊢; exact hs.opened j u hj
  · intro hd f hfm j hp
    have hj : j ≠ i := by rintro rfl; exact hf hd f hfm hp
    simpa only [Function.update_of_ne hj] using hs.denotes hd f hfm j hp

end Inv

namespace Ext

variable {s t : Node A K S N M}

omit [Inhabited A] in
theorem step (h : Ext s t) {t' : Node A K S N M} (halloc : t'.alloc = t.alloc) (hmac : t'.mac = t.mac)
    (hmem : ∀ i, (s.alloc i).isSome → Quiet (s.mem i).state → (t'.mem i).state = (t.mem i).state) : Ext s t' := by
  refine ⟨fun i hi => by rw [halloc]; exact h.keeps i hi, fun i hi hq => ?_⟩
  rw [hmem i hi hq, hmac]; exact h.quiet i hi hq

omit [Inhabited A] in
theorem setTrans (h : Ext s t) {i : Fin N} (hi : (s.alloc i).isSome → ¬ Quiet (s.mem i).state) (x : Trans A K) :
    Ext s (t.setTrans i x) := by
  refine h.step rfl rfl fun j hj hq => ?_
  have hne : j ≠ i := by rintro rfl; exact hi hj hq
  simp [Node.setTrans, hne]

omit [Inhabited A] in
theorem setSame (h : Ext s t) {i : Fin N} {x : Trans A K} (hx : x.state = (t.mem i).state) :
    Ext s (t.setTrans i x) := by
  refine h.step rfl rfl fun j _ _ => ?_
  by_cases hj : j = i
  · subst hj; simp [Node.setTrans, hx]
  · simp [Node.setTrans, hj]

end Ext

end Contiki.Sixtop
