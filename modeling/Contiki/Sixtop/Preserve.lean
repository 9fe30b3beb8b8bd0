/-
The functions of sixp-trans.c and sixp.c preserve the invariant, for every scheduling function that
preserves it; so does a scheduling function that answers calls with calls of `sixp_output`.
-/
import Contiki.Sixtop.Invariant

namespace Contiki.Sixtop

open TransState

variable {A K S : Type} {N M : Nat} [Inhabited A] {d : Bool} {s t : Node A K S N M}

/-! ## Upcalls -/

theorem record_peers_inv (hs : Inv d s) : Inv d (s.record (.upcall s.peers)) :=
  hs.record hs.peers_nodup (fun _ h => h) (by simp)

section

variable {h : Handler A K S N M} (hh : h.Ok)

include hh

theorem upcall_inv (hs : Inv d s) (u : Upcall A K) : Inv d (s.upcall h u) :=
  (hh d u _ (record_peers_inv hs)).1

theorem upcall_ext (hs : Inv d t) (hx : Ext s t) (u : Upcall A K) : Ext s (t.upcall h u) :=
  (hx.step rfl rfl fun _ _ _ => rfl : Ext s (t.record (.upcall t.peers))).trans (hh d u _ (record_peers_inv hs)).2

theorem notifyError_inv [DecidableEq A] (hs : Inv d s) (err : SixpError) (i : Fin N) :
    Inv d (s.notifyError h err i) := by
  simp only [Node.notifyError]
  split
  · exact upcall_inv hh hs _
  · exact hs

theorem notifyError_ext [DecidableEq A] (hs : Inv d t) (hx : Ext s t) (err : SixpError) (i : Fin N) :
    Ext s (t.notifyError h err i) := by
  simp only [Node.notifyError]
  split
  · exact upcall_ext hh hs hx _
  · exact hx

theorem invokeCallback_inv [DecidableEq A] (hs : Inv d s) (i : Fin N) (st : OutputStatus) :
    Inv d (s.sixpTransInvokeCallback h i st) := by
  unfold Node.sixpTransInvokeCallback
  split
  · exact hs
  · exact upcall_inv hh hs _

theorem invokeCallback_ext [DecidableEq A] (hs : Inv d t) (hx : Ext s t) (i : Fin N) (st : OutputStatus) :
    Ext s (t.sixpTransInvokeCallback h i st) := by
  unfold Node.sixpTransInvokeCallback
  split
  · exact hx
  · exact upcall_ext hh hs hx _

end

/-! ## Transitions -/

omit [Inhabited A] in
theorem overrideNextSeqno_eq [DecidableEq A] (x : Trans A K) (s : Node A K S N M) :
    ∃ nb, s.overrideNextSeqno x = { s with nbrs := nb } := by
  unfold Node.overrideNextSeqno
  split
  · exact ⟨s.nbrs, rfl⟩
  · split
    · exact ⟨s.nbrs, rfl⟩
    · exact ⟨_, rfl⟩

theorem transitAllowed_spec {new state : TransState} {mode : TransMode}
    (h : Node.transitAllowed new state mode = true) :
    new ≠ waitFree ∧ new ≠ init ∧ (Awaiting new → Awaiting state) := by
  revert h
  cases new <;> cases state <;> simp [Node.transitAllowed, Awaiting]

variable [DecidableEq A] {h : Handler A K S N M}

omit [Inhabited A] in
theorem transit_cases (h : Handler A K S N M) (i : Fin N) (new : TransState) (s : Node A K S N M) :
    (Node.transitAllowed new (s.mem i).state (s.mem i).mode = true ∧ ∃ nb,
      s.sixpTransTransitState h i new =
        (true, ({ s with nbrs := nb } : Node A K S N M).setTrans i
          { s.mem i with state := new, timer := some .processTrans })) ∨
    (Node.transitAllowed new (s.mem i).state (s.mem i).mode = false ∧
      s.sixpTransTransitState h i new = (false, s.notifyError h .invalidTransStateTransition i)) := by
  unfold Node.sixpTransTransitState
  by_cases ha : Node.transitAllowed new (s.mem i).state (s.mem i).mode = true
  · refine Or.inl ⟨ha, ?_⟩
    obtain ⟨nb, hnb⟩ := overrideNextSeqno_eq (s.mem i) s
    simp only [ha, if_true]
    by_cases hr : new = responseSent
    · exact ⟨nb, by simp [hr, hnb, Node.setTrans, Node.scheduleTransProcess]⟩
    · exact ⟨s.nbrs, by simp [hr, Node.setTrans, Node.scheduleTransProcess]⟩
  · rw [Bool.not_eq_true] at ha
    exact Or.inr ⟨ha, by simp [ha]⟩

omit [Inhabited A] in
theorem transit_terminating (h : Handler A K S N M) (i : Fin N) (s : Node A K S N M) :
    s.sixpTransTransitState h i terminating =
      (true, s.setTrans i { s.mem i with state := terminating, timer := some .processTrans }) := by
  simp [Node.sixpTransTransitState, Node.transitAllowed, Node.setTrans, Node.scheduleTransProcess]

theorem transit_inv (hh : h.Ok) (hs : Inv d s) {i : Fin N} (hi : (s.alloc i).isSome) (new : TransState) :
    Inv d (s.sixpTransTransitState h i new).2 := by
  rcases transit_cases h i new s with ⟨ha, nb, he⟩ | ⟨_, he⟩ <;> rw [he]
  · obtain ⟨hw, _, hawait⟩ := transitAllowed_spec ha
    exact (hs.nbrs nb).setTrans hi ⟨rfl, rfl, hw, hawait⟩
  · exact notifyError_inv hh hs _ i

theorem transit_ext (hh : h.Ok) (hs : Inv d t) (hx : Ext s t) {i : Fin N}
    (hi : (s.alloc i).isSome → ¬ Quiet (s.mem i).state) (new : TransState) :
    Ext s (t.sixpTransTransitState h i new).2 := by
  rcases transit_cases h i new t with ⟨_, nb, he⟩ | ⟨_, he⟩ <;> rw [he]
  · exact (hx.step rfl rfl fun _ _ _ => rfl : Ext s { t with nbrs := nb }).setTrans hi _
  · exact notifyError_ext hh hs hx _ i

/-! ## Release and the timer callbacks -/

omit [DecidableEq A] in
theorem sixpTransFree_eq {i : Fin N} (hw : (s.mem i).state ≠ waitFree) (hr : (s.mem i).state ≠ requestSending)
    (hp : (s.mem i).state ≠ responseSending) (hc : (s.mem i).state ≠ confirmationSending) :
    s.sixpTransFree i =
      { s with mem := Function.update s.mem i Trans.zero, alloc := Function.update s.alloc i none,
               transList := s.transList.erase i } := by
  simp [Node.sixpTransFree, Node.ctimerStop, Node.setTrans, hw, hr, hp, hc]

omit [DecidableEq A] in
theorem sixpTransFree_terminating {i : Fin N} (hi : (s.mem i).state = terminating) :
    s.sixpTransFree i =
      { s with mem := Function.update s.mem i Trans.zero, alloc := Function.update s.alloc i none,
               transList := s.transList.erase i } := by
  apply sixpTransFree_eq <;> simp [hi]

omit [Inhabited A] in
theorem processTransState_cases (h : Handler A K S N M) (i : Fin N) (s : Node A K S N M) :
    s.processTransState h i = s ∨ s.processTransState h i = (s.sixpTransTransitState h i terminating).2 := by
  unfold Node.processTransState
  split
  · split
    · exact Or.inr rfl
    · exact Or.inl rfl
  · split
    · exact Or.inr rfl
    · exact Or.inl rfl
  · exact Or.inr rfl
  · exact Or.inr rfl
  · exact Or.inl rfl

theorem processTrans_inv_of_ne (hh : h.Ok) (hs : Inv d s) {i : Fin N} (hi : (s.alloc i).isSome)
    (hne : (s.mem i).state ≠ terminating) : Inv d (s.processTrans h i) := by
  have h0 : Inv d (s.ctimerStop i) := hs.timer hi none
  have hne' : ((s.ctimerStop i).mem i).state ≠ terminating := by simpa [Node.ctimerStop, Node.setTrans] using hne
  have h1 : Inv d ((s.ctimerStop i).processTransState h i) ∧
      (((s.ctimerStop i).processTransState h i).alloc i).isSome := by
    rcases processTransState_cases h i (s.ctimerStop i) with he | he <;> rw [he]
    · exact ⟨h0, hi⟩
    · exact ⟨transit_inv hh h0 hi _, by rw [transit_terminating]; exact hi⟩
  simp only [Node.processTrans, if_neg hne']
  split
  · exact h1.1.timer h1.2 _
  · exact h1.1

theorem processTrans_terminating {i : Fin N} (hi : (s.mem i).state = terminating) :
    s.processTrans h i =
      { s with mem := Function.update s.mem i Trans.zero, alloc := Function.update s.alloc i none,
               transList := s.transList.erase i } := by
  have hi' : ((s.ctimerStop i).mem i).state = terminating := by simpa [Node.ctimerStop, Node.setTrans] using hi
  simp only [Node.processTrans, if_pos hi', sixpTransFree_terminating hi']
  simp [Node.ctimerStop, Node.setTrans]

theorem handleTransTimeout_inv (hh : h.Ok) (hs : Inv d s) {i : Fin N} (hi : (s.alloc i).isSome) :
    Inv d (s.handleTransTimeout h i) := by
  simp only [Node.handleTransTimeout]
  split
  · exact transit_inv hh (upcall_inv hh hs _) ((upcall_ext hh hs (Ext.refl s) _).some hi) _
  · exact transit_inv hh hs hi _

/-! ## MAC completions -/

omit [DecidableEq A] [Inhabited A] in
theorem macCallbackState_spec {st : MacStatus} {state : TransState} (hne : Node.macCallbackState st state ≠ state) :
    ¬ Quiet state ∧ state ≠ unavailable := by
  revert hne
  cases state <;> by_cases hst : st = .ok <;> simp [Node.macCallbackState, Quiet, hst]

theorem macCallback_free (hs : Inv d s) {i : Fin N} (hi : s.alloc i = none) (st : MacStatus) :
    s.macCallback h i st = s := by
  have hz := hs.free i hi
  have hst : Node.macCallbackState st unavailable = unavailable := by
    by_cases h : st = .ok <;> simp [Node.macCallbackState, h]
  have hself : s.sixpTransSetCallback i none = s := by
    simp only [Node.sixpTransSetCallback, Node.setTrans, hz, Trans.zero]
    rw [show (⟨none, default, 0, 0, unavailable, .unavailable, none, none⟩ : Trans A K) = s.mem i by
      rw [hz]; rfl, Function.update_eq_self]
  simpa [Node.macCallback, hz, Trans.zero, hst, Node.sixpTransInvokeCallback] using hself

/-- What `mac_callback` does to the invariant, and what it leaves alone where the transaction is
allocated. -/
theorem macCallback_inv (hh : h.Ok) (hs : Inv d s) (i : Fin N) (st : MacStatus) : Inv d (s.macCallback h i st) := by
  cases hi : s.alloc i with
  | none => rw [macCallback_free hs hi]; exact hs
  | some u =>
    have hi : (s.alloc i).isSome := by rw [hi]; rfl
    have hdone : ∀ t : Node A K S N M, Inv d t → (t.alloc i).isSome → ∀ o,
        Inv d ((t.sixpTransInvokeCallback h i o).sixpTransSetCallback i none) := fun t ht hit o =>
      (invokeCallback_inv hh ht i o).setCallback ((invokeCallback_ext hh ht (Ext.refl t) i o).some hit) none
    simp only [Node.macCallback, if_neg (hs.live i hi)]
    by_cases hne : Node.macCallbackState st (s.mem i).state ≠ (s.mem i).state
    · rw [if_pos hne]
      rcases transit_cases h i (Node.macCallbackState st (s.mem i).state) s with ⟨_, nb, he⟩ | ⟨_, he⟩
      · have hinv := transit_inv hh hs hi (Node.macCallbackState st (s.mem i).state)
        rw [he] at hinv ⊢
        exact hdone _ hinv hi _
      · rw [he]
        exact transit_inv hh (notifyError_inv hh hs _ i) ((notifyError_ext hh hs (Ext.refl s) _ i).some hi) _
    · rw [if_neg hne]
      exact hdone s hs hi _

theorem macCallback_ext (hh : h.Ok) (hs : Inv d t) (hx : Ext s t) (i : Fin N) (st : MacStatus) :
    Ext s (t.macCallback h i st) := by
  cases hi : t.alloc i with
  | none => rw [macCallback_free hs hi]; exact hx
  | some u =>
    have hi : (t.alloc i).isSome := by rw [hi]; rfl
    have hdone : ∀ t : Node A K S N M, Inv d t → Ext s t → ∀ o,
        Ext s ((t.sixpTransInvokeCallback h i o).sixpTransSetCallback i none) := fun t ht hxt o =>
      (invokeCallback_ext hh ht hxt i o).setSame rfl
    simp only [Node.macCallback, if_neg (hs.live i hi)]
    by_cases hne : Node.macCallbackState st (t.mem i).state ≠ (t.mem i).state
    · have hq : (s.alloc i).isSome → ¬ Quiet (s.mem i).state := by
        intro hsi hsq
        rw [← (hx.quiet i hsi hsq).1] at hsq
        exact (macCallbackState_spec hne).1 hsq
      rw [if_pos hne]
      have hinv := transit_inv hh hs hi (Node.macCallbackState st (t.mem i).state)
      have hext := transit_ext hh hs hx hq (Node.macCallbackState st (t.mem i).state)
      rcases transit_cases h i (Node.macCallbackState st (t.mem i).state) t with ⟨_, nb, he⟩ | ⟨_, he⟩
      · rw [he] at hinv hext ⊢
        exact hdone _ hinv hext _
      · rw [he] at hinv hext ⊢
        exact transit_ext hh hinv hext hq _
    · rw [if_neg hne]
      exact hdone t hs hx _

omit [DecidableEq A] in
theorem record_completion_inv (hs : Inv d s) {given found : Option Nat}
    (hc : d = true → ∃ u, given = some u ∧ found = some u) : Inv d (s.record (.completion given found)) := by
  refine hs.recordAnswer trivial (fun _ _ _ _ h => h) (fun _ _ h => h) fun hd g f h => ?_
  cases h; exact hc hd

theorem macComplete_inv (hh : h.Ok) (hs : Inv d s) (i : Fin N) {given : Option Nat}
    (hc : d = true → ∃ u, given = some u ∧ s.alloc i = some u) (st : MacStatus) : Inv d (s.macComplete h i given st) :=
  macCallback_inv hh (record_completion_inv hs hc) i st

theorem macComplete_ext (hh : h.Ok) (hs : Inv d t) (hx : Ext s t) (i : Fin N) {given : Option Nat}
    (hc : d = true → ∃ u, given = some u ∧ t.alloc i = some u) (st : MacStatus) : Ext s (t.macComplete h i given st) :=
  macCallback_ext hh (record_completion_inv hs hc) (hx.step rfl rfl fun _ _ _ => rfl) i st

omit [Inhabited A] [DecidableEq A] in
theorem alloc_self {i : Fin N} (hi : (s.alloc i).isSome) : ∃ u, s.alloc i = some u ∧ s.alloc i = some u := by
  obtain ⟨u, hu⟩ := Option.isSome_iff_exists.1 hi
  exact ⟨u, hu, hu⟩

theorem sixtopOutput_inv (hh : h.Ok) (hs : Inv d s) (mac : MacOutcome) (dest : A) (bytes : List UInt8)
    (ptr : Option (Fin N)) (hp : ∀ i, ptr = some i → (s.alloc i).isSome) :
    Inv d (s.sixtopOutput h mac dest bytes ptr).2 := by
  cases mac with
  | noRoom => exact hs
  | fatal =>
    cases ptr with
    | none => exact hs
    | some i => exact macComplete_inv hh hs i (fun _ => alloc_self (hp i rfl)) _
  | sync st =>
    cases ptr with
    | none => exact hs
    | some i => exact macComplete_inv hh hs i (fun _ => alloc_self (hp i rfl)) _
  | queued =>
    refine hs.congr rfl rfl (fun _ hd f hf i hi => ?_) rfl rfl rfl
    rcases List.mem_append.1 hf with hf | hf
    · exact hd f hf i hi
    · rw [List.mem_singleton] at hf
      subst hf
      subst hi
      exact alloc_self (hp i rfl)

theorem sixtopOutput_ext (hh : h.Ok) (hs : Inv d t) (hx : Ext s t) (mac : MacOutcome) (dest : A)
    (bytes : List UInt8) {i : Fin N} (hi : (t.alloc i).isSome) (hq : (s.alloc i).isSome → ¬ Quiet (s.mem i).state) :
    Ext s (t.sixtopOutput h mac dest bytes (some i)).2 := by
  cases mac with
  | noRoom => exact hx
  | fatal => exact macComplete_ext hh hs hx i (fun _ => alloc_self hi) _
  | sync st => exact macComplete_ext hh hs hx i (fun _ => alloc_self hi) _
  | queued =>
    refine ⟨hx.keeps, fun j hj hqj => ⟨(hx.quiet j hj hqj).1, fun f hf hfp => ?_⟩⟩
    rcases List.mem_append.1 hf with hf | hf
    · exact (hx.quiet j hj hqj).2 f hf hfp
    · rw [List.mem_singleton] at hf
      subst hf
      cases hfp
      exact absurd hqj (hq hj)

/-! ## Allocation -/

omit [Inhabited A] in
theorem sixpTransFind_some {peer : A} {i : Fin N} (hf : s.sixpTransFind peer = some i) :
    i ∈ s.transList ∧ (s.mem i).peerAddr = peer :=
  ⟨List.mem_of_find?_eq_some hf, by simpa using List.find?_some hf⟩

theorem sixpTransFind_none {peer : A} (hs : Inv d s) (hf : s.sixpTransFind peer = none) {i : Fin N}
    (hi : (s.alloc i).isSome) : (s.mem i).peerAddr ≠ peer := by
  have hall := List.find?_eq_none.1 hf i ((hs.listed i).2 hi)
  simpa using hall

/-- Where `sixp_trans_alloc` succeeds: a free block, no transaction with the peer, and the block
initialised for the packet. -/
theorem sixpTransAlloc_some {pkt : Pkt} {peer : A} {i : Fin N} {s' : Node A K S N M} (hs : Inv d s)
    (ha : s.sixpTransAlloc pkt peer = some (i, s')) :
    s.alloc i = none ∧ s.sixpTransFind peer = none ∧ ∃ sf, s.sixtopFindSf pkt.sfid = some sf ∧
      s' = { s with
        mem := Function.update s.mem i
          ⟨some sf, peer, pkt.seqno, pkt.code, init, Node.determineTransMode pkt, none, some .handleTransTimeout⟩
        alloc := Function.update s.alloc i (some s.nextUid), nextUid := s.nextUid + 1
        transList := s.transList ++ [i] } := by
  unfold Node.sixpTransAlloc at ha
  split at ha
  · cases ha
  · rename_i sf hsf
    split at ha
    · cases ha
    · rename_i hfind
      split at ha
      · cases ha
      · rename_i j hj
        simp only [Option.some.injEq, Prod.mk.injEq] at ha
        obtain ⟨rfl, rfl⟩ := ha
        have hfree : s.alloc j = none := by simpa using List.find?_some hj
        have hnl : j ∉ s.transList := by rw [hs.listed, hfree]; simp
        refine ⟨hfree, by simpa using hfind, sf, hsf, ?_⟩
        simp [Node.startTransTimer, Node.setTrans, List.erase_of_not_mem hnl]

omit [DecidableEq A] in
theorem Inv.add (hs : Inv d s) {i : Fin N} (hi : s.alloc i = none) {x : Trans A K}
    (hpeer : ∀ j, (s.alloc j).isSome → (s.mem j).peerAddr ≠ x.peerAddr) (hw : x.state ≠ waitFree)
    (hopen : Awaiting x.state → .opened s.nextUid x.peerAddr x.seqno ∈ s.trace) :
    Inv d { s with mem := Function.update s.mem i x, alloc := Function.update s.alloc i (some s.nextUid),
                   nextUid := s.nextUid + 1, transList := s.transList ++ [i] } := by
  have hnl : i ∉ s.transList := by rw [hs.listed, hi]; simp
  have hmem : ∀ j, j ≠ i → Function.update s.mem i x j = s.mem j := fun j hj => by simp [hj]
  have hal : ∀ j, j ≠ i → Function.update s.alloc i (some s.nextUid) j = s.alloc j := fun j hj => by simp [hj]
  refine ⟨?_, ?_, ?_, ?_, ?_, ?_, ?_, ?_, ?_, hs.trace, ?_, hs.sound⟩
  · exact List.nodup_append.2 ⟨hs.nodup, List.nodup_singleton i, fun a ha b hb => by
      rw [List.mem_singleton] at hb; subst hb; rintro rfl; exact hnl ha⟩
  · intro j
    by_cases hj : j = i
    · subst hj; simp
    · simp only [List.mem_append, List.mem_singleton, hj, or_false, hal j hj]; exact hs.listed j
  · intro j k hj hk hjk
    by_cases hji : j = i <;> by_cases hki : k = i
    · rw [hji, hki]
    · subst hji
      simp only [Function.update_self, hmem k hki, hal k hki] at hk hjk
      exact absurd hjk.symm (hpeer k hk)
    · subst hki
      simp only [Function.update_self, hmem j hji, hal j hji] at hj hjk
      exact absurd hjk (hpeer j hj)
    · simp only [hmem j hji, hmem k hki, hal j hji, hal k hki] at hj hk hjk
      exact hs.peers j k hj hk hjk
  · intro j hj
    have hji : j ≠ i := by rintro rfl; simp at hj
    simp only [hmem j hji, hal j hji] at hj ⊢; exact hs.free j hj
  · intro j hj
    by_cases hji : j = i
    · subst hji; simpa using hw
    · simp only [hmem j hji, hal j hji] at hj ⊢; exact hs.live j hj
  · intro j u hj
    by_cases hji : j = i
    · subst hji
      simp only [Function.update_self, Option.some.injEq] at hj
      show u < s.nextUid + 1; omega
    · simp only [hal j hji] at hj; have := hs.uid j u hj; show u < s.nextUid + 1; omega
  · intro j k u hj hk
    by_cases hji : j = i <;> by_cases hki : k = i
    · rw [hji, hki]
    · subst hji
      simp only [Function.update_self, Option.some.injEq, hal k hki] at hj hk
      have := hs.uid k u hk; omega
    · subst hki
      simp only [Function.update_self, Option.some.injEq, hal j hji] at hj hk
      have := hs.uid j u hj; omega
    · simp only [hal j hji, hal k hki] at hj hk; exact hs.uidInj j k u hj hk
  · intro j u hj ha
    by_cases hji : j = i
    · subst hji
      simp only [Function.update_self, Option.some.injEq] at hj ha ⊢
      subst hj
      exact ⟨hopen ha, hs.fresh _ le_rfl⟩
    · simp only [hmem j hji, hal j hji] at hj ha ⊢; exact hs.opened j u hj ha
  · intro u hu
    exact hs.fresh u (Nat.le_of_succ_le hu)
  · intro hd f hf j hp
    obtain ⟨u, ho, hu⟩ := hs.denotes hd f hf j hp
    have hji : j ≠ i := by rintro rfl; rw [hi] at hu; cases hu
    exact ⟨u, ho, (hal j hji).trans hu⟩

omit [Inhabited A] [DecidableEq A] in
theorem Ext.add (h : Ext s t) {i : Fin N} (hi : s.alloc i = none) {x : Trans A K} {u : Option Nat} {n : Nat}
    {l : List (Fin N)} {tr : List (Obs A)} :
    Ext s { t with mem := Function.update t.mem i x, alloc := Function.update t.alloc i u,
                   nextUid := n, transList := l, trace := tr } := by
  have hne : ∀ j, (s.alloc j).isSome → j ≠ i := by rintro j hj rfl; rw [hi] at hj; cases hj
  refine ⟨fun j hj => ?_, fun j hj hq => ?_⟩
  · simpa only [Function.update_of_ne (hne j hj)] using h.keeps j hj
  · simpa only [Function.update_of_ne (hne j hj)] using h.quiet j hj hq

/-! ## Output -/

omit [Inhabited A] in
theorem outputNbr_eq {a : OutputArgs A K M} {tr : Option (Fin N)} {nbr : Option (Fin M)} {s' : Node A K S N M}
    (ho : s.outputNbr a tr = some (nbr, s')) : ∃ nb, s' = { s with nbrs := nb } := by
  unfold Node.outputNbr at ho
  split at ho
  · simp only [Option.some.injEq, Prod.mk.injEq] at ho
    exact ⟨s.nbrs, ho.2.symm⟩
  · simp only [Node.sixpNbrAlloc] at ho
    split at ho
    · split at ho
      · cases ho
      · simp only [Option.map_eq_some_iff, Prod.mk.injEq] at ho
        obtain ⟨_, ⟨j, _, rfl⟩, _, rfl⟩ := ho
        exact ⟨_, rfl⟩
    · simp only [Option.some.injEq, Prod.mk.injEq] at ho
      exact ⟨s.nbrs, ho.2.symm⟩

theorem outputTrans_spec {a : OutputArgs A K M} {seqno : UInt8} {tr : Option (Fin N)} {i : Fin N}
    {s' : Node A K S N M} (hs : Inv d s) (ho : s.outputTrans a seqno tr = some (i, s')) :
    (a.type = .request ∧ s.alloc i = none ∧ Inv d s' ∧ (s'.alloc i).isSome ∧ Ext s s' ∧ s'.mac = s.mac ∧
        (s'.mem i).state = init) ∨ (a.type ≠ .request ∧ tr = some i ∧ s' = s) := by
  unfold Node.outputTrans at ho
  split at ho
  · rename_i ht
    split at ho
    · cases ho
    · rename_i j s1 ha
      simp only [Option.some.injEq, Prod.mk.injEq] at ho
      obtain ⟨rfl, rfl⟩ := ho
      obtain ⟨hfree, hfind, sf, _, rfl⟩ := sixpTransAlloc_some hs ha
      have hrec : Inv d (s.record (.opened s.nextUid a.dest seqno)) := hs.record trivial (fun _ h => h) (by simp)
      refine Or.inl ⟨ht, hfree, ?_, by simp [Node.record], (Ext.refl s).add hfree, rfl, by simp [Node.record]⟩
      exact hrec.add hfree (fun j hj => sixpTransFind_none hs hfind hj) (by simp) fun _ => by simp [Node.record]
  · rename_i ht
    simp only [Option.map_eq_some_iff, Prod.mk.injEq] at ho
    obtain ⟨j, rfl, rfl, rfl⟩ := ho
    exact Or.inr ⟨ht, rfl, rfl⟩

omit [Inhabited A] [DecidableEq A] in
theorem outputNextSeqno_eq (code : PktCode) (nbr : Option (Fin M)) (s : Node A K S N M) :
    ∃ nb, s.outputNextSeqno code nbr = { s with nbrs := nb } := by
  unfold Node.outputNextSeqno
  split
  · exact ⟨s.nbrs, rfl⟩
  · split
    · exact ⟨_, rfl⟩
    · exact ⟨_, rfl⟩

theorem outputSent_inv (hh : h.Ok) (hs : Inv d s) {i : Fin N} (hi : (s.alloc i).isSome) (code : PktCode)
    (nbr : Option (Fin M)) : Inv d (s.outputSent h code nbr i) := by
  obtain ⟨nb, hnb⟩ := outputNextSeqno_eq code nbr s
  unfold Node.outputSent
  split
  · rw [hnb]; exact transit_inv hh (hs.nbrs nb) hi _
  · exact transit_inv hh hs hi _
  · exact transit_inv hh hs hi _
  · exact hs

theorem outputSent_ext (hh : h.Ok) (hs : Inv d t) (hx : Ext s t) {i : Fin N}
    (hi : (s.alloc i).isSome → ¬ Quiet (s.mem i).state) (code : PktCode) (nbr : Option (Fin M)) :
    Ext s (t.outputSent h code nbr i) := by
  obtain ⟨nb, hnb⟩ := outputNextSeqno_eq code nbr t
  unfold Node.outputSent
  split
  · rw [hnb]; exact transit_ext hh (hs.nbrs nb) (hx.step rfl rfl fun _ _ _ => rfl) hi _
  · exact transit_ext hh hs hx hi _
  · exact transit_ext hh hs hx hi _
  · exact hx

theorem abort_ok (hh : h.Ok) (hs : Inv d t) (hx : Ext s t) {i : Fin N} (hi : s.alloc i = none)
    (hti : (t.alloc i).isSome) (hf : d = true → ∀ f ∈ t.mac, f.ptr ≠ some i) :
    Inv d (t.sixpTransAbort h i) ∧ Ext s (t.sixpTransAbort h i) := by
  have hquiet : (s.alloc i).isSome → ¬ Quiet (s.mem i).state := by rw [hi]; intro h; cases h
  simp only [Node.sixpTransAbort, transit_terminating]
  generalize ht1 : t.setTrans i { t.mem i with state := terminating, timer := some .processTrans } = t1
  have h1 : Inv d t1 := by
    have := transit_inv hh hs hti terminating
    rw [transit_terminating] at this
    rw [← ht1]; exact this
  have hst : (t1.mem i).state = terminating := by rw [← ht1]; simp [Node.setTrans]
  have hal : (t1.alloc i).isSome := by rw [← ht1]; exact hti
  have hmac : t1.mac = t.mac := by rw [← ht1]; rfl
  have hx1 : Ext s t1 := by rw [← ht1]; exact hx.setTrans hquiet _
  have h2 : Inv d (t1.sixpTransInvokeCallback h i .aborted) := invokeCallback_inv hh h1 i _
  have hx2 : Ext s (t1.sixpTransInvokeCallback h i .aborted) := invokeCallback_ext hh h1 hx1 i _
  have hx12 : Ext t1 (t1.sixpTransInvokeCallback h i .aborted) := invokeCallback_ext hh h1 (Ext.refl t1) i _
  generalize t1.sixpTransInvokeCallback h i .aborted = t2 at h2 hx2 hx12 ⊢
  obtain ⟨hst2, hf2⟩ := hx12.quiet i hal (Or.inr hst)
  have h3 : Inv d (t2.ctimerStop i) := h2.timer (hx12.some hal) none
  have hst3 : ((t2.ctimerStop i).mem i).state = terminating := by
    simp [Node.ctimerStop, Node.setTrans, hst2, hst]
  rw [processTrans_terminating hst3]
  refine ⟨h3.release fun hd f hfm hp => ?_, ?_⟩
  · have hft := hf2 f hfm hp
    rw [hmac] at hft
    exact hf hd f hft hp
  · exact (hx2.setSame rfl : Ext s (t2.ctimerStop i)).add hi

theorem sixtopOutput_alloc (hh : h.Ok) (hs : Inv d s) (mac : MacOutcome) (dest : A) (bytes : List UInt8)
    {i : Fin N} (hi : (s.alloc i).isSome) : ((s.sixtopOutput h mac dest bytes (some i)).2.alloc i).isSome := by
  cases mac with
  | noRoom => exact hi
  | fatal => exact (macComplete_ext hh hs (Ext.refl s) i (fun _ => alloc_self hi) _).some hi
  | sync st => exact (macComplete_ext hh hs (Ext.refl s) i (fun _ => alloc_self hi) _).some hi
  | queued => exact hi

theorem sixtopOutput_failed (hh : h.Ok) (hs : Inv d s) (mac : MacOutcome) (dest : A) (bytes : List UInt8)
    {i : Fin N} (hi : (s.alloc i).isSome) (hq : Quiet (s.mem i).state)
    (hr : (s.sixtopOutput h mac dest bytes (some i)).1 = false) :
    ∀ f ∈ (s.sixtopOutput h mac dest bytes (some i)).2.mac, f.ptr = some i → f ∈ s.mac := by
  cases mac with
  | noRoom => exact fun f hf _ => hf
  | fatal => exact ((macComplete_ext hh hs (Ext.refl s) i (fun _ => alloc_self hi) .errFatal).quiet i hi hq).2
  | sync st => cases hr
  | queued => cases hr

theorem outputSend_ok (hh : h.Ok) (hs : Inv d t) (hx : Ext s t) (a : OutputArgs A K M) (bytes : List UInt8)
    (nbr : Option (Fin M)) {i : Fin N} (hti : (t.alloc i).isSome)
    (hi : (s.alloc i = none ∧ (t.mem i).state = init ∧ (d = true → ∀ f ∈ t.mac, f.ptr ≠ some i)) ∨
      (a.type ≠ .request ∧ ¬ Quiet (s.mem i).state)) :
    Inv d (t.outputSend h a bytes nbr i) ∧ Ext s (t.outputSend h a bytes nbr i) := by
  have hquiet : (s.alloc i).isSome → ¬ Quiet (s.mem i).state := by
    rcases hi with ⟨hi, _⟩ | ⟨_, hi⟩
    · rw [hi]; intro h; cases h
    · exact fun _ => hi
  have h1 : Inv d (t.sixpTransSetCallback i a.callback) := hs.setCallback hti _
  have hx1 : Ext s (t.sixpTransSetCallback i a.callback) := hx.setSame rfl
  have h2 := sixtopOutput_inv hh h1 a.env.mac a.dest bytes (some i) fun j hj => by cases hj; exact hti
  have hx2 := sixtopOutput_ext hh h1 hx1 a.env.mac a.dest bytes hti hquiet
  have hal2 := sixtopOutput_alloc hh h1 a.env.mac a.dest bytes hti
  have hfail := sixtopOutput_failed hh h1 a.env.mac a.dest bytes hti
  unfold Node.outputSend
  generalize hr : (t.sixpTransSetCallback i a.callback).sixtopOutput h a.env.mac a.dest bytes (some i) = r
    at h2 hx2 hal2 hfail ⊢
  obtain ⟨ok, t2⟩ := r
  cases ok with
  | true => exact ⟨outputSent_inv hh h2 hal2 _ _, outputSent_ext hh h2 hx2 hquiet _ _⟩
  | false =>
    rcases hi with ⟨hi, hst, hf⟩ | ⟨hne, _⟩
    · dsimp only
      split
      · refine abort_ok hh h2 hx2 hi hal2 fun hd f hfm hp => ?_
        have hst' : ((t.sixpTransSetCallback i a.callback).mem i).state = init := by
          simpa [Node.sixpTransSetCallback, Node.setTrans] using hst
        exact hf hd f (hfail (Or.inl hst') rfl f hfm hp) hp
      · exact ⟨h2, hx2⟩
    · simp only [if_neg hne]
      exact ⟨h2, hx2⟩

theorem sixpOutput_ok (hh : h.Ok) (hs : Inv d s) (a : OutputArgs A K M) :
    Inv d (s.sixpOutput h a).2 ∧ Ext s (s.sixpOutput h a).2 := by
  simp only [Node.sixpOutput]
  split
  swap
  · exact ⟨hs, Ext.refl s⟩
  · rename_i hready
    split
    · exact ⟨hs, Ext.refl s⟩
    · rename_i nbr s1 hnbr
      obtain ⟨nb, rfl⟩ := outputNbr_eq hnbr
      have h1 : Inv d { s with nbrs := nb } := hs.nbrs nb
      have hx1 : Ext s { s with nbrs := nb } := (Ext.refl s).step rfl rfl fun _ _ _ => rfl
      split
      · exact ⟨h1, hx1⟩
      · rename_i bytes _
        split
        · exact ⟨h1, hx1⟩
        · rename_i i s2 htrans
          rcases outputTrans_spec h1 htrans with ⟨_, hfree, h2, hal, hx2, hmac, hst⟩ | ⟨hne, hfind, rfl⟩
          · refine outputSend_ok hh h2 (hx1.trans hx2) a _ nbr hal (Or.inl ⟨hfree, hst, fun hd f hf hp => ?_⟩)
            rw [hmac] at hf
            obtain ⟨u, _, hu⟩ := hs.denotes hd f hf i hp
            rw [show s.alloc i = none from hfree] at hu; cases hu
          · have hlist := (sixpTransFind_some hfind).1
            have hal : (s.alloc i).isSome := (hs.listed i).1 hlist
            refine outputSend_ok hh h1 hx1 a _ nbr hal (Or.inr ⟨hne, ?_⟩)
            rw [hfind] at hready
            cases hty : a.type <;> rw [hty] at hready hne <;> simp [Node.outputReady] at hready hne <;>
              simp [Quiet, hready]

/-! ## Input -/

theorem sendBackError_inv (hh : h.Ok) (hs : Inv d s) (env : Env M) (type : PktType) (rc : PktCode) (pkt : Pkt)
    (dest : A) : Inv d (s.sendBackError h env type rc pkt dest) := by
  unfold Node.sendBackError
  split
  · split
    · exact hs
    · exact sixtopOutput_inv hh hs _ _ _ none fun i hi => by cases hi
  · exact (sixpOutput_ok hh hs _).1

theorem handleScheduleInconsistency_inv (hh : h.Ok) (hs : Inv d s) (env : Env M) (sf : Sf) (pkt : Pkt) (peer : A) :
    Inv d (s.handleScheduleInconsistency h env sf pkt peer) := by
  have h1 := sendBackError_inv hh hs env .response Rc.errSeqnum pkt peer
  simp only [Node.handleScheduleInconsistency]
  split
  · exact upcall_inv hh h1 _
  · exact h1

theorem inputRecord_inv (hh : h.Ok) (hs : Inv d s) (pkt : Pkt) {src : A} {i : Fin N} {s1 : Node A K S N M}
    (hi : (s.alloc i).isSome) (hsrc : (s.mem i).peerAddr = src) (hseq : (s.mem i).seqno = pkt.seqno)
    (hok : s.sixpTransTransitState h i (Node.inputState pkt.type) = (true, s1)) :
    Inv d (s1.record (.input pkt.type pkt.seqno src (s.alloc i) (s.mem i).state (s.mem i).mode)) := by
  obtain ⟨u, hu⟩ := Option.isSome_iff_exists.1 hi
  have hinv := transit_inv hh hs hi (Node.inputState pkt.type)
  rw [hok] at hinv
  rcases transit_cases h i (Node.inputState pkt.type) s with ⟨ha, nb, he⟩ | ⟨_, he⟩
  swap
  · rw [hok] at he; cases he
  have hs1 := congrArg Prod.snd (hok.symm.trans he)
  dsimp only at hs1 hinv
  have htr : s1.trace = s.trace := by rw [hs1]; rfl
  have hst1 : (s1.mem i).state = Node.inputState pkt.type := by rw [hs1]; simp [Node.setTrans]
  have hal1 : s1.alloc = s.alloc := by rw [hs1]; rfl
  have hn1 : s1.nextUid = s.nextUid := by rw [hs1]; rfl
  clear hs1 he hok
  cases hty : pkt.type with
  | request => exact hinv.record trivial (fun _ h => h) (by simp)
  | reserved => exact hinv.record trivial (fun _ h => h) (by simp)
  | confirmation =>
    refine hinv.record ?_ (fun _ h => h) (by simp)
    rw [hty] at ha
    show (s.mem i).mode = .threeStep ∧ _
    cases hst : (s.mem i).state <;> rw [hst] at ha <;> simp [Node.inputState, Node.transitAllowed] at ha <;>
      simp [ha]
  | response =>
    rw [hty] at ha hst1
    have hstate : (s.mem i).state = requestSending ∨ (s.mem i).state = requestSent := by
      cases hst : (s.mem i).state <;> rw [hst] at ha <;> simp [Node.inputState, Node.transitAllowed] at ha <;>
        simp
    obtain ⟨hopen, hnone⟩ := hs.opened i u hu (Or.inr hstate)
    rw [hsrc, hseq] at hopen
    rw [hu]
    refine hinv.recordAnswer ?_ ?_ ?_ (by simp)
    · rw [htr]; exact ⟨hstate, u, rfl, hopen, hnone⟩
    · rintro j v hj hawait rfl
      rw [hal1] at hj
      obtain rfl := hs.uidInj j i u hj hu
      rw [hst1] at hawait
      simp [Awaiting, Node.inputState] at hawait
    · rintro v hv rfl
      rw [hn1] at hv
      exact absurd (hs.uid i u hu) (Nat.not_lt.2 hv)

theorem inputTransit_inv (hh : h.Ok) (hs : Inv d s) (sf : Sf) (pkt : Pkt) {src : A} {i : Fin N}
    (hi : (s.alloc i).isSome) (hsrc : (s.mem i).peerAddr = src) (hseq : (s.mem i).seqno = pkt.seqno) :
    Inv d (s.inputTransit h sf pkt src i) := by
  have hinv := transit_inv hh hs hi (Node.inputState pkt.type)
  have hrec : ∀ s1, s.sixpTransTransitState h i (Node.inputState pkt.type) = (true, s1) →
      Inv d (s1.record (.input pkt.type pkt.seqno src (s.alloc i) (s.mem i).state (s.mem i).mode)) :=
    fun _ => inputRecord_inv hh hs pkt hi hsrc hseq
  unfold Node.inputTransit
  generalize s.sixpTransTransitState h i (Node.inputState pkt.type) = r at hinv hrec ⊢
  obtain ⟨ok, s1⟩ := r
  cases ok with
  | false => exact hinv
  | true =>
    dsimp only
    split
    · exact upcall_inv hh (hrec s1 rfl) _
    · exact hinv

theorem allocReceived {pkt : Pkt} {src : A} {i : Fin N} {s' : Node A K S N M} (hs : Inv d s)
    (ha : s.sixpTransAlloc pkt src = some (i, s')) : Inv d (s'.sixpTransTransitState h i requestReceived).2 ∧
      (s'.sixpTransTransitState h i requestReceived).1 = true := by
  obtain ⟨hfree, hfind, sf, _, rfl⟩ := sixpTransAlloc_some hs ha
  rcases transit_cases h i requestReceived _ with ⟨_, nb, he⟩ | ⟨hf, _⟩
  · rw [he]
    refine ⟨?_, rfl⟩
    have := (hs.nbrs nb).add hfree (x := ⟨some sf, src, pkt.seqno, pkt.code, requestReceived,
      Node.determineTransMode pkt, none, some .processTrans⟩)
      (fun j hj => sixpTransFind_none hs hfind hj) (by simp) (by simp [Awaiting])
    simpa [Node.setTrans] using this
  · simp [Node.transitAllowed] at hf

theorem clearNbr_inv (hs : Inv d s) (pkt : Pkt) (src : A) :
    Inv d (match s.sixpNbrFind src with
      | some j => if pkt.code = Cmd.clear then s.sixpNbrResetNextSeqno j else s
      | none => s) := by
  split
  · split
    · exact hs.nbrs _
    · exact hs
  · exact hs

theorem inputRequest_inv (hh : h.Ok) (hs : Inv d s) (env : Env M) (sf : Sf) {pkt : Pkt} (hty : pkt.type = .request)
    (src : A) : Inv d (s.inputRequest h env sf pkt src) := by
  unfold Node.inputRequest
  split
  · dsimp only
    split
    · exact handleScheduleInconsistency_inv hh hs _ _ _ _
    · exact sendBackError_inv hh hs _ _ _ _ _
  · have h1 := clearNbr_inv hs pkt src
    dsimp only
    split
    · exact sendBackError_inv hh h1 _ _ _ _ _
    · rename_i i s2 ha
      obtain ⟨h2, hok⟩ := allocReceived (h := h) h1 ha
      split
      · exact handleScheduleInconsistency_inv hh h2 _ _ _ _
      · simp only [Node.inputTransit, hty, Node.inputState]
        generalize s2.sixpTransTransitState h i requestReceived = r at h2 hok ⊢
        obtain ⟨_, s3⟩ := r
        dsimp only at hok
        subst hok
        dsimp only
        split
        · refine upcall_inv hh ?_ _
          exact h2.record trivial (fun _ h => h) (by simp)
        · exact h2

theorem inputFound_inv (hh : h.Ok) (hs : Inv d s) (sf : Sf) (pkt : Pkt) (src : A) :
    Inv d (match s.sixpTransFind src with
      | none => s
      | some i => if (s.mem i).seqno ≠ pkt.seqno then s else s.inputTransit h sf pkt src i) := by
  split
  · exact hs
  · rename_i i hf
    obtain ⟨hl, hp⟩ := sixpTransFind_some hf
    split
    · exact hs
    · rename_i hseq
      exact inputTransit_inv hh hs sf pkt ((hs.listed i).1 hl) hp (not_not.1 hseq)

theorem sixpInput_inv (hh : h.Ok) (hs : Inv d s) (env : Env M) (buf : List UInt8) (src : A) :
    Inv d (s.sixpInput h env buf src) := by
  unfold Node.sixpInput
  split
  · split
    · exact sendBackError_inv hh hs _ _ _ _ _
    · exact hs
  · split
    · exact sendBackError_inv hh hs _ _ _ _ _
    · rename_i sf _
      split
      · rename_i hty; exact inputRequest_inv hh hs env sf hty src
      · exact inputFound_inv hh hs sf _ src
      · exact inputFound_inv hh hs sf _ src
      · exact hs

/-! ## Steps and scheduling functions -/

omit [Inhabited A] [DecidableEq A] in
/-- The step in which a dangling pointer arises: `process_trans` releases a terminating transaction
while the MAC holds a frame with a pointer to it. -/
def ReleasesBusy (s : Node A K S N M) : Event A K N M → Prop
  | .timer i => (s.mem i).timer = some .processTrans ∧ (s.mem i).state = terminating ∧
      ∃ f ∈ s.mac, f.ptr = some i
  | _ => False

/-- Every step preserves the invariant; a step that must not leave a dangling pointer does not
release a transaction the MAC holds a frame of. -/
theorem step_inv (hh : h.Ok) (hs : Inv d s) {e : Event A K N M} (hd : d = true → ¬ ReleasesBusy s e)
    {s' : Node A K S N M} (he : step h s e = some s') : Inv d s' := by
  cases e with
  | output a => cases he; exact (sixpOutput_ok hh hs a).1
  | input env buf src => cases he; exact sixpInput_inv hh hs env buf src
  | nbrRemove j => cases he; exact hs.nbrs _
  | macDone k st =>
    simp only [step, Option.map_eq_some_iff] at he
    obtain ⟨f, hf, rfl⟩ := he
    have h1 : Inv d { s with mac := s.mac.eraseIdx k } :=
      hs.congr rfl rfl (fun _ hn g hg => hn g (List.mem_of_mem_eraseIdx hg)) rfl rfl rfl
    split
    · exact h1
    · rename_i i hi
      exact macComplete_inv hh h1 i (fun hdt => hs.denotes hdt f (List.mem_of_getElem? hf) i hi) _
  | timer i =>
    simp only [step, Option.map_eq_some_iff] at he
    obtain ⟨k, hk, rfl⟩ := he
    have hi := hs.alloc_of_timer hk
    have h1 : Inv d (s.ctimerStop i) := hs.timer hi none
    have hst : ((s.ctimerStop i).mem i).state = (s.mem i).state := by simp [Node.ctimerStop, Node.setTrans]
    cases k with
    | handleTransTimeout => exact handleTransTimeout_inv hh h1 hi
    | processTrans =>
      dsimp only
      by_cases ht : (s.mem i).state = terminating
      · rw [processTrans_terminating (by rw [hst]; exact ht)]
        exact h1.release fun hdt f hf hp => hd hdt ⟨hk, ht, f, hf, hp⟩
      · exact processTrans_inv_of_ne hh h1 hi (by rw [hst]; exact ht)

theorem scripted_ok : ∀ n, Handler.Ok (scripted n : Handler A K (Script A K M) N M)
  | 0 => fun _ _ s hs => ⟨hs, Ext.refl s⟩
  | n + 1 => by
    have hfold : ∀ (calls : List (OutputArgs A K M)) (d : Bool) (s : Node A K (Script A K M) N M), Inv d s →
        Inv d (calls.foldl (fun s a => (s.sixpOutput (scripted n) a).2) s) ∧
          Ext s (calls.foldl (fun s a => (s.sixpOutput (scripted n) a).2) s) := by
      intro calls
      induction calls with
      | nil => exact fun d s hs => ⟨hs, Ext.refl s⟩
      | cons a calls ih =>
        intro d s hs
        obtain ⟨h1, hx1⟩ := sixpOutput_ok (scripted_ok n) hs a
        obtain ⟨h2, hx2⟩ := ih d _ h1
        exact ⟨h2, hx1.trans hx2⟩
    intro d u s hs
    simp only [scripted]
    split
    · exact ⟨hs, Ext.refl s⟩
    · rename_i calls rest _
      have h1 : Inv d { s with app := rest } := hs.congr rfl rfl (fun _ h => h) rfl rfl rfl
      obtain ⟨h2, hx2⟩ := hfold calls d _ h1
      exact ⟨h2, ((Ext.refl s).step rfl rfl fun _ _ _ => rfl : Ext s { s with app := rest }).trans hx2⟩

theorem openStep_inv {n : Nat} {s s' : Node A K (Script A K M) N M} (hs : Inv d s)
    {e : Script A K M × Event A K N M} (hd : d = true → ¬ ReleasesBusy s e.2) (he : openStep n s e = some s') :
    Inv d s' :=
  step_inv (scripted_ok n) (hs.congr rfl rfl (fun _ h => h) rfl rfl rfl : Inv d { s with app := e.1 }) hd he

omit [DecidableEq A] in
theorem start_inv (sfs : List Sf) (app : S) : Inv d (Node.start sfs app : Node A K S N M) := by
  refine ⟨List.nodup_nil, ?_, ?_, ?_, ?_, ?_, ?_, ?_, ?_, traceOk_nil, ?_, ?_⟩ <;>
    simp [Node.start, NoDangling, CompletionsSound]

end Contiki.Sixtop
