/-
What holds of the sequence numbers in every run: while a CLEAR request is being answered, the neighbor's number is 0, and
whatever number is 0 is so since its entry was made or cleared. The functions of sixp-trans.c and sixp.c keep it, for
every scheduling function that does.
-/
import Contiki.Sixtop.Preserve
import Contiki.Sixtop.Seqno

namespace Contiki.Sixtop

open TransState

variable {A K S : Type} {N M : Nat}

/-! ## The invariant -/

/-- A transaction for the peer's CLEAR request whose response has not been acknowledged. -/
def Clearing (t : Trans A K) : Prop := t.cmd = Cmd.clear ∧ (t.state = requestReceived ∨ t.state = responseSending)

/-- No CLEAR request has reset another neighbor's number, and every response that was acknowledged was so while its
transaction was sending it. -/
structure Clean (past : List (SeqEvent A)) : Prop where
  directed : ∀ addr, .misdirected addr ∉ past
  awaited : ∀ u addr, .acked u false ∈ past → .responded u addr ∉ past

theorem clean_nil : Clean ([] : List (SeqEvent A)) where
  directed := fun _ h => by cases h
  awaited := fun _ _ h => by cases h

theorem Clean.tail {e : SeqEvent A} {past : List (SeqEvent A)} (h : Clean (e :: past)) : Clean past where
  directed := fun addr hm => h.directed addr (List.mem_cons_of_mem e hm)
  awaited := fun u addr ha hr => h.awaited u addr (List.mem_cons_of_mem e ha) (List.mem_cons_of_mem e hr)

structure Tracked (s : Node A K S N M) (past : List (SeqEvent A)) : Prop where
  unique : ∀ j k addr q q', s.nbrs j = some (addr, q) → s.nbrs k = some (addr, q') → j = k
  cleared : ∀ i, Clearing (s.mem i) → ∀ j q, s.nbrs j = some ((s.mem i).peerAddr, q) → q = 0
  asserted : ∀ q, .asserted q ∈ past → q = 0
  responded : ∀ u addr, .responded u addr ∈ past →
    u < s.nextUid ∧ ∀ i, s.alloc i = some u → (s.mem i).peerAddr = addr ∧ (s.mem i).cmd ≠ Cmd.clear
  fresh : Clean past → ∀ j addr, s.nbrs j = some (addr, 0) → Fresh addr past

/-- The transactions of `t` that `Tracked` speaks of are those of `s`. -/
structure Carries (s t : Node A K S N M) : Prop where
  clearing : ∀ i, Clearing (t.mem i) → Clearing (s.mem i) ∧ (t.mem i).peerAddr = (s.mem i).peerAddr
  uid : s.nextUid ≤ t.nextUid
  old : ∀ i u, t.alloc i = some u → u < s.nextUid →
    s.alloc i = some u ∧ (t.mem i).peerAddr = (s.mem i).peerAddr ∧ (t.mem i).cmd = (s.mem i).cmd

/-- How a transaction goes on in a call of a scheduling function. -/
structure Trans.Moves (t t' : Trans A K) : Prop where
  peer : t'.peerAddr = t.peerAddr
  cmd : t'.cmd = t.cmd
  begins : t'.state = init → t.state = init
  clearing : Clearing t' → Clearing t

/-- What a call of a scheduling function leaves of the transactions and the neighbors: a slot is given to a neighbor
only if there is no CLEAR transaction with it and none that is about to send its request. -/
structure Keeps (s t : Node A K S N M) : Prop where
  ext : Ext s t
  uid : s.nextUid ≤ t.nextUid
  old : ∀ i u, t.alloc i = some u → u < s.nextUid → s.alloc i = some u
  moves : ∀ i, (s.alloc i).isSome → (s.mem i).Moves (t.mem i)
  new : ∀ i, s.alloc i = none → ¬ Clearing (t.mem i)
  slots : ∀ j addr q, t.nbrs j = some (addr, q) → (∃ q', s.nbrs j = some (addr, q')) ∨
    ∀ i, (s.alloc i).isSome → (s.mem i).peerAddr = addr → (s.mem i).cmd ≠ Cmd.clear ∧ (s.mem i).state ≠ init

variable [Inhabited A]

/-- What holds in the course of a call that began in `s`. -/
structure Follows (s t : Node A K S N M) (past : List (SeqEvent A)) : Prop where
  inv : Inv false t
  tracked : Tracked t past
  keeps : Keeps s t

/-- A scheduling function that keeps the sequence numbers right. -/
def Handler.Tracks (h : Handler A K S N M) (log : Recorder A K S N M) : Prop :=
  ∀ u s past, Inv false s → Tracked s past → Follows s (h u s) (log u s ++ past)

/-! ## Composition -/

omit [Inhabited A] in
theorem Trans.Moves.refl (t : Trans A K) : t.Moves t := ⟨rfl, rfl, id, id⟩

omit [Inhabited A] in
theorem Trans.Moves.trans {t t' t'' : Trans A K} (h : t.Moves t') (h' : t'.Moves t'') : t.Moves t'' :=
  ⟨h'.peer.trans h.peer, h'.cmd.trans h.cmd, fun hi => h.begins (h'.begins hi), fun hc => h.clearing (h'.clearing hc)⟩

omit [Inhabited A] in
theorem Trans.Moves.state {t : Trans A K} {new : TransState} (hi : new ≠ init) (hr : new ≠ requestReceived)
    (hs : new = responseSending → t.state = requestReceived) (timer : Option TransTimer) :
    t.Moves { t with state := new, timer := timer } := by
  refine ⟨rfl, rfl, fun he => absurd he hi, ?_⟩
  rintro ⟨hc, hn | hn⟩
  · exact absurd hn hr
  · exact ⟨hc, Or.inl (hs hn)⟩

variable {s t u : Node A K S N M} {past : List (SeqEvent A)}

theorem not_clearing_zero : ¬ Clearing (Trans.zero : Trans A K) := by
  rintro ⟨-, h | h⟩
  · cases h
  · cases h

variable {i : Fin N}

theorem not_clearing_of_free (hs : Inv false s) (hi : s.alloc i = none) : ¬ Clearing (s.mem i) := by
  rw [hs.free i hi]
  exact not_clearing_zero

theorem Keeps.refl (hs : Inv false s) : Keeps s s where
  ext := Ext.refl s
  uid := le_rfl
  old := fun _ _ h _ => h
  moves := fun i _ => .refl (s.mem i)
  new := fun _ hi => not_clearing_of_free hs hi
  slots := fun _ _ q h => Or.inl ⟨q, h⟩

omit [Inhabited A] in
theorem Keeps.trans (h₁ : Keeps s t) (h₂ : Keeps t u) : Keeps s u where
  ext := h₁.ext.trans h₂.ext
  uid := h₁.uid.trans h₂.uid
  old := fun i v hi hv => h₁.old i v (h₂.old i v hi (hv.trans_le h₁.uid)) hv
  moves := fun i hi => (h₁.moves i hi).trans (h₂.moves i (h₁.ext.some hi))
  new := fun i hi hc => by
    cases ht : t.alloc i with
    | none => exact h₂.new i ht hc
    | some v => exact h₁.new i hi ((h₂.moves i (by rw [ht]; rfl)).clearing hc)
  slots := fun j addr q hq => by
    rcases h₂.slots j addr q hq with ⟨q', hq'⟩ | hno
    · exact h₁.slots j addr q' hq'
    · refine Or.inr fun i hi hp => ?_
      have hm := h₁.moves i hi
      obtain ⟨hcmd, hstate⟩ := hno i (h₁.ext.some hi) (hm.peer.trans hp)
      refine ⟨fun hc => hcmd (hm.cmd.trans hc), fun hinit => hstate ?_⟩
      exact ((h₁.ext.quiet i hi (Or.inl hinit)).1).trans hinit

theorem Follows.refl (hs : Inv false s) (ht : Tracked s past) : Follows s s past := ⟨hs, ht, .refl hs⟩

theorem Follows.trans {past' : List (SeqEvent A)} (h₁ : Follows s t past) (h₂ : Follows t u past') : Follows s u past' :=
  ⟨h₂.inv, h₂.tracked, h₁.keeps.trans h₂.keeps⟩

omit [Inhabited A] in
theorem Tracked.carry (ht : Tracked s past) (hc : Carries s t) (hn : t.nbrs = s.nbrs) : Tracked t past where
  unique := by
    rw [hn]
    exact ht.unique
  cleared := fun i hi j q hq => by
    obtain ⟨hclearing, hpeer⟩ := hc.clearing i hi
    rw [hn, hpeer] at hq
    exact ht.cleared i hclearing j q hq
  asserted := ht.asserted
  responded := fun v addr hv => by
    obtain ⟨hlt, hall⟩ := ht.responded v addr hv
    refine ⟨hlt.trans_le hc.uid, fun i hi => ?_⟩
    obtain ⟨hold, hpeer, hcmd⟩ := hc.old i v hi hlt
    rw [hpeer, hcmd]
    exact hall i hold
  fresh := by
    rw [hn]
    exact ht.fresh

/-! ## One block -/

omit [Inhabited A] in
theorem setTrans_mem_self (i : Fin N) (x : Trans A K) (t : Node A K S N M) : (t.setTrans i x).mem i = x :=
  Function.update_self ..

omit [Inhabited A] in
theorem setTrans_mem_of_ne {i j : Fin N} (h : j ≠ i) (x : Trans A K) (t : Node A K S N M) :
    (t.setTrans i x).mem j = t.mem j := Function.update_of_ne h ..

variable {x : Trans A K}

omit [Inhabited A] in
theorem setTrans_moves (hx : (t.mem i).Moves x) (j : Fin N) :
    (t.mem j).Moves ((t.setTrans i x).mem j) := by
  by_cases hji : j = i
  · subst hji
    rw [setTrans_mem_self]
    exact hx
  · rw [setTrans_mem_of_ne hji]
    exact .refl _

omit [Inhabited A] in
theorem setTrans_carries (hx : (t.mem i).Moves x) : Carries t (t.setTrans i x) := by
  have hm := setTrans_moves (t := t) hx
  exact ⟨fun j hj => ⟨(hm j).clearing hj, (hm j).peer⟩, le_rfl, fun j v hj _ => ⟨hj, (hm j).peer, (hm j).cmd⟩⟩

theorem Follows.setTrans (hf : Follows s t past) (hinv : Inv false (t.setTrans i x))
    (hx : (t.mem i).Moves x) (hext : Ext s (t.setTrans i x)) : Follows s (t.setTrans i x) past where
  inv := hinv
  tracked := hf.tracked.carry (setTrans_carries hx) rfl
  keeps := by
    have hm := setTrans_moves (t := t) hx
    refine ⟨hext, hf.keeps.uid, hf.keeps.old, fun j hj => (hf.keeps.moves j hj).trans (hm j), fun j hj hc => ?_,
      hf.keeps.slots⟩
    exact hf.keeps.new j hj ((hm j).clearing hc)

theorem Follows.setCallback (hf : Follows s t past) (hi : (t.alloc i).isSome) (k : Option K) :
    Follows s (t.sixpTransSetCallback i k) past :=
  hf.setTrans (hf.inv.setCallback hi k) ⟨rfl, rfl, id, id⟩ (hf.keeps.ext.setSame rfl)

theorem release_carries (i : Fin N) (t : Node A K S N M) :
    Carries t { t with mem := Function.update t.mem i Trans.zero, alloc := Function.update t.alloc i none,
                       transList := t.transList.erase i } where
  clearing := fun j hj => by
    by_cases hji : j = i
    · subst hji
      simp only [Function.update_self] at hj
      exact absurd hj not_clearing_zero
    · simp only [Function.update_of_ne hji] at hj ⊢
      exact ⟨hj, trivial⟩
  uid := le_rfl
  old := fun j v hj _ => by
    by_cases hji : j = i
    · subst hji
      simp only [Function.update_self] at hj
      cases hj
    · simp only [Function.update_of_ne hji] at hj ⊢
      exact ⟨hj, trivial, trivial⟩

omit [Inhabited A] in
theorem alloc_carries (hx : x.state = init) {list : List (Fin N)} {trace : List (Obs A)} :
    Carries t { t with mem := Function.update t.mem i x, alloc := Function.update t.alloc i (some t.nextUid),
                       nextUid := t.nextUid + 1, transList := list, trace := trace } where
  clearing := fun j hj => by
    by_cases hji : j = i
    · subst hji
      simp only [Function.update_self] at hj
      obtain ⟨-, h | h⟩ := hj
      · rw [hx] at h
        cases h
      · rw [hx] at h
        cases h
    · simp only [Function.update_of_ne hji] at hj ⊢
      exact ⟨hj, trivial⟩
  uid := Nat.le_succ _
  old := fun j v hj hv => by
    by_cases hji : j = i
    · subst hji
      simp only [Function.update_self] at hj
      cases hj
      exact absurd hv (lt_irrefl _)
    · simp only [Function.update_of_ne hji] at hj ⊢
      exact ⟨hj, trivial, trivial⟩

omit [Inhabited A] in
theorem Keeps.update (hk : Keeps s t) (hi : s.alloc i = none) {a : Option Nat} {n : Nat}
    {list : List (Fin N)} {trace : List (Obs A)}
    (hc : Carries t { t with mem := Function.update t.mem i x, alloc := Function.update t.alloc i a,
                             nextUid := n, transList := list, trace := trace }) :
    Keeps s { t with mem := Function.update t.mem i x, alloc := Function.update t.alloc i a,
                     nextUid := n, transList := list, trace := trace } where
  ext := hk.ext.add hi
  uid := hk.uid.trans hc.uid
  old := fun j v hj hv => hk.old j v (hc.old j v hj (hv.trans_le hk.uid)).1 hv
  moves := fun j hj => by
    have hne : j ≠ i := by
      rintro rfl
      rw [hi] at hj
      cases hj
    show (s.mem j).Moves (Function.update t.mem i x j)
    rw [Function.update_of_ne hne]
    exact hk.moves j hj
  new := fun j hj hclear => hk.new j hj (hc.clearing j hclear).1
  slots := hk.slots

theorem Follows.release (hf : Follows s t past) (hi : s.alloc i = none) :
    Follows s { t with mem := Function.update t.mem i Trans.zero, alloc := Function.update t.alloc i none,
                       transList := t.transList.erase i } past :=
  ⟨hf.inv.release (fun h => by cases h), hf.tracked.carry (release_carries i t) rfl,
    hf.keeps.update hi (release_carries i t)⟩

theorem Follows.alloc (hf : Follows s t past) (hi : t.alloc i = none) (hx : x.state = init)
    {list : List (Fin N)} {trace : List (Obs A)}
    (hinv : Inv false { t with mem := Function.update t.mem i x, alloc := Function.update t.alloc i (some t.nextUid),
                               nextUid := t.nextUid + 1, transList := list, trace := trace }) :
    Follows s { t with mem := Function.update t.mem i x, alloc := Function.update t.alloc i (some t.nextUid),
                       nextUid := t.nextUid + 1, transList := list, trace := trace } past := by
  have hnone : s.alloc i = none := by
    cases hs : s.alloc i with
    | none => rfl
    | some v =>
      have hkept := hf.keeps.ext.keeps i (by rw [hs]; rfl)
      rw [hi, hs] at hkept
      cases hkept
  exact ⟨hinv, hf.tracked.carry (alloc_carries hx) rfl, hf.keeps.update hnone (alloc_carries hx)⟩

/-! ## Sequence numbers -/

section

variable [DecidableEq A]

omit [Inhabited A] in
theorem sixpNbrFind_some {addr : A} {j : Fin M} (h : t.sixpNbrFind addr = some j) : ∃ q, t.nbrs j = some (addr, q) := by
  have hj := List.find?_some h
  rw [beq_iff_eq, Option.map_eq_some_iff] at hj
  obtain ⟨⟨addr', q⟩, he, rfl⟩ := hj
  exact ⟨q, he⟩

omit [Inhabited A] in
theorem sixpNbrFind_none {addr : A} (h : t.sixpNbrFind addr = none) (j : Fin M) (q : UInt8) :
    t.nbrs j ≠ some (addr, q) := by
  intro he
  have hj := List.find?_eq_none.1 h j (List.mem_finRange j)
  simp [he] at hj

omit [Inhabited A] [DecidableEq A] in
theorem setNextSeqno_some {j k : Fin M} {addr : A} {q v : UInt8}
    (h : (t.sixpNbrSetNextSeqno j q).nbrs k = some (addr, v)) :
    ∃ v', t.nbrs k = some (addr, v') ∧ (k = j ∧ v = q ∨ k ≠ j ∧ v = v') := by
  by_cases hk : k = j
  · subst hk
    simp only [Node.sixpNbrSetNextSeqno, Function.update_self, Option.map_eq_some_iff] at h
    obtain ⟨⟨addr', v'⟩, he, hv⟩ := h
    cases hv
    exact ⟨v', he, Or.inl ⟨rfl, rfl⟩⟩
  · simp only [Node.sixpNbrSetNextSeqno, Function.update_of_ne hk] at h
    exact ⟨v, h, Or.inr ⟨hk, rfl⟩⟩

omit [Inhabited A] [DecidableEq A] in
theorem incrementNextSeqno_eq (j : Fin M) (t : Node A K S N M) :
    ∃ q, q ≠ 0 ∧ t.sixpNbrIncrementNextSeqno j = t.sixpNbrSetNextSeqno j q := by
  refine ⟨_, ?_, rfl⟩
  split
  · decide
  · next h => exact h

omit [Inhabited A] [DecidableEq A] in
theorem setNextSeqno_setNextSeqno (j : Fin M) (q v : UInt8) (t : Node A K S N M) :
    (t.sixpNbrSetNextSeqno j q).sixpNbrSetNextSeqno j v = t.sixpNbrSetNextSeqno j v := by
  simp only [Node.sixpNbrSetNextSeqno, Function.update_self, Function.update_idem, Option.map_map]
  rfl

omit [Inhabited A] [DecidableEq A] in
theorem Tracked.cons (ht : Tracked t past) {e : SeqEvent A} (ha : ∀ q, .asserted q ≠ e)
    (hr : ∀ u addr, .responded u addr ≠ e)
    (hfresh : Clean (e :: past) → ∀ j addr, t.nbrs j = some (addr, 0) → Fresh addr (e :: past)) :
    Tracked t (e :: past) where
  unique := ht.unique
  cleared := ht.cleared
  asserted := fun q hq => ht.asserted q ((List.mem_cons.1 hq).resolve_left (ha q))
  responded := fun u addr hu => ht.responded u addr ((List.mem_cons.1 hu).resolve_left (hr u addr))
  fresh := hfresh

omit [Inhabited A] [DecidableEq A] in
theorem Tracked.cleared_cons (ht : Tracked t past) (addr : A) : Tracked t (.cleared addr :: past) := by
  refine ht.cons ?_ ?_ fun hc j addr' hj => Or.inr (ht.fresh hc.tail j addr' hj)
  · rintro q ⟨⟩
  · rintro u addr' ⟨⟩

omit [Inhabited A] [DecidableEq A] in
theorem Tracked.reset (ht : Tracked t past) {j : Fin M}
    (hfresh : Clean past → ∀ addr v, t.nbrs j = some (addr, v) → Fresh addr past) :
    Tracked (t.sixpNbrResetNextSeqno j) past where
  unique := fun k l addr v v' hk hl => by
    obtain ⟨_, hk, -⟩ := setNextSeqno_some hk
    obtain ⟨_, hl, -⟩ := setNextSeqno_some hl
    exact ht.unique k l addr _ _ hk hl
  cleared := fun i hi k v hk => by
    obtain ⟨v', hk, ⟨-, h0⟩ | ⟨-, rfl⟩⟩ := setNextSeqno_some hk
    · exact h0
    · exact ht.cleared i hi k v hk
  asserted := ht.asserted
  responded := ht.responded
  fresh := fun hc k addr hk => by
    obtain ⟨v', hv, ⟨rfl, -⟩ | ⟨-, rfl⟩⟩ := setNextSeqno_some hk
    · exact hfresh hc addr v' hv
    · exact ht.fresh hc k addr hv

omit [Inhabited A] [DecidableEq A] in
theorem Tracked.put (ht : Tracked t past) {j : Fin M} {addr : A} (hfresh : Fresh addr past)
    (hnew : ∀ k q, t.nbrs k ≠ some (addr, q)) :
    Tracked { t with nbrs := Function.update t.nbrs j (some (addr, 0)) } past := by
  have hentry : ∀ k addr' q, Function.update t.nbrs j (some (addr, 0)) k = some (addr', q) →
      (k = j ∧ addr' = addr ∧ q = 0) ∨ (addr' ≠ addr ∧ t.nbrs k = some (addr', q)) := by
    intro k addr' q hk
    by_cases hkj : k = j
    · subst hkj
      rw [Function.update_self] at hk
      cases hk
      exact Or.inl ⟨rfl, rfl, rfl⟩
    · rw [Function.update_of_ne hkj] at hk
      refine Or.inr ⟨?_, hk⟩
      rintro rfl
      exact hnew k q hk
  constructor
  case unique =>
    intro k l addr' q q' hk hl
    rcases hentry k addr' q hk with ⟨rfl, rfl, -⟩ | ⟨hne, hk⟩
    · rcases hentry l addr' q' hl with ⟨rfl, -, -⟩ | ⟨hne, -⟩
      · rfl
      · exact absurd rfl hne
    · rcases hentry l addr' q' hl with ⟨-, rfl, -⟩ | ⟨-, hl⟩
      · exact absurd rfl hne
      · exact ht.unique k l addr' q q' hk hl
  case cleared =>
    intro i hi k q hk
    rcases hentry k _ q hk with ⟨-, -, h0⟩ | ⟨-, hk⟩
    · exact h0
    · exact ht.cleared i hi k q hk
  case asserted => exact ht.asserted
  case responded => exact ht.responded
  case fresh =>
    intro hc k addr' hk
    rcases hentry k addr' 0 hk with ⟨-, rfl, -⟩ | ⟨-, hk⟩
    · exact hfresh
    · exact ht.fresh hc k addr' hk

omit [Inhabited A] [DecidableEq A] in
theorem Tracked.setNonzero (ht : Tracked t past) {j : Fin M} {q : UInt8} (hq : q ≠ 0)
    (hno : ∀ i v, Clearing (t.mem i) → t.nbrs j ≠ some ((t.mem i).peerAddr, v)) :
    Tracked (t.sixpNbrSetNextSeqno j q) past where
  unique := fun k l addr v v' hk hl => by
    obtain ⟨_, hk, -⟩ := setNextSeqno_some hk
    obtain ⟨_, hl, -⟩ := setNextSeqno_some hl
    exact ht.unique k l addr _ _ hk hl
  cleared := fun i hi k v hk => by
    obtain ⟨v', hk, ⟨rfl, -⟩ | ⟨-, rfl⟩⟩ := setNextSeqno_some hk
    · exact absurd hk (hno i v' hi)
    · exact ht.cleared i hi k v hk
  asserted := ht.asserted
  responded := ht.responded
  fresh := fun hc k addr hk => by
    obtain ⟨v', hk, ⟨-, h0⟩ | ⟨-, rfl⟩⟩ := setNextSeqno_some hk
    · exact absurd h0.symm hq
    · exact ht.fresh hc k addr hk

omit [DecidableEq A] in
theorem Follows.setSeqno {past' : List (SeqEvent A)} (hf : Follows s t past) {j : Fin M} {q : UInt8}
    (ht : Tracked (t.sixpNbrSetNextSeqno j q) past') : Follows s (t.sixpNbrSetNextSeqno j q) past' where
  inv := hf.inv.nbrs _
  tracked := ht
  keeps := by
    refine ⟨hf.keeps.ext.step rfl rfl fun _ _ _ => rfl, hf.keeps.uid, hf.keeps.old, hf.keeps.moves, hf.keeps.new,
      fun k addr v hk => ?_⟩
    obtain ⟨v', hk, -⟩ := setNextSeqno_some hk
    exact hf.keeps.slots k addr v' hk

end

/-! ## Calls of scheduling functions -/

section

variable {h : Handler A K S N M} {log : Recorder A K S N M}

theorem Follows.record (hf : Follows s t past) {o : Obs A} (hinv : Inv false (t.record o)) :
    Follows s (t.record o) past where
  inv := hinv
  tracked := hf.tracked.carry ⟨fun _ hi => ⟨hi, rfl⟩, le_rfl, fun _ _ hi _ => ⟨hi, rfl, rfl⟩⟩ rfl
  keeps := ⟨hf.keeps.ext.step rfl rfl fun _ _ _ => rfl, hf.keeps.uid, hf.keeps.old, hf.keeps.moves, hf.keeps.new,
    hf.keeps.slots⟩

theorem upcall_follows (hl : h.Tracks log) (hf : Follows s t past) (call : Upcall A K) :
    Follows s (t.upcall h call) (t.upcallLog log call ++ past) := by
  have hrec := hf.record (record_peers_inv hf.inv)
  exact hrec.trans (hl call _ past hrec.inv hrec.tracked)

variable [DecidableEq A]

omit [DecidableEq A] in
theorem notifyError_follows (hl : h.Tracks log) (hf : Follows s t past) (err : SixpError) (i : Fin N) :
    Follows s (t.notifyError h err i) (t.notifyErrorLog log err i ++ past) := by
  simp only [Node.notifyError, Node.notifyErrorLog]
  split
  · exact upcall_follows hl hf _
  · exact hf

omit [DecidableEq A] in
theorem invokeCallback_follows (hl : h.Tracks log) (hf : Follows s t past) (i : Fin N) (status : OutputStatus) :
    Follows s (t.sixpTransInvokeCallback h i status) (t.invokeCallbackLog log i status ++ past) := by
  unfold Node.sixpTransInvokeCallback Node.invokeCallbackLog
  cases (t.mem i).callback with
  | none => exact hf
  | some k => exact upcall_follows hl hf _

/-! ## Transitions -/

variable {i : Fin N}

theorem override_follows (hf : Follows s t past) (hi : (t.alloc i).isSome)
    (hstate : (t.mem i).state = responseSending) :
    Follows s (t.overrideNextSeqno (t.mem i)) (t.overrideLog (t.mem i) ++ past) := by
  unfold Node.overrideNextSeqno Node.overrideLog
  cases hfind : t.sixpNbrFind (t.mem i).peerAddr with
  | none => exact hf
  | some j =>
    obtain ⟨q, hq⟩ := sixpNbrFind_some hfind
    by_cases hc : (t.mem i).cmd = Cmd.clear
    · have hzero : t.sixpNbrGetNextSeqno j = 0 := by
        rw [Node.sixpNbrGetNextSeqno, hq]
        exact hf.tracked.cleared i ⟨hc, Or.inr hstate⟩ j q hq
      simp only [hc, if_true]
      refine ⟨hf.inv, ?_, hf.keeps⟩
      have ht := hf.tracked
      refine ⟨ht.unique, ht.cleared, fun v hv => ?_, fun u addr hu => ?_, fun hclean k addr hk => ?_⟩
      · rcases List.mem_cons.1 hv with hv | hv
        · cases hv
          exact hzero
        · exact ht.asserted v hv
      · rcases List.mem_cons.1 hu with hu | hu
        · cases hu
        · exact ht.responded u addr hu
      · exact ht.fresh hclean.tail k addr hk
    · simp only [hc, if_false]
      obtain ⟨v, hv, he⟩ := incrementNextSeqno_eq j (t.sixpNbrSetNextSeqno j (t.mem i).seqno)
      rw [he, setNextSeqno_setNextSeqno]
      refine hf.setSeqno (hf.tracked.setNonzero hv fun k v' hk hj => hc ?_)
      rw [hq] at hj
      have hpeer : (t.mem i).peerAddr = (t.mem k).peerAddr := congrArg Prod.fst (Option.some.inj hj)
      have hka : (t.alloc k).isSome := by
        cases ha : t.alloc k with
        | none => exact absurd hk (not_clearing_of_free hf.inv ha)
        | some u => rfl
      rw [hf.inv.peers i k hi hka hpeer]
      exact hk.1

variable {new : TransState}

omit [Inhabited A] in
theorem transit_allowed (h : Handler A K S N M) {t : Node A K S N M}
    (ha : Node.transitAllowed new (t.mem i).state (t.mem i).mode = true) :
    t.sixpTransTransitState h i new =
      (true, (if new = responseSent then t.overrideNextSeqno (t.mem i) else t).setTrans i
        { t.mem i with state := new, timer := some .processTrans }) := by
  obtain ⟨nb, hnb⟩ := overrideNextSeqno_eq (t.mem i) t
  unfold Node.sixpTransTransitState
  by_cases hr : new = responseSent
  · subst hr
    simp [ha, hnb, Node.setTrans, Node.scheduleTransProcess]
  · simp [ha, hr, Node.setTrans, Node.scheduleTransProcess]

omit [Inhabited A] [DecidableEq A] in
theorem transit_moves {t : Node A K S N M}
    (ha : Node.transitAllowed new (t.mem i).state (t.mem i).mode = true) (hr : new ≠ requestReceived)
    (timer : Option TransTimer) : (t.mem i).Moves { t.mem i with state := new, timer := timer } := by
  refine .state (transitAllowed_spec ha).2.1 hr (fun hs => ?_) _
  subst hs
  cases hst : (t.mem i).state <;> rw [hst] at ha <;> simp [Node.transitAllowed] at ha

/-- What an allowed transition does before the state changes. -/
theorem transit_first (log : Recorder A K S N M) (hf : Follows s t past) (hi : (t.alloc i).isSome)
    (ha : Node.transitAllowed new (t.mem i).state (t.mem i).mode = true) :
    Follows s (if new = responseSent then t.overrideNextSeqno (t.mem i) else t) (t.transitLog log i new ++ past) ∧
      (if new = responseSent then t.overrideNextSeqno (t.mem i) else t).mem = t.mem := by
  simp only [Node.transitLog, ha, if_true]
  by_cases hs : new = responseSent
  · subst hs
    simp only [if_true]
    refine ⟨override_follows hf hi ?_, ?_⟩
    · cases hst : (t.mem i).state <;> rw [hst] at ha <;> simp [Node.transitAllowed] at ha
    · obtain ⟨nb, hnb⟩ := overrideNextSeqno_eq (t.mem i) t
      rw [hnb]
  · simp only [hs, if_false]
    exact ⟨hf, trivial⟩

theorem transit_refused (hl : h.Tracks log) (hf : Follows s t past)
    (ha : Node.transitAllowed new (t.mem i).state (t.mem i).mode = false) :
    Follows s (t.sixpTransTransitState h i new).2 (t.transitLog log i new ++ past) := by
  have hlog : t.transitLog log i new = t.notifyErrorLog log .invalidTransStateTransition i := by
    simp [Node.transitLog, ha]
  have hnode : (t.sixpTransTransitState h i new).2 = t.notifyError h .invalidTransStateTransition i := by
    simp [Node.sixpTransTransitState, ha]
  rw [hlog, hnode]
  exact notifyError_follows hl hf _ i

theorem transit_follows (hh : h.Ok) (hl : h.Tracks log) (hf : Follows s t past) (hi : (t.alloc i).isSome)
    (hq : (s.alloc i).isSome → ¬ Quiet (s.mem i).state) (hr : new ≠ requestReceived) :
    Follows s (t.sixpTransTransitState h i new).2 (t.transitLog log i new ++ past) := by
  have hinv := transit_inv hh hf.inv hi new
  have hext := transit_ext hh hf.inv hf.keeps.ext hq new
  cases ha : Node.transitAllowed new (t.mem i).state (t.mem i).mode with
  | false => exact transit_refused hl hf ha
  | true =>
    obtain ⟨hfirst, hmem⟩ := transit_first log hf hi ha
    rw [transit_allowed h ha] at hinv hext ⊢
    refine hfirst.setTrans hinv ?_ hext
    rw [hmem]
    exact transit_moves ha hr _

theorem transit_tracked (hl : h.Tracks log) (hs : Inv false s) (ht : Tracked s past)
    (hi : (s.alloc i).isSome) (hr : new ≠ requestReceived) :
    Tracked (s.sixpTransTransitState h i new).2 (s.transitLog log i new ++ past) := by
  cases ha : Node.transitAllowed new (s.mem i).state (s.mem i).mode with
  | false => exact (transit_refused hl (.refl hs ht) ha).tracked
  | true =>
    obtain ⟨hfirst, hmem⟩ := transit_first log (.refl hs ht) hi ha
    rw [transit_allowed h ha]
    refine hfirst.tracked.carry (setTrans_carries ?_) rfl
    rw [hmem]
    exact transit_moves ha hr _

end

end Contiki.Sixtop
