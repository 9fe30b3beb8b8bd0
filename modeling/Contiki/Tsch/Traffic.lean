/-
The way of packets in its own terms: each neighbor has a queue, a packet leaves it from the front, either flushed or sent
to the list of dequeued packets, has its callback called and is freed. Whatever the order of these steps, no packet is
called or freed twice or read after it was freed, and packets leave in the order in which they were accepted.
-/
import Contiki.Tsch.System

namespace Contiki.Tsch

variable {A : Type} [DecidableEq A]

/-- The packets in the queues and those that were dequeued, the calls that wait for a callback, and the events. -/
structure Traffic (A : Type) where
  queued : A → List PacketPtr
  dequeued : List PacketPtr
  frames : List Frame
  events : List (Event A)
  accepted : Nat

/-- What can happen to a packet at a time. -/
inductive Traffic.Step : Traffic A → Traffic A → Prop
  | accept (t : Traffic A) (a : A) (block : Nat) : Step t
      { t with
        queued := Function.update t.queued a (t.queued a ++ [⟨block, t.accepted⟩])
        events := .accepted t.accepted a :: t.events
        accepted := t.accepted + 1 }
  | flush {t : Traffic A} {a : A} {p : PacketPtr} {ps : List PacketPtr} (h : t.queued a = p :: ps) : Step t
      { t with
        queued := Function.update t.queued a ps
        frames := .flush p :: t.frames
        events := .called p.id :: .accessed p.id :: .left p.id a :: t.events }
  | flushed {t : Traffic A} {p : PacketPtr} {frames : List Frame} (h : t.frames = .flush p :: frames) : Step t
      { t with frames := frames, events := .freed p.id :: t.events }
  | read {t : Traffic A} {a : A} {p : PacketPtr} (h : p ∈ t.queued a) : Step t
      { t with events := .accessed p.id :: t.events }
  | done {t : Traffic A} {a : A} {p : PacketPtr} {ps : List PacketPtr} (h : t.queued a = p :: ps) : Step t
      { t with
        queued := Function.update t.queued a ps
        dequeued := t.dequeued ++ [p]
        events := .handed p.id :: .left p.id a :: .accessed p.id :: t.events }
  | pending {t : Traffic A} {p : PacketPtr} {ps : List PacketPtr} (hf : t.frames = []) (h : t.dequeued = p :: ps) : Step t
      { t with frames := [.pending p], events := .called p.id :: .accessed p.id :: t.events }
  | processed {t : Traffic A} {p : PacketPtr} {frames : List Frame} (h : t.frames = .pending p :: frames) : Step t
      { t with dequeued := t.dequeued.tail, frames := frames, events := .freed p.id :: t.events }

/-! ## What is claimed -/

@[grind =]
def acceptedIds (events : List (Event A)) (addr : A) : List Nat :=
  (events.filterMap fun
    | .accepted id a => if a = addr then some id else none
    | _ => none).reverse

@[grind =]
def leftIds (events : List (Event A)) (addr : A) : List Nat :=
  (events.filterMap fun
    | .left id a => if a = addr then some id else none
    | _ => none).reverse

def allLeft (events : List (Event A)) : List Nat :=
  events.filterMap fun
    | .left id _ => some id
    | _ => none

@[grind =]
def calledIds (events : List (Event A)) : List Nat :=
  events.filterMap fun
    | .called id => some id
    | _ => none

@[grind =]
def freedIds (events : List (Event A)) : List Nat :=
  events.filterMap fun
    | .freed id => some id
    | _ => none

/-- Each packet is called and freed at most once and is not read after that; packets leave in the order in which they
were accepted, and those that left are the ones that were sent or called. -/
structure Handled (events : List (Event A)) : Prop where
  calledOnce : (calledIds events).Nodup
  freedOnce : (freedIds events).Nodup
  unread : events.Pairwise fun later earlier => ∀ id, later = .accessed id → earlier ≠ .freed id
  inOrder : ∀ a, leftIds events a <+: acceptedIds events a
  itself : ∀ id, id ∈ allLeft events ↔ .handed id ∈ events ∨ id ∈ calledIds events

/-! ## The invariant -/

@[grind =]
def Frame.packet : Frame → PacketPtr
  | .flush p => p
  | .pending p => p

def flushing (frames : List Frame) : List Nat :=
  frames.filterMap fun
    | .flush p => some p.id
    | .pending _ => none

structure Traffic.Inv (t : Traffic A) : Prop where
  older : ∀ a, ∀ p ∈ t.queued a, p.id < t.accepted
  leftOlder : ∀ id ∈ allLeft t.events, id < t.accepted
  nodup : ∀ a, ((t.queued a).map PacketPtr.id).Nodup
  apart : ∀ a b, ∀ p ∈ t.queued a, ∀ p' ∈ t.queued b, p.id = p'.id → a = b
  stays : ∀ a, ∀ p ∈ t.queued a, p.id ∉ allLeft t.events
  leftNodup : (allLeft t.events).Nodup
  order : ∀ a, acceptedIds t.events a = leftIds t.events a ++ (t.queued a).map PacketPtr.id
  places : (allLeft t.events).Perm (flushing t.frames ++ t.dequeued.map PacketPtr.id ++ freedIds t.events)
  -- only the first call can be the one that goes through the dequeued packets
  bottom : ∀ fs p fs', t.frames = fs ++ .pending p :: fs' → fs' = [] ∧ t.dequeued.head? = some p
  calledOnce : (calledIds t.events).Nodup
  calledWhere : ∀ id ∈ calledIds t.events, id ∈ t.frames.map (fun f => f.packet.id) ∨ id ∈ freedIds t.events
  unread : t.events.Pairwise fun later earlier => ∀ id, later = .accessed id → earlier ≠ .freed id
  itself : ∀ id, id ∈ allLeft t.events ↔ .handed id ∈ t.events ∨ id ∈ calledIds t.events

variable {t t' : Traffic A} {events : List (Event A)} {a b : A} {id : Nat} {p : PacketPtr}

namespace Traffic.Inv

theorem freed_left (h : t.Inv) (hid : id ∈ freedIds t.events) : id ∈ allLeft t.events :=
  h.places.mem_iff.2 (List.mem_append_right _ hid)

theorem dequeued_left (h : t.Inv) (hp : p ∈ t.dequeued) : p.id ∈ allLeft t.events :=
  h.places.mem_iff.2 (List.mem_append_left _ (List.mem_append_right _ (List.mem_map_of_mem hp)))

theorem called_left (h : t.Inv) (hid : id ∈ calledIds t.events) : id ∈ allLeft t.events := (h.itself id).2 (.inr hid)

theorem unread_cons (h : t.Inv) (hid : id ∉ freedIds t.events) :
    (.accessed id :: t.events).Pairwise fun later earlier => ∀ id, later = .accessed id → earlier ≠ .freed id := by
  refine List.pairwise_cons.2 ⟨?_, h.unread⟩
  rintro e he id' h' rfl
  cases h'
  exact hid (List.mem_filterMap.2 ⟨_, he, rfl⟩)

end Traffic.Inv

omit [DecidableEq A] in
theorem unread_other {e : Event A} (he : ∀ id, e ≠ .accessed id)
    (h : events.Pairwise fun later earlier => ∀ id, later = .accessed id → earlier ≠ .freed id) :
    (e :: events).Pairwise fun later earlier => ∀ id, later = .accessed id → earlier ≠ .freed id :=
  List.pairwise_cons.2 ⟨fun _ _ id hid => absurd hid (he id), h⟩

/-! ## A packet is accepted -/

theorem Traffic.Inv.accept (h : t.Inv) (a : A) (block : Nat) : Traffic.Inv
    { t with
      queued := Function.update t.queued a (t.queued a ++ [⟨block, t.accepted⟩])
      events := .accepted t.accepted a :: t.events
      accepted := t.accepted + 1 } := by
  have hmem : ∀ b, ∀ p ∈ Function.update t.queued a (t.queued a ++ [⟨block, t.accepted⟩]) b,
      p ∈ t.queued b ∨ (b = a ∧ p.id = t.accepted) := by
    intro b p hp
    by_cases hb : b = a
    · subst hb
      rw [Function.update_self, List.mem_append, List.mem_singleton] at hp
      exact hp.imp_right fun he => ⟨rfl, by rw [he]⟩
    · rw [Function.update_of_ne hb] at hp
      exact .inl hp
  have hfresh : ∀ b, ∀ p ∈ t.queued b, p.id ≠ t.accepted := fun b p hp => Nat.ne_of_lt (h.older b p hp)
  constructor
  case older =>
    intro b p hp
    rcases hmem b p hp with hp | ⟨-, hp⟩
    · exact Nat.lt_succ_of_lt (h.older b p hp)
    · exact hp ▸ Nat.lt_succ_self _
  case leftOlder => exact fun id hid => Nat.lt_succ_of_lt (h.leftOlder id hid)
  case nodup =>
    intro b
    by_cases hb : b = a
    · subst hb
      show ((Function.update t.queued b (t.queued b ++ [⟨block, t.accepted⟩]) b).map PacketPtr.id).Nodup
      rw [Function.update_self, List.map_append, List.nodup_append]
      refine ⟨h.nodup b, by simp, ?_⟩
      intro x hx y hy
      obtain ⟨p, hp, rfl⟩ := List.mem_map.1 hx
      rw [List.map_singleton, List.mem_singleton] at hy
      exact hy ▸ hfresh b p hp
    · show ((Function.update t.queued a (t.queued a ++ [⟨block, t.accepted⟩]) b).map PacketPtr.id).Nodup
      rw [Function.update_of_ne hb]
      exact h.nodup b
  case apart =>
    intro b c p hp p' hp' he
    rcases hmem b p hp with hp | ⟨hb, hp⟩
    · rcases hmem c p' hp' with hp' | ⟨-, hp'⟩
      · exact h.apart b c p hp p' hp' he
      · exact absurd (he.trans hp') (hfresh b p hp)
    · rcases hmem c p' hp' with hp' | ⟨hc, -⟩
      · exact absurd (he.symm.trans hp) (hfresh c p' hp')
      · exact hb.trans hc.symm
  case stays =>
    intro b p hp hl
    rcases hmem b p hp with hp | ⟨-, hp⟩
    · exact h.stays b p hp hl
    · exact absurd (h.leftOlder p.id hl) (by omega)
  case leftNodup => exact h.leftNodup
  case order =>
    intro b
    have ho := h.order b
    by_cases hb : b = a
    · subst hb
      simp only [acceptedIds, leftIds] at ho ⊢
      simp [ho]
    · simp only [acceptedIds, leftIds] at ho ⊢
      simp [ho, hb, Ne.symm hb]
  case places => exact h.places
  case bottom => exact h.bottom
  case calledOnce => exact h.calledOnce
  case calledWhere => exact h.calledWhere
  case unread => exact unread_other (by simp) h.unread
  case itself =>
    intro id
    simpa [allLeft, calledIds] using h.itself id

/-! ## A packet leaves its queue -/

/-- What holds once the first packet of a queue has left it. -/
structure Leaves (t : Traffic A) (a : A) (p : PacketPtr) (ps : List PacketPtr) : Prop where
  older : p.id < t.accepted
  fresh : p.id ∉ allLeft t.events
  rest : ∀ b, ∀ p' ∈ Function.update t.queued a ps b, p' ∈ t.queued b ∧ p'.id ≠ p.id
  nodup : ∀ b, ((Function.update t.queued a ps b).map PacketPtr.id).Nodup
  order : ∀ b, acceptedIds t.events b =
    (leftIds t.events b ++ if a = b then [p.id] else []) ++ (Function.update t.queued a ps b).map PacketPtr.id

theorem Traffic.Inv.leaves (h : t.Inv) {ps : List PacketPtr} (hq : t.queued a = p :: ps) : Leaves t a p ps := by
  have hp : p ∈ t.queued a := by simp [hq]
  have hn := h.nodup a
  rw [hq, List.map_cons, List.nodup_cons] at hn
  constructor
  case older => exact h.older a p hp
  case fresh => exact h.stays a p hp
  case rest =>
    intro b p' hp'
    by_cases hb : b = a
    · subst hb
      rw [Function.update_self] at hp'
      refine ⟨by simp [hq, hp'], fun he => hn.1 ?_⟩
      exact he ▸ List.mem_map_of_mem hp'
    · rw [Function.update_of_ne hb] at hp'
      exact ⟨hp', fun he => hb (h.apart b a p' hp' p hp he)⟩
  case nodup =>
    intro b
    by_cases hb : b = a
    · subst hb
      rw [Function.update_self]
      exact hn.2
    · rw [Function.update_of_ne hb]
      exact h.nodup b
  case order =>
    intro b
    have ho := h.order b
    by_cases hb : b = a
    · subst hb
      simp [ho, hq]
    · simp [ho, hb, Ne.symm hb]

theorem Traffic.Inv.flush (h : t.Inv) {ps : List PacketPtr} (hq : t.queued a = p :: ps) : Traffic.Inv
    { t with
      queued := Function.update t.queued a ps
      frames := .flush p :: t.frames
      events := .called p.id :: .accessed p.id :: .left p.id a :: t.events } := by
  have hl := h.leaves hq
  have hleft : allLeft (.called p.id :: .accessed p.id :: .left p.id a :: t.events) = p.id :: allLeft t.events := by
    simp [allLeft]
  have hcalled : calledIds (.called p.id :: .accessed p.id :: .left p.id a :: t.events) =
      p.id :: calledIds t.events := by
    simp [calledIds]
  have hfreed : freedIds (.called p.id :: .accessed p.id :: .left p.id a :: t.events) = freedIds t.events := by
    simp [freedIds]
  constructor
  case older => exact fun b p' hp' => h.older b p' (hl.rest b p' hp').1
  case leftOlder =>
    rw [hleft]
    exact List.forall_mem_cons.2 ⟨hl.older, h.leftOlder⟩
  case nodup => exact hl.nodup
  case apart => exact fun b c p₁ h₁ p₂ h₂ => h.apart b c p₁ (hl.rest b p₁ h₁).1 p₂ (hl.rest c p₂ h₂).1
  case stays =>
    intro b p' hp'
    obtain ⟨hq', hne⟩ := hl.rest b p' hp'
    rw [hleft, List.mem_cons, not_or]
    exact ⟨hne, h.stays b p' hq'⟩
  case leftNodup =>
    rw [hleft]
    exact List.nodup_cons.2 ⟨hl.fresh, h.leftNodup⟩
  case order =>
    intro b
    have ho := hl.order b
    simp only [acceptedIds, leftIds] at ho ⊢
    by_cases hb : a = b
    · subst hb
      simpa using ho
    · simpa [hb] using ho
  case places =>
    rw [hleft, hfreed]
    exact h.places.cons p.id
  case bottom =>
    intro fs p' fs' he
    cases fs with
    | nil => cases he
    | cons f fs => exact h.bottom fs p' fs' (List.cons.inj he).2
  case calledOnce =>
    rw [hcalled]
    exact List.nodup_cons.2 ⟨fun hc => hl.fresh (h.called_left hc), h.calledOnce⟩
  case calledWhere =>
    rw [hcalled, hfreed]
    refine List.forall_mem_cons.2 ⟨by simp [Frame.packet], fun id hid => ?_⟩
    exact (h.calledWhere id hid).imp_left (List.mem_cons_of_mem _)
  case unread =>
    refine unread_other (by simp) (List.pairwise_cons.2 ⟨?_, unread_other (by simp) h.unread⟩)
    rintro e he id' h' rfl
    cases h'
    rcases List.mem_cons.1 he with he | he
    · cases he
    · exact hl.fresh (h.freed_left (List.mem_filterMap.2 ⟨_, he, rfl⟩))
  case itself =>
    intro id
    rw [hleft, hcalled, List.mem_cons, List.mem_cons, h.itself id]
    simp only [List.mem_cons, reduceCtorEq, false_or]
    tauto

theorem Traffic.Inv.done (h : t.Inv) {ps : List PacketPtr} (hq : t.queued a = p :: ps) : Traffic.Inv
    { t with
      queued := Function.update t.queued a ps
      dequeued := t.dequeued ++ [p]
      events := .handed p.id :: .left p.id a :: .accessed p.id :: t.events } := by
  have hl := h.leaves hq
  have hleft : allLeft (.handed p.id :: .left p.id a :: .accessed p.id :: t.events) = p.id :: allLeft t.events := by
    simp [allLeft]
  have hcalled : calledIds (.handed p.id :: .left p.id a :: .accessed p.id :: t.events) = calledIds t.events := by
    simp [calledIds]
  have hfreed : freedIds (.handed p.id :: .left p.id a :: .accessed p.id :: t.events) = freedIds t.events := by
    simp [freedIds]
  constructor
  case older => exact fun b p' hp' => h.older b p' (hl.rest b p' hp').1
  case leftOlder =>
    rw [hleft]
    exact List.forall_mem_cons.2 ⟨hl.older, h.leftOlder⟩
  case nodup => exact hl.nodup
  case apart => exact fun b c p₁ h₁ p₂ h₂ => h.apart b c p₁ (hl.rest b p₁ h₁).1 p₂ (hl.rest c p₂ h₂).1
  case stays =>
    intro b p' hp'
    obtain ⟨hq', hne⟩ := hl.rest b p' hp'
    rw [hleft, List.mem_cons, not_or]
    exact ⟨hne, h.stays b p' hq'⟩
  case leftNodup =>
    rw [hleft]
    exact List.nodup_cons.2 ⟨hl.fresh, h.leftNodup⟩
  case order =>
    intro b
    have ho := hl.order b
    simp only [acceptedIds, leftIds] at ho ⊢
    by_cases hb : a = b
    · subst hb
      simpa using ho
    · simpa [hb] using ho
  case places =>
    rw [hleft, hfreed]
    refine (h.places.cons p.id).trans ?_
    rw [List.map_append, List.map_singleton, ← List.append_assoc]
    exact (List.perm_append_singleton p.id _).symm.append_right _
  case bottom =>
    intro fs p' fs' he
    obtain ⟨hnil, hhead⟩ := h.bottom fs p' fs' he
    refine ⟨hnil, ?_⟩
    rw [List.head?_append, hhead]
    rfl
  case calledOnce =>
    rw [hcalled]
    exact h.calledOnce
  case calledWhere =>
    rw [hcalled, hfreed]
    exact h.calledWhere
  case unread =>
    refine unread_other (by simp) (unread_other (by simp) ?_)
    exact h.unread_cons fun hf => hl.fresh (h.freed_left hf)
  case itself =>
    intro id
    rw [hleft, hcalled, List.mem_cons, h.itself id]
    simp only [List.mem_cons, reduceCtorEq, Event.handed.injEq, false_or]
    tauto

/-! ## A packet is read, called and freed -/

theorem Traffic.Inv.read (h : t.Inv) (hp : p ∈ t.queued a) :
    Traffic.Inv { t with events := .accessed p.id :: t.events } := by
  refine { h with unread := ?_, itself := ?_ }
  · exact h.unread_cons fun hf => h.stays a p hp (h.freed_left hf)
  · intro id
    simpa [allLeft, calledIds] using h.itself id

theorem Traffic.Inv.pending (h : t.Inv) {ps : List PacketPtr} (hf : t.frames = []) (hd : t.dequeued = p :: ps) :
    Traffic.Inv { t with frames := [.pending p], events := .called p.id :: .accessed p.id :: t.events } := by
  have hleft : p.id ∈ allLeft t.events := h.dequeued_left (by simp [hd])
  have hcalled : calledIds (.called p.id :: .accessed p.id :: t.events) = p.id :: calledIds t.events := by
    simp [calledIds]
  have hplaces := h.places
  have hunfreed : p.id ∉ freedIds t.events := by
    have hn := hplaces.nodup_iff.1 h.leftNodup
    rw [hf, hd, List.nodup_append] at hn
    exact fun hfr => hn.2.2 p.id (by simp) p.id hfr rfl
  refine { h with places := ?_, bottom := ?_, calledOnce := ?_, calledWhere := ?_, unread := ?_, itself := ?_ }
  · rw [hf] at hplaces
    exact hplaces
  · intro fs p' fs' he
    cases fs with
    | nil =>
      cases he
      exact ⟨rfl, by simp [hd]⟩
    | cons f fs => simp at he
  · rw [hcalled]
    refine List.nodup_cons.2 ⟨fun hc => ?_, h.calledOnce⟩
    rcases h.calledWhere _ hc with hc | hc
    · simp [hf] at hc
    · exact hunfreed hc
  · rw [hcalled]
    refine List.forall_mem_cons.2 ⟨by simp [Frame.packet], fun id hid => ?_⟩
    rcases h.calledWhere id hid with hc | hc
    · simp [hf] at hc
    · exact .inr hc
  · exact unread_other (by simp) (h.unread_cons hunfreed)
  · intro id
    rw [hcalled, List.mem_cons]
    have hi := h.itself id
    simp only [List.mem_cons, reduceCtorEq, false_or]
    constructor
    · intro hl
      exact (hi.1 hl).imp_right .inr
    · rintro (hh | rfl | hc)
      · exact hi.2 (.inl hh)
      · exact hleft
      · exact hi.2 (.inr hc)

theorem Traffic.Inv.flushed (h : t.Inv) {frames : List Frame} (hf : t.frames = .flush p :: frames) :
    Traffic.Inv { t with frames := frames, events := .freed p.id :: t.events } := by
  have hfreed : freedIds (.freed p.id :: t.events) = p.id :: freedIds t.events := by
    simp [freedIds]
  refine { h with places := ?_, bottom := ?_, calledWhere := ?_, unread := ?_, itself := ?_ }
  · rw [hfreed]
    have hp := h.places
    rw [hf] at hp
    exact hp.trans List.perm_middle.symm
  · intro fs p' fs' he
    have he : frames = fs ++ .pending p' :: fs' := he
    exact h.bottom (.flush p :: fs) p' fs' (by rw [hf, he, List.cons_append])
  · intro id hid
    rw [hfreed, List.mem_cons]
    have hw := h.calledWhere id hid
    rw [hf, List.map_cons, List.mem_cons] at hw
    rcases hw with (hw | hw) | hw
    · exact .inr (.inl hw)
    · exact .inl hw
    · exact .inr (.inr hw)
  · exact unread_other (by simp) h.unread
  · intro id
    simpa [allLeft, calledIds] using h.itself id

theorem Traffic.Inv.processed (h : t.Inv) {frames : List Frame} (hf : t.frames = .pending p :: frames) :
    Traffic.Inv { t with dequeued := t.dequeued.tail, frames := frames, events := .freed p.id :: t.events } := by
  obtain ⟨hnil, hhead⟩ := h.bottom [] p frames hf
  obtain ⟨ps, hd⟩ := List.head?_eq_some_iff.1 hhead
  have hfreed : freedIds (.freed p.id :: t.events) = p.id :: freedIds t.events := by
    simp [freedIds]
  refine { h with places := ?_, bottom := ?_, calledWhere := ?_, unread := ?_, itself := ?_ }
  · rw [hfreed]
    have hp := h.places
    rw [hf, hd] at hp
    rw [hd, hnil]
    rw [hnil] at hp
    exact hp.trans List.perm_middle.symm
  · intro fs p' fs' he
    simp [hnil] at he
  · intro id hid
    rw [hfreed, List.mem_cons]
    have hw := h.calledWhere id hid
    rw [hf, List.map_cons, List.mem_cons] at hw
    rcases hw with (hw | hw) | hw
    · exact .inr (.inl hw)
    · exact .inl hw
    · exact .inr (.inr hw)
  · exact unread_other (by simp) h.unread
  · intro id
    simpa [allLeft, calledIds] using h.itself id

/-! ## All steps -/

theorem Traffic.Step.inv (hs : Traffic.Step t t') (h : t.Inv) : t'.Inv := by
  cases hs with
  | accept a block => exact h.accept a block
  | flush hq => exact h.flush hq
  | flushed hf => exact h.flushed hf
  | read hp => exact h.read hp
  | done hq => exact h.done hq
  | pending hf hd => exact h.pending hf hd
  | processed hf => exact h.processed hf

theorem Traffic.Inv.handled (h : t.Inv) : Handled t.events := by
  constructor
  case calledOnce => exact h.calledOnce
  case freedOnce =>
    have hn := h.places.nodup_iff.1 h.leftNodup
    exact (List.nodup_append.1 hn).2.1
  case unread => exact h.unread
  case inOrder =>
    intro a
    rw [h.order a]
    exact List.prefix_append _ _
  case itself => exact h.itself

theorem Traffic.init_inv : Traffic.Inv (A := A) ⟨fun _ => [], [], [], [], 0⟩ := by
  constructor
  all_goals simp [allLeft, calledIds, freedIds, acceptedIds, leftIds, flushing]

end Contiki.Tsch
