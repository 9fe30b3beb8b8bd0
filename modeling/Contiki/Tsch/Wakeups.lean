/-
The slots at which a node wakes up while it misses deadlines: the loop at the end of tsch_slot_operation passes over no slot
with an active link, and stops at no other slot unless a burst goes on.
-/
import Contiki.Tsch.NextActive

namespace Contiki.Tsch

open Contiki.Lib

variable {A : Type} [DecidableEq A] {cfg : Config A} {s : State A}

/-- The slots that the rounds of `scheduleLoop` come to. -/
def wakeups (cfg : Config A) : Nat → State A → List Nat
  | 0, s => [(scheduleNext cfg s).1.slot.currentAsn.toNat]
  | misses + 1, s =>
    (scheduleNext cfg s).1.slot.currentAsn.toNat :: wakeups cfg misses (scheduleNext cfg s).1

/-- What a round does: it goes on by `d` slots and passes over no active one. -/
structure Woken (s s' : State A) (d : Nat) : Prop where
  sched : s'.sched = s.sched
  burst : s'.slot.burstLinkScheduled = s.slot.burstLinkScheduled
  pos : 0 < d
  le : d ≤ 65535
  asn : s'.slot.currentAsn.toNat = s.slot.currentAsn.toNat + d
  idle : ∀ k, 0 < k → k < d → s.sched.activeAt (s.slot.currentAsn.toNat + k) = []
  active : s.slot.burstLinkScheduled = false → s.sched.links ≠ [] →
    s.sched.activeAt (s.slot.currentAsn.toNat + d) ≠ []

theorem getNextActiveLink_woken (h : s.sched.Valid) : (getNextActiveLink s).1.sched = s.sched ∧
    (getNextActiveLink s).1.slot.currentAsn = s.slot.currentAsn ∧
    (getNextActiveLink s).1.slot.burstLinkScheduled = s.slot.burstLinkScheduled ∧
    0 < (getNextActiveLink s).2 ∧ (getNextActiveLink s).2 ≤ 65535 ∧
    (∀ k, 0 < k → k < (getNextActiveLink s).2 → s.sched.activeAt (s.slot.currentAsn.toNat + k) = []) ∧
    (s.sched.links ≠ [] → s.sched.activeAt (s.slot.currentAsn.toNat + (getNextActiveLink s).2) ≠ []) := by
  unfold getNextActiveLink
  obtain ⟨hnone, hnil⟩ | ⟨b, first, rest, hb, hpos, hactive, -, hbefore, hsize⟩ := nextActive_spec h s.slot.currentAsn
  -- without links the next slot is taken
  · rw [hnone]
    dsimp only
    exact ⟨rfl, rfl, rfl, Nat.one_pos, by decide, fun k hk hlt => absurd hlt (by omega),
      fun hne => absurd hnil hne⟩
  · rw [hb]
    dsimp only
    obtain ⟨sf, hsf, hl, hcomes⟩ := mem_activeAt.1 (hactive ▸ List.mem_cons_self)
    have hle : b.time ≤ (s.sched.slotframe sf).size.toNat :=
      hsize (sf, first) (mem_places.2 ⟨hsf, hl⟩) (decide_eq_true hcomes)
    have hlt := (s.sched.slotframe sf).size.toNat_lt
    refine ⟨rfl, rfl, rfl, hpos, by omega, hbefore, fun _ => ?_⟩
    rw [hactive]
    exact List.cons_ne_nil first rest

theorem scheduleNext_woken (cfg : Config A) (h : s.sched.Valid) (hwrap : s.slot.currentAsn.toNat + 65535 < 2 ^ 40) :
    ∃ d, Woken s (scheduleNext cfg s).1 d := by
  have hinc : ∀ (asn : Asn) (d : Nat), d ≤ 65535 → asn.toNat + 65535 < 2 ^ 40 → (asn.inc d).toNat = asn.toNat + d := by
    intro asn d hd hasn
    have hnat : (UInt32.ofNat d).toNat = d := by
      rw [UInt32.toNat_ofNat']
      omega
    have := asn.toNat_inc (UInt32.ofNat d)
    rw [hnat] at this
    omega
  obtain ⟨hended, hslot⟩ := updateLinkBackoff_ended cfg s s.slot.currentLink
  unfold scheduleNext
  dsimp only
  generalize updateLinkBackoff cfg s s.slot.currentLink = t at hended hslot ⊢
  split_ifs with hburst
  -- a burst goes on in the next slot
  · refine ⟨1, hended.sched, by rw [hslot], Nat.one_pos, by decide, ?_, fun k hk hlt => absurd hlt (by omega),
      fun hb => ?_⟩
    · rw [hslot]
      exact hinc _ 1 (by decide) hwrap
    · rw [hslot, hb] at hburst
      cases hburst.1
  · obtain ⟨hsched, hasn, hflag, hpos, hle, hidle, hactive⟩ := getNextActiveLink_woken (hended.sched ▸ h : t.sched.Valid)
    rw [hended.sched, hslot] at hidle hactive
    refine ⟨_, hsched.trans hended.sched, ?_, hpos, hle, ?_, hidle, fun _ => hactive⟩
    · exact hflag.trans (by rw [hslot])
    · rw [hasn, hslot]
      exact hinc _ _ hle hwrap

/-- What the rounds of the loop come to: increasing slots, from which no slot with an active link is missing. -/
structure Wakes (s : State A) (last : Nat) (ws : List Nat) : Prop where
  ends : (s.slot.currentAsn.toNat :: ws).getLast? = some last
  sorted : (s.slot.currentAsn.toNat :: ws).Pairwise (· < ·)
  complete : ∀ n, s.slot.currentAsn.toNat < n → n ≤ last → s.sched.activeAt n ≠ [] → n ∈ ws
  active : s.slot.burstLinkScheduled = false → s.sched.links ≠ [] → ∀ n ∈ ws, s.sched.activeAt n ≠ []

omit [DecidableEq A] in
theorem Woken.wakes {t : State A} {d last : Nat} {ws : List Nat} (h : Woken s t d) (hw : Wakes t last ws) :
    Wakes s last (t.slot.currentAsn.toNat :: ws) := by
  have hpos := h.pos
  have hasn := h.asn
  refine ⟨?_, List.pairwise_cons.2 ⟨fun n hn => ?_, hw.sorted⟩, fun n hn hle hne => ?_, fun hb hl n hn => ?_⟩
  · rw [List.getLast?_cons_cons, hw.ends]
  · rcases List.mem_cons.1 hn with rfl | hn
    · omega
    · have := List.rel_of_pairwise_cons hw.sorted hn
      omega
  -- an active slot before the round ends was passed over, and one behind it is left to the other rounds
  · rcases Nat.lt_trichotomy n t.slot.currentAsn.toNat with hlt | rfl | hgt
    · have hidle := h.idle (n - s.slot.currentAsn.toNat) (by omega) (by omega)
      rw [Nat.add_sub_cancel' hn.le] at hidle
      exact absurd hidle hne
    · exact List.mem_cons_self
    · rw [← h.sched] at hne
      exact List.mem_cons_of_mem _ (hw.complete n hgt hle hne)
  · rcases List.mem_cons.1 hn with rfl | hn
    · rw [hasn]
      exact h.active hb hl
    · rw [← h.sched] at hl ⊢
      exact hw.active (h.burst.trans hb) hl n hn

omit [DecidableEq A] in
theorem wakes_nil (s : State A) : Wakes s s.slot.currentAsn.toNat [] :=
  ⟨rfl, List.pairwise_singleton _ _, fun n hn hle => absurd hle (by omega), fun _ _ => nofun⟩

theorem wakeups_wakes (misses : Nat) {s : State A} (h : s.sched.Valid)
    (hwrap : s.slot.currentAsn.toNat + (misses + 1) * 65535 < 2 ^ 40) :
    Wakes s (scheduleLoop cfg misses s).1.slot.currentAsn.toNat (wakeups cfg misses s) := by
  obtain ⟨d, hd⟩ := scheduleNext_woken cfg h (by omega)
  induction misses generalizing s d with
  | zero => exact hd.wakes (wakes_nil _)
  | succ misses ih =>
    have hasn := hd.asn
    have hle := hd.le
    have hvalid : (scheduleNext cfg s).1.sched.Valid := hd.sched ▸ h
    obtain ⟨d', hd'⟩ := scheduleNext_woken cfg hvalid (by omega)
    exact hd.wakes (ih hvalid (by omega) d' hd')

theorem length_wakeups (cfg : Config A) : ∀ (misses : Nat) (s : State A), (wakeups cfg misses s).length = misses + 1
  | 0, _ => rfl
  | misses + 1, _ => congrArg (· + 1) (length_wakeups cfg misses _)

/-- In every state of every run: a node that misses some deadlines wakes up once for each of them and once more, and passes
over no slot in which a link is active; unless a burst goes on it wakes up in no other slot. -/
theorem wakeups_run (cfg : Config A) (ebRoom broadcastRoom : Bool) (actions : List (Action A)) {w : World A}
    (hrun : exec (step cfg) (World.init cfg ebRoom broadcastRoom) actions = some w) (misses : Nat)
    (hwrap : w.state.slot.currentAsn.toNat + (misses + 1) * 65535 < 2 ^ 40) :
    (wakeups cfg misses w.state).length = misses + 1 ∧
      Wakes w.state (scheduleLoop cfg misses w.state).1.slot.currentAsn.toNat (wakeups cfg misses w.state) :=
  ⟨length_wakeups cfg misses w.state, wakeups_wakes misses (run_valid cfg ebRoom broadcastRoom actions hrun) hwrap⟩

/-- The node misses two deadlines with links in two slotframes of two slots. -/
theorem wakeups_run_twice : (wakeups smallConfig 2 (stateAfter sameTimeslot)).length = 3 ∧ ∀ n,
    (stateAfter sameTimeslot).slot.currentAsn.toNat < n →
    n ≤ (scheduleLoop smallConfig 2 (stateAfter sameTimeslot)).1.slot.currentAsn.toNat →
    (stateAfter sameTimeslot).sched.activeAt n ≠ [] → n ∈ wakeups smallConfig 2 (stateAfter sameTimeslot) := by
  obtain ⟨w, hw⟩ := Option.isSome_iff_exists.1 (show
    (exec (step smallConfig) (World.init smallConfig true true) sameTimeslot).isSome = true by decide)
  have hstate : stateAfter sameTimeslot = w.state := by rw [stateAfter, hw, Option.getD_some]
  have hall := wakeups_run smallConfig true true sameTimeslot hw 2 (by rw [← hstate]; decide)
  rw [hstate]
  exact ⟨hall.1, hall.2.complete⟩

end Contiki.Tsch
