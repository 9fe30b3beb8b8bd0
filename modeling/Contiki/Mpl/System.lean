/-
Runs of an MPL node: data messages from the network, local sends, expiries of the lifetime timer, and what
other modules and the timers do in between. The run keeps which messages were accepted by the seed entries
that are still there.
-/
import Contiki.Lib.Run
import Contiki.Mpl.Expiry

namespace Contiki.Mpl

open Contiki.Core Contiki.Lib

/-- What happens to a node: a packet comes in or is sent (`global` is its global address, `fits` tells that
the packet has room for the header), the lifetime timer expires, a control message for a domain comes, a
trickle timer changes, or another module writes the multicast addresses or the memory behind the seed set. -/
inductive Action
  | data (m : DataMsg)
  | send (src dest : Ipaddr) (global : Option Ipaddr) (fits : Bool)
  | lifetime
  | control (dest : Ipaddr)
  | dataTimer (k : Nat) (tt : Timer)
  | controlTimer (d : Nat) (tt : Timer)
  | maddrs (maddrs : Nat → Option Ipaddr)
  | memory (behind : Seed)

/-- A node, with the messages that the entries of its seed set have accepted. -/
structure World where
  state : State
  log : List Accepted

/-- `uip_is_addr_mcast_routable`: only such packets come to the multicast engine. -/
def isMcastRoutable (a : Ipaddr) : Bool := a 0 = 0xff && scope a > 2

def World.next (s : State) (log : List Accepted) : World := ⟨s, log.filter fun r => (s.seeds r.entry).used⟩

def logged (c : Conf) (m : DataMsg) (s : State) (v : Verdict × State) : List Accepted :=
  if v.1 = .accept then (acceptedEntry c m s v.2).toList else []

@[grind =]
def step (c : Conf) (w : World) : Action → Option World
  | .data m =>
    if isMcastRoutable m.dest then
      let v := mplIn c m w.state
      some (World.next v.2 (w.log ++ logged c m w.state v))
    else none
  | .send src dest global fits =>
    if isMcastRoutable dest then
      let v := mplOut c src dest global fits w.state
      match outMessage c src dest global fits w.state with
      | (none, _) => some (World.next v.2 w.log)
      | (some m, s) => some (World.next v.2 (w.log ++ logged c m s v))
    else none
  | .lifetime => some (World.next (lifetimeTimerExpiration c w.state) w.log)
  | .control dest =>
    some (World.next (if domainSetLookup c dest w.state = none then (domainSetAllocate c dest w.state).2 else w.state) w.log)
  | .dataTimer k tt => some (World.next (w.state.setMsg k { w.state.msgs k with tt := tt }) w.log)
  | .controlTimer d tt => some (World.next (w.state.setDomain d { w.state.domains d with tt := tt }) w.log)
  | .maddrs maddrs => some (World.next { w.state with maddrs := maddrs } w.log)
  | .memory behind => some (World.next (w.state.setSeed c.seedSetSize behind) w.log)

def World.init (c : Conf) (localSeedId : Option SeedId) (maddrs : Nat → Option Ipaddr) (behind : Seed) : World :=
  ⟨mplInit c localSeedId maddrs behind, []⟩

/-- The condition on a step: the messages that pass the checks come in order, and no domain that this node
has left is that of what stands behind the seed set. -/
def InOrder (c : Conf) (w : World) : Action → Prop
  | .data m => maddrLookup c m.dest w.state ≠ none → headerOk c true m = true → Ordered c m w.state
  | .send src dest global fits => ∀ m s, outMessage c src dest global fits w.state = (some m, s) →
      headerOk c false m = true → Ordered c m s
  | .lifetime => ∀ d, Left c w.state d → (w.state.seeds c.seedSetSize).domain ≠ some d
  | _ => True

/-- The step reclaims no buffer and frees no domain. -/
def NoReclaim (c : Conf) (w : World) : Action → Prop
  | .data m => maddrLookup c m.dest w.state ≠ none → headerOk c true m = true → IsNew c m w.state →
      bufferAllocate c w.state ≠ none
  | .send src dest global fits => ∀ m s, outMessage c src dest global fits w.state = (some m, s) →
      headerOk c false m = true → IsNew c m s → bufferAllocate c s ≠ none
  | .lifetime => ∀ d, ¬ Left c w.state d
  | _ => True

/-- What is claimed of a state: the lists of the seeds ascend and have the length that is kept for them, a
buffer that is used is in exactly one list, no message was accepted twice, and nothing went astray. -/
structure Good (c : Conf) (w : World) : Prop where
  order : ∀ i < c.seedSetSize, (w.state.seeds i).used → ((w.state.seeds i).minSeq.map w.state.seq).Pairwise SerialLt
  count : ∀ i < c.seedSetSize, (w.state.seeds i).used → (w.state.seeds i).count.toNat = (w.state.seeds i).minSeq.length
  listed : ∀ i < c.seedSetSize, (w.state.seeds i).used → ∀ k ∈ (w.state.seeds i).minSeq,
    k < c.bufferedMessageSetSize ∧ (w.state.msgs k).used
  once : ∀ k < c.bufferedMessageSetSize, (w.state.msgs k).used →
    ∃! i, i < c.seedSetSize ∧ (w.state.seeds i).used ∧ k ∈ (w.state.seeds i).minSeq
  accepted : (w.log.map fun r => (r.domain, r.seed, r.seq)).Nodup
  sound : w.state.wild = false

/-! ## What a step preserves -/

/-- The sets are in order, and the log is what the entries remember. -/
structure WorldInv (c : Conf) (w : World) : Prop where
  inv : Inv c w.state
  ok : DomainsOk w.state
  log : ∀ r ∈ w.log, Remembered c w.state r
  once : (w.log.map fun r => (r.domain, r.seed, r.seq)).Nodup

variable {c : Conf} {w w' : World} {s t : State} {m : DataMsg} {log : List Accepted} {v : Verdict × State}

theorem WorldInv.next (h : Inv c t) (hok : DomainsOk t) (hlog : ∀ r ∈ log, (t.seeds r.entry).used → Remembered c t r)
    (honce : (log.map fun r => (r.domain, r.seed, r.seq)).Nodup) : WorldInv c (World.next t log) where
  inv := h
  ok := hok
  log r hr := by
    obtain ⟨hmem, hu⟩ := List.mem_filter.1 hr
    exact hlog r hmem hu
  once := honce.sublist (List.filter_sublist.map _)

theorem WorldInv.shrinks (h : WorldInv c w) (hs : Shrinks c w.state t) (hok : DomainsOk t) :
    WorldInv c (World.next t w.log) :=
  WorldInv.next hs.inv hok (fun r hr hu => hs.remembered r (h.log r hr) hu) h.once

theorem WorldInv.same (h : WorldInv c w) (hs : SameSets c w.state t) : WorldInv c (World.next t w.log) :=
  h.shrinks (hs.shrinks h.inv) (hs.ok h.ok)

theorem WorldInv.accepts (h : WorldInv c ⟨s, log⟩) (ha : Accepts c m s v) :
    WorldInv c (World.next v.2 (log ++ logged c m s v)) := by
  have hold : ∀ r ∈ log, Remembered c v.2 r := fun r hr => ha.remembered r (h.log r hr)
  unfold logged
  by_cases hv : v.1 = .accept
  · obtain ⟨r, hr, hrem, hfresh⟩ := ha.new hv
    rw [if_pos hv, hr, Option.toList_some]
    refine WorldInv.next ha.inv (ha.ok h.ok) (fun x hx _ => ?_) ?_
    · rcases List.mem_append.1 hx with hx | hx
      · exact hold x hx
      · rw [List.mem_singleton.1 hx]
        exact hrem
    · rw [List.map_append, List.nodup_append]
      refine ⟨h.once, by simp, fun x hx y hy hxy => ?_⟩
      obtain ⟨r', hr', rfl⟩ := List.mem_map.1 hx
      rw [List.map_singleton, List.mem_singleton] at hy
      rw [hy] at hxy
      simp only [Prod.mk.injEq] at hxy
      exact hfresh r' (h.log r' hr') hxy.1 hxy.2.1 hxy.2.2
  · rw [if_neg hv, List.append_nil]
    exact WorldInv.next ha.inv (ha.ok h.ok) (fun r hr _ => hold r hr) h.once

theorem isMcastRoutable_ff {a : Ipaddr} (h : isMcastRoutable a = true) : a 0 = 0xff := by
  simp only [isMcastRoutable, Bool.and_eq_true, decide_eq_true_eq] at h
  exact h.1

theorem updateSeedId_same (c : Conf) (global : Option Ipaddr) (s : State) :
    ∃ localSeedId, updateSeedId c global s = { s with localSeedId := localSeedId } := by
  unfold updateSeedId
  split
  · exact ⟨_, rfl⟩
  · exact ⟨s.localSeedId, rfl⟩

/-- `out` makes its message of its own seed id and number, and leaves the sets alone. -/
theorem outMessage_spec (c : Conf) (src dest : Ipaddr) (global : Option Ipaddr) (fits : Bool) (s : State) :
    ∃ localSeedId lastSeq,
      (outMessage c src dest global fits s).2 = { s with localSeedId := localSeedId, lastSeq := lastSeq } ∧
        ∀ m, (outMessage c src dest global fits s).1 = some m → m.dest = dest := by
  obtain ⟨localSeedId, hs⟩ : ∃ localSeedId, (if s.localSeedId.isNone then updateSeedId c global s else s) =
      { s with localSeedId := localSeedId } := by
    split
    · exact updateSeedId_same c global s
    · exact ⟨s.localSeedId, rfl⟩
  unfold outMessage
  rw [hs]
  dsimp only
  cases localSeedId with
  | none => exact ⟨none, s.lastSeq, rfl, fun m hm => by cases hm⟩
  | some localId =>
    cases fits with
    | false => exact ⟨some localId, s.lastSeq, rfl, fun m hm => by cases hm⟩
    | true =>
      refine ⟨some localId, (s.lastSeq + 1) % 0x100, rfl, fun m hm => ?_⟩
      obtain rfl := Option.some.inj hm
      rfl

theorem SameSets.localSeed (c : Conf) (s : State) (localSeedId : Option SeedId) (lastSeq : UInt16) :
    SameSets c s { s with localSeedId := localSeedId, lastSeq := lastSeq } :=
  ⟨fun _ => rfl, fun _ => rfl, fun _ _ => rfl, fun _ _ => rfl, fun _ _ => rfl, fun _ _ => rfl, fun _ _ => rfl,
    fun _ h => h, id, rfl⟩

theorem SameSets.maddrs (c : Conf) (s : State) (maddrs : Nat → Option Ipaddr) : SameSets c s { s with maddrs := maddrs } :=
  ⟨fun _ => rfl, fun _ => rfl, fun _ _ => rfl, fun _ _ => rfl, fun _ _ => rfl, fun _ _ => rfl, fun _ _ => rfl,
    fun _ h => h, id, rfl⟩

theorem SameSets.controlTimer (c : Conf) (s : State) (d : Nat) (tt : Timer) :
    SameSets c s (s.setDomain d { s.domains d with tt := tt }) := by
  have haddr : ∀ e, ((s.setDomain d { s.domains d with tt := tt }).domains e).dataAddr = (s.domains e).dataAddr ∧
      ((s.setDomain d { s.domains d with tt := tt }).domains e).ctrlAddr = (s.domains e).ctrlAddr := by
    intro e
    by_cases hed : e = d
    · simp [State.setDomain, hed]
    · simp [State.setDomain, hed]
  refine ⟨fun _ => rfl, fun _ => rfl, fun _ _ => rfl, fun _ _ => rfl, fun _ _ => rfl, fun _ _ => rfl, fun _ _ => rfl,
    fun e he => ?_, fun hok e he => ?_, rfl⟩
  · rwa [Domain.used, (haddr e).1]
  · rw [Domain.used, (haddr e).1] at he
    rw [(haddr e).1, (haddr e).2]
    exact hok e he

theorem SameSets.memory (c : Conf) (s : State) (v : Seed) : SameSets c s (s.setSeed c.seedSetSize v) := by
  have hseed : ∀ i < c.seedSetSize, (s.setSeed c.seedSetSize v).seeds i = s.seeds i := fun i hi => setSeed_ne v (ne_of_lt hi)
  refine ⟨fun _ => rfl, fun _ => rfl, fun i hi => ?_, fun i hi => ?_, fun i hi => ?_, fun i hi => ?_, fun i hi => ?_,
    fun _ h => h, id, rfl⟩ <;>
  rw [hseed i hi]

/-! ## Steps -/

theorem mplIn_spec (h : WorldInv c ⟨s, log⟩) (hdest : m.dest 0 = 0xff)
    (ho : maddrLookup c m.dest s ≠ none → headerOk c true m = true → Ordered c m s) : Accepts c m s (mplIn c m s) := by
  unfold mplIn
  cases hl : maddrLookup c m.dest s with
  | none => exact Accepts.dropped h.inv (SameSets.refl c s) rfl
  | some i => exact accept_spec h.inv hdest (ho (by rw [hl]; exact Option.some_ne_none i))

theorem WorldInv.step {a : Action} (h : WorldInv c w) (hc : InOrder c w a) (hs : step c w a = some w') : WorldInv c w' := by
  cases a with
  | data m =>
    simp only [Mpl.step] at hs
    split at hs
    · rename_i hr
      obtain rfl := Option.some.inj hs
      exact WorldInv.accepts h (mplIn_spec h (isMcastRoutable_ff hr) hc)
    · cases hs
  | send src dest global fits =>
    simp only [Mpl.step] at hs
    split at hs
    · rename_i hr
      obtain ⟨localSeedId, lastSeq, hstate, hdest⟩ := outMessage_spec c src dest global fits w.state
      cases ho : outMessage c src dest global fits w.state with
      | mk om s =>
        rw [ho] at hs hstate hdest
        have hsame : SameSets c w.state s := by
          rw [show s = _ from hstate]
          exact SameSets.localSeed c w.state localSeedId lastSeq
        cases om with
        | none =>
          obtain rfl := Option.some.inj hs
          have hout : (mplOut c src dest global fits w.state).2 = s := by rw [mplOut, ho]
          rw [hout]
          exact h.same hsame
        | some m =>
          obtain rfl := Option.some.inj hs
          have hout : mplOut c src dest global fits w.state = accept c false m s := by rw [mplOut, ho]
          rw [hout]
          have hff : m.dest 0 = 0xff := by
            rw [hdest m rfl]
            exact isMcastRoutable_ff hr
          have h' : WorldInv c ⟨s, w.log⟩ :=
            ⟨h.inv.same hsame, hsame.ok h.ok, fun r hr => (h.log r hr).same hsame, h.once⟩
          exact h'.accepts (accept_spec h'.inv hff (hc m s ho))
    · cases hs
  | lifetime =>
    obtain rfl := Option.some.inj hs
    obtain ⟨hshrinks, hok, -⟩ := lifetimeTimerExpiration_spec h.inv h.ok hc
    exact h.shrinks hshrinks hok
  | control dest =>
    obtain rfl := Option.some.inj hs
    split
    · exact h.same (domainSetAllocate_spec c dest w.state).1
    · exact h.same (SameSets.refl c w.state)
  | dataTimer k tt =>
    obtain rfl := Option.some.inj hs
    exact h.same (SameSets.timer c w.state k tt)
  | controlTimer d tt =>
    obtain rfl := Option.some.inj hs
    exact h.same (SameSets.controlTimer c w.state d tt)
  | maddrs maddrs =>
    obtain rfl := Option.some.inj hs
    exact h.same (SameSets.maddrs c w.state maddrs)
  | memory behind =>
    obtain rfl := Option.some.inj hs
    exact h.same (SameSets.memory c w.state behind)

/-- A step that frees nothing for another use reads nothing behind the seed set. -/
theorem step_outside {a : Action} (h : WorldInv c w) (hc : InOrder c w a) (hn : NoReclaim c w a)
    (hs : step c w a = some w') : w'.state.outside = w.state.outside := by
  cases a with
  | data m =>
    simp only [Mpl.step] at hs
    split at hs
    · rename_i hr
      obtain rfl := Option.some.inj hs
      show (mplIn c m w.state).2.outside = w.state.outside
      unfold mplIn
      cases hl : maddrLookup c m.dest w.state with
      | none => rfl
      | some i =>
        have hne : maddrLookup c m.dest w.state ≠ none := by
          rw [hl]
          exact Option.some_ne_none i
        exact accept_outside h.inv (isMcastRoutable_ff hr) (hc hne) (hn hne)
    · cases hs
  | send src dest global fits =>
    simp only [Mpl.step] at hs
    split at hs
    · rename_i hr
      obtain ⟨localSeedId, lastSeq, hstate, hdest⟩ := outMessage_spec c src dest global fits w.state
      cases ho : outMessage c src dest global fits w.state with
      | mk om s =>
        rw [ho] at hs hstate hdest
        have hsame : SameSets c w.state s := by
          rw [show s = _ from hstate]
          exact SameSets.localSeed c w.state localSeedId lastSeq
        have hout : s.outside = w.state.outside := by rw [show s = _ from hstate]
        cases om with
        | none =>
          obtain rfl := Option.some.inj hs
          show (mplOut c src dest global fits w.state).2.outside = w.state.outside
          rw [mplOut, ho]
          exact hout
        | some m =>
          obtain rfl := Option.some.inj hs
          show (mplOut c src dest global fits w.state).2.outside = w.state.outside
          have hff : m.dest 0 = 0xff := by
            rw [hdest m rfl]
            exact isMcastRoutable_ff hr
          rw [mplOut, ho]
          exact (accept_outside (h.inv.same hsame) hff (hc m s ho) (hn m s ho)).trans hout
    · cases hs
  | lifetime =>
    obtain rfl := Option.some.inj hs
    exact (lifetimeTimerExpiration_spec h.inv h.ok hc).2.2 hn
  | control dest =>
    obtain rfl := Option.some.inj hs
    show (if domainSetLookup c dest w.state = none then (domainSetAllocate c dest w.state).2 else w.state).outside = _
    split
    · exact (domainSetAllocate_spec c dest w.state).2.2.1
    · rfl
  | dataTimer k tt =>
    obtain rfl := Option.some.inj hs
    rfl
  | controlTimer d tt =>
    obtain rfl := Option.some.inj hs
    rfl
  | maddrs maddrs =>
    obtain rfl := Option.some.inj hs
    rfl
  | memory behind =>
    obtain rfl := Option.some.inj hs
    rfl

/-! ## Runs -/

theorem WorldInv.good (h : WorldInv c w) : Good c w where
  order i hi hu := (h.inv.seedOk i hi hu).serial
  count i hi hu := (h.inv.seedOk i hi hu).count
  listed i hi hu k hk := by
    obtain ⟨hlt, hseed⟩ := h.inv.owned i hi hu k hk
    refine ⟨hlt, ?_⟩
    rw [Msg.used, hseed]
    rfl
  once k hk hu := by
    obtain ⟨i, hi⟩ := Option.isSome_iff_exists.1 hu
    refine ⟨i, h.inv.listed k hk i hi, ?_⟩
    rintro j ⟨hj, hju, hmem⟩
    have hseed := (h.inv.owned j hj hju k hmem).2
    rw [hi] at hseed
    exact (Option.some.inj hseed).symm
  accepted := h.once
  sound := h.inv.sound

theorem WorldInv.init (c : Conf) (localSeedId : Option SeedId) (maddrs : Nat → Option Ipaddr) (behind : Seed) :
    WorldInv c (World.init c localSeedId maddrs behind) ∧ (World.init c localSeedId maddrs behind).state.outside = false := by
  unfold World.init mplInit
  generalize hs : (State.mk _ _ _ _ _ _ _ _ _) = s
  have hseed : ∀ i < c.seedSetSize, (s.seeds i).domain = none := by
    intro i hi
    rw [← hs]
    dsimp only
    rw [Function.update_of_ne (ne_of_lt hi)]
  have hunused : ∀ i < c.seedSetSize, (s.seeds i).used = false := fun i hi => by
    rw [Seed.used, hseed i hi]
    rfl
  have hmsg : ∀ k, (s.msgs k).seed = none := fun k => by
    rw [← hs]
    rfl
  have hdom : ∀ d, (s.domains d).used = false := fun d => by
    rw [← hs]
    rfl
  have hinv : Inv c s := by
    refine ⟨fun i hi hu => ?_, fun k _ i hi => ?_, fun i hi hu => ?_, fun i hi _ _ hu => ?_, fun i hi d hd => ?_, ?_⟩
    · rw [hunused i hi] at hu
      cases hu
    · rw [hmsg] at hi
      cases hi
    · rw [hunused i hi] at hu
      cases hu
    · rw [hunused i hi] at hu
      cases hu
    · rw [hseed i hi] at hd
      cases hd
    · rw [← hs]
  have hok : DomainsOk s := fun d hd => by
    rw [hdom] at hd
    cases hd
  have hleft : ∀ d, ¬ Left c s d := fun d hd => by
    rw [Left, hdom] at hd
    cases hd.1
  obtain ⟨hshrinks, hok', hout⟩ := mplMaddrCheck_spec hinv hok fun d hd => absurd hd (hleft d)
  refine ⟨⟨hshrinks.inv, hok', by simp, by simp⟩, ?_⟩
  rw [hout hleft, ← hs]

/-- In every run whose messages come in order, every state is good; and if in addition no buffer is reclaimed
and no domain freed, nothing outside the sets is read. -/
theorem mpl_run (c : Conf) (localSeedId : Option SeedId) (maddrs : Nat → Option Ipaddr) (behind : Seed) (xs : List Action)
    (h : AllSteps (step c) (InOrder c) (World.init c localSeedId maddrs behind) xs) :
    AllStates (step c) (Good c) (World.init c localSeedId maddrs behind) xs ∧
      (AllSteps (step c) (NoReclaim c) (World.init c localSeedId maddrs behind) xs →
        AllStates (step c) (fun w => w.state.outside = false) (World.init c localSeedId maddrs behind) xs) := by
  obtain ⟨hinv, hout⟩ := WorldInv.init c localSeedId maddrs behind
  refine ⟨?_, fun hn => ?_⟩
  · exact (allStates_of_allSteps (J := fun _ => True) (fun _ _ _ _ _ => trivial)
      (fun w a w' _ hw hc hs => WorldInv.step hw hc hs) xs _ trivial hinv h).mono fun _ hw => hw.good
  · refine (allStates_of_allSteps (J := fun _ => True) (P := fun w => WorldInv c w ∧ w.state.outside = false)
      (fun _ _ _ _ _ => trivial) (fun w a w' _ hw hc hs => ?_) xs _ trivial ⟨hinv, hout⟩ (h.and hn)).mono fun _ hw => hw.2
    exact ⟨WorldInv.step hw.1 hc.1 hs, (step_outside hw.1 hc.1 hc.2 hs).trans hw.2⟩

/-! ## Two runs -/

def smallConf : Conf := ⟨6, 2, 1, 3, 0, 10, 10, true, true, true, true⟩

def realmLocal : Ipaddr := fun i => if i.val = 0 then 0xff else if i.val = 1 then 3 else 0

def smallMaddrs : Nat → Option Ipaddr := fun i => if i = 0 then some realmLocal else none

def smallSeed : Seed := ⟨⟨0, fun _ => 0⟩, 0, 0, 0, [], none⟩

def smallData (seq : UInt8) : DataMsg :=
  ⟨fun i => if i.val = 0 then 0xfd else 0, realmLocal, false, 0, 0x6d, 0, seq, fun _ => 0⟩

def smallWorld : World := World.init smallConf none smallMaddrs smallSeed

theorem smallWorld_ordered : InOrder smallConf smallWorld (.data (smallData 5)) := by
  have hlookup : seedSetLookup smallConf (wireSeed (smallData 5)) 0 smallWorld.state = none := by decide
  have hdomain : domainSetLookup smallConf realmLocal smallWorld.state = some 0 := by decide
  refine fun _ _ => ⟨fun hs => absurd hs (by decide), fun _ => by decide, fun _ hb => absurd hb (by decide), fun _ d i hd hi => ?_⟩
  rw [show (smallData 5).dest = realmLocal from rfl, hdomain] at hd
  obtain rfl := Option.some.inj hd
  rw [hlookup] at hi
  cases hi

/-- A run with one message. -/
theorem mpl_run_small : AllStates (step smallConf) (Good smallConf) smallWorld [.data (smallData 5)] ∧
    (AllSteps (step smallConf) (NoReclaim smallConf) smallWorld [.data (smallData 5)] →
      AllStates (step smallConf) (fun w => w.state.outside = false) smallWorld [.data (smallData 5)]) :=
  mpl_run smallConf none smallMaddrs smallSeed [.data (smallData 5)] ⟨smallWorld_ordered, fun _ _ => trivial⟩

/-- Message 250 comes late, eleven numbers before message 5, and is put behind it. -/
theorem late_message_out_of_order :
    ¬ AllStates (step smallConf) (Good smallConf) smallWorld [.data (smallData 5), .data (smallData 250)] := by
  intro h
  have hlist : (exec (step smallConf) smallWorld [.data (smallData 5), .data (smallData 250)]).map
      (fun w => ((w.state.seeds 1).used, (w.state.seeds 1).minSeq.map w.state.seq)) = some (true, [5, 250]) := by decide
  obtain ⟨w, hw, hpair⟩ := Option.map_eq_some_iff.1 hlist
  obtain ⟨hused, hseqs⟩ := Prod.mk.inj hpair
  have horder := (h.last hw).order 1 (by decide) hused
  rw [hseqs] at horder
  exact absurd horder (by decide)

end Contiki.Mpl
