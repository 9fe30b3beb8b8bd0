/-
The calls of accept: which messages are new, what becomes of the sets when one is dropped or accepted,
and under which conditions the lists stay in order and a message is not accepted again.
-/
import Contiki.Lib.Mem
import Contiki.Mpl.Buffers

namespace Contiki.Mpl

open Contiki.Core Contiki.Lib

variable {c : Conf} {s t : State} {r : Accepted} {i k d l : Nat} {q : UInt8} {m : DataMsg}

/-! ## Buffers that are free -/

theorem bufferAllocate_some (h : bufferAllocate c s = some k) :
    k < c.bufferedMessageSetSize ∧ (s.msgs k).seed = none := by
  have hmem := List.mem_of_find?_eq_some h
  have hp := List.find?_some h
  exact ⟨mem_down.1 hmem, by simpa [Msg.used] using hp⟩

theorem bufferAllocate_none (h : bufferAllocate c s = none) (hk : k < c.bufferedMessageSetSize) :
    ∃ i, (s.msgs k).seed = some i := by
  have := List.find?_eq_none.1 h k (mem_down.2 hk)
  exact Option.ne_none_iff_exists'.1 (by simpa [Msg.used] using this)

theorem Inv.not_listed (h : Inv c s) (hk : (s.msgs k).seed = none) (hi : i < c.seedSetSize) (hu : (s.seeds i).used) :
    k ∉ (s.seeds i).minSeq := by
  intro hmem
  have := (h.owned i hi hu k hmem).2
  rw [hk] at this
  cases this

theorem Inv.setFree (h : Inv c s) (hk : (s.msgs k).seed = none) {v : Msg} (hv : v.seed = none) : Inv c (s.setMsg k v) := by
  have hseed : ∀ j, ((s.setMsg k v).msgs j).seed = (s.msgs j).seed := by
    intro j
    by_cases hj : j = k
    · rw [hj, setMsg_self, hv, hk]
    · rw [setMsg_ne _ hj]
  refine ⟨fun i hi hu x hx => ?_, fun x hx i hxi => ?_, fun i hi hu => ?_, h.unique, h.domains, h.sound⟩
  · rw [hseed]
    exact h.owned i hi hu x hx
  · rw [hseed] at hxi
    exact h.listed x hx i hxi
  · refine (h.seedOk i hi hu).congr rfl rfl rfl fun x hx => ?_
    have hne : x ≠ k := fun he => h.not_listed hk hi hu (he ▸ hx)
    rw [State.seq, setMsg_ne _ hne]
    rfl

theorem Remembered.setFree (h : Remembered c s r) (hi : Inv c s) (hk : (s.msgs k).seed = none) (v : Msg) :
    Remembered c (s.setMsg k v) r := by
  refine ⟨h.entry, h.domain, h.seed, ?_⟩
  rcases h.seq with ⟨x, hx, hxq⟩ | hrest
  · refine .inl ⟨x, hx, ?_⟩
    have hne : x ≠ k := fun he => hi.not_listed hk h.entry h.used (he ▸ hx)
    rw [State.seq, setMsg_ne _ hne]
    exact hxq
  · exact .inr hrest

/-- When no buffer is free, buffer_reclaim finds a seed with a message, if it is not misled by what stands
behind the seed set. -/
theorem Inv.largest_message (h : Inv c s) (hfull : bufferAllocate c s = none) (hpos : 0 < c.bufferedMessageSetSize)
    (hbehind : ¬ Largest c s c.seedSetSize) :
    ∃ l k rest, largest c s = some l ∧ l < c.seedSetSize ∧ (s.seeds l).used ∧ (s.seeds l).minSeq = k :: rest := by
  obtain ⟨i, hi⟩ := bufferAllocate_none hfull hpos
  obtain ⟨hilt, hiu, himem⟩ := h.listed 0 hpos i hi
  cases hl : largest c s with
  | none => exact absurd hiu (largest_none hl i (le_of_lt hilt))
  | some l =>
    obtain ⟨hle, hlu, hall, -⟩ := largest_some hl
    have hlt : l < c.seedSetSize := lt_of_le_of_ne hle fun he => hbehind (he ▸ largest_some hl)
    have hcount := hall i (le_of_lt hilt) hiu
    rw [UInt8.le_iff_toNat_le, (h.seedOk i hilt hiu).count, (h.seedOk l hlt hlu).count] at hcount
    have hpos' := List.length_pos_of_mem himem
    cases hm : (s.seeds l).minSeq with
    | nil =>
      rw [hm, List.length_nil] at hcount
      omega
    | cons k rest => exact ⟨l, k, rest, rfl, hlt, hlu, hm⟩

/-! ## The message in its buffer -/

/-- A verdict with the state it leaves: what was remembered still is, provided that the message lies above
the number which an empty list has left, and an accepted message is remembered too. -/
structure Outcome (c : Conf) (s : State) (a : Accepted) (v : Verdict × State) : Prop where
  inv : Inv c v.2
  remembered : ∀ r, Remembered c s r → (c.dataTimerOk = true → r.entry = a.entry → (s.seeds a.entry).minSeq = [] →
    (s.seeds a.entry).minSeqno < a.seq) → Remembered c v.2 r
  new : v.1 = .accept → c.dataTimerOk = true ∧ Remembered c v.2 a
  ok : DomainsOk s → DomainsOk v.2
  outside : bufferAllocate c s ≠ none → v.2.outside = s.outside

structure Above (s : State) (i : Nat) (q : UInt8) : Prop where
  noWrap : NoWrap s i q
  ne : ∀ x ∈ (s.seeds i).minSeq, s.seq x ≠ q
  head : ∀ x l, (s.seeds i).minSeq = x :: l → s.seq x < q

theorem placeMessage_spec (h : Inv c s) (hi : i < c.seedSetSize) (hu : (s.seeds i).used)
    (hd : (s.seeds i).domain = some d) (hk : k < c.bufferedMessageSetSize) (hfree : (s.msgs k).seed = none)
    (ha : Above s i m.seq) : Outcome c s ⟨i, d, (s.seeds i).seedId.id, m.seq⟩ (placeMessage c m d i k s) ∧
      (placeMessage c m d i k s).2.outside = s.outside := by
  cases hc : c.dataTimerOk with
  | true =>
    obtain ⟨l₁, l₂, hl, hw, hb⟩ :=
      withMessage_between (h.seedOk i hi hu) (h.not_listed hfree hi hu) ha.noWrap ha.ne ha.head
    have hp : Placed c s (placed c m d i k s) i k m.seq l₁ l₂ := placed_placed hl hw
    rw [placeMessage_accept hc]
    exact ⟨⟨h.place hp hb hi hu hk hfree, fun r hr hq => hr.place hp (fun j hj hju => h.not_listed hfree hj hju) (hq hc),
      fun _ => ⟨hc, hp.remembered hi hd⟩, domains_ok hp.dataAddr hp.ctrlAddr, fun _ => rfl⟩, rfl⟩
  | false =>
    rw [placeMessage_drop hc]
    have hsame : bufferFree k (s.setMsg k { s.msgs k with seq := m.seq, seed := some i }) =
        s.setMsg k ⟨none, { (s.msgs k).tt with running := false }, m.seq⟩ := by
      simp [bufferFree, State.setMsg]
    rw [hsame]
    exact ⟨⟨h.setFree hfree rfl, fun r hr _ => hr.setFree h hfree _, fun he => by (cases he), id, fun _ => rfl⟩, rfl⟩

theorem Above.reclaim {rest : List Nat} (ha : Above s i q) (h : Inv c s) (hp : Reclaimed c s t l k rest)
    (hl : l < c.seedSetSize) (hlu : (s.seeds l).used) (hi : i < c.seedSetSize) (hu : (s.seeds i).used)
    (hown : l = i → ∀ x y xs, (s.seeds i).minSeq = x :: y :: xs → s.seq y < q) : Above t i q := by
  have hsub : ∀ x ∈ (t.seeds i).minSeq, x ∈ (s.seeds i).minSeq ∧ x ≠ k := by
    intro x hx
    by_cases hil : i = l
    · have horder := (h.seedOk l hl hlu).order
      rw [hp.old, List.map_cons, List.pairwise_cons] at horder
      rw [hil, hp.minSeq] at hx
      rw [hil, hp.old]
      refine ⟨List.mem_cons_of_mem _ hx, ?_⟩
      rintro rfl
      exact UInt8.lt_irrefl _ (horder.1 (s.seq x) (List.mem_map.2 ⟨x, hx, rfl⟩))
    · rw [hp.seeds i hil] at hx
      refine ⟨hx, ?_⟩
      rintro rfl
      have h₁ := (h.owned i hi hu x hx).2
      have h₂ := (h.owned l hl hlu x (by rw [hp.old]; exact List.mem_cons_self ..)).2
      rw [h₁] at h₂
      exact hil (Option.some.inj h₂)
  have hseq : ∀ x ∈ (t.seeds i).minSeq, t.seq x = s.seq x := fun x hx => hp.seq x (hsub x hx).2
  refine ⟨fun x hx => ?_, fun x hx => ?_, fun x xs hxs => ?_⟩
  · rw [hseq x hx]
    exact ha.noWrap x (hsub x hx).1
  · rw [hseq x hx]
    exact ha.ne x (hsub x hx).1
  · rw [hseq x (by rw [hxs]; exact List.mem_cons_self ..)]
    by_cases hil : i = l
    · rw [hil, hp.minSeq] at hxs
      exact hown hil.symm k x xs (by rw [hil, hp.old, hxs])
    · rw [hp.seeds i hil] at hxs
      exact ha.head x xs hxs

/-- The message takes a free buffer, or that of the first message of a largest list; if this is its own
list, it must lie above what is then the head. -/
theorem bufferMessage_spec (h : Inv c s) (hpos : 0 < c.bufferedMessageSetSize) (hi : i < c.seedSetSize)
    (hu : (s.seeds i).used) (hd : (s.seeds i).domain = some d) (ha : Above s i m.seq)
    (hbehind : bufferAllocate c s = none → ¬ Largest c s c.seedSetSize)
    (hown : bufferAllocate c s = none → Largest c s i → ∀ x y l, (s.seeds i).minSeq = x :: y :: l → s.seq y < m.seq) :
    Outcome c s ⟨i, d, (s.seeds i).seedId.id, m.seq⟩ (bufferMessage c m d i s) := by
  unfold bufferMessage
  cases hb : bufferAllocate c s with
  | some k =>
    obtain ⟨hk, hfree⟩ := bufferAllocate_some hb
    have hseq : ∀ x ∈ (s.seeds i).minSeq, (s.setMsg k Msg.zero).seq x = s.seq x := by
      intro x hx
      have hne : x ≠ k := fun he => h.not_listed hfree hi hu (he ▸ hx)
      rw [State.seq, setMsg_ne _ hne]
      rfl
    have ha' : Above (s.setMsg k Msg.zero) i m.seq := by
      refine ⟨fun x hx => ?_, fun x hx => ?_, fun x l hxl => ?_⟩
      · rw [hseq x hx]
        exact ha.noWrap x hx
      · rw [hseq x hx]
        exact ha.ne x hx
      · rw [hseq x (by rw [show (s.seeds i).minSeq = x :: l from hxl]; exact List.mem_cons_self ..)]
        exact ha.head x l hxl
    obtain ⟨hout, houtside⟩ := placeMessage_spec (h.setFree (v := Msg.zero) hfree rfl) hi hu hd hk
      (by rw [setMsg_self]; rfl) ha'
    exact ⟨hout.inv, fun r hr hq => hout.remembered r (hr.setFree h hfree _) hq, hout.new, hout.ok, fun _ => houtside⟩
  | none =>
    obtain ⟨l, k, rest, hl, hlt, hlu, hm⟩ := h.largest_message hb hpos (hbehind hb)
    obtain ⟨hk, hseed⟩ := h.owned l hlt hlu k (by rw [hm]; exact List.mem_cons_self ..)
    obtain ⟨t, ht, -, hp⟩ := bufferReclaim_spec hl (ne_of_lt hlt) hm hseed
    rw [ht]
    dsimp only
    have hinv := h.reclaim hp hlt hlu
    have ha' := ha.reclaim h hp hlt hlu hi hu fun he => hown hb (he ▸ largest_some hl)
    obtain ⟨hout, -⟩ := placeMessage_spec hinv hi (by rwa [hp.used]) (by rwa [hp.seedDomains]) hk hp.seedSelf ha'
    refine ⟨hout.inv, fun r hr hq => hout.remembered r (hr.reclaim h hp hlt hlu) fun hc he hnil => ?_, fun hv => ?_,
      fun hok => hout.ok (domains_ok hp.dataAddr hp.ctrlAddr hok), fun hne => absurd hb hne⟩
    · by_cases hil : i = l
      · -- its own list had one message: that was its head
        have hhead := ha.head k rest (by rw [hil]; exact hm)
        have hrest : rest = [] := by
          rw [← hp.minSeq, ← hil]
          exact hnil
        rw [hil, hp.minSeqno, hrest]
        exact hhead
      · rw [hp.seeds i hil] at hnil ⊢
        exact hq hc he hnil
    · obtain ⟨hc, hnew⟩ := hout.new hv
      rw [hp.seedIds] at hnew
      exact ⟨hc, hnew⟩

/-! ## The domain of a message -/

theorem domainAddrs_some {a b e : Fin 16 → UInt8} (h : domainAddrs c a s = some (b, e)) : b 0 = a 0 := by
  unfold domainAddrs at h
  split at h
  · obtain ⟨x, hx, hxe⟩ := Option.map_eq_some_iff.1 h
    obtain ⟨k, -, rfl⟩ := List.mem_map.1 (List.mem_of_find?_eq_some hx)
    obtain rfl := (Prod.mk.inj hxe).1
    exact Function.update_of_ne (by decide) ..
  · cases h
    rfl

theorem scope_update {x : UInt8} : scope (Function.update a 1 x) = x &&& 0x0f := by
  rw [scope, Function.update_self]

theorem domainAddrs_scope {b e : Ipaddr} (h : domainAddrs c a s = some (b, e)) : scope b ≠ 2 ∧ scope e = 2 := by
  have hbits : ∀ x : UInt8, ((x &&& 0xf0) ||| 2) &&& 0x0f = 2 ∧
      (x &&& 0x0f = 2 → (x + 1) &&& 0x0f ≠ 2 ∧ (x + 2) &&& 0x0f ≠ 2 ∧ (x + 3) &&& 0x0f ≠ 2) :=
    forall_byte (by decide +kernel)
  unfold domainAddrs at h
  split at h
  · rename_i hscope
    obtain ⟨x, hx, hxe⟩ := Option.map_eq_some_iff.1 h
    obtain ⟨rfl, rfl⟩ := Prod.mk.inj hxe
    obtain ⟨h₁, h₂, h₃⟩ := (hbits (a 1)).2 hscope
    obtain ⟨k, hk, rfl⟩ := List.mem_map.1 (List.mem_of_find?_eq_some hx)
    refine ⟨?_, hscope⟩
    rw [scope_update]
    simp only [List.mem_cons, List.not_mem_nil, or_false] at hk
    rcases hk with rfl | rfl | rfl
    · exact h₁
    · exact h₂
    · exact h₃
  · rename_i hscope
    cases h
    refine ⟨hscope, ?_⟩
    rw [makeLinkLocal, scope_update]
    exact (hbits (a 1)).1

theorem maddrAdd_some {a : Fin 16 → UInt8} {u : State} (h : maddrAdd c a s = some u) :
    ∃ maddrs, u = { s with maddrs := maddrs } := by
  unfold maddrAdd at h
  split at h
  · cases h
  · obtain ⟨i, -, rfl⟩ := Option.map_eq_some_iff.1 h
    exact ⟨_, rfl⟩

theorem SameSets.newDomain (hd : (s.domains d).used = false) (maddrs : Nat → Option Ipaddr) {v : Domain}
    (hv : v.used → scope v.dataAddr ≠ 2 ∧ scope v.ctrlAddr = 2) : SameSets c s ({ s with maddrs := maddrs }.setDomain d v) := by
  refine ⟨fun _ => rfl, fun _ => rfl, fun _ _ => rfl, fun _ _ => rfl, fun _ _ => rfl, fun _ _ => rfl, fun _ _ => rfl,
    fun e he => ?_, fun hok e he => ?_, rfl⟩
  · have hne : e ≠ d := fun hed => by
      rw [hed, hd] at he
      cases he
    show (Function.update s.domains d v e).used
    rwa [Function.update_of_ne hne]
  · by_cases hed : e = d
    · have hself : (State.setDomain { s with maddrs := maddrs } d v).domains e = v := by
        rw [hed]
        exact Function.update_self ..
      rw [hself] at he ⊢
      exact hv he
    · have hother : (State.setDomain { s with maddrs := maddrs } d v).domains e = s.domains e := Function.update_of_ne hed ..
      rw [hother] at he ⊢
      exact hok e he

theorem domainSetAllocate_spec (c : Conf) (a : Fin 16 → UInt8) (s : State) :
    SameSets c s (domainSetAllocate c a s).2 ∧ (domainSetAllocate c a s).2.seedId = s.seedId ∧
      (domainSetAllocate c a s).2.outside = s.outside ∧ (domainSetAllocate c a s).2.seeds = s.seeds ∧
      ∀ d, (domainSetAllocate c a s).1 = some d →
        c.controlTimerOk = true ∧ (s.domains d).used = false ∧ (a 0 = 0xff → ((domainSetAllocate c a s).2.domains d).used) := by
  have hrefl := SameSets.refl c s
  unfold domainSetAllocate
  cases ha : domainAddrs c a s with
  | none => exact ⟨hrefl, rfl, rfl, rfl, fun d hd => by cases hd⟩
  | some p =>
    obtain ⟨b, e⟩ := p
    dsimp only
    cases hf : (down c.domainSetSize).find? fun d => !(s.domains d).used with
    | none => exact ⟨hrefl, rfl, rfl, rfl, fun d hd => by cases hd⟩
    | some d =>
      have hunused : (s.domains d).used = false := by simpa using List.find?_some hf
      dsimp only
      cases hm : (if (maddrLookup c e s).isSome then some s else maddrAdd c e s) with
      | none => exact ⟨hrefl, rfl, rfl, rfl, fun d hd => by cases hd⟩
      | some u =>
        obtain ⟨maddrs, rfl⟩ : ∃ maddrs, u = { s with maddrs := maddrs } := by
          split at hm
          · obtain rfl := Option.some.inj hm
            exact ⟨_, rfl⟩
          · exact maddrAdd_some hm
        dsimp only
        cases hc : c.controlTimerOk with
        | true =>
          refine ⟨SameSets.newDomain hunused _ fun _ => domainAddrs_scope ha, rfl, rfl, rfl, fun d' hd => ?_⟩
          obtain rfl := Option.some.inj hd
          refine ⟨rfl, hunused, fun haff => ?_⟩
          show (Function.update s.domains d _ d).used
          rw [Function.update_self, Domain.used]
          simpa using (domainAddrs_some ha).trans haff
        | false => exact ⟨SameSets.newDomain hunused _ fun hu => by simp [Domain.used] at hu, rfl, rfl, rfl, fun d' hd => by cases hd⟩

theorem domainSetLookup_some {a : Fin 16 → UInt8} (h : domainSetLookup c a s = some d) :
    d < c.domainSetSize ∧ (s.domains d).used := by
  have hmem := List.mem_of_find?_eq_some h
  have hp := List.find?_some h
  simp only [Bool.and_eq_true] at hp
  exact ⟨mem_down.1 hmem, hp.1⟩

/-- A message finds its domain, or a new one that no seed belongs to. -/
theorem messageDomain_spec (c : Conf) (a : Fin 16 → UInt8) (s : State) :
    SameSets c s (messageDomain c a s).2 ∧ (messageDomain c a s).2.seedId = s.seedId ∧
      (messageDomain c a s).2.outside = s.outside ∧ (messageDomain c a s).2.seeds = s.seeds ∧
      ∀ d, (messageDomain c a s).1 = some d → (a 0 = 0xff → ((messageDomain c a s).2.domains d).used) ∧
        (domainSetLookup c a s = some d ∨
          domainSetLookup c a s = none ∧ (s.domains d).used = false ∧ (domainSetAllocate c a s).1 = some d) := by
  unfold messageDomain
  cases hl : domainSetLookup c a s with
  | some d =>
    refine ⟨SameSets.refl c s, rfl, rfl, rfl, fun d' hd => ?_⟩
    obtain rfl := Option.some.inj hd
    exact ⟨fun _ => (domainSetLookup_some hl).2, .inl rfl⟩
  | none =>
    obtain ⟨hsame, hid, hout, hseeds, hsome⟩ := domainSetAllocate_spec c a s
    cases ha : domainSetAllocate c a s with
    | mk r u =>
      rw [ha] at hsame hid hout hseeds hsome
      cases r with
      | none => exact ⟨hsame, hid, hout, hseeds, fun d hd => by cases hd⟩
      | some d =>
        obtain ⟨hc, hunused, hused⟩ := hsome d rfl
        dsimp only
        rw [if_pos hc]
        refine ⟨hsame, hid, hout, hseeds, fun d' hd => ?_⟩
        obtain rfl := Option.some.inj hd
        exact ⟨hused, .inr ⟨rfl, hunused, rfl⟩⟩

/-! ## accept -/

def wireSeed (m : DataMsg) : Fin 16 → UInt8 := (messageSeedId m ⟨0, fun _ => 0⟩).id

theorem s_cases (m : DataMsg) : m.s = 0 ∨ m.s = 1 ∨ m.s = 2 ∨ m.s = 3 := by
  have h : ∀ x : UInt8, (x &&& 0xc0) >>> 6 = 0 ∨ (x &&& 0xc0) >>> 6 = 1 ∨ (x &&& 0xc0) >>> 6 = 2 ∨ (x &&& 0xc0) >>> 6 = 3 :=
    forall_byte (by decide +kernel)
  exact h m.flags

theorem messageSeedId_eq {old : SeedId} (h : m.s = 1 → old.id 15 = 0) : (messageSeedId m old).id = wireSeed m := by
  unfold wireSeed messageSeedId
  rcases s_cases m with hs | hs | hs | hs <;> rw [hs]
  · rfl
  · funext i
    by_cases hi : i.val < 15
    · simp [seedIdNetToHost, hi]
    · obtain rfl : i = 15 := Fin.ext (by have := i.isLt; show i.val = 15; omega)
      exact h hs
  · rfl
  · rfl

/-- The message has not been seen before, as the sets tell it, and there is an entry for its seed. -/
def IsNew (c : Conf) (m : DataMsg) (s : State) : Prop :=
  match domainSetLookup c m.dest s with
  | none => (domainSetAllocate c m.dest s).1 ≠ none ∧ seedSetAllocate c s ≠ none
  | some d =>
    match seedSetLookup c (wireSeed m) d s with
    | none => seedSetAllocate c s ≠ none
    | some i => seqValIsLt m.seq (s.seeds i).minSeqno = false ∧ ∀ k ∈ (s.seeds i).minSeq, s.seq k ≠ m.seq

/-- When a new message comes to a known seed: it is not the one that left the list empty, it does not wrap
around the numbers of the list, and if its own list gives up a buffer for it, it lies above the second
message of that list. -/
structure OrderedEntry (c : Conf) (m : DataMsg) (s : State) (i : Nat) : Prop where
  above : c.dataTimerOk = true → (s.seeds i).minSeq = [] → m.seq ≠ (s.seeds i).minSeqno
  noWrap : NoWrap s i m.seq
  own : bufferAllocate c s = none → Largest c s i → ∀ x y l, (s.seeds i).minSeq = x :: y :: l → s.seq y < m.seq

/-- The condition for a message: a short seed id is read after one that leaves its last byte clear, there are
buffers, and a new message comes to its seed in order; if no buffer is free, what stands behind the seed set
is not taken for the largest set. -/
structure Ordered (c : Conf) (m : DataMsg) (s : State) : Prop where
  shortSeed : m.s = 1 → s.seedId.id 15 = 0
  buffers : IsNew c m s → 0 < c.bufferedMessageSetSize
  behind : IsNew c m s → bufferAllocate c s = none → ¬ Largest c s c.seedSetSize
  entry : IsNew c m s → ∀ d i, domainSetLookup c m.dest s = some d → seedSetLookup c (wireSeed m) d s = some i →
    OrderedEntry c m s i

/-- The entry of a message that was accepted, in the state after it. -/
def acceptedEntry (c : Conf) (m : DataMsg) (s t : State) : Option Accepted :=
  (messageDomain c m.dest s).1.bind fun d =>
    (seedSetLookup c (messageSeedId m s.seedId).id d t).map fun i => ⟨i, d, wireSeed m, m.seq⟩

/-- What `accept` comes to: the sets are in order, what was remembered still is, and an accepted message is
remembered and was not accepted before. -/
structure Accepts (c : Conf) (m : DataMsg) (s : State) (v : Verdict × State) : Prop where
  inv : Inv c v.2
  remembered : ∀ r, Remembered c s r → Remembered c v.2 r
  new : v.1 = .accept → ∃ r, acceptedEntry c m s v.2 = some r ∧ Remembered c v.2 r ∧
    ∀ r', Remembered c s r' → r'.domain = r.domain → r'.seed = r.seed → r'.seq ≠ r.seq
  ok : DomainsOk s → DomainsOk v.2
  outside : (IsNew c m s → bufferAllocate c s ≠ none) → v.2.outside = s.outside

theorem seedSetLookup_unique {id : Fin 16 → UInt8} (h : Inv c s) (hi : i < c.seedSetSize)
    (hid : (s.seeds i).seedId.id = id) (hd : (s.seeds i).domain = some d) : seedSetLookup c id d s = some i := by
  cases hl : seedSetLookup c id d s with
  | none => exact absurd hd (seedSetLookup_none hl hi hid)
  | some j =>
    obtain ⟨hj, hju, hjid, hjd⟩ := seedSetLookup_some hl
    have hiu : (s.seeds i).used := by
      rw [Seed.used, hd]
      rfl
    rw [h.unique i hi j hj hiu hju (hid.trans hjid.symm) (hd.trans hjd.symm)]

theorem bufferAllocate_congr (h : ∀ k, (t.msgs k).seed = (s.msgs k).seed) : bufferAllocate c t = bufferAllocate c s := by
  unfold bufferAllocate
  congr 1
  funext k
  rw [Msg.used, Msg.used, h]

theorem SameSets.timer (c : Conf) (s : State) (k : Nat) (tt : Timer) : SameSets c s (s.setMsg k { s.msgs k with tt := tt }) := by
  refine ⟨fun j => ?_, fun j => ?_, fun _ _ => rfl, fun _ _ => rfl, fun _ _ => rfl, fun _ _ => rfl, fun _ _ => rfl,
    fun _ h => h, id, rfl⟩
  · by_cases hj : j = k
    · rw [hj, setMsg_self]
    · rw [setMsg_ne _ hj]
  · by_cases hj : j = k
    · rw [hj, setMsg_self]
    · rw [setMsg_ne _ hj]

theorem seenBefore_spec (c : Conf) (m : DataMsg) (i k : Nat) (s : State) :
    SameSets c s (seenBefore m i k s) ∧ (seenBefore m i k s).outside = s.outside := by
  unfold seenBefore
  split
  · exact ⟨SameSets.timer c s k _, rfl⟩
  · exact ⟨SameSets.refl c s, rfl⟩

theorem Accepts.dropped (h : Inv c s) (hs : SameSets c s t) (ho : t.outside = s.outside) : Accepts c m s (.drop, t) :=
  ⟨h.same hs, fun _ hr => hr.same hs, fun he => by (cases he), hs.ok, fun _ => ho⟩

theorem Accepts.of_outcome {v : Verdict × State} {u : State} (hd : (messageDomain c m.dest s).1 = some d)
    (hid : (messageSeedId m s.seedId).id = wireSeed m)
    (hkept : ∀ r, Remembered c s r → Remembered c u r) (hok' : DomainsOk s → DomainsOk u) (ho : u.outside = s.outside)
    (hbuf : bufferAllocate c u = bufferAllocate c s) (hnew : IsNew c m s)
    (hout : Outcome c u ⟨i, d, wireSeed m, m.seq⟩ v)
    (habove : ∀ r, Remembered c s r → c.dataTimerOk = true → r.entry = i → (u.seeds i).minSeq = [] →
      (u.seeds i).minSeqno < m.seq)
    (hfresh : ∀ r, Remembered c s r → c.dataTimerOk = true → r.domain = d → r.seed = wireSeed m → r.seq ≠ m.seq) :
    Accepts c m s v := by
  refine ⟨hout.inv, fun r hr => hout.remembered r (hkept r hr) (habove r hr), fun hv => ?_, fun hok => hout.ok (hok' hok),
    fun hb => (hout.outside (hbuf ▸ hb hnew)).trans ho⟩
  obtain ⟨hc, hnew⟩ := hout.new hv
  refine ⟨⟨i, d, wireSeed m, m.seq⟩, ?_, hnew, fun r hr hrd hrs => hfresh r hr hc hrd hrs⟩
  rw [acceptedEntry, hd, Option.bind_some, hid, seedSetLookup_unique hout.inv hnew.entry hnew.seed hnew.domain]
  rfl

theorem accept_known {u : State} (h : Inv c s) (hsame : SameSets c s u) (hseeds : u.seeds = s.seeds)
    (houtside : u.outside = s.outside)
    (hd : (messageDomain c m.dest s).1 = some d) (hdl : domainSetLookup c m.dest s = some d)
    (hid : (messageSeedId m s.seedId).id = wireSeed m) (hl : seedSetLookup c (wireSeed m) d s = some i)
    (ho : Ordered c m s) (hlt : seqValIsLt m.seq (s.seeds i).minSeqno = false)
    (hne : ∀ k ∈ (s.seeds i).minSeq, s.seq k ≠ m.seq) : Accepts c m s (bufferMessage c m d i u) := by
  obtain ⟨hi, hu, hseed, hdom⟩ := seedSetLookup_some hl
  have hnew : IsNew c m s := by
    unfold IsNew
    rw [hdl]
    simp only [hl]
    exact ⟨hlt, hne⟩
  have he := ho.entry hnew d i hdl hl
  have hge : ¬ m.seq < (s.seeds i).minSeqno := by
    rw [← seqValIsLt_iff, hlt]
    exact Bool.false_ne_true
  have hgt : ∀ {q : UInt8}, (s.seeds i).minSeqno = q → q ≠ m.seq → q < m.seq := by
    intro q hq hqne
    rw [hq, UInt8.lt_iff_toNat_lt] at hge
    rw [UInt8.lt_iff_toNat_lt]
    have : q.toNat ≠ m.seq.toNat := fun h' => hqne (UInt8.toNat_inj.1 h')
    omega
  have hseq : u.seq = s.seq := funext fun k => hsame.seq k
  have habove : Above u i m.seq := by
    refine ⟨?_, ?_, fun x l hxl => ?_⟩
    · unfold NoWrap
      rw [hseeds, hseq]
      exact he.noWrap
    · rw [hseeds, hseq]
      exact hne
    · rw [hseeds] at hxl
      rw [hseq]
      exact hgt ((h.seedOk i hi hu).head x l hxl) (hne x (by rw [hxl]; exact List.mem_cons_self ..))
  have hbuf := bufferAllocate_congr (c := c) hsame.seed
  have hlarge : ∀ l, Largest c u l ↔ Largest c s l := fun l => by
    rw [← largest_iff, ← largest_iff, largest, largest, hseeds]
  have hout := bufferMessage_spec (h.same hsame) (ho.buffers hnew) hi (by rwa [hseeds]) (by rwa [hseeds]) habove
    (by rw [hbuf, hlarge]; exact ho.behind hnew)
    (by rw [hbuf, hlarge, hseeds, hseq]; exact he.own)
  rw [hseeds, hseed] at hout
  refine Accepts.of_outcome hd hid (fun r hr => hr.same hsame) hsame.ok houtside hbuf hnew hout
    (fun r _ hc _ hnil => ?_) fun r hr hc hrd hrs => ?_
  · rw [hseeds] at hnil ⊢
    exact hgt rfl fun heq => he.above hc hnil heq.symm
  · -- the same seed in the same domain is this entry, which remembers the number in one of three ways
    have hentry : r.entry = i :=
      h.unique r.entry hr.entry i hi hr.used hu (by rw [hr.seed, hrs, hseed]) (by rw [hr.domain, hrd, hdom])
    rcases hr.seq with ⟨k, hk, hkq⟩ | hlt' | ⟨hnil, heq⟩
    · rw [hentry] at hk
      rw [← hkq]
      exact hne k hk
    · rw [hentry] at hlt'
      exact fun heq => hge (heq ▸ hlt')
    · rw [hentry] at hnil heq
      exact fun heq' => he.above hc hnil (heq'.symm.trans heq)

theorem accept_unknown {u : State} (h : Inv c s) (hsame : SameSets c s u) (hseeds : u.seeds = s.seeds)
    (houtside : u.outside = s.outside) (hd : (messageDomain c m.dest s).1 = some d) (hused : (u.domains d).used)
    (hid : (messageSeedId m s.seedId).id = wireSeed m) (hl : seedSetLookup c (wireSeed m) d s = none)
    (ha : seedSetAllocate c s = some i) (hnew : IsNew c m s) (ho : Ordered c m s) :
    Accepts c m s (bufferMessage c m d i (u.setSeed i ⟨messageSeedId m s.seedId, 0, 0, 0, [], some d⟩)) := by
  obtain ⟨hi, hfree⟩ := seedSetAllocate_some ha
  have hfree' : (u.seeds i).used = false := by rwa [hseeds]
  have hl' : seedSetLookup c (messageSeedId m s.seedId).id d u = none := by
    rw [hid, seedSetLookup, hseeds]
    exact hl
  have hinv := (h.same hsame).newSeed hfree' hl' hused
  have hself : (u.setSeed i ⟨messageSeedId m s.seedId, 0, 0, 0, [], some d⟩).seeds i =
      ⟨messageSeedId m s.seedId, 0, 0, 0, [], some d⟩ := setSeed_self _
  have hbuf : bufferAllocate c (u.setSeed i ⟨messageSeedId m s.seedId, 0, 0, 0, [], some d⟩) = bufferAllocate c s :=
    bufferAllocate_congr hsame.seed
  have habove : Above (u.setSeed i ⟨messageSeedId m s.seedId, 0, 0, 0, [], some d⟩) i m.seq := by
    refine ⟨fun x hx => ?_, fun x hx => ?_, fun x l hx => ?_⟩
    · rw [hself] at hx
      cases hx
    · rw [hself] at hx
      cases hx
    · rw [hself] at hx
      cases hx
  have hbehind : bufferAllocate c s = none →
      ¬ Largest c (u.setSeed i ⟨messageSeedId m s.seedId, 0, 0, 0, [], some d⟩) c.seedSetSize := by
    intro hb hl
    -- the new seed has no messages, so what is the largest with it was the largest without it
    have hne : ∀ {j : Nat}, j ≠ i → (u.setSeed i ⟨messageSeedId m s.seedId, 0, 0, 0, [], some d⟩).seeds j = s.seeds j :=
      fun hj => by rw [setSeed_ne _ hj, hseeds]
    have hused := hl.used
    rw [hne (ne_of_gt hi)] at hused
    refine ho.behind hnew hb ⟨le_refl _, hused, fun j hj hju => ?_, fun j hj hlt => absurd hlt (not_lt_of_ge hj)⟩
    have hji : j ≠ i := fun he => by
      rw [he, hfree] at hju
      cases hju
    have hcount := hl.count j hj (by rwa [hne hji])
    rwa [hne hji, hne (ne_of_gt hi)] at hcount
  have hout := bufferMessage_spec hinv (ho.buffers hnew) hi (by rw [hself]; rfl) (by rw [hself]) habove
    (by rw [hbuf]; exact hbehind) (fun _ _ x y l hxl => by rw [hself] at hxl; cases hxl)
  rw [hself, hid] at hout
  have hentry : ∀ r, Remembered c s r → r.entry ≠ i := fun r hr he => by
    have := hr.used
    rw [he, hfree] at this
    cases this
  refine Accepts.of_outcome hd hid (fun r hr => (hr.same hsame).newSeed hfree' _) hsame.ok houtside hbuf hnew hout
    (fun r hr _ he => absurd he (hentry r hr)) fun r hr _ hrd hrs => ?_
  exact absurd (hr.domain.trans (congrArg some hrd)) (seedSetLookup_none hl hr.entry (hr.seed.trans hrs))

theorem maddrAdd_seedId (a : Fin 16 → UInt8) (x : SeedId) :
    maddrAdd c a { s with seedId := x } = (maddrAdd c a s).map fun u => { u with seedId := x } := by
  have hl : maddrLookup c a { s with seedId := x } = maddrLookup c a s := rfl
  unfold maddrAdd
  rw [hl]
  cases maddrLookup c a s with
  | some i => rfl
  | none => rw [Option.map_map]; rfl

theorem domainSetAllocate_seedId (a : Fin 16 → UInt8) (x : SeedId) :
    (domainSetAllocate c a { s with seedId := x }).1 = (domainSetAllocate c a s).1 := by
  have haddrs : domainAddrs c a { s with seedId := x } = domainAddrs c a s := rfl
  have hl : ∀ e, maddrLookup c e { s with seedId := x } = maddrLookup c e s := fun _ => rfl
  unfold domainSetAllocate
  rw [haddrs]
  cases domainAddrs c a s with
  | none => rfl
  | some p =>
    dsimp only
    cases (down c.domainSetSize).find? fun d => !(s.domains d).used with
    | none => rfl
    | some d =>
      dsimp only
      rw [hl, maddrAdd_seedId]
      cases (maddrLookup c p.2 s).isSome with
      | true => cases c.controlTimerOk <;> rfl
      | false => cases maddrAdd c p.2 s <;> cases c.controlTimerOk <;> rfl

theorem messageDomain_seedId (a : Fin 16 → UInt8) (x : SeedId) :
    (messageDomain c a { s with seedId := x }).1 = (messageDomain c a s).1 := by
  have hl : domainSetLookup c a { s with seedId := x } = domainSetLookup c a s := rfl
  have ha := domainSetAllocate_seedId (c := c) (s := s) a x
  unfold messageDomain
  rw [hl]
  cases domainSetLookup c a s with
  | some d => rfl
  | none =>
    dsimp only
    cases h₁ : domainSetAllocate c a { s with seedId := x } with
    | mk r u =>
      cases h₂ : domainSetAllocate c a s with
      | mk r' u' =>
        rw [h₁, h₂] at ha
        obtain rfl : r = r' := ha
        cases r with
        | none => rfl
        | some d => cases c.controlTimerOk <;> rfl

theorem accept_spec {datagramIn : Bool} (h : Inv c s) (hdest : m.dest 0 = 0xff)
    (ho : headerOk c datagramIn m = true → Ordered c m s) : Accepts c m s (accept c datagramIn m s) := by
  unfold accept
  cases hh : headerOk c datagramIn m with
  | false => exact Accepts.dropped h (SameSets.refl c s) rfl
  | true =>
    have ho := ho hh
    have hid := messageSeedId_eq ho.shortSeed
    simp only [Bool.not_true, Bool.false_eq_true, if_false]
    generalize hs' : ({ s with seedId := messageSeedId m s.seedId } : State) = s'
    have hs₀ : SameSets c s s' := by
      rw [← hs']
      exact ⟨fun _ => rfl, fun _ => rfl, fun _ _ => rfl, fun _ _ => rfl, fun _ _ => rfl, fun _ _ => rfl, fun _ _ => rfl,
        fun _ h => h, id, rfl⟩
    have hseeds₀ : s'.seeds = s.seeds := by rw [← hs']
    have hout₀ : s'.outside = s.outside := by rw [← hs']
    have hdom₀ : (messageDomain c m.dest s').1 = (messageDomain c m.dest s).1 := by
      rw [← hs']
      exact messageDomain_seedId _ _
    obtain ⟨hsame₁, -, hout₁, hseeds₁, -⟩ := messageDomain_spec c m.dest s'
    obtain ⟨-, -, -, -, hused⟩ := messageDomain_spec c m.dest s'
    obtain ⟨-, -, -, -, hcases⟩ := messageDomain_spec c m.dest s
    cases hd : messageDomain c m.dest s' with
    | mk od u =>
      rw [hd] at hsame₁ hout₁ hseeds₁ hdom₀ hused
      have hsame := hs₀.trans hsame₁
      have hseeds : u.seeds = s.seeds := hseeds₁.trans hseeds₀
      have hout : u.outside = s.outside := hout₁.trans hout₀
      cases od with
      | none => exact Accepts.dropped h hsame hout
      | some d =>
        have hd' : (messageDomain c m.dest s).1 = some d := hdom₀.symm
        have hud : (u.domains d).used := (hused d rfl).1 hdest
        have hlookup : seedSetLookup c (messageSeedId m s.seedId).id d u = seedSetLookup c (wireSeed m) d s := by
          rw [hid, seedSetLookup, seedSetLookup, hseeds]
        have halloc : seedSetAllocate c u = seedSetAllocate c s := by rw [seedSetAllocate, seedSetAllocate, hseeds]
        dsimp only
        rw [hlookup]
        cases hl : seedSetLookup c (wireSeed m) d s with
        | some i =>
          obtain ⟨hi, hiu, -, hidom⟩ := seedSetLookup_some hl
          -- a seed belongs to a domain that is used, so the domain was known
          have hdl : domainSetLookup c m.dest s = some d := by
            rcases (hcases d hd').2 with hdl | ⟨-, hunused, -⟩
            · exact hdl
            · rw [h.domains i hi d hidom] at hunused
              cases hunused
          dsimp only
          rw [hseeds]
          cases hlt : seqValIsLt m.seq (s.seeds i).minSeqno with
          | true => exact Accepts.dropped h hsame hout
          | false =>
            simp only [Bool.false_eq_true, if_false]
            cases hf : (s.seeds i).minSeq.find? fun k => m.seq = (u.msgs k).seq with
            | some k =>
              obtain ⟨hseen, hseenOut⟩ := seenBefore_spec c m i k u
              exact Accepts.dropped h (hsame.trans hseen) (hseenOut.trans hout)
            | none =>
              refine accept_known h hsame hseeds hout hd' hdl hid hl ho hlt fun k hk hkq => ?_
              have := List.find?_eq_none.1 hf k hk
              rw [hsame.seq k, decide_eq_true_eq] at this
              exact this hkq.symm
        | none =>
          dsimp only
          rw [halloc]
          cases ha : seedSetAllocate c s with
          | none => exact Accepts.dropped h hsame hout
          | some i =>
            have hnew : IsNew c m s := by
              unfold IsNew
              rcases (hcases d hd').2 with hdl | ⟨hdl, -, hda⟩
              · rw [hdl]
                simp [hl, ha]
              · rw [hdl]
                simp [hda, ha]
            exact accept_unknown h hsame hseeds hout hd' hud hid hl ha hnew ho

theorem accept_outside {datagramIn : Bool} (h : Inv c s) (hdest : m.dest 0 = 0xff)
    (ho : headerOk c datagramIn m = true → Ordered c m s)
    (hb : headerOk c datagramIn m = true → IsNew c m s → bufferAllocate c s ≠ none) :
    (accept c datagramIn m s).2.outside = s.outside := by
  cases hh : headerOk c datagramIn m with
  | false =>
    unfold accept
    rw [hh]
    rfl
  | true => exact (accept_spec h hdest ho).outside (hb hh)

end Contiki.Mpl
