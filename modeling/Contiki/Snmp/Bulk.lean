/-
`snmp_engine_get_bulk` (snmp-engine.c). The results overwrite the request from the front: for each of the first varbinds its
successor, then in repetitions the successors of the others, until a repetition finds nothing or the array is full.
-/
import Contiki.Snmp.Mib

namespace Contiki.Snmp

open Contiki.Lists Contiki.Lib

/-! ## The function -/

def statusNoSuchName : UInt32 := 2

/-- The header, the array of varbinds, and `varbinds_length`. -/
structure Bulk (c : Conf) where
  header : Header
  varbinds : Varbinds c
  length : Nat

variable {c : Conf} {ρ : Type}

def Varbinds.set (v : Varbinds c) (i : Nat) (x : Varbind c) : Varbinds c :=
  ⟨v.slots.set i x, (List.length_set ..).trans v.size⟩

def Varbinds.modify (v : Varbinds c) (i : Nat) (f : Varbind c → Varbind c) : Varbinds c :=
  ⟨v.slots.modify i f, (List.length_modify ..).trans v.size⟩

def noSuchName (header : Header) (index : UInt32) : Header :=
  { header with errorStatus := statusNoSuchName, errorIndex := index }

section

variable (oid : ρ → Oid c) (handler : ρ → Nat → Value c) (next : Oid c → Option ρ)

/-- What a handler does with the next varbind of the array: nothing when the array is full. The value may be a different one each
time that a handler is called. -/
def Bulk.put (b : Bulk c) (r : ρ) : Except (Bulk c) (Bulk c) :=
  if b.length < c.maxNrValues then
    .ok { b with varbinds := b.varbinds.set b.length ⟨oid r, handler r b.length⟩, length := b.length + 1 }
  else .error b

/-- One of the first varbinds of the request, at `i`. -/
def nonRepeatOne (i : Nat) (o : Oid c) (b : Bulk c) : Except (Bulk c) (Bulk c) := match next o with
  | none =>
    if b.header.version = snmpVersion1 then .ok { b with header := noSuchName b.header (UInt32.ofNat (i + 1)) }
    else if b.header.version = snmpVersion2c then
      .ok { b with varbinds := b.varbinds.modify i fun v => { v with value := .endOfMibView } }
    else .ok { b with header := noSuchName b.header 0 }
  | some r => b.put oid handler r

/-- The loop over the first varbinds of the request, from the one at `i`. -/
@[grind =]
def nonRepeaters : Nat → List (Oid c) → Bulk c → Except (Bulk c) (Bulk c)
  | _, [], b => .ok b
  | i, o :: oids, b => do
    let b ← nonRepeatOne oid handler next i o b
    nonRepeaters (i + 1) oids b

/-- One of the other varbinds in a repetition, with its OID in the next one and whether something was found. -/
def repeatOne (o : Oid c) (b : Bulk c) : Except (Bulk c) (Bulk c × Oid c × Bool) := match next o with
  | none =>
    if b.header.version = snmpVersion1 then
      .ok ({ b with header := noSuchName b.header (UInt32.ofNat (b.length + 1)) }, o, false)
    else if b.header.version = snmpVersion2c then
      if b.length < c.maxNrValues then
        .ok ({ b with varbinds := b.varbinds.set b.length ⟨o, .endOfMibView⟩, length := b.length + 1 }, o, false)
      else .error b
    else .ok ({ b with header := noSuchName b.header 0 }, o, false)
  | some r => do
    let b ← b.put oid handler r
    .ok (b, oid r, true)

/-- One repetition, with the OIDs for the next one and the number of those that were found. -/
@[grind =]
def repetition : List (Oid c) → Bulk c → Except (Bulk c) (Bulk c × List (Oid c) × Nat)
  | [], b => .ok (b, [], 0)
  | o :: oids, b => do
    let (b, o, found) ← repeatOne oid handler next o b
    let (b, oids, repeater) ← repetition oids b
    .ok (b, o :: oids, if found then repeater + 1 else repeater)

/-- The repetitions from the count `i`, with a bound on their number. -/
@[grind =]
def repetitions : Nat → UInt8 → List (Oid c) → Bulk c → Option (Except (Bulk c) (Bulk c))
  | 0, _, _, _ => none
  | k + 1, i, oids, b =>
    if i.toNat < b.header.maxRepetitions.toNat then
      match repetition oid handler next oids b with
      | .error b => some (.error b)
      | .ok (b, oids, repeater) => if repeater = 0 then some (.ok b) else repetitions k (i + 1) oids b
    else some (.ok b)

/-- The OIDs of the request, up to the end of the varbinds. -/
def requested (v : Varbinds c) : List (Oid c) := (v.slots.takeWhile fun x => x.value ≠ .eoc).map Varbind.oid

/-- `snmp_engine_get_bulk`; an error is the return value -1. -/
def engineGetBulk (header : Header) (v : Varbinds c) : Option (Except (Bulk c) (Bulk c)) :=
  let oids := requested v
  match nonRepeaters oid handler next 0 (oids.take header.nonRepeaters.toNat) ⟨header, v, 0⟩ with
  | .error b => some (.error b)
  | .ok b => repetitions oid handler next (c.maxNrValues + 2) 0 (oids.drop header.nonRepeaters.toNat) b

end

def outcome : Except (Bulk c) (Bulk c) → Bulk c
  | .ok b => b
  | .error b => b

/-! ## The sequence of results -/

/-- A result: a resource, or the end of the MIB with the OID that nothing follows. -/
inductive Entry (c : Conf) (ρ : Type) where
  | found (r : ρ)
  | ended (o : Oid c)

section

variable (oid : ρ → Oid c) (handler : ρ → Nat → Value c) (next : Oid c → Option ρ)

@[grind =]
def Entry.varbind (k : Nat) : Entry c ρ → Varbind c
  | .found r => ⟨oid r, handler r k⟩
  | .ended o => ⟨o, .endOfMibView⟩

def entryOf (o : Oid c) : Entry c ρ := match next o with
  | none => .ended o
  | some r => .found r

/-- The OID that the next repetition goes on from. -/
def advance (o : Oid c) : Oid c := match next o with
  | none => o
  | some r => oid r

/-- All repetitions of RFC 3416. -/
@[grind =]
def allRepetitions : Nat → List (Oid c) → List (Entry c ρ)
  | 0, _ => []
  | m + 1, oids => oids.map (entryOf next) ++ allRepetitions m (oids.map (advance oid next))

@[grind =]
def cutRepetitions : Nat → List (Oid c) → List (Entry c ρ)
  | 0, _ => []
  | m + 1, oids => oids.map (entryOf next) ++
    if oids.all fun o => (next o).isNone then [] else cutRepetitions m (oids.map (advance oid next))

/-- The results: of the first varbinds, then of the repetitions. -/
def results (reps : Nat → List (Oid c) → List (Entry c ρ)) (header : Header) (v : Varbinds c) : List (Entry c ρ) :=
  ((requested v).take header.nonRepeaters.toNat).map (entryOf next) ++
    reps header.maxRepetitions.toNat ((requested v).drop header.nonRepeaters.toNat)

/-- The first results stand in the array, and what comes after them is as it was. -/
def Leaves (b : Bulk c) (v : Varbinds c) (entries : List (Entry c ρ)) : Prop :=
  b.varbinds.slots = (entries.take c.maxNrValues).mapIdx (Entry.varbind oid handler) ++ v.slots.drop entries.length

end

/-! ## Writing results -/

variable {oid : ρ → Oid c} {handler : ρ → Nat → Value c} {next : Oid c → Option ρ} {b b' : Bulk c} {v : Varbinds c}
  {entries new : List (Entry c ρ)} {o : Oid c} {oids : List (Oid c)}

variable (oid handler) in
/-- The results so far are those at the front of the array, for a request of version 2c. -/
structure Written (v : Varbinds c) (header : Header) (b : Bulk c) (entries : List (Entry c ρ)) : Prop where
  header : b.header = header
  length : b.length = entries.length
  fits : entries.length ≤ c.maxNrValues
  slots : b.varbinds.slots = entries.mapIdx (Entry.varbind oid handler) ++ v.slots.drop entries.length

variable {header : Header}

theorem Written.put (h : Written oid handler v header b entries) (hlt : b.length < c.maxNrValues) (e : Entry c ρ) :
    Written oid handler v header
      { b with varbinds := b.varbinds.set b.length (e.varbind oid handler b.length), length := b.length + 1 } (entries ++ [e]) := by
  have hlen := h.length
  refine ⟨h.header, ?_, ?_, ?_⟩
  · simp [hlen]
  · rw [List.length_append, List.length_singleton]
    omega
  · show b.varbinds.slots.set b.length (e.varbind oid handler b.length) = _
    have hv : entries.length < v.slots.length := by
      rw [v.size]
      omega
    rw [h.slots, hlen, List.mapIdx_append, List.set_append_right _ _ (by simp), List.length_mapIdx, Nat.sub_self,
      List.drop_eq_getElem_cons hv, List.set_cons_zero, List.append_assoc]
    simp

variable (next) in
theorem repeatOne_spec (hversion : header.version = snmpVersion2c) (h : Written oid handler v header b entries) (o : Oid c) :
    (entries.length < c.maxNrValues → ∃ b', repeatOne oid handler next o b = .ok (b', advance oid next o, (next o).isSome) ∧
      Written oid handler v header b' (entries ++ [entryOf next o])) ∧
    (c.maxNrValues ≤ entries.length → repeatOne oid handler next o b = .error b) := by
  have hlen := h.length
  have hv1 : b.header.version ≠ snmpVersion1 := by
    rw [h.header, hversion]
    decide
  have hv2 : b.header.version = snmpVersion2c := h.header ▸ hversion
  unfold repeatOne entryOf advance
  cases next o with
  | none =>
    dsimp only
    rw [if_neg hv1, if_pos hv2]
    refine ⟨fun hlt => ⟨_, if_pos (hlen ▸ hlt), ?_⟩, fun hle => if_neg (by omega)⟩
    exact h.put (hlen ▸ hlt) (.ended o)
  | some r =>
    dsimp only [Bulk.put]
    refine ⟨fun hlt => ⟨_, by rw [if_pos (hlen ▸ hlt)]; rfl, ?_⟩, fun hle => by rw [if_neg (by omega)]; rfl⟩
    exact h.put (hlen ▸ hlt) (.found r)

variable (next) in
theorem repetition_spec (hversion : header.version = snmpVersion2c) : ∀ (oids : List (Oid c)) {b : Bulk c} {entries : List (Entry c ρ)},
    Written oid handler v header b entries →
      (entries.length + oids.length ≤ c.maxNrValues → ∃ b' repeater,
        repetition oid handler next oids b = .ok (b', oids.map (advance oid next), repeater) ∧
          Written oid handler v header b' (entries ++ oids.map (entryOf next)) ∧
            (repeater = 0 ↔ (oids.all fun o => (next o).isNone) = true)) ∧
      (c.maxNrValues < entries.length + oids.length → ∃ b', repetition oid handler next oids b = .error b' ∧
        Written oid handler v header b' ((entries ++ oids.map (entryOf next)).take c.maxNrValues))
  | [], b, entries, h => by
    refine ⟨fun _ => ⟨b, 0, rfl, by rwa [List.map_nil, List.append_nil], iff_of_true rfl rfl⟩, fun hlt => ?_⟩
    have := h.fits
    rw [List.length_nil] at hlt
    omega
  | o :: oids, b, entries, h => by
    obtain ⟨hok, herr⟩ := repeatOne_spec next hversion h o
    by_cases hlt : entries.length < c.maxNrValues
    · obtain ⟨b₁, hone, h₁⟩ := hok hlt
      obtain ⟨hok', herr'⟩ := repetition_spec hversion oids h₁
      have hlen : (entries ++ [entryOf next o]).length + oids.length = entries.length + (o :: oids).length := by
        rw [List.length_append, List.length_cons, List.length_cons, List.length_nil]
        omega
      have happend : entries ++ (o :: oids).map (entryOf next) = entries ++ [entryOf next o] ++ oids.map (entryOf next) := by
        rw [List.map_cons, List.append_assoc, List.singleton_append]
      rw [hlen] at hok' herr'
      rw [happend]
      unfold repetition
      rw [hone]
      refine ⟨fun hle => ?_, fun hgt => ?_⟩
      · obtain ⟨b', repeater, hrest, hw, hzero⟩ := hok' hle
        refine ⟨b', if (next o).isSome then repeater + 1 else repeater, ?_, hw, ?_⟩
        · show (do let (b, oids, repeater) ← repetition oid handler next oids b₁; _) = _
          rw [hrest]
          rfl
        · rw [List.all_cons, Bool.and_eq_true, ← hzero]
          cases next o with
          | none => simp
          | some r => simp
      · obtain ⟨b', hrest, hw⟩ := herr' hgt
        refine ⟨b', ?_, hw⟩
        show (do let (b, oids, repeater) ← repetition oid handler next oids b₁; _) = _
        rw [hrest]
        rfl
    · refine ⟨fun hle => ?_, fun _ => ⟨b, ?_, ?_⟩⟩
      · rw [List.length_cons] at hle
        omega
      · unfold repetition
        rw [herr (not_lt.1 hlt)]
        rfl
      · rw [List.take_append_of_le_length (not_lt.1 hlt), List.take_of_length_le h.fits]
        exact h

variable (next) in
/-- The repetitions end, and yield results up to the first that finds nothing, or fill the array. -/
theorem repetitions_spec (hversion : header.version = snmpVersion2c) : ∀ (k : Nat) (i : UInt8) (oids : List (Oid c)) {b : Bulk c}
    {entries : List (Entry c ρ)}, Written oid handler v header b entries → i.toNat ≤ entries.length →
      c.maxNrValues + 2 ≤ k + entries.length → ∃ res, repetitions oid handler next k i oids b = some res ∧
        Written oid handler v header (outcome res)
          ((entries ++ cutRepetitions oid next (header.maxRepetitions.toNat - i.toNat) oids).take c.maxNrValues) ∧
        ((∃ b', res = .error b') ↔
          c.maxNrValues < (entries ++ cutRepetitions oid next (header.maxRepetitions.toNat - i.toNat) oids).length)
  | 0, i, oids, b, entries, h, _, hk => by
    have := h.fits
    omega
  | k + 1, i, oids, b, entries, h, hi, hk => by
    have hmax := c.maxNrValues_le
    have hfits := h.fits
    unfold repetitions
    rw [h.header]
    by_cases hlt : i.toNat < header.maxRepetitions.toNat
    · rw [if_pos hlt]
      obtain ⟨m, hm⟩ : ∃ m, header.maxRepetitions.toNat - i.toNat = m + 1 := ⟨header.maxRepetitions.toNat - i.toNat - 1, by omega⟩
      have hm' : header.maxRepetitions.toNat - (i.toNat + 1) = m := by omega
      rw [hm, cutRepetitions, ← List.append_assoc]
      obtain ⟨hok, herr⟩ := repetition_spec next hversion oids h
      by_cases hle : entries.length + oids.length ≤ c.maxNrValues
      · obtain ⟨b', repeater, hrep, hw, hzero⟩ := hok hle
        rw [hrep]
        dsimp only
        by_cases hz : repeater = 0
        · rw [if_pos hz, if_pos (hzero.1 hz), List.append_nil]
          refine ⟨_, rfl, ?_, iff_of_false (fun ⟨_, he⟩ => by cases he) ?_⟩
          · rw [List.take_of_length_le hw.fits]
            exact hw
          · exact hw.fits.not_gt
        · rw [if_neg hz, if_neg (mt hzero.2 hz)]
          have hne : 1 ≤ oids.length := by
            cases oids with
            | nil => exact absurd (hzero.2 rfl) hz
            | cons o oids => exact Nat.succ_pos _
          have hi' : (i + 1).toNat = i.toNat + 1 := by
            rw [UInt8.toNat_add]
            exact Nat.mod_eq_of_lt (by show i.toNat + 1 < 256; omega)
          have hlen : (entries ++ oids.map (entryOf next)).length = entries.length + oids.length := by
            rw [List.length_append, List.length_map]
          have hrest := repetitions_spec hversion k (i + 1) (oids.map (advance oid next)) hw
            (by omega) (by omega)
          rw [hi', hm'] at hrest
          exact hrest
      · obtain ⟨b', hrep, hw⟩ := herr (not_le.1 hle)
        rw [hrep]
        have hlen : (entries ++ oids.map (entryOf next)).length = entries.length + oids.length := by
          rw [List.length_append, List.length_map]
        refine ⟨_, rfl, ?_, iff_of_true ⟨b', rfl⟩ ?_⟩
        · rw [List.take_append_of_le_length (by omega)]
          exact hw
        · rw [List.length_append]
          omega
    · rw [if_neg hlt, show header.maxRepetitions.toNat - i.toNat = 0 by omega, cutRepetitions, List.append_nil,
        List.take_of_length_le hfits]
      exact ⟨_, rfl, h, iff_of_false (fun ⟨_, he⟩ => by cases he) hfits.not_gt⟩

/-! ## The first varbinds -/

theorem nonRepeaters_found : ∀ (oids : List (Oid c)) (i : Nat) {b : Bulk c} {entries : List (Entry c ρ)},
    Written oid handler v header b entries → (∀ o ∈ oids, (next o).isSome = true) → entries.length + oids.length ≤ c.maxNrValues →
      ∃ b', nonRepeaters oid handler next i oids b = .ok b' ∧ Written oid handler v header b' (entries ++ oids.map (entryOf next))
  | [], i, b, entries, h, _, _ => ⟨b, rfl, by rwa [List.map_nil, List.append_nil]⟩
  | o :: oids, i, b, entries, h, hfound, hle => by
    rw [List.length_cons] at hle
    have hlt : b.length < c.maxNrValues := by
      rw [h.length]
      omega
    obtain ⟨r, hr⟩ := Option.isSome_iff_exists.1 (hfound o List.mem_cons_self)
    have hw := h.put hlt (.found r)
    have hlen : (entries ++ [(Entry.found r : Entry c ρ)]).length = entries.length + 1 := by simp
    obtain ⟨b', hrest, hw'⟩ := nonRepeaters_found oids (i + 1) hw (fun o' ho' => hfound o' (List.mem_cons_of_mem o ho')) (by omega)
    refine ⟨b', ?_, ?_⟩
    · have hone : nonRepeatOne oid handler next i o b = .ok
          { b with varbinds := b.varbinds.set b.length ((Entry.found r).varbind oid handler b.length), length := b.length + 1 } := by
        rw [nonRepeatOne, hr]
        exact if_pos hlt
      rw [nonRepeaters, hone]
      exact hrest
    · rw [List.map_cons, show entryOf next o = .found r by rw [entryOf, hr], List.append_cons]
      exact hw'

variable (next) in
theorem nonRepeaters_ended (hversion : header.version = snmpVersion2c) : ∀ (oids : List (Oid c)) {b : Bulk c}
    {before marked after : List (Varbind c)}, b.header = header → b.varbinds.slots = before ++ (marked ++ after) →
      marked.map Varbind.oid = oids → (∀ o ∈ oids, next o = none) →
        ∃ b', nonRepeaters oid handler next before.length oids b = .ok b' ∧ b'.header = header ∧
          b'.varbinds.slots = before ++ (oids.map (fun o => ⟨o, .endOfMibView⟩) ++ after)
  | [], b, before, marked, after, hheader, hslots, hmarked, _ => by
    obtain rfl := List.map_eq_nil_iff.1 hmarked
    exact ⟨b, rfl, hheader, hslots⟩
  | o :: oids, b, before, marked, after, hheader, hslots, hmarked, hended => by
    obtain ⟨x, marked, rfl, rfl, hmap⟩ := List.map_eq_cons_iff.1 hmarked
    have hv1 : b.header.version ≠ snmpVersion1 := by
      rw [hheader, hversion]
      decide
    have hv2 : b.header.version = snmpVersion2c := hheader ▸ hversion
    obtain ⟨b₁, hb₁⟩ : ∃ b₁, b₁ =
      { b with varbinds := b.varbinds.modify before.length fun v => { v with value := .endOfMibView } } := ⟨_, rfl⟩
    have hmodified : b₁.varbinds.slots = (before ++ [⟨x.oid, .endOfMibView⟩]) ++ (marked ++ after) := by
      rw [hb₁]
      show b.varbinds.slots.modify before.length (fun v => { v with value := .endOfMibView }) = _
      rw [hslots, List.modify_eq_take_cons_drop (by simp)]
      simp
    have hheader₁ : b₁.header = header := by rw [hb₁]; exact hheader
    obtain ⟨b', hrest, hheader', hslots'⟩ := nonRepeaters_ended hversion oids hheader₁ hmodified hmap
      fun o' ho' => hended o' (List.mem_cons_of_mem _ ho')
    refine ⟨b', ?_, hheader', ?_⟩
    · have hone : nonRepeatOne oid handler next before.length x.oid b = .ok b₁ := by
        rw [nonRepeatOne, hended x.oid List.mem_cons_self, hb₁]
        exact (if_neg hv1).trans (if_pos hv2)
      rw [nonRepeaters, hone]
      rw [List.length_append, List.length_singleton] at hrest
      exact hrest
    · rw [hslots', List.map_cons]
      simp

theorem nonRepeaters_append : ∀ (first second : List (Oid c)) (i : Nat) {b b' : Bulk c},
    nonRepeaters oid handler next i first b = .ok b' →
      nonRepeaters oid handler next i (first ++ second) b = nonRepeaters oid handler next (i + first.length) second b'
  | [], second, i, b, b', h => by
    cases h
    rfl
  | o :: first, second, i, b, b', h => by
    rw [List.cons_append, nonRepeaters]
    rw [nonRepeaters] at h
    cases hone : nonRepeatOne oid handler next i o b with
    | error b₁ =>
      rw [hone] at h
      cases h
    | ok b₁ =>
      rw [hone] at h
      rw [List.length_cons, ← Nat.add_assoc, Nat.add_right_comm]
      exact nonRepeaters_append first second (i + 1) h

/-! ## The request -/

variable (next) in
def Regular (header : Header) (v : Varbinds c) : Prop :=
  if (requested v).drop header.nonRepeaters.toNat = [] then
    (requested v).Pairwise fun o o' => next o = none → next o' = none
  else 0 < header.maxRepetitions.toNat ∧ ∀ o ∈ (requested v).take header.nonRepeaters.toNat, (next o).isSome = true

theorem requested_length_le (v : Varbinds c) : (requested v).length ≤ c.maxNrValues := by
  unfold requested
  rw [List.length_map, ← v.size]
  exact (List.takeWhile_sublist _).length_le

theorem engineGetBulk_repeated (hversion : header.version = snmpVersion2c)
    (hfound : ∀ o ∈ (requested v).take header.nonRepeaters.toNat, (next o).isSome = true) :
    ∃ res, engineGetBulk oid handler next header v = some res ∧
      Leaves oid handler (outcome res) v (results next (cutRepetitions oid next) header v) ∧
      ((∃ b, res = .error b) ↔ c.maxNrValues < (results next (cutRepetitions oid next) header v).length) := by
  have hstart : Written oid handler v header ⟨header, v, 0⟩ ([] : List (Entry c ρ)) := ⟨rfl, rfl, Nat.zero_le _, rfl⟩
  have hle := requested_length_le v
  obtain ⟨b, hb, hw⟩ := nonRepeaters_found ((requested v).take header.nonRepeaters.toNat) 0 hstart hfound (by
    rw [List.length_nil, List.length_take]
    omega)
  rw [List.nil_append] at hw
  obtain ⟨res, hres, hw', herr⟩ := repetitions_spec next hversion (c.maxNrValues + 2) 0
    ((requested v).drop header.nonRepeaters.toNat) hw (Nat.zero_le _) (Nat.le_add_right _ _)
  rw [show header.maxRepetitions.toNat - (0 : UInt8).toNat = header.maxRepetitions.toNat from rfl] at hw' herr
  refine ⟨res, ?_, ?_, herr⟩
  · unfold engineGetBulk
    dsimp only
    rw [hb]
    exact hres
  · have hslots := hw'.slots
    unfold Leaves results
    rw [hslots]
    refine congrArg _ ?_
    show v.slots.drop (List.take c.maxNrValues _).length = v.slots.drop _
    rw [List.length_take]
    rcases le_total (((requested v).take header.nonRepeaters.toNat).map (entryOf next) ++ cutRepetitions oid next
      header.maxRepetitions.toNat ((requested v).drop header.nonRepeaters.toNat)).length c.maxNrValues with hle | hge
    · rw [min_eq_right hle]
    · rw [min_eq_left hge, List.drop_of_length_le v.size.le, List.drop_of_length_le (v.size.le.trans hge)]

theorem split_of_pairwise {α : Type} {p : α → Prop} [DecidablePred p] : ∀ {l : List α}, (l.Pairwise fun a b => p a → p b) →
    ∃ l₁ l₂, l = l₁ ++ l₂ ∧ (∀ a ∈ l₁, ¬p a) ∧ ∀ a ∈ l₂, p a
  | [], _ => ⟨[], [], rfl, fun _ h => absurd h List.not_mem_nil, fun _ h => absurd h List.not_mem_nil⟩
  | a :: l, h => by
    obtain ⟨ha, hl⟩ := List.pairwise_cons.1 h
    by_cases hp : p a
    · refine ⟨[], a :: l, rfl, fun _ h => absurd h List.not_mem_nil, fun b hb => ?_⟩
      rcases List.mem_cons.1 hb with rfl | hb
      · exact hp
      · exact ha b hb hp
    · obtain ⟨l₁, l₂, rfl, h₁, h₂⟩ := split_of_pairwise hl
      refine ⟨a :: l₁, l₂, rfl, fun b hb => ?_, h₂⟩
      rcases List.mem_cons.1 hb with rfl | hb
      · exact hp
      · exact h₁ b hb

theorem mapIdx_ended {n : Nat} : (oids.map Entry.ended).mapIdx (fun k => Entry.varbind oid handler (k + n)) =
    oids.map fun o => ⟨o, .endOfMibView⟩ := by
  refine List.ext_getElem (by simp) fun k h₁ h₂ => ?_
  simp [Entry.varbind]

variable (oid handler) in
theorem engineGetBulk_first (hversion : header.version = snmpVersion2c) (hnone : (requested v).drop header.nonRepeaters.toNat = [])
    (hended : (requested v).Pairwise fun o o' => next o = none → next o' = none) :
    ∃ b, engineGetBulk oid handler next header v = some (.ok b) ∧
      Leaves oid handler b v (results next (cutRepetitions oid next) header v) ∧
        (results next (cutRepetitions oid next) header v).length ≤ c.maxNrValues := by
  have hle := requested_length_le v
  have hfirst : (requested v).take header.nonRepeaters.toNat = requested v :=
    List.take_of_length_le (List.drop_eq_nil_iff.1 hnone)
  have hcut : ∀ m, cutRepetitions (ρ := ρ) oid next m [] = [] := by
    rintro (_ | m)
    · rfl
    · rfl
  have hresults : results next (cutRepetitions oid next) header v = (requested v).map (entryOf next) := by
    unfold results
    rw [hnone, hfirst, hcut, List.append_nil]
  rw [hresults]
  obtain ⟨first, second, hsplit, hfound, hend⟩ := split_of_pairwise (p := fun o => next o = none) hended
  have hstart : Written oid handler v header ⟨header, v, 0⟩ ([] : List (Entry c ρ)) := ⟨rfl, rfl, Nat.zero_le _, rfl⟩
  obtain ⟨b, hb, hw⟩ := nonRepeaters_found first 0 hstart (fun o ho => Option.isSome_iff_ne_none.2 (hfound o ho)) (by
    rw [hsplit, List.length_append] at hle
    rw [List.length_nil]
    omega)
  rw [List.nil_append] at hw
  -- the varbinds of the request behind those that were written
  obtain ⟨marked, after, hmarked, hmap⟩ : ∃ marked after, v.slots.drop first.length = marked ++ after ∧
      marked.map Varbind.oid = second := by
    unfold requested at hsplit
    obtain ⟨w₁, w₂, hw₁₂, hmap₁, hmap₂⟩ := List.map_eq_append_iff.1 hsplit
    obtain ⟨rest, hrest⟩ : ∃ rest, v.slots = w₁ ++ (w₂ ++ rest) := by
      refine ⟨v.slots.dropWhile fun x => x.value ≠ .eoc, ?_⟩
      rw [← List.append_assoc, ← hw₁₂, List.takeWhile_append_dropWhile]
    refine ⟨w₂, rest, ?_, hmap₂⟩
    rw [hrest, ← hmap₁, List.length_map, List.drop_left]
  have hslots : b.varbinds.slots = (first.map (entryOf next)).mapIdx (Entry.varbind oid handler) ++ (marked ++ after) := by
    rw [hw.slots, List.length_map, hmarked]
  obtain ⟨b', hb', hheader, hslots'⟩ := nonRepeaters_ended next hversion second hw.header hslots hmap hend
  rw [List.length_mapIdx, List.length_map] at hb'
  refine ⟨b', ?_, ?_, ?_⟩
  · unfold engineGetBulk
    dsimp only
    rw [hfirst, hsplit, nonRepeaters_append first second 0 hb, Nat.zero_add, hb', ← hsplit, hnone]
    dsimp only
    unfold repetitions
    split_ifs
    · rfl
    · rfl
  · have hentries : (requested v).map (entryOf next) = first.map (entryOf next) ++ second.map (Entry.ended (ρ := ρ)) := by
      rw [hsplit, List.map_append]
      refine congrArg _ (List.map_congr_left fun o ho => ?_)
      rw [entryOf, hend o ho]
    have hafter : v.slots.drop ((requested v).map (entryOf next)).length = after := by
      rw [List.length_map, hsplit, List.length_append, ← List.drop_drop, hmarked, ← hmap, List.length_map, List.drop_left]
    unfold Leaves
    rw [hafter, List.take_of_length_le (by rwa [List.length_map]), hentries, List.mapIdx_append, mapIdx_ended, hslots',
      List.append_assoc]
  · rw [List.length_map]
    exact hle

/-! ## The results -/

/-- `snmp_mib_find_next` on a MIB whose list ends. -/
def mibNext [Fintype ρ] (oid : ρ → Oid c) (s : State ρ) (o : Oid c) : Option ρ := (mibFindNext oid s o).join

theorem requested_le_results (hregular : Regular next header v) :
    (requested v).length ≤ (results next (cutRepetitions oid next) header v).length := by
  unfold results
  unfold Regular at hregular
  have hsplit := congrArg List.length (List.take_append_drop header.nonRepeaters.toNat (requested v))
  rw [List.length_append] at hsplit
  rw [List.length_append, List.length_map]
  split_ifs at hregular with hnone
  · rw [hnone, List.length_nil] at hsplit
    omega
  · obtain ⟨m, hm⟩ : ∃ m, header.maxRepetitions.toNat = m + 1 := ⟨header.maxRepetitions.toNat - 1, by omega⟩
    rw [hm, cutRepetitions, List.length_append, List.length_map]
    omega

variable (oid) in
/-- On a sorted MIB, a regular request of version 2c always ends. It leaves the results of its first varbinds and of the
repetitions up to the first that finds nothing, as many as the array holds, and no varbind of the request; -1 is returned exactly
when there are more. -/
theorem engineGetBulk_results [Fintype ρ] (handler : ρ → Nat → Value c) (s : State ρ) (l : List ρ) (hs : Single s l)
    (hsorted : l.Pairwise fun a b => (oid a).arcs < (oid b).arcs) (header : Header) (hversion : header.version = snmpVersion2c)
    (v : Varbinds c) (hregular : Regular (mibNext oid s) header v) : (∀ o r, mibNext oid s o = some r ↔
      r ∈ l ∧ o.arcs < (oid r).arcs ∧ ∀ r' ∈ l, o.arcs < (oid r').arcs → (oid r).arcs ≤ (oid r').arcs) ∧
    (requested v).length ≤ (results (mibNext oid s) (cutRepetitions oid (mibNext oid s)) header v).length ∧
    ∃ res, engineGetBulk oid handler (mibNext oid s) header v = some res ∧
      Leaves oid handler (outcome res) v (results (mibNext oid s) (cutRepetitions oid (mibNext oid s)) header v) ∧
      ((∃ b, res = .error b) ↔
        c.maxNrValues < (results (mibNext oid s) (cutRepetitions oid (mibNext oid s)) header v).length) := by
  refine ⟨fun o r => ?_, requested_le_results hregular, ?_⟩
  · unfold mibNext
    rw [mibFindNext_eq hs]
    exact find_greater hsorted
  · unfold Regular at hregular
    split_ifs at hregular with hnone
    · obtain ⟨b, hb, hleaves, hle⟩ := engineGetBulk_first oid handler hversion hnone hregular
      exact ⟨_, hb, hleaves, iff_of_false (fun ⟨_, he⟩ => by cases he) hle.not_gt⟩
    · exact engineGetBulk_repeated hversion hregular.2

def oneOid : Fin 1 → Oid ⟨128, 4, by decide, by decide⟩ := fun _ => ⟨[1], by decide⟩

def oneMib : State (Fin 1) := ⟨fun _ => none, some 0⟩

def bulkHeader (nonRepeaters maxRepetitions : UInt32) : Header := ⟨snmpVersion2c, [], 0, 0, 0, nonRepeaters, 0, maxRepetitions⟩

def bulkRequest (first second : Varbind ⟨128, 4, by decide, by decide⟩) : Varbinds ⟨128, 4, by decide, by decide⟩ :=
  ⟨[first, second, ⟨⟨[], by decide⟩, .eoc⟩, ⟨⟨[], by decide⟩, .eoc⟩], rfl⟩

theorem oneMib_results : Single oneMib [0] ∧ ∃ res, engineGetBulk oneOid (fun _ k => .integer (UInt32.ofNat k)) (mibNext oneOid oneMib)
    (bulkHeader 0 3) (bulkRequest ⟨⟨[0], by decide⟩, .null⟩ ⟨⟨[], by decide⟩, .eoc⟩) = some res := by
  have hs : Single oneMib [0] := ⟨rfl, rfl⟩
  obtain ⟨-, -, res, hres, -⟩ := engineGetBulk_results oneOid (fun _ k => .integer (UInt32.ofNat k)) oneMib [0] hs
    (List.pairwise_singleton _ _) (bulkHeader 0 3) rfl (bulkRequest ⟨⟨[0], by decide⟩, .null⟩ ⟨⟨[], by decide⟩, .eoc⟩) (by
      unfold Regular
      decide)
  exact ⟨hs, res, hres⟩

/-- The second of three repetitions finds nothing and is the last one; the sequence of all three is longer. -/
theorem oneMib_cut : Single oneMib [0] ∧
    ((engineGetBulk oneOid (fun _ k => .integer (UInt32.ofNat k)) (mibNext oneOid oneMib) (bulkHeader 0 3)
      (bulkRequest ⟨⟨[0], by decide⟩, .null⟩ ⟨⟨[], by decide⟩, .eoc⟩)).map fun res => (outcome res).varbinds.slots) =
      some [⟨⟨[1], by decide⟩, .integer 0⟩, ⟨⟨[1], by decide⟩, .endOfMibView⟩, ⟨⟨[], by decide⟩, .eoc⟩, ⟨⟨[], by decide⟩, .eoc⟩] ∧
    ¬∃ res, engineGetBulk oneOid (fun _ k => .integer (UInt32.ofNat k)) (mibNext oneOid oneMib) (bulkHeader 0 3)
        (bulkRequest ⟨⟨[0], by decide⟩, .null⟩ ⟨⟨[], by decide⟩, .eoc⟩) = some res ∧
      Leaves oneOid (fun _ k => .integer (UInt32.ofNat k)) (outcome res) (bulkRequest ⟨⟨[0], by decide⟩, .null⟩ ⟨⟨[], by decide⟩, .eoc⟩)
        (results (mibNext oneOid oneMib) (allRepetitions oneOid (mibNext oneOid oneMib)) (bulkHeader 0 3)
          (bulkRequest ⟨⟨[0], by decide⟩, .null⟩ ⟨⟨[], by decide⟩, .eoc⟩)) := by
  have hslots : ((engineGetBulk oneOid (fun _ k => .integer (UInt32.ofNat k)) (mibNext oneOid oneMib) (bulkHeader 0 3)
      (bulkRequest ⟨⟨[0], by decide⟩, .null⟩ ⟨⟨[], by decide⟩, .eoc⟩)).map fun res => (outcome res).varbinds.slots) =
      some [⟨⟨[1], by decide⟩, .integer 0⟩, ⟨⟨[1], by decide⟩, .endOfMibView⟩, ⟨⟨[], by decide⟩, .eoc⟩, ⟨⟨[], by decide⟩, .eoc⟩] := by
    decide
  refine ⟨⟨rfl, rfl⟩, hslots, ?_⟩
  rintro ⟨res, hres, hleaves⟩
  rw [hres] at hslots
  have heq := (Option.some.inj hslots).symm.trans hleaves
  exact absurd heq (by decide)

end Contiki.Snmp
