/-
The absolute slot number of tsch-asn.h: 40 bits in two parts. The remainder by a divisor is put together from the
remainders of the parts, with the remainder of 2 ^ 32 kept beside the divisor.
-/
import Contiki.Tsch.Schedule
import Contiki.Lib.Select
import Contiki.Tsch.Timeslots

namespace Contiki.Tsch

section

/-! ## Data -/

@[grind =]
def Asn.toNat (asn : Asn) : Nat := asn.ms1b.toNat * 2 ^ 32 + asn.ls4b.toNat

/-- `struct tsch_asn_divisor_t`. -/
structure AsnDivisor where
  val : UInt16
  asnMs1bRemainder : UInt16

/-- `TSCH_ASN_DIVISOR_INIT`. -/
def AsnDivisor.init (val : UInt16) : AsnDivisor :=
  ⟨val, ((0xffffffff % val.toUInt32 + 1) % val.toUInt32).toUInt16⟩

/-- What an `int` of 32 bits holds. -/
def int32 (x : Int) : Int := x.bmod (2 ^ 32)

/-- `TSCH_ASN_MOD`: the first remainder is taken in `uint32_t`, the product and the sum are of type `int`. -/
def tschAsnMod (asn : Asn) (div : AsnDivisor) : UInt16 :=
  let ls4b := (asn.ls4b % div.val.toUInt32).toUInt16
  let ms1b := UInt16.ofInt ((int32 (asn.ms1b.toNat * div.asnMs1bRemainder.toNat)).tmod div.val.toNat)
  UInt16.ofInt ((int32 (ls4b.toNat + ms1b.toNat)).tmod div.val.toNat)

/-- `TSCH_ASN_DEC`. -/
@[grind =]
def Asn.dec (asn : Asn) (dec : UInt32) : Asn :=
  let ls4b := asn.ls4b - dec
  ⟨ls4b, if ls4b > asn.ls4b then asn.ms1b - 1 else asn.ms1b⟩

/-- `tsch_calculate_channel`, with `tsch_hopping_sequence` and its length. -/
def tschCalculateChannel (hoppingSequence : Nat → UInt8) (hoppingSequenceLength : AsnDivisor) (asn : Asn)
    (channelOffset : UInt16) : UInt8 :=
  let indexOf0 := tschAsnMod asn hoppingSequenceLength
  let indexOfOffset := UInt16.ofInt
    ((int32 (indexOf0.toNat + channelOffset.toNat)).tmod hoppingSequenceLength.val.toNat)
  hoppingSequence indexOfOffset.toNat

/-! ## Arithmetic -/

theorem int32_of_lt {x : Nat} (h : x < 2 ^ 31) : int32 x = x :=
  Int.bmod_eq_of_le (by omega) (by omega)

theorem toNat_ofInt_tmod {x v : Nat} (hx : x < 2 ^ 31) (hv : v < 2 ^ 16) (hpos : 0 < v) :
    (UInt16.ofInt ((int32 x).tmod v)).toNat = x % v := by
  have hlt : x % v < v := Nat.mod_lt x hpos
  rw [int32_of_lt hx, ← Int.ofNat_tmod, UInt16.ofInt, Int.emod_eq_of_lt (by omega) (by omega), Int.toNat_natCast,
    UInt16.toNat_ofNat']
  exact Nat.mod_eq_of_lt (hlt.trans hv)

theorem UInt16.toNat_pos_of_ne {v : UInt16} (h : v ≠ 0) : 0 < v.toNat :=
  Nat.pos_of_ne_zero fun he => h (UInt16.toNat.inj he)

theorem AsnDivisor.toNat_remainder {v : UInt16} (h : v ≠ 0) :
    (AsnDivisor.init v).asnMs1bRemainder.toNat = 2 ^ 32 % v.toNat := by
  have hpos := UInt16.toNat_pos_of_ne h
  have hlt := v.toNat_lt
  have hr : 0xffffffff % v.toNat < v.toNat := Nat.mod_lt _ hpos
  have hm : (0xffffffff % v.toNat + 1) % v.toNat < v.toNat := Nat.mod_lt _ hpos
  show ((0xffffffff % v.toUInt32 + 1) % v.toUInt32).toUInt16.toNat = _
  simp only [UInt32.toNat_toUInt16, UInt32.toNat_mod, UInt32.toNat_add, UInt16.toNat_toUInt32, UInt32.reduceToNat]
  rw [Nat.mod_eq_of_lt (show 0xffffffff % v.toNat + 1 < 2 ^ 32 by omega), Nat.mod_eq_of_lt (by omega),
    Nat.mod_add_mod, show 4294967295 + 1 = 2 ^ 32 from rfl]

theorem Asn.mod_eq (asn : Asn) (val : UInt16) : asn.mod val = asn.toNat % val.toNat := by
  unfold Asn.mod Asn.toNat
  rw [← Nat.add_mod, Nat.add_comm, Nat.add_mod, Nat.mul_mod, Nat.mod_mod, ← Nat.mul_mod, ← Nat.add_mod]

theorem toNat_tschAsnMod (asn : Asn) {v : UInt16} (h : v ≠ 0) :
    (tschAsnMod asn (.init v)).toNat = asn.toNat % v.toNat := by
  have hpos := UInt16.toNat_pos_of_ne h
  have hlt := v.toNat_lt
  have hms := asn.ms1b.toNat_lt
  have hrem : 2 ^ 32 % v.toNat < v.toNat := Nat.mod_lt _ hpos
  have hls : asn.ls4b.toNat % v.toNat < v.toNat := Nat.mod_lt _ hpos
  have hms' : asn.ms1b.toNat * (2 ^ 32 % v.toNat) % v.toNat < v.toNat := Nat.mod_lt _ hpos
  have hprod : asn.ms1b.toNat * (2 ^ 32 % v.toNat) < 2 ^ 31 := by
    calc asn.ms1b.toNat * (2 ^ 32 % v.toNat) ≤ 256 * 65536 := Nat.mul_le_mul hms.le (hrem.trans hlt).le
      _ < 2 ^ 31 := by decide
  have hlow : (asn.ls4b % v.toUInt32).toUInt16.toNat = asn.ls4b.toNat % v.toNat := by
    rw [UInt32.toNat_toUInt16, UInt32.toNat_mod, UInt16.toNat_toUInt32]
    exact Nat.mod_eq_of_lt (hls.trans hlt)
  have hhigh : (UInt16.ofInt ((int32 (asn.ms1b.toNat * (AsnDivisor.init v).asnMs1bRemainder.toNat)).tmod
      v.toNat)).toNat = asn.ms1b.toNat * (2 ^ 32 % v.toNat) % v.toNat := by
    rw [AsnDivisor.toNat_remainder h, ← Nat.cast_mul]
    exact toNat_ofInt_tmod hprod hlt hpos
  unfold tschAsnMod
  show (UInt16.ofInt ((int32 ((asn.ls4b % v.toUInt32).toUInt16.toNat + (UInt16.ofInt ((int32 (asn.ms1b.toNat *
    (AsnDivisor.init v).asnMs1bRemainder.toNat)).tmod v.toNat)).toNat)).tmod v.toNat)).toNat = _
  rw [hlow, hhigh, ← Nat.cast_add, toNat_ofInt_tmod (by omega) hlt hpos]
  exact Asn.mod_eq asn v

/-! ## Steps -/

theorem Asn.toNat_lt (asn : Asn) : asn.toNat < 2 ^ 40 := by
  have hms := asn.ms1b.toNat_lt
  have hls := asn.ls4b.toNat_lt
  unfold Asn.toNat
  omega

theorem Asn.toNat_inj {a b : Asn} (h : a.toNat = b.toNat) : a = b := by
  obtain ⟨als, ams⟩ := a
  obtain ⟨bls, bms⟩ := b
  have ha := als.toNat_lt
  have hb := bls.toNat_lt
  simp only [Asn.toNat] at h
  rw [Asn.mk.injEq]
  constructor
  · apply UInt32.toNat.inj
    omega
  · apply UInt8.toNat.inj
    omega

theorem Asn.toNat_inc (asn : Asn) (inc : UInt32) : (asn.inc inc.toNat).toNat = (asn.toNat + inc.toNat) % 2 ^ 40 := by
  have hms := asn.ms1b.toNat_lt
  have hls := asn.ls4b.toNat_lt
  have hk := inc.toNat_lt
  simp only [Asn.inc, Asn.toNat, UInt32.ofNat_toNat, UInt32.lt_iff_toNat_lt, UInt32.toNat_add]
  split
  · rw [UInt8.toNat_add, UInt8.toNat_one]
    omega
  · omega

theorem Asn.toNat_dec (asn : Asn) (dec : UInt32) :
    (asn.dec dec).toNat = (asn.toNat + (2 ^ 40 - dec.toNat)) % 2 ^ 40 := by
  have hms := asn.ms1b.toNat_lt
  have hls := asn.ls4b.toNat_lt
  have hk := dec.toNat_lt
  simp only [Asn.dec, Asn.toNat, gt_iff_lt, UInt32.lt_iff_toNat_lt, UInt32.toNat_sub]
  split
  · rw [UInt8.toNat_sub, UInt8.toNat_one]
    omega
  · omega

theorem Asn.dec_inc (asn : Asn) (k : UInt32) : (asn.inc k.toNat).dec k = asn := by
  have hlt := asn.toNat_lt
  have hk := k.toNat_lt
  apply Asn.toNat_inj
  rw [Asn.toNat_dec, Asn.toNat_inc]
  omega

theorem Asn.inc_dec (asn : Asn) (k : UInt32) : (asn.dec k).inc k.toNat = asn := by
  have hlt := asn.toNat_lt
  have hk := k.toNat_lt
  apply Asn.toNat_inj
  rw [Asn.toNat_inc, Asn.toNat_dec]
  omega

/-- The remainder by a divisor, the steps in both directions and the channel are those of the number of 40 bits. -/
theorem asn_exact (asn : Asn) {v : UInt16} (hv : v ≠ 0) (k : UInt32) (hoppingSequence : Nat → UInt8)
    (channelOffset : UInt16) : (tschAsnMod asn (.init v)).toNat = asn.toNat % v.toNat ∧
    (asn.inc k.toNat).toNat = (asn.toNat + k.toNat) % 2 ^ 40 ∧
    (asn.inc k.toNat).dec k = asn ∧ (asn.dec k).inc k.toNat = asn ∧
    tschCalculateChannel hoppingSequence (.init v) asn channelOffset =
      hoppingSequence ((asn.toNat + channelOffset.toNat) % v.toNat) := by
  refine ⟨toNat_tschAsnMod asn hv, asn.toNat_inc k, asn.dec_inc k, asn.inc_dec k, ?_⟩
  have hpos := UInt16.toNat_pos_of_ne hv
  have hoffset := channelOffset.toNat_lt
  have hlt := v.toNat_lt
  have hmod : asn.toNat % v.toNat < v.toNat := Nat.mod_lt _ hpos
  unfold tschCalculateChannel
  show hoppingSequence (UInt16.ofInt ((int32 ((tschAsnMod asn (.init v)).toNat + channelOffset.toNat)).tmod
    v.toNat)).toNat = _
  rw [toNat_tschAsnMod asn hv, ← Nat.cast_add, toNat_ofInt_tmod (by omega) hlt hpos, Nat.mod_add_mod]

/-- The last slot number and a hopping sequence of 16 channels. -/
theorem asn_exact_last : (16 : UInt16) ≠ 0 ∧
    (tschAsnMod ⟨0xffffffff, 0xff⟩ (.init 16)).toNat = (Asn.mk 0xffffffff 0xff).toNat % 16 ∧
    ((Asn.mk 0xffffffff 0xff).inc 1).toNat = ((Asn.mk 0xffffffff 0xff).toNat + 1) % 2 ^ 40 ∧
    ((Asn.mk 0xffffffff 0xff).inc 1).dec 1 = ⟨0xffffffff, 0xff⟩ ∧
    ((Asn.mk 0xffffffff 0xff).dec 1).inc 1 = ⟨0xffffffff, 0xff⟩ ∧
    tschCalculateChannel (fun i => UInt8.ofNat (11 + i)) (.init 16) ⟨0xffffffff, 0xff⟩ 3 =
      UInt8.ofNat (11 + ((Asn.mk 0xffffffff 0xff).toNat + 3) % 16) :=
  ⟨by decide, asn_exact ⟨0xffffffff, 0xff⟩ (show (16 : UInt16) ≠ 0 by decide) 1 (fun i => UInt8.ofNat (11 + i)) 3⟩

end

/-!
The next active link of a schedule. `tsch_schedule_get_next_active_link` goes once through the links of all slotframes;
the links that it combines are those active at the first slot at which one is, in the order of the lists, and the best of
them has the TX option if one has it, and the lowest slotframe handle.
-/

section

open Contiki.Core Contiki.Lib

variable {A : Type} [DecidableEq A] {s : State A} {asn : Asn} {l : Nat}

/-! ## The call -/

/-- What `tsch_schedule_get_next_active_link` returns, and what it writes to `time_offset` and `backup_link`. -/
structure NextActive where
  link : Option Nat
  timeOffset : Option Nat
  backupLink : Option Nat
deriving DecidableEq

/-- `tsch_schedule_get_next_active_link`; a schedule that is locked is not looked at, and `time_offset` stays. -/
@[grind =]
def tschScheduleGetNextActiveLink (locked : Bool) (s : State A) (asn : Asn) : NextActive :=
  if locked then ⟨none, none, none⟩
  else match nextActive s asn with
    | none => ⟨none, some 0, none⟩
    | some b => ⟨some b.best, some b.time, b.backup⟩

/-! ## Active links -/

def Schedule.places (s : Schedule A) : List (Nat × Nat) :=
  s.slotframeList.flatMap fun sf => (s.slotframe sf).linksList.map fun l => (sf, l)

def Schedule.comes (s : Schedule A) (n : Nat) (p : Nat × Nat) : Bool :=
  n % (s.slotframe p.1).size.toNat = (s.link p.2).timeslot.toNat

def Schedule.activeAt (s : Schedule A) (n : Nat) : List Nat := (s.places.filter (s.comes n)).map Prod.snd

def timeTo (size timeslot linkTimeslot : Nat) : Nat :=
  if linkTimeslot > timeslot then linkTimeslot - timeslot else size + linkTimeslot - timeslot

theorem timeTo_spec {size linkTimeslot : Nat} (n : Nat) (h : linkTimeslot < size) :
    1 ≤ timeTo size (n % size) linkTimeslot ∧ timeTo size (n % size) linkTimeslot ≤ size ∧
    (n + timeTo size (n % size) linkTimeslot) % size = linkTimeslot ∧
    ∀ k, 0 < k → k < timeTo size (n % size) linkTimeslot → (n + k) % size ≠ linkTimeslot := by
  have hr : n % size < size := Nat.mod_lt _ (by omega)
  have hmod : ∀ k, k ≤ size → (n + k) % size = if n % size + k < size then n % size + k else n % size + k - size := by
    intro k hk
    rw [← Nat.mod_add_mod]
    split
    · exact Nat.mod_eq_of_lt (by omega)
    · rw [Nat.mod_eq_sub_mod (by omega)]
      rcases Nat.lt_or_ge (n % size + k - size) size with hlt | hge
      · exact Nat.mod_eq_of_lt hlt
      · omega
  unfold timeTo
  split
  · refine ⟨by omega, by omega, ?_, ?_⟩
    · rw [hmod _ (by omega), if_pos (by omega)]
      omega
    · intro k hk hlt
      rw [hmod k (by omega)]
      split
      · omega
      · omega
  · refine ⟨by omega, by omega, ?_, ?_⟩
    · rw [hmod _ (by omega), if_neg (by omega)]
      omega
    · intro k hk hlt
      rw [hmod k (by omega)]
      split
      · omega
      · omega

omit [DecidableEq A] in
theorem mem_places {s : Schedule A} {p : Nat × Nat} :
    p ∈ s.places ↔ p.1 ∈ s.slotframeList ∧ p.2 ∈ (s.slotframe p.1).linksList := by
  obtain ⟨sf, l⟩ := p
  simp [Schedule.places]

omit [DecidableEq A] in
theorem places_links (s : Schedule A) : s.places.map Prod.snd = s.links := by
  unfold Schedule.places Schedule.links
  rw [List.map_flatMap]
  apply List.flatMap_congr
  intro sf _
  rw [List.map_map]
  exact List.map_id _

omit [DecidableEq A] in
theorem mem_activeAt {s : Schedule A} {n : Nat} :
    l ∈ s.activeAt n ↔ ∃ sf ∈ s.slotframeList, l ∈ (s.slotframe sf).linksList ∧
      n % (s.slotframe sf).size.toNat = (s.link l).timeslot.toNat := by
  unfold Schedule.activeAt
  rw [List.mem_map]
  constructor
  · rintro ⟨⟨sf, l⟩, hp, rfl⟩
    obtain ⟨hp, hc⟩ := List.mem_filter.1 hp
    obtain ⟨hsf, hl⟩ := mem_places.1 hp
    exact ⟨sf, hsf, hl, of_decide_eq_true hc⟩
  · rintro ⟨sf, hsf, hl, hc⟩
    exact ⟨(sf, l), List.mem_filter.2 ⟨mem_places.2 ⟨hsf, hl⟩, decide_eq_true hc⟩, rfl⟩

/-! ## The pass -/

def waitFor (s : Schedule A) (n : Nat) (p : Nat × Nat) : Nat :=
  timeTo (s.slotframe p.1).size.toNat (n % (s.slotframe p.1).size.toNat) (s.link p.2).timeslot.toNat

/-- The best link and the backup link after one more link of the same time. -/
def overlap (s : State A) (c : Nat × Option Nat) (l : Nat) : Nat × Option Nat :=
  let new := newBest s c.1 l
  let backup := if new ≠ some l then backupWith s c.2 l else c.2
  let backup := if new ≠ some c.1 then backupWith s backup c.1 else backup
  (new.getD c.1, backup)

def Best.parts (b : Best) : Nat × Nat × Option Nat := (b.time, b.best, b.backup)

theorem nextActiveRound_parts (s : State A) (asn : Asn) (p : Nat × Nat) (acc : Option Best) :
    (nextActiveRound s (asn.mod (s.sched.slotframe p.1).size) (s.sched.slotframe p.1).size.toNat acc p.2).map
      Best.parts = earliestRound (waitFor s.sched asn.toNat) (fun p => (p.2, none)) (fun c p => overlap s c p.2)
      (acc.map Best.parts) p := by
  rw [Asn.mod_eq]
  cases acc with
  | none => rfl
  | some b =>
    show Option.map Best.parts (if waitFor s.sched asn.toNat p < b.time then _ else
      if waitFor s.sched asn.toNat p = b.time then _ else _) = if waitFor s.sched asn.toNat p < b.time then _ else
      if waitFor s.sched asn.toNat p = b.time then _ else _
    split
    · rfl
    · split
      · rfl
      · rfl

theorem nextActive_parts (s : State A) (asn : Asn) : (nextActive s asn).map Best.parts =
      s.sched.places.foldl (earliestRound (waitFor s.sched asn.toNat) (fun p => (p.2, none))
        fun c p => overlap s c p.2) none := by
  have hnext : nextActive s asn = s.sched.places.foldl (fun acc p => nextActiveRound s
      (asn.mod (s.sched.slotframe p.1).size) (s.sched.slotframe p.1).size.toNat acc p.2) none := by
    unfold nextActive Schedule.places
    rw [List.foldl_flatMap]
    congr 1
    funext acc sf
    rw [List.foldl_map]
  rw [hnext]
  exact (List.foldl_hom (Option.map Best.parts) fun acc p => (nextActiveRound_parts s asn p acc).symm).symm

omit [DecidableEq A] in
theorem Schedule.Valid.waitFor_spec {s : Schedule A} (h : s.Valid) (n : Nat) {p : Nat × Nat} (hp : p ∈ s.places) :
    1 ≤ waitFor s n p ∧ waitFor s n p ≤ (s.slotframe p.1).size.toNat ∧ s.comes (n + waitFor s n p) p = true ∧
    ∀ k, 0 < k → k < waitFor s n p → s.comes (n + k) p = false := by
  obtain ⟨hsf, hl⟩ := mem_places.1 hp
  have hlt := UInt16.lt_iff_toNat_lt.1 (h.timeslots p.1 hsf p.2 hl)
  obtain ⟨hpos, hle, hcomes, hbefore⟩ := timeTo_spec n hlt
  exact ⟨hpos, hle, decide_eq_true hcomes, fun k hk hlt => decide_eq_false (hbefore k hk hlt)⟩

omit [DecidableEq A] in
theorem Schedule.Valid.filter_waitFor {s : Schedule A} (h : s.Valid) {n t : Nat} (hpos : 0 < t)
    (hleast : ∀ p ∈ s.places, t ≤ waitFor s n p) :
    s.places.filter (fun p => decide (waitFor s n p = t)) = s.places.filter (s.comes (n + t)) := by
  apply List.filter_congr
  intro p hp
  obtain ⟨-, -, hcomes, hbefore⟩ := h.waitFor_spec n hp
  rcases Nat.eq_or_lt_of_le (hleast p hp) with he | hlt
  · rw [decide_eq_true he.symm]
    rw [← he] at hcomes
    exact hcomes.symm
  · rw [decide_eq_false (by omega), hbefore t hpos hlt]

/-- What the call finds: the first slot at which a link is active, and the links active then, combined in their order. -/
theorem nextActive_spec (h : s.sched.Valid) (asn : Asn) : (nextActive s asn = none ∧ s.sched.links = []) ∨
    ∃ b first rest, nextActive s asn = some b ∧ 0 < b.time ∧ s.sched.activeAt (asn.toNat + b.time) = first :: rest ∧
      (b.best, b.backup) = rest.foldl (overlap s) (first, none) ∧
      (∀ k, 0 < k → k < b.time → s.sched.activeAt (asn.toNat + k) = []) ∧
      ∀ p ∈ s.sched.places, s.sched.comes (asn.toNat + b.time) p = true →
        b.time ≤ (s.sched.slotframe p.1).size.toNat := by
  have hparts := nextActive_parts s asn
  rcases @foldl_earliestRound _ _ (waitFor s.sched asn.toNat) (fun p => (p.2, none))
    (fun c p => overlap s c p.2) s.sched.places with ⟨hnil, hnone⟩ | ⟨t, c, hsome, hearliest⟩
  · refine .inl ⟨?_, ?_⟩
    · rw [hnone] at hparts
      exact Option.map_eq_none_iff.1 hparts
    · rw [← places_links, hnil]
      rfl
  · rw [hsome] at hparts
    obtain ⟨b, hb, hbt⟩ := Option.map_eq_some_iff.1 hparts
    obtain ⟨x, rest, hfilter, hfold⟩ := hearliest.fold
    have htime : b.time = t := congrArg Prod.fst hbt
    have hx : x ∈ s.sched.places ∧ waitFor s.sched asn.toNat x = t := by
      have := List.mem_filter.1 (hfilter ▸ List.mem_cons_self : x ∈ s.sched.places.filter _)
      exact ⟨this.1, of_decide_eq_true this.2⟩
    have hpos : 0 < t := hx.2 ▸ (h.waitFor_spec asn.toNat hx.1).1
    rw [h.filter_waitFor hpos hearliest.least] at hfilter
    subst htime
    refine .inr ⟨b, x.2, rest.map Prod.snd, hb, hpos, ?_, ?_, ?_, ?_⟩
    · unfold Schedule.activeAt
      rw [hfilter]
      rfl
    · rw [List.foldl_map]
      exact (congrArg Prod.snd hbt).trans hfold
    · intro k hk hlt
      unfold Schedule.activeAt
      rw [List.map_eq_nil_iff, List.filter_eq_nil_iff]
      intro p hp hcomes
      obtain ⟨-, -, -, hbefore⟩ := h.waitFor_spec asn.toNat hp
      rw [hbefore k hk (hlt.trans_le (hearliest.least p hp))] at hcomes
      cases hcomes
    · intro p hp hcomes
      obtain ⟨-, hle, -, hbefore⟩ := h.waitFor_spec asn.toNat hp
      rcases Nat.eq_or_lt_of_le (hearliest.least p hp) with he | hlt
      · omega
      · rw [hbefore b.time hpos hlt] at hcomes
        cases hcomes

/-! ## The best link -/

/-- Of two links, the one with the TX option comes first, and otherwise the one with the lower slotframe handle. -/
def rank (s : State A) (l : Nat) : Nat :=
  (if (s.sched.link l).isTx then 0 else 2 ^ 16) + (s.sched.link l).slotframeHandle.toNat

omit [DecidableEq A] in
theorem rank_le_iff (s : State A) (a b : Nat) : rank s a ≤ rank s b ↔
    ((s.sched.link b).isTx = true → (s.sched.link a).isTx = true) ∧ ((s.sched.link a).isTx = (s.sched.link b).isTx →
      (s.sched.link a).slotframeHandle ≤ (s.sched.link b).slotframeHandle) := by
  have ha := (s.sched.link a).slotframeHandle.toNat_lt
  have hb := (s.sched.link b).slotframeHandle.toNat_lt
  unfold rank
  rw [UInt16.le_iff_toNat_le]
  cases (s.sched.link a).isTx with
  | true =>
    cases (s.sched.link b).isTx with
    | true => simp
    | false => simp; omega
  | false =>
    cases (s.sched.link b).isTx with
    | true => simp; omega
    | false => simp

theorem newBest_cases (s : State A) (best l : Nat) : (rank s l < rank s best ∧ newBest s best l = some l) ∨
    (rank s best < rank s l ∧ newBest s best l = none) ∨
    (rank s l = rank s best ∧ newBest s best l = some (tschLinkComparator s best l)) := by
  have ha := (s.sched.link best).slotframeHandle.toNat_lt
  have hb := (s.sched.link l).slotframeHandle.toNat_lt
  unfold newBest rank
  dsimp only
  by_cases htx : (s.sched.link best).isTx = (s.sched.link l).isTx
  · rw [if_pos htx, htx]
    by_cases hne : (s.sched.link l).slotframeHandle ≠ (s.sched.link best).slotframeHandle
    · rw [if_pos hne]
      by_cases hlt : (s.sched.link l).slotframeHandle < (s.sched.link best).slotframeHandle
      · have := UInt16.lt_iff_toNat_lt.1 hlt
        exact .inl ⟨by omega, if_pos hlt⟩
      · rw [UInt16.lt_iff_toNat_lt] at hlt
        rw [ne_eq, ← UInt16.toNat_inj] at hne
        exact .inr (.inl ⟨by omega, if_neg fun h => hlt (UInt16.lt_iff_toNat_lt.1 h)⟩)
    · rw [if_neg hne]
      rw [not_not] at hne
      exact .inr (.inr ⟨by rw [hne], rfl⟩)
  · rw [if_neg htx]
    cases hl : (s.sched.link l).isTx with
    | true =>
      have hbest : (s.sched.link best).isTx = false := by simpa [hl] using htx
      rw [hbest]
      exact .inl ⟨by simp; omega, rfl⟩
    | false =>
      have hbest : (s.sched.link best).isTx = true := by simpa [hl] using htx
      rw [hbest]
      exact .inr (.inl ⟨by simp; omega, rfl⟩)

theorem tschLinkComparator_cases (s : State A) (a b : Nat) :
    tschLinkComparator s a b = a ∨ tschLinkComparator s a b = b := by
  unfold tschLinkComparator
  split
  · exact .inl rfl
  · split
    · dsimp only
      split
      · exact .inl rfl
      · exact .inr rfl
    · exact .inl rfl

theorem overlap_best (s : State A) (c : Nat × Option Nat) (l : Nat) :
    ((overlap s c l).1 = c.1 ∨ (overlap s c l).1 = l) ∧ rank s (overlap s c l).1 ≤ rank s c.1 ∧
    rank s (overlap s c l).1 ≤ rank s l := by
  show ((newBest s c.1 l).getD c.1 = c.1 ∨ (newBest s c.1 l).getD c.1 = l) ∧
    rank s ((newBest s c.1 l).getD c.1) ≤ rank s c.1 ∧ rank s ((newBest s c.1 l).getD c.1) ≤ rank s l
  rcases newBest_cases s c.1 l with ⟨hlt, he⟩ | ⟨hlt, he⟩ | ⟨heq, he⟩
  · rw [he]
    exact ⟨.inr rfl, hlt.le, le_rfl⟩
  · rw [he]
    exact ⟨.inl rfl, le_rfl, hlt.le⟩
  · rw [he, Option.getD_some]
    rcases tschLinkComparator_cases s c.1 l with hc | hc
    · rw [hc]
      exact ⟨.inl rfl, le_rfl, heq.ge⟩
    · rw [hc]
      exact ⟨.inr rfl, heq.le, le_rfl⟩

theorem foldl_overlap_best (s : State A) : ∀ (rest : List Nat) (c : Nat × Option Nat),
    (rest.foldl (overlap s) c).1 ∈ c.1 :: rest ∧ ∀ l ∈ c.1 :: rest, rank s (rest.foldl (overlap s) c).1 ≤ rank s l
  | [], c => ⟨List.mem_singleton.2 rfl, fun l hl => by rw [List.mem_singleton.1 hl]; rfl⟩
  | x :: rest, c => by
    obtain ⟨hmem, hle⟩ := foldl_overlap_best s rest (overlap s c x)
    obtain ⟨hone, hc, hx⟩ := overlap_best s c x
    have hbest := hle _ List.mem_cons_self
    constructor
    · rcases List.mem_cons.1 hmem with he | hmem
      · rw [List.foldl_cons, he]
        rcases hone with hone | hone
        · rw [hone]
          exact List.mem_cons_self
        · rw [hone]
          exact List.mem_cons_of_mem _ List.mem_cons_self
      · exact List.mem_cons_of_mem _ (List.mem_cons_of_mem _ hmem)
    · intro l hl
      rcases List.mem_cons.1 hl with rfl | hl
      · exact hbest.trans hc
      · rcases List.mem_cons.1 hl with rfl | hl
        · exact hbest.trans hx
        · exact hle l (List.mem_cons_of_mem _ hl)

/-- Unless the schedule is locked, the call finds a link when there is one: at the first slot at which a link is active,
one of those with the TX option if there are any, and of the lowest slotframe handle among these. -/
theorem next_active_link (s : State A) (h : s.sched.Valid) (locked : Bool) (asn : Asn) :
    ((tschScheduleGetNextActiveLink locked s asn).link = none ↔ locked = true ∨ s.sched.links = []) ∧
    ∀ l, (tschScheduleGetNextActiveLink locked s asn).link = some l →
      ∃ sf ∈ s.sched.slotframeList, l ∈ (s.sched.slotframe sf).linksList ∧
      ∃ d, (tschScheduleGetNextActiveLink locked s asn).timeOffset = some d ∧
        1 ≤ d ∧ d ≤ (s.sched.slotframe sf).size.toNat ∧
        (asn.toNat + d) % (s.sched.slotframe sf).size.toNat = (s.sched.link l).timeslot.toNat ∧
        (∀ k, 0 < k → k < d → s.sched.activeAt (asn.toNat + k) = []) ∧ ∀ l' ∈ s.sched.activeAt (asn.toNat + d),
          ((s.sched.link l').isTx = true → (s.sched.link l).isTx = true) ∧
          ((s.sched.link l).isTx = (s.sched.link l').isTx →
            (s.sched.link l).slotframeHandle ≤ (s.sched.link l').slotframeHandle) := by
  unfold tschScheduleGetNextActiveLink
  cases locked with
  | true => exact ⟨by simp, by rintro l ⟨⟩⟩
  | false =>
    rw [if_neg (by decide)]
    obtain ⟨hnone, hnil⟩ | ⟨b, first, rest, hb, hpos, hactive, hfold, hbefore, hsize⟩ := nextActive_spec h asn
    · rw [hnone]
      exact ⟨by simp [hnil], by rintro l ⟨⟩⟩
    · rw [hb]
      have hbest : b.best = (rest.foldl (overlap s) (first, none)).1 := congrArg Prod.fst hfold
      obtain ⟨hmem, hle⟩ := foldl_overlap_best s rest (first, none)
      rw [← hbest, ← hactive] at hmem
      obtain ⟨sf, hsf, hl, hcomes⟩ := mem_activeAt.1 hmem
      constructor
      · have : b.best ∈ s.sched.links := mem_links.2 ⟨sf, hsf, hl⟩
        simp only [reduceCtorEq, Bool.false_eq_true, false_or, false_iff]
        exact List.ne_nil_of_mem this
      · rintro l ⟨⟩
        refine ⟨sf, hsf, hl, b.time, rfl, hpos, ?_, hcomes, hbefore, fun l' hl' => ?_⟩
        · exact hsize (sf, b.best) (mem_places.2 ⟨hsf, hl⟩) (decide_eq_true hcomes)
        · rw [hactive] at hl'
          exact (rank_le_iff s b.best l').1 (hbest ▸ hle l' hl')

/-! ## Two slotframes at one timeslot -/

def stateAfter (actions : List (Action Nat)) : State Nat :=
  ((exec (step smallConfig) (World.init smallConfig true true) actions).getD (World.init smallConfig true true)).state

theorem stateAfter_valid (actions : List (Action Nat)) : (stateAfter actions).sched.Valid := by
  unfold stateAfter
  cases h : exec (step smallConfig) (World.init smallConfig true true) actions with
  | none => exact run_valid smallConfig true true [] rfl
  | some w => exact run_valid smallConfig true true actions h

def sameTimeslot : List (Action Nat) :=
  [.addSlotframe 0 2, .addSlotframe 1 2, .addLink 0 (LINK_OPTION_TX ||| LINK_OPTION_RX) .normal none 0 0 true true,
    .addLink 1 LINK_OPTION_RX .normal none 0 0 true true]

theorem next_active_link_sameTimeslot : (stateAfter sameTimeslot).sched.Valid ∧
    ((tschScheduleGetNextActiveLink false (stateAfter sameTimeslot) ⟨0, 0⟩).link = none ↔
      false = true ∨ (stateAfter sameTimeslot).sched.links = []) :=
  ⟨stateAfter_valid sameTimeslot, (next_active_link _ (stateAfter_valid sameTimeslot) false ⟨0, 0⟩).1⟩

/-- A schedule that is locked has links, and none is returned. -/
theorem locked_no_link : (stateAfter sameTimeslot).sched.Valid ∧
    ¬ ((tschScheduleGetNextActiveLink true (stateAfter sameTimeslot) ⟨0, 0⟩).link = none ↔
      (stateAfter sameTimeslot).sched.links = []) :=
  ⟨stateAfter_valid sameTimeslot, by decide⟩

end

end Contiki.Tsch
