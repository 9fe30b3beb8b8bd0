/-
`rpl_ext_header_srh_update` with the positions of the packet that it reads and writes and the addresses that
`srh_is_valid` decodes. The number of addresses is computed in 8 bits, and one factor of compression is used for all
that are looked at.
-/
import Contiki.RplLite.SrhHops
import Contiki.Lib.Cursor

namespace Contiki.RplLite.Traced

open Contiki.Lib Contiki.Core

/-! ## Accesses -/

/-- The positions read and written so far, and the addresses decoded, each with its `cmpr`. -/
structure Log where
  reads : List Nat
  writes : List Nat
  decoded : List (Nat × Nat)

namespace Log

def empty : Log := ⟨[], [], []⟩

def read (a n : Nat) (l : Log) : Log := { l with reads := l.reads ++ List.range' a n }

def write (a n : Nat) (l : Log) : Log := { l with writes := l.writes ++ List.range' a n }

/-- The `i`-th address is read at `a`. -/
def decode (i cmpr a : Nat) (l : Log) : Log := { l.read a (16 - cmpr) with decoded := l.decoded ++ [(i, cmpr)] }

/-- The fields of the header at `rh` that `parseSrh` reads. -/
def fields (rh : Nat) (l : Log) : Log := (l.read (rh + 1) 1).read (rh + 3) 3

def dest (l : Log) : Log := l.read 24 16

end Log

/-! ## The functions -/

/-- Where the `i`-th address begins. -/
def slot (rh cmpri i : Nat) : Nat := rh + (rhLen + srhLen + i * (16 - cmpri))

/-- The loop of `srh_is_valid`. -/
@[grind =]
def validLoop (iface : Iface) (buf : Mem) (rh cmpri cmpr : Nat) : Nat → Nat → Ipaddr → Bool → Nat → Log → Bool × Log
  | 0, _, _, _, _, l => (true, l)
  | todo + 1, i, hopAddr, prevHopIsMyAddr, myAddrCount, l =>
    if iface.bufSize < slot rh cmpri i + 16 - cmpr then
      (false, l)
    else
      let l := l.decode i cmpr (slot rh cmpri i)
      let hopAddr := spliceAddr hopAddr cmpr fun j => buf (slot rh cmpri i + j)
      let mine := iface.isMyAddr hopAddr || iface.isMyMaddr hopAddr
      let myAddrCount := if mine then myAddrCount + 1 else myAddrCount
      if mine = true ∧ prevHopIsMyAddr = false ∧ 1 < myAddrCount then
        (false, l)
      else if isAddrMcast hopAddr || isAddrUnspecified hopAddr || isAddrLoopback hopAddr then
        (false, l)
      else
        validLoop iface buf rh cmpri cmpr todo (i + 1) hopAddr mine myAddrCount l

def srhIsValid (iface : Iface) (u : Uip) (rh : Nat) (l : Log) : Bool × Log :=
  let srh := parseSrh u.buf rh
  let first := srh.pathLen - srh.segmentsLeft
  validLoop iface u.buf rh srh.cmpri srh.cmpr (srh.pathLen - first) first u.destipaddr false 0 (l.dest.fields rh)

/-- `rpl_ext_header_srh_update` from where the header has been found. -/
def updateAt (iface : Iface) (u : Uip) (rh : Nat) : Option Uip × Log :=
  let l := Log.empty.read (rh + 2) 1
  if u.buf (rh + 2) ≠ rhTypeSrh then
    (none, l)
  else
    let srh := parseSrh u.buf rh
    let l := l.fields rh
    if srh.segmentsLeft = 0 then
      (some u, l)
    else if srh.pathLen < srh.segmentsLeft then
      (none, l)
    else
      let r := srhIsValid iface u rh l
      if r.1 = false then
        (none, r.2)
      else
        let addrPtr := slot rh srh.cmpri (srh.pathLen - srh.segmentsLeft)
        if iface.bufSize < addrPtr + 16 - srh.cmpr then
          (none, r.2)
        else
          let l := ((r.2.dest.read addrPtr (16 - srh.cmpr)).write (24 + srh.cmpr) (16 - srh.cmpr)).write addrPtr (16 - srh.cmpr)
          (some { u with buf := swapDest u.buf rh addrPtr srh.cmpr srh.segmentsLeft }, (l.read (rh + 3) 1).write (rh + 3) 1)

def rplExtHeaderSrhUpdate (iface : Iface) (u : Uip) : Option Uip × Log :=
  match searchHeader u.buf u.len protoRouting with
  | none => (none, .empty)
  | some rh => updateAt iface u rh

variable {iface : Iface} {buf : Mem} {u : Uip} {rh cmpri cmpr : Nat}

/-! ## Without the accesses -/

theorem validLoop_fst : ∀ (todo i : Nat) (hop : Ipaddr) (prev : Bool) (n : Nat) (l : Log),
    (validLoop iface buf rh cmpri cmpr todo i hop prev n l).1 =
      RplLite.validLoop iface buf rh cmpri cmpr todo i hop prev n
  | 0, _, _, _, _, _ => rfl
  | todo + 1, i, hop, prev, n, l => by
    rw [validLoop, RplLite.validLoop]
    dsimp only
    unfold slot
    by_cases hroom : iface.bufSize < rh + (rhLen + srhLen + i * (16 - cmpri)) + 16 - cmpr
    · rw [if_pos hroom, if_pos hroom]
    · rw [if_neg hroom, if_neg hroom]
      generalize (spliceAddr hop cmpr fun j => buf (rh + (rhLen + srhLen + i * (16 - cmpri)) + j)) = hop'
      generalize (iface.isMyAddr hop' || iface.isMyMaddr hop') = mine
      generalize (if mine = true then n + 1 else n) = n'
      split_ifs
      · rfl
      · rfl
      · exact validLoop_fst todo (i + 1) _ _ _ _

theorem srhIsValid_fst (l : Log) : (srhIsValid iface u rh l).1 = RplLite.srhIsValid iface u rh := validLoop_fst ..

theorem rplExtHeaderSrhUpdate_fst (iface : Iface) (u : Uip) :
    (rplExtHeaderSrhUpdate iface u).1 = RplLite.rplExtHeaderSrhUpdate iface u := by
  unfold rplExtHeaderSrhUpdate RplLite.rplExtHeaderSrhUpdate
  cases searchHeader u.buf u.len protoRouting with
  | none => rfl
  | some rh =>
    unfold updateAt
    dsimp only
    rw [srhIsValid_fst]
    unfold slot
    split_ifs <;> rfl

/-! ## How far the checks go -/

/-- The addresses from the `i`-th on, as they are decoded one into the other. -/
@[grind =]
def hopsFrom (buf : Mem) (rh cmpri cmpr : Nat) : Nat → Nat → Ipaddr → List Ipaddr
  | 0, _, _ => []
  | todo + 1, i, hop =>
    let hop := spliceAddr hop cmpr fun j => buf (slot rh cmpri i + j)
    hop :: hopsFrom buf rh cmpri cmpr todo (i + 1) hop

/-- The `i`-th address lies in `uip_buf`. -/
def InBuf (iface : Iface) (rh cmpri cmpr i : Nat) : Prop := slot rh cmpri i + (16 - cmpr) ≤ iface.bufSize

/-- The checks come to the address `j` places on: those before it are accepted, and it lies in `uip_buf`. -/
def ComesTo (iface : Iface) (buf : Mem) (rh cmpri cmpr i j : Nat) (hop : Ipaddr) (prev : Bool) (n : Nat) : Prop :=
  accepts iface (hopsFrom buf rh cmpri cmpr j i hop) prev n = true ∧ InBuf iface rh cmpri cmpr (i + j)

theorem slot_mono {i j : Nat} (h : i ≤ j) : slot rh cmpri i ≤ slot rh cmpri j := by
  have := Nat.mul_le_mul_right (16 - cmpri) h
  unfold slot
  omega

theorem InBuf.of_le {i j : Nat} (h : InBuf iface rh cmpri cmpr j) (hij : i ≤ j) : InBuf iface rh cmpri cmpr i := by
  have := @slot_mono rh cmpri _ _ hij
  unfold InBuf at h ⊢
  omega

/-- What the loop adds: the addresses that it comes to, and nothing else. -/
structure Checked (iface : Iface) (buf : Mem) (rh cmpri cmpr todo i : Nat) (hop : Ipaddr) (prev : Bool) (n : Nat)
    (l : Log) (r : Bool × Log) : Prop where
  reads : ∀ x, x ∈ r.2.reads ↔ x ∈ l.reads ∨ ∃ j < todo, ComesTo iface buf rh cmpri cmpr i j hop prev n ∧
    slot rh cmpri (i + j) ≤ x ∧ x < slot rh cmpri (i + j) + (16 - cmpr)
  decoded : ∀ d, d ∈ r.2.decoded ↔ d ∈ l.decoded ∨ ∃ j < todo, ComesTo iface buf rh cmpri cmpr i j hop prev n ∧
    d = (i + j, cmpr)
  writes : r.2.writes = l.writes
  passed : r.1 = true ↔ accepts iface (hopsFrom buf rh cmpri cmpr todo i hop) prev n = true ∧
    ∀ j < todo, InBuf iface rh cmpri cmpr (i + j)

theorem Checked.stops {todo i : Nat} {hop : Ipaddr} {prev : Bool} {n : Nat} {l : Log}
    (hin : InBuf iface rh cmpri cmpr i)
    (hbad : ∀ k, accepts iface (hopsFrom buf rh cmpri cmpr (k + 1) i hop) prev n = false) :
    Checked iface buf rh cmpri cmpr (todo + 1) i hop prev n l (false, l.decode i cmpr (slot rh cmpri i)) := by
  have hfirst : ComesTo iface buf rh cmpri cmpr i 0 hop prev n := ⟨rfl, hin⟩
  have hlater : ∀ j, ¬ComesTo iface buf rh cmpri cmpr i (j + 1) hop prev n := by
    rintro j ⟨h, -⟩
    rw [hbad j] at h
    cases h
  refine ⟨fun x => ?_, fun d => ?_, rfl, ?_⟩
  · rw [Nat.exists_lt_succ_left]
    simp only [hlater, false_and, and_false, exists_false, or_false, hfirst, true_and, Nat.add_zero]
    show x ∈ l.reads ++ List.range' _ _ ↔ _
    rw [List.mem_append, List.mem_range'_1]
  · rw [Nat.exists_lt_succ_left]
    simp only [hlater, false_and, and_false, exists_false, or_false, hfirst, true_and, Nat.add_zero]
    show d ∈ l.decoded ++ [(i, cmpr)] ↔ _
    rw [List.mem_append, List.mem_singleton]
  · rw [hbad todo]
    simp

theorem validLoop_checked : ∀ (todo i : Nat) (hop : Ipaddr) (prev : Bool) (n : Nat) (l : Log), cmpr ≤ 15 →
    Checked iface buf rh cmpri cmpr todo i hop prev n l (validLoop iface buf rh cmpri cmpr todo i hop prev n l)
  | 0, i, hop, prev, n, l, _ => by
    refine ⟨fun x => ?_, fun d => ?_, rfl, ?_⟩
    · simp [validLoop]
    · simp [validLoop]
    · simp [validLoop, hopsFrom, accepts]
  | todo + 1, i, hop, prev, n, l, hc => by
    rw [validLoop]
    by_cases hroom : iface.bufSize < slot rh cmpri i + 16 - cmpr
    · rw [if_pos hroom]
      have hout : ∀ j, ¬InBuf iface rh cmpri cmpr (i + j) := by
        rintro j hj
        have := hj.of_le (Nat.le_add_right i j)
        unfold InBuf at this
        omega
      refine ⟨fun x => ?_, fun d => ?_, rfl, ?_⟩
      · simp [ComesTo, hout]
      · simp [ComesTo, hout]
      · simp only [Bool.false_eq_true, false_iff, not_and, not_forall]
        exact fun _ => ⟨0, Nat.succ_pos _, hout 0⟩
    rw [if_neg hroom]
    have hin : InBuf iface rh cmpri cmpr i := by
      unfold InBuf
      omega
    dsimp only
    generalize hhop : spliceAddr hop cmpr (fun j => buf (slot rh cmpri i + j)) = hop'
    generalize hmine : (iface.isMyAddr hop' || iface.isMyMaddr hop') = mine
    generalize hcount : (if mine = true then n + 1 else n) = n'
    have hstep : ∀ k, accepts iface (hopsFrom buf rh cmpri cmpr (k + 1) i hop) prev n =
        if mine = true ∧ prev = false ∧ 1 < n' then false
        else if isBadHop hop' then false
        else accepts iface (hopsFrom buf rh cmpri cmpr k (i + 1) hop') mine n' := by
      rintro k
      rw [hopsFrom, hhop, accepts]
      rw [hmine, hcount]
    by_cases hloop : mine = true ∧ prev = false ∧ 1 < n'
    · rw [if_pos hloop]
      exact Checked.stops hin fun k => by rw [hstep, if_pos hloop]
    rw [if_neg hloop]
    by_cases hbad : isBadHop hop' = true
    · have hbad' : (isAddrMcast hop' || isAddrUnspecified hop' || isAddrLoopback hop') = true := hbad
      rw [if_pos hbad']
      exact Checked.stops hin fun k => by rw [hstep, if_neg hloop, if_pos hbad]
    have hbad' : ¬(isAddrMcast hop' || isAddrUnspecified hop' || isAddrLoopback hop') = true := hbad
    rw [if_neg hbad']
    -- the address is accepted: the rest of the loop is a loop from the next one on
    have ih := validLoop_checked todo (i + 1) hop' mine n' (l.decode i cmpr (slot rh cmpri i)) hc
    have hfirst : ComesTo iface buf rh cmpri cmpr i 0 hop prev n := ⟨rfl, hin⟩
    have hlater : ∀ j, ComesTo iface buf rh cmpri cmpr i (j + 1) hop prev n ↔
        ComesTo iface buf rh cmpri cmpr (i + 1) j hop' mine n' := by
      rintro j
      unfold ComesTo
      rw [hstep, if_neg hloop, if_neg hbad, Nat.add_right_comm i 1 j]
      rfl
    have hplace : ∀ j, i + (j + 1) = i + 1 + j := fun j => by omega
    have hslot : ∀ j, slot rh cmpri (i + (j + 1)) = slot rh cmpri (i + 1 + j) := fun j => by rw [hplace]
    have hpair : ∀ j, (i + (j + 1), cmpr) = (i + 1 + j, cmpr) := fun j => by rw [hplace]
    have hbuf : ∀ j, InBuf iface rh cmpri cmpr (i + (j + 1)) ↔ InBuf iface rh cmpri cmpr (i + 1 + j) :=
      fun j => by rw [hplace]
    refine ⟨fun x => ?_, fun d => ?_, ih.writes, ?_⟩
    · rw [ih.reads, Nat.exists_lt_succ_left]
      simp only [hlater, hfirst, true_and, Nat.add_zero, hslot]
      have hread : x ∈ (l.decode i cmpr (slot rh cmpri i)).reads ↔
          x ∈ l.reads ∨ slot rh cmpri i ≤ x ∧ x < slot rh cmpri i + (16 - cmpr) := by
        show x ∈ l.reads ++ List.range' _ _ ↔ _
        rw [List.mem_append, List.mem_range'_1]
      rw [hread, or_assoc]
    · rw [ih.decoded, Nat.exists_lt_succ_left]
      simp only [hlater, hfirst, true_and, Nat.add_zero, hpair]
      have hdecode : d ∈ (l.decode i cmpr (slot rh cmpri i)).decoded ↔ d ∈ l.decoded ∨ d = (i, cmpr) := by
        show d ∈ l.decoded ++ [(i, cmpr)] ↔ _
        rw [List.mem_append, List.mem_singleton]
      rw [hdecode, or_assoc]
    · rw [ih.passed, hstep, if_neg hloop, if_neg hbad, Nat.forall_lt_succ_left]
      simp only [Nat.add_zero, hin, true_and, hbuf]

/-! ## Packets with a routing header -/

/-- A packet with a source routing header at `rh`, at a node. -/
structure SrhPacket where
  iface : Iface
  u : Uip
  rh : Nat
  found : searchHeader u.buf u.len protoRouting = some rh
  typed : u.buf (rh + 2) = rhTypeSrh

namespace SrhPacket

variable (d : SrhPacket)

def srh : Srh := parseSrh d.u.buf d.rh

def size : Nat := (d.u.buf (d.rh + 1)).toNat * 8 + 8

def addresses : Nat :=
  let padding := (d.u.buf (d.rh + 5)).toNat / 16
  let room := (d.u.buf (d.rh + 1)).toNat * 8
  if padding + (16 - d.srh.cmpre) ≤ room then (room - padding - (16 - d.srh.cmpre)) / (16 - d.srh.cmpri) + 1 else 0

/-- The compression of the `i`-th address. -/
def cmprOf (i : Nat) : Nat := if i + 1 = d.addresses then d.srh.cmpre else d.srh.cmpri

/-- The destination address and the routing header. -/
def Own (x : Nat) : Prop := 24 ≤ x ∧ x < 40 ∨ d.rh ≤ x ∧ x < d.rh + d.size

structure Safe : Prop where
  reads : ∀ x ∈ (rplExtHeaderSrhUpdate d.iface d.u).2.reads, d.Own x
  writes : ∀ x ∈ (rplExtHeaderSrhUpdate d.iface d.u).2.writes, d.Own x
  accepted : (rplExtHeaderSrhUpdate d.iface d.u).1.isSome → d.srh.segmentsLeft ≤ d.addresses
  decoded : ∀ e ∈ (rplExtHeaderSrhUpdate d.iface d.u).2.decoded, e.2 = d.cmprOf e.1

def first : Nat := d.srh.pathLen - d.srh.segmentsLeft

/-- The checks come to the address `j` places behind the first. -/
def Reaches (j : Nat) : Prop :=
  ComesTo d.iface d.u.buf d.rh d.srh.cmpri d.srh.cmpr d.first j d.u.destipaddr false 0

/-- All addresses are accepted, and lie in `uip_buf`. -/
def Passes : Prop :=
  accepts d.iface (hopsFrom d.u.buf d.rh d.srh.cmpri d.srh.cmpr d.srh.segmentsLeft d.first d.u.destipaddr) false 0 = true ∧
    ∀ j < d.srh.segmentsLeft, InBuf d.iface d.rh d.srh.cmpri d.srh.cmpr (d.first + j)

/-- No address is looked at; or those that the checks come to lie in the header and are compressed by the factor that is
used, and there are enough of them if they are all accepted. -/
def Sound : Prop :=
  d.srh.segmentsLeft = 0 ∨ d.srh.pathLen < d.srh.segmentsLeft ∨
    (∀ j < d.srh.segmentsLeft, d.Reaches j →
      slot d.rh d.srh.cmpri (d.first + j) + (16 - d.srh.cmpr) ≤ d.rh + d.size ∧ d.srh.cmpr = d.cmprOf (d.first + j)) ∧
    (d.Passes → d.srh.segmentsLeft ≤ d.addresses)

variable {d}

/-! ### Where the header is -/

theorem getNextHeader_after {buf : Mem} {pos size next : Nat} {start : Bool} {proto : UInt8}
    (h : getNextHeader buf pos size start = (proto, some next)) : pos ≤ next ∧ (start = true → iphLen ≤ next) := by
  unfold getNextHeader at h
  dsimp only at h
  split_ifs at h
  all_goals
    cases h
  all_goals
    refine ⟨by omega, fun _ => ?_⟩
    first | contradiction | omega

theorem searchLoop_after {buf : Mem} {size : Nat} {proto : UInt8} : ∀ {fuel : Nat} {p : UInt8} {pos rh : Nat},
    searchLoop buf size proto fuel (p, some pos) = some rh → pos ≤ rh
  | 0, _, _, _, h => by cases h
  | fuel + 1, p, pos, rh, h => by
    rw [searchLoop] at h
    split_ifs at h
    · cases h
      exact Nat.le_refl _
    · rcases hnext : getNextHeader buf pos (size - pos) false with ⟨p', _ | next⟩
      · rw [hnext] at h
        cases fuel <;> cases h
      · rw [hnext] at h
        exact Nat.le_trans (getNextHeader_after hnext).1 (searchLoop_after h)

theorem rh_le (d : SrhPacket) : 40 ≤ d.rh := by
  have h := d.found
  unfold searchHeader at h
  rcases hnext : getNextHeader d.u.buf 0 d.u.len true with ⟨p, _ | next⟩
  · rw [hnext] at h
    cases h
  · rw [hnext] at h
    exact Nat.le_trans ((getNextHeader_after hnext).2 rfl) (searchLoop_after h)

theorem cmpr_le (d : SrhPacket) : d.srh.cmpr ≤ 15 := by
  have hb := (d.u.buf (d.rh + 4)).toNat_lt
  have hi : d.srh.cmpri = (d.u.buf (d.rh + 4)).toNat / 16 := rfl
  have he : d.srh.cmpre = (d.u.buf (d.rh + 4)).toNat % 16 := rfl
  unfold Srh.cmpr
  split_ifs <;> omega

/-! ### The accesses -/

theorem own_header {a n : Nat} (h : a + n ≤ 8) : ∀ x, d.rh + a ≤ x → x < d.rh + a + n → d.Own x := by
  rintro x h1 h2
  refine .inr ⟨by omega, ?_⟩
  unfold size
  omega

theorem own_dest : ∀ x, 24 ≤ x → x < 24 + 16 → d.Own x := fun _ h1 h2 => .inl ⟨h1, h2⟩

theorem own_slot {a n : Nat} (h8 : d.rh + 8 ≤ a) (hn : 0 < n) :
    (∀ x, a ≤ x → x < a + n → d.Own x) ↔ a + n ≤ d.rh + d.size := by
  have hrh := d.rh_le
  constructor
  · intro h
    rcases h (a + n - 1) (by omega) (by omega) with hdest | hheader
    · omega
    · omega
  · rintro h x h1 h2
    exact .inr ⟨by omega, by omega⟩

theorem slot_le (d : SrhPacket) (i : Nat) : d.rh + 8 ≤ slot d.rh d.srh.cmpri i := by
  unfold slot rhLen srhLen
  omega

/-- All that was read and written belongs to the call. -/
def Within (d : SrhPacket) (l : Log) : Prop := (∀ x ∈ l.reads, d.Own x) ∧ ∀ x ∈ l.writes, d.Own x

theorem within_read {l : Log} {a n : Nat} : d.Within (l.read a n) ↔ d.Within l ∧ ∀ x, a ≤ x → x < a + n → d.Own x := by
  unfold Within Log.read
  dsimp only
  simp only [List.mem_append, List.mem_range'_1, or_imp, forall_and, and_imp]
  tauto

theorem within_write {l : Log} {a n : Nat} :
    d.Within (l.write a n) ↔ d.Within l ∧ ∀ x, a ≤ x → x < a + n → d.Own x := by
  unfold Within Log.write
  dsimp only
  simp only [List.mem_append, List.mem_range'_1, or_imp, forall_and, and_imp]
  tauto

theorem within_fields {l : Log} : d.Within (l.fields d.rh) ↔ d.Within l := by
  unfold Log.fields
  rw [within_read, within_read]
  exact ⟨fun h => h.1.1, fun h => ⟨⟨h, own_header (by omega)⟩, own_header (by omega)⟩⟩

theorem within_dest {l : Log} : d.Within l.dest ↔ d.Within l := by
  unfold Log.dest
  rw [within_read]
  exact ⟨And.left, fun h => ⟨h, own_dest⟩⟩

def opened (d : SrhPacket) : Log := (((Log.empty.read (d.rh + 2) 1).fields d.rh).dest).fields d.rh

theorem opened_within (d : SrhPacket) : d.Within d.opened := by
  unfold opened
  rw [within_fields, within_dest, within_fields, within_read]
  refine ⟨⟨?_, ?_⟩, own_header (by omega)⟩ <;> rintro x ⟨⟩

def checked (d : SrhPacket) : Bool × Log :=
  validLoop d.iface d.u.buf d.rh d.srh.cmpri d.srh.cmpr d.srh.segmentsLeft d.first d.u.destipaddr false 0 d.opened

theorem checked_spec (d : SrhPacket) : Checked d.iface d.u.buf d.rh d.srh.cmpri d.srh.cmpr d.srh.segmentsLeft d.first
    d.u.destipaddr false 0 d.opened d.checked := validLoop_checked _ _ _ _ _ _ d.cmpr_le

theorem checked_within : d.Within d.checked.2 ↔
    ∀ j < d.srh.segmentsLeft, d.Reaches j → slot d.rh d.srh.cmpri (d.first + j) + (16 - d.srh.cmpr) ≤ d.rh + d.size := by
  have hc := d.cmpr_le
  obtain ⟨hreads, -, hwrites, -⟩ := d.checked_spec
  obtain ⟨hr, hw⟩ := d.opened_within
  constructor
  · rintro ⟨h, -⟩ j hj hreach
    rw [← own_slot (d.slot_le _) (by omega)]
    rintro x h1 h2
    exact h x ((hreads x).2 (.inr ⟨j, hj, hreach, h1, h2⟩))
  · intro h
    refine ⟨fun x hx => ?_, hwrites ▸ hw⟩
    rcases (hreads x).1 hx with hx | ⟨j, hj, hreach, h1, h2⟩
    · exact hr x hx
    · exact (own_slot (d.slot_le _) (by omega)).2 (h j hj hreach) x h1 h2

theorem checked_decoded : (∀ e ∈ d.checked.2.decoded, e.2 = d.cmprOf e.1) ↔
    ∀ j < d.srh.segmentsLeft, d.Reaches j → d.srh.cmpr = d.cmprOf (d.first + j) := by
  obtain ⟨-, hdecoded, -, -⟩ := d.checked_spec
  constructor
  · rintro h j hj hreach
    exact h _ ((hdecoded _).2 (.inr ⟨j, hj, hreach, rfl⟩))
  · rintro h e he
    rcases (hdecoded e).1 he with he | ⟨j, hj, hreach, rfl⟩
    · cases he
    · exact h j hj hreach

def exchanged (d : SrhPacket) (l : Log) : Log :=
  let addrPtr := slot d.rh d.srh.cmpri d.first
  let l := ((l.dest.read addrPtr (16 - d.srh.cmpr)).write (24 + d.srh.cmpr) (16 - d.srh.cmpr)).write addrPtr (16 - d.srh.cmpr)
  (l.read (d.rh + 3) 1).write (d.rh + 3) 1

theorem exchanged_within {l : Log} : d.Within (d.exchanged l) ↔
    d.Within l ∧ slot d.rh d.srh.cmpri d.first + (16 - d.srh.cmpr) ≤ d.rh + d.size := by
  have hc := d.cmpr_le
  have hdest : ∀ x, 24 + d.srh.cmpr ≤ x → x < 24 + d.srh.cmpr + (16 - d.srh.cmpr) → d.Own x :=
    fun x h1 h2 => .inl ⟨by omega, by omega⟩
  unfold exchanged
  dsimp only
  rw [within_write, within_read, within_write, within_write, within_read, within_dest,
    own_slot (d.slot_le _) (by omega)]
  constructor
  · rintro ⟨⟨⟨⟨⟨h, hslot⟩, -⟩, -⟩, -⟩, -⟩
    exact ⟨h, hslot⟩
  · rintro ⟨h, hslot⟩
    exact ⟨⟨⟨⟨⟨h, hslot⟩, hdest⟩, hslot⟩, own_header (by omega)⟩, own_header (by omega)⟩

/-! ### The whole function -/

theorem update_early (h : d.srh.segmentsLeft = 0 ∨ d.srh.pathLen < d.srh.segmentsLeft) :
    ∃ r, rplExtHeaderSrhUpdate d.iface d.u = (r, (Log.empty.read (d.rh + 2) 1).fields d.rh) ∧
      (r.isSome → d.srh.segmentsLeft = 0) := by
  unfold rplExtHeaderSrhUpdate
  rw [d.found]
  unfold updateAt
  dsimp only
  rw [if_neg (by simp [d.typed])]
  by_cases h0 : d.srh.segmentsLeft = 0
  · have h0' : (parseSrh d.u.buf d.rh).segmentsLeft = 0 := h0
    rw [if_pos h0']
    exact ⟨_, rfl, fun _ => h0⟩
  · have h0' : ¬(parseSrh d.u.buf d.rh).segmentsLeft = 0 := h0
    have hlt : (parseSrh d.u.buf d.rh).pathLen < (parseSrh d.u.buf d.rh).segmentsLeft := h.resolve_left h0
    rw [if_neg h0', if_pos hlt]
    refine ⟨_, rfl, ?_⟩
    rintro ⟨⟩

theorem update_checked (h0 : d.srh.segmentsLeft ≠ 0) (hle : ¬d.srh.pathLen < d.srh.segmentsLeft) :
    rplExtHeaderSrhUpdate d.iface d.u =
      if d.checked.1 = true then
        (some { d.u with buf := swapDest d.u.buf d.rh (slot d.rh d.srh.cmpri d.first) d.srh.cmpr d.srh.segmentsLeft },
          d.exchanged d.checked.2)
      else (none, d.checked.2) := by
  have hc := d.cmpr_le
  have hvalid : srhIsValid d.iface d.u d.rh ((Log.empty.read (d.rh + 2) 1).fields d.rh) = d.checked := by
    unfold srhIsValid checked opened
    have htodo : (parseSrh d.u.buf d.rh).pathLen - ((parseSrh d.u.buf d.rh).pathLen - (parseSrh d.u.buf d.rh).segmentsLeft) =
        (parseSrh d.u.buf d.rh).segmentsLeft := Nat.sub_sub_self (Nat.le_of_not_lt hle)
    dsimp only
    rw [htodo]
    rfl
  have h0' : ¬(parseSrh d.u.buf d.rh).segmentsLeft = 0 := h0
  have hle' : ¬(parseSrh d.u.buf d.rh).pathLen < (parseSrh d.u.buf d.rh).segmentsLeft := hle
  unfold rplExtHeaderSrhUpdate
  rw [d.found]
  unfold updateAt
  dsimp only
  rw [if_neg (by simp [d.typed]), if_neg h0', if_neg hle', hvalid]
  cases hp : d.checked.1 with
  | false => rw [if_pos rfl, if_neg Bool.false_ne_true]
  | true =>
    have hin : InBuf d.iface d.rh d.srh.cmpri d.srh.cmpr (d.first + 0) :=
      (d.checked_spec.passed.1 hp).2 0 (Nat.pos_of_ne_zero h0)
    have hroom : ¬d.iface.bufSize < slot d.rh (parseSrh d.u.buf d.rh).cmpri
        ((parseSrh d.u.buf d.rh).pathLen - (parseSrh d.u.buf d.rh).segmentsLeft) + 16 - (parseSrh d.u.buf d.rh).cmpr := by
      unfold InBuf at hin
      have hc' : (parseSrh d.u.buf d.rh).cmpr ≤ 15 := hc
      have hin' : slot d.rh (parseSrh d.u.buf d.rh).cmpri
        ((parseSrh d.u.buf d.rh).pathLen - (parseSrh d.u.buf d.rh).segmentsLeft) + (16 - (parseSrh d.u.buf d.rh).cmpr) ≤
          d.iface.bufSize := hin
      omega
    rw [if_neg (by simp), if_neg hroom, if_pos rfl]
    rfl

end SrhPacket

/-- What the function does is safe exactly when the packet is sound. -/
theorem srh_update_safe (d : SrhPacket) : d.Safe ↔ d.Sound := by
  unfold SrhPacket.Sound
  by_cases hearly : d.srh.segmentsLeft = 0 ∨ d.srh.pathLen < d.srh.segmentsLeft
  · obtain ⟨r, hr, hsome⟩ := SrhPacket.update_early hearly
    have hwithin : d.Within ((Log.empty.read (d.rh + 2) 1).fields d.rh) := by
      rw [SrhPacket.within_fields, SrhPacket.within_read]
      refine ⟨⟨?_, ?_⟩, SrhPacket.own_header (by omega)⟩ <;> rintro x ⟨⟩
    refine iff_of_true ?_ (hearly.imp id .inl)
    refine ⟨?_, ?_, ?_, ?_⟩
    · rw [hr]
      exact hwithin.1
    · rw [hr]
      exact hwithin.2
    · rw [hr]
      intro h
      rw [hsome h]
      exact Nat.zero_le _
    · rw [hr]
      rintro e ⟨⟩
  rw [not_or] at hearly
  obtain ⟨h0, hle⟩ := hearly
  have hpos := Nat.pos_of_ne_zero h0
  have hupdate := SrhPacket.update_checked h0 hle
  have hpassed : d.checked.1 = true ↔ d.Passes := d.checked_spec.passed
  have hfirst : d.Passes → d.Reaches 0 := fun h => ⟨rfl, h.2 0 hpos⟩
  rw [or_iff_right h0, or_iff_right hle]
  cases hp : d.checked.1 with
  | true =>
    rw [hp, if_pos rfl] at hupdate
    have hpass := hpassed.1 hp
    have hexchanged : d.Within (d.exchanged d.checked.2) ↔ d.Within d.checked.2 := by
      rw [SrhPacket.exchanged_within]
      exact ⟨And.left, fun h => ⟨h, SrhPacket.checked_within.1 h 0 hpos (hfirst hpass)⟩⟩
    constructor
    · rintro ⟨hreads, hwrites, haccepted, hdecoded⟩
      rw [hupdate] at hreads hwrites haccepted hdecoded
      have hin := SrhPacket.checked_within.1 (hexchanged.1 ⟨hreads, hwrites⟩)
      have hdec := SrhPacket.checked_decoded.1 hdecoded
      exact ⟨fun j hj hr => ⟨hin j hj hr, hdec j hj hr⟩, fun _ => haccepted rfl⟩
    · rintro ⟨hall, henough⟩
      have hin := hexchanged.2 (SrhPacket.checked_within.2 fun j hj hr => (hall j hj hr).1)
      have hdec := SrhPacket.checked_decoded.2 fun j hj hr => (hall j hj hr).2
      refine ⟨?_, ?_, ?_, ?_⟩
      · rw [hupdate]
        exact hin.1
      · rw [hupdate]
        exact hin.2
      · exact fun _ => henough hpass
      · rw [hupdate]
        exact hdec
  | false =>
    rw [hp, if_neg Bool.false_ne_true] at hupdate
    have hnot : ¬d.Passes := by
      rw [← hpassed, hp]
      exact Bool.false_ne_true
    constructor
    · rintro ⟨hreads, hwrites, -, hdecoded⟩
      rw [hupdate] at hreads hwrites hdecoded
      have hin := SrhPacket.checked_within.1 ⟨hreads, hwrites⟩
      have hdec := SrhPacket.checked_decoded.1 hdecoded
      exact ⟨fun j hj hr => ⟨hin j hj hr, hdec j hj hr⟩, fun h => absurd h hnot⟩
    · rintro ⟨hall, -⟩
      have hin := SrhPacket.checked_within.2 fun j hj hr => (hall j hj hr).1
      have hdec := SrhPacket.checked_decoded.2 fun j hj hr => (hall j hj hr).2
      refine ⟨?_, ?_, ?_, ?_⟩
      · rw [hupdate]
        exact hin.1
      · rw [hupdate]
        exact hin.2
      · rw [hupdate]
        rintro ⟨⟩
      · rw [hupdate]
        exact hdec

/-! ## A header that is too short -/

/-- A routing header of 16 bytes with one segment left and no compression: eight of the bytes of its address are those
of the UDP header behind it. -/
def shortHeader : SrhPacket where
  iface := ⟨fun _ => false, fun _ => false, 1280⟩
  u :=
    { buf := fun i => (([0x60, 0, 0, 0, 0, 24, 43, 64] ++ List.replicate 32 0xfd ++
        [17, 1, 3, 1, 0, 0, 0, 0, 0xfd, 0, 0, 0, 0, 0, 0, 0] ++ [0x16, 0x33, 0x16, 0x33, 0, 8, 0, 0] : List UInt8)).getD i 0
      len := 64
      extLen := 16 }
  rh := 40
  found := by decide
  typed := by decide

theorem shortHeader_reads : ¬shortHeader.Safe := by
  rintro ⟨hreads, -, -, -⟩
  have hown := hreads 60 (by decide)
  revert hown
  unfold SrhPacket.Own
  decide

end Contiki.RplLite.Traced
