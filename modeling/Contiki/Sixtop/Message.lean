/-
The round trip of a 6P message: the fields of its format, written with the setters in any order in which NumCells comes
before the lists of a RELOCATE request, framed with `sixp_pkt_create`, parsed, and read back with the getters.
-/
import Contiki.Sixtop.Bounds

namespace Contiki.Sixtop

open Contiki.Lib

/-! ## Fields with their values -/

/-- A field of a message and the value that is written into it; a list is given by its bytes. -/
inductive FieldValue
  | metadata (v : UInt16)
  | cellOptions (v : UInt8)
  | numCells (v : UInt8)
  | reserved (v : UInt8)
  | offset (v : UInt16)
  | maxNumCells (v : UInt16)
  | cellList (cells : List UInt8)
  | relCellList (cells : List UInt8)
  | candCellList (cells : List UInt8)
  | totalNumCells (v : UInt16)
  | payload (bytes : List UInt8)
  deriving DecidableEq

def memOf (l : List UInt8) : Mem := fun i => l.getD i 0

namespace FieldValue

@[grind =]
def set (v : FieldValue) (type : PktType) (code : PktCode) : Option Mem → Nat → Res Unit :=
  match v with
  | metadata v => Body.sixpPktSetMetadata type code v
  | cellOptions v => Body.sixpPktSetCellOptions type code v
  | numCells v => Body.sixpPktSetNumCells type code v
  | reserved v => Body.sixpPktSetReserved type code v
  | offset v => Body.sixpPktSetOffset type code v
  | maxNumCells v => Body.sixpPktSetMaxNumCells type code v
  | cellList l => Body.sixpPktSetCellList type code (some (memOf l)) l.length 0
  | relCellList l => Body.sixpPktSetRelCellList type code (some (memOf l)) l.length 0
  | candCellList l => Body.sixpPktSetCandCellList type code (some (memOf l)) l.length 0
  | totalNumCells v => Body.sixpPktSetTotalNumCells type code v
  | payload l => Body.sixpPktSetPayload type code (memOf l) l.length

def ListIs (r : Res Body.ListOut) (m : Mem) (l : List UInt8) : Prop :=
  r.ok = true ∧ ∃ p, r.out = ⟨some p, some l.length⟩ ∧ Mem.read p l.length m = l

/-- The getter returns the value, whatever the variable for it held; the buffer for a payload is as long as the
payload. -/
def Delivered (v : FieldValue) (type : PktType) (code : PktCode) (m : Mem) (bodyLen : Nat) : Prop :=
  match v with
  | metadata v => ∀ old, let r := Body.sixpPktGetMetadata type code (some old) (some m) bodyLen
    r.ok = true ∧ r.out = some v
  | cellOptions v => ∀ old, let r := Body.sixpPktGetCellOptions type code (some old) (some m) bodyLen
    r.ok = true ∧ r.out = some v
  | numCells v => ∀ old, let r := Body.sixpPktGetNumCells type code (some old) (some m) bodyLen
    r.ok = true ∧ r.out = some v
  | reserved v => ∀ old, let r := Body.sixpPktGetReserved type code (some old) (some m) bodyLen
    r.ok = true ∧ r.out = some v
  | offset v => ∀ old, let r := Body.sixpPktGetOffset type code (some old) (some m) bodyLen
    r.ok = true ∧ r.out = some v
  | maxNumCells v => ∀ old, let r := Body.sixpPktGetMaxNumCells type code (some old) (some m) bodyLen
    r.ok = true ∧ r.out = some v
  | cellList l => ∀ p k, ListIs (Body.sixpPktGetCellList type code ⟨some p, some k⟩ (some m) bodyLen) m l
  | relCellList l => ∀ p k, ListIs (Body.sixpPktGetRelCellList type code ⟨some p, some k⟩ (some m) bodyLen) m l
  | candCellList l => ∀ p k, ListIs (Body.sixpPktGetCandCellList type code ⟨some p, some k⟩ (some m) bodyLen) m l
  | totalNumCells v => ∀ old, let r := Body.sixpPktGetTotalNumCells type code (some old) (some m) bodyLen
    r.ok = true ∧ r.out = some v
  | payload l => ∀ buf : List UInt8, buf.length = l.length →
    let r := Body.sixpPktGetPayload type code (some buf) (some m) bodyLen
    r.ok = true ∧ r.out = some l

@[grind =]
def size : FieldValue → Nat
  | metadata _ | offset _ | maxNumCells _ | totalNumCells _ => 2
  | cellOptions _ | numCells _ | reserved _ => 1
  | cellList l | relCellList l | candCellList l | payload l => l.length

end FieldValue

/-! ## Messages -/

/-- The commands and return codes of the messages whose body may be empty. -/
def emptyCodes : List PktCode :=
  [Rc.success, Rc.eol, Rc.err, Rc.reset, Rc.errVersion, Rc.errSfid, Rc.errSeqnum, Rc.errCelllist, Rc.errBusy, Rc.errLocked]

/-- The formats of the 6P messages: the fields of each, in the order in which they stand in the body. `n` is the
NumCells, where the message has one. -/
inductive IsMessage : PktType → PktCode → UInt8 → List FieldValue → Prop
  | cells (code : PktCode) (hcode : code = Cmd.add ∨ code = Cmd.delete) (md : UInt16) (co n : UInt8) (l : List UInt8)
      (hl : l.length % 4 = 0) :
      IsMessage .request code n [.metadata md, .cellOptions co, .numCells n, .cellList l]
  | relocate (md : UInt16) (co n : UInt8) (rel cand : List UInt8) (hrel : rel.length = n.toNat * 4)
      (hcand : cand.length % 4 = 0) :
      IsMessage .request Cmd.relocate n
        [.metadata md, .cellOptions co, .numCells n, .relCellList rel, .candCellList cand]
  | count (md : UInt16) (co : UInt8) : IsMessage .request Cmd.count 0 [.metadata md, .cellOptions co]
  | list (md : UInt16) (co res : UInt8) (off max : UInt16) : IsMessage .request Cmd.list 0
      [.metadata md, .cellOptions co, .reserved res, .offset off, .maxNumCells max]
  | signal (md : UInt16) (l : List UInt8) : IsMessage .request Cmd.signal 0 [.metadata md, .payload l]
  | clear (md : UInt16) : IsMessage .request Cmd.clear 0 [.metadata md]
  | answer (type : PktType) (code : PktCode) (htype : type = .response ∨ type = .confirmation)
      (hcode : code = Rc.success ∨ code = Rc.eol) (l : List UInt8) (hl : l.length % 4 = 0) :
      IsMessage type code 0 [.cellList l]
  | total (v : UInt16) : IsMessage .response Rc.success 0 [.totalNumCells v]
  | payload (type : PktType) (htype : type = .response ∨ type = .confirmation) (l : List UInt8) :
      IsMessage type Rc.success 0 [.payload l]
  | empty (type : PktType) (code : PktCode) (htype : type = .response ∨ type = .confirmation)
      (hcode : code ∈ emptyCodes) : IsMessage type code 0 []

def bodyLength (vs : List FieldValue) : Nat := (vs.map FieldValue.size).sum

/-- The setters called in turn on a buffer of `len` bytes, while they return 0. -/
@[grind =]
def writeFields (type : PktType) (code : PktCode) (len : Nat) : List FieldValue → Mem → Option Mem
  | [], m => some m
  | v :: vs, m =>
    let r := v.set type code (some m) len
    if r.ok then r.body.bind (writeFields type code len vs) else none

/-- Each list of a RELOCATE request is written after NumCells. -/
def NumCellsFirst (n : UInt8) (vs : List FieldValue) : Prop :=
  ∀ pre post l, (vs = pre ++ .relCellList l :: post ∨ vs = pre ++ .candCellList l :: post) → .numCells n ∈ pre

/-- A body as `sixp_pkt_create` takes it: NULL where there are no bytes. -/
def bodyOf (m : Mem) (len : Nat) : Option (List UInt8) := if len = 0 then none else some (Mem.read 0 len m)

/-- The fields `ws`, written in this order into a buffer of `len` bytes: no setter fails or disturbs a field written
before, and the message that is framed is parsed with its type, code, SFID and SeqNum and delivers every value. -/
structure RoundTrip (type : PktType) (code : PktCode) (sfid seqno : UInt8) (ws : List FieldValue) (m : Mem)
    (len : Nat) : Prop where
  written : ∀ pre post, ws = pre ++ post → ∃ m', writeFields type code len pre m = some m' ∧
    ∀ w ∈ pre, w.Delivered type code m' (bodyLength ws)
  framed : ∃ m' frame pkt body, writeFields type code len ws m = some m' ∧
    sixpPktCreate type code sfid seqno (bodyOf m' (bodyLength ws)) = some frame ∧
    sixpPktParse frame = (true, pkt) ∧ pkt.type = type ∧ pkt.code = code ∧ pkt.sfid = sfid ∧ pkt.seqno = seqno ∧
    pkt.body = some body ∧ ∀ w ∈ ws, w.Delivered type code (memOf body) body.length

/-! ## One field -/

@[simp] theorem read_memOf (l : List UInt8) : Mem.read 0 l.length (memOf l) = l := by
  refine Mem.read_of_holds (Mem.holds_iff.2 fun i hi => ?_)
  simp [memOf, hi]

namespace FieldValue

/-- Where the field stands in a message with the NumCells `n`. -/
def place (v : FieldValue) (type : PktType) (code : PktCode) (n : UInt8) : Option Nat :=
  match v with
  | metadata _ => getMetadataOffset type code
  | cellOptions _ => getCellOptionsOffset type code
  | numCells _ => getNumCellsOffset type code
  | reserved _ => getReservedOffset type code
  | offset _ => getOffsetOffset type code
  | maxNumCells _ => getMaxNumCellsOffset type code
  | cellList _ => getCellListOffset type code
  | relCellList _ => getRelCellListOffset type code
  | candCellList _ => (getRelCellListOffset type code).map (· + n.toNat * 4)
  | totalNumCells _ => getTotalNumCellsOffset type code
  | payload _ => getPayloadOffset type code

/-- The value stands at `o`. -/
def Stored (v : FieldValue) (o : Nat) (m : Mem) : Prop :=
  match v with
  | metadata v | offset v | maxNumCells v | totalNumCells v => Mem.load 2 o m = v.toNat
  | cellOptions v | numCells v | reserved v => Mem.load 1 o m = v.toNat
  | cellList l | relCellList l | candCellList l | payload l => Mem.read o l.length m = l

/-- The lists of a RELOCATE request stand where the NumCells in the body puts them. -/
def Relocates : FieldValue → Prop
  | relCellList _ | candCellList _ => True
  | _ => False

/-- The value is one that the format of the field has: whole cells, and NumCells of them to relocate. -/
@[grind =]
def Formed (v : FieldValue) (n : UInt8) : Prop :=
  match v with
  | cellList l | candCellList l => l.length % 4 = 0
  | relCellList l => l.length = n.toNat * 4
  | _ => True

/-- Where the field ends in a body of `len` bytes: a field of variable length at the end of the body. -/
@[grind =]
def Ends (v : FieldValue) (o len : Nat) : Prop :=
  match v with
  | cellList l | candCellList l | payload l => o + l.length = len
  | relCellList l => o + l.length ≤ len ∧ (len - o) % 4 = 0
  | v => o + v.size ≤ len

variable {v : FieldValue}

theorem Ends.le {o len : Nat} (h : v.Ends o len) : o + v.size ≤ len := by
  cases v with
  | cellList l | candCellList l | payload l => exact le_of_eq h
  | relCellList l => exact h.1
  | _ => exact h

theorem Stored.congr {o : Nat} {m m' : Mem} (h : v.Stored o m)
    (hm : ∀ x, o ≤ x → x < o + v.size → m' x = m x) : v.Stored o m' := by
  cases v with
  | metadata w | offset w | maxNumCells w | totalNumCells w => exact (Mem.load_congr 2 o hm).trans h
  | cellOptions w | numCells w | reserved w => exact (Mem.load_congr 1 o hm).trans h
  | cellList l | relCellList l | candCellList l | payload l => exact (Mem.read_congr hm).trans h

/-- A setter returned 0: its value stands at its place, and the rest of the body is as it was. -/
def Sets (v : FieldValue) (o : Nat) (m : Mem) (r : Res Unit) : Prop :=
  r.ok = true ∧ ∃ m', r.body = some m' ∧ v.Stored o m' ∧ Mem.SameOutside o v.size m m'

theorem putField_sets {w : Nat} (o : Nat) (m : Mem) (hw : w < 256 ^ v.size)
    (hst : ∀ m', Mem.load v.size o m' = w → v.Stored o m') : v.Sets o m (Body.putField o v.size w m) :=
  ⟨rfl, _, rfl, hst _ (Mem.load_store_same _ _ _ m hw), Mem.store_sameOutside _ _ _ m⟩

theorem setField_sets {w o len : Nat} {offset : Option Nat} (m : Mem) (ho : offset = some o)
    (hlen : o + v.size ≤ len) (hw : w < 256 ^ v.size) (hst : ∀ m', Mem.load v.size o m' = w → v.Stored o m') :
    v.Sets o m (Body.setField offset v.size w (some m) len) := by
  subst ho
  rw [Body.setField, if_neg (by omega)]
  exact putField_sets o m hw hst

theorem paste_sets {l : List UInt8} (o : Nat) (m : Mem) (hsize : v.size = l.length)
    (hst : ∀ m', Mem.read o l.length m' = l → v.Stored o m') :
    v.Sets o m ⟨true, some (Mem.paste o l.length (memOf l) m), (), [], [⟨o, l.length⟩]⟩ := by
  refine ⟨rfl, _, rfl, hst _ ?_, fun x hx => Mem.paste_of_out (hsize ▸ hx)⟩
  have hread := @Mem.read_paste l.length o 0 m (memOf l)
  simp only [Nat.zero_add] at hread
  rw [hread, read_memOf]

theorem copyList_sets {l : List UInt8} (o : Nat) (m : Mem) (hsize : v.size = l.length)
    (hst : ∀ m', Mem.read o l.length m' = l → v.Stored o m') (hl : l.length % 4 = 0) :
    v.Sets o m (Body.copyList o (memOf l) l.length m) := by
  rw [Body.copyList, if_neg (by omega)]
  exact paste_sets o m hsize hst

theorem withNumCells_eq {α : Type} {type : PktType} {code : PktCode} {n : UInt8} {o len : Nat} {m : Mem} {out : α}
    {k : Nat → Nat → Res α} (ho : getRelCellListOffset type code = some o) (hnum : m 3 = n) (hlen : 4 ≤ len) :
    o = 4 ∧ Body.withNumCells type code out (some m) len k =
      { k n.toNat 4 with reads := ⟨3, 1⟩ :: (k n.toNat 4).reads } := by
  obtain ⟨rfl, _⟩ := getRelCellListOffset_some ho
  rcases Body.withNumCells_cases type code m len out k with ⟨_, _, _, hlt⟩ | ⟨_, _, he⟩
  · have := hlt (by rw [ho]; rfl)
    omega
  · rw [← hnum]
    exact ⟨rfl, he⟩

theorem set_spec {type : PktType} {code : PktCode} {n : UInt8} {o len : Nat} {m : Mem}
    (ho : v.place type code n = some o) (hform : v.Formed n) (hnum : v.Relocates → m 3 = n) (hlen : o + v.size ≤ len) :
    v.Sets o m (v.set type code (some m) len) := by
  cases v with
  | metadata w | offset w | maxNumCells w => exact setField_sets m ho hlen w.toNat_lt fun _ h => h
  | cellOptions w | reserved w => exact setField_sets m ho hlen w.toNat_lt fun _ h => h
  | numCells w =>
    have hset : (numCells w).set type code (some m) len = Body.putField o 1 w.toNat m := by
      simp only [place] at ho
      simp only [set, Body.sixpPktSetNumCells, ho]
    rw [hset]
    exact putField_sets o m w.toNat_lt fun _ h => h
  | totalNumCells w =>
    have hset : (totalNumCells w).set type code (some m) len = Body.putField o 2 w.toNat m := by
      simp only [place] at ho
      simp only [set, Body.sixpPktSetTotalNumCells, ho]
    rw [hset]
    exact putField_sets o m w.toNat_lt fun _ h => h
  | cellList l =>
    simp only [place] at ho
    simp only [size] at hlen
    simp only [set, Body.sixpPktSetCellList, ho, Nat.add_zero, Body.setList, if_neg (show ¬ len < o + l.length by omega)]
    exact copyList_sets o m rfl (fun _ h => h) hform
  | payload l =>
    simp only [place] at ho
    simp only [size] at hlen
    simp only [set, Body.sixpPktSetPayload, ho, if_neg (show ¬ len < o + l.length by omega)]
    exact paste_sets o m rfl fun _ h => h
  | relCellList l =>
    simp only [place] at ho
    simp only [size] at hlen
    obtain ⟨rfl, -⟩ := getRelCellListOffset_some ho
    have hl : l.length = n.toNat * 4 := hform
    simp only [set, Body.sixpPktSetRelCellList, (withNumCells_eq ho (hnum trivial) (show 4 ≤ len by omega)).2, Nat.add_zero,
      if_neg (show ¬ len < 4 + l.length by omega), if_neg (show ¬ 4 + l.length > 4 + n.toNat * 4 by omega)]
    obtain ⟨hok, m', hm'⟩ := copyList_sets (v := relCellList l) 4 m rfl (fun _ h => h) (show l.length % 4 = 0 by omega)
    exact ⟨hok, m', hm'⟩
  | candCellList l =>
    simp only [place] at ho
    obtain ⟨o', ho', rfl⟩ := Option.map_eq_some_iff.1 ho
    simp only [size] at hlen
    obtain ⟨rfl, -⟩ := getRelCellListOffset_some ho'
    simp only [set, Body.sixpPktSetCandCellList, (withNumCells_eq ho' (hnum trivial) (show 4 ≤ len by omega)).2,
      Nat.zero_add, Body.setList, if_neg (show ¬ len < 4 + n.toNat * 4 + l.length by omega)]
    obtain ⟨hok, m', hm'⟩ := copyList_sets (v := candCellList l) (4 + n.toNat * 4) m rfl (fun _ h => h) hform
    exact ⟨hok, m', hm'⟩

theorem getField_delivered {α : Type} {dec : Nat → α} {offset : Option Nat} {size o len : Nat} {m : Mem} {w : α} {x : Nat}
    (ho : offset = some o) (hlen : o + size ≤ len) (hload : Mem.load size o m = x) (hdec : dec x = w) (old : α) :
    (Body.getField dec offset size (some old) (some m) len).ok = true ∧
      (Body.getField dec offset size (some old) (some m) len).out = some w := by
  subst ho hdec hload
  rw [Body.getField, if_neg (by omega)]
  exact ⟨rfl, rfl⟩

theorem get_spec {type : PktType} {code : PktCode} {n : UInt8} {o len : Nat} {m : Mem}
    (ho : v.place type code n = some o) (hform : v.Formed n) (hnum : v.Relocates → m 3 = n) (hst : v.Stored o m)
    (hend : v.Ends o len) : v.Delivered type code m len := by
  have hlen := hend.le
  cases v with
  | metadata w | offset w | maxNumCells w | totalNumCells w =>
    exact getField_delivered ho hlen hst w.ofNat_toNat
  | cellOptions w | numCells w => exact getField_delivered ho hlen hst w.ofNat_toNat
  | reserved w =>
    intro old
    simp only [place] at ho
    simp only [Body.sixpPktGetReserved, ho, Body.takeField, true_and]
    exact congrArg some ((congrArg UInt8.ofNat hst).trans w.ofNat_toNat)
  | cellList l =>
    intro p k
    have hl : l.length % 4 = 0 := hform
    have he : o + l.length = len := hend
    simp only [place] at ho
    simp only [ListIs, Body.sixpPktGetCellList, ho, if_neg (show ¬ len < o by omega),
      if_neg (show ¬ (len - o) % 4 ≠ 0 by omega), true_and]
    exact ⟨o, by rw [show len - o = l.length by omega]; rfl, hst⟩
  | payload l =>
    intro buf hbuf
    have he : o + l.length = len := hend
    simp only [place] at ho
    rcases @Body.getPayload_cases _ _ m len buf _ ho with ⟨hlt, _⟩ | ⟨_, hget⟩
    · omega
    · dsimp only
      rw [hget, hbuf]
      exact ⟨rfl, congrArg some hst⟩
  | relCellList l =>
    intro p k
    have hl : l.length = n.toNat * 4 := hform
    obtain ⟨hle, hmod⟩ : o + l.length ≤ len ∧ (len - o) % 4 = 0 := hend
    simp only [place] at ho
    obtain ⟨rfl, -⟩ := getRelCellListOffset_some ho
    simp only [ListIs, Body.sixpPktGetRelCellList, (withNumCells_eq ho (hnum trivial) (show 4 ≤ len by omega)).2,
      if_neg (show ¬ len < 4 + n.toNat * 4 by omega), if_neg (show ¬ (len - 4) % 4 ≠ 0 by omega), true_and]
    exact ⟨4, by rw [hl]; rfl, hst⟩
  | candCellList l =>
    intro p k
    have hl : l.length % 4 = 0 := hform
    have he : o + l.length = len := hend
    simp only [place] at ho
    obtain ⟨o', ho', rfl⟩ := Option.map_eq_some_iff.1 ho
    obtain ⟨rfl, -⟩ := getRelCellListOffset_some ho'
    simp only [ListIs, Body.sixpPktGetCandCellList, (withNumCells_eq ho' (hnum trivial) (show 4 ≤ len by omega)).2,
      if_neg (show ¬ len < 4 + n.toNat * 4 by omega), if_neg (show ¬ (len - (4 + n.toNat * 4)) % 4 ≠ 0 by omega),
      true_and]
    exact ⟨4 + n.toNat * 4, by rw [show len - (4 + n.toNat * 4) = l.length by omega]; rfl, hst⟩

end FieldValue

/-! ## The fields of a message -/

/-- What a message with the NumCells `n` has of each field in a body of `len` bytes. -/
def Placed (type : PktType) (code : PktCode) (n : UInt8) (len : Nat) (v : FieldValue) : Prop :=
  ∃ o, v.place type code n = some o ∧ v.Formed n ∧ v.Ends o len

def Apart (type : PktType) (code : PktCode) (n : UInt8) (v w : FieldValue) : Prop :=
  ∀ o ∈ v.place type code n, ∀ p ∈ w.place type code n, o + v.size ≤ p ∨ p + w.size ≤ o

theorem Apart.symm {type : PktType} {code : PktCode} {n : UInt8} {v w : FieldValue} (h : Apart type code n v w) :
    Apart type code n w v :=
  fun p hp o ho => (h o ho p hp).symm

attribute [local simp] Placed Apart FieldValue.place FieldValue.Formed FieldValue.Ends FieldValue.size bodyLength
  getMetadataOffset getCellOptionsOffset getNumCellsOffset getReservedOffset getOffsetOffset getMaxNumCellsOffset
  getCellListOffset getRelCellListOffset getTotalNumCellsOffset getPayloadOffset

theorem IsMessage.placed {type : PktType} {code : PktCode} {n : UInt8} {vs : List FieldValue}
    (h : IsMessage type code n vs) : ∀ v ∈ vs, Placed type code n (bodyLength vs) v := by
  cases h with
  | cells code hcode md co n l hl =>
    rcases hcode with rfl | rfl
    · simp
      omega
    · simp
      omega
  | relocate md co n rel cand hrel hcand =>
    simp
    omega
  | count md co => simp
  | list md co res off max => simp
  | signal md l => simp
  | clear md => simp
  | answer type code htype hcode l hl =>
    rcases htype with rfl | rfl
    · simpa [hl] using hcode
    · simpa [hl] using hcode
  | total v => simp
  | payload type htype l =>
    rcases htype with rfl | rfl
    · simp
    · simp
  | empty type code htype hcode => exact List.forall_mem_nil _

theorem IsMessage.apart {type : PktType} {code : PktCode} {n : UInt8} {vs : List FieldValue}
    (h : IsMessage type code n vs) : vs.Pairwise (Apart type code n) := by
  cases h with
  | cells code hcode md co n l hl =>
    rcases hcode with rfl | rfl
    · simp
    · simp
  | relocate md co n rel cand hrel hcand =>
    simp
    omega
  | count md co => simp
  | list md co res off max => simp
  | signal md l => simp
  | clear md => exact List.pairwise_singleton _ _
  | answer type code htype hcode l hl => exact List.pairwise_singleton _ _
  | total v => exact List.pairwise_singleton _ _
  | payload type htype l => exact List.pairwise_singleton _ _
  | empty type code htype hcode => exact List.Pairwise.nil

/-! ## Writing all fields -/

section

variable {type : PktType} {code : PktCode} {n : UInt8} {ws : List FieldValue} {total len : Nat}

theorem writeFields_snoc (v : FieldValue) : ∀ (vs : List FieldValue) (m : Mem),
    writeFields type code len (vs ++ [v]) m = (writeFields type code len vs m).bind (writeFields type code len [v])
  | [], m => rfl
  | u :: vs, m => by
    rw [List.cons_append, writeFields, writeFields]
    split
    · cases (u.set type code (some m) len).body with
      | none => rfl
      | some m' => exact writeFields_snoc v vs m'
    · rfl

theorem writeFields_one {v : FieldValue} {o : Nat} {m : Mem} (h : v.Sets o m (v.set type code (some m) len)) :
    ∃ m', writeFields type code len [v] m = some m' ∧ v.Stored o m' ∧ Mem.SameOutside o v.size m m' := by
  obtain ⟨hok, m', hbody, hst, hsame⟩ := h
  refine ⟨m', ?_, hst, hsame⟩
  rw [writeFields, if_pos hok, hbody]
  rfl

def AllStored (type : PktType) (code : PktCode) (n : UInt8) (vs : List FieldValue) (m : Mem) : Prop :=
  ∀ v ∈ vs, ∀ o ∈ v.place type code n, v.Stored o m

variable {vs : List FieldValue}

theorem AllStored.numCells {m : Mem} (h : AllStored type code n vs m)
    (hn : FieldValue.numCells n ∈ vs) (hp : Placed type code n total (.numCells n)) : m 3 = n := by
  obtain ⟨o, ho, -, -⟩ := hp
  have ho3 : o = 3 := by
    simp only [FieldValue.place, getNumCellsOffset] at ho
    split at ho
    · cases ho
      rfl
    · cases ho
  subst ho3
  have hload : Mem.load 1 3 m = n.toNat := h _ hn 3 ho
  rw [← Mem.byte_load_one 3 m, hload, UInt8.ofNat_toNat]

theorem NumCellsFirst.mem {pre post : List FieldValue} {v : FieldValue} (h : NumCellsFirst n (pre ++ v :: post))
    (hv : v.Relocates) : FieldValue.numCells n ∈ pre := by
  cases v with
  | relCellList l => exact h pre post l (Or.inl rfl)
  | candCellList l => exact h pre post l (Or.inr rfl)
  | _ => exact hv.elim

theorem writeFields_stored (hplaced : ∀ v ∈ ws, Placed type code n total v) (hapart : ws.Pairwise (Apart type code n))
    (hfirst : NumCellsFirst n ws) (hlen : total ≤ len) (m : Mem) (pre : List FieldValue) :
    ∀ post, ws = pre ++ post → ∃ m', writeFields type code len pre m = some m' ∧ AllStored type code n pre m' := by
  induction pre using List.reverseRecOn with
  | nil => exact fun _ _ => ⟨m, rfl, List.forall_mem_nil _⟩
  | append_singleton pre v ih =>
    intro post hws
    rw [List.append_assoc, List.singleton_append] at hws
    obtain ⟨m₁, hw₁, hst₁⟩ := ih (v :: post) hws
    subst hws
    obtain ⟨o, ho, hform, hend⟩ := hplaced v (by simp)
    have hnum : v.Relocates → m₁ 3 = n := fun hv =>
      hst₁.numCells (hfirst.mem hv) (hplaced _ (List.mem_append_left _ (hfirst.mem hv)))
    obtain ⟨m₂, hw₂, hst₂, hsame⟩ := writeFields_one (FieldValue.set_spec ho hform hnum (hend.le.trans hlen))
    refine ⟨m₂, ?_, fun u hu p hp => ?_⟩
    · rw [writeFields_snoc, hw₁]
      exact hw₂
    · rcases List.mem_append.1 hu with hu | hu
      · refine (hst₁ u hu p hp).congr fun x hx hx' => hsame x ?_
        have hd := (List.pairwise_append.1 hapart).2.2 u hu v List.mem_cons_self p hp o ho
        omega
      · rw [List.mem_singleton] at hu
        subst hu
        rw [Option.mem_def, ho] at hp
        cases hp
        exact hst₂

theorem AllStored.delivered {m : Mem} {pre post : List FieldValue} (h : AllStored type code n pre m)
    (hws : ws = pre ++ post) (hplaced : ∀ v ∈ ws, Placed type code n total v) (hfirst : NumCellsFirst n ws) :
    ∀ w ∈ pre, w.Delivered type code m total := by
  intro w hw
  subst hws
  obtain ⟨o, ho, hform, hend⟩ := hplaced w (List.mem_append_left _ hw)
  refine FieldValue.get_spec ho hform (fun hr => ?_) (h w hw o ho) hend
  obtain ⟨before, after, rfl⟩ := List.append_of_mem hw
  rw [List.append_assoc, List.cons_append] at hfirst
  have hn := hfirst.mem hr
  exact h.numCells (List.mem_append_left _ hn) (hplaced _ (List.mem_append_left _ (List.mem_append_left _ hn)))

/-! ## Framing -/

theorem sixpPktCreate_bodyOf {sfid seqno : UInt8} {m : Mem} (h : total ≤ packetbufSize) :
    sixpPktCreate type code sfid seqno (bodyOf m total) =
      some ((type.toByte <<< 4 ||| sixpPktVersion) :: code :: sfid :: seqno :: Mem.read 0 total m) := by
  unfold bodyOf
  cases total with
  | zero => rfl
  | succ k =>
    rw [if_neg (by omega), sixpPktCreate]
    · simp only [Option.getD_some, Mem.length_read, if_neg (show ¬ packetbufSize < k + 1 by omega)]
    · rintro ⟨⟩

theorem sixpPktParse_frame {sfid seqno : UInt8} {bytes : List UInt8} (h : bodyLenOk type code bytes.length = true) :
    sixpPktParse ((type.toByte <<< 4 ||| sixpPktVersion) :: code :: sfid :: seqno :: bytes) =
      (true, ⟨sixpPktVersion, type, code, sfid, seqno, some bytes⟩) := by
  have hversion : (type.toByte <<< 4 ||| sixpPktVersion) &&& 0x0f = sixpPktVersion := by
    cases type <;> rfl
  have htype : PktType.ofBits (((type.toByte <<< 4 ||| sixpPktVersion) &&& 0x30) >>> 4).toNat = type := by
    cases type <;> rfl
  simp only [sixpPktParse, hversion, htype, ne_eq, not_true_eq_false, if_false, h, if_true]

theorem IsMessage.lenOk (h : IsMessage type code n vs) :
    bodyLenOk type code (bodyLength vs) = true := by
  cases h with
  | cells code hcode md co n l hl =>
    rcases hcode with rfl | rfl
    · simp [bodyLenOk, requestLenOk]
      omega
    · simp [bodyLenOk, requestLenOk, Cmd.add]
      omega
  | relocate md co n rel cand hrel hcand =>
    simp [bodyLenOk, requestLenOk, Cmd.relocate, Cmd.add, Cmd.delete]
    omega
  | count md co => rfl
  | list md co res off max => rfl
  | signal md l => simp [bodyLenOk, requestLenOk, Cmd.signal, Cmd.add, Cmd.delete, Cmd.relocate, Cmd.count, Cmd.list]
  | clear md => rfl
  | answer type code htype hcode l hl =>
    rcases htype with rfl | rfl <;> rcases hcode with rfl | rfl <;>
      simp [bodyLenOk, responseLenOk, Rc.success, Rc.eol, hl]
  | total v => rfl
  | payload type htype l =>
    rcases htype with rfl | rfl <;> rfl
  | empty type code htype hcode =>
    simp only [emptyCodes, List.mem_cons, List.not_mem_nil, or_false] at hcode
    rcases htype with rfl | rfl <;> rcases hcode with rfl | rfl | rfl | rfl | rfl | rfl | rfl | rfl | rfl | rfl <;> rfl

theorem memOf_read {m : Mem} {x : Nat} (hx : x < total) : memOf (Mem.read 0 total m) x = m x := by
  have h := Mem.holds_iff.1 ((@Mem.holds_read total 0 0 m m).2 fun i _ => rfl) x
    (by simpa using hx)
  rw [Nat.zero_add] at h
  simp [memOf, hx, h]

theorem AllStored.parsed {m : Mem} (h : AllStored type code n vs m)
    (hplaced : ∀ v ∈ vs, Placed type code n total v) : AllStored type code n vs (memOf (Mem.read 0 total m)) := by
  intro v hv o ho
  obtain ⟨o', ho', -, hend⟩ := hplaced v hv
  rw [Option.mem_def, ho'] at ho
  cases ho
  exact (h v hv o ho').congr fun x _ hx => memOf_read (lt_of_lt_of_le hx hend.le)

theorem bodyLength_perm (h : ws.Perm vs) : bodyLength ws = bodyLength vs :=
  (h.map FieldValue.size).sum_eq

/-- For every 6P message whose header and body fit into packetbuf, its fields written in any order in which NumCells
comes before the lists of a RELOCATE request, into any buffer that has room for them: every setter succeeds and leaves
the fields written before it as they are, and the framed message is parsed with its type, code, SFID and SeqNum and
delivers every value. -/
theorem message_round_trip (sfid seqno : UInt8) {vs : List FieldValue} (hmsg : IsMessage type code n vs)
    (hperm : ws.Perm vs) (hfirst : NumCellsFirst n ws) (m : Mem) (hlen : bodyLength vs ≤ len)
    (hfits : 4 + bodyLength vs ≤ packetbufSize) : RoundTrip type code sfid seqno ws m len := by
  have hplaced : ∀ v ∈ ws, Placed type code n (bodyLength ws) v := by
    intro v hv
    rw [bodyLength_perm hperm]
    exact hmsg.placed v (hperm.mem_iff.1 hv)
  have hapart : ws.Pairwise (Apart type code n) := (hperm.pairwise_iff fun h => Apart.symm h).2 hmsg.apart
  have hlen' : bodyLength ws ≤ len := (bodyLength_perm hperm).trans_le hlen
  have hfits' : bodyLength ws ≤ packetbufSize := by
    rw [bodyLength_perm hperm]
    omega
  refine ⟨fun pre post hws => ?_, ?_⟩
  · obtain ⟨m', hw, hst⟩ := writeFields_stored hplaced hapart hfirst hlen' m pre post hws
    exact ⟨m', hw, hst.delivered hws hplaced hfirst⟩
  · obtain ⟨m', hw, hst⟩ := writeFields_stored hplaced hapart hfirst hlen' m ws [] (List.append_nil ws).symm
    have hok : bodyLenOk type code (Mem.read 0 (bodyLength ws) m').length = true := by
      rw [Mem.length_read, bodyLength_perm hperm]
      exact hmsg.lenOk
    refine ⟨m', _, _, _, hw, sixpPktCreate_bodyOf hfits', sixpPktParse_frame hok, rfl, rfl, rfl, rfl, rfl, ?_⟩
    rw [Mem.length_read]
    exact (hst.parsed hplaced).delivered (List.append_nil ws).symm hplaced hfirst

end

/-- The round trip of a RELOCATE request with one cell and one candidate, the candidate written before the other
fields but for NumCells. -/
theorem message_round_trip_relocate : RoundTrip .request Cmd.relocate 0xf0 7
    [.numCells 1, .candCellList [9, 0, 2, 0], .relCellList [5, 0, 1, 0], .cellOptions 1, .metadata 0] (fun _ => 0) 20 := by
  refine message_round_trip 0xf0 7 (.relocate 0 1 1 [5, 0, 1, 0] [9, 0, 2, 0] rfl rfl) (by decide) ?_ _ (by decide)
    (by decide)
  rintro (_ | ⟨v, pre⟩) post l h
  · rcases h with h | h
    · cases h
    · cases h
  · have hv : .numCells 1 = v := by
      rcases h with h | h
      · exact (List.cons.inj h).1
      · exact (List.cons.inj h).1
    rw [hv]
    exact List.mem_cons_self

theorem sixpPktCreate_long {type : PktType} {code : PktCode} {sfid seqno : UInt8} {m : Mem} {total : Nat}
    (h : packetbufSize < total) : sixpPktCreate type code sfid seqno (bodyOf m total) = none := by
  obtain ⟨k, rfl⟩ := Nat.exists_eq_succ_of_ne_zero (show total ≠ 0 by omega)
  rw [bodyOf, if_neg (by omega), sixpPktCreate]
  · simp only [Option.getD_some, Mem.length_read, if_pos h]
  · rintro ⟨⟩

/-- A response with a payload that packetbuf has no room for is not framed. -/
theorem long_payload_refused : IsMessage .response Rc.success 0 [.payload (List.replicate 129 0)] ∧
    ¬ RoundTrip .response Rc.success 0xf0 7 [.payload (List.replicate 129 0)] (fun _ => 0) 129 := by
  refine ⟨.payload .response (Or.inl rfl) _, fun h => ?_⟩
  obtain ⟨m', frame, -, -, -, hcreate, -⟩ := h.framed
  rw [sixpPktCreate_long (by simp [bodyLength, packetbufSize])] at hcreate
  cases hcreate

end Contiki.Sixtop
