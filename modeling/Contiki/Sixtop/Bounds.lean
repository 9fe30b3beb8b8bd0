/-
Which bytes the setters and getters of sixp-pkt.c touch: for every message type, code and body length, a call stays
inside the body and its buffer, and refuses a body that is too short for the field, except where it does not look at
the length or copies the whole buffer.
-/
import Contiki.Sixtop.Fields

namespace Contiki.Sixtop

open Contiki.Lib

/-! ## Calls -/

/-- A call of a setter or getter with its own arguments; those of a getter are what the caller's variables held. -/
inductive FieldCall
  | setMetadata (v : UInt16) | getMetadata (out : Option UInt16)
  | setCellOptions (v : UInt8) | getCellOptions (out : Option UInt8)
  | setNumCells (v : UInt8) | getNumCells (out : Option UInt8)
  | setReserved (v : UInt8) | getReserved (out : Option UInt8)
  | setOffset (v : UInt16) | getOffset (out : Option UInt16)
  | setMaxNumCells (v : UInt16) | getMaxNumCells (out : Option UInt16)
  | setCellList (list : Option Mem) (len offset : Nat) | getCellList (out : Body.ListOut)
  | setRelCellList (list : Option Mem) (len offset : Nat) | getRelCellList (out : Body.ListOut)
  | setCandCellList (list : Option Mem) (len offset : Nat) | getCandCellList (out : Body.ListOut)
  | setTotalNumCells (v : UInt16) | getTotalNumCells (out : Option UInt16)
  | setPayload (payload : Mem) (len : Nat) | getPayload (buf : Option (List UInt8))

inductive Vars
  | none
  | byte (v : Option UInt8)
  | word (v : Option UInt16)
  | list (v : Body.ListOut)
  | buf (v : Option (List UInt8))

namespace FieldCall

def vars : FieldCall → Vars
  | getMetadata v | getOffset v | getMaxNumCells v | getTotalNumCells v => .word v
  | getCellOptions v | getNumCells v | getReserved v => .byte v
  | getCellList v | getRelCellList v | getCandCellList v => .list v
  | getPayload v => .buf v
  | _ => .none

@[grind =]
def run (c : FieldCall) (type : PktType) (code : PktCode) (body : Option Mem) (bodyLen : Nat) : Res Vars :=
  match c with
  | setMetadata v => (Body.sixpPktSetMetadata type code v body bodyLen).map fun _ => .none
  | getMetadata v => (Body.sixpPktGetMetadata type code v body bodyLen).map .word
  | setCellOptions v => (Body.sixpPktSetCellOptions type code v body bodyLen).map fun _ => .none
  | getCellOptions v => (Body.sixpPktGetCellOptions type code v body bodyLen).map .byte
  | setNumCells v => (Body.sixpPktSetNumCells type code v body bodyLen).map fun _ => .none
  | getNumCells v => (Body.sixpPktGetNumCells type code v body bodyLen).map .byte
  | setReserved v => (Body.sixpPktSetReserved type code v body bodyLen).map fun _ => .none
  | getReserved v => (Body.sixpPktGetReserved type code v body bodyLen).map .byte
  | setOffset v => (Body.sixpPktSetOffset type code v body bodyLen).map fun _ => .none
  | getOffset v => (Body.sixpPktGetOffset type code v body bodyLen).map .word
  | setMaxNumCells v => (Body.sixpPktSetMaxNumCells type code v body bodyLen).map fun _ => .none
  | getMaxNumCells v => (Body.sixpPktGetMaxNumCells type code v body bodyLen).map .word
  | setCellList l n o => (Body.sixpPktSetCellList type code l n o body bodyLen).map fun _ => .none
  | getCellList v => (Body.sixpPktGetCellList type code v body bodyLen).map .list
  | setRelCellList l n o => (Body.sixpPktSetRelCellList type code l n o body bodyLen).map fun _ => .none
  | getRelCellList v => (Body.sixpPktGetRelCellList type code v body bodyLen).map .list
  | setCandCellList l n o => (Body.sixpPktSetCandCellList type code l n o body bodyLen).map fun _ => .none
  | getCandCellList v => (Body.sixpPktGetCandCellList type code v body bodyLen).map .list
  | setTotalNumCells v => (Body.sixpPktSetTotalNumCells type code v body bodyLen).map fun _ => .none
  | getTotalNumCells v => (Body.sixpPktGetTotalNumCells type code v body bodyLen).map .word
  | setPayload p n => (Body.sixpPktSetPayload type code p n body bodyLen).map fun _ => .none
  | getPayload v => (Body.sixpPktGetPayload type code v body bodyLen).map .buf

/-- Where the field the call is for ends in a body, if the message has the field; a list that is written ends where the
cells given do, and the lists of a RELOCATE request stand where the body's NumCells puts them. -/
def fieldEnd (c : FieldCall) (type : PktType) (code : PktCode) (m : Mem) : Option Nat :=
  match c with
  | setMetadata _ | getMetadata _ => (getMetadataOffset type code).map (· + 2)
  | setCellOptions _ | getCellOptions _ => (getCellOptionsOffset type code).map (· + 1)
  | setNumCells _ | getNumCells _ => (getNumCellsOffset type code).map (· + 1)
  | setReserved _ | getReserved _ => (getReservedOffset type code).map (· + 1)
  | setOffset _ | getOffset _ => (getOffsetOffset type code).map (· + 2)
  | setMaxNumCells _ | getMaxNumCells _ => (getMaxNumCellsOffset type code).map (· + 2)
  | setCellList _ n o => (getCellListOffset type code).map (· + (o + n))
  | getCellList _ => getCellListOffset type code
  | setRelCellList _ n o => (getRelCellListOffset type code).map (· + (o + n))
  | getRelCellList _ => (getRelCellListOffset type code).map (· + (m 3).toNat * 4)
  | setCandCellList _ n o => (getRelCellListOffset type code).map (· + (o + (m 3).toNat * 4 + n))
  | getCandCellList _ => (getRelCellListOffset type code).map (· + (m 3).toNat * 4)
  | setTotalNumCells _ | getTotalNumCells _ => (getTotalNumCellsOffset type code).map (· + 2)
  | setPayload _ n => (getPayloadOffset type code).map (· + n)
  | getPayload _ => getPayloadOffset type code

end FieldCall

/-! ## Staying inside the body -/

/-- Every byte of the range stands in a body of `n` bytes. -/
def Span.Inside (r : Span) (n : Nat) : Prop := ∀ i, r.start ≤ i → i < r.start + r.len → i < n

/-- The call reads and writes only bytes of a body of `n` bytes. -/
def Res.Inside {α : Type} (r : Res α) (n : Nat) : Prop := (∀ s ∈ r.reads, s.Inside n) ∧ ∀ s ∈ r.writes, s.Inside n

/-- The call returned -1 and left the body and the variables as they were. -/
def Res.Refused {α : Type} (r : Res α) (body : Option Mem) (vars : α) : Prop :=
  r.ok = false ∧ r.body = body ∧ r.out = vars

/-- The variables stay as large as they were, and a list that is handed out lies in a body of `n` bytes. -/
def Vars.Fits (before after : Vars) (n : Nat) : Prop :=
  match before, after with
  | .none, .none | .byte _, .byte _ | .word _, .word _ => True
  | .list _, .list l => ∀ p ∈ l.list, ∀ k ∈ l.len, p + k ≤ n
  | .buf b, .buf b' => b'.map List.length = b.map List.length
  | _, _ => False

/-- What a call may do with a body of `bodyLen` bytes: it touches no byte beyond it and no memory beyond the caller's
variables, refuses a body that is too short for the field, and a payload that is delivered is the one from its offset
to the end of the body. -/
structure FieldCall.Safe (c : FieldCall) (type : PktType) (code : PktCode) (body : Option Mem) (bodyLen : Nat) :
    Prop where
  inside : (c.run type code body bodyLen).Inside bodyLen
  room : (c.run type code body bodyLen).ok = true → c.vars.Fits (c.run type code body bodyLen).out bodyLen
  short : ∀ m, body = some m → ∀ n ∈ c.fieldEnd type code m, bodyLen < n →
    (c.run type code body bodyLen).Refused body c.vars
  absent : body = none → (c.run type code body bodyLen).Refused body c.vars
  payload : ∀ b m offset, c = .getPayload (some b) → body = some m → getPayloadOffset type code = some offset →
    (c.run type code body bodyLen).ok = true → (c.run type code body bodyLen).out =
      .buf (some (Mem.read offset (bodyLen - offset) m ++ b.drop (bodyLen - offset)))

/-- A field of `size` bytes, where the message has it, ends inside the body. -/
def FieldFits (body : Option Mem) (offset : Option Nat) (size bodyLen : Nat) : Prop :=
  body.isSome → ∀ o ∈ offset, o + size ≤ bodyLen

/-- What a call relies on where it does not look at the length of the body itself: that the field is there, and that
the buffer for a payload is no longer than the payload. -/
def FieldCall.LengthOk (c : FieldCall) (type : PktType) (code : PktCode) (body : Option Mem) (bodyLen : Nat) : Prop :=
  match c with
  | .setNumCells _ => FieldFits body (getNumCellsOffset type code) 1 bodyLen
  | .getReserved (some _) => FieldFits body (getReservedOffset type code) 1 bodyLen
  | .setTotalNumCells _ => FieldFits body (getTotalNumCellsOffset type code) 2 bodyLen
  | .getPayload (some b) => FieldFits body (getPayloadOffset type code) b.length bodyLen
  | _ => True

/-! ## Calls that look at the length -/

section

variable {α β : Type} {m : Mem} {n : Nat}

/-- A call on the body `m` of `n` bytes that stays inside it and refuses it when the field ends further on. -/
structure Res.Good (r : Res α) (m : Mem) (vars : α) (need : Option Nat) (n : Nat) : Prop where
  inside : r.Inside n
  short : ∀ k ∈ need, n < k → r.Refused (some m) vars

theorem Res.refused_fail (body : Option Mem) (vars : α) : (Res.fail body vars).Refused body vars := ⟨rfl, rfl, rfl⟩

theorem Res.inside_fail (body : Option Mem) (vars : α) : (Res.fail body vars).Inside n := by
  constructor
  · intro s hs
    cases hs
  · intro s hs
    cases hs

theorem Res.good_fail (vars : α) (need : Option Nat) : (Res.fail (some m) vars).Good m vars need n :=
  ⟨Res.inside_fail _ _, fun _ _ _ => Res.refused_fail _ _⟩

theorem Res.Refused.map {r : Res α} {body : Option Mem} {vars : α} (h : r.Refused body vars) (f : α → β) :
    (r.map f).Refused body (f vars) := by
  obtain ⟨hok, hbody, hout⟩ := h
  exact ⟨hok, hbody, congrArg f hout⟩

theorem Res.Good.map {r : Res α} {vars : α} {need : Option Nat} (h : r.Good m vars need n) (f : α → β) :
    (r.map f).Good m (f vars) need n :=
  ⟨h.inside, fun k hk hlt => (h.short k hk hlt).map f⟩

theorem Span.inside_of_le {start len : Nat} (h : start + len ≤ n) : Span.Inside ⟨start, len⟩ n :=
  fun _ _ hlt => lt_of_lt_of_le hlt h

theorem Res.good_of_le {r : Res α} {vars : α} {k : Nat} (hin : r.Inside n) (h : k ≤ n) : r.Good m vars (some k) n := by
  refine ⟨hin, fun j hj hlt => ?_⟩
  rw [Option.mem_some_iff] at hj
  omega

theorem Body.setField_good (offset : Option Nat) (size v : Nat) :
    (Body.setField offset size v (some m) n).Good m () (offset.map (· + size)) n := by
  cases offset with
  | none => exact Res.good_fail _ _
  | some o =>
    rw [Body.setField]
    split
    · exact Res.good_fail _ _
    · next h =>
      apply Res.good_of_le _ (show o + size ≤ n by omega)
      exact ⟨fun _ hs => (List.not_mem_nil hs).elim, fun s hs => by
        rw [List.mem_singleton.1 hs]
        exact Span.inside_of_le (by omega)⟩

theorem Body.takeField_inside (dec : Nat → α) {offset size : Nat} (h : offset + size ≤ n) :
    (Body.takeField dec offset size m).Inside n := by
  refine ⟨fun s hs => ?_, fun _ hs => (List.not_mem_nil hs).elim⟩
  rw [List.mem_singleton.1 hs]
  exact Span.inside_of_le h

theorem Body.getField_good (dec : Nat → α) (offset : Option Nat) (size : Nat) (out : Option α) :
    (Body.getField dec offset size out (some m) n).Good m out (offset.map (· + size)) n := by
  cases out with
  | none => exact Res.good_fail _ _
  | some v =>
    cases offset with
    | none => exact Res.good_fail _ _
    | some o =>
      rw [Body.getField]
      split
      · exact Res.good_fail _ _
      · exact Res.good_of_le (Body.takeField_inside dec (by omega)) (show o + size ≤ n by omega)

theorem Body.copyList_good {offset listLen : Nat} (list : Mem) (h : offset + listLen ≤ n) :
    (Body.copyList offset list listLen m).Good m () (some (offset + listLen)) n := by
  apply Res.good_of_le _ h
  rw [Body.copyList]
  split
  · exact Res.inside_fail _ _
  · refine ⟨fun _ hs => (List.not_mem_nil hs).elim, fun s hs => ?_⟩
    rw [List.mem_singleton.1 hs]
    exact Span.inside_of_le h

theorem Body.setList_good (offset : Nat) (list : Mem) (listLen : Nat) :
    (Body.setList offset list listLen m n).Good m () (some (offset + listLen)) n := by
  rw [Body.setList]
  split
  · exact Res.good_fail _ _
  · exact Body.copyList_good list (by omega)

theorem Body.getCellList_good (type : PktType) (code : PktCode) (out : Body.ListOut) :
    (Body.sixpPktGetCellList type code out (some m) n).Good m out (getCellListOffset type code) n := by
  rcases out with ⟨list, _ | len⟩
  · exact Res.good_fail _ _
  · unfold Body.sixpPktGetCellList
    cases getCellListOffset type code with
    | none => exact Res.good_fail _ _
    | some offset =>
      simp only
      split
      · exact Res.good_fail _ _
      · split
        · exact Res.good_fail _ _
        · exact Res.good_of_le (Res.inside_fail (some m) ()) (by omega)

variable {type : PktType} {code : PktCode}

theorem getRelCellListOffset_some {o : Nat} (h : getRelCellListOffset type code = some o) :
    o = 4 ∧ getNumCellsOffset type code = some 3 := by
  unfold getRelCellListOffset at h
  split at h
  · next hc =>
    obtain ⟨rfl, rfl⟩ := hc
    cases h
    exact ⟨rfl, rfl⟩
  · cases h

theorem Mem.byte_load_one (a : Nat) (m : Mem) : UInt8.ofNat (Mem.load 1 a m) = m a := by
  simp [Mem.load]

theorem Body.withNumCells_cases (type : PktType) (code : PktCode) (m : Mem) (n : Nat) (out : α) (k : Nat → Nat → Res α) :
    (∃ reads, (∀ s ∈ reads, s.Inside n) ∧
      Body.withNumCells type code out (some m) n k = { Res.fail (some m) out with reads := reads } ∧
      ((getRelCellListOffset type code).isSome → n < 4)) ∨
    (4 ≤ n ∧ getRelCellListOffset type code = some 4 ∧ Body.withNumCells type code out (some m) n k =
      { k (m 3).toNat 4 with reads := ⟨3, 1⟩ :: (k (m 3).toNat 4).reads }) := by
  cases hr : getRelCellListOffset type code with
  | none =>
    refine Or.inl ⟨(Body.sixpPktGetNumCells type code (some 0) (some m) n).reads, ?_, ?_, ?_⟩
    · exact ((Body.getField_good UInt8.ofNat (getNumCellsOffset type code) 1 (some 0)).inside).1
    · unfold Body.withNumCells
      simp only [hr]
      split
      · next h => cases h
      · rfl
    · intro h
      cases h
  | some o =>
    obtain ⟨rfl, hn⟩ := getRelCellListOffset_some hr
    by_cases hlen : n < 4
    · refine Or.inl ⟨[], fun _ hs => (List.not_mem_nil hs).elim, ?_, fun _ => hlen⟩
      simp [Body.withNumCells, Body.sixpPktGetNumCells, Body.getField, hn, hlen, Res.fail]
    · refine Or.inr ⟨by omega, rfl, ?_⟩
      simp [Body.withNumCells, Body.sixpPktGetNumCells, Body.getField, hn, hlen, hr, Body.takeField, Mem.load]

theorem Body.withNumCells_good (out : α) (k : Nat → Nat → Res α) (need : Nat)
    (hk : 4 ≤ n → (k (m 3).toNat 4).Good m out (some (4 + need)) n) :
    (Body.withNumCells type code out (some m) n k).Good m out ((getRelCellListOffset type code).map (· + need)) n := by
  rcases Body.withNumCells_cases type code m n out k with
    ⟨reads, hin, he, _⟩ | ⟨hn, hr, he⟩
  · rw [he]
    exact ⟨⟨hin, fun _ hs => (List.not_mem_nil hs).elim⟩, fun _ _ _ => ⟨rfl, rfl, rfl⟩⟩
  · obtain ⟨⟨hreads, hwrites⟩, hshort⟩ := hk hn
    rw [he, hr]
    refine ⟨⟨fun s hs => ?_, hwrites⟩, fun j hj hlt => hshort j hj hlt⟩
    rcases List.mem_cons.1 hs with rfl | hs
    · exact Span.inside_of_le (by omega)
    · exact hreads s hs

theorem Body.setCellList_good (list : Option Mem) (len cellOffset : Nat) :
    (Body.sixpPktSetCellList type code list len cellOffset (some m) n).Good m ()
      ((getCellListOffset type code).map (· + (cellOffset + len))) n := by
  cases list with
  | none => exact Res.good_fail _ _
  | some list =>
    unfold Body.sixpPktSetCellList
    cases getCellListOffset type code with
    | none => exact Res.good_fail _ _
    | some offset =>
      have h := Body.setList_good (m := m) (n := n) (offset + cellOffset) list len
      rwa [Nat.add_assoc] at h

theorem Body.setRelCellList_good (list : Option Mem) (len cellOffset : Nat) :
    (Body.sixpPktSetRelCellList type code list len cellOffset (some m) n).Good m ()
      ((getRelCellListOffset type code).map (· + (cellOffset + len))) n := by
  cases list with
  | none => exact Res.good_fail _ _
  | some list =>
    unfold Body.sixpPktSetRelCellList
    apply Body.withNumCells_good () _ (cellOffset + len)
    intro _
    rw [← Nat.add_assoc]
    dsimp only
    split
    · exact Res.good_fail _ _
    · split
      · exact Res.good_fail _ _
      · exact Body.copyList_good list (by omega)

theorem Body.setCandCellList_good (list : Option Mem) (len cellOffset : Nat) :
    (Body.sixpPktSetCandCellList type code list len cellOffset (some m) n).Good m ()
      ((getRelCellListOffset type code).map (· + (cellOffset + (m 3).toNat * 4 + len))) n := by
  cases list with
  | none => exact Res.good_fail _ _
  | some list =>
    unfold Body.sixpPktSetCandCellList
    apply Body.withNumCells_good () _ (cellOffset + (m 3).toNat * 4 + len)
    intro _
    have h := Body.setList_good (m := m) (n := n) (4 + (cellOffset + (m 3).toNat * 4)) list len
    rwa [Nat.add_assoc] at h

theorem Body.getRelCellList_good (out : Body.ListOut) : (Body.sixpPktGetRelCellList type code out (some m) n).Good m out
      ((getRelCellListOffset type code).map (· + (m 3).toNat * 4)) n := by
  rcases out with ⟨list, _ | len⟩
  · exact Res.good_fail _ _
  · unfold Body.sixpPktGetRelCellList
    apply Body.withNumCells_good _ _ ((m 3).toNat * 4)
    intro _
    split
    · exact Res.good_fail _ _
    · split
      · exact Res.good_fail _ _
      · exact Res.good_of_le (Res.inside_fail (some m) ()) (by omega)

theorem Body.getCandCellList_good (out : Body.ListOut) :
    (Body.sixpPktGetCandCellList type code out (some m) n).Good m out
      ((getRelCellListOffset type code).map (· + (m 3).toNat * 4)) n := by
  rcases out with ⟨list, _ | len⟩
  · exact Res.good_fail _ _
  · unfold Body.sixpPktGetCandCellList
    apply Body.withNumCells_good _ _ ((m 3).toNat * 4)
    intro _
    dsimp only
    split
    · exact Res.good_fail _ _
    · split
      · exact Res.good_fail _ _
      · exact Res.good_of_le (Res.inside_fail (some m) ()) (by omega)

theorem Body.setPayload_good (payload : Mem) (payloadLen : Nat) :
    (Body.sixpPktSetPayload type code payload payloadLen (some m) n).Good m ()
      ((getPayloadOffset type code).map (· + payloadLen)) n := by
  unfold Body.sixpPktSetPayload
  cases getPayloadOffset type code with
  | none => exact Res.good_fail _ _
  | some offset =>
    simp only
    split
    · exact Res.good_fail _ _
    · next h =>
      apply Res.good_of_le _ (show offset + payloadLen ≤ n by omega)
      refine ⟨fun _ hs => (List.not_mem_nil hs).elim, fun s hs => ?_⟩
      rw [List.mem_singleton.1 hs]
      exact Span.inside_of_le (by omega)

end

/-! ## Every call -/

section

variable {type : PktType} {code : PktCode} {m : Mem} {n : Nat}

theorem FieldCall.safe_of_good {c : FieldCall} (h : (c.run type code (some m) n).Good m c.vars (c.fieldEnd type code m) n)
    (hroom : (c.run type code (some m) n).ok = true → c.vars.Fits (c.run type code (some m) n).out n)
    (hp : ∀ b, c ≠ .getPayload (some b)) : c.Safe type code (some m) n where
  inside := h.inside
  room := hroom
  short := by
    intro m' hm k hk hlt
    cases hm
    exact h.short k hk hlt
  absent := by rintro ⟨⟩
  payload := by
    intro b _ _ hc
    exact absurd hc (hp b)

theorem FieldCall.safe_absent (c : FieldCall) : c.Safe type code none n := by
  have hrun : c.run type code none n = Res.fail none c.vars := by
    cases c with
    | setMetadata _ | setCellOptions _ | setReserved _ | setOffset _ | setMaxNumCells _ => rfl
    | getMetadata v | getOffset v | getMaxNumCells v | getTotalNumCells v => cases v <;> rfl
    | getCellOptions v | getNumCells v | getReserved v => cases v <;> rfl
    | setNumCells _ | setTotalNumCells _ | setPayload _ _ => rfl
    | setCellList l _ _ | setRelCellList l _ _ | setCandCellList l _ _ => cases l <;> rfl
    | getCellList v | getRelCellList v | getCandCellList v =>
      rcases v with ⟨l, _ | k⟩
      · rfl
      · rfl
    | getPayload v => cases v <;> rfl
  refine ⟨?_, ?_, by rintro _ ⟨⟩, fun _ => ?_, by rintro _ _ _ _ ⟨⟩⟩
  · rw [hrun]
    exact Res.inside_fail _ _
  · rw [hrun]
    rintro ⟨⟩
  · rw [hrun]
    exact Res.refused_fail _ _

/-! ### The lists that are handed out -/

theorem Body.ListOut.set_fits (out : Body.ListOut) {o k : Nat} (h : o + k ≤ n) :
    (Vars.list out).Fits (.list (out.set o k)) n := by
  intro p hp j hj
  obtain ⟨_, _, rfl⟩ := Option.map_eq_some_iff.1 hp
  cases hj
  exact h

theorem Body.ListOut.fits_of_ok {out : Body.ListOut} {body : Option Mem} {offset len : Nat} {refused : Prop}
    [Decidable refused] (hle : ¬ refused → offset + len ≤ n)
    (h : (if refused then Res.fail body out else if (n - offset) % 4 ≠ 0 then Res.fail body out
      else ⟨true, body, out.set offset len, [], []⟩).ok = true) :
    (Vars.list out).Fits (.list (if refused then Res.fail body out else if (n - offset) % 4 ≠ 0 then Res.fail body out
      else ⟨true, body, out.set offset len, [], []⟩).out) n := by
  split at h
  · cases h
  · next hr =>
    rw [if_neg hr]
    split at h
    · cases h
    · next hm =>
      rw [if_neg hm]
      exact Body.ListOut.set_fits out (hle hr)

theorem Body.getCellList_fits {out : Body.ListOut} (h : (Body.sixpPktGetCellList type code out (some m) n).ok = true) :
    (Vars.list out).Fits (.list (Body.sixpPktGetCellList type code out (some m) n).out) n := by
  rcases out with ⟨l, _ | v⟩
  · cases h
  · unfold Body.sixpPktGetCellList at h ⊢
    cases ho : getCellListOffset type code with
    | none =>
      rw [ho] at h
      cases h
    | some offset =>
      rw [ho] at h
      exact Body.ListOut.fits_of_ok (by omega) h

theorem Body.withNumCells_ok {α : Type} {out : α} {k : Nat → Nat → Res α}
    (h : (Body.withNumCells type code out (some m) n k).ok = true) : 4 ≤ n ∧ (k (m 3).toNat 4).ok = true ∧
      (Body.withNumCells type code out (some m) n k).out = (k (m 3).toNat 4).out := by
  rcases Body.withNumCells_cases type code m n out k with
    ⟨reads, _, he, _⟩ | ⟨hn, _, he⟩
  · rw [he] at h
    cases h
  · rw [he] at h ⊢
    exact ⟨hn, h, rfl⟩

theorem Body.getRelCellList_fits {out : Body.ListOut}
    (h : (Body.sixpPktGetRelCellList type code out (some m) n).ok = true) :
    (Vars.list out).Fits (.list (Body.sixpPktGetRelCellList type code out (some m) n).out) n := by
  rcases out with ⟨l, _ | v⟩
  · cases h
  · obtain ⟨_, hok, hout⟩ := Body.withNumCells_ok h
    have hfits := Body.ListOut.fits_of_ok (by omega) hok
    rw [← hout] at hfits
    exact hfits

theorem Body.getCandCellList_fits {out : Body.ListOut}
    (h : (Body.sixpPktGetCandCellList type code out (some m) n).ok = true) :
    (Vars.list out).Fits (.list (Body.sixpPktGetCandCellList type code out (some m) n).out) n := by
  rcases out with ⟨l, _ | v⟩
  · cases h
  · obtain ⟨_, hok, hout⟩ := Body.withNumCells_ok h
    have hfits := Body.ListOut.fits_of_ok (by omega) hok
    rw [← hout] at hfits
    exact hfits

/-! ### The calls that do not look at the length -/

/-- A setter or getter that touches the field without a look at the length is safe exactly when the field is there. -/
theorem FieldCall.safe_unchecked {c : FieldCall} {offset : Option Nat} {size : Nat}
    (hend : c.fieldEnd type code m = offset.map (· + size))
    (hnone : offset = none → c.run type code (some m) n = Res.fail (some m) c.vars)
    (hsome : ∀ o ∈ offset, (c.run type code (some m) n).ok = true ∧
      ((c.run type code (some m) n).reads ++ (c.run type code (some m) n).writes) = [⟨o, size⟩])
    (hroom : (c.run type code (some m) n).ok = true → c.vars.Fits (c.run type code (some m) n).out n)
    (hp : ∀ b, c ≠ .getPayload (some b)) : c.Safe type code (some m) n ↔ FieldFits (some m) offset size n := by
  constructor
  · intro hs _ o ho
    by_contra hlt
    have hneed : o + size ∈ c.fieldEnd type code m := by
      rw [hend]
      exact Option.mem_map_of_mem _ ho
    obtain ⟨hok, _, _⟩ := hs.short m rfl (o + size) hneed (by omega)
    rw [(hsome o ho).1] at hok
    cases hok
  · intro hf
    refine FieldCall.safe_of_good ?_ hroom hp
    cases offset with
    | none =>
      rw [hnone rfl]
      exact Res.good_fail _ _
    | some o =>
      have hle : o + size ≤ n := hf rfl o rfl
      have hone : ∀ s ∈ (c.run type code (some m) n).reads ++ (c.run type code (some m) n).writes, s.Inside n := by
        rw [(hsome o rfl).2]
        intro s hs
        rw [List.mem_singleton.1 hs]
        exact Span.inside_of_le hle
      rw [hend]
      apply Res.good_of_le _ (show o + size ≤ n from hle)
      exact ⟨fun s hs => hone s (List.mem_append_left _ hs), fun s hs => hone s (List.mem_append_right _ hs)⟩

theorem FieldCall.safe_setNumCells (v : UInt8) : (FieldCall.setNumCells v).Safe type code (some m) n ↔
    FieldFits (some m) (getNumCellsOffset type code) 1 n := by
  refine FieldCall.safe_unchecked rfl (fun ho => ?_) (fun o ho => ?_) (fun _ => trivial) (by rintro _ ⟨⟩)
  · simp only [FieldCall.run, Body.sixpPktSetNumCells, ho]
    rfl
  · simp only [FieldCall.run, Body.sixpPktSetNumCells, Option.mem_def.1 ho]
    exact ⟨rfl, rfl⟩

theorem FieldCall.safe_getReserved (v : UInt8) : (FieldCall.getReserved (some v)).Safe type code (some m) n ↔
    FieldFits (some m) (getReservedOffset type code) 1 n := by
  refine FieldCall.safe_unchecked rfl (fun ho => ?_) (fun o ho => ?_) (fun _ => trivial) (by rintro _ ⟨⟩)
  · simp only [FieldCall.run, Body.sixpPktGetReserved, ho]
    rfl
  · simp only [FieldCall.run, Body.sixpPktGetReserved, Option.mem_def.1 ho]
    exact ⟨rfl, rfl⟩

theorem FieldCall.safe_setTotalNumCells (v : UInt16) : (FieldCall.setTotalNumCells v).Safe type code (some m) n ↔
    FieldFits (some m) (getTotalNumCellsOffset type code) 2 n := by
  refine FieldCall.safe_unchecked rfl (fun ho => ?_) (fun o ho => ?_) (fun _ => trivial) (by rintro _ ⟨⟩)
  · simp only [FieldCall.run, Body.sixpPktSetTotalNumCells, ho]
    rfl
  · simp only [FieldCall.run, Body.sixpPktSetTotalNumCells, Option.mem_def.1 ho]
    exact ⟨rfl, rfl⟩

/-! ### `sixp_pkt_get_payload` -/

theorem Body.getPayload_absent {buf : List UInt8} (ho : getPayloadOffset type code = none) :
    Body.sixpPktGetPayload type code (some buf) (some m) n = Res.fail (some m) (some buf) := by
  simp only [Body.sixpPktGetPayload, ho]

theorem Body.getPayload_cases {buf : List UInt8} {o : Nat} (ho : getPayloadOffset type code = some o) :
    (o + buf.length < n ∧ Body.sixpPktGetPayload type code (some buf) (some m) n = Res.fail (some m) (some buf)) ∨
    (n ≤ o + buf.length ∧ Body.sixpPktGetPayload type code (some buf) (some m) n =
      ⟨true, some m, some (Mem.read o buf.length m), [⟨o, buf.length⟩], []⟩) := by
  simp only [Body.sixpPktGetPayload, ho]
  by_cases h : (n : Int) - o > buf.length
  · rw [if_pos h]
    exact Or.inl ⟨by omega, rfl⟩
  · rw [if_neg h]
    exact Or.inr ⟨by omega, rfl⟩

theorem FieldCall.safe_getPayload (buf : List UInt8) : (FieldCall.getPayload (some buf)).Safe type code (some m) n ↔
    FieldFits (some m) (getPayloadOffset type code) buf.length n := by
  cases ho : getPayloadOffset type code with
  | none =>
    have hrun : (FieldCall.getPayload (some buf)).run type code (some m) n = Res.fail (some m) (.buf (some buf)) := by
      simp only [FieldCall.run, Body.getPayload_absent ho]
      rfl
    refine ⟨fun _ _ o h => (by cases h), fun _ => ⟨?_, ?_, ?_, ?_, ?_⟩⟩
    · rw [hrun]
      exact Res.inside_fail _ _
    · rw [hrun]
      rintro ⟨⟩
    · rw [hrun]
      rintro _ ⟨⟩ _ _ _
      exact Res.refused_fail _ _
    · rintro ⟨⟩
    · intro b m' o' _ _ ho'
      rw [ho] at ho'
      cases ho'
  | some o =>
    rcases @Body.getPayload_cases _ _ m n buf _ ho with ⟨hlt, he⟩ | ⟨hle, he⟩
    · have hrun : (FieldCall.getPayload (some buf)).run type code (some m) n = Res.fail (some m) (.buf (some buf)) := by
        simp only [FieldCall.run, he]
        rfl
      refine ⟨fun _ _ o' h => ?_, fun _ => ⟨?_, ?_, ?_, ?_, ?_⟩⟩
      · cases h
        omega
      · rw [hrun]
        exact Res.inside_fail _ _
      · rw [hrun]
        rintro ⟨⟩
      · rw [hrun]
        rintro _ ⟨⟩ _ _ _
        exact Res.refused_fail _ _
      · rintro ⟨⟩
      · rw [hrun]
        rintro _ _ _ _ _ _ ⟨⟩
    · have hrun : (FieldCall.getPayload (some buf)).run type code (some m) n =
          ⟨true, some m, .buf (some (Mem.read o buf.length m)), [⟨o, buf.length⟩], []⟩ := by
        simp only [FieldCall.run, he]
        rfl
      constructor
      · rintro ⟨⟨hin, _⟩, _, hshort, _, _⟩ _ o' h
        cases h
        rw [hrun] at hin hshort
        have hon : o ≤ n := by
          by_contra hlt
          obtain ⟨hok, _, _⟩ := hshort m rfl o ho (by omega)
          cases hok
        by_contra hlt
        have hpos : 0 < buf.length := by omega
        have hlast := hin _ (List.mem_singleton_self _) (o + buf.length - 1) (show o ≤ _ by omega)
          (show _ < o + buf.length by omega)
        omega
      · intro hf
        have hfit : o + buf.length ≤ n := hf rfl o rfl
        refine ⟨?_, ?_, ?_, ?_, ?_⟩
        · rw [hrun]
          refine ⟨fun s hs => ?_, fun _ hs => (List.not_mem_nil hs).elim⟩
          rw [List.mem_singleton.1 hs]
          exact Span.inside_of_le hfit
        · rw [hrun]
          intro _
          show Option.map List.length _ = _
          simp
        · rintro _ ⟨⟩ k hk hlt
          rw [show (FieldCall.getPayload (some buf)).fieldEnd type code m = getPayloadOffset type code from rfl, ho] at hk
          cases hk
          omega
        · rintro ⟨⟩
        · rintro b _ o' hb ⟨⟩ ho' _
          rw [ho] at ho'
          cases ho'
          cases hb
          rw [hrun, show n - o = buf.length by omega, List.drop_length, List.append_nil]

/-! ### The iff -/

/-- For every setter and getter, message type, code, body and body length: the call touches only bytes of the body and
of the caller's variables, refuses a body that is too short for the field with the body and the variables unchanged,
and delivers the whole payload, exactly when the functions that do not look at the length find the field in the body
and the buffer for a payload is no longer than the payload. -/
theorem fieldCall_safe_iff (c : FieldCall) (type : PktType) (code : PktCode) (body : Option Mem) (bodyLen : Nat) :
    c.Safe type code body bodyLen ↔ c.LengthOk type code body bodyLen := by
  cases body with
  | none =>
    refine ⟨fun _ => ?_, fun _ => FieldCall.safe_absent c⟩
    cases c with
    | setNumCells _ | setTotalNumCells _ => exact fun h => by cases h
    | getReserved v | getPayload v =>
      cases v with
      | none => trivial
      | some _ => exact fun h => by cases h
    | _ => trivial
  | some m =>
    cases c with
    | setNumCells v => exact FieldCall.safe_setNumCells v
    | setTotalNumCells v => exact FieldCall.safe_setTotalNumCells v
    | getReserved v =>
      cases v with
      | some v => exact FieldCall.safe_getReserved v
      | none =>
        refine iff_of_true ?_ trivial
        exact FieldCall.safe_of_good (Res.good_fail _ _) (by rintro ⟨⟩) (by rintro _ ⟨⟩)
    | getPayload v =>
      cases v with
      | some b => exact FieldCall.safe_getPayload b
      | none =>
        refine iff_of_true ?_ trivial
        exact FieldCall.safe_of_good (Res.good_fail _ _) (by rintro ⟨⟩) (by rintro _ ⟨⟩)
    | setMetadata v | setCellOptions v | setReserved v | setOffset v | setMaxNumCells v =>
      refine iff_of_true ?_ trivial
      exact FieldCall.safe_of_good ((Body.setField_good _ _ _).map fun _ => Vars.none) (fun _ => trivial) (by rintro _ ⟨⟩)
    | getMetadata v | getOffset v | getMaxNumCells v | getTotalNumCells v =>
      refine iff_of_true ?_ trivial
      exact FieldCall.safe_of_good ((Body.getField_good _ _ _ v).map Vars.word) (fun _ => trivial) (by rintro _ ⟨⟩)
    | getCellOptions v | getNumCells v =>
      refine iff_of_true ?_ trivial
      exact FieldCall.safe_of_good ((Body.getField_good _ _ _ v).map Vars.byte) (fun _ => trivial) (by rintro _ ⟨⟩)
    | setCellList l k o =>
      refine iff_of_true ?_ trivial
      exact FieldCall.safe_of_good ((Body.setCellList_good l k o).map fun _ => Vars.none) (fun _ => trivial)
        (by rintro _ ⟨⟩)
    | getCellList v =>
      refine iff_of_true ?_ trivial
      exact FieldCall.safe_of_good ((Body.getCellList_good type code v).map Vars.list) Body.getCellList_fits
        (by rintro _ ⟨⟩)
    | setRelCellList l k o =>
      refine iff_of_true ?_ trivial
      exact FieldCall.safe_of_good ((Body.setRelCellList_good l k o).map fun _ => Vars.none) (fun _ => trivial)
        (by rintro _ ⟨⟩)
    | getRelCellList v =>
      refine iff_of_true ?_ trivial
      exact FieldCall.safe_of_good ((Body.getRelCellList_good v).map Vars.list) Body.getRelCellList_fits
        (by rintro _ ⟨⟩)
    | setCandCellList l k o =>
      refine iff_of_true ?_ trivial
      exact FieldCall.safe_of_good ((Body.setCandCellList_good l k o).map fun _ => Vars.none) (fun _ => trivial)
        (by rintro _ ⟨⟩)
    | getCandCellList v =>
      refine iff_of_true ?_ trivial
      exact FieldCall.safe_of_good ((Body.getCandCellList_good v).map Vars.list) Body.getCandCellList_fits
        (by rintro _ ⟨⟩)
    | setPayload p k =>
      refine iff_of_true ?_ trivial
      exact FieldCall.safe_of_good ((Body.setPayload_good p k).map fun _ => Vars.none) (fun _ => trivial)
        (by rintro _ ⟨⟩)

/-- `sixp_pkt_set_num_cells` writes the NumCells of an ADD request into an empty body. -/
theorem numCells_past_body : ¬ (FieldCall.setNumCells 1).Safe .request Cmd.add (some fun _ => 0) 0 := by
  rw [FieldCall.safe_setNumCells]
  intro h
  have hle : 3 + 1 ≤ 0 := h rfl 3 rfl
  omega

end

end Contiki.Sixtop
