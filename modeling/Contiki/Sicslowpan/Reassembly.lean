/-
The receiving half of sicslowpan.c: reassembly contexts and fragment buffers, `add_fragment`,
`copy_frags2uip`, and `input` on a frame. Which timers have expired is given with each frame.
-/
import Contiki.Sicslowpan.Iphc
import Contiki.Lib.Cover
import Contiki.Lib.Run

namespace Contiki.Sicslowpan

section

open Contiki.Lib

/-! ## Data -/

/-- `SICSLOWPAN_REASS_CONTEXTS`, `SICSLOWPAN_FRAGMENT_BUFFERS`, `SICSLOWPAN_FRAGMENT_SIZE` and
`UIP_BUFSIZE`; lengths of fragments are kept in eight bits, and the build fails for a larger size. -/
structure ReassConfig where
  iphc : Config
  contexts : Nat
  buffers : Nat
  fragmentSize : Nat
  bufSize : Nat
  fragmentSize_le : fragmentSize ≤ 255

/-- `SICSLOWPAN_FIRST_FRAGMENT_SIZE`. -/
def ReassConfig.firstFragmentSize (rc : ReassConfig) : Nat := rc.fragmentSize + 38

/-- `struct sicslowpan_frag_info`. -/
structure FragInfo where
  sender : List UInt8
  tag : Nat
  len : Nat
  reassembledLen : Nat
  firstFragLen : Nat
  firstFrag : Mem

/-- `struct sicslowpan_frag_buf`. -/
structure FragBuf where
  index : Nat
  offset : Nat
  len : Nat
  data : Mem

/-- `frag_info`, `frag_buf` and `uip_buf`. -/
structure Node where
  fragInfo : Nat → FragInfo
  fragBuf : Nat → FragBuf
  uip : Mem

structure Frame where
  sender : List UInt8
  receiver : List UInt8
  pb : Packetbuf

def lladdr (a : List UInt8) : Mem := fun i => a.getD i 0

/-! ## The fragmentation header -/

def get16 (ptr : Mem) (index : Nat) : Nat := (ptr index).toNat * 256 + (ptr (index + 1)).toNat

def dispatchFrag1 : UInt8 := 0xc0
def dispatchFragn : UInt8 := 0xe0
def dispatchFragMask : UInt8 := 0xf8
def dispatchIpv6 : UInt8 := 0x41
def dispatchIphcMask : UInt8 := 0xe0
def dispatchPaging : UInt8 := 0xf0
def frag1HdrLen : Nat := 4
def fragnHdrLen : Nat := 5

def Frame.dispatch (f : Frame) : UInt8 := f.pb.byte 0 &&& dispatchFragMask
def Frame.fragSize (f : Frame) : Nat := get16 f.pb.byte 0 % 2048
def Frame.fragTag (f : Frame) : Nat := get16 f.pb.byte 2
def Frame.fragOffset (f : Frame) : Nat := (f.pb.byte 4).toNat

/-! ## Contexts and buffers -/

def setInfo (s : Node) (i : Nat) (v : FragInfo) : Node := { s with fragInfo := Function.update s.fragInfo i v }

def Belongs (rc : ReassConfig) (s : Node) (i j : Nat) : Prop :=
  j < rc.buffers ∧ 0 < (s.fragBuf j).len ∧ (s.fragBuf j).index = i

instance (rc : ReassConfig) (s : Node) (i j : Nat) : Decidable (Belongs rc s i j) := by
  unfold Belongs; infer_instance

/-- `clear_fragments`, with the number of buffers it frees. -/
def clearFragments (rc : ReassConfig) (s : Node) (i : Nat) : Node × Nat :=
  ({ s with
      fragInfo := Function.update s.fragInfo i { s.fragInfo i with len := 0 }
      fragBuf := fun j => if Belongs rc s i j then { s.fragBuf j with len := 0 } else s.fragBuf j },
    (List.range rc.buffers).countP fun j => Belongs rc s i j)

/-- One context of `timeout_fragments`. -/
def timeoutContext (rc : ReassConfig) (expired : Nat → Bool) (notContext : Nat) (r : Node × Nat) (i : Nat) :
    Node × Nat :=
  if 0 < (r.1.fragInfo i).len ∧ i ≠ notContext ∧ expired i = true then
    ((clearFragments rc r.1 i).1, r.2 + (clearFragments rc r.1 i).2)
  else r

def timeoutFragments (rc : ReassConfig) (expired : Nat → Bool) (s : Node) (notContext : Nat) : Node × Nat :=
  (List.range rc.contexts).foldl (timeoutContext rc expired notContext) (s, 0)

/-- `store_fragment`: the fragment behind the FRAGN header. -/
def storeFragment (rc : ReassConfig) (s : Node) (f : Frame) (index offset : Nat) : Option (Node × Nat) :=
  let len := f.pb.datalen - fragnHdrLen
  if len = 0 ∨ rc.fragmentSize < len then none
  else
    match (List.range rc.buffers).find? fun j => (s.fragBuf j).len = 0 with
    | none => none
    | some j =>
      some ({ s with
        fragBuf := Function.update s.fragBuf j ⟨index, offset, len, fun k => f.pb.byte (fragnHdrLen + k)⟩ }, len)

/-- One context of the loop of `add_fragment` for offset 0: it is freed when it has expired, and the
first free one is remembered. -/
def freeContext (rc : ReassConfig) (expired : Nat → Bool) (r : Node × Option Nat) (i : Nat) : Node × Option Nat :=
  let s := if 0 < (r.1.fragInfo i).len ∧ expired i = true then (clearFragments rc r.1 i).1 else r.1
  (s, if r.2 = none ∧ (s.fragInfo i).len = 0 then some i else r.2)

def findFree (rc : ReassConfig) (expired : Nat → Bool) (s : Node) : Node × Option Nat :=
  (List.range rc.contexts).foldl (freeContext rc expired) (s, none)

/-- `add_fragment` for offset 0. -/
@[grind =]
def addFirst (rc : ReassConfig) (expired : Nat → Bool) (s : Node) (f : Frame) : Node × Option Nat :=
  match findFree rc expired s with
  | (s, none) => (s, none)
  | (s, some i) =>
    (setInfo s i { s.fragInfo i with len := f.fragSize, tag := f.fragTag, sender := f.sender }, some i)

def findContext (rc : ReassConfig) (s : Node) (f : Frame) : Option Nat :=
  (List.range rc.contexts).find? fun i =>
    (s.fragInfo i).tag = f.fragTag ∧ 0 < (s.fragInfo i).len ∧ (s.fragInfo i).sender = f.sender

def addFragment (rc : ReassConfig) (expired : Nat → Bool) (s : Node) (f : Frame) (offset : Nat) :
    Node × Option Nat :=
  if offset = 0 then addFirst rc expired s f
  else
    match findContext rc s f with
    | none => (s, none)
    | some i =>
      let add := fun (s : Node) (len : Nat) =>
        setInfo s i { s.fragInfo i with reassembledLen := ((s.fragInfo i).reassembledLen + len) % 65536 }
      match storeFragment rc s f i offset with
      | some (s, len) => (add s len, some i)
      | none =>
        let t := timeoutFragments rc expired s i
        if 0 < t.2 then
          match storeFragment rc t.1 f i offset with
          | some (s, len) => (add s len, some i)
          | none => (t.1, none)
        else (t.1, none)

/-- The loop of `copy_frags2uip` over the buffers; what has been copied stays when it stops. -/
@[grind =]
def copyBufs (rc : ReassConfig) (s : Node) (context : Nat) : List Nat → Mem → Except Mem Mem
  | [], uip => .ok uip
  | j :: js, uip =>
    if 0 < (s.fragBuf j).len ∧ (s.fragBuf j).index = context then
      if (s.fragBuf j).offset * 8 + (s.fragBuf j).len > rc.bufSize then .error uip
      else copyBufs rc s context js (Mem.paste ((s.fragBuf j).offset * 8) (s.fragBuf j).len (s.fragBuf j).data uip)
    else copyBufs rc s context js uip

@[grind =]
def copyFrags2uip (rc : ReassConfig) (s : Node) (context : Nat) : Node × Bool :=
  let c := s.fragInfo context
  if c.len < c.firstFragLen ∨ rc.bufSize < c.len then ((clearFragments rc s context).1, false)
  else
    let uip := Mem.fill c.firstFragLen (c.len - c.firstFragLen) 0 (Mem.paste 0 c.firstFragLen c.firstFrag s.uip)
    match copyBufs rc s context (List.range rc.buffers) uip with
    | .error uip => ((clearFragments rc { s with uip := uip } context).1, false)
    | .ok uip => ((clearFragments rc { s with uip := uip } context).1, true)

/-! ## Input -/

/-- A call of `tcpip_input`: `uip_len`, `uip_buf`, and the context of a reassembled packet. -/
structure Handed where
  len : Nat
  uip : Mem
  context : Option Nat

/-- The paging and header dispatch of `input`, on what stands at `hdrLen`. -/
def inputHeader (rc : ReassConfig) (f : Frame) (hdrLen : Nat) (buf : Mem) (bufSize fragSize : Nat) :
    Except Mem Uncompressed :=
  let paging := f.pb.byte hdrLen &&& dispatchPaging = dispatchPaging
  let currPage := if paging then f.pb.byte hdrLen &&& 0x0f else 0
  let hdrLen := if paging then hdrLen + 1 else hdrLen
  if currPage > 1 then .error buf
  else if f.pb.byte hdrLen &&& dispatchIphcMask = dispatchIphc then
    uncompressHdrIphc rc.iphc f.pb (lladdr f.sender) (lladdr f.receiver) hdrLen 0 buf bufSize fragSize
  else if f.pb.byte hdrLen = dispatchIpv6 then
    .ok ⟨Mem.paste 0 40 (fun i => f.pb.byte (hdrLen + 1 + i)) buf, hdrLen + 41, 40⟩
  else .error buf

/-- `input` on a first fragment: it is stored in the context and nothing is handed on. -/
@[grind =]
def inputFrag1 (rc : ReassConfig) (expired : Nat → Bool) (s : Node) (f : Frame) : Node :=
  match addFragment rc expired s f 0 with
  | (s, none) => s
  | (s, some i) =>
    match inputHeader rc f frag1HdrLen (s.fragInfo i).firstFrag rc.firstFragmentSize f.fragSize with
    | .error buf => setInfo s i { s.fragInfo i with firstFrag := buf }
    | .ok r =>
      let s := setInfo s i { s.fragInfo i with firstFrag := r.buf }
      if f.pb.datalen < r.packetbufHdrLen then s
      else
        let payloadLen := f.pb.datalen - r.packetbufHdrLen
        if r.uncompHdrLen + payloadLen > rc.bufSize then (clearFragments rc s i).1
        else if r.uncompHdrLen + payloadLen > rc.firstFragmentSize then s
        else
          let s := setInfo s i { s.fragInfo i with
            firstFrag := Mem.paste r.uncompHdrLen payloadLen (fun k => f.pb.byte (r.packetbufHdrLen + k)) r.buf }
          if f.fragSize > 0 then
            setInfo s i { s.fragInfo i with
              reassembledLen := r.uncompHdrLen + payloadLen, firstFragLen := r.uncompHdrLen + payloadLen }
          else s

/-- `input` on an N-fragment, which `add_fragment` takes for a first one when its offset is 0. -/
@[grind =]
def inputFragn (rc : ReassConfig) (expired : Nat → Bool) (s : Node) (f : Frame) : Node × Option Handed :=
  match addFragment rc expired s f f.fragOffset with
  | (s, none) => (s, none)
  | (s, some i) =>
    let last := (s.fragInfo i).reassembledLen ≥ f.fragSize
    if f.pb.datalen < fragnHdrLen then (s, none)
    else if f.fragOffset * 8 + (f.pb.datalen - fragnHdrLen) > rc.bufSize then ((clearFragments rc s i).1, none)
    else if last then
      if f.fragSize > 0 then
        let s := setInfo s i { s.fragInfo i with reassembledLen := f.fragSize }
        match copyFrags2uip rc s i with
        | (s, false) => (s, none)
        | (s, true) => (s, some ⟨f.fragSize, s.uip, some i⟩)
      else (s, some ⟨f.fragSize, s.uip, some i⟩)
    else (s, none)

/-- `input` on a frame without a fragmentation header; `frag_context` is 0 there. -/
def inputWhole (rc : ReassConfig) (s : Node) (f : Frame) : Node × Option Handed :=
  match inputHeader rc f 0 s.uip rc.bufSize 0 with
  | .error buf => ({ s with uip := buf }, none)
  | .ok r =>
    let s := { s with uip := r.buf }
    if f.pb.datalen < r.packetbufHdrLen then (s, none)
    else
      let payloadLen := f.pb.datalen - r.packetbufHdrLen
      if r.uncompHdrLen + payloadLen > rc.bufSize then ((clearFragments rc s 0).1, none)
      else
        let s := { s with
          uip := Mem.paste r.uncompHdrLen payloadLen (fun k => f.pb.byte (r.packetbufHdrLen + k)) r.buf }
        (s, some ⟨payloadLen + r.uncompHdrLen, s.uip, none⟩)

def input (rc : ReassConfig) (expired : Nat → Bool) (s : Node) (f : Frame) : Node × Option Handed :=
  if f.pb.datalen = 0 then (s, none)
  else if f.dispatch = dispatchFrag1 then (inputFrag1 rc expired s f, none)
  else if f.dispatch = dispatchFragn then inputFragn rc expired s f
  else inputWhole rc s f

end

/-!
What `input` hands on over whole runs of frames. A run records the frames received and where each
context was opened; `reassembled_complete` holds of runs whose first fragments are decompressed from
their own bytes and whose N-fragments agree with their context on the size and overlap nothing.
-/

section

open Contiki.Lib

/-! ## The system -/

/-- A reassembled packet: the place of the frame that opened its context, and how many frames had
been received. -/
structure Report where
  handed : Handed
  opened : Nat
  seen : Nat

structure Sys where
  node : Node
  history : List Frame
  opened : Nat → Nat
  out : List Report

def Sys.start : Sys where
  node := ⟨fun _ => ⟨[], 0, 0, 0, 0, fun _ => 0⟩, fun _ => ⟨0, 0, 0, fun _ => 0⟩, fun _ => 0⟩
  history := []
  opened := fun _ => 0
  out := []

/-- A frame, with the timers that have expired. -/
structure Arrival where
  expired : Nat → Bool
  frame : Frame

def opens (rc : ReassConfig) (s : Node) (a : Arrival) : Option Nat :=
  if a.frame.pb.datalen ≠ 0 ∧ (a.frame.dispatch = dispatchFrag1 ∨
      a.frame.dispatch = dispatchFragn ∧ a.frame.fragOffset = 0) then
    (addFirst rc a.expired s a.frame).2
  else none

@[grind =]
def Sys.openedAt (rc : ReassConfig) (x : Sys) (a : Arrival) : Nat → Nat :=
  match opens rc x.node a with
  | some i => Function.update x.opened i x.history.length
  | none => x.opened

@[grind =]
def Sys.receive (rc : ReassConfig) (x : Sys) (a : Arrival) : Option Sys :=
  let r := input rc a.expired x.node a.frame
  let opened := x.openedAt rc a
  some {
    node := r.1
    history := x.history ++ [a.frame]
    opened := opened
    out := match r.2 with
      | some h => match h.context with
        | some i => x.out ++ [⟨h, opened i, x.history.length + 1⟩]
        | none => x.out
      | none => x.out }

/-! ## The property and the condition -/

def Frame.header (rc : ReassConfig) (f : Frame) : Except Mem Uncompressed :=
  inputHeader rc f frag1HdrLen (fun _ => 0) rc.firstFragmentSize f.fragSize

def frag1Bytes (f : Frame) (r : Uncompressed) : Mem :=
  Mem.paste r.uncompHdrLen (f.pb.datalen - r.packetbufHdrLen) (fun k => f.pb.byte (r.packetbufHdrLen + k)) r.buf

def frag1Len (f : Frame) (r : Uncompressed) : Nat := r.uncompHdrLen + (f.pb.datalen - r.packetbufHdrLen)

def Frame.fragnBlock (g : Frame) : Nat × Nat := (g.fragOffset * 8, g.pb.datalen - fragnHdrLen)

/-- An N-fragment of the packet that `f` is the first fragment of. -/
def SamePacket (f g : Frame) : Prop := g.dispatch = dispatchFragn ∧ g.sender = f.sender ∧ g.fragTag = f.fragTag

/-- The packet has the size its first fragment announced, fits the buffer, and every byte of it was
received in that fragment or in an N-fragment of its sender and tag since then. -/
def Complete (rc : ReassConfig) (history : List Frame) (r : Report) : Prop :=
  ∃ f, history[r.opened]? = some f ∧ f.dispatch = dispatchFrag1 ∧ r.handed.len = f.fragSize ∧
    r.handed.len ≤ rc.bufSize ∧ ∀ x, x < r.handed.len →
      (∃ h, f.header rc = .ok h ∧ x < frag1Len f h ∧ r.handed.uip x = frag1Bytes f h x) ∨
      ∃ k g, r.opened < k ∧ k < r.seen ∧ history[k]? = some g ∧ SamePacket f g ∧
        g.fragnBlock.1 ≤ x ∧ x < g.fragnBlock.1 + g.fragnBlock.2 ∧
        r.handed.uip x = g.pb.byte (fragnHdrLen + (x - g.fragnBlock.1))

/-- Every byte of the header is rebuilt from the frame, whatever the buffer held. -/
def Determined (rc : ReassConfig) (f : Frame) (h : Uncompressed) : Prop :=
  ∀ buf, ∃ h', inputHeader rc f frag1HdrLen buf rc.firstFragmentSize f.fragSize = .ok h' ∧
    h'.packetbufHdrLen = h.packetbufHdrLen ∧ h'.uncompHdrLen = h.uncompHdrLen ∧
    ∀ x, x < h.uncompHdrLen → h'.buf x = h.buf x

/-- A first fragment that is stored, or drops its context at once. -/
structure Frag1Fits (rc : ReassConfig) (f : Frame) (h : Uncompressed) : Prop where
  header : f.header rc = .ok h
  determined : Determined rc f h
  inside : h.packetbufHdrLen ≤ f.pb.datalen
  room : frag1Len f h ≤ rc.firstFragmentSize ∨ rc.bufSize < frag1Len f h

def block (s : Node) (j : Nat) : Nat × Nat := ((s.fragBuf j).offset * 8, (s.fragBuf j).len)

/-- An N-fragment that adds new bytes of the packet to its context. -/
structure FragnFits (rc : ReassConfig) (s : Node) (i : Nat) (f : Frame) : Prop where
  size : f.fragSize = (s.fragInfo i).len
  behind : (s.fragInfo i).firstFragLen ≤ f.fragnBlock.1
  inside : f.fragnBlock.1 + f.fragnBlock.2 ≤ (s.fragInfo i).len
  apart : ∀ j, Belongs rc s i j → Apart f.fragnBlock (block s j)

/-- A first fragment that opens a context fits it; an N-fragment does not open one and fits the one
it is for. -/
def Fits (rc : ReassConfig) (x : Sys) (a : Arrival) : Prop :=
  if a.frame.pb.datalen = 0 then True
  else if a.frame.dispatch = dispatchFrag1 then
    opens rc x.node a = none ∨ a.frame.fragSize = 0 ∨ ∃ h, Frag1Fits rc a.frame h
  else if a.frame.dispatch = dispatchFragn then
    opens rc x.node a = none ∧ ∀ i, findContext rc x.node a.frame = some i → FragnFits rc x.node i a.frame
  else True

/-! ## The invariant -/

def slots (rc : ReassConfig) (s : Node) (i : Nat) : Finset Nat := (Finset.range rc.buffers).filter (Belongs rc s i)

theorem mem_slots {rc : ReassConfig} {s : Node} {i j : Nat} : j ∈ slots rc s i ↔ Belongs rc s i j := by
  unfold slots
  rw [Finset.mem_filter, Finset.mem_range]
  exact ⟨fun h => h.2, fun h => ⟨h.1, h⟩⟩

/-- A buffer holds an N-fragment that came after the frame at `o`. -/
def Stored (history : List Frame) (o : Nat) (f : Frame) (b : FragBuf) : Prop :=
  ∃ k g, o < k ∧ history[k]? = some g ∧ SamePacket f g ∧ g.fragnBlock = (b.offset * 8, b.len) ∧
    ∀ y, y < b.len → b.data y = g.pb.byte (fragnHdrLen + y)

/-- An open context holds the first fragment at `o`, and its buffers disjoint N-fragments of the same
packet behind it. -/
structure ContextOk (rc : ReassConfig) (history : List Frame) (o : Nat) (s : Node) (i : Nat) (f : Frame)
    (h : Uncompressed) : Prop where
  at_o : history[o]? = some f
  first : f.dispatch = dispatchFrag1
  header : f.header rc = .ok h
  len : (s.fragInfo i).len = f.fragSize
  tag : (s.fragInfo i).tag = f.fragTag
  sender : (s.fragInfo i).sender = f.sender
  firstLen : (s.fragInfo i).firstFragLen = frag1Len f h
  room : frag1Len f h ≤ rc.firstFragmentSize
  bytes : ∀ x, x < frag1Len f h → (s.fragInfo i).firstFrag x = frag1Bytes f h x
  stored : ∀ j ∈ slots rc s i, Stored history o f (s.fragBuf j)
  inside : ∀ j ∈ slots rc s i, frag1Len f h ≤ (block s j).1 ∧ (block s j).1 + (block s j).2 ≤ f.fragSize
  apart : ∀ j ∈ slots rc s i, ∀ k ∈ slots rc s i, j ≠ k → Apart (block s j) (block s k)
  sum : (s.fragInfo i).reassembledLen = frag1Len f h + ∑ j ∈ slots rc s i, (block s j).2

/-- The contexts and buffers after a run. -/
structure NodeOk (rc : ReassConfig) (history : List Frame) (opened : Nat → Nat) (s : Node) : Prop where
  live : ∀ i j, Belongs rc s i j → 0 < (s.fragInfo i).len
  context : ∀ i, 0 < (s.fragInfo i).len → ∃ f h, ContextOk rc history (opened i) s i f h

structure SysOk (rc : ReassConfig) (x : Sys) : Prop where
  node : NodeOk rc x.history x.opened x.node
  out : ∀ r ∈ x.out, Complete rc x.history r

theorem start_ok (rc : ReassConfig) : SysOk rc Sys.start := by
  constructor
  · constructor
    · rintro i j ⟨-, hlen, -⟩
      exact absurd hlen (by simp [Sys.start])
    · intro i hi
      exact absurd hi (by simp [Sys.start])
  · simp [Sys.start]

section

variable {rc : ReassConfig} {history : List Frame} {opened : Nat → Nat} {s s' : Node} {i j : Nat} {f : Frame}
  {h : Uncompressed} {o : Nat}

/-! ## Contexts that are left alone -/

structure SameContext (rc : ReassConfig) (i : Nat) (s s' : Node) : Prop where
  info : s'.fragInfo i = s.fragInfo i
  belongs : ∀ j, Belongs rc s' i j ↔ Belongs rc s i j
  buf : ∀ j, Belongs rc s i j → s'.fragBuf j = s.fragBuf j

theorem SameContext.refl (rc : ReassConfig) (i : Nat) (s : Node) : SameContext rc i s s :=
  ⟨rfl, fun _ => Iff.rfl, fun _ _ => rfl⟩

theorem SameContext.trans {s'' : Node} (h : SameContext rc i s s') (h' : SameContext rc i s' s'') :
    SameContext rc i s s'' :=
  ⟨h'.info.trans h.info, fun j => (h'.belongs j).trans (h.belongs j),
    fun j hj => (h'.buf j ((h.belongs j).2 hj)).trans (h.buf j hj)⟩

theorem SameContext.slots (h : SameContext rc i s s') : slots rc s' i = slots rc s i := by
  ext j
  rw [mem_slots, mem_slots, h.belongs j]

theorem ContextOk.same (hc : ContextOk rc history o s i f h) (hs : SameContext rc i s s') :
    ContextOk rc history o s' i f h := by
  have hbuf : ∀ j ∈ Sicslowpan.slots rc s i, s'.fragBuf j = s.fragBuf j := fun j hj => hs.buf j (mem_slots.1 hj)
  have hblock : ∀ j ∈ Sicslowpan.slots rc s i, block s' j = block s j := fun j hj => by
    unfold block
    rw [hbuf j hj]
  constructor
  case at_o => exact hc.at_o
  case first => exact hc.first
  case header => exact hc.header
  case len => rw [hs.info, hc.len]
  case tag => rw [hs.info, hc.tag]
  case sender => rw [hs.info, hc.sender]
  case firstLen => rw [hs.info, hc.firstLen]
  case room => exact hc.room
  case bytes =>
    rw [hs.info]
    exact hc.bytes
  case stored =>
    rw [hs.slots]
    intro j hj
    rw [hbuf j hj]
    exact hc.stored j hj
  case inside =>
    rw [hs.slots]
    intro j hj
    rw [hblock j hj]
    exact hc.inside j hj
  case apart =>
    rw [hs.slots]
    intro j hj k hk hjk
    rw [hblock j hj, hblock k hk]
    exact hc.apart j hj k hk hjk
  case sum =>
    rw [hs.slots, hs.info, hc.sum, Finset.sum_congr rfl fun j hj => congrArg Prod.snd (hblock j hj)]

theorem stored_append {b : FragBuf} (hb : Stored history o f b) (g : Frame) : Stored (history ++ [g]) o f b := by
  obtain ⟨k, g', hk, hg, hrest⟩ := hb
  exact ⟨k, g', hk, by rw [List.getElem?_append_left (List.getElem?_eq_some_iff.1 hg).1]; exact hg, hrest⟩

theorem ContextOk.append (hc : ContextOk rc history o s i f h) (g : Frame) : ContextOk rc (history ++ [g]) o s i f h :=
  { hc with
    at_o := by rw [List.getElem?_append_left (List.getElem?_eq_some_iff.1 hc.at_o).1]; exact hc.at_o
    stored := fun j hj => stored_append (hc.stored j hj) g }

theorem NodeOk.append (hn : NodeOk rc history opened s) (g : Frame) : NodeOk rc (history ++ [g]) opened s := by
  refine ⟨hn.live, fun i hi => ?_⟩
  obtain ⟨f, h, hc⟩ := hn.context i hi
  exact ⟨f, h, hc.append g⟩

theorem Complete.append {r : Report} (hr : Complete rc history r) (g : Frame) : Complete rc (history ++ [g]) r := by
  have hget : ∀ {k : Nat} {f : Frame}, history[k]? = some f → (history ++ [g])[k]? = some f := by
    intro k f hk
    rw [List.getElem?_append_left (List.getElem?_eq_some_iff.1 hk).1]
    exact hk
  obtain ⟨f, hf, h1, h2, h3, h4⟩ := hr
  refine ⟨f, hget hf, h1, h2, h3, fun x hx => ?_⟩
  rcases h4 x hx with h | ⟨k, g', hk, hk', hg, hrest⟩
  · exact .inl h
  · exact .inr ⟨k, g', hk, hk', hget hg, hrest⟩

/-! ## Freeing contexts -/

theorem clear_len (s : Node) (i : Nat) : ((clearFragments rc s i).1.fragInfo i).len = 0 := by
  simp [clearFragments]

theorem clear_belongs (s : Node) (i k j : Nat) :
    Belongs rc (clearFragments rc s i).1 k j ↔ Belongs rc s k j ∧ k ≠ i := by
  have hbuf : (clearFragments rc s i).1.fragBuf j =
      if Belongs rc s i j then { s.fragBuf j with len := 0 } else s.fragBuf j := rfl
  show j < rc.buffers ∧ 0 < ((clearFragments rc s i).1.fragBuf j).len ∧
    ((clearFragments rc s i).1.fragBuf j).index = k ↔ _
  rw [hbuf]
  by_cases hb : Belongs rc s i j
  · rw [if_pos hb]
    constructor
    · rintro ⟨-, h, -⟩
      exact absurd h (lt_irrefl 0)
    · rintro ⟨⟨-, -, hk⟩, hne⟩
      exact absurd (hk.symm.trans hb.2.2) hne
  · rw [if_neg hb]
    constructor
    · exact fun h => ⟨h, fun he => hb (he ▸ h)⟩
    · exact fun h => h.1

theorem clear_same (s : Node) {i k : Nat} (hk : k ≠ i) : SameContext rc k s (clearFragments rc s i).1 := by
  refine ⟨by simp [clearFragments, hk], fun j => ?_, fun j hj => ?_⟩
  · rw [clear_belongs]
    exact and_iff_left hk
  · have hb : ¬ Belongs rc s i j := fun h => hk (hj.2.2.symm.trans h.2.2)
    simp [clearFragments, hb]

variable {opened' : Nat → Nat}

theorem NodeOk.replace (hn : NodeOk rc history opened s)
    (hsame : ∀ k, k ≠ i → SameContext rc k s s') (hopened : ∀ k, k ≠ i → opened' k = opened k)
    (hlive : ∀ j, Belongs rc s' i j → 0 < (s'.fragInfo i).len)
    (hnew : 0 < (s'.fragInfo i).len → ∃ f h, ContextOk rc history (opened' i) s' i f h) :
    NodeOk rc history opened' s' := by
  constructor
  · intro k j hj
    by_cases hki : k = i
    · rw [hki] at hj ⊢
      exact hlive j hj
    · rw [(hsame k hki).info]
      exact hn.live k j (((hsame k hki).belongs j).1 hj)
  · intro k hk
    by_cases hki : k = i
    · rw [hki] at hk ⊢
      exact hnew hk
    · rw [(hsame k hki).info] at hk
      obtain ⟨f, h, hc⟩ := hn.context k hk
      rw [hopened k hki]
      exact ⟨f, h, hc.same (hsame k hki)⟩

theorem clear_ok (hn : NodeOk rc history opened s) (i : Nat) : NodeOk rc history opened (clearFragments rc s i).1 := by
  refine hn.replace (fun k hk => clear_same s hk) (fun _ _ => rfl) (fun j hj => ?_) fun hpos => ?_
  · exact absurd rfl ((clear_belongs s i i j).1 hj).2
  · rw [clear_len] at hpos
    cases hpos

variable {expired : Nat → Bool}

theorem timeoutContext_ok {r : Node × Nat} (k : Nat)
    (hr : NodeOk rc history opened r.1 ∧ SameContext rc i s r.1) :
    NodeOk rc history opened (timeoutContext rc expired i r k).1 ∧
      SameContext rc i s (timeoutContext rc expired i r k).1 := by
  unfold timeoutContext
  split
  case isTrue hk => exact ⟨clear_ok hr.1 k, hr.2.trans (clear_same r.1 (Ne.symm hk.2.1))⟩
  case isFalse => exact hr

theorem timeout_ok (hn : NodeOk rc history opened s) (i : Nat) :
    NodeOk rc history opened (timeoutFragments rc expired s i).1 ∧
      SameContext rc i s (timeoutFragments rc expired s i).1 := by
  have key : ∀ (l : List Nat) (r : Node × Nat), NodeOk rc history opened r.1 ∧ SameContext rc i s r.1 →
      NodeOk rc history opened (l.foldl (timeoutContext rc expired i) r).1 ∧
        SameContext rc i s (l.foldl (timeoutContext rc expired i) r).1 := by
    intro l
    induction l with
    | nil => exact fun r hr => hr
    | cons k l ih => exact fun r hr => ih _ (timeoutContext_ok k hr)
  exact key _ _ ⟨hn, .refl rc i s⟩

theorem freeContext_ok {r : Node × Option Nat} (k : Nat)
    (hr : NodeOk rc history opened r.1 ∧ ∀ i, r.2 = some i → (r.1.fragInfo i).len = 0) :
    NodeOk rc history opened (freeContext rc expired r k).1 ∧
      ∀ i, (freeContext rc expired r k).2 = some i → ((freeContext rc expired r k).1.fragInfo i).len = 0 := by
  unfold freeContext
  dsimp only
  generalize hs : (if 0 < (r.1.fragInfo k).len ∧ expired k = true then (clearFragments rc r.1 k).1 else r.1) = s'
  have hok : NodeOk rc history opened s' ∧ ∀ i, (r.1.fragInfo i).len = 0 → (s'.fragInfo i).len = 0 := by
    rw [← hs]
    split
    · refine ⟨clear_ok hr.1 k, fun i hi => ?_⟩
      by_cases hik : i = k
      · rw [hik]
        exact clear_len r.1 k
      · rw [(clear_same r.1 hik).info]
        exact hi
    · exact ⟨hr.1, fun i hi => hi⟩
  refine ⟨hok.1, fun i hi => ?_⟩
  split at hi
  case isTrue hfree =>
    cases hi
    exact hfree.2
  case isFalse => exact hok.2 i (hr.2 i hi)

theorem findFree_ok (hn : NodeOk rc history opened s) :
    NodeOk rc history opened (findFree rc expired s).1 ∧
      ∀ i, (findFree rc expired s).2 = some i → ((findFree rc expired s).1.fragInfo i).len = 0 := by
  have key : ∀ (l : List Nat) (r : Node × Option Nat),
      NodeOk rc history opened r.1 ∧ (∀ i, r.2 = some i → (r.1.fragInfo i).len = 0) →
      NodeOk rc history opened (l.foldl (freeContext rc expired) r).1 ∧
        ∀ i, (l.foldl (freeContext rc expired) r).2 = some i →
          ((l.foldl (freeContext rc expired) r).1.fragInfo i).len = 0 := by
    intro l
    induction l with
    | nil => exact fun r hr => hr
    | cons k l ih => exact fun r hr => ih _ (freeContext_ok k hr)
  exact key _ _ ⟨hn, by simp⟩

/-! ## First fragments -/

theorem setInfo_same (s : Node) {i k : Nat} (hk : k ≠ i) (v : FragInfo) : SameContext rc k s (setInfo s i v) :=
  ⟨by simp [setInfo, hk], fun _ => Iff.rfl, fun _ _ => rfl⟩

@[simp] theorem setInfo_info (s : Node) (i : Nat) (v : FragInfo) : (setInfo s i v).fragInfo i = v := by
  simp [setInfo]

@[simp] theorem setInfo_setInfo (s : Node) (i : Nat) (v w : FragInfo) : setInfo (setInfo s i v) i w = setInfo s i w := by
  simp [setInfo]

theorem NodeOk.free (hn : NodeOk rc history opened s) (hi : (s.fragInfo i).len = 0) (j : Nat) : ¬ Belongs rc s i j := by
  intro hj
  have := hn.live i j hj
  omega

theorem closed_ok (hn : NodeOk rc history opened s) (hi : (s.fragInfo i).len = 0)
    (hopened : ∀ k, k ≠ i → opened' k = opened k) (v : FragInfo) :
    (v.len = 0 → NodeOk rc history opened' (setInfo s i v)) ∧
      NodeOk rc history opened' (clearFragments rc (setInfo s i v) i).1 := by
  constructor
  · intro hv
    refine hn.replace (fun k hk => setInfo_same s hk v) hopened (fun j hj => absurd hj (hn.free hi j)) fun hpos => ?_
    rw [setInfo_info, hv] at hpos
    cases hpos
  · refine hn.replace (fun k hk => (setInfo_same s hk v).trans (clear_same _ hk)) hopened (fun j hj => ?_)
      fun hpos => ?_
    · exact absurd rfl ((clear_belongs _ i i j).1 hj).2
    · rw [clear_len] at hpos
      cases hpos

theorem stored_context (hfree : ∀ j, ¬ Belongs rc s i j) {v : FragInfo} (hat : history[o]? = some f)
    (hfirst : f.dispatch = dispatchFrag1) (hh : f.header rc = .ok h) (hlen : v.len = f.fragSize)
    (htag : v.tag = f.fragTag) (hsender : v.sender = f.sender) (hfl : v.firstFragLen = frag1Len f h)
    (hroom : frag1Len f h ≤ rc.firstFragmentSize) (hbytes : ∀ x, x < frag1Len f h → v.firstFrag x = frag1Bytes f h x)
    (hsum : v.reassembledLen = frag1Len f h) : ContextOk rc history o (setInfo s i v) i f h := by
  have hslots : slots rc (setInfo s i v) i = ∅ := by
    ext j
    rw [mem_slots]
    simp only [Finset.notMem_empty, iff_false]
    exact hfree j
  constructor
  case at_o => exact hat
  case first => exact hfirst
  case header => exact hh
  case len => rw [setInfo_info, hlen]
  case tag => rw [setInfo_info, htag]
  case sender => rw [setInfo_info, hsender]
  case firstLen => rw [setInfo_info, hfl]
  case room => exact hroom
  case bytes =>
    rw [setInfo_info]
    exact hbytes
  case sum =>
    rw [setInfo_info, hslots, hsum, Finset.sum_empty, Nat.add_zero]
  all_goals
    rw [hslots]
    simp

theorem stored_ok (hn : NodeOk rc history opened s) (hi : (s.fragInfo i).len = 0)
    (hopened : ∀ k, k ≠ i → opened' k = opened k) {v : FragInfo}
    (hc : ContextOk rc history (opened' i) (setInfo s i v) i f h) : NodeOk rc history opened' (setInfo s i v) :=
  hn.replace (fun _ hk => setInfo_same s hk v) hopened (fun j hj => absurd hj (hn.free hi j)) fun _ => ⟨f, h, hc⟩

theorem addFirst_eq (hf : (findFree rc expired s).2 = some i) :
    addFirst rc expired s f = (setInfo (findFree rc expired s).1 i { (findFree rc expired s).1.fragInfo i with
      len := f.fragSize, tag := f.fragTag, sender := f.sender }, some i) := by
  unfold addFirst
  generalize findFree rc expired s = r at hf
  obtain ⟨s', o⟩ := r
  cases hf
  rfl

theorem addFirst_none (hf : (findFree rc expired s).2 = none) :
    addFirst rc expired s f = ((findFree rc expired s).1, none) := by
  unfold addFirst
  generalize findFree rc expired s = r at hf
  obtain ⟨s', o⟩ := r
  cases hf
  rfl

theorem inputFrag1_stored (hfit : Frag1Fits rc f h)
    (hfound : (findFree rc expired s).2 = some i) (hsize : 0 < f.fragSize) (hbuf : frag1Len f h ≤ rc.bufSize) :
    ∃ v, inputFrag1 rc expired s f = setInfo (findFree rc expired s).1 i v ∧ v.len = f.fragSize ∧
      v.tag = f.fragTag ∧ v.sender = f.sender ∧ v.firstFragLen = frag1Len f h ∧ v.reassembledLen = frag1Len f h ∧
      ∀ x, x < frag1Len f h → v.firstFrag x = frag1Bytes f h x := by
  obtain ⟨h', hh', hp, hu, hb⟩ := hfit.determined ((findFree rc expired s).1.fragInfo i).firstFrag
  have hin := hfit.inside
  have hroom : frag1Len f h ≤ rc.firstFragmentSize := hfit.room.resolve_right (by omega)
  have hlen : h'.uncompHdrLen + (f.pb.datalen - h'.packetbufHdrLen) = frag1Len f h := by
    unfold frag1Len
    rw [hp, hu]
  have hadd : addFragment rc expired s f 0 = addFirst rc expired s f := by simp [addFragment]
  unfold inputFrag1
  rw [hadd, addFirst_eq hfound]
  simp only [setInfo_info, setInfo_setInfo, hh', hlen]
  rw [if_neg (by omega), if_neg (by omega), if_neg (by omega), if_pos hsize]
  refine ⟨_, rfl, rfl, rfl, rfl, rfl, rfl, fun x hx => ?_⟩
  -- the header bytes are those of the empty buffer, the payload is copied behind them
  unfold frag1Len at hx
  simp only [frag1Bytes, hp, hu]
  by_cases hin : h.uncompHdrLen ≤ x
  · rw [Mem.paste_in hin hx, Mem.paste_in hin hx]
  · rw [Mem.paste_of_out (by omega), Mem.paste_of_out (by omega)]
    exact hb x (by omega)

theorem inputFrag1_ok (hn : NodeOk rc history opened s)
    (hfirst : f.dispatch = dispatchFrag1) (hopened : ∀ k, (addFirst rc expired s f).2 ≠ some k → opened' k = opened k)
    (hat : ∀ k, (addFirst rc expired s f).2 = some k → history[opened' k]? = some f)
    (hfits : (addFirst rc expired s f).2 = none ∨ f.fragSize = 0 ∨ ∃ h, Frag1Fits rc f h) :
    NodeOk rc history opened' (inputFrag1 rc expired s f) := by
  obtain ⟨hn', hfree⟩ := @findFree_ok _ _ _ _ expired hn
  have hadd : addFragment rc expired s f 0 = addFirst rc expired s f := by simp [addFragment]
  cases hfound : (findFree rc expired s).2 with
  | none =>
    unfold inputFrag1
    rw [hadd]
    rw [addFirst_none hfound] at hopened ⊢
    have : opened' = opened := funext fun k => hopened k (by simp)
    rw [this]
    exact hn'
  | some i =>
    have hi := hfree i hfound
    rw [addFirst_eq hfound] at hopened hat hfits
    have hopened' : ∀ k, k ≠ i → opened' k = opened k := fun k hk => hopened k (by simpa using Ne.symm hk)
    by_cases hzero : f.fragSize = 0
    · -- a first fragment that announces nothing leaves the context free
      unfold inputFrag1
      rw [hadd, addFirst_eq hfound]
      simp only [setInfo_info, setInfo_setInfo]
      split
      case h_1 buf _ => exact (closed_ok hn' hi hopened' _).1 hzero
      case h_2 r _ =>
        split
        · exact (closed_ok hn' hi hopened' _).1 hzero
        · split
          · exact (closed_ok hn' hi hopened' _).2
          · split
            · exact (closed_ok hn' hi hopened' _).1 hzero
            · split
              · exact (closed_ok hn' hi hopened' _).1 hzero
              · exact (closed_ok hn' hi hopened' _).1 hzero
    · rcases hfits with hnone | hzero' | ⟨h, hfit⟩
      · cases hnone
      · exact absurd hzero' hzero
      · by_cases hbig : frag1Len f h > rc.bufSize
        · -- a packet too large for the buffer clears its context at once
          obtain ⟨h', hh', hp, hu, -⟩ := hfit.determined ((findFree rc expired s).1.fragInfo i).firstFrag
          have hin := hfit.inside
          have hlen : h'.uncompHdrLen + (f.pb.datalen - h'.packetbufHdrLen) = frag1Len f h := by
            unfold frag1Len
            rw [hp, hu]
          unfold inputFrag1
          rw [hadd, addFirst_eq hfound]
          simp only [setInfo_info, setInfo_setInfo, hh', hlen]
          rw [if_neg (by omega), if_pos hbig]
          exact (closed_ok hn' hi hopened' _).2
        · obtain ⟨v, hv, hlen, htag, hsender, hfl, hsum, hbytes⟩ :=
            inputFrag1_stored hfit hfound (by omega) (by omega)
          rw [hv]
          exact stored_ok hn' hi hopened' (stored_context (hn'.free hi) (hat i rfl) hfirst hfit.header hlen htag hsender
            hfl (hfit.room.resolve_right hbig) hbytes hsum)

end

end

end Contiki.Sicslowpan
