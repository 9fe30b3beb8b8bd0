/-
The heap allocator (heapmem.c): chunk headers in the bytes of the heap itself, the free list threaded
through them, zones with their counters, and the calls of the API. Addresses and sizes are numbers
below the word size; what C computes in `size_t` is reduced to it where it can leave it.
-/
import Contiki.Lib.Mem

namespace Contiki.Heapmem

open Contiki.Lib

/-! ## Configuration -/

/-- The platform and the HEAPMEM configuration. `size_adj` in `heapmem_realloc` is an `int`, so the
arena must be smaller than what an `int` holds. -/
structure Config where
  /-- `sizeof(size_t)`, the size of a pointer too. -/
  wordBytes : Nat
  /-- The bits of an `int`. -/
  intBits : Nat
  /-- `HEAPMEM_ARENA_SIZE`. -/
  arena : Nat
  /-- The address of `heap_base`. -/
  base : Nat
  /-- `sizeof(chunk_t)`. -/
  chunkSize : Nat
  /-- `HEAPMEM_ALIGNMENT`. -/
  align : Nat
  /-- `CHUNK_SEARCH_MAX`. -/
  searchMax : Nat
  /-- `HEAPMEM_MAX_ZONES`. -/
  maxZones : Nat
  align_pow : ∃ k, align = 2 ^ k
  header : 3 * wordBytes + 2 ≤ chunkSize
  chunk_aligned : align ∣ chunkSize
  base_pos : 0 < base
  base_aligned : align ∣ base
  address_space : base + arena < 256 ^ wordBytes
  arena_int : arena < 2 ^ (intBits - 1)
  header_int : chunkSize + align ≤ 2 ^ (intBits - 1)
  int_word : 2 ^ (intBits - 1) * 2 ≤ 256 ^ wordBytes
  int_pos : 1 ≤ intBits
  zones_pos : 1 ≤ maxZones
  zones_byte : maxZones < 256

/-- `struct heapmem_zone`; a `name` of `none` is NULL. -/
structure Zone where
  name : Option String
  zoneSize : Nat
  allocated : Nat
  deriving DecidableEq, Repr

/-- The static variables of the module, and the memory `heap_base` lies in. -/
structure Heap where
  mem : Mem
  heapUsage : Nat
  maxHeapUsage : Nat
  /-- `free_list`; 0 is NULL, here and in the links. -/
  freeList : Nat
  zones : Nat → Zone

/-- `HEAPMEM_ZONE_GENERAL`. -/
def zoneGeneral : Nat := 0

/-- `HEAPMEM_ZONE_INVALID`. -/
def zoneInvalid : Nat := 255

namespace Config

variable (c : Config)

/-- One more than the largest `size_t`. -/
def word : Nat := 256 ^ c.wordBytes

/-- `a - b` in `size_t`. -/
def wordSub (a b : Nat) : Nat := (a + (c.word - b)) % c.word

/-- `a += x` for a `size_t` `a` and an `int` `x`. -/
def wordAdd (a : Nat) (x : Int) : Nat := ((a + x) % c.word).toNat

/-- The conversion of a `size_t` to an `int`. -/
def toInt (a : Nat) : Int :=
  if a % 2 ^ c.intBits < 2 ^ (c.intBits - 1) then (a % 2 ^ c.intBits : Nat)
  else (a % 2 ^ c.intBits : Nat) - (2 ^ c.intBits : Nat)

/-- `ALIGN`: rounds up to a multiple of the alignment, which is a power of two. -/
def alignUp (size : Nat) : Nat := (size + (c.align - 1)) / c.align * c.align

end Config

/-! ## Chunk headers -/

section

variable (c : Config)

-- struct chunk: prev, next and size are words, flags and zone are bytes
def chunkPrev (p : Nat) (m : Mem) : Nat := m.load c.wordBytes p
def chunkNext (p : Nat) (m : Mem) : Nat := m.load c.wordBytes (p + c.wordBytes)
def chunkSizeOf (p : Nat) (m : Mem) : Nat := m.load c.wordBytes (p + 2 * c.wordBytes)
def chunkFlags (p : Nat) (m : Mem) : Nat := m.load 1 (p + 3 * c.wordBytes)
def chunkZone (p : Nat) (m : Mem) : Nat := m.load 1 (p + 3 * c.wordBytes + 1)

def setPrev (p v : Nat) (m : Mem) : Mem := m.store c.wordBytes p v
def setNext (p v : Nat) (m : Mem) : Mem := m.store c.wordBytes (p + c.wordBytes) v
def setSize (p v : Nat) (m : Mem) : Mem := m.store c.wordBytes (p + 2 * c.wordBytes) v
def setFlags (p v : Nat) (m : Mem) : Mem := m.store 1 (p + 3 * c.wordBytes) v
def setZone (p v : Nat) (m : Mem) : Mem := m.store 1 (p + 3 * c.wordBytes + 1) v

def nextChunk (p : Nat) (m : Mem) : Nat := p + c.chunkSize + chunkSizeOf c p m

def isLastChunk (p : Nat) (h : Heap) : Bool := nextChunk c p h.mem = c.base + h.heapUsage

def getChunk (ptr : Nat) : Nat := ptr - c.chunkSize

def getPtr (p : Nat) : Nat := p + c.chunkSize

/-- `CHUNK_ALLOCATED`: the flag CHUNK_FLAG_ALLOCATED is the lowest bit. -/
def chunkAllocated (p : Nat) (m : Mem) : Bool := chunkFlags c p m % 2 = 1

/-- `!IN_HEAP`: the parentheses of the macro leave its last test outside the negation. -/
def notInHeap (ptr : Nat) (h : Heap) : Bool := ¬(ptr ≠ 0 ∧ c.base ≤ ptr) ∧ ptr < c.base + h.heapUsage

/-! ## Free list and chunks -/

/-- `extend_space`: the old end of the heap. -/
def extendSpace (size : Nat) (h : Heap) : Option (Nat × Heap) :=
  if size > c.arena - h.heapUsage then none
  else
    let usage := h.heapUsage + size
    some (c.base + h.heapUsage,
      { h with heapUsage := usage, maxHeapUsage := if usage > h.maxHeapUsage then usage else h.maxHeapUsage })

def freeChunk (p : Nat) (h : Heap) : Heap :=
  let flags := chunkFlags c p h.mem
  let h := { h with mem := setFlags c p (flags - flags % 2) h.mem }
  if isLastChunk c p h then
    -- back into the wilderness
    { h with heapUsage := h.heapUsage - (c.chunkSize + chunkSizeOf c p h.mem) }
  else
    let m := setNext c p h.freeList (setPrev c p 0 h.mem)
    let m := if h.freeList ≠ 0 then setPrev c h.freeList p m else m
    { h with mem := m, freeList := p }

def removeChunkFromFreeList (p : Nat) (h : Heap) : Heap :=
  let h :=
    if p = h.freeList then
      let first := chunkNext c p h.mem
      { h with freeList := first, mem := if first ≠ 0 then setPrev c first 0 h.mem else h.mem }
    else { h with mem := setNext c (chunkPrev c p h.mem) (chunkNext c p h.mem) h.mem }
  let next := chunkNext c p h.mem
  if next ≠ 0 then { h with mem := setPrev c next (chunkPrev c p h.mem) h.mem } else h

def splitChunk (p offset : Nat) (h : Heap) : Heap :=
  let offset := c.alignUp offset
  if offset + c.chunkSize < chunkSizeOf c p h.mem then
    let new := getPtr c p + offset
    let m := setSize c new (chunkSizeOf c p h.mem - c.chunkSize - offset) h.mem
    let h := freeChunk c new { h with mem := setFlags c new 0 m }
    { h with mem := setNext c p 0 (setPrev c p 0 (setSize c p offset h.mem)) }
  else h

/-- The loop of `coalesce_chunks` from the chunk at `next`. -/
@[grind =]
def coalesceLoop (p : Nat) : Nat → Nat → Heap → Heap
  | 0, _, h => h
  | fuel + 1, next, h =>
    if next < c.base + h.heapUsage ∧ !chunkAllocated c next h.mem then
      let size := chunkSizeOf c p h.mem + (c.chunkSize + chunkSizeOf c next h.mem)
      let h := removeChunkFromFreeList c next { h with mem := setSize c p size h.mem }
      coalesceLoop p fuel (nextChunk c next h.mem) h
    else h

/-- `coalesce_chunks`: each round moves on by a header at least, so the footprint bounds the rounds. -/
def coalesceChunks (p : Nat) (h : Heap) : Heap :=
  coalesceLoop c p h.heapUsage (nextChunk c p h.mem) h

/-- The loop of `defrag_chunks` from the chunk at `p`, for at most so many chunks. -/
@[grind =]
def defragLoop : Nat → Nat → Heap → Heap
  | 0, _, h => h
  | i + 1, p, h =>
    if p = 0 then h
    else
      let h := coalesceChunks c p h
      defragLoop i (chunkNext c p h.mem) h

def defragChunks (h : Heap) : Heap := defragLoop c c.searchMax h.freeList h

/-- The search of `get_free_chunk` from the chunk at `p`, for at most so many chunks: the best chunk,
or NULL. -/
@[grind =]
def searchLoop (size : Nat) (m : Mem) : Nat → Nat → Nat → Nat
  | 0, _, best => best
  | i + 1, p, best =>
    if p = 0 then best
    else if size ≤ chunkSizeOf c p m then
      let best := if best = 0 ∨ chunkSizeOf c p m < chunkSizeOf c best m then p else best
      if chunkSizeOf c best m = size then best else searchLoop size m i (chunkNext c p m) best
    else searchLoop size m i (chunkNext c p m) best

/-- The chunk `get_free_chunk` picks from the free list. -/
def bestChunk (size : Nat) (h : Heap) : Nat := searchLoop c size h.mem c.searchMax h.freeList 0

/-- `get_free_chunk`: a chunk, or NULL. -/
def getFreeChunk (size : Nat) (h : Heap) : Nat × Heap :=
  let h := defragChunks c h
  let best := bestChunk c size h
  if best ≠ 0 then (best, splitChunk c best size (removeChunkFromFreeList c best h)) else (0, h)

/-! ## Zones -/

def setAllocated (zone v : Nat) (h : Heap) : Heap :=
  { h with zones := Function.update h.zones zone { h.zones zone with allocated := v } }

/-- The loop of `heapmem_zone_register` over the zones `i`, `i + 1`, … -/
@[grind =]
def registerLoop (name : String) (zoneSize : Nat) : Nat → Nat → Heap → Nat × Heap
  | 0, _, h => (zoneInvalid, h)
  | k + 1, i, h =>
    match (h.zones i).name with
    | none =>
      let general := h.zones zoneGeneral
      let zones := Function.update h.zones i { h.zones i with name := some name, zoneSize := zoneSize }
      let general := { general with zoneSize := general.zoneSize - zoneSize }
      (i, { h with zones := Function.update zones zoneGeneral general })
    | some other => if other = name then (zoneInvalid, h) else registerLoop name zoneSize k (i + 1) h

def heapmemZoneRegister (name : Option String) (zoneSize : Nat) (h : Heap) : Nat × Heap :=
  if zoneSize > (h.zones zoneGeneral).zoneSize then (zoneInvalid, h)
  else
    match name with
    | none => (zoneInvalid, h)
    | some name =>
      if zoneSize = 0 then (zoneInvalid, h)
      else registerLoop name zoneSize (c.maxZones - 1) (zoneGeneral + 1) h

/-! ## Allocation -/

/-- A chunk for `size` bytes, from the free list or from the wilderness. -/
def obtainChunk (size : Nat) (h : Heap) : Nat × Heap :=
  let r := getFreeChunk c size h
  if r.1 ≠ 0 then r
  else
    match extendSpace c (c.chunkSize + size) r.2 with
    | none => (0, r.2)
    | some (p, h) => (p, { h with mem := setSize c p size h.mem })

def heapmemZoneAlloc (zone size : Nat) (h : Heap) : Nat × Heap :=
  if zone ≥ c.maxZones ∨ (h.zones zone).name = none then (0, h)
  else if size > c.arena ∨ size = 0 then (0, h)
  else
    let size := c.alignUp size
    if c.chunkSize + size > c.wordSub (h.zones zone).zoneSize (h.zones zone).allocated then (0, h)
    else
      let (p, h) := obtainChunk c size h
      if p = 0 then (0, h)
      else
        let h := { h with mem := setZone c p zone (setFlags c p 1 h.mem) }
        (getPtr c p, setAllocated zone (c.wordAdd (h.zones zone).allocated (c.chunkSize + size : Nat)) h)

def heapmemAlloc (size : Nat) (h : Heap) : Nat × Heap := heapmemZoneAlloc c zoneGeneral size h

def heapmemFree (ptr : Nat) (h : Heap) : Bool × Heap :=
  if notInHeap c ptr h then (false, h)
  else
    let p := getChunk c ptr
    if !chunkAllocated c p h.mem then (false, h)
    else
      let zone := chunkZone c p h.mem
      let v := c.wordSub (h.zones zone).allocated (c.chunkSize + chunkSizeOf c p h.mem)
      (true, freeChunk c p (setAllocated zone v h))

/-- `zones[chunk->zone].allocated += size_adj`. -/
def adjustAllocated (p : Nat) (sizeAdj : Int) (h : Heap) : Heap :=
  let zone := chunkZone c p h.mem
  setAllocated zone (c.wordAdd (h.zones zone).allocated sizeAdj) h

/-- The end of `heapmem_realloc`: the object moves to a new chunk. -/
def moveObject (ptr size : Nat) (h : Heap) : Nat × Heap :=
  let p := getChunk c ptr
  let (newptr, h) := heapmemZoneAlloc c (chunkZone c p h.mem) size h
  if newptr = 0 then (0, h)
  else (newptr, freeChunk c p { h with mem := h.mem.copy newptr ptr (chunkSizeOf c p h.mem) })

/-- `heapmem_realloc` of an object to an aligned size. -/
def resizeObject (ptr size : Nat) (h : Heap) : Nat × Heap :=
  let p := getChunk c ptr
  let sizeAdj := c.toInt (c.wordSub size (chunkSizeOf c p h.mem))
  if sizeAdj ≤ 0 then (ptr, adjustAllocated c p sizeAdj (splitChunk c p size h))
  else if isLastChunk c p h then
    match extendSpace c sizeAdj.toNat h with
    | some (_, h) => (ptr, adjustAllocated c p sizeAdj { h with mem := setSize c p size h.mem })
    | none => moveObject c ptr size h
  else
    let h := coalesceChunks c p h
    if chunkSizeOf c p h.mem ≥ size then (ptr, adjustAllocated c p sizeAdj (splitChunk c p size h))
    else moveObject c ptr size h

def heapmemRealloc (ptr size : Nat) (h : Heap) : Nat × Heap :=
  if ptr ≠ 0 ∧ notInHeap c ptr h then (0, h)
  else if size > c.arena then (0, h)
  else if ptr = 0 then heapmemAlloc c size h
  else if size = 0 then (0, (heapmemFree c ptr h).2)
  else if !chunkAllocated c (getChunk c ptr) h.mem then (0, h)
  else resizeObject c ptr (c.alignUp size) h

def heapmemCalloc (nmemb size : Nat) (h : Heap) : Nat × Heap :=
  let total := nmemb * size % c.word
  if size = 0 ∨ total / size ≠ nmemb then (0, h)
  else
    let (ptr, h) := heapmemAlloc c total h
    if ptr = 0 then (0, h) else (ptr, { h with mem := h.mem.fill ptr total 0 })

/-! ## Statistics -/

/-- `heapmem_stats_t`. -/
structure Stats where
  allocated : Nat
  overhead : Nat
  available : Nat
  footprint : Nat
  maxFootprint : Nat
  chunks : Nat
  deriving DecidableEq, Repr

/-- The loop of `heapmem_stats` from the chunk at `p`. -/
@[grind =]
def statsLoop : Nat → Nat → Stats × Heap → Stats × Heap
  | 0, _, r => r
  | fuel + 1, p, (st, h) =>
    if p < c.base + h.heapUsage then
      if chunkAllocated c p h.mem then
        statsLoop fuel (nextChunk c p h.mem)
          ({ st with allocated := st.allocated + chunkSizeOf c p h.mem, overhead := st.overhead + c.chunkSize }, h)
      else
        let h := coalesceChunks c p h
        statsLoop fuel (nextChunk c p h.mem) ({ st with available := st.available + chunkSizeOf c p h.mem }, h)
    else (st, h)

def heapmemStats (h : Heap) : Stats × Heap :=
  let (st, h) := statsLoop c h.heapUsage c.base (⟨0, 0, 0, 0, 0, 0⟩, h)
  ({ st with
      available := st.available + (c.arena - h.heapUsage), footprint := h.heapUsage
      maxFootprint := h.maxHeapUsage, chunks := st.overhead / c.chunkSize }, h)

end

end Contiki.Heapmem
