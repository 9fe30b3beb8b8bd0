/-
The state of the Coffee file system and its allocation of pages: garbage collection, the search for free pages,
reservation, removal and the cache of file objects. The default configuration is modelled: micro logs, no append-only
files, and COFFEE_EXTENDED_WEAR_LEVELLING, which leaves the garbage collector to `reserve` alone. A loop is given a number
of rounds, and nothing comes of it when they do not suffice.
-/
import Contiki.Coffee.Medium
import Contiki.Lib.Loop

namespace Contiki.Coffee

open Contiki.Lib

/-! ## State -/

/-- `struct file`; COFFEE_FILE_MODIFIED is its only flag. -/
structure File where
  endOffset : Int
  page : Int
  maxPages : Int
  recordCount : Int
  references : UInt8
  modified : Bool
  deriving DecidableEq, Repr

/-- `struct file_desc`; `file` is an index into `coffee_files`. -/
structure FileDesc where
  offset : Int
  file : Option Nat
  flags : UInt8
  ioFlags : UInt8
  deriving DecidableEq, Repr

/-- The static variables of the module and the storage. -/
structure Store where
  flash : Mem
  coffeeFiles : Nat → File
  coffeeFdSet : Nat → FileDesc
  nextFree : Int
  gcWait : Bool

def File.free (f : File) : Bool := f.maxPages = 0

def File.unreferenced (f : File) : Bool := f.references = 0

namespace Store

def setFile (s : Store) (i : Nat) (f : File) : Store := { s with coffeeFiles := Function.update s.coffeeFiles i f }

def setFd (s : Store) (fd : Nat) (d : FileDesc) : Store := { s with coffeeFdSet := Function.update s.coffeeFdSet fd d }

end Store

variable (c : Config)

/-! ## Garbage collection -/

/-- `struct sector_status`. -/
structure SectorStatus where
  active : Int
  obsolete : Int
  free : Int
  deriving DecidableEq, Repr

/-- The static variables of `get_sector_status`. -/
structure SectorScan where
  skipPages : Int
  lastPagesAreActive : Bool
  deriving DecidableEq, Repr

/-- What the loop of `get_sector_status` counts. -/
structure PageCount where
  page : Int
  active : Int
  obsolete : Int
  lastPagesAreActive : Bool

/-- A round of the loop of `get_sector_status`; it ends with the number of free pages. -/
def countStep (sectorEnd : Int) (flash : Mem) (n : PageCount) : PageCount ⊕ (PageCount × Int) :=
  if n.page < sectorEnd then
    let hdr := readHeader c n.page flash
    if hdr.active then
      .inl ⟨toPage (n.page + hdr.maxPages.toInt), toPage (n.active + hdr.maxPages.toInt), n.obsolete, true⟩
    else if hdr.isolated then
      .inl ⟨n.page + 1, n.active, n.obsolete + 1, false⟩
    else if hdr.obsolete then
      .inl ⟨toPage (n.page + hdr.maxPages.toInt), n.active, toPage (n.obsolete + hdr.maxPages.toInt), false⟩
    else
      .inr (⟨n.page, n.active, n.obsolete, false⟩, sectorEnd - n.page)
  else
    .inr (n, 0)

/-- What `get_sector_status` makes of the counted pages: what of the last extent lies in the sectors behind is not counted
but remembered. -/
def sectorResult (n : PageCount) (free : Int) : Int × SectorStatus × SectorScan :=
  let skipPages := n.active + n.obsolete + free - c.pagesPerSector
  let stats : SectorStatus :=
    if 0 < skipPages then
      if n.lastPagesAreActive then ⟨c.pagesPerSector - n.obsolete, n.obsolete, free⟩
      else ⟨n.active, c.pagesPerSector - n.active, free⟩
    else ⟨n.active, n.obsolete, free⟩
  (if n.lastPagesAreActive = true ∨ c.pagesPerSector ≤ skipPages then 0 else skipPages, stats,
    ⟨skipPages, n.lastPagesAreActive⟩)

/-- `get_sector_status`: the pages to isolate in the next sector, and the status. -/
def getSectorStatus (fuel : Nat) (sector : Int) (scan : SectorScan) (flash : Mem) :
    Option (Int × SectorStatus × SectorScan) :=
  let scan := if sector = 0 then ⟨0, false⟩ else scan
  let sectorStart := c.sectorStart sector
  if c.pagesPerSector ≤ scan.skipPages then
    let skipPages := scan.skipPages - c.pagesPerSector
    if scan.lastPagesAreActive then
      some (0, ⟨c.pagesPerSector, 0, 0⟩, ⟨skipPages, true⟩)
    else
      some (if c.pagesPerSector ≤ skipPages then 0 else skipPages, ⟨0, c.pagesPerSector, 0⟩, ⟨skipPages, false⟩)
  else
    let n : PageCount :=
      { page := sectorStart + scan.skipPages
        active := if scan.lastPagesAreActive then scan.skipPages else 0
        obsolete := if scan.lastPagesAreActive then 0 else scan.skipPages
        lastPagesAreActive := scan.lastPagesAreActive }
    (loop (countStep c (sectorStart + c.pagesPerSector) flash) fuel n).map fun r => sectorResult c r.1 r.2

def isolatedHeader : FileHeader := { FileHeader.zero c with flags := flagAllocated ||| flagIsolated }

@[grind =]
def isolatePages (start : Int) : Nat → Mem → Mem
  | 0, flash => flash
  | n + 1, flash => writeHeader c (isolatedHeader c) (start + n) (isolatePages start n flash)

inductive GcMode where
  | greedy
  | reluctant
  deriving DecidableEq, Repr

def erasable (mode : GcMode) (stats : SectorStatus) : Bool :=
  ¬0 < stats.active ∧ (mode = .reluctant ∧ stats.free = 0 ∨ mode = .greedy ∧ 0 < stats.obsolete)

/-- The sector is erased, and what an obsolete extent has in the next one is isolated. -/
def eraseSector (sector isolationCount : Int) (s : Store) : Store :=
  let firstPage := c.sectorStart sector
  let nextFree := if firstPage < s.nextFree then firstPage else s.nextFree
  let flash :=
    if 0 < isolationCount then isolatePages c (firstPage + c.pagesPerSector) isolationCount.toNat s.flash else s.flash
  { s with flash := erase c sector flash, nextFree := nextFree }

/-- The loop of `collect_garbage`, with `n` sectors to go. -/
@[grind =]
def collectFrom (fuel : Nat) (mode : GcMode) : Nat → Int → SectorScan → Store → Option Store
  | 0, _, _, s => some s
  | n + 1, sector, scan, s =>
    (getSectorStatus c fuel sector scan s.flash).bind fun r =>
      if erasable mode r.2.1 then
        let s := eraseSector c sector r.1 s
        if mode = .reluctant ∧ 0 < r.1 then some s else collectFrom fuel mode n (sector + 1) r.2.2 s
      else
        collectFrom fuel mode n (sector + 1) r.2.2 s

def collectGarbage (fuel : Nat) (mode : GcMode) (s : Store) : Option Store :=
  collectFrom c fuel mode c.sectorCount 0 ⟨0, false⟩ s

/-! ## File objects -/

/-- The slot that `load_file` takes: the first free one, or else the last one without references. -/
def loadSlot (s : Store) : Option Nat :=
  match (List.range c.maxOpenFiles).find? fun i => (s.coffeeFiles i).free with
  | some i => some i
  | none => (List.range c.maxOpenFiles).reverse.find? fun i => (s.coffeeFiles i).unreferenced

def loadFile (start : Int) (hdr : FileHeader) (s : Store) : Option Nat × Store :=
  match loadSlot c s with
  | none => (none, s)
  | some i => (some i, s.setFile i
      { endOffset := -1
        page := start
        maxPages := hdr.maxPages.toInt
        recordCount := -1
        references := (s.coffeeFiles i).references
        modified := hdr.modified })

def cString (l : List UInt8) : List UInt8 := l.takeWhile (· ≠ 0)

def FileHeader.isNamed (hdr : FileHeader) (name : List UInt8) : Bool :=
  hdr.active && !hdr.log && decide (cString name = cString hdr.name)

/-- A round of the sequential scan of `find_file`; it ends with the page of the file. -/
def scanStep (name : List UInt8) (flash : Mem) (page : Int) : Int ⊕ Option Int :=
  if page < c.pageCount then
    let hdr := readHeader c page flash
    if hdr.isNamed name then .inr (some page) else .inl (nextFile c page hdr)
  else
    .inr none

def findFile (fuel : Nat) (name : List UInt8) (s : Store) : Option (Option Nat × Store) :=
  match (List.range c.maxOpenFiles).find? fun i =>
      !(s.coffeeFiles i).free && (readHeader c (s.coffeeFiles i).page s.flash).isNamed name with
  | some i => some (some i, s)
  | none => (loop (scanStep c name s.flash) fuel 0).map fun
    | none => (none, s)
    | some page => loadFile c page (readHeader c page s.flash) s

/-! ## Allocation -/

/-- What the loop of `find_contiguous_pages` goes on with. -/
structure Search where
  page : Int
  start : Int

/-- A round of the loop of `find_contiguous_pages`; it ends with the first of the pages. -/
def searchStep (amount : Int) (flash : Mem) (x : Search) : Search ⊕ Int :=
  if x.page < c.pageCount then
    let hdr := readHeader c x.page flash
    if hdr.free then
      let start := if x.start = invalidPage then x.page else x.start
      if x.start = invalidPage ∧ c.pageCount ≤ start + amount then
        -- the remaining pages are not enough
        .inr invalidPage
      else
        let page := nextFile c x.page hdr
        if start + amount ≤ page then .inr start else .inl ⟨page, start⟩
    else
      .inl ⟨nextFile c x.page hdr, invalidPage⟩
  else
    .inr invalidPage

def findContiguousPages (fuel : Nat) (amount : Int) (s : Store) : Option (Int × Store) :=
  (loop (searchStep c amount s.flash) fuel ⟨s.nextFree, invalidPage⟩).map fun start =>
    (start, if start ≠ invalidPage ∧ start = s.nextFree then { s with nextFree := toPage (start + amount) } else s)

/-- What `reserve` does to find its pages: once more behind a garbage collection, unless that is not worth while. -/
def reservePages (fuel : Nat) (pages : Int) (s : Store) : Option (Int × Store) :=
  (findContiguousPages c fuel pages s).bind fun (page, s) =>
    if page ≠ invalidPage then some (page, s)
    else if s.gcWait then some (invalidPage, s)
    else
      (collectGarbage c fuel .greedy s).bind fun s =>
        (findContiguousPages c fuel pages s).map fun (page, s) =>
          (page, if page = invalidPage then { s with gcWait := true } else s)

/-- The header that `reserve` writes. -/
def reservedHeader (name : List UInt8) (pages : Int) (flags : UInt8) : FileHeader :=
  let name := (cString name).take (c.nameLength - 1)
  { FileHeader.zero c with
    name := name ++ List.replicate (c.nameLength - name.length) 0
    maxPages := Int16.ofInt pages
    flags := flagAllocated ||| flags }

/-- `reserve`: the file object. -/
def reserve (fuel : Nat) (name : List UInt8) (pages : Int) (allowDuplicates : Bool) (flags : UInt8) (s : Store) :
    Option (Option Nat × Store) :=
  (if allowDuplicates then some (none, s) else findFile c fuel name s).bind fun (found, s) =>
    if found.isSome then some (none, s)
    else
      (reservePages c fuel pages s).map fun (page, s) =>
        if page = invalidPage then (none, s)
        else
          let hdr := reservedHeader c name pages flags
          match loadFile c page hdr { s with flash := writeHeader c hdr page s.flash } with
          | (none, s) => (none, s)
          | (some i, s) => (some i, s.setFile i { s.coffeeFiles i with endOffset := 0 })

/-! ## Removal -/

/-- The extent at a page is marked obsolete, and what refers to it is given up. -/
def markObsolete (page : Int) (hdr : FileHeader) (closeFds : Bool) (s : Store) : Store where
  flash := writeHeader c { hdr with flags := hdr.flags ||| flagObsolete } page s.flash
  coffeeFiles i :=
    if (s.coffeeFiles i).page = page then
      { s.coffeeFiles i with page := invalidPage, references := 0, maxPages := 0 }
    else s.coffeeFiles i
  coffeeFdSet fd :=
    match (s.coffeeFdSet fd).file with
    | some i =>
      if closeFds = true ∧ (s.coffeeFiles i).page = page then { s.coffeeFdSet fd with flags := 0 } else s.coffeeFdSet fd
    | none => s.coffeeFdSet fd
  nextFree := s.nextFree
  gcWait := false

/-- `remove_by_page` for a file without its log. -/
def removeExtent (page : Int) (closeFds : Bool) (s : Store) : Bool × Store :=
  let hdr := readHeader c page s.flash
  if hdr.active then (true, markObsolete c page hdr closeFds s) else (false, s)

/-- `remove_by_page`: whether it succeeds. -/
def removeByPage (page : Int) (removeLog closeFds : Bool) (s : Store) : Bool × Store :=
  let hdr := readHeader c page s.flash
  if hdr.active then
    if removeLog && hdr.modified then
      match removeExtent c hdr.logPage.toInt false s with
      | (false, s) => (false, s)
      | (true, s) => (true, markObsolete c page hdr closeFds s)
    else (true, markObsolete c page hdr closeFds s)
  else (false, s)

/-! ## Formatting -/

/-- The first `n` sectors are erased. -/
def eraseSectors : Nat → Mem → Mem
  | 0, flash => flash
  | n + 1, flash => erase c n (eraseSectors n flash)

/-- `cfs_coffee_format`. -/
def format (s : Store) : Store where
  flash := eraseSectors c c.sectorCount s.flash
  coffeeFiles _ := ⟨0, 0, 0, 0, 0, false⟩
  coffeeFdSet _ := ⟨0, none, 0, 0⟩
  nextFree := 0
  gcWait := true

end Contiki.Coffee
