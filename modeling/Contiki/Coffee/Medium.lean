/-
The storage of the Coffee file system (cfs-coffee.c): pages and sectors, and the header with which every extent begins.
Pages and offsets are integers, as `coffee_page_t` and `cfs_offset_t` are signed; where C converts a value to
`coffee_page_t`, so does the model.
-/
import Contiki.Lib.Mem

namespace Contiki.Coffee

section

open Contiki.Lib

/-! ## Configuration -/

/-- The geometry of the medium and the `COFFEE_` configuration. A sector has a power of two of pages, as the mask in
`next_file` needs it, and the store is made of whole sectors. -/
structure Config where
  /-- `COFFEE_PAGE_SIZE`. -/
  pageSize : Nat
  /-- The binary logarithm of `COFFEE_PAGES_PER_SECTOR`. -/
  sectorBits : Nat
  /-- `COFFEE_SECTOR_COUNT`. -/
  sectorCount : Nat
  /-- `COFFEE_NAME_LENGTH`. -/
  nameLength : Nat
  /-- `COFFEE_DYN_SIZE`. -/
  dynSize : Nat
  /-- `COFFEE_LOG_SIZE`. -/
  logSize : Nat
  /-- `COFFEE_LOG_TABLE_LIMIT`. -/
  logTableLimit : Nat
  /-- `COFFEE_MAX_OPEN_FILES`. -/
  maxOpenFiles : Nat
  /-- `COFFEE_FD_SET_SIZE`. -/
  fdSetSize : Nat
  name_pos : 0 < nameLength
  header_fits : 10 + nameLength + nameLength % 2 ≤ pageSize
  pages_fit : sectorCount * 2 ^ sectorBits < 2 ^ 15
  bytes_fit : sectorCount * 2 ^ sectorBits * pageSize < 2 ^ 31

namespace Config

variable (c : Config)

/-- `COFFEE_PAGES_PER_SECTOR`. -/
def pagesPerSector : Nat := 2 ^ c.sectorBits

/-- `COFFEE_PAGE_COUNT`. -/
def pageCount : Nat := c.sectorCount * c.pagesPerSector

/-- `sizeof(struct file_header)`: 16-bit fields align it. -/
def headerSize : Nat := 10 + c.nameLength + c.nameLength % 2

def sectorStart (sector : Int) : Int := sector * c.pagesPerSector

def sectorOf (page : Int) : Int := page / c.pagesPerSector

/-- `(page + COFFEE_PAGES_PER_SECTOR) & ~(COFFEE_PAGES_PER_SECTOR - 1)`. -/
def nextSector (page : Int) : Int := (page + c.pagesPerSector) / c.pagesPerSector * c.pagesPerSector

end Config

/-- The conversion to `coffee_page_t`. -/
def toPage (x : Int) : Int := (Int16.ofInt x).toInt

def invalidPage : Int := -1

def address (offset : Int) : Nat := (offset % 2 ^ 32).toNat

variable (c : Config) in
def absoluteOffset (page offset : Int) : Int := page * c.pageSize + c.headerSize + offset

/-! ## File headers -/

def flagValid : UInt8 := 0x01
def flagAllocated : UInt8 := 0x02
def flagObsolete : UInt8 := 0x04
def flagModified : UInt8 := 0x08
def flagLog : UInt8 := 0x10
def flagIsolated : UInt8 := 0x20

/-- `struct file_header`. -/
structure FileHeader where
  logPage : Int16
  logRecords : UInt16
  logRecordSize : UInt16
  maxPages : Int16
  deprecatedEofHint : UInt8
  flags : UInt8
  name : List UInt8
  deriving DecidableEq, Repr

namespace FileHeader

def checkFlag (hdr : FileHeader) (flag : UInt8) : Bool := hdr.flags &&& flag ≠ 0

def allocated (hdr : FileHeader) : Bool := hdr.checkFlag flagAllocated
def free (hdr : FileHeader) : Bool := !hdr.allocated
def log (hdr : FileHeader) : Bool := hdr.checkFlag flagLog
def modified (hdr : FileHeader) : Bool := hdr.checkFlag flagModified
def isolated (hdr : FileHeader) : Bool := hdr.checkFlag flagIsolated
def obsolete (hdr : FileHeader) : Bool := hdr.checkFlag flagObsolete
def active (hdr : FileHeader) : Bool := hdr.allocated && !hdr.obsolete && !hdr.isolated

def zero (c : Config) : FileHeader := ⟨0, 0, 0, 0, 0, 0, List.replicate c.nameLength 0⟩

end FileHeader

section

variable (c : Config)

def loadHeader (a : Nat) (m : Mem) : FileHeader where
  logPage := (UInt16.ofNat (m.load 2 a)).toInt16
  logRecords := UInt16.ofNat (m.load 2 (a + 2))
  logRecordSize := UInt16.ofNat (m.load 2 (a + 4))
  maxPages := (UInt16.ofNat (m.load 2 (a + 6))).toInt16
  deprecatedEofHint := m (a + 8)
  flags := m (a + 9)
  name := Mem.read (a + 10) c.nameLength m

def storeHeader (a : Nat) (hdr : FileHeader) (m : Mem) : Mem :=
  let m := m.store 2 a hdr.logPage.toUInt16.toNat
  let m := m.store 2 (a + 2) hdr.logRecords.toNat
  let m := m.store 2 (a + 4) hdr.logRecordSize.toNat
  let m := m.store 2 (a + 6) hdr.maxPages.toUInt16.toNat
  let m := (m.put (a + 8) hdr.deprecatedEofHint).put (a + 9) hdr.flags
  Mem.paste (a + 10) c.nameLength (fun i => hdr.name.getD i 0) m

def readHeader (page : Int) (flash : Mem) : FileHeader := loadHeader c (address (page * c.pageSize)) flash

def writeHeader (hdr : FileHeader) (page : Int) (flash : Mem) : Mem :=
  storeHeader c (address (page * c.pageSize)) { hdr with flags := hdr.flags ||| flagValid } flash

/-- `COFFEE_ERASE`. -/
def erase (sector : Int) (flash : Mem) : Mem :=
  Mem.fill (address (c.sectorStart sector * c.pageSize)) (c.pagesPerSector * c.pageSize) 0 flash

def nextFile (page : Int) (hdr : FileHeader) : Int :=
  if hdr.free then toPage (c.nextSector page)
  else if hdr.isolated then toPage (page + 1)
  else toPage (page + hdr.maxPages.toInt)

end

end

/-!
Pages in their sectors, and what a header reads after headers were written and sectors erased.
-/

section

open Contiki.Lib Contiki.Lib.Mem

/-! ## Pages and sectors -/

theorem toPage_of_mem {x : Int} (h₀ : 0 ≤ x) (h : x < 2 ^ 15) : toPage x = x := by
  unfold toPage
  rw [Int16.toInt_ofInt_of_le (by omega) (by omega)]

theorem toInt_ofInt {x : Int} (h₀ : 0 ≤ x) (h : x < 2 ^ 15) : (Int16.ofInt x).toInt = x := toPage_of_mem h₀ h

namespace Config

variable (c : Config) {p q k : Int}

theorem pagesPerSector_pos : 0 < c.pagesPerSector := Nat.pow_pos (by omega)

theorem pageCount_lt : c.pageCount < 2 ^ 15 := c.pages_fit

theorem headerSize_le : c.headerSize ≤ c.pageSize := c.header_fits

theorem sectorStart_succ (k : Int) : c.sectorStart (k + 1) = c.sectorStart k + c.pagesPerSector := by
  unfold sectorStart
  rw [Int.add_mul, Int.one_mul]

@[simp] theorem sectorStart_zero : c.sectorStart 0 = 0 := Int.zero_mul _

theorem sectorStart_count : c.sectorStart c.sectorCount = c.pageCount := by
  unfold sectorStart pageCount
  rw [Nat.cast_mul]

theorem sectorStart_mono (h : p ≤ q) : c.sectorStart p ≤ c.sectorStart q :=
  Int.mul_le_mul_of_nonneg_right h (Int.natCast_nonneg _)

theorem sectorOf_eq_iff : c.sectorOf p = k ↔ c.sectorStart k ≤ p ∧ p < c.sectorStart (k + 1) := by
  have hpos : (0 : Int) < c.pagesPerSector := by exact_mod_cast c.pagesPerSector_pos
  unfold sectorOf sectorStart
  constructor
  · rintro rfl
    exact ⟨Int.ediv_mul_le p hpos.ne', Int.lt_ediv_add_one_mul_self p hpos⟩
  · rintro ⟨hle, hlt⟩
    have h₁ := (Int.le_ediv_iff_mul_le hpos).2 hle
    have h₂ := (Int.ediv_lt_iff_lt_mul hpos).2 hlt
    omega

theorem sectorStart_le (p : Int) : c.sectorStart (c.sectorOf p) ≤ p := (c.sectorOf_eq_iff.1 rfl).1

theorem nextSector_eq (p : Int) : c.nextSector p = c.sectorStart (c.sectorOf p + 1) := by
  have hpos : (c.pagesPerSector : Int) ≠ 0 := by exact_mod_cast c.pagesPerSector_pos.ne'
  unfold nextSector sectorStart sectorOf
  rw [show p + (c.pagesPerSector : Int) = p + 1 * c.pagesPerSector by omega, Int.add_mul_ediv_right _ _ hpos]

theorem lt_nextSector (p : Int) : p < c.nextSector p := by
  rw [c.nextSector_eq]
  exact (c.sectorOf_eq_iff.1 rfl).2

theorem sectorOf_sectorStart (k : Int) : c.sectorOf (c.sectorStart k) = k := by
  have := c.pagesPerSector_pos
  rw [sectorOf_eq_iff, sectorStart_succ]
  omega

theorem sectorOf_mono (h : p ≤ q) : c.sectorOf p ≤ c.sectorOf q :=
  Int.ediv_le_ediv (by exact_mod_cast c.pagesPerSector_pos) h

theorem sectorOf_nonneg (h : 0 ≤ p) : 0 ≤ c.sectorOf p := Int.ediv_nonneg h (Int.natCast_nonneg _)

theorem sectorOf_lt (h : p < c.pageCount) : c.sectorOf p < c.sectorCount := by
  rw [← sectorStart_count] at h
  by_contra hle
  have h₁ := c.sectorStart_mono (show (c.sectorCount : Int) ≤ c.sectorOf p by omega)
  have h₂ := c.sectorStart_le p
  omega

theorem sectorOf_between (h : p ≤ q) (hq : q < c.nextSector p) : c.sectorOf q = c.sectorOf p := by
  have := c.sectorStart_le p
  rw [c.nextSector_eq] at hq
  exact c.sectorOf_eq_iff.2 ⟨by omega, hq⟩

theorem nextSector_le (h : p < c.pageCount) : c.nextSector p ≤ c.pageCount := by
  rw [c.nextSector_eq, ← c.sectorStart_count]
  exact c.sectorStart_mono (by have := c.sectorOf_lt h; omega)

/-! ## Addresses -/

theorem address_page (h₀ : 0 ≤ p) (h : p < c.pageCount) : address (p * c.pageSize) = p.toNat * c.pageSize := by
  have hlt : p.toNat * c.pageSize < 2 ^ 31 := by
    have hle : p.toNat * c.pageSize ≤ c.pageCount * c.pageSize := Nat.mul_le_mul_right _ (by omega)
    exact lt_of_le_of_lt hle c.bytes_fit
  unfold address
  rw [show p * (c.pageSize : Int) = ((p.toNat * c.pageSize : Nat) : Int) by
    rw [Nat.cast_mul, Int.toNat_of_nonneg h₀], Int.emod_eq_of_lt (Int.natCast_nonneg _) (by omega), Int.toNat_natCast]

theorem page_before (hp : 0 ≤ p) (h : p < q) : p.toNat * c.pageSize + c.pageSize ≤ q.toNat * c.pageSize := by
  have hle : (p.toNat + 1) * c.pageSize ≤ q.toNat * c.pageSize := Nat.mul_le_mul_right _ (by omega)
  rwa [Nat.add_mul, Nat.one_mul] at hle

theorem address_sector (h₀ : 0 ≤ k) (h : k < c.sectorCount) :
    address (c.sectorStart k * c.pageSize) = (c.sectorStart k).toNat * c.pageSize := by
  have h₁ := c.sectorStart_mono h₀
  have h₂ := c.sectorStart_mono (show k + 1 ≤ c.sectorCount by omega)
  have hpos := c.pagesPerSector_pos
  rw [sectorStart_count, sectorStart_succ] at h₂
  rw [sectorStart_zero] at h₁
  exact c.address_page h₁ (by omega)

end Config

/-! ## Headers -/

@[simp] theorem FileHeader.checkFlag_zero (c : Config) (flag : UInt8) : (FileHeader.zero c).checkFlag flag = false := by
  simp [checkFlag, zero]

variable (c : Config) {a b : Nat} {m m' : Mem} {p q k : Int} {hdr : FileHeader}

theorem loadHeader_congr (h : ∀ x, a ≤ x → x < a + c.headerSize → m' x = m x) : loadHeader c a m' = loadHeader c a m := by
  unfold Config.headerSize at h
  unfold loadHeader
  rw [load_congr 2 a fun x h₁ h₂ => h x (by omega) (by omega),
    load_congr 2 (a + 2) fun x h₁ h₂ => h x (by omega) (by omega),
    load_congr 2 (a + 4) fun x h₁ h₂ => h x (by omega) (by omega),
    load_congr 2 (a + 6) fun x h₁ h₂ => h x (by omega) (by omega), h (a + 8) (by omega) (by omega),
    h (a + 9) (by omega) (by omega), read_congr fun x h₁ h₂ => h x (by omega) (by omega)]

theorem storeHeader_of_out {x : Nat} (hx : x < a ∨ a + c.headerSize ≤ x) : storeHeader c a hdr m x = m x := by
  unfold Config.headerSize at hx
  unfold storeHeader
  rw [paste_of_out (by omega), put_of_ne (by omega), put_of_ne (by omega), store_of_out 2 _ _ _ x (by omega),
    store_of_out 2 _ _ _ x (by omega), store_of_out 2 _ _ _ x (by omega), store_of_out 2 _ _ _ x (by omega)]

theorem loadHeader_storeHeader (hname : hdr.name.length = c.nameLength) :
    loadHeader c a (storeHeader c a hdr m) = hdr := by
  have word : ∀ v : UInt16, v.toNat < 256 ^ 2 := fun v => v.toNat_lt
  have hpaste : ∀ {n f m'}, SameOutside (a + 10) n m' (paste (a + 10) n f m') := fun x hx => paste_of_out hx
  have hput : ∀ {i v m'}, SameOutside (a + i) 1 m' (put (a + i) v m') := fun x hx => put_of_ne (by omega)
  unfold loadHeader storeHeader
  dsimp only
  rw [load_of_sameOutside hpaste (by omega), load_of_sameOutside hput (by omega), load_of_sameOutside hput (by omega),
    load_store_apart (by omega), load_store_apart (by omega), load_store_apart (by omega),
    load_store_same 2 a _ _ (word _),
    load_of_sameOutside hpaste (by omega), load_of_sameOutside hput (by omega), load_of_sameOutside hput (by omega),
    load_store_apart (by omega), load_store_apart (by omega), load_store_same 2 (a + 2) _ _ (word _),
    load_of_sameOutside hpaste (by omega), load_of_sameOutside hput (by omega), load_of_sameOutside hput (by omega),
    load_store_apart (by omega), load_store_same 2 (a + 4) _ _ (word _),
    load_of_sameOutside hpaste (by omega), load_of_sameOutside hput (by omega), load_of_sameOutside hput (by omega),
    load_store_same 2 (a + 6) _ _ (word _), paste_of_out (by omega), put_of_ne (by omega), put_same,
    paste_of_out (by omega), put_same]
  have hread : ∀ m', Mem.read (a + 10) c.nameLength (paste (a + 10) c.nameLength (fun i => hdr.name.getD i 0) m') =
      hdr.name := by
    intro m'
    rw [← hname]
    refine read_of_holds (holds_iff.2 fun i hi => ?_)
    rw [paste_in (by omega) (by omega), Nat.add_sub_cancel_left, List.getD_eq_getElem?_getD, List.getElem?_eq_getElem hi,
      Option.getD_some]
  rw [hread]
  simp

theorem readHeader_congr (h₀ : 0 ≤ p) (h : p < c.pageCount)
    (hm : ∀ x, p.toNat * c.pageSize ≤ x → x < p.toNat * c.pageSize + c.headerSize → m' x = m x) :
    readHeader c p m' = readHeader c p m := by
  unfold readHeader
  rw [c.address_page h₀ h]
  exact loadHeader_congr c hm

theorem readHeader_writeHeader (hname : hdr.name.length = c.nameLength) :
    readHeader c p (writeHeader c hdr p m) = { hdr with flags := hdr.flags ||| flagValid } :=
  loadHeader_storeHeader c hname

theorem writeHeader_of_out (h₀ : 0 ≤ p) (h : p < c.pageCount) {x : Nat}
    (hx : x < p.toNat * c.pageSize ∨ p.toNat * c.pageSize + c.headerSize ≤ x) : writeHeader c hdr p m x = m x := by
  unfold writeHeader
  rw [c.address_page h₀ h]
  exact storeHeader_of_out c hx

/-! ## Erasing -/

theorem erase_apply (h₀ : 0 ≤ k) (h : k < c.sectorCount) (x : Nat) : erase c k m x =
    if (c.sectorStart k).toNat * c.pageSize ≤ x ∧ x < (c.sectorStart (k + 1)).toNat * c.pageSize then 0 else m x := by
  have hstart := c.sectorStart_mono h₀
  rw [c.sectorStart_zero] at hstart
  unfold erase Mem.fill
  rw [c.address_sector h₀ h, c.sectorStart_succ, Int.toNat_add hstart (Int.natCast_nonneg _), Int.toNat_natCast, Nat.add_mul]

theorem erase_page (h₀ : 0 ≤ k) (h : k < c.sectorCount) (hp₀ : 0 ≤ p) {x : Nat} (h₁ : p.toNat * c.pageSize ≤ x)
    (h₂ : x < p.toNat * c.pageSize + c.pageSize) : erase c k m x = if c.sectorOf p = k then 0 else m x := by
  have hstart := c.sectorStart_mono h₀
  rw [c.sectorStart_zero] at hstart
  have hsucc := c.sectorStart_succ k
  rw [erase_apply c h₀ h]
  by_cases hs : c.sectorOf p = k
  · obtain ⟨hle, hlt⟩ := c.sectorOf_eq_iff.1 hs
    have hafter := c.page_before hp₀ hlt
    have hbefore : (c.sectorStart k).toNat * c.pageSize ≤ p.toNat * c.pageSize := Nat.mul_le_mul_right _ (by omega)
    rw [if_pos hs, if_pos (by omega)]
  · rw [if_neg hs, if_neg]
    rw [c.sectorOf_eq_iff] at hs
    by_cases hle : c.sectorStart k ≤ p
    · have hafter : (c.sectorStart (k + 1)).toNat * c.pageSize ≤ p.toNat * c.pageSize :=
        Nat.mul_le_mul_right _ (by omega)
      omega
    · have hbefore := c.page_before hp₀ (show p < c.sectorStart k by omega)
      omega

theorem loadHeader_zero (h : ∀ x, a ≤ x → x < a + c.headerSize → m x = 0) : loadHeader c a m = .zero c := by
  have hz : loadHeader c a m = loadHeader c a fun _ => 0 := loadHeader_congr c h
  have hload : ∀ n b, Mem.load n b (fun _ => 0) = 0 := by
    intro n
    induction n with
    | zero => exact fun _ => rfl
    | succ n ih => exact fun b => by rw [load, ih]; rfl
  have hread : ∀ n b, Mem.read b n (fun _ => 0) = List.replicate n 0 := by
    intro n
    induction n with
    | zero => exact fun _ => rfl
    | succ n ih => exact fun b => by rw [Mem.read, ih]; rfl
  rw [hz]
  unfold loadHeader FileHeader.zero
  simp only [hload, hread]
  rfl

end

end Contiki.Coffee
