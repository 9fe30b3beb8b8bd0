/-
Chunk headers in memory: what each field reads after each field of the same header or of another one
was written, and the arithmetic of the configuration.
-/
import Contiki.Heapmem.Model
import Contiki.Lib.Linked

namespace Contiki.Heapmem

section

open Contiki.Lib Contiki.Lib.Mem

/-! ## The configuration -/

namespace Config

variable (c : Config)

theorem align_pos : 0 < c.align := by
  obtain ⟨k, hk⟩ := c.align_pow
  rw [hk]; exact Nat.pow_pos (by omega)

theorem chunkSize_pos : 0 < c.chunkSize := by
  have := c.header; omega

theorem alignUp_dvd (size : Nat) : c.align ∣ c.alignUp size := Dvd.intro_left _ rfl

theorem le_alignUp (size : Nat) : size ≤ c.alignUp size := by
  have hpos := c.align_pos
  have hdm := Nat.div_add_mod (size + (c.align - 1)) c.align
  have hlt := Nat.mod_lt (size + (c.align - 1)) hpos
  unfold alignUp
  rw [Nat.mul_comm] at hdm
  omega

theorem alignUp_lt (size : Nat) : c.alignUp size < size + c.align := by
  have hpos := c.align_pos
  have hdm := Nat.div_add_mod (size + (c.align - 1)) c.align
  unfold alignUp
  rw [Nat.mul_comm] at hdm
  omega

theorem alignUp_of_dvd {size : Nat} (h : c.align ∣ size) : c.alignUp size = size := by
  have h₁ := c.le_alignUp size
  have h₂ := c.alignUp_lt size
  obtain ⟨k, hk⟩ := h
  obtain ⟨j, hj⟩ := c.alignUp_dvd size
  have hpos := c.align_pos
  rw [hk] at h₁ h₂ ⊢
  rw [hk] at hj
  rw [hj] at h₁ h₂ ⊢
  have hkj : k ≤ j := Nat.le_of_mul_le_mul_left h₁ hpos
  have hjk : j < k + 1 := Nat.lt_of_mul_lt_mul_left (a := c.align) (by rw [Nat.mul_add, Nat.mul_one]; exact h₂)
  rw [show j = k by omega]

theorem arena_word : c.arena + c.arena < c.word := by
  have h₁ := c.arena_int
  have h₂ := c.int_word
  unfold word; omega

theorem alignUp_int {size : Nat} (h : size ≤ c.arena) : c.alignUp size ≤ 2 ^ (c.intBits - 1) := by
  have h₁ := c.alignUp_lt size
  have h₂ := c.arena_int
  obtain ⟨k, hk⟩ := c.align_pow
  have hdvd : c.align ∣ 2 ^ (c.intBits - 1) := by
    have hle := c.header_int
    rw [hk] at hle ⊢
    exact Nat.pow_dvd_pow 2 ((Nat.pow_le_pow_iff_right (show 1 < 2 by omega)).1 (le_trans (Nat.le_add_left _ _) hle))
  obtain ⟨i, hi⟩ := hdvd
  obtain ⟨j, hj⟩ := c.alignUp_dvd size
  rw [hj] at h₁
  rw [hi] at h₂
  rw [hj, hi]
  -- below the next multiple of the alignment
  have hji : j < i + 1 := by
    refine Nat.lt_of_mul_lt_mul_left (a := c.align) ?_
    rw [Nat.mul_add, Nat.mul_one]
    omega
  exact Nat.mul_le_mul_left _ (by omega)

theorem wordSub_of_le {a b : Nat} (h : b ≤ a) (ha : a < c.word) : c.wordSub a b = a - b := by
  unfold wordSub
  rw [show a + (c.word - b) = (a - b) + c.word by omega, Nat.add_mod_right, Nat.mod_eq_of_lt (by omega)]

theorem wordAdd_natCast {a x : Nat} (h : a + x < c.word) : c.wordAdd a x = a + x := by
  unfold wordAdd
  rw [← Nat.cast_add, ← Int.natCast_mod, Int.toNat_natCast, Nat.mod_eq_of_lt h]

theorem toInt_wordSub {a b : Nat} (ha : a ≤ 2 ^ (c.intBits - 1)) (hb : b ≤ c.arena) (hpos : 0 < b) :
    c.toInt (c.wordSub a b) = (a : Int) - b := by
  have harena := c.arena_int
  have hdvd : 2 ^ c.intBits ∣ c.word := by
    have hle := c.int_word
    have hbits := c.int_pos
    have hpow : 2 ^ (c.intBits - 1) * 2 = 2 ^ c.intBits := by
      rw [← Nat.pow_succ]; congr 1; omega
    rw [hpow, show (256 : Nat) = 2 ^ 8 by norm_num, ← Nat.pow_mul] at hle
    unfold word
    rw [show (256 : Nat) = 2 ^ 8 by norm_num, ← Nat.pow_mul]
    exact Nat.pow_dvd_pow 2 ((Nat.pow_le_pow_iff_right (show 1 < 2 by omega)).1 hle)
  have htwo : 2 ^ c.intBits = 2 ^ (c.intBits - 1) * 2 := by
    have := c.int_pos
    rw [← Nat.pow_succ]; congr 1; omega
  have hword : 2 ^ (c.intBits - 1) * 2 ≤ c.word := c.int_word
  have hmod : c.wordSub a b % 2 ^ c.intBits = (a + (c.word - b)) % 2 ^ c.intBits := Nat.mod_mod_of_dvd _ hdvd
  obtain ⟨k, hk⟩ := hdvd
  unfold toInt
  rw [hmod]
  by_cases hle : b ≤ a
  · have hsum : (a + (c.word - b)) % 2 ^ c.intBits = a - b := by
      rw [show a + (c.word - b) = (a - b) + 2 ^ c.intBits * k by omega, Nat.add_mul_mod_self_left,
        Nat.mod_eq_of_lt (by omega)]
    rw [hsum, if_pos (by omega)]
    omega
  · have hk1 : 1 ≤ k := by
      rcases Nat.eq_zero_or_pos k with h0 | h0
      · subst h0; omega
      · exact h0
    have hkk : 2 ^ c.intBits * k = 2 ^ c.intBits * (k - 1) + 2 ^ c.intBits := by
      rw [← Nat.mul_succ]; congr 1; omega
    have hsum : (a + (c.word - b)) % 2 ^ c.intBits = 2 ^ c.intBits - (b - a) := by
      rw [show a + (c.word - b) = (2 ^ c.intBits - (b - a)) + 2 ^ c.intBits * (k - 1) by omega,
        Nat.add_mul_mod_self_left, Nat.mod_eq_of_lt (by omega)]
    rw [hsum, if_neg (by omega)]
    omega

end Config

/-! ## Fields -/

section

variable (c : Config)

theorem setPrev_same (p v : Nat) (m : Mem) : SameOutside p c.chunkSize m (setPrev c p v m) := fun x hx =>
  store_of_out _ _ _ m x (by have := c.header; omega)

theorem setNext_same (p v : Nat) (m : Mem) : SameOutside p c.chunkSize m (setNext c p v m) := fun x hx =>
  store_of_out _ _ _ m x (by have := c.header; omega)

theorem setSize_same (p v : Nat) (m : Mem) : SameOutside p c.chunkSize m (setSize c p v m) := fun x hx =>
  store_of_out _ _ _ m x (by have := c.header; omega)

theorem setFlags_same (p v : Nat) (m : Mem) : SameOutside p c.chunkSize m (setFlags c p v m) := fun x hx =>
  store_of_out _ _ _ m x (by have := c.header; omega)

theorem setZone_same (p v : Nat) (m : Mem) : SameOutside p c.chunkSize m (setZone c p v m) := fun x hx =>
  store_of_out _ _ _ m x (by have := c.header; omega)

structure Hdr where
  prev : Nat
  next : Nat
  size : Nat
  flags : Nat
  zone : Nat

/-- The header at `p`. -/
def hdr (p : Nat) (m : Mem) : Hdr :=
  ⟨chunkPrev c p m, chunkNext c p m, chunkSizeOf c p m, chunkFlags c p m, chunkZone c p m⟩

def Apart (p q : Nat) : Prop := p + c.chunkSize ≤ q ∨ q + c.chunkSize ≤ p

end

variable {c : Config} {p q : Nat} {m m' : Mem}

theorem Apart.symm (h : Apart c p q) : Apart c q p := Or.symm h

theorem hdr_congr (h : ∀ x, p ≤ x → x < p + c.chunkSize → m' x = m x) : hdr c p m' = hdr c p m := by
  have hh := c.header
  simp only [hdr, chunkPrev, chunkNext, chunkSizeOf, chunkFlags, chunkZone, Hdr.mk.injEq]
  refine ⟨?_, ?_, ?_, ?_, ?_⟩ <;> exact load_congr _ _ fun x h₁ h₂ => h x (by omega) (by omega)

theorem hdr_of_apart (ha : Apart c p q) (h : SameOutside p c.chunkSize m m') : hdr c q m' = hdr c q m :=
  hdr_congr fun x h₁ h₂ => h x (by rcases ha with ha | ha <;> omega)

theorem hdr_setPrev {v : Nat} (hv : v < c.word) : hdr c p (setPrev c p v m) = { hdr c p m with prev := v } := by
  have hh := c.header
  simp only [hdr, chunkPrev, chunkNext, chunkSizeOf, chunkFlags, chunkZone, setPrev, Hdr.mk.injEq]
  refine ⟨load_store_same _ _ _ _ hv, ?_, ?_, ?_, ?_⟩ <;> exact load_store_apart (by omega)

theorem hdr_setNext {v : Nat} (hv : v < c.word) : hdr c p (setNext c p v m) = { hdr c p m with next := v } := by
  have hh := c.header
  simp only [hdr, chunkPrev, chunkNext, chunkSizeOf, chunkFlags, chunkZone, setNext, Hdr.mk.injEq]
  refine ⟨?_, load_store_same _ _ _ _ hv, ?_, ?_, ?_⟩ <;> exact load_store_apart (by omega)

theorem hdr_setSize {v : Nat} (hv : v < c.word) : hdr c p (setSize c p v m) = { hdr c p m with size := v } := by
  have hh := c.header
  simp only [hdr, chunkPrev, chunkNext, chunkSizeOf, chunkFlags, chunkZone, setSize, Hdr.mk.injEq]
  refine ⟨?_, ?_, load_store_same _ _ _ _ hv, ?_, ?_⟩ <;> exact load_store_apart (by omega)

theorem hdr_setFlags {v : Nat} (hv : v < 256) : hdr c p (setFlags c p v m) = { hdr c p m with flags := v } := by
  have hh := c.header
  simp only [hdr, chunkPrev, chunkNext, chunkSizeOf, chunkFlags, chunkZone, setFlags, Hdr.mk.injEq]
  refine ⟨?_, ?_, ?_, load_store_same _ _ _ _ (by simpa using hv), ?_⟩ <;> exact load_store_apart (by omega)

theorem hdr_setZone {v : Nat} (hv : v < 256) : hdr c p (setZone c p v m) = { hdr c p m with zone := v } := by
  have hh := c.header
  simp only [hdr, chunkPrev, chunkNext, chunkSizeOf, chunkFlags, chunkZone, setZone, Hdr.mk.injEq]
  refine ⟨?_, ?_, ?_, ?_, load_store_same _ _ _ _ (by simpa using hv)⟩ <;> exact load_store_apart (by omega)

theorem chunkNext_lt (p : Nat) (m : Mem) : chunkNext c p m < c.word := load_lt _ _ m
theorem chunkFlags_lt (p : Nat) (m : Mem) : chunkFlags c p m < 256 := by
  have h := load_lt 1 (p + 3 * c.wordBytes) m
  simpa [chunkFlags] using h

/-! ## Reading a field of the header through the whole header -/

theorem chunkPrev_hdr (c : Config) (p : Nat) (m : Mem) : chunkPrev c p m = (hdr c p m).prev := rfl
theorem chunkNext_hdr (c : Config) (p : Nat) (m : Mem) : chunkNext c p m = (hdr c p m).next := rfl
theorem chunkSizeOf_hdr (c : Config) (p : Nat) (m : Mem) : chunkSizeOf c p m = (hdr c p m).size := rfl
theorem chunkFlags_hdr (c : Config) (p : Nat) (m : Mem) : chunkFlags c p m = (hdr c p m).flags := rfl
theorem chunkZone_hdr (c : Config) (p : Nat) (m : Mem) : chunkZone c p m = (hdr c p m).zone := rfl

theorem chunkAllocated_hdr (c : Config) (p : Nat) (m : Mem) :
    chunkAllocated c p m = decide ((hdr c p m).flags % 2 = 1) := rfl

end

/-!
What the memory of the heap represents: the chunks in address order, tiling the footprint, and the
free list threaded through the headers of the free ones. The four edits of the allocator (taking a
chunk off the free list, releasing one, splitting one, merging two) are edits of these lists, and
leave the data of all other chunks alone.
-/

section

open Contiki.Lib Contiki.Lib.Mem

/-! ## The representation -/

/-- Whether a chunk is allocated (in which zone), on the free list, or on its way between the two. -/
inductive BlkState where
  | used (zone : Nat)
  | free
  | detached
  deriving DecidableEq, Repr

/-- A chunk: where its header is and how much data follows. -/
structure Blk where
  addr : Nat
  size : Nat
  st : BlkState
  deriving DecidableEq, Repr

/-- The chunks follow each other from `a` to `e` without gaps. -/
@[grind =]
def Tiles (c : Config) : Nat → List Blk → Nat → Prop
  | a, [], e => a = e
  | a, b :: bs, e => b.addr = a ∧ Tiles c (a + c.chunkSize + b.size) bs e

structure Blk.Ok (c : Config) (m : Mem) (b : Blk) : Prop where
  size : chunkSizeOf c b.addr m = b.size
  aligned : c.align ∣ b.size
  pos : 0 < b.size
  used : ∀ z, b.st = .used z → chunkAllocated c b.addr m = true ∧ chunkZone c b.addr m = z ∧ z < c.maxZones
  free : b.st = .free → chunkAllocated c b.addr m = false

def Blk.Data (c : Config) (b : Blk) (x : Nat) : Prop :=
  b.addr + c.chunkSize ≤ x ∧ x < b.addr + c.chunkSize + b.size

/-- The link after a chunk; the one after the sentinel 0 is `free_list`. -/
def freeNext (c : Config) (h : Heap) (p : Nat) : Nat := if p = 0 then h.freeList else chunkNext c p h.mem

/-- The heap holds the chunks `bs`, and `fl` is its free list. -/
structure Rep (c : Config) (h : Heap) (bs : List Blk) (fl : List Nat) : Prop where
  tiles : Tiles c c.base bs (c.base + h.heapUsage)
  ok : ∀ b ∈ bs, b.Ok c h.mem
  usage : h.heapUsage ≤ c.arena
  list : DList 0 (freeNext c h) (fun p => chunkPrev c p h.mem) fl
  nodup : fl.Nodup
  free : ∀ p, p ∈ fl ↔ ∃ b ∈ bs, b.st = .free ∧ b.addr = p

def KeepsData (c : Config) (bs : List Blk) (m m' : Mem) : Prop :=
  ∀ b ∈ bs, ∀ x, b.Data c x → m' x = m x

variable {c : Config}

theorem KeepsData.refl (bs : List Blk) (m : Mem) : KeepsData c bs m m := fun _ _ _ _ => rfl

theorem KeepsData.mono {bs bs' : List Blk} {m m' : Mem} (h : KeepsData c bs m m') (hs : ∀ b ∈ bs', b ∈ bs) :
    KeepsData c bs' m m' := fun b hb => h b (hs b hb)

theorem KeepsData.trans {bs : List Blk} {m₁ m₂ m₃ : Mem} (h₁ : KeepsData c bs m₁ m₂) (h₂ : KeepsData c bs m₂ m₃) :
    KeepsData c bs m₁ m₃ := fun b hb x hx => (h₂ b hb x hx).trans (h₁ b hb x hx)

/-! ## Tilings -/

theorem tiles_append : ∀ (l₁ : List Blk) {l₂ : List Blk} {a e : Nat},
    Tiles c a (l₁ ++ l₂) e ↔ ∃ k, Tiles c a l₁ k ∧ Tiles c k l₂ e
  | [], l₂, a, e => by simp [Tiles]
  | b :: l₁, l₂, a, e => by
    simp only [List.cons_append, Tiles, tiles_append l₁]
    constructor
    · rintro ⟨hb, k, h₁, h₂⟩; exact ⟨k, ⟨hb, h₁⟩, h₂⟩
    · rintro ⟨k, ⟨hb, h₁⟩, h₂⟩; exact ⟨hb, k, h₁, h₂⟩

theorem Tiles.length : ∀ {bs : List Blk} {a e : Nat}, Tiles c a bs e → a + bs.length ≤ e
  | [], a, e, h => by have h : a = e := h; simp [h]
  | b :: bs, a, e, h => by
    have ih := Tiles.length h.2
    have := c.chunkSize_pos
    rw [List.length_cons]; omega

theorem Tiles.le {bs : List Blk} {a e : Nat} (h : Tiles c a bs e) : a ≤ e := by
  have := h.length; omega

theorem Tiles.mem : ∀ {bs : List Blk} {a e : Nat}, Tiles c a bs e → ∀ b ∈ bs,
    a ≤ b.addr ∧ b.addr + c.chunkSize + b.size ≤ e
  | b :: bs, a, e, ⟨hb, ht⟩, b', hb' => by
    rcases List.mem_cons.1 hb' with rfl | hb'
    · have := ht.le; omega
    · have := Tiles.mem ht b' hb'; omega

theorem Tiles.around {pre post : List Blk} {b : Blk} {a e : Nat} (h : Tiles c a (pre ++ b :: post) e) :
    Tiles c a pre b.addr ∧ Tiles c (b.addr + c.chunkSize + b.size) post e := by
  obtain ⟨k, h₁, hb, h₂⟩ := (tiles_append pre).1 h
  subst hb
  exact ⟨h₁, h₂⟩

theorem Tiles.build {pre post : List Blk} {b : Blk} {a e : Nat} (h₁ : Tiles c a pre b.addr)
    (h₂ : Tiles c (b.addr + c.chunkSize + b.size) post e) : Tiles c a (pre ++ b :: post) e :=
  (tiles_append pre).2 ⟨b.addr, h₁, rfl, h₂⟩

theorem Tiles.disjoint : ∀ {bs : List Blk} {a e : Nat}, Tiles c a bs e → ∀ b ∈ bs, ∀ b' ∈ bs,
    b = b' ∨ b.addr + c.chunkSize + b.size ≤ b'.addr ∨ b'.addr + c.chunkSize + b'.size ≤ b.addr
  | d :: bs, a, e, ⟨hd, ht⟩, b, hb, b', hb' => by
    rcases List.mem_cons.1 hb with h | h <;> rcases List.mem_cons.1 hb' with h' | h'
    · exact Or.inl (h.trans h'.symm)
    · have := ht.mem b' h'; subst h; exact Or.inr (Or.inl (by omega))
    · have := ht.mem b h; subst h'; exact Or.inr (Or.inr (by omega))
    · exact ht.disjoint b h b' h'

namespace Rep

variable {h : Heap} {bs pre post : List Blk} {fl : List Nat} {b b' : Blk} {p : Nat}

theorem addr_bounds (hr : Rep c h bs fl) (hb : b ∈ bs) :
    c.base ≤ b.addr ∧ b.addr + c.chunkSize + b.size ≤ c.base + c.arena := by
  have h₁ := hr.tiles.mem b hb
  have h₂ := hr.usage
  omega

theorem apart (hr : Rep c h bs fl) (hb : b ∈ bs) (hb' : b' ∈ bs) (hne : b.addr ≠ b'.addr) : Apart c b.addr b'.addr := by
  rcases hr.tiles.disjoint b hb b' hb' with rfl | h | h
  · exact absurd rfl hne
  · exact Or.inl (by omega)
  · exact Or.inr (by omega)

theorem eq_of_addr (hr : Rep c h bs fl) (hb : b ∈ bs) (hb' : b' ∈ bs) (he : b.addr = b'.addr) : b = b' := by
  have := c.chunkSize_pos
  rcases hr.tiles.disjoint b hb b' hb' with rfl | h | h
  · rfl
  · omega
  · omega

theorem addr_word (hr : Rep c h bs fl) (hb : b ∈ bs) : b.addr < c.word := by
  have h₁ := hr.addr_bounds hb
  have h₂ := c.address_space
  unfold Config.word; omega

theorem data_out (hr : Rep c h bs fl) (hb : b ∈ bs) (hb' : b' ∈ bs) {x : Nat} (hx : b'.Data c x) :
    x < b.addr ∨ b.addr + c.chunkSize ≤ x := by
  obtain ⟨h₁, h₂⟩ := hx
  rcases hr.tiles.disjoint b hb b' hb' with rfl | h | h
  · exact Or.inr h₁
  · exact Or.inr (by omega)
  · exact Or.inl (by omega)

theorem mem_free (hr : Rep c h bs fl) (hp : p ∈ fl) : ∃ b ∈ bs, b.st = .free ∧ b.addr = p := (hr.free p).1 hp

theorem free_ne_zero (hr : Rep c h bs fl) (hp : p ∈ fl) : p ≠ 0 := by
  obtain ⟨b, hb, _, rfl⟩ := hr.mem_free hp
  have h₁ := hr.addr_bounds hb
  have h₂ := c.base_pos
  omega

theorem keepsData (hr : Rep c h bs fl) (hb : b ∈ bs) {m' : Mem} (hm : SameOutside b.addr c.chunkSize h.mem m') :
    KeepsData c bs h.mem m' := fun _ hb' x hx => hm x (hr.data_out hb hb' hx)

theorem freeNext_mem (hr : Rep c h bs fl) {q : Nat} (hq : q = 0 ∨ q ∈ fl) :
    freeNext c h q = 0 ∨ freeNext c h q ∈ fl := by
  have key : ∀ l : List Nat, Links 0 (freeNext c h) (fun p => chunkPrev c p h.mem) (l ++ [0]) →
      ∀ q ∈ l, freeNext c h q = 0 ∨ freeNext c h q ∈ l.tail := by
    intro l
    induction l with
    | nil => intro _ q hq; cases hq
    | cons a l ih =>
      intro hl q hq
      cases l with
      | nil =>
        rw [List.mem_singleton] at hq; subst hq
        exact Or.inl hl.1
      | cons b l =>
        rcases List.mem_cons.1 hq with rfl | hq
        · exact Or.inr (by rw [hl.1]; simp)
        · rcases ih hl.2.2 q hq with h | h
          · exact Or.inl h
          · exact Or.inr (List.mem_cons_of_mem _ h)
  exact key (0 :: fl) hr.list q (by rcases hq with rfl | hq <;> simp [*])

theorem addr_ne (hr : Rep c h (pre ++ b :: post) fl) {d : Blk} (hd : d ∈ pre ++ post) : d.addr ≠ b.addr := by
  have := c.chunkSize_pos
  obtain ⟨h₁, h₂⟩ := hr.tiles.around
  rcases List.mem_append.1 hd with hd | hd
  · have := h₁.mem d hd; omega
  · have := h₂.mem d hd; omega

theorem free_focus (hr : Rep c h (pre ++ b :: post) fl) : (b.addr ∈ fl ↔ b.st = .free) ∧
      ∀ p, p ≠ b.addr → (p ∈ fl ↔ ∃ d ∈ pre ++ post, d.st = .free ∧ d.addr = p) := by
  refine ⟨?_, fun p hp => ?_⟩
  · rw [hr.free]
    constructor
    · rintro ⟨d, hd, hf, ha⟩
      rw [hr.eq_of_addr (by simp) hd ha.symm]; exact hf
    · exact fun hf => ⟨b, by simp, hf, rfl⟩
  · rw [hr.free]
    constructor
    · rintro ⟨d, hd, hf, ha⟩
      refine ⟨d, ?_, hf, ha⟩
      rcases List.mem_append.1 hd with hd | hd
      · exact List.mem_append_left _ hd
      · rcases List.mem_cons.1 hd with rfl | hd
        · exact absurd ha.symm hp
        · exact List.mem_append_right _ hd
    · rintro ⟨d, hd, hf, ha⟩
      refine ⟨d, ?_, hf, ha⟩
      rcases List.mem_append.1 hd with hd | hd
      · exact List.mem_append_left _ hd
      · exact List.mem_append_right _ (List.mem_cons_of_mem _ hd)

end Rep

theorem free_of_focus {pre post : List Blk} {b : Blk} {fl : List Nat} (hne : ∀ d ∈ pre ++ post, d.addr ≠ b.addr)
    (hb : b.addr ∈ fl ↔ b.st = .free)
    (ho : ∀ p, p ≠ b.addr → (p ∈ fl ↔ ∃ d ∈ pre ++ post, d.st = .free ∧ d.addr = p)) (p : Nat) :
    p ∈ fl ↔ ∃ d ∈ pre ++ b :: post, d.st = .free ∧ d.addr = p := by
  have hmem : ∀ d, d ∈ pre ++ b :: post ↔ d = b ∨ d ∈ pre ++ post := by
    intro d; simp only [List.mem_append, List.mem_cons]; tauto
  by_cases hp : p = b.addr
  · subst hp
    rw [hb]
    constructor
    · exact fun hf => ⟨b, (hmem b).2 (Or.inl rfl), hf, rfl⟩
    · rintro ⟨d, hd, hf, ha⟩
      rcases (hmem d).1 hd with rfl | hd
      · exact hf
      · exact absurd ha (hne d hd)
  · rw [ho p hp]
    constructor
    · rintro ⟨d, hd, hf, ha⟩; exact ⟨d, (hmem d).2 (Or.inr hd), hf, ha⟩
    · rintro ⟨d, hd, hf, ha⟩
      rcases (hmem d).1 hd with rfl | hd
      · exact absurd ha.symm hp
      · exact ⟨d, hd, hf, ha⟩

/-! ## Writes to headers that are apart -/

def Spread (c : Config) (A : Nat → Prop) : Prop := ∀ p q, A p → A q → p ≠ q → Apart c p q

theorem Rep.spread {h : Heap} {bs : List Blk} {fl : List Nat} (hr : Rep c h bs fl) :
    Spread c fun p => ∃ b ∈ bs, b.addr = p := by
  rintro p q ⟨b, hb, rfl⟩ ⟨b', hb', rfl⟩ hne
  exact hr.apart hb hb' hne

section

variable {A : Nat → Prop} (hA : Spread c A) {p q v : Nat} {m : Mem} (hp : A p) (hq : A q)

include hA hp hq

theorem hdr_setPrev_of (hv : v < c.word) :
    hdr c q (setPrev c p v m) = if q = p then { hdr c q m with prev := v } else hdr c q m := by
  split
  · rename_i h; subst h; exact hdr_setPrev hv
  · rename_i h; exact hdr_of_apart (hA p q hp hq (Ne.symm h)) (setPrev_same c p v m)

theorem hdr_setNext_of (hv : v < c.word) :
    hdr c q (setNext c p v m) = if q = p then { hdr c q m with next := v } else hdr c q m := by
  split
  · rename_i h; subst h; exact hdr_setNext hv
  · rename_i h; exact hdr_of_apart (hA p q hp hq (Ne.symm h)) (setNext_same c p v m)

theorem hdr_setFlags_of (hv : v < 256) :
    hdr c q (setFlags c p v m) = if q = p then { hdr c q m with flags := v } else hdr c q m := by
  split
  · rename_i h; subst h; exact hdr_setFlags hv
  · rename_i h; exact hdr_of_apart (hA p q hp hq (Ne.symm h)) (setFlags_same c p v m)

end

end

end Contiki.Heapmem
