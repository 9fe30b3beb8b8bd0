/-
Authenticated encryption by lib/ccm-star.c over any block function, and the mode of RFC 3610 with a length field of two
bytes: the CBC-MAC over formatted blocks, and the key stream. The function works on the buffers in place.
-/
import Contiki.Lib.Mem

namespace Contiki.Crypto

open Contiki.Lib

/-- `AES_128_BLOCK_SIZE` bytes. -/
abbrev Block := Fin 16 → UInt8

/-- The nonce, of `CCM_STAR_NONCE_LENGTH` bytes. -/
abbrev Nonce := Fin 13 → UInt8

/-! ## The driver -/

section

variable (encrypt : Block → Block) (nonce : Nonce)

/-- `CCM_STAR_AUTH_FLAGS`. -/
def authFlags (aLen : UInt16) (micLen : UInt8) : UInt8 :=
  (if aLen ≠ 0 then (1 : UInt8) <<< 6 else 0) ||| (((micLen - 2) >>> 1) <<< 3) ||| 1

/-- `CCM_STAR_ENCRYPTION_FLAGS`. -/
def encryptionFlags : UInt8 := 1

def micLenValid (x : UInt8) : Bool := 4 ≤ x && x ≤ 16 && x % 2 = 0

def setIv (flags : UInt8) (counter : UInt16) : Block := fun i =>
  if i.val = 0 then flags
  else if h : i.val < 14 then nonce ⟨i.val - 1, by omega⟩
  else if i.val = 14 then (counter >>> 8).toUInt8
  else counter.toUInt8

/-- `ctr_step`: the block at `pos`, as far as there is one, is XORed with the key stream. -/
def ctrStep (pos : Nat) (m : Mem) (mLen : UInt16) (counter : UInt16) : Mem :=
  let a := encrypt (setIv nonce encryptionFlags counter)
  fun x => if h : pos ≤ x ∧ x < mLen.toNat ∧ x < pos + 16 then m x ^^^ a ⟨x - pos, by omega⟩ else m x

/-- The loop of `mic` over associated data or over the message, from `pos` on. -/
@[grind =]
def macLoop (data : Mem) (len pos : Nat) (x : Block) : Block :=
  if pos < len then
    macLoop data len (pos + 16) (encrypt fun i => if pos + i < len then x i ^^^ data (pos + i) else x i)
  else x
termination_by len - pos

/-- `mic`: the first `mic_len` bytes go to `result`. -/
def mic (m : Mem) (mLen : UInt16) (a : Mem) (aLen : UInt16) (result : Mem) (micLen : UInt8) : Mem :=
  let x := encrypt (setIv nonce (authFlags aLen micLen) mLen)
  let x := if aLen ≠ 0 then
      let first : Block := fun i =>
        if i.val = 0 then x i ^^^ (aLen >>> 8).toUInt8
        else if i.val = 1 then x i ^^^ aLen.toUInt8
        else if i.val - 2 < aLen.toNat then x i ^^^ a (i - 2) else x i
      macLoop encrypt a aLen.toNat (min aLen.toNat 14) (encrypt first)
    else x
  let x := if mLen ≠ 0 then macLoop encrypt m mLen.toNat 0 x else x
  let x := ctrStep encrypt nonce 0 (fun i => if h : i < 16 then x ⟨i, h⟩ else 0) 16 0
  Mem.paste 0 micLen.toNat x result

/-- `ctr`, from the block at `pos` on. -/
@[grind =]
def ctrLoop (m : Mem) (mLen : UInt16) (pos : Nat) (counter : UInt16) : Mem :=
  if pos < mLen.toNat then ctrLoop (ctrStep encrypt nonce pos m mLen counter) mLen (pos + 16) (counter + 1) else m
termination_by mLen.toNat - pos

def ctr (m : Mem) (mLen : UInt16) : Mem := ctrLoop encrypt nonce m mLen 0 1

/-- `aead`: the message and the MIC that it leaves. -/
def aead (m : Mem) (mLen : UInt16) (a : Mem) (aLen : UInt16) (result : Mem) (micLen : UInt8) (forward : Bool) : Mem × Mem :=
  if !micLenValid micLen then (m, result)
  else if forward then (ctr encrypt nonce m mLen, mic encrypt nonce m mLen a aLen result micLen)
  else
    let m := ctr encrypt nonce m mLen
    (m, mic encrypt nonce m mLen a aLen result micLen)

/-! ## RFC 3610 -/

/-- A block of flags, nonce and a number in two bytes. -/
def formatted (flags : UInt8) (n : Nat) : Block := fun i =>
  if i.val = 0 then flags else if h : i.val < 14 then nonce ⟨i.val - 1, by omega⟩ else UInt8.ofNat (n / 256 ^ (15 - i.val))

def blocks (l : List UInt8) : List Block := (List.range ((l.length + 15) / 16)).map fun i j => l.getD (16 * i + j) 0

/-- The length of the associated data: two bytes, or four behind a mark when it is 2^16 - 2^8 or more. -/
def dataLength (n : Nat) : List UInt8 :=
  if n < 65280 then [UInt8.ofNat (n / 256), UInt8.ofNat n]
  else [0xff, 0xfe, UInt8.ofNat (n / 256 ^ 3), UInt8.ofNat (n / 256 ^ 2), UInt8.ofNat (n / 256), UInt8.ofNat n]

/-- The blocks of the associated data, with its length in front; there are none when there is no data. -/
def dataBlocks (a : List UInt8) : List Block := if a = [] then [] else blocks (dataLength a.length ++ a)

/-- `T`: the CBC-MAC of the blocks. -/
def authenticator (m a : List UInt8) (micLen : Nat) : Block :=
  let flags := 64 * (if a = [] then 0 else 1) + 8 * ((micLen - 2) / 2) + 1
  (dataBlocks a ++ blocks m).foldl (fun x b => encrypt fun i => x i ^^^ b i)
    (encrypt (formatted nonce (UInt8.ofNat flags) m.length))

/-- `S_i`: a block of the key stream. -/
def streamBlock (n : Nat) : Block := encrypt (formatted nonce 1 n)

/-- The key stream from the first byte of the message on. -/
def stream (x : Nat) : UInt8 := streamBlock encrypt nonce (x / 16 + 1) ⟨x % 16, Nat.mod_lt _ (by decide)⟩

/-- `U`: the encrypted authenticator. -/
def authentication (m a : List UInt8) (micLen : Nat) : Block := fun i =>
  authenticator encrypt nonce m a micLen i ^^^ streamBlock encrypt nonce 0 i

/-! ## Blocks -/

variable {encrypt nonce}

theorem setIv_eq (flags : UInt8) {n : Nat} (h : n < 65536) : setIv nonce flags (UInt16.ofNat n) = formatted nonce flags n := by
  funext i
  unfold setIv formatted
  split_ifs with h0 h1 h2
  · rfl
  · rfl
  · rw [h2, ← UInt8.toNat_inj]
    simp [Nat.shiftRight_eq_div_pow, Nat.mod_eq_of_lt h]
  · rw [show i.val = 15 by omega, ← UInt8.toNat_inj]
    simp

theorem authFlags_eq {micLen : UInt8} (aLen : UInt16) (h : micLenValid micLen = true) :
    authFlags aLen micLen = UInt8.ofNat (64 * (if aLen = 0 then 0 else 1) + 8 * ((micLen.toNat - 2) / 2) + 1) := by
  have hbyte : ∀ b : UInt8, micLenValid b = true → ((b - 2) >>> 1) <<< 3 ||| 1 = UInt8.ofNat (8 * ((b.toNat - 2) / 2) + 1) ∧
      (1 : UInt8) <<< 6 ||| ((b - 2) >>> 1) <<< 3 ||| 1 = UInt8.ofNat (64 + 8 * ((b.toNat - 2) / 2) + 1) :=
    forall_byte (by decide +kernel)
  unfold authFlags
  by_cases ha : aLen = 0
  · simpa [ha] using (hbyte micLen h).1
  · simpa [ha] using (hbyte micLen h).2

theorem macLoop_eq (data : Mem) (len : Nat) : ∀ (pos : Nat) (x : Block), macLoop encrypt data len pos x =
    ((List.range ((len - pos + 15) / 16)).map fun k (j : Fin 16) =>
      if pos + (16 * k + j) < len then data (pos + (16 * k + j)) else 0).foldl (fun x b => encrypt fun i => x i ^^^ b i) x := by
  intro pos x
  induction pos, x using macLoop.induct encrypt data len with
  | case1 pos x h ih =>
    simp only [dite_eq_ite] at ih
    rw [macLoop, if_pos h, ih, show (len - pos + 15) / 16 = (len - (pos + 16) + 15) / 16 + 1 by omega,
      List.range_succ_eq_map, List.map_cons, List.foldl_cons, List.map_map]
    congr 1
    · congr 1
      funext i
      by_cases hi : pos + i < len
      · simp [hi]
      · simp [hi]
    · refine List.map_congr_left fun k _ => ?_
      funext j
      simp only [Function.comp_apply, show pos + 16 + (16 * k + j) = pos + (16 * k.succ + j) by omega]
  | case2 pos x h =>
    rw [macLoop, if_neg h, show (len - pos + 15) / 16 = 0 by omega]
    rfl

theorem getD_read {m : Mem} : ∀ {n a i : Nat}, (Mem.read a n m).getD i 0 = if i < n then m (a + i) else 0
  | 0, _, _ => rfl
  | n + 1, a, 0 => rfl
  | n + 1, a, i + 1 => by
    rw [Mem.read, List.getD_cons_succ, getD_read, Nat.add_right_comm, Nat.add_assoc]
    simp only [Nat.add_lt_add_iff_right]

theorem macLoop_blocks (data : Mem) (len : Nat) (x : Block) :
    macLoop encrypt data len 0 x = (blocks (Mem.read 0 len data)).foldl (fun x b => encrypt fun i => x i ^^^ b i) x := by
  rw [macLoop_eq, blocks, Mem.length_read]
  simp only [getD_read, Nat.zero_add, Nat.sub_zero]

/-- The first block has the length in front; the loop goes over the others. -/
theorem macLoop_data {a : Mem} {aLen : UInt16} (h : aLen ≠ 0) (ha : aLen.toNat < 65280) (x : Block) :
    macLoop encrypt a aLen.toNat (min aLen.toNat 14) (encrypt fun i : Fin 16 =>
      if i.val = 0 then x i ^^^ (aLen >>> 8).toUInt8 else if i.val = 1 then x i ^^^ aLen.toUInt8
      else if i.val - 2 < aLen.toNat then x i ^^^ a (i - 2) else x i) =
    (dataBlocks (Mem.read 0 aLen.toNat a)).foldl (fun x b => encrypt fun i => x i ^^^ b i) x := by
  have hpos : 0 < aLen.toNat := Nat.pos_of_ne_zero fun h0 => h (UInt16.toNat_inj.1 h0)
  have hne : Mem.read 0 aLen.toNat a ≠ [] := fun h0 => by
    have := congrArg List.length h0
    rw [Mem.length_read] at this
    exact hpos.ne' this
  have hcount : (aLen.toNat + 1 + 1 + 15) / 16 = (aLen.toNat - min aLen.toNat 14 + 15) / 16 + 1 := by omega
  rw [macLoop_eq, dataBlocks, if_neg hne, Mem.length_read, dataLength, if_pos ha, List.cons_append, List.cons_append,
    List.nil_append, blocks, List.length_cons, List.length_cons, Mem.length_read, hcount, List.range_succ_eq_map, List.map_cons, List.foldl_cons, List.map_map]
  congr 1
  · congr 1
    funext ⟨i, hi⟩
    rcases i with _ | _ | k
    · simp [← UInt8.toNat_inj, Nat.shiftRight_eq_div_pow]
    · simp
    · have hk : k + 1 + 1 ≠ 1 := by omega
      have hsub : k + 1 + 1 - 2 = k := by omega
      simp only [Nat.mul_zero, Nat.zero_add, List.getD_cons_succ, getD_read, if_neg (Nat.succ_ne_zero _), if_neg hk, hsub]
      by_cases hlt : k < aLen.toNat
      · rw [if_pos hlt, if_pos hlt]
      · rw [if_neg hlt, if_neg hlt, UInt8.xor_zero]
  · refine List.map_congr_left fun k hk => ?_
    have hk := List.mem_range.1 hk
    funext j
    have := j.isLt
    rw [Function.comp_apply, show 16 * k.succ + j.val = 14 + (16 * k + j.val) + 1 + 1 by omega, List.getD_cons_succ,
      List.getD_cons_succ, getD_read, Nat.zero_add]
    rw [show min aLen.toNat 14 = 14 by omega]

/-! ## Authentication and encryption -/

theorem ctrStep_zero (x : Block) : ctrStep encrypt nonce 0 (fun i => if h : i < 16 then x ⟨i, h⟩ else 0) 16 0 =
    fun i => if h : i < 16 then x ⟨i, h⟩ ^^^ streamBlock encrypt nonce 0 ⟨i, h⟩ else 0 := by
  funext i
  have hiv : setIv nonce encryptionFlags 0 = formatted nonce 1 0 := setIv_eq 1 (by decide)
  unfold ctrStep streamBlock
  rw [hiv]
  by_cases h : i < 16
  · simp [h]
  · simp [h]

theorem micLen_le {micLen : UInt8} (h : micLenValid micLen = true) : micLen.toNat ≤ 16 := by
  simp only [micLenValid, Bool.and_eq_true, decide_eq_true_eq] at h
  exact UInt8.le_iff_toNat_le.1 h.1.2

theorem mic_eq {m a result : Mem} {mLen aLen : UInt16} {micLen : UInt8} (h : micLenValid micLen = true)
    (ha : aLen.toNat < 65280) : mic encrypt nonce m mLen a aLen result micLen = fun x => if hx : x < micLen.toNat then
        authentication encrypt nonce (Mem.read 0 mLen.toNat m) (Mem.read 0 aLen.toNat a) micLen.toNat
          ⟨x, lt_of_lt_of_le hx (micLen_le h)⟩ else result x := by
  have hread : Mem.read 0 aLen.toNat a = [] ↔ aLen = 0 := by
    rw [← List.length_eq_zero_iff, Mem.length_read, ← UInt16.toNat_inj, UInt16.toNat_zero]
  have hfirst : setIv nonce (authFlags aLen micLen) mLen = formatted nonce (UInt8.ofNat (64 *
      (if Mem.read 0 aLen.toNat a = [] then 0 else 1) + 8 * ((micLen.toNat - 2) / 2) + 1)) mLen.toNat := by
    have hiv : setIv nonce (authFlags aLen micLen) (UInt16.ofNat mLen.toNat) = _ := setIv_eq _ mLen.toNat_lt
    rw [UInt16.ofNat_toNat] at hiv
    rw [hiv, authFlags_eq aLen h]
    simp only [hread]
  have hdata (x : Block) : (if aLen ≠ 0 then macLoop encrypt a aLen.toNat (min aLen.toNat 14) (encrypt fun i : Fin 16 =>
      if i.val = 0 then x i ^^^ (aLen >>> 8).toUInt8
      else if i.val = 1 then x i ^^^ aLen.toUInt8
      else if i.val - 2 < aLen.toNat then x i ^^^ a (i - 2) else x i) else x) =
      (dataBlocks (Mem.read 0 aLen.toNat a)).foldl (fun x b => encrypt fun i => x i ^^^ b i) x := by
    by_cases h0 : aLen = 0
    · rw [if_neg (not_not.2 h0), dataBlocks, if_pos (hread.2 h0)]
      rfl
    · rw [if_pos h0, macLoop_data h0 ha]
  have hmessage (x : Block) : (if mLen ≠ 0 then macLoop encrypt m mLen.toNat 0 x else x) =
      (blocks (Mem.read 0 mLen.toNat m)).foldl (fun x b => encrypt fun i => x i ^^^ b i) x := by
    by_cases h0 : mLen = 0
    · rw [if_neg (not_not.2 h0), h0]
      simp [blocks, Mem.read]
    · rw [if_pos h0, macLoop_blocks]
  unfold mic
  dsimp only
  rw [hfirst, hdata, hmessage, ctrStep_zero]
  funext x
  unfold Mem.paste authentication authenticator
  rw [List.foldl_append, Mem.length_read]
  by_cases hx : x < micLen.toNat
  · have h16 := lt_of_lt_of_le hx (micLen_le h)
    rw [if_pos ⟨Nat.zero_le x, by omega⟩, dif_pos hx]
    exact dif_pos h16
  · rw [if_neg (by omega), dif_neg hx]

theorem ctrLoop_eq {mLen : UInt16} (m : Mem) (pos : Nat) (counter : UInt16) (hcounter : counter.toNat = pos / 16 + 1)
    (hpos : 16 ∣ pos) : ctrLoop encrypt nonce m mLen pos counter = fun x =>
      if pos ≤ x ∧ x < mLen.toNat then m x ^^^ stream encrypt nonce x else m x := by
  induction m, pos, counter using ctrLoop.induct encrypt nonce mLen with
  | case1 m pos counter h ih =>
    have hlt := mLen.toNat_lt
    have hnext : (counter + 1).toNat = (pos + 16) / 16 + 1 := by
      rw [UInt16.toNat_add, hcounter]
      simp only [UInt16.toNat_one]
      omega
    have hiv : setIv nonce encryptionFlags counter = formatted nonce 1 (pos / 16 + 1) := by
      rw [← setIv_eq 1 (by omega), ← hcounter, UInt16.ofNat_toNat]
      rfl
    rw [ctrLoop, if_pos h, ih hnext ((Nat.dvd_add_right hpos).2 dvd_rfl)]
    funext x
    unfold ctrStep
    rw [hiv]
    by_cases hx : pos ≤ x ∧ x < mLen.toNat ∧ x < pos + 16
    · have hmod : x % 16 = x - pos := by omega
      have hdiv : x / 16 = pos / 16 := by omega
      rw [if_neg (by omega), dif_pos hx, if_pos ⟨hx.1, hx.2.1⟩, stream, streamBlock, hdiv]
      simp only [hmod]
    · rw [dif_neg hx]
      by_cases hlater : pos + 16 ≤ x ∧ x < mLen.toNat
      · rw [if_pos hlater, if_pos (by omega)]
      · rw [if_neg hlater, if_neg (by omega)]
  | case2 m pos counter h =>
    rw [ctrLoop, if_neg h]
    funext x
    rw [if_neg (by omega)]

theorem ctr_eq (m : Mem) (mLen : UInt16) : ctr encrypt nonce m mLen = fun x =>
    if x < mLen.toNat then m x ^^^ stream encrypt nonce x else m x := by
  rw [ctr, ctrLoop_eq m 0 1 rfl (dvd_zero 16)]
  simp only [Nat.zero_le, true_and]

theorem ctr_ctr (m : Mem) (mLen : UInt16) : ctr encrypt nonce (ctr encrypt nonce m mLen) mLen = m := by
  rw [ctr_eq, ctr_eq]
  funext x
  by_cases hx : x < mLen.toNat
  · simp only [if_pos hx, UInt8.xor_assoc, UInt8.xor_self, UInt8.xor_zero]
  · simp only [if_neg hx]

variable (encrypt nonce)

/-- Forward, the driver produces the ciphertext and the MIC of RFC 3610; backward, it restores the message and produces
the same MIC. It writes to the message and to the MIC only. -/
theorem aead_rfc3610 {micLen : UInt8} {aLen : UInt16} (h : micLenValid micLen = true) (ha : aLen.toNat < 65280)
    (m a result result' : Mem) (mLen : UInt16) :
    let sent := aead encrypt nonce m mLen a aLen result micLen true
    let received := aead encrypt nonce sent.1 mLen a aLen result' micLen false
    (∀ x, sent.1 x = if x < mLen.toNat then m x ^^^ stream encrypt nonce x else m x) ∧
    (∀ x, sent.2 x = if hx : x < micLen.toNat then
        authentication encrypt nonce (Mem.read 0 mLen.toNat m) (Mem.read 0 aLen.toNat a) micLen.toNat
          ⟨x, lt_of_lt_of_le hx (micLen_le h)⟩
      else result x) ∧
    received.1 = m ∧ ∀ x, received.2 x = if x < micLen.toNat then sent.2 x else result' x := by
  have hvalid : ¬ (!micLenValid micLen) = true := by simp [h]
  simp only [aead, if_neg hvalid, if_pos, Bool.false_eq_true, if_false, ctr_ctr]
  refine ⟨fun x => by rw [ctr_eq], fun x => by rw [mic_eq h ha], trivial, fun x => ?_⟩
  rw [mic_eq h ha, mic_eq h ha]
  by_cases hx : x < micLen.toNat
  · simp only [dif_pos hx, if_pos hx]
  · simp only [dif_neg hx, if_neg hx]

theorem aead_rfc3610_short :
    let sent := aead (fun x i => x i + 1) (fun _ => 7) (fun x => UInt8.ofNat x) 20 (fun _ => 3) 5 (fun _ => 0) 8 true
    let received := aead (fun x i => x i + 1) (fun _ => 7) sent.1 20 (fun _ => 3) 5 (fun _ => 9) 8 false
    received.1 = (fun x => UInt8.ofNat x) ∧ ∀ x, received.2 x = if x < 8 then sent.2 x else 9 :=
  (aead_rfc3610 (fun x i => x i + 1) (fun _ => 7) (by decide) (by decide) _ _ _ _ _).2.2

end

end Contiki.Crypto
