/-
The basic encoding rules: numbers as base-256 octets and as base-128 septets with a continuation bit,
lengths, and type-length-value triples. A fold over the octets or septets gives the number back.
-/
import Mathlib.Data.Nat.Digits.Lemmas

namespace Contiki.Lib.Ber

/-! ## Digits, most significant first -/

/-- The digits of `n` in base `b` from the most significant one on, each written by `f`; none for 0. -/
@[grind =]
def digits (b : Nat) (f : Nat → UInt8) (n : Nat) : List UInt8 := ((Nat.digits b n).map f).reverse

@[simp] theorem digits_zero (b : Nat) (f : Nat → UInt8) : digits b f 0 = [] := by simp [digits]

theorem digits_pos {b n : Nat} (f : Nat → UInt8) (hb : 1 < b) (hn : 0 < n) :
    digits b f n = digits b f (n / b) ++ [f (n % b)] := by
  simp [digits, Nat.digits_def' hb hn]

theorem length_digits_le {b : Nat} (f : Nat → UInt8) (hb : 1 < b) :
    ∀ {k n : Nat}, (digits b f n).length ≤ k ↔ n < b ^ k
  | 0, n => by
    have : digits b f n = [] ↔ n = 0 := by simp [digits, Nat.digits_eq_nil_iff_eq_zero]
    simp [List.length_eq_zero_iff, this]
  | k + 1, n => by
    rcases Nat.eq_zero_or_pos n with rfl | hn
    · simp only [digits_zero, List.length_nil, Nat.zero_le, true_iff]
      exact Nat.pow_pos (by omega)
    · rw [digits_pos f hb hn, List.length_append, List.length_singleton, Nat.add_le_add_iff_right,
        length_digits_le f hb, Nat.div_lt_iff_lt_mul (by omega), Nat.pow_succ]

theorem mem_digits {b n : Nat} {f : Nat → UInt8} {x : UInt8} (hb : 1 < b) (h : x ∈ digits b f n) :
    ∃ d < b, x = f d := by
  obtain ⟨d, hd, rfl⟩ := List.mem_map.1 (List.mem_reverse.1 h)
  exact ⟨d, Nat.digits_lt_base hb hd, rfl⟩

theorem foldl_digits {b : Nat} {f : Nat → UInt8} {step : UInt32 → UInt8 → UInt32} (hb : 1 < b)
    (hstep : ∀ v : Nat, ∀ d < b, step (UInt32.ofNat v) (f d) = UInt32.ofNat (v * b + d)) :
    ∀ n : Nat, (digits b f n).foldl step 0 = UInt32.ofNat n := by
  intro n
  induction n using Nat.strongRecOn with
  | ind n ih =>
    rcases Nat.eq_zero_or_pos n with rfl | hn
    · simp
    · rw [digits_pos f hb hn, List.foldl_append, ih (n / b) (Nat.div_lt_self hn hb), List.foldl_cons, List.foldl_nil,
        hstep _ _ (Nat.mod_lt _ (by omega)), Nat.div_add_mod']

/-! ## Octets -/

def octets (n : Nat) : List UInt8 := digits 256 UInt8.ofNat (n / 256) ++ [UInt8.ofNat (n % 256)]

theorem length_octets_pos (n : Nat) : 0 < (octets n).length := by simp [octets]

theorem length_octets_le {k n : Nat} : (octets n).length ≤ k + 1 ↔ n < 256 ^ (k + 1) := by
  rw [octets, List.length_append, List.length_singleton, Nat.add_le_add_iff_right,
    length_digits_le _ (by omega), Nat.div_lt_iff_lt_mul (by omega), Nat.pow_succ]

theorem octets_of_lt {n : Nat} (h : n < 256) : octets n = [UInt8.ofNat n] := by
  rw [octets, Nat.div_eq_of_lt h, digits_zero, List.nil_append, Nat.mod_eq_of_lt h]

theorem toNat_shiftLeft_or {k : Nat} (hk : k < 32) (v w : UInt32) (hw : w.toNat < 2 ^ k) :
    ((v <<< UInt32.ofNat k) ||| w).toNat = (v.toNat * 2 ^ k + w.toNat) % 2 ^ 32 := by
  have hs : v.toNat * 2 ^ k % 2 ^ 32 = 2 ^ k * (v.toNat % 2 ^ (32 - k)) := by
    rw [Nat.mul_comm, show (2 : Nat) ^ 32 = 2 ^ k * 2 ^ (32 - k) by rw [← Nat.pow_add]; congr 1; omega,
      Nat.mul_mod_mul_left]
  have hlt : v.toNat * 2 ^ k % 2 ^ 32 + w.toNat < 2 ^ 32 := by
    have hr := Nat.mod_lt v.toNat (Nat.pow_pos (n := 32 - k) (show 0 < 2 by omega))
    have hp : (2 : Nat) ^ 32 = 2 ^ k * 2 ^ (32 - k) := by rw [← Nat.pow_add]; congr 1; omega
    rw [hs, hp]
    calc 2 ^ k * (v.toNat % 2 ^ (32 - k)) + w.toNat < 2 ^ k * (v.toNat % 2 ^ (32 - k)) + 2 ^ k := by omega
      _ = 2 ^ k * (v.toNat % 2 ^ (32 - k) + 1) := by rw [Nat.mul_add, Nat.mul_one]
      _ ≤ 2 ^ k * 2 ^ (32 - k) := Nat.mul_le_mul_left _ hr
  have hk' : (UInt32.ofNat k).toNat % 32 = k := by
    rw [UInt32.toNat_ofNat']; omega
  rw [UInt32.toNat_or, UInt32.toNat_shiftLeft, hk', Nat.shiftLeft_eq]
  rw [Nat.add_mod, Nat.mod_eq_of_lt w.toNat_lt, Nat.mod_eq_of_lt hlt, hs, ← Nat.two_pow_add_eq_or_of_lt hw]

def pushOctet (v : UInt32) (b : UInt8) : UInt32 := (v <<< 8) ||| b.toUInt32

theorem foldl_octets (n : Nat) : (octets n).foldl pushOctet 0 = UInt32.ofNat n := by
  have hstep : ∀ v : Nat, ∀ d < 256, pushOctet (UInt32.ofNat v) (UInt8.ofNat d) = UInt32.ofNat (v * 256 + d) := by
    intro v d hd
    apply UInt32.toNat_inj.1
    have hd' : (UInt8.ofNat d).toUInt32.toNat = d := by
      rw [UInt8.toNat_toUInt32, UInt8.toNat_ofNat', Nat.mod_eq_of_lt hd]
    rw [pushOctet, show (8 : UInt32) = UInt32.ofNat 8 from rfl, toNat_shiftLeft_or (by omega) _ _ (by rw [hd']; exact hd), hd',
      UInt32.toNat_ofNat', UInt32.toNat_ofNat']
    omega
  rw [octets, List.foldl_append, foldl_digits (by omega) hstep, List.foldl_cons, List.foldl_nil,
    hstep _ _ (Nat.mod_lt _ (by omega)), Nat.div_add_mod']

/-! ## Septets -/

/-- The septets of a number, one at least: the continuation bit is set in all but the last. -/
def septets (n : Nat) : List UInt8 :=
  digits 128 (fun d => UInt8.ofNat (d + 128)) (n / 128) ++ [UInt8.ofNat (n % 128)]

theorem septets_of_lt {n : Nat} (h : n < 128) : septets n = [UInt8.ofNat n] := by
  rw [septets, Nat.div_eq_of_lt h, digits_zero, List.nil_append, Nat.mod_eq_of_lt h]

theorem length_septets_le {k n : Nat} : (septets n).length ≤ k + 1 ↔ n < 128 ^ (k + 1) := by
  rw [septets, List.length_append, List.length_singleton, Nat.add_le_add_iff_right,
    length_digits_le _ (by omega), Nat.div_lt_iff_lt_mul (by omega), Nat.pow_succ]

theorem length_septets_pos (n : Nat) : 0 < (septets n).length := by simp [septets]

/-- Octets of which all but the last continue. -/
def Group (cs : List UInt8) (l : UInt8) : Prop := (∀ c ∈ cs, 128 ≤ c.toNat) ∧ l.toNat < 128

theorem septets_group (n : Nat) : ∃ cs l, septets n = cs ++ [l] ∧ Group cs l ∧ l.toNat = n % 128 := by
  have hl : (UInt8.ofNat (n % 128)).toNat = n % 128 := by rw [UInt8.toNat_ofNat']; omega
  refine ⟨_, _, rfl, ⟨fun c hc => ?_, by omega⟩, hl⟩
  obtain ⟨d, hd, rfl⟩ := mem_digits (by omega) hc
  rw [UInt8.toNat_ofNat']
  omega

theorem toNat_and_mask (x : UInt8) : (x &&& 0x7F).toNat = x.toNat % 128 := by
  rw [UInt8.toNat_and, show (0x7F : UInt8).toNat = 2 ^ 7 - 1 from rfl, Nat.and_two_pow_sub_one_eq_mod]

def pushSeptet (v : UInt32) (b : UInt8) : UInt32 := (v <<< 7) ||| (b &&& 0x7F).toUInt32

theorem toNat_pushSeptet (v : UInt32) (b : UInt8) :
    (pushSeptet v b).toNat = (v.toNat * 128 + b.toNat % 128) % 2 ^ 32 := by
  have hb : (b &&& 0x7F).toUInt32.toNat = b.toNat % 128 := by
    rw [UInt8.toNat_toUInt32, toNat_and_mask]
  rw [pushSeptet, show (7 : UInt32) = UInt32.ofNat 7 from rfl, toNat_shiftLeft_or (by omega) _ _ (by omega), hb]
  rfl

theorem foldl_septets (n : Nat) : (septets n).foldl pushSeptet 0 = UInt32.ofNat n := by
  have hstep : ∀ v : Nat, ∀ d < 128, ∀ x : UInt8, x.toNat % 128 = d →
      pushSeptet (UInt32.ofNat v) x = UInt32.ofNat (v * 128 + d) := by
    intro v d hd x hx
    apply UInt32.toNat_inj.1
    rw [toNat_pushSeptet, hx, UInt32.toNat_ofNat', UInt32.toNat_ofNat']
    omega
  have hfold := foldl_digits (f := fun d => UInt8.ofNat (d + 128)) (by omega)
    (fun v d hd => hstep v d hd _ (by rw [UInt8.toNat_ofNat']; omega)) (n / 128)
  rw [septets, List.foldl_append, hfold, List.foldl_cons, List.foldl_nil,
    hstep _ (n % 128) (Nat.mod_lt _ (by omega)) _ (by rw [UInt8.toNat_ofNat']; omega), Nat.div_add_mod']

/-! ## Lengths and triples -/

/-- The length octets: the short form below 128, else the number of octets and these. -/
def lengthOctets (n : Nat) : List UInt8 :=
  if n < 128 then [UInt8.ofNat n] else UInt8.ofNat (128 + (octets n).length) :: octets n

theorem lengthOctets_of_lt {n : Nat} (h : n < 128) : lengthOctets n = [UInt8.ofNat n] := if_pos h

theorem length_lengthOctets_pos (n : Nat) : 0 < (lengthOctets n).length := by
  unfold lengthOctets
  split <;> simp

/-- A type, the length of the content, the content. -/
def tlv (type : UInt8) (content : List UInt8) : List UInt8 := type :: (lengthOctets content.length ++ content)

theorem length_tlv_ge (type : UInt8) (content : List UInt8) : content.length + 2 ≤ (tlv type content).length := by
  have := length_lengthOctets_pos content.length
  simp only [tlv, List.length_cons, List.length_append]
  omega

theorem tlv_of_lt {type : UInt8} {content : List UInt8} (h : content.length < 128) :
    tlv type content = type :: UInt8.ofNat content.length :: content := by
  rw [tlv, lengthOctets_of_lt h, List.singleton_append]

/-- The content of an object identifier of two arcs at least: the first two share one number. -/
@[grind =]
def oidContent : List UInt32 → List UInt8
  | a :: b :: arcs => septets (40 * a.toNat + b.toNat) ++ arcs.flatMap (fun x => septets x.toNat)
  | _ => []

end Contiki.Lib.Ber
