import Mathlib.Algebra.Order.Field.Power
import Mathlib.Tactic.Linarith
import Mathlib.Tactic.Positivity
import Mathlib.Tactic.NormNum
import Mathlib.Tactic.Ring
import Mathlib.Tactic.GCongr
import DbtBigQuery.Errors

/-!
# Python floats

`format_bytes` and `format_rows_number` divide a Python `int` by `1024.0` or
`1000.0` and print the quotient with `f"{x:3.1f}"`. A float is a sign, a 53-bit
significand and a power of two. `float(n)`, `/` and `*` round the exact result
to the nearest float, ties to even; the format rounds the exact value of the
float to one decimal, ties to even. The loops divide only while the value is at
least the divisor, so they stay far above the subnormal range and the exponent
is left unbounded below; `float(n)` raises `OverflowError` once `n` rounds to
`2 ** 1024` or more.

* `roundDiv_spec`, `binadeScale_spec`: a division scales the exact quotient
  into `[2 ^ 52, 2 ^ 53)` and rounds it to the nearest integer, ties to even;
* `Binary64.round_exact`: a quotient that is a 53-bit integer times a power of
  two comes back unchanged, so `float(n)` is exact below `2 ^ 53` and dividing
  or multiplying by `1024.0` is exact;
* `fmt31_spec`: `f"{x:3.1f}"` is the value rounded to one decimal, as
  `OneDecimal` states it on the exact value.
-/

namespace DbtBigQuery

/-- `n.bit_length()`, halving at most `fuel` times. -/
def bitLen : ℕ → ℕ → ℕ
  | 0, _ => 0
  | fuel + 1, n => if n = 0 then 0 else bitLen fuel (n / 2) + 1

def bitLength (n : ℕ) : ℕ := bitLen n n

@[simp] theorem bitLen_zero (k : ℕ) : bitLen k 0 = 0 := by
  cases k <;> rfl

theorem bitLen_bounds : ∀ k n, n ≤ k → n < 2 ^ bitLen k n ∧ (0 < n → 2 ^ bitLen k n ≤ 2 * n)
  | 0, n, h => by
    obtain rfl : n = 0 := Nat.le_zero.mp h
    simp
  | k + 1, n, h => by
    rcases Nat.eq_zero_or_pos n with rfl | hn
    · simp
    have ih := bitLen_bounds k (n / 2) (by omega)
    rw [bitLen, if_neg hn.ne', pow_succ]
    rcases Nat.eq_zero_or_pos (n / 2) with h2 | h2
    · simp only [h2, bitLen_zero, pow_zero]
      omega
    · have := ih.2 h2
      omega

theorem bitLength_bounds (n : ℕ) : n < 2 ^ bitLength n ∧ (0 < n → 2 ^ bitLength n ≤ 2 * n) :=
  bitLen_bounds n n le_rfl

theorem bitLength_cast_bounds {n : ℕ} (hn : 0 < n) :
    (2 : ℚ) ^ ((bitLength n : ℤ) - 1) ≤ n ∧ (n : ℚ) < 2 ^ (bitLength n : ℤ) := by
  obtain ⟨h1, h2⟩ := bitLength_bounds n
  have h2 : 2 ^ bitLength n ≤ n * 2 := by have := h2 hn; omega
  rw [zpow_sub₀ two_ne_zero, zpow_natCast, zpow_one, div_le_iff₀ two_pos]
  exact ⟨by exact_mod_cast h2, by exact_mod_cast h1⟩

/-- A positive integer below `2 ^ 53` shifted left into `[2 ^ 52, 2 ^ 53)`. -/
theorem exists_normal_shift {k : ℕ} (hk : 0 < k) (hk' : k < 2 ^ 53) :
    ∃ j m : ℕ, 2 ^ 52 ≤ m ∧ m < 2 ^ 53 ∧ m = k * 2 ^ j := by
  obtain ⟨h1, h2⟩ := bitLength_bounds k
  have h2 := h2 hk
  have hb : bitLength k ≤ 53 := by
    have : 2 ^ bitLength k < 2 ^ 54 := by
      have : (2 : ℕ) ^ 54 = 2 * 2 ^ 53 := by norm_num
      omega
    exact Nat.lt_succ_iff.mp ((Nat.pow_lt_pow_iff_right (by norm_num : 1 < 2)).mp this)
  have hpow : 2 ^ bitLength k * 2 ^ (53 - bitLength k) = 2 ^ 53 := by
    rw [← pow_add, Nat.add_sub_cancel' hb]
  refine ⟨53 - bitLength k, _, ?_, ?_, rfl⟩
  · have : 2 ^ 53 ≤ 2 * (k * 2 ^ (53 - bitLength k)) := by
      rw [← hpow, ← mul_assoc]
      exact Nat.mul_le_mul_right _ h2
    omega
  · calc k * 2 ^ (53 - bitLength k) < 2 ^ bitLength k * 2 ^ (53 - bitLength k) :=
          Nat.mul_lt_mul_of_pos_right h1 (by positivity)
      _ = 2 ^ 53 := hpow

theorem bitLength_of_normal {m : ℕ} (h1 : 2 ^ 52 ≤ m) (h2 : m < 2 ^ 53) : bitLength m = 53 := by
  obtain ⟨b1, b2⟩ := bitLength_bounds m
  have b2 := b2 (by omega)
  have lo : 52 < bitLength m :=
    (Nat.pow_lt_pow_iff_right (by norm_num : 1 < 2)).mp (by omega : 2 ^ 52 < 2 ^ bitLength m)
  have hi : bitLength m < 54 := by
    have : (2 : ℕ) ^ 54 = 2 * 2 ^ 53 := by norm_num
    exact (Nat.pow_lt_pow_iff_right (by norm_num : 1 < 2)).mp (by omega : 2 ^ bitLength m < 2 ^ 54)
  omega

/-- `a / b` rounded to the nearest integer, ties to even. -/
def roundDiv (a b : ℕ) : ℕ :=
  if 2 * (a % b) < b then a / b
  else if b < 2 * (a % b) then a / b + 1
  else if a / b % 2 = 0 then a / b else a / b + 1

/-- `N` is `v` rounded to the nearest integer, ties to even. -/
def NearestEven (v : ℚ) (N : ℕ) : Prop :=
  |v - N| < 1 / 2 ∨ |v - N| = 1 / 2 ∧ N % 2 = 0

theorem NearestEven.abs_sub_le {v : ℚ} {N : ℕ} (h : NearestEven v N) : |v - N| ≤ 1 / 2 :=
  h.elim le_of_lt fun h => h.1.le

theorem nearestEven_natCast (n : ℕ) : NearestEven n n := .inl (by simp)

theorem NearestEven.unique {v : ℚ} {N N' : ℕ} (h : NearestEven v N) (h' : NearestEven v N') :
    N = N' := by
  by_contra hne
  wlog hlt : N < N' generalizing N N'
  · exact this h' h (Ne.symm hne) (lt_of_le_of_ne (not_lt.mp hlt) (Ne.symm hne))
  have hv := abs_le.mp h.abs_sub_le
  have hv' := abs_le.mp h'.abs_sub_le
  have hc : (N : ℚ) + 1 ≤ N' := by exact_mod_cast hlt
  -- `v` is within a half of both, so they are neighbours and `v` lies halfway
  have hN : N' = N + 1 := by
    have : (N' : ℚ) ≤ N + 1 := by linarith
    have : N' ≤ N + 1 := by exact_mod_cast this
    omega
  rcases h with h | ⟨-, he⟩
  · linarith [(abs_lt.mp h).2]
  rcases h' with h' | ⟨-, he'⟩
  · linarith [(abs_lt.mp h').1]
  omega

/-- A value rounded into `[c, d]` when it lies in `[c, d)`. -/
theorem NearestEven.bounds {v : ℚ} {N c d : ℕ} (h : NearestEven v N) (hc : (c : ℚ) ≤ v)
    (hd : (v : ℚ) < d) : c ≤ N ∧ N ≤ d := by
  have hv := abs_le.mp h.abs_sub_le
  constructor
  · have : (c : ℚ) < N + 1 := by linarith
    exact Nat.lt_succ_iff.mp (by exact_mod_cast this)
  · have : (N : ℚ) < d + 1 := by linarith
    exact Nat.lt_succ_iff.mp (by exact_mod_cast this)

theorem roundDiv_spec (a b : ℕ) (hb : 0 < b) : NearestEven ((a : ℚ) / b) (roundDiv a b) := by
  have hbq : (0 : ℚ) < b := by exact_mod_cast hb
  -- `a / b` is the quotient plus the fraction `r` the remainder makes of `b`
  obtain ⟨r, hr⟩ : ∃ r : ℚ, r = ((a % b : ℕ) : ℚ) / b := ⟨_, rfl⟩
  have hsplit : (a : ℚ) / b = (a / b : ℕ) + r := by
    have hcast : (a : ℚ) = b * (a / b : ℕ) + (a % b : ℕ) := by
      exact_mod_cast (Nat.div_add_mod a b).symm
    rw [hr, hcast, add_div, mul_div_cancel_left₀ _ hbq.ne']
  have hr0 : 0 ≤ r := by rw [hr]; positivity
  -- `2 * r` against `c` is `2 * (a % b)` against `c * b`
  have cmp : ∀ c : ℕ, (2 * (a % b) < c * b → 2 * r < c) ∧ (c * b < 2 * (a % b) → (c : ℚ) < 2 * r) ∧
      (2 * (a % b) = c * b → 2 * r = c) := fun c => by
    rw [hr, ← mul_div_assoc]
    refine ⟨fun h => ?_, fun h => ?_, fun h => ?_⟩
    · rw [div_lt_iff₀ hbq]; exact_mod_cast h
    · rw [lt_div_iff₀ hbq]; exact_mod_cast h
    · rw [div_eq_iff hbq.ne']; exact_mod_cast h
  unfold roundDiv
  split_ifs with h1 h2 h3
  · left
    have := (cmp 1).1 (by omega)
    push_cast at this
    rw [hsplit, add_sub_cancel_left, abs_of_nonneg hr0]
    linarith
  · left
    have lo := (cmp 1).2.1 (by omega)
    have hi := (cmp 2).1 (by have := Nat.mod_lt a hb; omega)
    push_cast at lo hi ⊢
    rw [hsplit, abs_sub_lt_iff]
    constructor <;> linarith
  · right
    have := (cmp 1).2.2 (by omega)
    push_cast at this
    refine ⟨?_, h3⟩
    rw [hsplit, add_sub_cancel_left, abs_of_nonneg hr0]
    linarith
  · right
    have := (cmp 1).2.2 (by omega)
    push_cast at this ⊢
    refine ⟨?_, by omega⟩
    have e : ((a / b : ℕ) : ℚ) + r - ((a / b : ℕ) + 1) = r - 1 := by ring
    rw [hsplit, e, abs_of_nonpos (by linarith)]
    linarith

/-- `num / den * 2 ^ s` as a fraction of naturals. -/
def scaleBy (num den : ℕ) (s : ℤ) : ℕ × ℕ := (num * 2 ^ s.toNat, den * 2 ^ (-s).toNat)

theorem scaleBy_ratio (num den : ℕ) (s : ℤ) :
    ((scaleBy num den s).1 : ℚ) / (scaleBy num den s).2 = num / den * 2 ^ s := by
  obtain ⟨k, rfl | rfl⟩ := Int.eq_nat_or_neg s
  · simp only [scaleBy, Int.toNat_natCast, Int.toNat_neg_nat, pow_zero, mul_one, Nat.cast_mul,
      Nat.cast_pow, Nat.cast_ofNat, zpow_natCast]
    ring
  · simp only [scaleBy, Int.toNat_neg_nat, neg_neg, Int.toNat_natCast, pow_zero, mul_one,
      Nat.cast_mul, Nat.cast_pow, Nat.cast_ofNat, zpow_neg, zpow_natCast]
    ring

/-- The scale that brings `num / den` into `[2 ^ 52, 2 ^ 53)`: the bit lengths
put it within a factor of two, and one comparison settles which. -/
def binadeScale (num den : ℕ) : ℤ :=
  let s : ℤ := 52 - ((bitLength num : ℤ) - bitLength den)
  if (scaleBy num den s).1 < 2 ^ 52 * (scaleBy num den s).2 then s + 1 else s

theorem binadeScale_spec {num den : ℕ} (hn : 0 < num) (hd : 0 < den) :
    2 ^ 52 ≤ (num : ℚ) / den * 2 ^ binadeScale num den ∧
      (num : ℚ) / den * 2 ^ binadeScale num den < 2 ^ 53 := by
  obtain ⟨n1, n2⟩ := bitLength_cast_bounds hn
  obtain ⟨d1, d2⟩ := bitLength_cast_bounds hd
  have hdq : (0 : ℚ) < den := by exact_mod_cast hd
  have two_pow (a b : ℤ) : (2 : ℚ) ^ a * 2 ^ b = 2 ^ (a + b) := (zpow_add₀ two_ne_zero a b).symm
  -- with the scale the bit lengths give, the quotient lies in `(2 ^ 51, 2 ^ 53)`
  have lo : (2 : ℚ) ^ 51 < num / den * 2 ^ (52 - ((bitLength num : ℤ) - bitLength den)) := by
    rw [div_mul_eq_mul_div, lt_div_iff₀ hdq]
    calc (2 : ℚ) ^ 51 * den < 2 ^ 51 * 2 ^ (bitLength den : ℤ) := mul_lt_mul_of_pos_left d2 (by positivity)
      _ = 2 ^ ((bitLength num : ℤ) - 1) * 2 ^ (52 - ((bitLength num : ℤ) - bitLength den)) := by
          rw [← zpow_natCast 2 51, two_pow, two_pow]; congr 1; push_cast; ring
      _ ≤ num * 2 ^ (52 - ((bitLength num : ℤ) - bitLength den)) := by gcongr
  have hi : (num : ℚ) / den * 2 ^ (52 - ((bitLength num : ℤ) - bitLength den)) < 2 ^ 53 := by
    rw [div_mul_eq_mul_div, div_lt_iff₀ hdq]
    calc (num : ℚ) * 2 ^ (52 - ((bitLength num : ℤ) - bitLength den))
        < 2 ^ (bitLength num : ℤ) * 2 ^ (52 - ((bitLength num : ℤ) - bitLength den)) := by gcongr
      _ = 2 ^ 53 * 2 ^ ((bitLength den : ℤ) - 1) := by
          rw [← zpow_natCast 2 53, two_pow, two_pow]; congr 1; push_cast; ring
      _ ≤ 2 ^ 53 * den := by gcongr
  unfold binadeScale
  simp only
  have hB : (0 : ℚ) < (scaleBy num den (52 - ((bitLength num : ℤ) - bitLength den))).2 := by
    exact_mod_cast Nat.mul_pos hd (by positivity)
  split_ifs with h
  · have h' : (num : ℚ) / den * 2 ^ (52 - ((bitLength num : ℤ) - bitLength den)) < 2 ^ 52 := by
      rw [← scaleBy_ratio, div_lt_iff₀ hB]
      exact_mod_cast h
    rw [zpow_add_one₀ two_ne_zero, ← mul_assoc]
    constructor <;> linarith
  · have h' : ¬ (num : ℚ) / den * 2 ^ (52 - ((bitLength num : ℤ) - bitLength den)) < 2 ^ 52 := by
      rw [← scaleBy_ratio, div_lt_iff₀ hB]
      exact_mod_cast h
    exact ⟨not_lt.mp h', hi⟩

/-- The 53-bit significand and the exponent of the float nearest `num / den`,
ties to even. -/
def roundRatio (num den : ℕ) : ℕ × ℤ :=
  let s := binadeScale num den
  let a := roundDiv (scaleBy num den s).1 (scaleBy num den s).2
  if a = 2 ^ 53 then (2 ^ 52, 1 - s) else (a, -s)

theorem roundRatio_spec {num den : ℕ} (hn : 0 < num) (hd : 0 < den) :
    ∃ a : ℕ, NearestEven ((num : ℚ) / den * 2 ^ binadeScale num den) a ∧
      2 ^ 52 ≤ (roundRatio num den).1 ∧ (roundRatio num den).1 < 2 ^ 53 ∧
      ((roundRatio num den).1 : ℚ) * 2 ^ (roundRatio num den).2 = a * 2 ^ (-binadeScale num den) := by
  have ha := roundDiv_spec (scaleBy num den (binadeScale num den)).1
    (scaleBy num den (binadeScale num den)).2 (Nat.mul_pos hd (by positivity))
  rw [scaleBy_ratio] at ha
  obtain ⟨hq1, hq2⟩ := binadeScale_spec hn hd
  obtain ⟨ha1, ha2⟩ := ha.bounds (c := 2 ^ 52) (d := 2 ^ 53) (by exact_mod_cast hq1) (by exact_mod_cast hq2)
  refine ⟨_, ha, ?_⟩
  unfold roundRatio
  simp only
  split_ifs with h
  · refine ⟨le_rfl, by norm_num, ?_⟩
    rw [h, sub_eq_add_neg, zpow_add₀ two_ne_zero, zpow_one, ← mul_assoc]
    norm_num
  · exact ⟨ha1, lt_of_le_of_ne ha2 h, rfl⟩

theorem roundRatio_normal {num den : ℕ} (hn : 0 < num) (hd : 0 < den) :
    2 ^ 52 ≤ (roundRatio num den).1 ∧ (roundRatio num den).1 < 2 ^ 53 :=
  let ⟨_, _, h1, h2, _⟩ := roundRatio_spec hn hd
  ⟨h1, h2⟩

/-! ## Floats -/

/-- A float `(-1) ^ neg * mant * 2 ^ exp`: zero, written one way, or a 53-bit
significand. -/
structure Binary64 where
  neg : Bool
  mant : ℕ
  exp : ℤ
  normal : mant = 0 ∧ neg = false ∧ exp = 0 ∨ 2 ^ 52 ≤ mant ∧ mant < 2 ^ 53
  deriving DecidableEq

def Binary64.zero : Binary64 := ⟨false, 0, 0, .inl ⟨rfl, rfl, rfl⟩⟩

/-- `±num / den * 2 ^ e` rounded to the nearest float, ties to even. -/
def Binary64.round (neg : Bool) (num den : ℕ) (e : ℤ) : Binary64 :=
  if h : 0 < num ∧ 0 < den then
    ⟨neg, (roundRatio num den).1, (roundRatio num den).2 + e, .inr (roundRatio_normal h.1 h.2)⟩
  else .zero

/-- `float(n)`, before its range check. -/
def Binary64.ofInt (n : ℤ) : Binary64 := .round (decide (n < 0)) n.natAbs 1 0

/-- `x / d` for an integer `d` that is itself a float, as `1024.0` and `1000.0` are. -/
def Binary64.div (x : Binary64) (d : ℕ) : Binary64 := .round x.neg x.mant d x.exp

def Binary64.mul (x : Binary64) (d : ℕ) : Binary64 := .round x.neg (x.mant * d) 1 x.exp

/-- `abs(x) < c`, compared exactly. -/
def Binary64.absLt (x : Binary64) (c : ℕ) : Bool :=
  if 0 ≤ x.exp then x.mant * 2 ^ x.exp.toNat < c else x.mant < c * 2 ^ (-x.exp).toNat

/-- The value is `2 ** 1024` or more in size, past the largest finite float. -/
def Binary64.overflows (x : Binary64) : Bool := 1025 ≤ (bitLength x.mant : ℤ) + x.exp

def intTooLarge : Exc := .of .overflowError "int too large to convert to float"

/-- `float(n)`, as `n / 1024.0` converts `n`. -/
def floatOfInt (n : ℤ) : Except Exc Binary64 :=
  if (Binary64.ofInt n).overflows then .error intTooLarge else .ok (.ofInt n)

/-- `10 * abs(x)` rounded to an integer, ties to even. -/
def Binary64.tenths (x : Binary64) : ℕ :=
  if 0 ≤ x.exp then 10 * x.mant * 2 ^ x.exp.toNat else roundDiv (10 * x.mant) (2 ^ (-x.exp).toNat)

/-- Right-aligned in a field of width 3. -/
def pad3 (s : String) : String := "".pushn ' ' (3 - s.length) ++ s

/-- A sign and a count of tenths, with the point before the last digit. -/
def decimalText (neg : Bool) (N : ℕ) : String :=
  (if neg then "-" else "") ++ toString (N / 10) ++ "." ++ toString (N % 10)

/-- `f"{x:3.1f}"`. -/
def fmt31 (x : Binary64) : String := pad3 (decimalText x.neg x.tenths)

def sgn (neg : Bool) : ℚ := if neg then -1 else 1

def Binary64.val (x : Binary64) : ℚ := sgn x.neg * (x.mant * 2 ^ x.exp)

theorem Binary64.abs_val (x : Binary64) : |x.val| = x.mant * 2 ^ x.exp := by
  rw [Binary64.val, abs_mul, abs_of_nonneg (by positivity : (0 : ℚ) ≤ x.mant * 2 ^ x.exp)]
  cases x.neg <;> simp [sgn]

theorem Binary64.val_neg_iff (x : Binary64) : x.val < 0 ↔ x.neg = true := by
  obtain ⟨neg, mant, exp, ⟨rfl, rfl, rfl⟩ | ⟨h1, -⟩⟩ := x
  · simp [Binary64.val, sgn]
  · have : (0 : ℚ) < mant * 2 ^ exp := by
      have : (0 : ℚ) < mant := by exact_mod_cast (by omega : 0 < mant)
      positivity
    cases neg <;> simp [Binary64.val, sgn] <;> linarith

theorem Binary64.round_of_zero (neg : Bool) (den : ℕ) (e : ℤ) : Binary64.round neg 0 den e = .zero := by
  simp [Binary64.round]

@[simp] theorem Binary64.zero_val : Binary64.zero.val = 0 := by simp [Binary64.zero, Binary64.val]

theorem Binary64.round_mant_pos {num den : ℕ} (hn : 0 < num) (hd : 0 < den) (neg : Bool) (e : ℤ) :
    0 < (Binary64.round neg num den e).mant := by
  simp only [Binary64.round, dif_pos (And.intro hn hd)]
  have := (roundRatio_normal hn hd).1
  omega

theorem Binary64.round_val {num den : ℕ} (hn : 0 < num) (hd : 0 < den) (neg : Bool) (e : ℤ) :
    ∃ a : ℕ, NearestEven ((num : ℚ) / den * 2 ^ binadeScale num den) a ∧
      (Binary64.round neg num den e).val = sgn neg * (a * 2 ^ (e - binadeScale num den)) := by
  obtain ⟨a, ha, -, -, hv⟩ := roundRatio_spec hn hd
  refine ⟨a, ha, ?_⟩
  simp only [Binary64.round, dif_pos (And.intro hn hd), Binary64.val]
  rw [zpow_add₀ two_ne_zero, ← mul_assoc ((roundRatio num den).1 : ℚ), hv, mul_assoc,
    ← zpow_add₀ two_ne_zero, neg_add_eq_sub]

/-- A quotient that is a 53-bit integer times a power of two is a float:
rounding gives it back. -/
theorem Binary64.round_exact {num den : ℕ} (hd : 0 < den) (neg : Bool) {e f : ℤ} {k : ℕ}
    (hk : 0 < k) (hk' : k < 2 ^ 53) (hv : (num : ℚ) / den * 2 ^ e = k * 2 ^ f) :
    (Binary64.round neg num den e).val = sgn neg * (k * 2 ^ f) := by
  have hn : 0 < num := by
    rcases Nat.eq_zero_or_pos num with rfl | h
    · have : (0 : ℚ) < k * 2 ^ f := by
        have : (0 : ℚ) < k := by exact_mod_cast hk
        positivity
      rw [Nat.cast_zero, zero_div, zero_mul] at hv
      linarith
    · exact h
  obtain ⟨a, ha, hval⟩ := Binary64.round_val hn hd neg e
  obtain ⟨hq1, hq2⟩ := binadeScale_spec hn hd
  obtain ⟨j, m, hm1, hm2, rfl⟩ := exists_normal_shift hk hk'
  have hm1' : (2 : ℚ) ^ 52 ≤ (k * 2 ^ j : ℕ) := by exact_mod_cast hm1
  have hm2' : ((k * 2 ^ j : ℕ) : ℚ) < 2 ^ 53 := by exact_mod_cast hm2
  have two_pow (a b : ℤ) : (2 : ℚ) ^ a * 2 ^ b = 2 ^ (a + b) := (zpow_add₀ two_ne_zero a b).symm
  -- the scaled quotient is the shifted integer times `2 ^ t`
  have hq : (num : ℚ) / den * 2 ^ binadeScale num den =
      ((k * 2 ^ j : ℕ) : ℚ) * 2 ^ (f - e + binadeScale num den - j) := by
    calc (num : ℚ) / den * 2 ^ binadeScale num den
        = num / den * 2 ^ e * 2 ^ (binadeScale num den - e) := by rw [mul_assoc, two_pow]; congr 2; ring
      _ = k * 2 ^ (j : ℤ) * 2 ^ (f - e + binadeScale num den - j) := by
          rw [hv, mul_assoc, mul_assoc, two_pow, two_pow]; congr 2; ring
      _ = _ := by push_cast; rw [zpow_natCast]
  -- both lie in `[2 ^ 52, 2 ^ 53)`, so `t = 0`
  have ht : f - e + binadeScale num den - j = 0 := by
    rcases lt_trichotomy (f - e + binadeScale num den - j) 0 with h | h | h
    · have : (2 : ℚ) ^ (f - e + binadeScale num den - j) ≤ 2 ^ (-1 : ℤ) :=
        zpow_le_zpow_right₀ one_le_two (by omega)
      have : (num : ℚ) / den * 2 ^ binadeScale num den ≤ ((k * 2 ^ j : ℕ) : ℚ) * 2 ^ (-1 : ℤ) := by
        rw [hq]; gcongr
      rw [zpow_neg_one] at this
      linarith
    · exact h
    · have : (2 : ℚ) ^ (1 : ℤ) ≤ 2 ^ (f - e + binadeScale num den - j) :=
        zpow_le_zpow_right₀ one_le_two (by omega)
      have : ((k * 2 ^ j : ℕ) : ℚ) * 2 ^ (1 : ℤ) ≤ (num : ℚ) / den * 2 ^ binadeScale num den := by
        rw [hq]; gcongr
      rw [zpow_one] at this
      linarith
  rw [ht, zpow_zero, mul_one] at hq
  have ham : a = k * 2 ^ j := (hq ▸ ha).unique (nearestEven_natCast _)
  rw [hval, ham]
  push_cast
  rw [mul_assoc, ← zpow_natCast, two_pow]
  congr 3
  omega

/-- A power of two converts exactly, however large: its significand is `1`. -/
theorem Binary64.ofInt_two_pow_val (n : ℕ) : (Binary64.ofInt (2 ^ n)).val = 2 ^ n := by
  rw [Binary64.ofInt, Binary64.round_exact one_pos _ one_pos (by norm_num) (f := n)]
  · simp [sgn]
  · rw [Int.natAbs_pow]
    simp

/-- `float(n)` is `n` while `n` fits in 53 bits. -/
theorem Binary64.ofInt_val_of_lt {n : ℤ} (h : |n| < 2 ^ 53) : (Binary64.ofInt n).val = n := by
  rcases eq_or_ne n 0 with rfl | hn
  · simp [Binary64.ofInt, Binary64.round_of_zero]
  have hk : 0 < n.natAbs := Int.natAbs_pos.mpr hn
  have hk' : n.natAbs < 2 ^ 53 := by
    have : (n.natAbs : ℤ) < 2 ^ 53 := by rwa [Int.natCast_natAbs]
    exact_mod_cast this
  rw [Binary64.ofInt, Binary64.round_exact one_pos _ hk hk' (f := 0) (by simp), zpow_zero, mul_one]
  rcases lt_or_gt_of_ne hn with hlt | hlt
  · simp [sgn, hlt, Nat.cast_natAbs, abs_of_neg (Int.cast_lt_zero.mpr hlt)]
  · simp [sgn, not_lt.mpr hlt.le, Nat.cast_natAbs, abs_of_pos (Int.cast_pos.mpr hlt)]

/-- `float(n)` is `2 ** 53` or more in size once `n` is. -/
theorem Binary64.ofInt_val_ge {n : ℤ} (h : 2 ^ 53 ≤ |n|) : 2 ^ 53 ≤ |(Binary64.ofInt n).val| := by
  have hk : 0 < n.natAbs := Int.natAbs_pos.mpr (by rintro rfl; norm_num at h)
  obtain ⟨a, ha, hval⟩ := Binary64.round_val hk one_pos (decide (n < 0)) 0
  obtain ⟨hq1, hq2⟩ := binadeScale_spec hk one_pos
  have ha1 := (ha.bounds (c := 2 ^ 52) (d := 2 ^ 53) (by exact_mod_cast hq1) (by exact_mod_cast hq2)).1
  have hn : (2 : ℚ) ^ 53 ≤ n.natAbs := by
    rw [Nat.cast_natAbs]; exact_mod_cast h
  -- the scale is negative: scaling `|n|` brought it below `2 ^ 53`
  have hs : binadeScale n.natAbs 1 ≤ -1 := by
    by_contra hs
    have : (1 : ℚ) ≤ 2 ^ binadeScale n.natAbs 1 := one_le_zpow₀ one_le_two (by omega)
    have : (n.natAbs : ℚ) ≤ n.natAbs / 1 * 2 ^ binadeScale n.natAbs 1 := by
      rw [div_one]; exact le_mul_of_one_le_right (by positivity) this
    linarith
  have h2 : (2 : ℚ) ^ (1 : ℤ) ≤ 2 ^ (0 - binadeScale n.natAbs 1) :=
    zpow_le_zpow_right₀ one_le_two (by omega)
  have ha1' : (2 : ℚ) ^ 52 ≤ a := by exact_mod_cast ha1
  have hs1 : |sgn (decide (n < 0))| = 1 := by cases decide (n < 0) <;> simp [sgn]
  rw [Binary64.ofInt, hval, abs_mul, hs1, one_mul, abs_of_nonneg (by positivity)]
  rw [zpow_one] at h2
  calc (2 : ℚ) ^ 53 = 2 ^ 52 * 2 := by norm_num
    _ ≤ (a : ℚ) * 2 ^ (0 - binadeScale n.natAbs 1) := by gcongr

theorem Binary64.absLt_iff (x : Binary64) (c : ℕ) : x.absLt c = true ↔ |x.val| < c := by
  rw [Binary64.abs_val, Binary64.absLt]
  split_ifs with h
  · obtain ⟨k, hk⟩ := Int.eq_ofNat_of_zero_le h
    rw [hk, Int.toNat_natCast, zpow_natCast, decide_eq_true_iff]
    exact_mod_cast Iff.rfl
  · obtain ⟨k, hk⟩ := Int.exists_eq_neg_ofNat (le_of_lt (not_le.mp h))
    rw [hk, neg_neg, Int.toNat_natCast, zpow_neg, zpow_natCast, decide_eq_true_iff,
      ← div_eq_mul_inv, div_lt_iff₀ (by positivity)]
    exact_mod_cast Iff.rfl

/-- The first test of the unit loops, made on the `int` itself, is the test on
`float(n)`. -/
theorem Binary64.ofInt_absLt (n : ℤ) {c : ℕ} (hc : c ≤ 2 ^ 53) :
    (Binary64.ofInt n).absLt c = decide (|n| < c) := by
  have hc' : (c : ℚ) ≤ 2 ^ 53 := by exact_mod_cast hc
  rw [Bool.eq_iff_iff, Binary64.absLt_iff, decide_eq_true_iff]
  by_cases h : |n| < 2 ^ 53
  · rw [Binary64.ofInt_val_of_lt h, ← Int.cast_abs]
    exact_mod_cast Iff.rfl
  · have := Binary64.ofInt_val_ge (not_lt.mp h)
    have : ¬ |n| < c := fun h' => h (lt_of_lt_of_le h' (by exact_mod_cast hc))
    simp only [this, iff_false, not_lt]
    linarith

theorem Binary64.overflows_iff (x : Binary64) : x.overflows = true ↔ 2 ^ 1024 ≤ |x.val| := by
  rw [Binary64.abs_val, Binary64.overflows, decide_eq_true_iff]
  obtain ⟨neg, mant, exp, ⟨rfl, -, rfl⟩ | ⟨h1, h2⟩⟩ := x
  · simp [bitLength, bitLen]
  simp only [bitLength_of_normal h1 h2]
  have h1' : (2 : ℚ) ^ 52 ≤ mant := by exact_mod_cast h1
  have h2' : (mant : ℚ) < 2 ^ 53 := by exact_mod_cast h2
  constructor
  · intro h
    calc (2 : ℚ) ^ 1024 = 2 ^ 52 * 2 ^ (972 : ℤ) := by
          rw [← zpow_natCast 2 1024, ← zpow_natCast 2 52, ← zpow_add₀ two_ne_zero]; norm_num
      _ ≤ (mant : ℚ) * 2 ^ exp := by gcongr; exacts [one_le_two, by omega]
  · intro h
    by_contra h'
    have : (2 : ℚ) ^ exp ≤ 2 ^ (971 : ℤ) := zpow_le_zpow_right₀ one_le_two (by omega)
    have : (mant : ℚ) * 2 ^ exp < 2 ^ 53 * 2 ^ (971 : ℤ) :=
      calc (mant : ℚ) * 2 ^ exp < 2 ^ 53 * 2 ^ exp := by gcongr
        _ ≤ 2 ^ 53 * 2 ^ (971 : ℤ) := by gcongr
    norm_num at this
    linarith

theorem Binary64.div_pow_two {x : Binary64} (hx : 0 < x.mant) (j : ℕ) :
    (x.div (2 ^ j)).val = x.val / 2 ^ j ∧ 0 < (x.div (2 ^ j)).mant := by
  have hx' : x.mant < 2 ^ 53 := by rcases x.normal with h | h <;> omega
  refine ⟨?_, Binary64.round_mant_pos hx (by positivity) _ _⟩
  have hv : (x.mant : ℚ) / (2 ^ j : ℕ) * 2 ^ x.exp = x.mant * 2 ^ (x.exp - j) := by
    rw [zpow_sub₀ two_ne_zero, zpow_natCast]; push_cast; ring
  rw [Binary64.div, Binary64.round_exact (by positivity) _ hx hx' hv, Binary64.val,
    zpow_sub₀ two_ne_zero, zpow_natCast]
  ring

theorem Binary64.mul_pow_two {x : Binary64} (hx : 0 < x.mant) (j : ℕ) :
    (x.mul (2 ^ j)).val = x.val * 2 ^ j := by
  have hx' : x.mant < 2 ^ 53 := by rcases x.normal with h | h <;> omega
  have hv : ((x.mant * 2 ^ j : ℕ) : ℚ) / (1 : ℕ) * 2 ^ x.exp = x.mant * 2 ^ (x.exp + j) := by
    rw [zpow_add₀ two_ne_zero, zpow_natCast]; push_cast; ring
  rw [Binary64.mul, Binary64.round_exact one_pos _ hx hx' hv, Binary64.val, zpow_add₀ two_ne_zero,
    zpow_natCast]
  ring

/-! ## `f"{x:3.1f}"` -/

/-- What `f"{v:3.1f}"` prints for the value `v`: its sign, then `10 * |v|`
rounded to an integer, ties to even, with the point before the last digit. -/
def OneDecimal (v : ℚ) (s : String) : Prop :=
  ∃ N, NearestEven (10 * |v|) N ∧ s = pad3 (decimalText (decide (v < 0)) N)

theorem OneDecimal.unique {v : ℚ} {s s' : String} (h : OneDecimal v s) (h' : OneDecimal v s') :
    s = s' := by
  obtain ⟨N, hN, rfl⟩ := h
  obtain ⟨N', hN', rfl⟩ := h'
  rw [hN.unique hN']

theorem Binary64.tenths_spec (x : Binary64) : NearestEven (10 * |x.val|) x.tenths := by
  rw [Binary64.abs_val, Binary64.tenths]
  split_ifs with h
  · obtain ⟨k, hk⟩ := Int.eq_ofNat_of_zero_le h
    rw [hk, Int.toNat_natCast, zpow_natCast]
    have := nearestEven_natCast (10 * x.mant * 2 ^ k)
    push_cast at this
    rwa [← mul_assoc]
  · obtain ⟨k, hk⟩ := Int.exists_eq_neg_ofNat (le_of_lt (not_le.mp h))
    rw [hk, neg_neg, Int.toNat_natCast]
    have := roundDiv_spec (10 * x.mant) (2 ^ k) (by positivity)
    push_cast at this
    rwa [zpow_neg, zpow_natCast, ← mul_assoc, ← div_eq_mul_inv]

theorem fmt31_spec (x : Binary64) : OneDecimal x.val (fmt31 x) :=
  ⟨x.tenths, x.tenths_spec, by
    rw [fmt31, show decide (x.val < 0) = x.neg from Bool.eq_iff_iff.mpr (by
      rw [decide_eq_true_iff, Binary64.val_neg_iff])]⟩

end DbtBigQuery
