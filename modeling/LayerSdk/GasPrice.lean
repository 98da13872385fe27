import LayerSdk.Admission
import Mathlib.Data.Rat.Floor
import Mathlib.Tactic.FieldSimp

/-!
# The minimum gas price

The fee floor of a validator is read from a text such as `0.001ujclaw`.
`minGasPrice_exact_iff` compares the fee it asks for with `ceil(price * gas)`
over the rationals, where `price` is the number the text spells
(`parse_decimalValue`).

The product of atomics and gas saturates in `u128`, but the rounding added to
it does not: close to the end of the range the addition overflows, which is a
panic long before the fee itself leaves the range. A floor of zero is no floor
at all, not even for the denom.
-/

namespace LayerSdk

/-! ## The source's functions -/

/-- The white space of Unicode, which `str::trim` removes. -/
def isWhitespace (c : Char) : Bool :=
  let n := c.toNat
  (0x9 ≤ n && n ≤ 0xd) || n == 0x20 || n == 0x85 || n == 0xa0 || n == 0x1680 ||
    (0x2000 ≤ n && n ≤ 0x200a) || n == 0x2028 || n == 0x2029 || n == 0x202f || n == 0x205f ||
    n == 0x3000

def trimChars (cs : List Char) : List Char :=
  ((cs.dropWhile isWhitespace).reverse.dropWhile isWhitespace).reverse

/-- `u128::from_str`, on a text without a sign. -/
def parseU128 (cs : List Char) : Option Nat :=
  if cs ≠ [] ∧ cs.all Char.isDigit ∧ Nat.ofDigitChars 10 cs 0 ≤ uint128Max then
    some (Nat.ofDigitChars 10 cs 0)
  else none

def checkedU128 (n : Nat) : Option Nat := if n ≤ uint128Max then some n else none

/-- `Decimal::from_str`, in atomics; at most 18 digits follow the dot. -/
def parseDecimal (cs : List Char) : Option Nat :=
  match cs.splitOn '.' with
  | [whole] => do
    let n ← parseU128 whole
    checkedU128 (n * decimalFractional)
  | [whole, frac] => do
    let n ← parseU128 whole
    let atomics ← checkedU128 (n * decimalFractional)
    let f ← parseU128 frac
    if 18 < frac.length then none
    else checkedU128 (atomics + f * 10 ^ (18 - frac.length))
  | _ => none

def isNumeric (c : Char) : Bool := c.isDigit || c == '.'

/-- `"<decimal><denom>"`; without a decimal the price is zero. -/
def MinGasPrice.parse (s : String) : Option MinGasPrice :=
  let cs := trimChars s.toList
  let price := cs.takeWhile isNumeric
  let denom := cs.dropWhile isNumeric
  if denom = [] then none
  else if price = [] then some ⟨0, String.ofList denom⟩
  else (parseDecimal price).map fun atomics => ⟨atomics, String.ofList denom⟩

/-! ## The number a text spells -/

/-- Digits, and after a dot tenths, hundredths and so on. -/
def decimalValue (cs : List Char) : ℚ :=
  let whole := cs.takeWhile (· ≠ '.')
  let frac := (cs.dropWhile (· ≠ '.')).drop 1
  Nat.ofDigitChars 10 whole 0 + Nat.ofDigitChars 10 frac 0 / 10 ^ frac.length

/-- The number at the start of a price text. -/
def spelledPrice (s : String) : ℚ := decimalValue ((trimChars s.toList).takeWhile isNumeric)

theorem parseU128_spec {cs : List Char} {n : Nat} (h : parseU128 cs = some n) :
    (∀ c ∈ cs, c ≠ '.') ∧ n = Nat.ofDigitChars 10 cs 0 := by
  rw [parseU128] at h
  split at h
  · rename_i hok
    refine ⟨fun c hc => ?_, (Option.some.inj h).symm⟩
    rintro rfl
    exact absurd (List.all_eq_true.mp hok.2.1 _ hc) (by decide)
  · cases h

theorem checkedU128_spec {n m : Nat} (h : checkedU128 n = some m) : m = n := by
  rw [checkedU128] at h
  split at h
  · exact (Option.some.inj h).symm
  · cases h

theorem decimalValue_whole {whole : List Char} (h : ∀ c ∈ whole, c ≠ '.') :
    decimalValue whole = Nat.ofDigitChars 10 whole 0 := by
  have htake : whole.takeWhile (· ≠ '.') = whole :=
    List.takeWhile_eq_self_iff.mpr fun c hc => decide_eq_true (h c hc)
  have hdrop : whole.dropWhile (· ≠ '.') = [] :=
    List.dropWhile_eq_nil_iff.mpr fun c hc => decide_eq_true (h c hc)
  simp only [decimalValue, htake, hdrop]
  simp

theorem decimalValue_frac {whole frac : List Char} (h : ∀ c ∈ whole, c ≠ '.') :
    decimalValue (whole ++ '.' :: frac) =
      Nat.ofDigitChars 10 whole 0 + Nat.ofDigitChars 10 frac 0 / 10 ^ frac.length := by
  have htake : (whole ++ '.' :: frac).takeWhile (· ≠ '.') = whole := by
    rw [List.takeWhile_append_of_pos fun c hc => decide_eq_true (h c hc)]
    simp
  have hdrop : (whole ++ '.' :: frac).dropWhile (· ≠ '.') = '.' :: frac := by
    rw [List.dropWhile_append_of_pos fun c hc => decide_eq_true (h c hc)]
    simp
  simp only [decimalValue, htake, hdrop, List.drop_one, List.tail_cons]

/-- The atomics are the spelled number, exactly. -/
theorem parseDecimal_value {cs : List Char} {atomics : Nat} (h : parseDecimal cs = some atomics) :
    (atomics : ℚ) / decimalFractional = decimalValue cs := by
  have hcs : ['.'].intercalate (cs.splitOn '.') = cs := List.intercalate_splitOn _
  rw [parseDecimal] at h
  split at h
  · rename_i whole hsplit
    obtain ⟨n, hn, h⟩ := Option.bind_eq_some_iff.mp h
    obtain ⟨hdots, rfl⟩ := parseU128_spec hn
    obtain rfl := checkedU128_spec h
    rw [hsplit, List.intercalate_singleton] at hcs
    rw [← hcs, decimalValue_whole hdots]
    push_cast [decimalFractional]
    field_simp
  · rename_i whole frac hsplit
    obtain ⟨n, hn, h⟩ := Option.bind_eq_some_iff.mp h
    obtain ⟨a, ha, h⟩ := Option.bind_eq_some_iff.mp h
    obtain ⟨f, hf, h⟩ := Option.bind_eq_some_iff.mp h
    split at h
    · cases h
    obtain ⟨hdots, rfl⟩ := parseU128_spec hn
    obtain ⟨-, rfl⟩ := parseU128_spec hf
    obtain rfl := checkedU128_spec ha
    obtain rfl := checkedU128_spec h
    have hjoin : ['.'].intercalate [whole, frac] = whole ++ '.' :: frac := by
      simp [List.intercalate]
    rw [hsplit, hjoin] at hcs
    rw [← hcs, decimalValue_frac hdots]
    have hpow : (10 : ℚ) ^ 18 = 10 ^ (18 - frac.length) * 10 ^ frac.length := by
      rw [← pow_add, Nat.sub_add_cancel (by omega)]
    have hone : (decimalFractional : ℚ) = 10 ^ (18 - frac.length) * 10 ^ frac.length := by
      rw [← hpow, decimalFractional]
      norm_num
    push_cast
    rw [hone]
    field_simp
  · cases h

variable {p : MinGasPrice} {gasWanted : Nat}

theorem parse_decimalValue {s : String} (h : MinGasPrice.parse s = some p) :
    (p.price : ℚ) / decimalFractional = spelledPrice s := by
  simp only [MinGasPrice.parse] at h
  split at h
  · cases h
  split at h
  · rename_i hnil
    cases h
    simp [spelledPrice, hnil, decimalValue]
  · obtain ⟨atomics, hatomics, rfl⟩ := Option.map_eq_some_iff.mp h
    exact parseDecimal_value hatomics

/-! ## The fee -/

/-- `ceil(price * gas)`. -/
def exactFee (price : ℚ) (gasWanted : Nat) : Nat := ⌈price * gasWanted⌉₊

/-- Rounding up by adding one less than the divisor. -/
theorem ceil_div_eq (a : Nat) {b : Nat} (hb : 0 < b) : ⌈(a : ℚ) / b⌉₊ = (a + (b - 1)) / b := by
  have hpos : (0 : ℚ) < b := Nat.cast_pos.mpr hb
  refine le_antisymm ?_ ?_
  · rw [Nat.ceil_le, div_le_iff₀ hpos]
    have := Nat.lt_div_mul_add (a := a + (b - 1)) hb
    exact_mod_cast (by omega : a ≤ (a + (b - 1)) / b * b)
  · have hle : (a : ℚ) ≤ ⌈(a : ℚ) / b⌉₊ * b := (div_le_iff₀ hpos).mp (Nat.le_ceil _)
    have hle' : a ≤ ⌈(a : ℚ) / b⌉₊ * b := by exact_mod_cast hle
    have : (a + (b - 1)) / b < ⌈(a : ℚ) / b⌉₊ + 1 := by
      rw [Nat.div_lt_iff_lt_mul hb, Nat.add_mul, Nat.one_mul]
      omega
    omega

theorem exactFee_eq {s : String} (h : MinGasPrice.parse s = some p) (gasWanted : Nat) :
    exactFee (spelledPrice s) gasWanted =
      (p.price * gasWanted + (decimalFractional - 1)) / decimalFractional := by
  have hvalue : spelledPrice s * gasWanted =
      ((p.price * gasWanted : Nat) : ℚ) / decimalFractional := by
    rw [← parse_decimalValue h]
    push_cast
    ring
  rw [exactFee, hvalue, ceil_div_eq _ (by decide)]

/-- The fee asked for when no addition overflows. -/
theorem requiredFee_of_fits (hfits : p.price * gasWanted + (decimalFractional - 1) ≤ uint128Max) :
    p.requiredFee gasWanted =
      some ((p.price * gasWanted + (decimalFractional - 1)) / decimalFractional) := by
  have hmin : min (p.price * gasWanted) uint128Max = p.price * gasWanted := by omega
  simp only [MinGasPrice.requiredFee, hmin, if_pos hfits]

theorem requiredFee_of_overflow
    (hover : ¬ p.price * gasWanted + (decimalFractional - 1) ≤ uint128Max) :
    p.requiredFee gasWanted = none := by
  have hover' : ¬ min (p.price * gasWanted) uint128Max + (decimalFractional - 1) ≤ uint128Max := by
    have hone : 0 < decimalFractional - 1 := by decide
    omega
  simp only [MinGasPrice.requiredFee, if_neg hover']

/-- What the check accepts. -/
theorem check_ok_iff {required : Nat} (h : p.requiredFee gasWanted = some required)
    (fee : Option Coin) : p.check fee gasWanted = some (.ok ()) ↔
      required = 0 ∨ ∃ c, fee = some c ∧ c.denom = p.denom ∧ required ≤ c.amount := by
  rw [MinGasPrice.check, h]
  cases fee with
  | none => simp
  | some c => simp [or_iff_not_imp_left]

/-- **The fee floor.** It asks for the exact fee, and is met exactly by the fees in its denom
that reach it, if the rounded product fits and there is a floor at all. -/
theorem minGasPrice_exact_iff {s : String} {p : MinGasPrice} (h : MinGasPrice.parse s = some p)
    (gasWanted : Nat) :
    (p.requiredFee gasWanted = some (min (exactFee (spelledPrice s) gasWanted) uint128Max) ∧
      ∀ fee, p.check fee gasWanted = some (.ok ()) ↔ ∃ c, fee = some c ∧ c.denom = p.denom ∧
        min (exactFee (spelledPrice s) gasWanted) uint128Max ≤ c.amount) ↔
    p.price * gasWanted + (decimalFractional - 1) ≤ uint128Max ∧ 0 < p.price * gasWanted := by
  have hfee := exactFee_eq h gasWanted
  by_cases hfits : p.price * gasWanted + (decimalFractional - 1) ≤ uint128Max
  · have hreq := requiredFee_of_fits hfits
    rw [← hfee] at hreq
    have hle : exactFee (spelledPrice s) gasWanted ≤ uint128Max := by
      rw [hfee]
      exact Nat.le_trans (Nat.div_le_self _ _) hfits
    have hzero : exactFee (spelledPrice s) gasWanted = 0 ↔ p.price * gasWanted = 0 := by
      have hone : 0 < decimalFractional := by decide
      rw [hfee, Nat.div_eq_zero_iff]
      omega
    simp only [Nat.min_eq_left hle, hreq, true_and, hfits, check_ok_iff hreq]
    constructor
    · intro hall
      -- without a floor the empty fee is accepted
      by_contra hnone
      obtain ⟨c, hc, -⟩ := (hall none).mp (.inl (hzero.mpr (by omega)))
      cases hc
    · intro hpos fee
      have hne : ¬ exactFee (spelledPrice s) gasWanted = 0 := by omega
      simp only [hne, false_or]
  · -- the overflow is a panic
    have hreq := requiredFee_of_overflow hfits
    constructor
    · rintro ⟨hsome, -⟩
      rw [hreq] at hsome
      cases hsome
    · rintro ⟨hfits', -⟩
      exact absurd hfits' hfits

deriving instance DecidableEq for MinGasPrice

/-- The default price of the node. -/
theorem minGasPrice_exact_iff_default :
    ∃ p, MinGasPrice.parse "0.001ujclaw" = some p ∧
    ((p.requiredFee 200000 = some (min (exactFee (spelledPrice "0.001ujclaw") 200000) uint128Max) ∧
      ∀ fee, p.check fee 200000 = some (.ok ()) ↔ ∃ c, fee = some c ∧ c.denom = p.denom ∧
        min (exactFee (spelledPrice "0.001ujclaw") 200000) uint128Max ≤ c.amount) ↔
    p.price * 200000 + (decimalFractional - 1) ≤ uint128Max ∧ 0 < p.price * 200000) :=
  have h : MinGasPrice.parse "0.001ujclaw" = some ⟨10 ^ 15, "ujclaw"⟩ := by decide +kernel
  ⟨_, h, minGasPrice_exact_iff h 200000⟩

/-- At a price of 20 the fee for the highest gas limit is far within `u128`, but asking for it
panics. -/
theorem minGasPrice_overflow :
    MinGasPrice.parse "20ujclaw" = some ⟨20 * 10 ^ 18, "ujclaw"⟩ ∧
      exactFee (spelledPrice "20ujclaw") u64Max = 20 * u64Max ∧ 20 * u64Max ≤ uint128Max ∧
      MinGasPrice.requiredFee ⟨20 * 10 ^ 18, "ujclaw"⟩ u64Max = none := by
  have h : MinGasPrice.parse "20ujclaw" = some ⟨20 * 10 ^ 18, "ujclaw"⟩ := by decide +kernel
  refine ⟨h, ?_, by decide, by decide +kernel⟩
  rw [exactFee_eq h]
  decide +kernel

end LayerSdk
