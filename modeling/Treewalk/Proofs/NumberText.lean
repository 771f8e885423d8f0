import Mathlib.Algebra.Order.Field.Power
import Mathlib.Algebra.Order.Field.Rat
import Mathlib.Data.List.TakeWhile
import Mathlib.Tactic.Linarith
import Mathlib.Tactic.Positivity
import Mathlib.Tactic.Ring
import Treewalk.Decimal

namespace Treewalk.Decimal

def Expansion.value (d : Expansion) : ℚ := d.digits * 10 ^ d.exponent

namespace Magnitude

def unit (x : Magnitude) : ℚ := 2 ^ (x.exponent - 2)

def low (x : Magnitude) : ℚ := (4 * x.mantissa - x.gapBelow : ℕ) * x.unit

def high (x : Magnitude) : ℚ := (4 * x.mantissa + 2 : ℕ) * x.unit

/-- The double is nearest to `q`. Halfway between two it is the one with the even mantissa. -/
def Rounds (x : Magnitude) (q : ℚ) : Prop :=
  if x.mantissa % 2 = 0 then x.low ≤ q ∧ q ≤ x.high else x.low < q ∧ q < x.high

/-- The mantissa fits its bits, and is as large as it can be unless the exponent is the least. -/
structure Normal (x : Magnitude) : Prop where
  fits : x.mantissa < 2 ^ 53
  least : -1074 ≤ x.exponent
  full : -1074 < x.exponent → 2 ^ 52 ≤ x.mantissa

variable {x y : Magnitude}

theorem unit_pos (x : Magnitude) : 0 < x.unit := by
  unfold unit
  positivity

def Below (x y : Magnitude) : Prop :=
  x.exponent < y.exponent ∨ x.exponent = y.exponent ∧ x.mantissa < y.mantissa

/-- What `x` is nearest to lies below what `y` is nearest to. Where the two touch, one of the
mantissas is odd. -/
def Apart (x y : Magnitude) : Prop :=
  x.high ≤ y.low ∧ (x.mantissa % 2 = 0 → y.mantissa % 2 = 0 → x.high < y.low)

theorem two_unit_le (less : x.exponent < y.exponent) : 2 * x.unit ≤ y.unit := by
  have step : x.exponent - 2 + 1 ≤ y.exponent - 2 := by omega
  have grown : (2 : ℚ) ^ (x.exponent - 2 + 1) ≤ 2 ^ (y.exponent - 2) :=
    zpow_le_zpow_right₀ (by norm_num) step
  rw [zpow_add_one₀ (by norm_num)] at grown
  unfold unit
  linarith

theorem apart_of_exponent (nx : x.Normal) (ny : y.Normal) (less : x.exponent < y.exponent) :
    Apart x y := by
  have pos := x.unit_pos
  have least := nx.least
  have fits := nx.fits
  have full := ny.full (by omega)
  have above : 2 ^ 54 - 1 ≤ 4 * y.mantissa - y.gapBelow := by
    unfold gapBelow
    split <;> simp only [Nat.pow_eq] at * <;> omega
  -- The end of the last stretch in front of a larger exponent.
  have edge : ((2 ^ 55 - 2 : ℕ) : ℚ) * x.unit ≤ y.low := by
    have scaled : ((2 ^ 54 - 1 : ℕ) : ℚ) * (2 * x.unit) ≤ y.low :=
      mul_le_mul (Nat.cast_le.mpr above) (two_unit_le less) (by positivity) (by positivity)
    rw [← mul_assoc] at scaled
    norm_num at scaled ⊢
    exact scaled
  constructor
  · have below : 4 * x.mantissa + 2 ≤ 2 ^ 55 - 2 := by omega
    exact (mul_le_mul_of_nonneg_right (Nat.cast_le.mpr below) pos.le).trans edge
  · intro even _
    have below : 4 * x.mantissa + 2 < 2 ^ 55 - 2 := by omega
    exact (mul_lt_mul_of_pos_right (Nat.cast_lt.mpr below) pos).trans_le edge

theorem apart_of_mantissa (nx : x.Normal) (same : x.exponent = y.exponent)
    (less : x.mantissa < y.mantissa) : Apart x y := by
  have pos := x.unit_pos
  have gap : y.gapBelow = 2 := by
    unfold gapBelow
    refine if_neg fun narrow => ?_
    have full := nx.full (by omega)
    simp only [Nat.pow_eq] at narrow
    omega
  have units : y.unit = x.unit := by rw [unit, unit, same]
  rw [Apart, high, low, gap, units]
  constructor
  · exact mul_le_mul_of_nonneg_right (Nat.cast_le.mpr (by omega)) pos.le
  · intro evenX evenY
    exact mul_lt_mul_of_pos_right (Nat.cast_lt.mpr (by omega)) pos

theorem Below.apart (below : Below x y) (nx : x.Normal) (ny : y.Normal) : Apart x y := by
  rcases below with less | ⟨same, less⟩
  · exact apart_of_exponent nx ny less
  · exact apart_of_mantissa nx same less

theorem Rounds.between {q : ℚ} (rounds : x.Rounds q) :
    x.low ≤ q ∧ q ≤ x.high ∧ (x.mantissa % 2 ≠ 0 → x.low < q ∧ q < x.high) := by
  unfold Rounds at rounds
  split at rounds
  · next even => exact ⟨rounds.1, rounds.2, absurd even⟩
  · exact ⟨rounds.1.le, rounds.2.le, fun _ => rounds⟩

theorem Apart.not_both {q : ℚ} (apart : Apart x y) (rx : x.Rounds q) (ry : y.Rounds q) : False := by
  obtain ⟨-, below, oddX⟩ := rx.between
  obtain ⟨above, -, oddY⟩ := ry.between
  by_cases evenX : x.mantissa % 2 = 0
  · by_cases evenY : y.mantissa % 2 = 0
    · have := apart.2 evenX evenY
      linarith
    · have := (oddY evenY).1
      linarith [apart.1]
  · have := (oddX evenX).2
    linarith [apart.1]

theorem below_or_eq_or_below (x y : Magnitude) : Below x y ∨ x = y ∨ Below y x := by
  obtain ⟨m, e⟩ := x
  obtain ⟨n, f⟩ := y
  simp only [Below, mk.injEq]
  omega

theorem Rounds.unique {q : ℚ} (rx : x.Rounds q) (nx : x.Normal) (ny : y.Normal)
    (ry : y.Rounds q) : x = y := by
  rcases below_or_eq_or_below x y with below | same | below
  · exact ((below.apart nx ny).not_both rx ry).elim
  · exact same
  · exact ((below.apart ny nx).not_both ry rx).elim

theorem zpow_mul_toNat {b : ℚ} (pos : 0 < b) (z : ℤ) :
    b ^ z * b ^ (-z).toNat = b ^ z.toNat := by
  rw [← zpow_natCast, ← zpow_natCast, ← zpow_add₀ pos.ne']
  congr 1
  omega

theorem common_scale (x : Magnitude) (p : ℤ) :
    ∃ c : ℚ, 0 < c ∧ (x.quarter p : ℚ) = x.unit * c ∧ (x.step p : ℚ) = 10 ^ p * c := by
  refine ⟨2 ^ (2 - x.exponent).toNat * 10 ^ (-p).toNat, by positivity, ?_, ?_⟩
  · have two := zpow_mul_toNat (b := 2) (by norm_num) (x.exponent - 2)
    rw [neg_sub] at two
    simp only [quarter, unit, Nat.pow_eq, Nat.cast_mul, Nat.cast_pow, Nat.cast_ofNat]
    rw [← mul_assoc, two]
  · have ten := zpow_mul_toNat (b := 10) (by norm_num) p
    simp only [step, Nat.pow_eq, Nat.cast_mul, Nat.cast_pow, Nat.cast_ofNat]
    rw [← ten]
    ring

theorem readsBack_iff (x : Magnitude) (p : ℤ) (d : ℕ) :
    x.readsBack p d = true ↔ x.Rounds (Expansion.value ⟨d, p⟩) := by
  obtain ⟨c, pos, quarter, step⟩ := x.common_scale p
  have cast (a b : ℕ) : a ≤ b ↔ (a : ℚ) ≤ b := Nat.cast_le.symm
  have le (k : ℕ) : k * x.quarter p ≤ d * x.step p ↔ k * x.unit ≤ Expansion.value ⟨d, p⟩ := by
    rw [cast, Nat.cast_mul, Nat.cast_mul, quarter, step, ← mul_assoc, ← mul_assoc,
      mul_le_mul_iff_left₀ pos, Expansion.value]
  have ge (k : ℕ) : d * x.step p ≤ k * x.quarter p ↔ Expansion.value ⟨d, p⟩ ≤ k * x.unit := by
    rw [cast, Nat.cast_mul, Nat.cast_mul, quarter, step, ← mul_assoc, ← mul_assoc,
      mul_le_mul_iff_left₀ pos, Expansion.value]
  unfold readsBack Rounds
  split
  · simp only [Bool.and_eq_true, decide_eq_true_eq, le, ge]
    rfl
  · simp only [Bool.and_eq_true, decide_eq_true_eq, ← not_le, le, ge]
    rfl

theorem onGrid?_rounds {p : ℤ} {d : Expansion} (found : x.onGrid? p = some d) :
    x.Rounds d.value := by
  unfold onGrid? at found
  dsimp only at found
  split at found
  · next below above =>
    split at found
    · cases found
      exact (x.readsBack_iff p _).mp below
    · cases found
      exact (x.readsBack_iff p _).mp above
  · next below _ =>
    cases found
    exact (x.readsBack_iff p _).mp below
  · next _ above =>
    cases found
    exact (x.readsBack_iff p _).mp above
  · cases found

theorem exact_value (x : Magnitude) : x.exact.value = (4 * x.mantissa : ℕ) * x.unit := by
  have quarters : (4 * x.mantissa : ℕ) * x.unit = x.mantissa * 2 ^ x.exponent := by
    rw [unit, zpow_sub₀ (by norm_num)]
    push_cast
    ring
  rw [quarters]
  unfold exact Expansion.value
  split
  · next whole =>
    have two : (2 : ℚ) ^ x.exponent = 2 ^ x.exponent.toNat := by
      rw [← zpow_natCast, Int.toNat_of_nonneg whole]
    simp only [Nat.pow_eq, Nat.cast_mul, Nat.cast_pow, Nat.cast_ofNat, zpow_zero, mul_one, two]
  · next fractional =>
    -- Every factor of two below one is a factor of five over a power of ten.
    have five : (5 : ℚ) ^ x.exponent * 5 ^ (-x.exponent).toNat = 1 := by
      rw [zpow_mul_toNat (by norm_num), Int.toNat_of_nonpos (by omega), pow_zero]
    have ten : (10 : ℚ) ^ x.exponent = 2 ^ x.exponent * 5 ^ x.exponent := by
      rw [← mul_zpow]
      norm_num
    simp only [Nat.pow_eq, Nat.cast_mul, Nat.cast_pow, Nat.cast_ofNat, ten]
    calc (x.mantissa : ℚ) * 5 ^ (-x.exponent).toNat * (2 ^ x.exponent * 5 ^ x.exponent)
        = x.mantissa * 2 ^ x.exponent * (5 ^ x.exponent * 5 ^ (-x.exponent).toNat) := by ring
      _ = x.mantissa * 2 ^ x.exponent := by rw [five, mul_one]

theorem exact_rounds (positive : 0 < x.mantissa) : x.Rounds x.exact.value := by
  have gap : 1 ≤ x.gapBelow := by
    unfold gapBelow
    split <;> omega
  have low : x.low < x.exact.value := by
    rw [exact_value]
    exact mul_lt_mul_of_pos_right (Nat.cast_lt.mpr (by omega)) x.unit_pos
  have high : x.exact.value < x.high := by
    rw [exact_value]
    exact mul_lt_mul_of_pos_right (Nat.cast_lt.mpr (by omega)) x.unit_pos
  unfold Rounds
  split
  · exact ⟨low.le, high.le⟩
  · exact ⟨low, high⟩

theorem shortest_rounds (positive : 0 < x.mantissa) : x.Rounds x.shortest.value := by
  unfold shortest
  cases found : (List.range 17).findSome? fun (n : ℕ) => x.onGrid? (x.place - 1 - n) with
  | none => exact exact_rounds positive
  | some d =>
    obtain ⟨n, -, grid⟩ := List.exists_of_findSome?_eq_some found
    exact onGrid?_rounds grid

theorem ofBits_normal (bits : UInt64) : (ofBits bits).Normal := by
  have fraction : bits.toNat % Nat.pow 2 52 < 2 ^ 52 := Nat.mod_lt _ (by decide)
  unfold ofBits
  dsimp only
  split
  · exact ⟨fraction.trans (by norm_num), le_refl _, fun never => absurd never (lt_irrefl _)⟩
  · refine ⟨?_, ?_, ?_⟩ <;> simp only [Nat.pow_eq] at * <;> omega

/-- A double is its sign and its magnitude. -/
theorem ofBits_inj {a b : UInt64} (sign : a.toNat < Nat.pow 2 63 ↔ b.toNat < Nat.pow 2 63)
    (same : ofBits a = ofBits b) : a = b := by
  have sizeA := a.toNat_lt
  have sizeB := b.toNat_lt
  apply UInt64.toNat_inj.mp
  unfold ofBits at same
  dsimp only at same
  -- With the least exponent, the leading bit says whether the field of the exponent is 0 or 1.
  split at same <;> split at same <;> simp only [mk.injEq, Nat.pow_eq] at * <;> omega

end Magnitude

namespace Expansion

theorem trim_value (d : Expansion) : d.trim.value = d.value := by
  fun_induction trim d with
  | case1 d divides ih =>
    have tens : d.digits = d.digits / 10 * 10 := by omega
    rw [ih, value, value, zpow_add_one₀ (by norm_num)]
    nth_rewrite 2 [tens]
    push_cast
    ring
  | case2 d whole => rfl

end Expansion

def numeral (text : List Char) : ℚ :=
  ofDigits (text.filter (· != '.')) / 10 ^ (text.dropWhile (· != '.')).tail.length

inductive Written : List Char → ℚ → Prop
  | whole {digits : List Char} : digits ≠ [] → (∀ c ∈ digits, c.isDigit = true) →
    Written digits (ofDigits digits)
  | point {digits fraction : List Char} : digits ≠ [] → (∀ c ∈ digits, c.isDigit = true) →
    (∀ c ∈ fraction, c.isDigit = true) →
    Written (digits ++ '.' :: fraction) (ofDigits (digits ++ fraction) / 10 ^ fraction.length)

namespace Written

variable {text : List Char} {q : ℚ}

theorem numeral_eq (written : Written text q) : numeral text = q := by
  have kept {digits : List Char} (all : ∀ c ∈ digits, c.isDigit = true) :
      ∀ c ∈ digits, (c != '.') = true := by
    intro c member
    refine bne_iff_ne.mpr ?_
    rintro rfl
    exact absurd (all '.' member) (by decide)
  cases written with
  | whole _ all =>
    rw [numeral, List.filter_eq_self.mpr (kept all), List.dropWhile_eq_nil_iff.mpr (kept all)]
    simp
  | point _ all more =>
    rw [numeral, List.filter_append, List.filter_cons_of_neg (by decide),
      List.filter_eq_self.mpr (kept all), List.filter_eq_self.mpr (kept more),
      List.dropWhile_append_of_pos (kept all), List.dropWhile_cons_of_neg (by decide),
      List.tail_cons]

theorem chars (written : Written text q) : ∀ c ∈ text, c.isDigit = true ∨ c = '.' := by
  intro c member
  cases written with
  | whole _ all => exact .inl (all c member)
  | point _ all more =>
    rcases List.mem_append.mp member with member | member
    · exact .inl (all c member)
    · rcases List.mem_cons.mp member with point | member
      · exact .inr point
      · exact .inl (more c member)

theorem head (written : Written text q) : ∃ c cs, text = c :: cs ∧ c.isDigit = true := by
  cases written with
  | whole nonempty all | point nonempty all _ =>
    obtain ⟨c, cs, rfl⟩ := List.exists_cons_of_ne_nil nonempty
    exact ⟨c, _, rfl, all c List.mem_cons_self⟩

end Written

theorem ofDigits_eq (digits : List Char) : ofDigits digits = Nat.ofDigitChars 10 digits 0 := by
  rw [Nat.ofDigitChars_eq_foldl]
  rfl

theorem ofDigits_toDigits (n : ℕ) : ofDigits (Nat.toDigits 10 n) = n := by
  rw [ofDigits_eq, Nat.ofDigitChars_ten_toDigits]

theorem ofDigits_append_zeros (digits : List Char) (n : ℕ) :
    ofDigits (digits ++ List.replicate n '0') = 10 ^ n * ofDigits digits := by
  rw [ofDigits_eq, ofDigits_eq, Nat.ofDigitChars_append, Nat.ofDigitChars_replicate_zero]

theorem ofDigits_zeros_append (digits : List Char) (n : ℕ) :
    ofDigits (List.replicate n '0' ++ digits) = ofDigits digits := by
  rw [ofDigits_eq, ofDigits_eq, Nat.ofDigitChars_append, Nat.ofDigitChars_replicate_zero,
    Nat.mul_zero]

namespace Expansion

variable {d : Expansion}

theorem value_whole (whole : 0 ≤ d.exponent) :
    d.value = (10 ^ d.exponent.toNat * d.digits : ℕ) := by
  have ten : (10 : ℚ) ^ d.exponent = 10 ^ d.exponent.toNat := by
    rw [← zpow_natCast, Int.toNat_of_nonneg whole]
  rw [value, ten]
  push_cast
  ring

theorem value_fractional (fractional : d.exponent < 0) :
    d.value = d.digits / 10 ^ (-d.exponent).toNat := by
  have ten := Magnitude.zpow_mul_toNat (b := 10) (by norm_num) d.exponent
  rw [Int.toNat_of_nonpos fractional.le, pow_zero] at ten
  rw [value, eq_div_iff (by positivity), mul_assoc, ten, mul_one]

theorem text_written (d : Expansion) : Written d.text d.value := by
  have nonempty : Nat.toDigits 10 d.digits ≠ [] := Nat.toDigits_ne_nil
  have all : ∀ c ∈ Nat.toDigits 10 d.digits, c.isDigit = true := fun c member =>
    Nat.isDigit_of_mem_toDigits (by decide) (by decide) member
  have value := ofDigits_toDigits d.digits
  have zeros (n : ℕ) : ∀ c ∈ List.replicate n '0', c.isDigit = true := fun c member =>
    List.eq_of_mem_replicate member ▸ rfl
  unfold text
  generalize Nat.toDigits 10 d.digits = digits at nonempty all value
  dsimp only
  split
  · next whole =>
    rw [value_whole whole, ← value, ← ofDigits_append_zeros]
    exact .whole (List.append_ne_nil_of_left_ne_nil nonempty _)
      (List.forall_mem_append.mpr ⟨all, zeros _⟩)
  · next fractional =>
    rw [value_fractional (not_le.mp fractional)]
    generalize (-d.exponent).toNat = places
    split
    · next inner =>
      have front : digits.take (digits.length - places) ≠ [] := by
        rw [Ne, List.take_eq_nil_iff, not_or]
        exact ⟨by omega, nonempty⟩
      have back : (digits.drop (digits.length - places)).length = places := by
        rw [List.length_drop]
        omega
      have written := Written.point front (fun c member => all c (List.mem_of_mem_take member))
        fun c member => all c (List.mem_of_mem_drop (i := digits.length - places) member)
      rwa [List.take_append_drop, back, value] at written
    · next outer =>
      have back : (List.replicate (places - digits.length) '0' ++ digits).length = places := by
        rw [List.length_append, List.length_replicate]
        omega
      have written := Written.point (List.cons_ne_nil '0' []) (zeros 1)
        (List.forall_mem_append.mpr ⟨zeros (places - digits.length), all⟩)
      have padded := ofDigits_zeros_append digits (places - digits.length + 1)
      rw [List.replicate_succ, List.cons_append, value] at padded
      rw [back, List.singleton_append, List.singleton_append, padded] at written
      exact written

end Expansion

def Magnitude.text (x : Magnitude) : List Char :=
  if x.mantissa = 0 then ['0'] else x.shortest.trim.text

/-- The digits of a double name a number that it is nearest to. -/
theorem Magnitude.text_written (x : Magnitude) : ∃ q, Written x.text q ∧ x.Rounds q := by
  unfold Magnitude.text
  split
  · next zero =>
    have digit : ∀ c ∈ ['0'], c.isDigit = true := fun c member =>
      List.mem_singleton.mp member ▸ rfl
    have nothing : ofDigits ['0'] = 0 := rfl
    have pos := x.unit_pos
    refine ⟨_, .whole (List.cons_ne_nil '0' []) digit, ?_⟩
    rw [nothing, Rounds, low, high, zero]
    simp only [Nat.zero_mod, if_true, Nat.mul_zero, Nat.zero_sub, Nat.cast_zero, zero_mul]
    exact ⟨le_refl _, by positivity⟩
  · next nonzero =>
    refine ⟨_, Expansion.text_written _, ?_⟩
    rw [Expansion.trim_value]
    exact shortest_rounds (Nat.pos_of_ne_zero nonzero)

theorem text_finite {x : Float} (finite : x.isFinite = true) :
    text x = String.ofList ((if x.toBits.toNat < Nat.pow 2 63 then [] else ['-']) ++
      (Magnitude.ofBits x.toBits).text) := by
  have number : x.isNaN = false ∧ x.isInf = false := by
    unfold Float.isFinite Float.Model.isFinite at finite
    unfold Float.isNaN Float.Model.isNaN Float.isInf Float.Model.isInf
    cases unpacked : x.toModel.unpack <;> rw [unpacked] at finite <;>
      first | exact ⟨rfl, rfl⟩ | cases finite
  simp only [text, number, Magnitude.text]
  rfl

theorem text_form {x : Float} (finite : x.isFinite = true) :
    (∀ c ∈ (text x).toList, c.isDigit = true ∨ c = '.' ∨ c = '-') ∧
    ∃ c cs, (text x).toList = c :: cs ∧ (c.isDigit = true ∨ c = '-') := by
  obtain ⟨q, written, -⟩ := (Magnitude.ofBits x.toBits).text_written
  obtain ⟨c, cs, head, digit⟩ := written.head
  rw [text_finite finite, String.toList_ofList]
  split
  · exact ⟨fun c member => (written.chars c member).imp_right .inl, c, cs, head, .inl digit⟩
  · refine ⟨fun c member => ?_, '-', _, rfl, .inr rfl⟩
    rcases List.mem_cons.mp member with sign | member
    · exact .inr (.inr sign)
    · exact (written.chars c member).imp_right .inl

theorem text_injective {x y : Float} (finiteX : x.isFinite = true) (finiteY : y.isFinite = true)
    (same : text x = text y) : x = y := by
  rw [text_finite finiteX, text_finite finiteY, String.ofList_inj] at same
  obtain ⟨q, writtenX, roundsX⟩ := (Magnitude.ofBits x.toBits).text_written
  obtain ⟨r, writtenY, roundsY⟩ := (Magnitude.ofBits y.toBits).text_written
  have unsigned {text rest : List Char} {q : ℚ} (written : Written text q) : text ≠ '-' :: rest := by
    obtain ⟨c, cs, head, digit⟩ := written.head
    rw [head]
    rintro ⟨⟩
    exact absurd digit (by decide)
  have parts : (x.toBits.toNat < Nat.pow 2 63 ↔ y.toBits.toNat < Nat.pow 2 63) ∧
      (Magnitude.ofBits x.toBits).text = (Magnitude.ofBits y.toBits).text := by
    split at same <;> split at same
    · next signX signY => exact ⟨iff_of_true signX signY, same⟩
    · exact absurd same (unsigned writtenX)
    · exact absurd same.symm (unsigned writtenY)
    · next signX signY => exact ⟨iff_of_false signX signY, (List.cons.inj same).2⟩
  obtain ⟨sign, digits⟩ := parts
  have value : r = q := by rw [← writtenY.numeral_eq, ← writtenX.numeral_eq, digits]
  rw [value] at roundsY
  have bits := Magnitude.ofBits_inj sign (roundsX.unique (Magnitude.ofBits_normal _)
    (Magnitude.ofBits_normal _) roundsY)
  obtain ⟨⟨a, _⟩⟩ := x
  obtain ⟨⟨b, _⟩⟩ := y
  change a = b at bits
  cases bits
  rfl

end Treewalk.Decimal
