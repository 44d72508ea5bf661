import Mathlib.Tactic.Ring
import Statechart.Number.Basic

/-! Rounding to binary64 numbers.

    Around a count of units the numbers stand at a spacing that is a power of two, and rounding takes the
    nearest multiple of it. The spacing only grows at powers of two, which are multiples of the spacing
    on both sides; so rounding is monotone, stays between neighbouring powers of two and gives numbers
    again. Integers are rounded to integers, and those of at most 53 binary digits stay as they are. -/

namespace Statechart

namespace Double

variable {g k m n : Nat}

/-! ### Multiples -/

/-- The multiple of `g` nearest to a count; a tie goes to the even multiple. -/
def nearest (g n : Nat) : Nat :=
  if 2 * (n % g) < g ∨ 2 * (n % g) = g ∧ n / g % 2 = 0 then n / g * g else (n / g + 1) * g

theorem dvd_nearest (g n : Nat) : g ∣ nearest g n := by
  unfold nearest
  split <;> exact Nat.dvd_mul_left ..

theorem nearest_of_dvd (hg : 0 < g) (h : g ∣ n) : nearest g n = n := by
  rw [nearest, Nat.mod_eq_zero_of_dvd h, if_pos (.inl (by omega)), Nat.div_mul_cancel h]

theorem nearest_mono (h : m ≤ n) : nearest g m ≤ nearest g n := by
  have hdiv : m / g ≤ n / g := Nat.div_le_div_right h
  rcases Nat.eq_or_lt_of_le hdiv with heq | hlt
  · -- between the same multiples the larger count has the larger remainder
    have hm := Nat.div_add_mod m g
    have hn := Nat.div_add_mod n g
    rw [heq] at hm
    unfold nearest
    rw [heq]
    split
    · split
      · exact Nat.le_refl _
      · exact Nat.mul_le_mul_right g (Nat.le_succ _)
    · rename_i hup
      rw [if_neg (by omega)]
  · have hup : nearest g m ≤ (m / g + 1) * g := by
      unfold nearest
      split
      · exact Nat.mul_le_mul_right g (Nat.le_succ _)
      · exact Nat.le_refl _
    have hdown : n / g * g ≤ nearest g n := by
      unfold nearest
      split
      · exact Nat.le_refl _
      · exact Nat.mul_le_mul_right g (Nat.le_succ _)
    exact Nat.le_trans hup (Nat.le_trans (Nat.mul_le_mul_right g hlt) hdown)

/-- A multiple that bounds a count from above bounds what it is rounded to. -/
theorem nearest_le (hg : 0 < g) (hm : g ∣ m) (h : n ≤ m) : nearest g n ≤ m :=
  nearest_of_dvd hg hm ▸ nearest_mono h

theorem le_nearest (hg : 0 < g) (hm : g ∣ m) (h : m ≤ n) : m ≤ nearest g n :=
  nearest_of_dvd hg hm ▸ nearest_mono h

theorem nearest_mul_add {q r : Nat} (hr : r < g) : nearest g (g * q + r) =
    if 2 * r < g ∨ 2 * r = g ∧ q % 2 = 0 then g * q else g * q + g := by
  rw [nearest, Nat.mul_add_mod, Nat.mod_eq_of_lt hr, Nat.mul_add_div (by omega), Nat.div_eq_of_lt hr,
    Nat.add_zero, Nat.mul_comm q, Nat.mul_comm (q + 1), Nat.mul_succ]

/-- Counts are rounded to an even multiple from half a spacing below it on. -/
theorem nearest_lt_iff (hk : 0 < k) (hm : 2 * k * 2 ∣ m) (hpos : 0 < m) :
    nearest (2 * k) n < m ↔ n < m - k := by
  obtain ⟨q, hq⟩ : ∃ q, m = 2 * k * (2 * q + 1) + 2 * k := by
    obtain ⟨_ | q, rfl⟩ := hm
    · cases hpos
    · exact ⟨q, by ring⟩
  have hodd : (2 * q + 1) % 2 ≠ 0 := by omega
  constructor
  · intro h
    refine Nat.lt_of_not_le fun hle => ?_
    have hmono := nearest_mono (g := 2 * k) (m := 2 * k * (2 * q + 1) + k) (n := n) (by omega)
    rw [nearest_mul_add (by omega), if_neg (by omega)] at hmono
    omega
  · intro h
    have hmono := nearest_mono (g := 2 * k) (m := n) (n := 2 * k * (2 * q + 1) + (k - 1)) (by omega)
    rw [nearest_mul_add (by omega), if_pos (.inl (by omega))] at hmono
    omega

/-! ### The spacing around a count -/

/-- The distance between the numbers around a count of units. -/
def spacing (n : Nat) : Nat := 2 ^ spareBits n

theorem spacing_pos (n : Nat) : 0 < spacing n := Nat.two_pow_pos _

theorem roundUnits_one (n : Nat) : roundUnits n 1 = nearest (spacing n) n := by
  have hgrid : Nat.pow 2 (spareBits n) = spacing n := rfl
  simp only [roundUnits, nearest, Nat.div_one, Nat.one_mul, hgrid, Bool.or_eq_true, Bool.and_eq_true,
    decide_eq_true_eq, beq_iff_eq]

theorem spacing_dvd_pow (h : spareBits n ≤ k) : spacing n ∣ 2 ^ k := Nat.pow_dvd_pow 2 h

theorem roundUnits_of_dvd (h : spacing n ∣ n) : roundUnits n 1 = n := by
  rw [roundUnits_one, nearest_of_dvd (spacing_pos n) h]

@[simp] theorem roundUnits_zero : roundUnits 0 1 = 0 := roundUnits_of_dvd (Nat.dvd_zero _)

/-- What a positive count is rounded to lies between the powers of two around the count. -/
theorem roundUnits_between (hn : n ≠ 0) :
    2 ^ n.log2 ≤ roundUnits n 1 ∧ roundUnits n 1 ≤ 2 ^ (n.log2 + 1) := by
  rw [roundUnits_one]
  exact ⟨le_nearest (spacing_pos n) (spacing_dvd_pow (by unfold spareBits; omega)) (Nat.log2_self_le hn),
    nearest_le (spacing_pos n) (spacing_dvd_pow (by unfold spareBits; omega)) (Nat.le_of_lt Nat.lt_log2_self)⟩

/-- Rounding keeps the order. -/
theorem roundUnits_mono (h : m ≤ n) : roundUnits m 1 ≤ roundUnits n 1 := by
  by_cases hm : m = 0
  · rw [hm, roundUnits_zero]
    exact Nat.zero_le _
  have hn : n ≠ 0 := by omega
  have hlog : m.log2 ≤ n.log2 := (Nat.le_log2 hn).2 (Nat.le_trans (Nat.log2_self_le hm) h)
  rcases Nat.eq_or_lt_of_le hlog with heq | hlt
  · have hs : spacing m = spacing n := by rw [spacing, spacing, spareBits, spareBits, heq]
    rw [roundUnits_one, roundUnits_one, hs]
    exact nearest_mono h
  · calc roundUnits m 1 ≤ 2 ^ (m.log2 + 1) := (roundUnits_between hm).2
      _ ≤ 2 ^ n.log2 := Nat.pow_le_pow_right (by decide) hlt
      _ ≤ roundUnits n 1 := (roundUnits_between hn).1

/-- What a count is rounded to is a number, unless it is too large for one. -/
theorem representable_roundUnits (h : n.log2 < 2097) : (roundUnits n 1).log2 < 2098 ∧
    roundUnits n 1 % Nat.pow 2 (spareBits (roundUnits n 1)) = 0 := by
  by_cases hn : n = 0
  · rw [hn, roundUnits_zero]
    decide
  obtain ⟨hlo, hhi⟩ := roundUnits_between hn
  have hne : roundUnits n 1 ≠ 0 := by
    have := Nat.two_pow_pos n.log2
    omega
  rcases Nat.eq_or_lt_of_le hhi with heq | hlt
  · rw [heq, Nat.log2_two_pow]
    refine ⟨by omega, Nat.mod_eq_zero_of_dvd ?_⟩
    exact spacing_dvd_pow (by rw [spareBits, Nat.log2_two_pow]; omega)
  · have hlog : (roundUnits n 1).log2 = n.log2 := (Nat.log2_eq_iff hne).2 ⟨hlo, hlt⟩
    refine ⟨by omega, Nat.mod_eq_zero_of_dvd ?_⟩
    rw [spareBits, hlog, roundUnits_one]
    exact dvd_nearest _ _

/-- A count is rounded to less than a power of two if it lies below the middle between this and the
    number before it. -/
theorem roundUnits_lt_pow (hk : 54 ≤ k) : roundUnits n 1 < 2 ^ k ↔ n < 2 ^ k - 2 ^ (k - 54) := by
  have hsum : 2 ^ (k - 1) + 2 ^ (k - 1) = 2 ^ k := by
    rw [← Nat.two_mul, ← Nat.pow_add_one', Nat.sub_add_cancel (by omega)]
  have hhalf : 2 ^ (k - 54) ≤ 2 ^ (k - 1) := Nat.pow_le_pow_right (by decide) (by omega)
  have hpos : 0 < 2 ^ (k - 54) := Nat.two_pow_pos _
  rcases Nat.lt_trichotomy (n.log2 + 1) k with hlt | heq | hgt
  · -- below the power before it there is no way to reach it
    have hlog : 2 ^ (n.log2 + 1) ≤ 2 ^ (k - 1) := Nat.pow_le_pow_right (by decide) (by omega)
    have hn : n < 2 ^ (n.log2 + 1) := Nat.lt_log2_self
    have hround : roundUnits n 1 ≤ 2 ^ (n.log2 + 1) := by
      by_cases h : n = 0
      · simp [h]
      · exact (roundUnits_between h).2
    omega
  · have hs : spacing n = 2 * 2 ^ (k - 54) := by
      rw [spacing, spareBits, ← Nat.pow_add_one']
      congr 1
      omega
    have hdvd : 2 * 2 ^ (k - 54) * 2 ∣ 2 ^ k := by
      rw [← Nat.pow_add_one', ← Nat.pow_succ]
      exact Nat.pow_dvd_pow 2 (by omega)
    rw [roundUnits_one, hs]
    exact nearest_lt_iff hpos hdvd (Nat.two_pow_pos k)
  · have hn : n ≠ 0 := by
      rintro rfl
      rw [Nat.log2_zero] at hgt
      omega
    have hlog : 2 ^ k ≤ 2 ^ n.log2 := Nat.pow_le_pow_right (by decide) (by omega)
    have hround := (roundUnits_between hn).1
    have hself := Nat.log2_self_le hn
    omega

/-! ### Integers -/

variable {i j : Int}

theorem log2_mul_pow (hn : n ≠ 0) : (n * 2 ^ k).log2 = n.log2 + k := by
  have hpos := Nat.two_pow_pos k
  rw [Nat.log2_eq_iff (Nat.mul_ne_zero hn (Nat.ne_of_gt hpos))]
  constructor
  · rw [Nat.pow_add]
    exact Nat.mul_le_mul_right _ (Nat.log2_self_le hn)
  · rw [Nat.add_right_comm, Nat.pow_add]
    exact Nat.mul_lt_mul_of_pos_right Nat.lt_log2_self hpos

theorem spareBits_mul_pow (hn : n ≠ 0) (hk : 52 ≤ k) : spareBits (n * 2 ^ k) = n.log2 + (k - 52) := by
  rw [spareBits, log2_mul_pow hn]
  omega

theorem roundUnits_of_log2 (hk : 52 ≤ k) (h : n.log2 ≤ 52) : roundUnits (n * 2 ^ k) 1 = n * 2 ^ k := by
  by_cases hn : n = 0
  · simp [hn]
  · have hs : spacing (n * 2 ^ k) ∣ 2 ^ k := spacing_dvd_pow (by rw [spareBits_mul_pow hn hk]; omega)
    exact roundUnits_of_dvd (Nat.dvd_trans hs (Nat.dvd_mul_left ..))

/-- Multiples of a large power of two are rounded to multiples of it. -/
theorem pow_dvd_roundUnits (hk : 52 ≤ k) (n : Nat) : 2 ^ k ∣ roundUnits (n * 2 ^ k) 1 := by
  by_cases h : n.log2 ≤ 52
  · rw [roundUnits_of_log2 hk h]
    exact Nat.dvd_mul_left ..
  · have hn : n ≠ 0 := by
      rintro rfl
      exact h (by decide)
    have hs : 2 ^ k ∣ spacing (n * 2 ^ k) := by
      rw [spacing, spareBits_mul_pow hn hk]
      exact Nat.pow_dvd_pow 2 (by omega)
    rw [roundUnits_one]
    exact Nat.dvd_trans hs (dvd_nearest _ _)

/-- Multiples with at most 53 binary digits in front stay as they are, and so does the next power of
    two. -/
theorem roundUnits_of_le (hk : 52 ≤ k) (h : n ≤ 2 ^ 53) : roundUnits (n * 2 ^ k) 1 = n * 2 ^ k := by
  rcases Nat.eq_or_lt_of_le h with rfl | hlt
  · rw [← Nat.pow_add]
    refine roundUnits_of_dvd (spacing_dvd_pow ?_)
    rw [spareBits, Nat.log2_two_pow]
    omega
  · by_cases hn : n = 0
    · simp [hn]
    · exact roundUnits_of_log2 hk (Nat.le_of_lt_succ ((Nat.log2_lt hn).2 hlt))

/-- One is a power of two, whose exponent is named so that it is not computed. -/
theorem unitsPerOne_eq : ∃ k, k = 1074 ∧ unitsPerOne = 2 ^ k := by
  unfold unitsPerOne
  generalize 1074 = k
  exact ⟨k, rfl, rfl⟩

/-- Integers are rounded to integers. -/
theorem unitsPerOne_dvd_intUnits (n : Nat) : unitsPerOne ∣ intUnits n := by
  obtain ⟨k, hk, hone⟩ := unitsPerOne_eq
  rw [intUnits, hone]
  exact pow_dvd_roundUnits (by omega) n

/-- Integers up to the power of two with 53 digits behind the first are numbers. -/
theorem intUnits_of_le (h : n ≤ 2 ^ 53) : intUnits n = n * unitsPerOne := by
  obtain ⟨k, hk, hone⟩ := unitsPerOne_eq
  rw [intUnits, hone]
  exact roundUnits_of_le (by omega) h

/-- No integer of 64 bits is too large for a number. -/
theorem log2_units_lt (h : n ≤ 2 ^ 64) : (n * unitsPerOne).log2 < 2097 := by
  obtain ⟨k, hk, hone⟩ := unitsPerOne_eq
  by_cases hn : n = 0
  · rw [hn, Nat.zero_mul]
    decide
  · have hlog : n.log2 < 65 := (Nat.log2_lt hn).2 (Nat.lt_of_le_of_lt h (by decide))
    rw [hone, log2_mul_pow hn]
    omega

theorem intUnits_mono (h : m ≤ n) : intUnits m ≤ intUnits n :=
  roundUnits_mono (Nat.mul_le_mul_right _ h)

/-- The value of the number nearest to an integer. -/
def intValue (i : Int) : Int := if i < 0 then -(intUnits i.natAbs : Int) else intUnits i.natAbs

theorem intValue_mono (h : i ≤ j) : intValue i ≤ intValue j := by
  unfold intValue
  split
  · split
    · have := intUnits_mono (m := j.natAbs) (n := i.natAbs) (by omega)
      omega
    · omega
  · rw [if_neg (by omega)]
    have := intUnits_mono (m := i.natAbs) (n := j.natAbs) (by omega)
    omega

theorem unitsPerOne_dvd_intValue (i : Int) : (unitsPerOne : Int) ∣ intValue i := by
  have h : (unitsPerOne : Int) ∣ intUnits i.natAbs :=
    Int.natCast_dvd_natCast.2 (unitsPerOne_dvd_intUnits i.natAbs)
  unfold intValue
  split
  · exact (Int.dvd_neg).2 h
  · exact h

theorem intValue_of_le (h : i.natAbs ≤ 2 ^ 53) : intValue i = i * unitsPerOne := by
  rw [intValue, intUnits_of_le h, Nat.cast_mul]
  split
  · rename_i hi
    rw [← Int.neg_mul, Int.ofNat_natAbs_of_nonpos (by omega), Int.neg_neg]
  · rw [Int.natAbs_of_nonneg (by omega)]

/-- Numbers that are integers have the value of the number nearest to it. -/
theorem value_toDouble_whole (hlo : -9223372036854775808 ≤ i) (hhi : i < 18446744073709551616) :
    (Number.whole i hlo hhi).toDouble.value = intValue i := by
  have hlog := log2_units_lt (n := i.natAbs) (by omega)
  rw [Number.toDouble, ofInt?, ofRatio?, ofUnits?, dif_pos (representable_roundUnits hlog),
    Option.getD_some, value, intValue]
  simp only [decide_eq_true_eq, intUnits]

end Double
end Statechart
