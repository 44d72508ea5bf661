import Statechart.Guard.Parser
import Statechart.Proofs.Rounding

/-! How numbers compare in expressions.

    An ordering compares the binary64 numbers that are nearest to the operands, equality asks whether
    these are close. So of two numbers that are close without being the same one is less and both are
    equal; apart from that exactly one of less, equal and greater holds. Integers are never close without
    being rounded to the same number, so what holds of them is the order of the integers unless they
    cannot be told apart. -/

namespace Statechart

namespace Double

/-- In units, the least difference of two numbers that are not close: half a step of 53 binary digits
    below `2 ^ -52`. -/
def tolerance : Nat := Nat.pow 2 1022 - Nat.pow 2 (1022 - 54)

theorem close_iff {a b : Double} : a.close b = true ↔ (a.value - b.value).natAbs < tolerance := by
  unfold close tolerance
  generalize hk : 1022 = k
  rw [decide_eq_true_eq]
  exact roundUnits_lt_pow (by omega)

theorem tolerance_pos : 0 < tolerance := by decide +kernel

theorem tolerance_le_unitsPerOne : tolerance ≤ unitsPerOne := by decide +kernel

end Double

namespace Number

variable {a b : Number} {m n : Int}

/-- Whether two numbers have the same nearest binary64 number, the two zeros not told apart. -/
def Alike (a b : Number) : Prop := a.toDouble.value = b.toDouble.value

/-- Whether the nearest binary64 numbers of two numbers are close. -/
def Near (a b : Number) : Prop := (a.toDouble.value - b.toDouble.value).natAbs < Double.tolerance

theorem near_of_alike (h : a.Alike b) : a.Near b := by
  have h : a.toDouble.value = b.toDouble.value := h
  rw [Near, h, Int.sub_self]
  exact Double.tolerance_pos

theorem alike_comm : a.Alike b ↔ b.Alike a := eq_comm

theorem value_of_int? (h : a.int? = some m) : a.toDouble.value = Double.intValue m := by
  cases a with
  | whole i hlo hhi =>
    cases h
    exact Double.value_toDouble_whole hlo hhi
  | double d => cases h

/-- Integers that are close have the same nearest number. -/
theorem alike_of_near (hm : a.int? = some m) (hn : b.int? = some n) (h : a.Near b) : a.Alike b := by
  rw [Near, value_of_int? hm, value_of_int? hn] at h
  rw [Alike, value_of_int? hm, value_of_int? hn]
  have hdvd := Int.dvd_sub (Double.unitsPerOne_dvd_intValue m) (Double.unitsPerOne_dvd_intValue n)
  have hlt : (Double.intValue m - Double.intValue n).natAbs < unitsPerOne :=
    Nat.lt_of_lt_of_le h Double.tolerance_le_unitsPerOne
  have hzero := Nat.eq_zero_of_dvd_of_lt (Int.natCast_dvd.1 hdvd) hlt
  omega

/-- Of two integers with different nearest numbers these are in the order of the integers. -/
theorem value_lt_iff (hm : a.int? = some m) (hn : b.int? = some n) :
    a.toDouble.value < b.toDouble.value ↔ m < n ∧ ¬a.Alike b := by
  rw [Alike, value_of_int? hm, value_of_int? hn]
  constructor
  · intro h
    refine ⟨Int.lt_of_not_ge fun hle => ?_, Int.ne_of_lt h⟩
    have := Double.intValue_mono hle
    omega
  · rintro ⟨hlt, hne⟩
    have := Double.intValue_mono (Int.le_of_lt hlt)
    omega

/-- Different integers of at most 53 binary digits have different nearest numbers. -/
theorem alike_iff (hm : a.int? = some m) (hn : b.int? = some n) (hm' : m.natAbs ≤ 2 ^ 53)
    (hn' : n.natAbs ≤ 2 ^ 53) : a.Alike b ↔ m = n := by
  have hpos : (unitsPerOne : Int) ≠ 0 := by
    have : 0 < unitsPerOne := Nat.lt_of_lt_of_le Double.tolerance_pos Double.tolerance_le_unitsPerOne
    omega
  rw [Alike, value_of_int? hm, value_of_int? hn, Double.intValue_of_le hm', Double.intValue_of_le hn']
  exact Int.mul_eq_mul_right_iff hpos

end Number

namespace Guard

variable {a b : Number}

theorem order?_numbers : order? (.number a) (.number b) =
    some (compare a.toDouble.value b.toDouble.value) := rfl

theorem equal_numbers : equal (.number a) (.number b) = a.toDouble.close b.toDouble := rfl

theorem holds_eq : Comparison.eq.holds (.number a) (.number b) = true ↔ a.Near b := by
  rw [Comparison.holds, equal_numbers, Double.close_iff, Number.Near]

theorem holds_ne : Comparison.ne.holds (.number a) (.number b) = true ↔ ¬a.Near b := by
  rw [Comparison.holds, equal_numbers, Bool.not_eq_true', ← Bool.not_eq_true, Double.close_iff, Number.Near]

theorem holds_lt : Comparison.lt.holds (.number a) (.number b) = true ↔
    a.toDouble.value < b.toDouble.value := by
  simp [Comparison.holds, order?_numbers, Int.compare_eq_lt]

theorem holds_gt : Comparison.gt.holds (.number a) (.number b) = true ↔
    b.toDouble.value < a.toDouble.value := by
  simp [Comparison.holds, order?_numbers, Int.compare_eq_gt]

theorem holds_le : Comparison.le.holds (.number a) (.number b) = true ↔
    a.toDouble.value ≤ b.toDouble.value := by
  simp [Comparison.holds, order?_numbers, Int.compare_eq_lt]
  omega

/-- How far the comparisons of two numbers are consistent: numbers that are close without having the same
    nearest number are equal beside being ordered, and these are the only ones. -/
structure Consistent (a b : Number) (holds : Comparison → Prop) : Prop where
  total : holds .lt ∨ holds .eq ∨ holds .gt
  exclusive : ¬(holds .lt ∧ holds .gt)
  overlap : holds .eq ∧ (holds .lt ∨ holds .gt) ↔ a.Near b ∧ ¬a.Alike b
  atMost : holds .le ↔ holds .lt ∨ holds .eq ∧ ¬holds .gt
  different : holds .ne ↔ ¬holds .eq

/-- How far the comparisons of two numbers agree with the order of the integers that they are: these are
    equal when they have the same nearest number, and otherwise in the order of the integers. -/
structure Faithful (a b : Number) (m n : Int) (holds : Comparison → Prop) : Prop where
  less : holds .lt ↔ m < n ∧ ¬a.Alike b
  greater : holds .gt ↔ n < m ∧ ¬a.Alike b
  equal : holds .eq ↔ a.Alike b
  same : m = n → a.Alike b
  exact : m.natAbs ≤ 2 ^ 53 → n.natAbs ≤ 2 ^ 53 → a.Alike b → m = n

variable {holds : Comparison → Prop} {m n : Int}
  (h : ∀ op, holds op ↔ op.holds (.number a) (.number b) = true)

include h

theorem consistent_holds : Consistent a b holds := by
  have hlt := (h .lt).trans holds_lt
  have hgt := (h .gt).trans holds_gt
  have heq := (h .eq).trans holds_eq
  have hle := (h .le).trans holds_le
  have hne := (h .ne).trans holds_ne
  have halike : a.Alike b ↔ a.toDouble.value = b.toDouble.value := Iff.rfl
  have hnear : a.toDouble.value = b.toDouble.value → a.Near b := Number.near_of_alike
  refine ⟨?_, ?_, ?_, ?_, hne.trans (not_congr heq.symm)⟩
  · rw [hlt, heq, hgt]
    rcases Int.lt_trichotomy a.toDouble.value b.toDouble.value with hc | hc | hc
    · exact .inl hc
    · exact .inr (.inl (hnear hc))
    · exact .inr (.inr hc)
  · rw [hlt, hgt]
    omega
  · rw [hlt, heq, hgt, halike]
    exact and_congr_right fun _ => by omega
  · rw [hle, hlt, heq, hgt]
    constructor
    · intro hc
      rcases Int.lt_or_eq_of_le hc with hc | hc
      · exact .inl hc
      · exact .inr ⟨hnear hc, by omega⟩
    · rintro (hc | ⟨-, hc⟩) <;> omega

theorem faithful_holds (hm : a.int? = some m) (hn : b.int? = some n) : Faithful a b m n holds where
  less := ((h .lt).trans holds_lt).trans (Number.value_lt_iff hm hn)
  greater := by
    have hc := ((h .gt).trans holds_gt).trans (Number.value_lt_iff hn hm)
    rwa [Number.alike_comm] at hc
  equal := ((h .eq).trans holds_eq).trans ⟨Number.alike_of_near hm hn, Number.near_of_alike⟩
  same hmn := by
    rw [Number.Alike, Number.value_of_int? hm, Number.value_of_int? hn, hmn]
  exact hm' hn' := (Number.alike_iff hm hn hm' hn').1

omit h

/-- The comparisons of two expressions with numbers as their values are consistent but for numbers that
    are close, and on integers they are faithful but for those that have the same nearest number. -/
theorem consistent_compare {scope : Value} {l r : Expr} (hl : l.eval scope = .number a)
    (hr : r.eval scope = .number b) :
    Consistent a b (fun op => (Expr.compare op l r).holds scope = true) ∧
      ∀ m n, a.int? = some m → b.int? = some n →
        Faithful a b m n fun op => (Expr.compare op l r).holds scope = true := by
  have h (op : Comparison) : (Expr.compare op l r).holds scope = true ↔
      op.holds (.number a) (.number b) = true := by
    rw [← hl, ← hr]
    rfl
  exact ⟨consistent_holds h, fun m n hm hn => faithful_holds h hm hn⟩

/-- A bill of which a part is paid. -/
def bill : Value :=
  .object [("paid", .number (.whole 9 (by decide) (by decide))),
    ("total", .number (.whole 10 (by decide) (by decide)))]

/-- What is paid is less than the total, so it is at most the total and not equal to it. -/
theorem paid_less : (Expr.compare .lt (.path ["paid"]) (.path ["total"])).holds bill = true ∧
    (Expr.compare .le (.path ["paid"]) (.path ["total"])).holds bill = true ∧
    ¬(Expr.compare .eq (.path ["paid"]) (.path ["total"])).holds bill = true := by
  have hpaid : (Expr.path ["paid"]).eval bill = .number (.whole 9 (by decide) (by decide)) := rfl
  have htotal : (Expr.path ["total"]).eval bill = .number (.whole 10 (by decide) (by decide)) := rfl
  obtain ⟨hcons, hwhole⟩ := consistent_compare hpaid htotal
  have hfaith := hwhole 9 10 rfl rfl
  have hapart := mt (hfaith.exact (by decide) (by decide)) (by decide)
  have hless := hfaith.less.2 ⟨by decide, hapart⟩
  exact ⟨hless, hcons.atMost.2 (.inl hless), fun h => hapart (hfaith.equal.1 h)⟩

/-- Two numbers that are close. -/
def hair : Value :=
  .object [("a", .number (.whole 0 (by decide) (by decide))),
    ("b", .number (.double ((Double.ofDecimal? false 1 (-17)).get (by decide +kernel))))]

/-- Two integers with the same nearest number. -/
def giants : Value :=
  .object [("a", .number (.whole 9007199254740993 (by decide) (by decide))),
    ("b", .number (.whole 9007199254740992 (by decide) (by decide)))]

/-- Zero is less than a number that it is equal to, which then is equal to it without being at most it;
    and different integers are equal. -/
theorem equal_though_apart :
    (parse "a < b && a == b").toOption.map (Expr.holds hair) = some true ∧
    (parse "b == a && !(b <= a)").toOption.map (Expr.holds hair) = some true ∧
    (parse "a == b").toOption.map (Expr.holds giants) = some true := by
  decide +kernel

end Guard
end Statechart
