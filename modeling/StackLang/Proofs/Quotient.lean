import Mathlib
import StackLang.Proofs.Pushing
import StackLang.Proofs.Sequence

/-!
# Quotient and remainder of integers

Integers are divided toward zero: the quotient is the exact one without its fraction, and the
remainder has the sign of what is divided (`Integer.TruncatedDivision`). Of all pairs only those with
a zero divisor have no quotient, and of the others only the least integer and -1 have one that is
no machine integer (`Integer.inRange_tdiv_iff`). The remainder of that pair would be zero; it is
refused all the same, so the two operators succeed on the same pairs and give results that belong
together (`Eval.run_quotient_remainder`).
-/

namespace StackLang

namespace Integer

/-! ## 1. Division toward zero -/

/-- A number without its fraction. -/
def towardZero (r : ℚ) : ℤ :=
  if 0 ≤ r then ⌊r⌋ else ⌈r⌉

/-- A quotient with its remainder.

* `exact`: nothing is lost;
* `lt`: the remainder is smaller than the divisor;
* `sign`: it has the sign of what is divided, if it has one;
* `rounded`: the quotient is the exact one, rounded toward zero. -/
structure TruncatedDivision (dividend divisor quotient remainder : ℤ) : Prop where
  exact : quotient * divisor + remainder = dividend
  lt : |remainder| < |divisor|
  sign : remainder = 0 ∨ remainder.sign = dividend.sign
  rounded : quotient = towardZero ((dividend : ℚ) / divisor)

theorem towardZero_of_nonneg {r : ℚ} (h : 0 ≤ r) : towardZero r = ⌊r⌋ :=
  if_pos h

theorem towardZero_neg (r : ℚ) : towardZero (-r) = -towardZero r := by
  unfold towardZero
  rcases lt_trichotomy r 0 with hneg | rfl | hpos
  · rw [if_pos (by linarith), if_neg (by linarith), Int.floor_neg]
  · simp
  · rw [if_neg (by linarith), if_pos hpos.le, Int.ceil_neg]

/-- The quotient of the absolute values is rounded down, and the signs are put in front. -/
theorem tdiv_eq_towardZero (a b : ℤ) : a.tdiv b = towardZero (a / b) := by
  have habs : ∀ m n : ℕ, (m : ℤ).tdiv n = towardZero (m / n) := fun m n => by
    rw [towardZero_of_nonneg (by positivity), ← Int.ofNat_tdiv]
    exact (Rat.floor_natCast_div_natCast m n).symm
  obtain ⟨m, rfl | rfl⟩ := a.eq_nat_or_neg <;> obtain ⟨n, rfl | rfl⟩ := b.eq_nat_or_neg
  · exact habs m n
  · rw [Int.tdiv_neg, habs, Int.cast_neg, div_neg, towardZero_neg]
    rfl
  · rw [Int.neg_tdiv, habs, Int.cast_neg, neg_div, towardZero_neg]
    rfl
  · rw [Int.neg_tdiv, Int.tdiv_neg, neg_neg, habs, Int.cast_neg, Int.cast_neg, neg_div_neg_eq]
    rfl

theorem truncatedDivision_tdiv (a : ℤ) {b : ℤ} (hb : b ≠ 0) :
    TruncatedDivision a b (a.tdiv b) (a.tmod b) where
  exact := by rw [mul_comm]; exact Int.mul_tdiv_add_tmod a b
  lt := by
    rw [Int.abs_eq_natAbs, Int.abs_eq_natAbs, Int.natAbs_tmod]
    exact_mod_cast Nat.mod_lt _ (Int.natAbs_pos.mpr hb)
  sign := by
    rcases em (b ∣ a) with hdvd | hdvd
    · exact .inl (Int.tmod_eq_zero_of_dvd hdvd)
    · exact .inr (by rw [Int.sign_tmod, if_neg hdvd])
  rounded := tdiv_eq_towardZero a b

/-! ## 2. Results in range -/

/-- Division makes nothing larger, so all that can be too much about a quotient is its sign. -/
theorem inRange_tdiv_iff {a b : ℤ} (ha : InRange a) (hb : b ≠ 0) :
    InRange (a.tdiv b) ↔ ¬(a = -9223372036854775808 ∧ b = -1) := by
  obtain ⟨hlo, hhi⟩ := ha
  unfold InRange
  obtain rfl | rfl | hlarge : b = 1 ∨ b = -1 ∨ 2 ≤ b.natAbs := by omega
  · rw [Int.tdiv_one]
    omega
  · rw [Int.tdiv_neg, Int.tdiv_one]
    omega
  · have hhalf : (a.tdiv b).natAbs ≤ a.natAbs / 2 := by
      rw [Int.natAbs_tdiv]
      exact Nat.div_le_div_left hlarge (by decide)
    omega

theorem inRange_tmod (a : ℤ) {b : ℤ} (hb : InRange b) (hb0 : b ≠ 0) : InRange (a.tmod b) := by
  have habs : (a.tmod b).natAbs < b.natAbs := by
    rw [Int.natAbs_tmod]
    exact Nat.mod_lt _ (Int.natAbs_pos.mpr hb0)
  obtain ⟨hlo, hhi⟩ := hb
  exact ⟨by omega, by omega⟩

variable {a b : Int64}

/-- The one pair without a quotient in range. -/
theorem quotient?_minValue : quotient? Int64.minValue (-1) = none := by decide

/-- Its remainder would be zero. -/
theorem remainder?_minValue : remainder? Int64.minValue (-1) = none := by decide

/-- Every other pair has both results, unless the divisor is zero. -/
theorem exists_quotient? (hb : b ≠ 0) (h : ¬(a = Int64.minValue ∧ b = -1)) :
    ∃ q r, quotient? a b = some q ∧ remainder? a b = some r ∧
      TruncatedDivision a.toInt b.toInt q.toInt r.toInt := by
  have hb' : b.toInt ≠ 0 := fun hzero => hb (Int64.toInt_inj.mp hzero)
  have h' : ¬(a.toInt = -9223372036854775808 ∧ b.toInt = -1) := fun ⟨ha, hb⟩ =>
    h ⟨Int64.toInt_inj.mp ha, Int64.toInt_inj.mp hb⟩
  have hq := (inRange_tdiv_iff (inRange_toInt a) hb').mpr h'
  have hr := inRange_tmod a.toInt (inRange_toInt b) hb'
  have hquotient : quotient? a b = some (Int64.ofInt (a.toInt.tdiv b.toInt)) := if_pos hq
  have hremainder : remainder? a b = some (Int64.ofInt (a.toInt.tmod b.toInt)) := by
    rw [remainder?, hquotient]
    exact if_pos hr
  refine ⟨_, _, hquotient, hremainder, ?_⟩
  rw [toInt_ofInt hq, toInt_ofInt hr]
  exact truncatedDivision_tdiv a.toInt hb'

end Integer

/-! ## 3. The operators -/

namespace BinaryOperator

theorem act_divide_integers [Allocator] (y x : Int64) : act .divide (.integer y) (.integer x) =
    (if x = 0 then .error .divideByZero else checked .division (Integer.quotient? y x)).map
      .result := rfl

theorem act_modulo_integers [Allocator] (y x : Int64) : act .modulo (.integer y) (.integer x) =
    (if x = 0 then .error .divideByZero else checked .remainder (Integer.remainder? y x)).map
      .result := rfl

end BinaryOperator

namespace Eval

/-- **Quotient and remainder of two integers belong together.** A divisor of zero is refused by both
operators; the least integer and -1 are an overflow for both; all other pairs give both results, and
these are the quotient rounded toward zero and its remainder. The operands are gone in every case. -/
theorem run_quotient_remainder [Allocator] (limit : Nat) (y x : Int64) {m : Machine}
    (hfits : (m.add [.integer y, .integer x]).stack.Fits) :
    if x = 0 then
      EStateM.run (run limit "/") (m.add [.integer y, .integer x]) = .error .divideByZero m ∧
      EStateM.run (run limit "%") (m.add [.integer y, .integer x]) = .error .divideByZero m
    else if y = Int64.minValue ∧ x = -1 then
      EStateM.run (run limit "/") (m.add [.integer y, .integer x]) =
        .error (.integerOverflow .division) m ∧
      EStateM.run (run limit "%") (m.add [.integer y, .integer x]) =
        .error (.integerOverflow .remainder) m
    else ∃ q r : Int64,
      EStateM.run (run limit "/") (m.add [.integer y, .integer x]) = .ok () (m.add [.integer q]) ∧
      EStateM.run (run limit "%") (m.add [.integer y, .integer x]) = .ok () (m.add [.integer r]) ∧
      Integer.TruncatedDivision y.toInt x.toInt q.toInt r.toInt := by
  have hroom : m.stack.size < m.stack.capacity := hfits.lt_of_add
  have hdivide : run limit "/" = applyBinary (call limit) .divide :=
    run_symbol limit (.binary .divide)
  have hmodulo : run limit "%" = applyBinary (call limit) .modulo :=
    run_symbol limit (.binary .modulo)
  have hquotient := BinaryOperator.act_divide_integers y x
  have hremainder := BinaryOperator.act_modulo_integers y x
  rw [hdivide, hmodulo]
  split
  case isTrue hzero =>
    rw [if_pos hzero] at hquotient hremainder
    exact ⟨run_applyBinary_of_error _ hquotient, run_applyBinary_of_error _ hremainder⟩
  case isFalse hzero =>
    rw [if_neg hzero] at hquotient hremainder
    split
    case isTrue hleast =>
      obtain ⟨rfl, rfl⟩ := hleast
      rw [Integer.quotient?_minValue] at hquotient
      rw [Integer.remainder?_minValue] at hremainder
      exact ⟨run_applyBinary_of_error _ hquotient, run_applyBinary_of_error _ hremainder⟩
    case isFalse hleast =>
      obtain ⟨q, r, hq, hr, hdivision⟩ := Integer.exists_quotient? hzero hleast
      rw [hq] at hquotient
      rw [hr] at hremainder
      exact ⟨q, r, run_applyBinary_of_result _ hroom hquotient,
        run_applyBinary_of_result _ hroom hremainder, hdivision⟩

/-- A negative number divided on a stack that becomes full, and the pair that overflows. -/
theorem run_quotient_remainder_negative :
    ((⟨#[.integer (-7), .integer 2], 2⟩ : Stack).Fits ∧ ∃ q r : Int64,
      EStateM.run (run 0 "/") ⟨⟨#[.integer (-7), .integer 2], 2⟩, .initial, [], .empty, 0⟩ =
        .ok () ⟨⟨#[.integer q], 2⟩, .initial, [], .empty, 0⟩ ∧
      EStateM.run (run 0 "%") ⟨⟨#[.integer (-7), .integer 2], 2⟩, .initial, [], .empty, 0⟩ =
        .ok () ⟨⟨#[.integer r], 2⟩, .initial, [], .empty, 0⟩ ∧
      Integer.TruncatedDivision (-7) 2 q.toInt r.toInt) ∧
    ((⟨#[.integer Int64.minValue, .integer (-1)], 2⟩ : Stack).Fits ∧
      EStateM.run (run 0 "/")
          ⟨⟨#[.integer Int64.minValue, .integer (-1)], 2⟩, .initial, [], .empty, 0⟩ =
        .error (.integerOverflow .division) ⟨⟨#[], 2⟩, .initial, [], .empty, 0⟩ ∧
      EStateM.run (run 0 "%")
          ⟨⟨#[.integer Int64.minValue, .integer (-1)], 2⟩, .initial, [], .empty, 0⟩ =
        .error (.integerOverflow .remainder) ⟨⟨#[], 2⟩, .initial, [], .empty, 0⟩) := by
  have hnegative : (⟨#[.integer (-7), .integer 2], 2⟩ : Stack).Fits := Nat.le_refl 2
  have hleast : (⟨#[.integer Int64.minValue, .integer (-1)], 2⟩ : Stack).Fits := Nat.le_refl 2
  refine ⟨⟨hnegative, ?_⟩, hleast, ?_⟩
  · exact run_quotient_remainder 0 (-7) 2 (m := ⟨⟨#[], 2⟩, .initial, [], .empty, 0⟩) hnegative
  · exact run_quotient_remainder 0 Int64.minValue (-1) (m := ⟨⟨#[], 2⟩, .initial, [], .empty, 0⟩)
      hleast

end Eval

end StackLang
