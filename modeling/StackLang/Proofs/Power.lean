import Mathlib
import StackLang.Proofs.Pushing
import StackLang.Proofs.Sequence

/-!
# Powers of integers are exact

A power is calculated by repeated squaring (`Integer.powerFrom?`), so products are made on the way
that are no results. Where one of them leaves the range, so does the power (`not_inRange_mul`,
`not_inRange_mul_pow`): what is still to be multiplied is positive or a further square, and the one
number whose opposite is not in range is no square. So the power of two integers is the exact one
if that is in range, and an overflow if it is not, for every exponent (`power?_eq`).
-/

namespace StackLang

namespace Integer

/-! ## 1. Products in and out of range -/

theorem toInt_mul? {a b c : Int64} (h : mul? a b = some c) : c.toInt = a.toInt * b.toInt :=
  narrow?_eq_some_iff.mp h

theorem not_inRange_of_mul?_eq_none {a b : Int64} (h : mul? a b = none) :
    ¬InRange (a.toInt * b.toInt) :=
  narrow?_eq_none_iff.mp h

theorem natAbs_le_of_inRange {n : Int} (h : InRange n) : n.natAbs ≤ 9223372036854775808 := by
  obtain ⟨hlo, hhi⟩ := h
  omega

/-- Multiplied by something positive, what is out of range stays so. -/
theorem not_inRange_mul {n k : Int} (h : ¬InRange n) (hk : 0 < k) : ¬InRange (n * k) := by
  intro hnk
  obtain ⟨hlo, hhi⟩ := hnk
  rcases Int.le_total 0 n with hn | hn
  · have hle : n * 1 ≤ n * k := Int.mul_le_mul_of_nonneg_left hk hn
    exact h ⟨by omega, by omega⟩
  · have hle : n * k ≤ n * 1 := Int.mul_le_mul_of_nonpos_left hn hk
    exact h ⟨by omega, by omega⟩

/-- A number whose square is out of range is too large for every power from the square on, whatever
it is multiplied by. -/
theorem not_inRange_mul_pow {a b : Int} {exponent : Nat} (ha : a ≠ 0) (hsquare : ¬InRange (b * b))
    (hexponent : 2 ≤ exponent) : ¬InRange (a * b ^ exponent) := by
  intro h
  have hlarge : 3037000500 ≤ b.natAbs := by
    by_contra hsmall
    have hself : b * b = (b.natAbs * b.natAbs : Nat) := by
      rw [Int.natCast_mul, Int.natAbs_mul_self']
    have hle : b.natAbs * b.natAbs ≤ 3037000499 * 3037000499 :=
      Nat.mul_le_mul (by omega) (by omega)
    exact hsquare ⟨by omega, by omega⟩
  have hle := natAbs_le_of_inRange h
  have hlt := calc
    9223372036854775808 < 3037000500 ^ 2 := by norm_num
    _ ≤ b.natAbs ^ 2 := Nat.pow_le_pow_left hlarge 2
    _ ≤ b.natAbs ^ exponent := Nat.pow_le_pow_right (by omega) hexponent
    _ ≤ a.natAbs * b.natAbs ^ exponent := Nat.le_mul_of_pos_left _ (Int.natAbs_pos.mpr ha)
    _ = (a * b ^ exponent).natAbs := by rw [Int.natAbs_mul, Int.natAbs_pow]
  omega

/-! ## 2. Repeated squaring -/

theorem mul_self_pow_of_even (b : Int) {exponent : Nat} (h : exponent % 2 = 0) :
    (b * b) ^ (exponent / 2) = b ^ exponent := by
  rw [← pow_two, ← pow_mul]
  congr 1
  omega

theorem mul_mul_self_pow_of_odd (b : Int) {exponent : Nat} (h : exponent % 2 = 1) :
    b * (b * b) ^ (exponent / 2) = b ^ exponent := by
  rw [← pow_two, ← pow_mul, ← pow_succ']
  congr 1
  omega

variable {acc base square : Int64} {exponent : Nat}

/-- Where the base has to be squared, its square has to be in range. -/
theorem powerFrom?_of_square_none (h : 2 ≤ exponent) (hsquare : mul? base base = none) :
    powerFrom? acc base exponent = none := by
  rw [powerFrom?, if_neg (by omega), if_neg (by omega), hsquare]
  dsimp only
  split
  case isTrue =>
    cases mul? acc base with
    | none => rfl
    | some next => rfl
  case isFalse => rfl

theorem powerFrom?_of_even (h : 2 ≤ exponent) (heven : exponent % 2 = 0)
    (hsquare : mul? base base = some square) :
    powerFrom? acc base exponent = powerFrom? acc square (exponent / 2) := by
  rw [powerFrom?, if_neg (by omega), if_neg (by omega), if_neg (by omega), hsquare]
  rfl

theorem powerFrom?_of_odd (h : 2 ≤ exponent) (hodd : exponent % 2 = 1)
    (hsquare : mul? base base = some square) :
    powerFrom? acc base exponent =
      (mul? acc base).bind fun next => powerFrom? next square (exponent / 2) := by
  rw [powerFrom?, if_neg (by omega), if_neg (by omega), if_pos hodd, hsquare]
  rfl

/-- **Repeated squaring gives the exact product or none.** The induction is over the exponent. Only
a base of zero makes what has been multiplied zero, so it never hides a base that is too large. -/
theorem powerFrom?_eq (exponent : Nat) (h : acc.toInt ≠ 0 ∨ base.toInt = 0) :
    powerFrom? acc base exponent = narrow? (acc.toInt * base.toInt ^ exponent) := by
  induction exponent using Nat.strongRecOn generalizing acc base with
  | ind exponent ih =>
    rcases Nat.lt_or_ge exponent 2 with hsmall | hlarge
    · obtain rfl | rfl : exponent = 0 ∨ exponent = 1 := by omega
      · rw [powerFrom?, if_pos rfl, pow_zero, mul_one, narrow?_toInt]
      · rw [powerFrom?, if_neg Nat.one_ne_zero, if_pos rfl, pow_one]
        rfl
    · have hhalf : exponent / 2 < exponent := by omega
      cases hsquare : mul? base base with
      | none =>
        have hout := not_inRange_of_mul?_eq_none hsquare
        have hacc : acc.toInt ≠ 0 := h.resolve_right fun hzero => hout (by rw [hzero]; decide)
        rw [powerFrom?_of_square_none hlarge hsquare,
          narrow?_eq_none_iff.mpr (not_inRange_mul_pow hacc hout hlarge)]
      | some square =>
        have hvalue := toInt_mul? hsquare
        rcases Nat.mod_two_eq_zero_or_one exponent with heven | hodd
        · have hnext : acc.toInt ≠ 0 ∨ square.toInt = 0 :=
            h.imp_right fun hzero => by rw [hvalue, hzero, mul_zero]
          rw [powerFrom?_of_even hlarge heven hsquare, ih _ hhalf hnext, hvalue,
            mul_self_pow_of_even _ heven]
        · rw [powerFrom?_of_odd hlarge hodd hsquare, ← mul_mul_self_pow_of_odd _ hodd, ← mul_assoc]
          cases hfactor : mul? acc base with
          | none =>
            have hout := not_inRange_of_mul?_eq_none hfactor
            have hbase : base.toInt ≠ 0 := fun hzero => hout (by rw [hzero, mul_zero]; decide)
            have hpos : 0 < (base.toInt * base.toInt) ^ (exponent / 2) :=
              pow_pos (mul_self_pos.mpr hbase) _
            rw [narrow?_eq_none_iff.mpr (not_inRange_mul hout hpos)]
            rfl
          | some next =>
            have hproduct := toInt_mul? hfactor
            have hnext : next.toInt ≠ 0 ∨ square.toInt = 0 := by
              by_cases hzero : base.toInt = 0
              · exact .inr (by rw [hvalue, hzero, mul_zero])
              · exact .inl (by rw [hproduct]; exact mul_ne_zero (h.resolve_right hzero) hzero)
            rw [Option.bind_some, ih _ hhalf hnext, hproduct, hvalue]

/-! ## 3. All exponents -/

/-- Beyond 32 bits only the bases 0, 1 and -1 have a power in range. -/
theorem not_inRange_pow {b : Int} (hb : 2 ≤ b.natAbs) (h : 64 ≤ exponent) :
    ¬InRange (b ^ exponent) := by
  intro hrange
  have hle := natAbs_le_of_inRange hrange
  have hlt := calc
    9223372036854775808 < 2 ^ 64 := by norm_num
    _ ≤ 2 ^ exponent := Nat.pow_le_pow_right (by norm_num) h
    _ ≤ b.natAbs ^ exponent := Nat.pow_le_pow_left hb exponent
    _ = (b ^ exponent).natAbs := (Int.natAbs_pow b exponent).symm
  omega

/-- **The power is the exact one, or there is none in range.** -/
theorem power?_eq (base : Int64) (exponent : Nat) :
    power? base exponent = narrow? (base.toInt ^ exponent) := by
  unfold power?
  split
  case isTrue =>
    rw [powerFrom?_eq exponent (.inl (by decide))]
    simp
  case isFalse hlarge =>
    have hpos : exponent ≠ 0 := by omega
    split
    case isTrue hbase =>
      symm
      rw [narrow?_eq_some_iff]
      rcases hbase with rfl | rfl
      · exact (zero_pow hpos).symm
      · exact (one_pow exponent).symm
    case isFalse hbase =>
      split
      case isTrue hminus =>
        symm
        rw [narrow?_eq_some_iff, hminus]
        show _ = (-1 : Int) ^ exponent
        split
        case isTrue heven => exact (Even.neg_one_pow (Nat.even_iff.mpr heven)).symm
        case isFalse hodd => exact (Odd.neg_one_pow (Nat.odd_iff.mpr (by omega))).symm
      case isFalse hminus =>
        symm
        rw [narrow?_eq_none_iff]
        have h0 : base.toInt ≠ 0 := fun h => hbase (.inl (Int64.toInt_inj.mp h))
        have h1 : base.toInt ≠ 1 := fun h => hbase (.inr (Int64.toInt_inj.mp h))
        have h2 : base.toInt ≠ -1 := fun h => hminus (Int64.toInt_inj.mp h)
        exact not_inRange_pow (by omega) (by omega)

/-- The least integer is a power, and none of the squares on the way to it is too large. -/
example : power? (-2) 63 = some Int64.minValue := by cbv

end Integer

/-! ## 4. The operator -/

theorem BinaryOperator.integerPower_eq (base exponent : Int64) :
    integerPower base exponent =
      if exponent.toInt < 0 then .error (.negativeExponent exponent)
      else if Integer.InRange (base.toInt ^ exponent.toInt.toNat) then
        .ok (.integer (Int64.ofInt (base.toInt ^ exponent.toInt.toNat)))
      else .error (.integerOverflow .exponentiation) := by
  have hsign : exponent < 0 ↔ exponent.toInt < 0 := Int64.lt_iff_toInt_lt
  rw [integerPower, Integer.power?_eq, Integer.narrow?]
  split
  case isTrue hnegative => rw [if_pos (hsign.mp hnegative)]
  case isFalse hnonneg =>
    rw [if_neg fun hnegative => hnonneg (hsign.mpr hnegative)]
    split <;> rfl

namespace Eval

/-- **The power of two integers is exact**: a negative exponent is refused; otherwise the integer
whose value is the power is pushed (`Integer.toInt_ofInt`), if there is one, and the calculation
overflows if there is none. The operands are taken in every case. -/
theorem run_power [Allocator] (limit : Nat) (base exponent : Int64) (m : Machine) :
    EStateM.run (run limit "#") (m.add [.integer base, .integer exponent]) =
      if exponent.toInt < 0 then .error (.negativeExponent exponent) m
      else if Integer.InRange (base.toInt ^ exponent.toInt.toNat) then
        EStateM.run (push (.integer (Int64.ofInt (base.toInt ^ exponent.toInt.toNat)))) m
      else .error (.integerOverflow .exponentiation) m := by
  have hsymbol : run limit "#" = applyBinary (call limit) .power :=
    run_symbol limit (.binary .power)
  have hact : BinaryOperator.act .power (.integer base) (.integer exponent) =
      (BinaryOperator.integerPower base exponent).map .result := rfl
  rw [hsymbol, run_applyBinary_add, hact, BinaryOperator.integerPower_eq]
  split
  case isTrue => rfl
  case isFalse =>
    split
    case isTrue =>
      show EStateM.run (do
        push (.integer (Int64.ofInt (base.toInt ^ exponent.toInt.toNat)))
        pure ()) m = _
      rw [bind_pure_unit]
    case isFalse => rfl

end Eval

end StackLang
