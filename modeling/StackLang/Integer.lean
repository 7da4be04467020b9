/-!
# Signed 64-bit integers with checked arithmetic

A result is computed in the unbounded integers and then narrowed: it is the exact result, or there
is none (`narrow?_eq_some_iff`). Nothing wraps.

* `narrow?`: the machine integer of an exact value, if it has one;
* `add?`, `sub?`, `mul?`: exact sum, difference and product;
* `quotient?`, `remainder?`: division toward zero, without the one quotient that is too large;
* `power?`: exact power, by repeated squaring, so that no huge number is built.
-/

namespace StackLang.Integer

/-! ## 1. Narrowing -/

/-- The values of signed 64-bit integers. -/
def InRange (n : Int) : Prop :=
  -9223372036854775808 ≤ n ∧ n ≤ 9223372036854775807

instance (n : Int) : Decidable (InRange n) :=
  inferInstanceAs (Decidable (_ ∧ _))

/-- The value of a machine integer lies in the range. -/
theorem inRange_toInt (a : Int64) : InRange a.toInt := by
  have hlo := Int64.le_toInt a
  have hhi := Int64.toInt_lt a
  exact ⟨by omega, by omega⟩

/-- Every number of the range is the value of its machine integer. -/
theorem toInt_ofInt {n : Int} (h : InRange n) : (Int64.ofInt n).toInt = n := by
  obtain ⟨hlo, hhi⟩ := h
  exact Int64.toInt_ofInt_of_le (by omega) (by omega)

/-- The signed 64-bit integer of value `n`, if `n` lies in that range. -/
def narrow? (n : Int) : Option Int64 :=
  if InRange n then some (Int64.ofInt n) else none

/-- Narrowing succeeds exactly on the values of machine integers, and keeps the value. -/
theorem narrow?_eq_some_iff {n : Int} {a : Int64} : narrow? n = some a ↔ a.toInt = n := by
  unfold narrow?
  split
  case isTrue h =>
    rw [Option.some.injEq]
    constructor
    · rintro rfl
      exact toInt_ofInt h
    · rintro rfl
      exact Int64.ofInt_toInt a
  case isFalse h =>
    constructor
    · intro hn
      exact absurd hn (by simp)
    · rintro rfl
      exact absurd (inRange_toInt a) h

/-- Narrowing fails exactly outside the range. -/
theorem narrow?_eq_none_iff {n : Int} : narrow? n = none ↔ ¬InRange n := by
  unfold narrow?
  split <;> simp_all

@[simp] theorem narrow?_toInt (a : Int64) : narrow? a.toInt = some a :=
  narrow?_eq_some_iff.2 rfl

/-! ## 2. Sum, difference, product -/

/-- The exact sum. -/
def add? (a b : Int64) : Option Int64 := narrow? (a.toInt + b.toInt)

/-- The exact difference. -/
def sub? (a b : Int64) : Option Int64 := narrow? (a.toInt - b.toInt)

/-- The exact product. -/
def mul? (a b : Int64) : Option Int64 := narrow? (a.toInt * b.toInt)

/-! ## 3. Division toward zero -/

/-- The quotient rounded toward zero. -/
def quotient? (a b : Int64) : Option Int64 := narrow? (a.toInt.tdiv b.toInt)

/-- The remainder that belongs to `quotient?`, with the sign of `a`; there is none where there is
no quotient. -/
def remainder? (a b : Int64) : Option Int64 :=
  match quotient? a b with
  | some _ => narrow? (a.toInt.tmod b.toInt)
  | none => none

/-! ## 4. Power -/

/-- `acc` times a power of `base`, by repeated squaring. Every product on the way has to stay in
range; behind the last factor the base is not squared once more, since no result needs that
square. -/
def powerFrom? (acc base : Int64) (exponent : Nat) : Option Int64 :=
  if exponent = 0 then
    some acc
  else if exponent = 1 then
    mul? acc base
  else do
    let acc ← if exponent % 2 = 1 then mul? acc base else some acc
    let square ← mul? base base
    powerFrom? acc square (exponent / 2)
termination_by exponent
decreasing_by omega

/-- The power. An exponent of more than 32 bits is not gone through: only the bases 0, 1 and -1 stay
in range there, and of those the power depends on the parity of the exponent alone. -/
def power? (base : Int64) (exponent : Nat) : Option Int64 :=
  if exponent < 4294967296 then
    powerFrom? 1 base exponent
  else if base = 0 ∨ base = 1 then
    some base
  else if base = -1 then
    some (if exponent % 2 = 0 then 1 else -1)
  else
    none

end StackLang.Integer
