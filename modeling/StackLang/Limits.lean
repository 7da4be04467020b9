import StackLang.Numeral.Size
import StackLang.Text.Blank

/-!
# Limits of an evaluation

How many values the stack holds and how deep blocks may run inside blocks. Both limits are ten
thousand unless they are set otherwise; a setting that is no size is ignored.
-/

namespace StackLang

/-- The limits of one evaluation. -/
structure Limits where
  capacity : Nat
  depth : Nat
  deriving DecidableEq, Repr

namespace Limits

/-- The limits without any setting. -/
def standard : Limits :=
  ⟨10000, 10000⟩

/-- The limits with another capacity. -/
def withCapacity (limits : Limits) (capacity : Nat) : Limits :=
  { limits with capacity }

/-- The capacity that a setting gives: a size, blanks at its ends apart. -/
def settingCapacity? (setting : String) : Option Nat :=
  match Numeral.size (Text.trimChars setting.toList) with
  | .ok capacity => some capacity
  | .error _ => none

/-- The limits under a setting of the capacity, which may be missing. -/
def ofSetting (setting : Option String) : Limits :=
  match setting.bind settingCapacity? with
  | some capacity => standard.withCapacity capacity
  | none => standard

@[simp] theorem ofSetting_none : ofSetting none = standard := rfl

end Limits

end StackLang
