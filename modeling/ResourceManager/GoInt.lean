import Mathlib.Tactic.Common
import Mathlib.Algebra.Group.Int

/-!
Go's `int` on a 64-bit platform, as the loop counter and the step budget of
`exponentialBackoff` use it: arithmetic wraps modulo `2^64` into `[math.MinInt, math.MaxInt]`.
-/

set_option autoImplicit false
set_option warningAsError true

namespace ResourceManager

structure GoInt where
  val : Int
  min_le : -2^63 ≤ val
  lt_max : val < 2^63

namespace GoInt

def ofInt (x : Int) : GoInt :=
  ⟨(x + 2^63) % 2^64 - 2^63, by omega, by omega⟩

def zero : GoInt := ⟨0, by decide, by decide⟩

def maxInt : GoInt := ⟨2^63 - 1, by decide, by decide⟩

instance : LT GoInt := ⟨fun a b => a.val < b.val⟩

instance (a b : GoInt) : Decidable (a < b) := inferInstanceAs (Decidable (a.val < b.val))

theorem lt_iff (a b : GoInt) : a < b ↔ a.val < b.val := Iff.rfl

def inc (i : GoInt) : GoInt := ofInt (i.val + 1)

theorem ofInt_val {x : Int} (h1 : -2^63 ≤ x) (h2 : x < 2^63) : (ofInt x).val = x := by
  simp only [ofInt]; omega

theorem inc_val {i : GoInt} (h : i.val < 2^63 - 1) : (inc i).val = i.val + 1 :=
  ofInt_val (by have := i.min_le; omega) (by omega)

-- past `math.MaxInt` the counter wraps to `math.MinInt`
example : (inc maxInt).val = -2^63 := by decide

end GoInt

end ResourceManager
