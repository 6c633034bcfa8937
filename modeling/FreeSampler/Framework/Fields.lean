import Mathlib.Data.Nat.Bitwise
import Mathlib.Tactic.Ring

namespace FreeSampler.Framework

/-- A number from three fields: a top field, a middle field below `m` and a low field below `n`. -/
def joinFields (m n top mid low : Nat) : Nat := (top * m + mid) * n + low

def topField (m n a : Nat) : Nat := a / n / m
def midField (m n a : Nat) : Nat := a / n % m
def lowField (n a : Nat) : Nat := a % n

theorem joinFields_fields (m n a : Nat) :
    joinFields m n (topField m n a) (midField m n a) (lowField n a) = a := by
  rw [joinFields, topField, midField, lowField, Nat.div_add_mod', Nat.div_add_mod']

theorem joinFields_div (m n top mid low : Nat) (hlow : low < n) :
    joinFields m n top mid low / n = top * m + mid := by
  rw [joinFields, Nat.mul_comm, Nat.mul_add_div (by omega), Nat.div_eq_of_lt hlow, Nat.add_zero]

theorem topField_joinFields (m n top mid low : Nat) (hmid : mid < m) (hlow : low < n) :
    topField m n (joinFields m n top mid low) = top := by
  rw [topField, joinFields_div m n top mid low hlow, Nat.mul_comm, Nat.mul_add_div (by omega),
    Nat.div_eq_of_lt hmid, Nat.add_zero]

theorem midField_joinFields (m n top mid low : Nat) (hmid : mid < m) (hlow : low < n) :
    midField m n (joinFields m n top mid low) = mid := by
  rw [midField, joinFields_div m n top mid low hlow, Nat.mul_comm, Nat.mul_add_mod,
    Nat.mod_eq_of_lt hmid]

theorem lowField_joinFields (m n top mid low : Nat) (hlow : low < n) :
    lowField n (joinFields m n top mid low) = low := by
  rw [lowField, joinFields, Nat.mul_comm, Nat.mul_add_mod, Nat.mod_eq_of_lt hlow]

/-- The upper two fields together are the quotient. -/
theorem fields_eq_iff (m n a b : Nat) :
    (topField m n a = topField m n b ∧ midField m n a = midField m n b) ↔ a / n = b / n := by
  constructor
  · intro h
    rw [← Nat.div_add_mod' (a / n) m, ← Nat.div_add_mod' (b / n) m]
    exact congrArg₂ (fun top mid => top * m + mid) h.1 h.2
  · intro h
    simp only [topField, midField, h, and_self]

/-- On fields of bits, joining is shifting into place. -/
theorem joinFields_two_pow (k l top mid low : Nat) (hmid : mid < 2 ^ k) (hlow : low < 2 ^ l) :
    joinFields (2 ^ k) (2 ^ l) top mid low = top * 2 ^ (k + l) ||| mid * 2 ^ l ||| low := by
  have hml : mid * 2 ^ l < 2 ^ (k + l) := by
    rw [Nat.pow_add]
    exact Nat.mul_lt_mul_of_pos_right hmid (Nat.two_pow_pos l)
  have hupper := Nat.two_pow_add_eq_or_of_lt hml top
  have hall := Nat.two_pow_add_eq_or_of_lt hlow (top * 2 ^ k + mid)
  have hsplit : 2 ^ l * (top * 2 ^ k + mid) = 2 ^ (k + l) * top + mid * 2 ^ l := by
    rw [Nat.pow_add]
    ring
  rw [joinFields, Nat.mul_comm _ (2 ^ l), hall, hsplit, hupper, Nat.mul_comm top]

end FreeSampler.Framework
