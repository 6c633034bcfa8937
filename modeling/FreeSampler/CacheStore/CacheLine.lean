import FreeSampler.Framework.Memory
import Mathlib.Tactic.Ring

namespace FreeSampler

open Framework

/-- The halving loop of `logbase2`; a 32-bit argument is at most 1 after 31 rounds. -/
def logbase2Loop : Nat → UInt32 → UInt32 → UInt32
  | 0, _, retVal => retVal
  | n + 1, num, retVal => if 1 < num then logbase2Loop n (num >>> 1) (retVal + 1) else retVal

def logbase2 (num : UInt32) : Except Fault UInt32 :=
  if num = 0 then .error (.exception "logbase2: Cannot take log of 0.")
  else if num = 1 then .ok 0
  else .ok (logbase2Loop 32 num 0)

theorem logbase2Loop_toNat (n : Nat) (num retVal : UInt32) (h0 : 0 < num.toNat)
    (hn : num.toNat < 2 ^ n) (hr : retVal.toNat + n < 2 ^ 32) :
    (logbase2Loop n num retVal).toNat = retVal.toNat + Nat.log2 num.toNat := by
  induction n generalizing num retVal with
  | zero => omega
  | succ n ih =>
    rw [logbase2Loop]
    split_ifs with h1
    · have h2 : 2 ≤ num.toNat := Nat.succ_le_of_lt (by simpa [UInt32.lt_iff_toNat_lt] using h1)
      have hs : (num >>> 1).toNat = num.toNat / 2 := by simp [Nat.shiftRight_eq_div_pow]
      have hi : (retVal + 1).toNat = retVal.toNat + 1 := by
        simp only [UInt32.toNat_add, UInt32.reduceToNat]
        omega
      have hl : Nat.log2 num.toNat = Nat.log2 (num.toNat / 2) + 1 := by
        rw [Nat.log2_def, if_pos h2]
      rw [ih (num >>> 1) (retVal + 1) (by omega) (by rw [hs]; omega) (by omega), hi, hs, hl]
      ring
    · have h2 : num.toNat = 1 := by
        have := UInt32.not_lt.mp h1
        simp only [UInt32.le_iff_toNat_le, UInt32.reduceToNat] at this
        omega
      simp [h2, Nat.log2_def]

/-- `logbase2` is the floor of the binary logarithm on every argument but 0. -/
theorem logbase2_ok (num : UInt32) (h : num ≠ 0) :
    ∃ r, logbase2 num = .ok r ∧ r.toNat = Nat.log2 num.toNat := by
  have h0 : 0 < num.toNat := by
    rw [Nat.pos_iff_ne_zero]
    exact fun hz => h (UInt32.toNat_inj.mp hz)
  unfold logbase2
  rw [if_neg h]
  split_ifs with h1
  · exact ⟨0, rfl, by simp [h1, Nat.log2_def]⟩
  · exact ⟨_, rfl, by simpa using logbase2Loop_toNat 32 num 0 h0 num.toNat_lt (by decide)⟩

/-- One line of the cache. `data` is `NULL` until the first load. -/
@[ext] structure CacheLine where
  isValid : Bool
  tag : UInt64
  data : Ptr UInt32
  deriving DecidableEq, Repr

namespace CacheLine

def EMPTY : UInt64 := 0 - 1

/-- The default constructor. -/
def new : CacheLine := ⟨false, EMPTY, none⟩

/-- `lineSize` counts words here: the array has `lineSize` elements of type `uint32_t`,
and its uninitialised words are all overwritten by the copy. -/
def load (cl : CacheLine) (_tag : UInt64) (line : Ptr UInt32) (lineSize : Nat) :
    Except Fault CacheLine :=
  match line with
  | none => .error .nullPointer
  | some line => do
    let data := cl.data.getD (List.replicate lineSize 0)
    let data ← copyWords lineSize line data
    return { isValid := true, tag := _tag, data := some data }

def setValid (cl : CacheLine) (_valid : Bool) : CacheLine := { cl with isValid := _valid }

def getValid (cl : CacheLine) : Bool := cl.isValid

def setEmpty (cl : CacheLine) : CacheLine := { cl with tag := EMPTY }

def getEmpty (cl : CacheLine) : Bool := cl.tag == EMPTY

def getTag (cl : CacheLine) : UInt64 := cl.tag

/-- `&data[index]`. -/
def getData (cl : CacheLine) (index : Nat) : Ptr UInt32 := cl.data.map (·.drop index)

def invalidate (cl : CacheLine) : CacheLine := { cl with isValid := false }

/-- A load replaces the whole line, whatever the array held before. -/
theorem load_eq (cl : CacheLine) (_tag : UInt64) (line : List UInt32) (lineSize : Nat)
    (hl : lineSize ≤ line.length) (hd : ∀ data, cl.data = some data → data.length = lineSize) :
    cl.load _tag (some line) lineSize =
      .ok ⟨true, _tag, some (line.take lineSize)⟩ := by
  have hlen : (cl.data.getD (List.replicate lineSize 0)).length = lineSize := by
    cases hc : cl.data with
    | none => simp
    | some data => exact hd data hc
  simp only [load]
  rw [copyWords_eq lineSize line _ hl hlen.ge, List.drop_eq_nil_of_le hlen.le, List.append_nil]
  rfl

/-- A source with fewer than `lineSize` words makes the load read past its end. -/
theorem load_short (cl : CacheLine) (_tag : UInt64) (line : List UInt32) (lineSize : Nat)
    (hl : line.length < lineSize) : cl.load _tag (some line) lineSize = .error .outOfBounds := by
  simp only [load]
  rw [copyWords_short lineSize line _ (Or.inl hl)]
  rfl

end CacheLine

end FreeSampler
