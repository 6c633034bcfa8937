import Mathlib.Data.List.Basic

namespace FreeSampler.Framework

/-- The ways in which a C++ execution leaves its defined behaviour, or stops. -/
inductive Fault where
  | outOfBounds
  | nullPointer
  | divideByZero
  | assertion
  | exception (message : String)
  deriving DecidableEq, Repr

/-- A `T*`: `NULL`, or the elements from the pointee to the end of its array. -/
abbrev Ptr (α : Type) := Option (List α)

theorem bind_eq_ok {ε α β : Type} (x : Except ε α) (f : α → Except ε β) (b : β) :
    (x >>= f) = .ok b ↔ ∃ a, x = .ok a ∧ f a = .ok b := by
  cases x with
  | error e => simp [bind, Except.bind]
  | ok a => simp [bind, Except.bind]

@[simp] theorem ok_bind {ε α β : Type} (a : α) (f : α → Except ε β) :
    (Except.ok a >>= f) = f a := rfl

theorem exists_ok {ε α : Type} (x : Except ε α) (h : x.isOk = true) : ∃ a, x = .ok a := by
  cases x with
  | error e => simp [Except.isOk, Except.toBool] at h
  | ok a => exact ⟨a, rfl⟩

theorem ok_inj {ε α β : Type} {a a' : α} {b b' : β}
    (h : (.ok (a, b) : Except ε (α × β)) = .ok (a', b')) : a = a' ∧ b = b' :=
  Prod.mk.inj (Except.ok.inj h)

theorem ok_unique {ε α β : Type} {x : Except ε (α × β)} {a a' : α} {b b' : β}
    (h : x = .ok (a, b)) (h' : x = .ok (a', b')) : a = a' ∧ b = b' := ok_inj (h.symm.trans h')

/-- `array[index]` with the bound the language leaves to the programmer. -/
def elementAt {α : Type} (array : List α) (index : Nat) : Except Fault α :=
  match array[index]? with
  | some x => .ok x
  | none => .error .outOfBounds

theorem elementAt_ok {α : Type} (array : List α) (index : Nat) (x : α) :
    elementAt array index = .ok x ↔ array[index]? = some x := by
  unfold elementAt
  cases array[index]? <;> simp

theorem elementAt_get {α : Type} (array : List α) (index : Nat) (h : index < array.length) :
    elementAt array index = .ok array[index] := by
  rw [elementAt_ok, List.getElem?_eq_getElem h]

/-- `array[index] = value`. -/
def storeAt {α : Type} (array : List α) (index : Nat) (value : α) : Except Fault (List α) :=
  if index < array.length then .ok (array.set index value) else .error .outOfBounds

/-- `count` times `*dest++ = *source++`: the loop behind `std::copy` and a line load. -/
def copyWords {α : Type} : Nat → List α → List α → Except Fault (List α)
  | 0, _, dest => .ok dest
  | count + 1, x :: source, _ :: dest => (x :: ·) <$> copyWords count source dest
  | _ + 1, _, _ => .error .outOfBounds

/-- Inside both arrays the loop writes the first `count` elements and keeps the rest. -/
theorem copyWords_eq {α : Type} (count : Nat) (source dest : List α)
    (hs : count ≤ source.length) (ht : count ≤ dest.length) :
    copyWords count source dest = .ok (source.take count ++ dest.drop count) := by
  induction count generalizing source dest with
  | zero => rfl
  | succ count ih =>
    cases source with
    | nil => simp at hs
    | cons x source =>
      cases dest with
      | nil => simp at ht
      | cons y dest =>
        rw [copyWords, ih source dest (by simpa using hs) (by simpa using ht)]
        rfl

/-- A source or a target that is too short makes the loop leave its array. -/
theorem copyWords_short {α : Type} (count : Nat) (source dest : List α)
    (h : source.length < count ∨ dest.length < count) :
    copyWords count source dest = .error .outOfBounds := by
  induction count generalizing source dest with
  | zero => simp at h
  | succ count ih =>
    cases source with
    | nil => rfl
    | cons x source =>
      cases dest with
      | nil => rfl
      | cons y dest =>
        rw [copyWords, ih source dest (by simpa using h)]
        rfl

/-- `memcpy(dest + destOffset, source + sourceOffset, len)`; an empty copy touches neither array. -/
def memcpy {α : Type} (dest : List α) (destOffset : Nat) (source : List α) (sourceOffset len : Nat) :
    Except Fault (List α) :=
  if len = 0 then .ok dest
  else if sourceOffset + len ≤ source.length ∧ destOffset + len ≤ dest.length then
    .ok (dest.take destOffset ++ (source.drop sourceOffset).take len ++ dest.drop (destOffset + len))
  else .error .outOfBounds

theorem memcpy_length {α : Type} (dest source result : List α) (destOffset sourceOffset len : Nat)
    (h : memcpy dest destOffset source sourceOffset len = .ok result) :
    result.length = dest.length := by
  unfold memcpy at h
  split_ifs at h with h0 hb
  · exact congrArg List.length (Except.ok.inj h).symm
  · rw [← Except.ok.inj h]
    simp only [List.length_append, List.length_take, List.length_drop]
    omega

theorem memcpy_ok {α : Type} (dest source : List α) (destOffset sourceOffset len : Nat)
    (hs : sourceOffset + len ≤ source.length) (ht : destOffset + len ≤ dest.length) :
    memcpy dest destOffset source sourceOffset len =
      .ok (dest.take destOffset ++ (source.drop sourceOffset).take len ++ dest.drop (destOffset + len)) := by
  unfold memcpy
  split_ifs with h0 hb
  · subst h0
    simp
  · rfl
  · exact absurd ⟨hs, ht⟩ hb

/-- A copy is defined exactly when it is empty, or inside both of its arrays. -/
theorem memcpy_ok_iff {α : Type} (dest source : List α) (destOffset sourceOffset len : Nat) :
    (∃ result, memcpy dest destOffset source sourceOffset len = .ok result) ↔
      len = 0 ∨ (sourceOffset + len ≤ source.length ∧ destOffset + len ≤ dest.length) := by
  unfold memcpy
  split_ifs with h0 hb
  · exact iff_of_true ⟨dest, rfl⟩ (Or.inl h0)
  · exact iff_of_true ⟨_, rfl⟩ (Or.inr hb)
  · simp [h0, hb]

/-- A copy that fills its whole target. -/
theorem memcpy_whole {α : Type} (dest source result : List α) (sourceOffset len : Nat)
    (hd : dest.length = len) (h0 : 0 < len) :
    memcpy dest 0 source sourceOffset len = .ok result ↔
      sourceOffset + len ≤ source.length ∧ result = (source.drop sourceOffset).take len := by
  by_cases hs : sourceOffset + len ≤ source.length
  · rw [memcpy_ok dest source 0 sourceOffset len hs (by omega),
      List.drop_eq_nil_of_le (by omega : dest.length ≤ 0 + len)]
    simp [hs, eq_comm]
  · have hne : len ≠ 0 := by omega
    simp [memcpy, hne, hs]

/-- Byte by byte, a copy reads its source inside the target range and changes nothing else. -/
theorem memcpy_getElem? {α : Type} (dest source result : List α) (destOffset sourceOffset len : Nat)
    (h : memcpy dest destOffset source sourceOffset len = .ok result) (i : Nat) :
    result[i]? = if destOffset ≤ i ∧ i < destOffset + len then source[sourceOffset + (i - destOffset)]?
      else dest[i]? := by
  unfold memcpy at h
  split_ifs at h with h0 hb
  · rw [← Except.ok.inj h, if_neg (by omega)]
  · rw [← Except.ok.inj h]
    by_cases hlo : i < destOffset
    · rw [if_neg (by omega), List.append_assoc, List.getElem?_append_left (by simp; omega),
        List.getElem?_take_of_lt hlo]
    · by_cases hhi : i < destOffset + len
      · rw [if_pos ⟨by omega, hhi⟩, List.getElem?_append_left (by simp; omega),
          List.getElem?_append_right (by simp; omega)]
        simp only [List.length_take]
        rw [List.getElem?_take_of_lt (by omega), List.getElem?_drop]
        congr 2
        omega
      · rw [if_neg (by omega), List.getElem?_append_right (by simp; omega), List.getElem?_drop]
        simp only [List.length_append, List.length_take, List.length_drop]
        congr 1
        omega

end FreeSampler.Framework
