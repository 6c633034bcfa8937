import Mathlib.Data.List.Basic

namespace FreeSampler.Framework

/-- What is kept of some elements in `cap` places that are filled in order and then all in the first
one: when there are too many, the last of all takes the place of the very first. -/
def kept {α : Type} (cap : Nat) (xs : List α) : List α :=
  if xs.length ≤ cap then xs else xs.getLast?.toList ++ (xs.take cap).tail

section Kept

variable {α : Type} (cap : Nat)

theorem kept_length (hc : 0 < cap) (xs : List α) : (kept cap xs).length = min xs.length cap := by
  rw [kept]
  split_ifs with h
  · omega
  · have hne : xs ≠ [] := by
      rintro rfl
      simp at h
    rw [List.getLast?_eq_some_getLast hne, Option.toList_some, List.length_append,
      List.length_singleton, List.length_tail, List.length_take]
    omega

theorem kept_room (xs : List α) (x : α) (h : xs.length < cap) :
    kept cap (xs ++ [x]) = kept cap xs ++ [x] := by
  rw [kept, kept, if_pos (by simp; omega), if_pos (Nat.le_of_lt h)]

theorem kept_full (hc : 0 < cap) (xs : List α) (x : α) (h : cap ≤ xs.length) :
    kept cap (xs ++ [x]) = (kept cap xs).set 0 x := by
  have hne : xs ≠ [] := List.ne_nil_of_length_pos (by omega)
  rw [kept, kept, if_neg (by simp; omega), List.getLast?_concat, List.take_append_of_le_length h]
  split_ifs with hle
  · obtain ⟨first, rest, rfl⟩ := List.exists_cons_of_ne_nil hne
    rw [List.take_of_length_le hle]
    rfl
  · rw [List.getLast?_eq_some_getLast hne]
    rfl

theorem mem_of_kept (xs : List α) (x : α) (h : x ∈ kept cap xs) : x ∈ xs := by
  rw [kept] at h
  split_ifs at h
  · exact h
  · rcases List.mem_append.mp h with hlast | hrest
    · exact List.mem_of_getLast? (Option.mem_toList.mp hlast)
    · exact List.mem_of_mem_take (List.mem_of_mem_tail hrest)

/-- What is found in a place after one more element. -/
theorem kept_concat_getElem? (hc : 0 < cap) (xs : List α) (x : α) (v : Nat) :
    (kept cap (xs ++ [x]))[v]? =
      if v = (if xs.length < cap then xs.length else 0) then some x else (kept cap xs)[v]? := by
  have hlen := kept_length cap hc xs
  by_cases hroom : xs.length < cap
  · rw [if_pos hroom, kept_room cap xs x hroom]
    have hlast : (kept cap xs).length = xs.length := by omega
    by_cases hv : v = xs.length
    · rw [if_pos hv, hv, ← hlast, List.getElem?_concat_length]
    · rw [if_neg hv]
      by_cases hlt : v < xs.length
      · rw [List.getElem?_append_left (by omega)]
      · rw [List.getElem?_eq_none (by simp; omega), List.getElem?_eq_none (by omega)]
  · rw [if_neg hroom, kept_full cap hc xs x (by omega), List.getElem?_set]
    by_cases hv : v = 0
    · rw [if_pos hv, if_pos hv.symm, if_pos (by omega)]
    · rw [if_neg hv, if_neg (Ne.symm hv)]

/-- Setting one entry of a table of rows that lie behind each other. -/
theorem rows_set (f f' : Nat → Nat → α) (rows cols i w : Nat) (x : α) (hw : w < cols)
    (h : ∀ j, ∀ v < cols, f' j v = if j = i ∧ v = w then x else f j v) :
    ((List.range (rows * cols)).map (fun k => f (k / cols) (k % cols))).set (i * cols + w) x =
      (List.range (rows * cols)).map (fun k => f' (k / cols) (k % cols)) := by
  have hpos : 0 < cols := by omega
  apply List.ext_getElem?
  intro k
  have hk := Nat.div_add_mod' k cols
  have hiff : i * cols + w = k ↔ k / cols = i ∧ k % cols = w := by
    constructor
    · rintro rfl
      rw [Nat.add_comm, Nat.add_mul_div_right _ _ hpos, Nat.add_mul_mod_self_right,
        Nat.div_eq_of_lt hw, Nat.mod_eq_of_lt hw, Nat.zero_add]
      exact ⟨rfl, rfl⟩
    · intro hkk
      rw [← hk, hkk.1, hkk.2]
  rw [List.getElem?_set, List.length_map, List.length_range, List.getElem?_map, List.getElem?_map]
  by_cases hr : k < rows * cols
  · rw [List.getElem?_range hr, Option.map_some, Option.map_some, h _ _ (Nat.mod_lt k hpos)]
    by_cases heq : i * cols + w = k
    · rw [if_pos heq, if_pos (by omega), if_pos (hiff.mp heq)]
    · rw [if_neg heq, if_neg (fun hn => heq (hiff.mpr hn))]
  · rw [List.getElem?_eq_none (by simp; omega)]
    split_ifs with h₁ h₂
    · omega
    · rfl
    · rfl

end Kept

end FreeSampler.Framework
