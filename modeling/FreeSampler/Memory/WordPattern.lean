import FreeSampler.Framework.Bytes
import Mathlib.Tactic.IntervalCases

namespace FreeSampler

open Framework

/-- `memset(dest, value, len)` inside an array. -/
def memset (dest : List UInt8) (value : UInt8) (len : Nat) : List UInt8 :=
  List.replicate (min len dest.length) value ++ dest.drop len

/-- `for( int ii=1; ii<n-2; ii+=2) { page[ii] = 1; }`. -/
def fillPattern (n : Nat) (page : List UInt32) : List UInt32 :=
  ((List.range (n - 2)).filter (fun ii => ii % 2 == 1)).foldl (fun page ii => page.set ii 1) page

/-- The initial contents of `new uint32_t[n]`, as both memories set them up. `memset` counts
bytes, so it clears a quarter of the words only; `garbage` is what the allocation held. -/
def initialWords (n : Nat) (garbage : List UInt32) : List UInt32 :=
  fillPattern n (toWords (memset (toBytes garbage) 0 n))

theorem memset_length (dest : List UInt8) (value : UInt8) (len : Nat) :
    (memset dest value len).length = dest.length := by
  simp only [memset, List.length_append, List.length_replicate, List.length_drop]
  omega

theorem fillPattern_length (n : Nat) (page : List UInt32) :
    (fillPattern n page).length = page.length := by
  have hfold (is : List Nat) (ws : List UInt32) :
      (is.foldl (fun page ii => page.set ii 1) ws).length = ws.length := by
    induction is generalizing ws with
    | nil => rfl
    | cons i is ih => simpa using ih (ws.set i 1)
  exact hfold _ page

theorem fillPattern_getElem? (n : Nat) (page : List UInt32) (w : Nat) :
    (fillPattern n page)[w]? =
      if w % 2 = 1 ∧ w + 2 < n then page[w]?.map (fun _ => 1) else page[w]? := by
  have hfold (is : List Nat) (ws : List UInt32) :
      (is.foldl (fun page ii => page.set ii 1) ws)[w]? =
        if w ∈ is then ws[w]?.map (fun _ => 1) else ws[w]? := by
    induction is generalizing ws with
    | nil => rfl
    | cons i is ih =>
      rw [List.foldl_cons, ih (ws.set i 1)]
      by_cases hi : i = w
      · rw [hi, List.getElem?_set_self']
        cases ws[w]? <;> simp
      · rw [List.getElem?_set_ne hi]
        simp [Ne.symm hi]
  have hmem : w ∈ (List.range (n - 2)).filter (fun ii => ii % 2 == 1) ↔ w % 2 = 1 ∧ w + 2 < n := by
    simp only [List.mem_filter, List.mem_range, beq_iff_eq]
    omega
  rw [fillPattern, hfold]
  exact if_congr hmem rfl rfl

theorem memset_getElem? (dest : List UInt8) (value : UInt8) (len i : Nat) (hi : i < dest.length) :
    (memset dest value len)[i]? = if i < len then some value else dest[i]? := by
  rw [memset]
  by_cases hl : i < len
  · rw [if_pos hl, List.getElem?_append_left (by simp; omega), List.getElem?_replicate_of_lt]
    omega
  · rw [if_neg hl, List.getElem?_append_right (by simp; omega), List.getElem?_drop]
    congr 1
    simp
    omega

theorem initialWords_length (n : Nat) (garbage : List UInt32) :
    (initialWords n garbage).length = garbage.length := by
  rw [initialWords, fillPattern_length, toWords_length, memset_length, toBytes_length]
  omega

/-- The words that the initialization reaches in an array of `n` words: the odd ones below the
bound of the loop, and the even ones whose four bytes `memset` clears. -/
def Initialized (n w : Nat) : Prop := (w % 2 = 1 ∧ w + 2 < n) ∨ (w % 2 = 0 ∧ 4 * (w + 1) ≤ n)

instance (n w : Nat) : Decidable (Initialized n w) := inferInstanceAs (Decidable (_ ∨ _))

theorem initialWords_byte (n : Nat) (garbage : List UInt32) (w : Nat)
    (hw : ¬ (w % 2 = 1 ∧ w + 2 < n)) (v : UInt32) (hv : (initialWords n garbage)[w]? = some v)
    (j : Nat) (hj : j < 4) : (wordBytes v)[j]? = (memset (toBytes garbage) 0 n)[4 * w + j]? := by
  have hlen : (memset (toBytes garbage) 0 n).length = 4 * garbage.length := by
    rw [memset_length, toBytes_length]
  rw [initialWords, fillPattern_getElem?, if_neg hw] at hv
  have hd : (4 * w + j) / 4 = w := by omega
  have hm : (4 * w + j) % 4 = j := by omega
  rw [← toBytes_toWords garbage.length _ hlen, toBytes_getElem?, hd, hm, hv, Option.bind_some]

/-- An initialized word holds its pattern, whatever the allocation held. -/
theorem initialWords_initialized (n : Nat) (garbage : List UInt32) (hn : garbage.length = n)
    (w : Nat) (hw : w < n) (h : Initialized n w) :
    (initialWords n garbage)[w]? = some (UInt32.ofNat (w % 2)) := by
  have hlt : w < (initialWords n garbage).length := by rw [initialWords_length, hn]; exact hw
  have hget := List.getElem?_eq_getElem hlt
  rcases h with h | h
  · have hword : (initialWords n garbage)[w]? =
        (toWords (memset (toBytes garbage) 0 n))[w]?.map (fun _ => 1) := by
      rw [initialWords, fillPattern_getElem?, if_pos h]
    rw [hget] at hword
    obtain ⟨_, _, hone⟩ := Option.map_eq_some_iff.mp hword.symm
    rw [hget, ← hone, h.1]
    rfl
  · rw [hget, h.1]
    apply congrArg some
    apply wordBytes_inj
    have hbyte := initialWords_byte n garbage w (by omega) _ hget
    have hzero (j : Nat) (hj : j < 4) : (wordBytes (initialWords n garbage)[w])[j]? = some 0 := by
      rw [hbyte j hj, memset_getElem? _ _ _ _ (by rw [toBytes_length]; omega), if_pos (by omega)]
    apply List.ext_getElem?
    intro j
    by_cases hj : j < 4
    · rw [hzero j hj]
      interval_cases j <;> rfl
    · rw [List.getElem?_eq_none (by rw [wordBytes_length]; omega),
        List.getElem?_eq_none (by rw [wordBytes_length]; omega)]

/-- A word that is not initialized can hold something else. -/
theorem initialWords_uninitialized (n w : Nat) (hw : w < n) (h : ¬ Initialized n w) :
    (initialWords n (List.replicate n 0xffffffff))[w]? ≠ some (UInt32.ofNat (w % 2)) := by
  intro hv
  have hloop : ¬ (w % 2 = 1 ∧ w + 2 < n) := fun hn => h (Or.inl hn)
  -- the fourth byte of the word lies behind the bytes that `memset` clears
  have hbehind : ¬ 4 * w + 3 < n := by
    intro hlt
    apply h
    by_cases hodd : w % 2 = 1
    · exact Or.inl ⟨hodd, by omega⟩
    · exact Or.inr ⟨by omega, by omega⟩
  have hbyte := initialWords_byte n _ w hloop _ hv 3 (by omega)
  have hd : (4 * w + 3) / 4 = w := by omega
  have hm : (4 * w + 3) % 4 = 3 := by omega
  rw [memset_getElem? _ _ _ _ (by rw [toBytes_length, List.length_replicate]; omega),
    if_neg hbehind, toBytes_getElem?, hd, hm, List.getElem?_replicate_of_lt hw] at hbyte
  have hmod : w % 2 = 0 ∨ w % 2 = 1 := by omega
  rcases hmod with h0 | h1
  · rw [h0] at hbyte
    exact absurd hbyte (by decide)
  · rw [h1] at hbyte
    exact absurd hbyte (by decide)

end FreeSampler
