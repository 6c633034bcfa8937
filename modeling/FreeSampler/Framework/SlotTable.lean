import Mathlib.Data.List.Nodup
import Mathlib.Data.Finset.Card

namespace FreeSampler.Framework

/-- A table of at most `cap` keyed slots, filled from the front and never emptied. -/
@[ext] structure SlotTable (κ ν : Type) (cap : Nat) where
  slots : List (κ × ν)
  nodup : (slots.map Prod.fst).Nodup
  fits : slots.length ≤ cap

namespace SlotTable

variable {κ ν : Type} {cap : Nat} [DecidableEq κ]

def empty : SlotTable κ ν cap := ⟨[], by simp, by simp⟩

def keys (t : SlotTable κ ν cap) : List κ := t.slots.map Prod.fst

/-- The slot that holds a key. -/
def position (t : SlotTable κ ν cap) (k : κ) : Option Nat :=
  t.slots.findIdx? (fun e => decide (e.1 = k))

def lookup (t : SlotTable κ ν cap) (k : κ) : Option ν :=
  (t.slots.find? (fun e => decide (e.1 = k))).map Prod.snd

theorem lookup_eq_some (t : SlotTable κ ν cap) (k : κ) (v : ν) :
    t.lookup k = some v ↔ (k, v) ∈ t.slots := by
  constructor
  · intro h
    obtain ⟨e, he, hv⟩ := Option.map_eq_some_iff.mp h
    have hk : e.1 = k := by simpa using List.find?_some he
    exact (Prod.ext hk hv : e = (k, v)) ▸ List.mem_of_find?_eq_some he
  · intro h
    have hf : (t.slots.find? (fun e => decide (e.1 = k))).isSome := by
      rw [List.find?_isSome]
      exact ⟨_, h, by simp⟩
    obtain ⟨e, he⟩ := Option.isSome_iff_exists.mp hf
    have hk : e.1 = k := by simpa using List.find?_some he
    have hm := List.mem_of_find?_eq_some he
    have heq : e = (k, v) := List.inj_on_of_nodup_map t.nodup hm h hk
    simp [lookup, he, heq]

theorem lookup_eq_none (t : SlotTable κ ν cap) (k : κ) :
    t.lookup k = none ↔ k ∉ t.keys := by
  rw [lookup, Option.map_eq_none_iff, List.find?_eq_none]
  constructor
  · intro h hk
    obtain ⟨e, he, rfl⟩ := List.mem_map.mp hk
    simpa using h e he
  · intro h e he
    simp only [decide_eq_true_eq]
    intro hk
    exact h (hk ▸ List.mem_map_of_mem he)

theorem lookup_isSome (t : SlotTable κ ν cap) (k : κ) : (∃ v, t.lookup k = some v) ↔ k ∈ t.keys := by
  rw [← Option.ne_none_iff_exists']
  exact (not_congr (t.lookup_eq_none k)).trans not_not

theorem position_eq_some (t : SlotTable κ ν cap) (k : κ) (i : Nat) :
    t.position k = some i ↔ ∃ v, t.slots[i]? = some (k, v) := by
  rw [position, List.findIdx?_eq_some_iff_getElem]
  constructor
  · intro h
    obtain ⟨hi, hk, -⟩ := h
    have hkey : t.slots[i].1 = k := of_decide_eq_true hk
    refine ⟨t.slots[i].2, ?_⟩
    rw [List.getElem?_eq_getElem hi, ← hkey]
  · intro h
    obtain ⟨v, hv⟩ := h
    obtain ⟨hi, he⟩ := List.getElem?_eq_some_iff.mp hv
    refine ⟨hi, by simp [he], ?_⟩
    intro j hj hjk
    have hjl : j < t.slots.length := by omega
    have hkey : (t.slots.map Prod.fst)[j]? = (t.slots.map Prod.fst)[i]? := by
      simpa [List.getElem?_eq_getElem, hjl, hi, he] using hjk
    have hji := (List.getElem?_inj (by simpa using hjl) t.nodup).mp hkey
    omega

theorem position_eq_none (t : SlotTable κ ν cap) (k : κ) :
    t.position k = none ↔ t.lookup k = none := by
  rw [lookup, Option.map_eq_none_iff, position, List.findIdx?_eq_none_iff, List.find?_eq_none]
  simp

theorem position_lt (t : SlotTable κ ν cap) (k : κ) (i : Nat) (h : t.position k = some i) :
    i < t.slots.length := by
  obtain ⟨v, hv⟩ := (t.position_eq_some k i).mp h
  exact (List.getElem?_eq_some_iff.mp hv).1

/-- The slot a key is written to: its own, else the first free one, else slot 0. -/
def target (t : SlotTable κ ν cap) (k : κ) : Nat :=
  (t.position k).getD (if t.slots.length < cap then t.slots.length else 0)

private def putSlots (t : SlotTable κ ν cap) (k : κ) (v : ν) : List (κ × ν) :=
  if t.target k < t.slots.length then t.slots.set (t.target k) (k, v)
  else if t.slots.length < cap then t.slots ++ [(k, v)] else t.slots

theorem keys_set_target (t : SlotTable κ ν cap) (k : κ) (v : ν) (i : Nat)
    (h : t.position k = some i) : (t.slots.set i (k, v)).map Prod.fst = t.keys := by
  obtain ⟨w, hw⟩ := (t.position_eq_some k i).mp h
  obtain ⟨hi, he⟩ := List.getElem?_eq_some_iff.mp hw
  have hkl : i < t.keys.length := by simpa [keys] using hi
  have hk : t.keys[i] = k := by simp [keys, he]
  rw [List.map_set]
  change t.keys.set i k = t.keys
  rw [← hk, List.set_getElem_self]

private theorem putSlots_nodup (t : SlotTable κ ν cap) (k : κ) (v : ν) :
    ((t.putSlots k v).map Prod.fst).Nodup := by
  unfold putSlots
  cases hp : t.position k with
  | some i =>
    have hi := t.position_lt k i hp
    have ht : t.target k = i := by simp [target, hp]
    rw [ht, if_pos hi, t.keys_set_target k v i hp]
    exact t.nodup
  | none =>
    have hk : k ∉ t.slots.map Prod.fst := (t.lookup_eq_none k).mp ((t.position_eq_none k).mp hp)
    split_ifs
    · rw [List.map_set]
      exact t.nodup.set hk
    · rw [List.map_append]
      exact t.nodup.append (by simp) (by simpa using hk)
    · exact t.nodup

private theorem putSlots_length (t : SlotTable κ ν cap) (k : κ) (v : ν) :
    (t.putSlots k v).length ≤ cap := by
  have h := t.fits
  unfold putSlots
  split_ifs <;> simp <;> omega

/-- Write a key: in place when it is present, in a fresh slot while there is
room, and over slot 0 in a full table. -/
def put (t : SlotTable κ ν cap) (k : κ) (v : ν) : SlotTable κ ν cap :=
  ⟨t.putSlots k v, t.putSlots_nodup k v, t.putSlots_length k v⟩

theorem put_hit (t : SlotTable κ ν cap) (k : κ) (v : ν) (i : Nat) (h : t.position k = some i) :
    (t.put k v).slots = t.slots.set i (k, v) := by
  simp [put, putSlots, target, h, t.position_lt k i h]

theorem put_room (t : SlotTable κ ν cap) (k : κ) (v : ν) (h : t.position k = none)
    (hr : t.slots.length < cap) : (t.put k v).slots = t.slots ++ [(k, v)] := by
  simp [put, putSlots, target, h, hr]

theorem put_evict (t : SlotTable κ ν cap) (k : κ) (v : ν) (h : t.position k = none)
    (hr : ¬ t.slots.length < cap) : (t.put k v).slots = t.slots.set 0 (k, v) := by
  simp only [put, putSlots, target, h, hr, if_false, Option.getD_none]
  split_ifs with h0
  · rfl
  · rw [List.set_eq_of_length_le (by omega)]

theorem target_of_hit (t : SlotTable κ ν cap) (k : κ) (i : Nat) (h : t.position k = some i) :
    t.target k = i := by simp [target, h]

theorem target_lt (t : SlotTable κ ν cap) (k : κ) (h : 0 < cap) : t.target k < cap := by
  cases hp : t.position k with
  | some i =>
    rw [t.target_of_hit k i hp]
    exact (t.position_lt k i hp).trans_le t.fits
  | none =>
    simp only [target, hp, Option.getD_none]
    split_ifs <;> omega

theorem put_getElem? (t : SlotTable κ ν cap) (k : κ) (v : ν) (j : Nat) (h : 0 < cap) :
    (t.put k v).slots[j]? = if j = t.target k then some (k, v) else t.slots[j]? := by
  cases hp : t.position k with
  | some i =>
    have hi := t.position_lt k i hp
    rw [t.put_hit k v i hp, t.target_of_hit k i hp, List.getElem?_set]
    by_cases hj : i = j
    · subst hj
      rw [if_pos rfl, if_pos hi, if_pos rfl]
    · rw [if_neg hj, if_neg (Ne.symm hj)]
  | none =>
    by_cases hr : t.slots.length < cap
    · have ht : t.target k = t.slots.length := by simp [target, hp, hr]
      rw [t.put_room k v hp hr, ht]
      split_ifs with hj
      · simp [hj]
      · by_cases hlt : j < t.slots.length
        · rw [List.getElem?_append_left hlt]
        · rw [List.getElem?_eq_none (by simp; omega), List.getElem?_eq_none (by omega)]
    · have ht : t.target k = 0 := by simp [target, hp, hr]
      rw [t.put_evict k v hp hr, ht, List.getElem?_set]
      by_cases hj : 0 = j
      · subst hj
        rw [if_pos rfl, if_pos (by omega), if_pos rfl]
      · rw [if_neg hj, if_neg (Ne.symm hj)]

theorem put_length_le (t : SlotTable κ ν cap) (k : κ) (v : ν) :
    t.slots.length ≤ (t.put k v).slots.length := by
  unfold put putSlots
  dsimp only
  split_ifs <;> simp

private theorem mem_set_of_ne {α : Type} (xs : List α) (i : Nat) (x y : α) (h : y ≠ x)
    (hi : ∀ z, xs[i]? = some z → y ≠ z) : y ∈ xs.set i x ↔ y ∈ xs := by
  simp only [List.mem_iff_getElem?]
  apply exists_congr
  intro j
  by_cases hj : i = j
  · subst hj
    constructor
    · intro hy
      rw [List.getElem?_set_self'] at hy
      obtain ⟨_, _, rfl⟩ := Option.map_eq_some_iff.mp hy
      exact absurd rfl h
    · intro hy
      exact absurd rfl (hi y hy)
  · rw [List.getElem?_set_ne hj]

theorem lookup_put_self (t : SlotTable κ ν cap) (k : κ) (v : ν) (h : 0 < cap) :
    (t.put k v).lookup k = some v := by
  rw [lookup_eq_some]
  cases hp : t.position k with
  | some i =>
    rw [t.put_hit k v i hp]
    exact List.mem_iff_getElem?.mpr ⟨i, by simp [t.position_lt k i hp]⟩
  | none =>
    by_cases hr : t.slots.length < cap
    · simp [t.put_room k v hp hr]
    · rw [t.put_evict k v hp hr]
      exact List.mem_iff_getElem?.mpr ⟨0, List.getElem?_set_self (by omega)⟩

/-- A hit or a free slot leaves every other key as it was. -/
theorem lookup_put_keeps (t : SlotTable κ ν cap) (k k' : κ) (v : ν) (hk : k' ≠ k)
    (h : k ∈ t.keys ∨ t.slots.length < cap) : (t.put k v).lookup k' = t.lookup k' := by
  apply Option.ext
  intro w
  rw [lookup_eq_some, lookup_eq_some]
  cases hp : t.position k with
  | some i =>
    obtain ⟨u, hu⟩ := (t.position_eq_some k i).mp hp
    rw [t.put_hit k v i hp]
    apply mem_set_of_ne
    · simp [hk]
    · intro z hz
      rw [hu] at hz
      rw [← Option.some.inj hz]
      simp [hk]
  | none =>
    have hn : k ∉ t.keys := (t.lookup_eq_none k).mp ((t.position_eq_none k).mp hp)
    rw [t.put_room k v hp (h.resolve_left hn)]
    simp [hk]

/-- A miss in a full table drops the key of slot 0 and no other. -/
theorem lookup_put_evicts (t : SlotTable κ ν cap) (k k' : κ) (v : ν) (hk : k' ≠ k)
    (hn : k ∉ t.keys) (hf : ¬ t.slots.length < cap) :
    (t.put k v).lookup k' = if t.position k' = some 0 then none else t.lookup k' := by
  have hp : t.position k = none := (t.position_eq_none k).mpr ((t.lookup_eq_none k).mpr hn)
  split_ifs with h0
  · obtain ⟨w, hw⟩ := (t.position_eq_some k' 0).mp h0
    rw [lookup_eq_none, keys, t.put_evict k v hp hf]
    cases hs : t.slots with
    | nil => simp
    | cons e rest =>
      have he : e = (k', w) := by simpa [hs] using hw
      have hd := t.nodup
      rw [hs, List.map_cons, he] at hd
      simpa [hk] using (List.nodup_cons.mp hd).1
  · apply Option.ext
    intro w
    rw [lookup_eq_some, lookup_eq_some, t.put_evict k v hp hf]
    apply mem_set_of_ne
    · simp [hk]
    · intro z hz hzw
      exact h0 ((t.position_eq_some k' 0).mpr ⟨w, hzw ▸ hz⟩)

theorem lookup_put_of_ne (t : SlotTable κ ν cap) (k k' : κ) (v w : ν) (hk : k' ≠ k)
    (h : (t.put k v).lookup k' = some w) : t.lookup k' = some w := by
  by_cases hh : k ∈ t.keys ∨ t.slots.length < cap
  · rwa [t.lookup_put_keeps k k' v hk hh] at h
  · obtain ⟨hn, hf⟩ := not_or.mp hh
    rw [t.lookup_put_evicts k k' v hk hn hf] at h
    split_ifs at h
    exact h

/-- Change the value of a key that is present. -/
def modify (t : SlotTable κ ν cap) (k : κ) (f : ν → ν) : SlotTable κ ν cap :=
  match t.lookup k with
  | some v => t.put k (f v)
  | none => t

theorem lookup_modify (t : SlotTable κ ν cap) (k k' : κ) (f : ν → ν) :
    (t.modify k f).lookup k' = if k' = k then (t.lookup k).map f else t.lookup k' := by
  unfold modify
  cases hl : t.lookup k with
  | none =>
    split_ifs with hk
    · simp [hk, hl]
    · rfl
  | some v =>
    have hm : k ∈ t.keys := (t.lookup_isSome k).mp ⟨v, hl⟩
    have hc : 0 < cap := by
      have hs : 0 < t.slots.length := List.length_pos_of_mem ((t.lookup_eq_some k v).mp hl)
      exact hs.trans_le t.fits
    split_ifs with hk
    · rw [hk]
      exact t.lookup_put_self k (f v) hc
    · exact t.lookup_put_keeps k k' (f v) hk (Or.inl hm)

/-- The keys that a write leaves of a list of keys: the same when its key is present, one more
while there is room, and another first one in a full table. -/
def putKeys (cap : Nat) (keys : List κ) (k : κ) : List κ :=
  if k ∈ keys then keys else if keys.length < cap then keys ++ [k] else keys.set 0 k

omit [DecidableEq κ] in
theorem keys_length (t : SlotTable κ ν cap) : t.keys.length = t.slots.length := List.length_map _

/-- Which keys a table holds after a write depends on its keys alone. -/
theorem keys_put (t : SlotTable κ ν cap) (k : κ) (v : ν) :
    (t.put k v).keys = putKeys cap t.keys k := by
  rw [putKeys, keys_length]
  cases hp : t.position k with
  | some i =>
    obtain ⟨w, hw⟩ := (t.position_eq_some k i).mp hp
    have hm : k ∈ t.keys := List.mem_map.mpr ⟨_, List.mem_of_getElem? hw, rfl⟩
    rw [if_pos hm, keys, t.put_hit k v i hp, t.keys_set_target k v i hp]
  | none =>
    have hn : k ∉ t.keys := (t.lookup_eq_none k).mp ((t.position_eq_none k).mp hp)
    rw [if_neg hn]
    by_cases hr : t.slots.length < cap
    · rw [if_pos hr, keys, t.put_room k v hp hr, List.map_append]
      rfl
    · rw [if_neg hr, keys, t.put_evict k v hp hr, List.map_set]
      rfl

theorem putKeys_of_mem (keys : List κ) (k : κ) (h : k ∈ keys) : putKeys cap keys k = keys := if_pos h

/-- While the keys and a new one fit the table, no key is dropped for it. -/
theorem putKeys_toFinset (keys : List κ) (k : κ) (hn : keys.Nodup)
    (h : (insert k keys.toFinset).card ≤ cap) :
    (putKeys cap keys k).toFinset = insert k keys.toFinset := by
  rw [putKeys]
  by_cases hm : k ∈ keys
  · rw [if_pos hm, Finset.insert_eq_of_mem (by simpa using hm)]
  · rw [Finset.card_insert_of_notMem (by simpa using hm), List.toFinset_card_of_nodup hn] at h
    rw [if_neg hm, if_pos (by omega)]
    simp

omit [DecidableEq κ] in
theorem getElem?_keys (t : SlotTable κ ν cap) (i : Nat) : t.keys[i]? = t.slots[i]?.map Prod.fst :=
  List.getElem?_map ..

theorem position_iff_key (t : SlotTable κ ν cap) (k : κ) (i : Nat) :
    t.position k = some i ↔ t.keys[i]? = some k := by
  rw [position_eq_some, getElem?_keys, Option.map_eq_some_iff]
  constructor
  · intro h
    obtain ⟨v, hv⟩ := h
    exact ⟨(k, v), hv, rfl⟩
  · intro h
    obtain ⟨e, he, rfl⟩ := h
    exact ⟨e.2, he⟩

/-- What a list of missing keys leaves, in their order: all of them while they fit, and then a
full table with the latest of them in slot 0. -/
structure FilledBy (cap : Nat) (misses keys : List κ) : Prop where
  room : misses.length ≤ cap → keys = misses
  recycled : cap < misses.length → keys.length = cap ∧ keys[0]? = misses.getLast?

omit [DecidableEq κ] in
theorem filledBy_nil (cap : Nat) : FilledBy cap ([] : List κ) [] := ⟨fun _ => rfl, by simp⟩

/-- A key that is missing takes a free slot, and then slot 0 again and again. -/
theorem FilledBy.put (misses keys : List κ) (k : κ) (h : FilledBy cap misses keys) (hk : k ∉ keys)
    (hc : 0 < cap) : FilledBy cap (misses ++ [k]) (putKeys cap keys k) := by
  rw [putKeys, if_neg hk]
  constructor
  · intro hroom
    rw [List.length_append, List.length_singleton] at hroom
    rw [h.room (by omega), if_pos (by omega)]
  · intro hover
    rw [List.length_append, List.length_singleton] at hover
    have hfull : keys.length = cap := by
      rcases Nat.lt_or_ge cap misses.length with hlt | hle
      · exact (h.recycled hlt).1
      · rw [h.room hle]
        omega
    rw [if_neg (by omega), List.length_set, List.getElem?_set_self (by omega),
      List.getLast?_concat]
    exact ⟨hfull, rfl⟩

theorem mem_keys_put (t : SlotTable κ ν cap) (k k' : κ) (v : ν) (h : k' ∈ (t.put k v).keys) :
    k' = k ∨ k' ∈ t.keys := by
  by_cases hk : k' = k
  · exact Or.inl hk
  · obtain ⟨w, hw⟩ := ((t.put k v).lookup_isSome k').mpr h
    exact Or.inr ((t.lookup_isSome k').mp ⟨w, t.lookup_put_of_ne k k' v w hk hw⟩)

theorem keys_modify (t : SlotTable κ ν cap) (k : κ) (f : ν → ν) :
    (t.modify k f).keys = t.keys := by
  unfold modify
  cases hl : t.lookup k with
  | none => rfl
  | some v =>
    have hp : t.position k ≠ none := by
      intro h
      rw [(t.position_eq_none k).mp h] at hl
      simp at hl
    obtain ⟨i, hi⟩ := Option.ne_none_iff_exists'.mp hp
    dsimp only
    rw [keys, t.put_hit k (f v) i hi, t.keys_set_target k (f v) i hi]

theorem modify_length_le (t : SlotTable κ ν cap) (k : κ) (f : ν → ν) :
    t.slots.length ≤ (t.modify k f).slots.length := by
  unfold modify
  cases t.lookup k with
  | none => exact le_rfl
  | some v => exact t.put_length_le k (f v)

end SlotTable

end FreeSampler.Framework
