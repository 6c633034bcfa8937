import Mathlib.Data.List.Nodup
import Mathlib.Data.List.Perm.Subperm
import Mathlib.Logic.Function.Basic

namespace FreeSampler.Framework

/-- A map from keys to pointers of cells that are allocated one by one, when a key is
first asked for. A pointer is the number of an allocation. -/
@[ext] structure LazyHeap (κ ν : Type) where
  cells : List ν
  index : List (κ × Nat)
  pointers_eq : index.map Prod.snd = List.range cells.length
  nodup : (index.map Prod.fst).Nodup

namespace LazyHeap

variable {κ ν : Type}

def empty : LazyHeap κ ν := ⟨[], [], rfl, by simp⟩

def keys (h : LazyHeap κ ν) : List κ := h.index.map Prod.fst

/-- There are no more cells than numbers that the keys can be told apart by. -/
theorem keys_length_le (h : LazyHeap κ ν) (f : κ → Nat) (hf : Function.Injective f) (n : Nat)
    (hn : ∀ k ∈ h.keys, f k < n) : h.keys.length ≤ n := by
  have hnodup : (h.keys.map f).Nodup := h.nodup.map hf
  have hsub : h.keys.map f ⊆ List.range n := by
    intro x hx
    obtain ⟨k, hk, rfl⟩ := List.mem_map.mp hx
    exact List.mem_range.mpr (hn k hk)
  have hle := (hnodup.subperm hsub).length_le
  simpa using hle

theorem index_length (h : LazyHeap κ ν) : h.index.length = h.cells.length := by
  have hl := congrArg List.length h.pointers_eq
  simpa using hl

theorem index_getElem? (h : LazyHeap κ ν) (p : Nat) (e : κ × Nat) (he : h.index[p]? = some e) :
    e.2 = p := by
  have hm : (h.index.map Prod.snd)[p]? = some e.2 := by rw [List.getElem?_map, he]; rfl
  rw [h.pointers_eq] at hm
  obtain ⟨_, hv⟩ := List.getElem?_eq_some_iff.mp hm
  simpa using hv.symm

def set (h : LazyHeap κ ν) (p : Nat) (v : ν) : LazyHeap κ ν :=
  { h with
    cells := h.cells.set p v
    pointers_eq := by rw [List.length_set]; exact h.pointers_eq }

section Find

variable [DecidableEq κ]

/-- The pointer kept for a key. -/
def find (h : LazyHeap κ ν) (k : κ) : Option Nat :=
  (h.index.find? (fun e => decide (e.1 = k))).map Prod.snd

def contents (h : LazyHeap κ ν) (k : κ) : Option ν := (h.find k).bind (fun p => h.cells[p]?)

theorem find_eq_some (h : LazyHeap κ ν) (k : κ) (p : Nat) :
    h.find k = some p ↔ h.keys[p]? = some k := by
  constructor
  · intro hf
    obtain ⟨e, he, hp⟩ := Option.map_eq_some_iff.mp hf
    have hk : e.1 = k := by simpa using List.find?_some he
    obtain ⟨i, hi⟩ := List.mem_iff_getElem?.mp (List.mem_of_find?_eq_some he)
    have hip := h.index_getElem? i e hi
    rw [keys, List.getElem?_map, ← hp, hip, hi, ← hk]
    rfl
  · intro hk
    rw [keys, List.getElem?_map] at hk
    obtain ⟨e, he, hek⟩ := Option.map_eq_some_iff.mp hk
    have hm : e ∈ h.index := List.mem_of_getElem? he
    have hs : (h.index.find? (fun e => decide (e.1 = k))).isSome := by
      rw [List.find?_isSome]
      exact ⟨e, hm, by simp [hek]⟩
    obtain ⟨f, hf⟩ := Option.isSome_iff_exists.mp hs
    have hfk : f.1 = k := by simpa using List.find?_some hf
    have hfe : f = e :=
      List.inj_on_of_nodup_map h.nodup (List.mem_of_find?_eq_some hf) hm (hfk.trans hek.symm)
    rw [find, hf, hfe, Option.map_some, h.index_getElem? p e he]

theorem find_eq_none (h : LazyHeap κ ν) (k : κ) : h.find k = none ↔ k ∉ h.keys := by
  rw [Option.eq_none_iff_forall_ne_some]
  constructor
  · intro hn hk
    obtain ⟨p, hp⟩ := List.mem_iff_getElem?.mp hk
    exact hn p ((h.find_eq_some k p).mpr hp)
  · intro hk p hp
    exact hk (List.mem_of_getElem? ((h.find_eq_some k p).mp hp))

theorem find_lt (h : LazyHeap κ ν) (k : κ) (p : Nat) (hf : h.find k = some p) :
    p < h.cells.length := by
  obtain ⟨hp, _⟩ := List.getElem?_eq_some_iff.mp ((h.find_eq_some k p).mp hf)
  rwa [keys, List.length_map, h.index_length] at hp

/-- No two keys share a cell. -/
theorem find_inj (h : LazyHeap κ ν) (k k' : κ) (p : Nat) (hk : h.find k = some p)
    (hk' : h.find k' = some p) : k = k' := by
  have hp := (h.find_eq_some k p).mp hk
  rw [(h.find_eq_some k' p).mp hk'] at hp
  exact (Option.some.inj hp).symm

/-- Allocate a cell for a new key. -/
def allocate (h : LazyHeap κ ν) (k : κ) (v : ν) (hk : h.find k = none) : LazyHeap κ ν where
  cells := h.cells ++ [v]
  index := h.index ++ [(k, h.cells.length)]
  pointers_eq := by
    rw [List.map_append, h.pointers_eq, List.length_append, List.length_singleton, List.range_succ]
    rfl
  nodup := by
    have hn : k ∉ h.index.map Prod.fst := (h.find_eq_none k).mp hk
    rw [List.map_append, List.map_singleton]
    refine List.nodup_append.mpr ⟨h.nodup, List.nodup_singleton _, ?_⟩
    intro a ha b hb hab
    have hbk : b = k := List.mem_singleton.mp hb
    exact hn (hbk ▸ hab ▸ ha)

/-- The pointer kept for a key; a new key gets a cell that holds `v`. -/
def fetch (h : LazyHeap κ ν) (k : κ) (v : ν) : Nat × LazyHeap κ ν :=
  match hk : h.find k with
  | some p => (p, h)
  | none => (h.cells.length, h.allocate k v hk)

theorem fetch_present (h : LazyHeap κ ν) (k : κ) (v : ν) (p : Nat) (hk : h.find k = some p) :
    h.fetch k v = (p, h) := by
  unfold fetch
  split
  · rename_i q hq
    rw [Option.some.inj (hq.symm.trans hk)]
  · rename_i hn
    rw [hk] at hn
    simp at hn

theorem fetch_absent (h : LazyHeap κ ν) (k : κ) (v : ν) (hk : h.find k = none) :
    h.fetch k v = (h.cells.length, h.allocate k v hk) := by
  unfold fetch
  split
  · rename_i q hq
    rw [hk] at hq
    simp at hq
  · rfl

theorem keys_fetch (h : LazyHeap κ ν) (k k' : κ) (v : ν) :
    k' ∈ (h.fetch k v).2.keys ↔ k' = k ∨ k' ∈ h.keys := by
  cases hk : h.find k with
  | some p =>
    have hm := List.mem_of_getElem? ((h.find_eq_some k p).mp hk)
    rw [h.fetch_present k v p hk]
    constructor
    · exact Or.inr
    · intro hor
      rcases hor with heq | hor
      · rwa [heq]
      · exact hor
  | none =>
    rw [h.fetch_absent k v hk]
    simp only [allocate, keys, List.map_append, List.map_cons, List.map_nil, List.mem_append,
      List.mem_singleton]
    exact or_comm

/-- A granted pointer never changes. -/
theorem find_fetch_keeps (h : LazyHeap κ ν) (k k' : κ) (v : ν) (p : Nat)
    (hp : h.find k' = some p) : (h.fetch k v).2.find k' = some p := by
  cases hk : h.find k with
  | some q => rwa [h.fetch_present k v q hk]
  | none =>
    rw [h.fetch_absent k v hk, find_eq_some]
    have hkeys := (h.find_eq_some k' p).mp hp
    have hlt := (List.getElem?_eq_some_iff.mp hkeys).1
    simp only [keys] at hkeys hlt
    simp only [allocate, keys, List.map_append]
    rw [List.getElem?_append_left hlt, hkeys]

theorem find_fetch_self (h : LazyHeap κ ν) (k : κ) (v : ν) :
    (h.fetch k v).2.find k = some (h.fetch k v).1 := by
  cases hk : h.find k with
  | some q => rw [h.fetch_present k v q hk, hk]
  | none =>
    rw [h.fetch_absent k v hk, find_eq_some]
    simp [allocate, keys, ← h.index_length]

theorem find_fetch_of_ne (h : LazyHeap κ ν) (k k' : κ) (v : ν) (hne : k' ≠ k) :
    (h.fetch k v).2.find k' = h.find k' := by
  cases hk' : h.find k' with
  | some p => exact h.find_fetch_keeps k k' v p hk'
  | none =>
    rw [find_eq_none, keys_fetch]
    intro hor
    rcases hor with heq | hm
    · exact hne heq
    · exact (h.find_eq_none k').mp hk' hm

theorem contents_eq_none (h : LazyHeap κ ν) (k : κ) : h.contents k = none ↔ h.find k = none := by
  rw [contents, Option.bind_eq_none_iff]
  constructor
  · intro hn
    by_contra hf
    obtain ⟨p, hp⟩ := Option.ne_none_iff_exists'.mp hf
    have hlt := h.find_lt k p hp
    simpa [hlt] using hn p hp
  · intro hf p hp
    rw [hf] at hp
    simp at hp

theorem contents_fetch_self (h : LazyHeap κ ν) (k : κ) (v : ν) :
    (h.fetch k v).2.contents k = some ((h.contents k).getD v) := by
  cases hk : h.find k with
  | some p =>
    have hlt := h.find_lt k p hk
    rw [h.fetch_present k v p hk]
    simp [contents, hk, hlt]
  | none =>
    have hs := h.find_fetch_self k v
    rw [(h.contents_eq_none k).mpr hk, contents, hs, h.fetch_absent k v hk]
    simp [allocate]

theorem contents_fetch_of_ne (h : LazyHeap κ ν) (k k' : κ) (v : ν) (hne : k' ≠ k) :
    (h.fetch k v).2.contents k' = h.contents k' := by
  rw [contents, contents, h.find_fetch_of_ne k k' v hne]
  cases hk' : h.find k' with
  | none => rfl
  | some p =>
    have hlt := h.find_lt k' p hk'
    cases hk : h.find k with
    | some q => rw [h.fetch_present k v q hk]
    | none =>
      rw [h.fetch_absent k v hk]
      simp [allocate, List.getElem?_append_left hlt]

@[simp] theorem find_set (h : LazyHeap κ ν) (p : Nat) (v : ν) (k : κ) :
    (h.set p v).find k = h.find k := rfl

theorem contents_set (h : LazyHeap κ ν) (k k' : κ) (p : Nat) (v : ν) (hk : h.find k = some p) :
    (h.set p v).contents k' = if k' = k then some v else h.contents k' := by
  have hlt := h.find_lt k p hk
  rw [contents, find_set]
  split_ifs with hkk
  · rw [hkk, hk]
    simp [set, hlt]
  · rw [contents]
    cases hf : h.find k' with
    | none => rfl
    | some q =>
      have hpq : p ≠ q := by
        intro hpq
        rw [← hpq] at hf
        exact hkk (h.find_inj k' k p hf hk)
      simp [set, List.getElem?_set_ne hpq]

end Find

end LazyHeap

end FreeSampler.Framework
