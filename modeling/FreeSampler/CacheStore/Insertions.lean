import FreeSampler.CacheStore.Residency

namespace FreeSampler

open Framework

namespace CacheStore

/-- The calls of a run, each with its result. -/
abbrev History := List (StoreOp × StoreResult)

/-- The address whose line a call inserts: that of a set which reports a miss. -/
def inserted : StoreOp × StoreResult → Option UInt64
  | (.setDataLine a _, .set false) => some a
  | _ => none

/-- The same, for the lines of block `i` alone. -/
def insertedIn (s : CacheStore) (i : UInt64) (x : StoreOp × StoreResult) : Option UInt64 :=
  (inserted x).filter (fun b => s.getCacheBlockIndex b == i)

/-- The line of `b` was inserted, and then came the calls `after`. -/
def InsertedBefore (h : History) (b : UInt64) (after : History) : Prop :=
  ∃ before x, h = before ++ x :: after ∧ inserted x = some b

theorem insertedBefore_concat (h : History) (x : StoreOp × StoreResult) (b : UInt64)
    (after : History) : InsertedBefore (h ++ [x]) b after ↔
      (after = [] ∧ inserted x = some b) ∨ ∃ rest, after = rest ++ [x] ∧ InsertedBefore h b rest := by
  constructor
  · intro hins
    obtain ⟨before, y, hb, hy⟩ := hins
    cases after using List.reverseRecOn with
    | nil =>
      have hx := List.singleton_inj.mp (List.append_inj' hb rfl).2
      exact Or.inl ⟨rfl, by rw [hx]; exact hy⟩
    | append_singleton rest z =>
      rw [← List.cons_append, ← List.append_assoc] at hb
      obtain ⟨hh, hz⟩ := List.append_inj' hb rfl
      exact Or.inr ⟨rest, by rw [List.singleton_inj.mp hz], before, y, hh, hy⟩
  · intro hins
    rcases hins with ⟨rfl, hx⟩ | ⟨rest, rfl, before, y, rfl, hy⟩
    · exact ⟨h, x, rfl, hx⟩
    · exact ⟨before, y, by simp, hy⟩

end CacheStore

namespace Geometry

open CacheStore

variable (g : Geometry)

/-- The tag that a call inserts in block `i`. -/
def insertedTag (i : Nat) (x : StoreOp × StoreResult) : Option Tag :=
  ((inserted x).filter (fun b => g.block b == i)).map g.tag

theorem insertedTag_eq_some (i : Nat) (x : StoreOp × StoreResult) (k : Tag) :
    g.insertedTag i x = some k ↔ ∃ b, inserted x = some b ∧ g.block b = i ∧ g.tag b = k := by
  simp only [insertedTag, Option.map_eq_some_iff, Option.filter_eq_some_iff, beq_iff_eq, and_assoc]

theorem insertedTag_of_inserted (i : Nat) (x : StoreOp × StoreResult) (b : UInt64)
    (h : inserted x = some b) :
    g.insertedTag i x = if g.block b = i then some (g.tag b) else none := by
  rw [insertedTag, h]
  split_ifs with hb
  · simp [hb]
  · simp [hb]

theorem insertedIn_map (t : Nat → g.Block) (i : UInt64) (x : StoreOp × StoreResult) :
    ((g.store t).insertedIn i x).map g.tag = g.insertedTag i.toNat x := by
  have hp : (fun b => (g.store t).getCacheBlockIndex b == i) = fun b => g.block b == i.toNat := by
    funext b
    exact Bool.eq_iff_iff.mpr (by simpa using g.getCacheBlockIndex_eq_iff t b i)
  rw [insertedIn, insertedTag, hp]

theorem insertedIn_none (t : Nat → g.Block) (a : UInt64) (x : StoreOp × StoreResult) :
    (g.store t).insertedIn ((g.store t).getCacheBlockIndex a) x = none ↔
      g.insertedTag (g.block a) x = none := by
  rw [← g.getCacheBlockIndex_toNat t a, ← g.insertedIn_map t, Option.map_eq_none_iff]

theorem insertedIn_length (t : Nat → g.Block) (a : UInt64) (h : History) :
    (h.filterMap ((g.store t).insertedIn ((g.store t).getCacheBlockIndex a))).length =
      (h.filterMap (g.insertedTag (g.block a))).length := by
  rw [← List.length_map g.tag, List.map_filterMap, ← g.getCacheBlockIndex_toNat t a]
  exact congrArg (fun p => (h.filterMap p).length) (funext (g.insertedIn_map t _))

/-- Every block holds what its misses left. -/
def FilledInOrder (h : History) (t : Nat → g.Block) : Prop :=
  ∀ i, SlotTable.FilledBy g.ways (h.filterMap (g.insertedTag i)) (t i).keys

theorem filledInOrder_nil : g.FilledInOrder [] g.emptyBlocks := fun _ => SlotTable.filledBy_nil _

theorem filledInOrder_concat (h : History) (t t' : Nat → g.Block) (x : StoreOp × StoreResult)
    (hx : inserted x = none) (hkeys : ∀ i, (t' i).keys = (t i).keys) (hfilled : g.FilledInOrder h t) :
    g.FilledInOrder (h ++ [x]) t' := by
  intro i
  have hnone : g.insertedTag i x = none := by
    rw [insertedTag, hx]
    rfl
  rw [hkeys i, filterMap_concat, hnone, Option.toList_none, List.append_nil]
  exact hfilled i

theorem filledInOrder_miss (h : History) (t : Nat → g.Block) (a : UInt64) (buf : List UInt32)
    (hmiss : g.resident t a = none) (hfilled : g.FilledInOrder h t) :
    g.FilledInOrder (h ++ [(.setDataLine a buf, .set false)]) (g.setLine t a buf) := by
  intro i
  rw [filterMap_concat, keys_setLine, g.insertedTag_of_inserted i _ a rfl]
  by_cases hi : i = g.block a
  · rw [if_pos hi, if_pos hi.symm]
    have hk : g.tag a ∉ (t i).keys := by
      rw [hi]
      exact ((t (g.block a)).lookup_eq_none _).mp hmiss
    exact (hfilled i).put _ _ _ hk g.ways_pos
  · rw [if_neg hi, if_neg (Ne.symm hi), Option.toList_none, List.append_nil]
    exact hfilled i

theorem filledInOrder_step (h : History) (t : Nat → g.Block) (op : StoreOp) (r : StoreResult)
    (v : CacheStore) (hf : op.Fits g) (hfilled : g.FilledInOrder h t)
    (hs : (g.store t).step op = .ok (r, v)) :
    ∃ t', v = g.store t' ∧ g.FilledInOrder (h ++ [(op, r)]) t' := by
  cases op with
  | setDataLine a buf =>
    rw [CacheStore.step, g.setDataLine_eq t a buf hf, ok_bind] at hs
    obtain ⟨rfl, rfl⟩ := ok_inj hs
    refine ⟨_, rfl, ?_⟩
    cases hr : g.resident t a with
    | none => exact g.filledInOrder_miss h t a buf hr hfilled
    | some e =>
      refine g.filledInOrder_concat h t _ _ rfl ?_ hfilled
      intro i
      rw [keys_setLine]
      split_ifs with hi
      · rw [hi]
        exact SlotTable.putKeys_of_mem _ _ (((t (g.block a)).lookup_isSome _).mp ⟨e, hr⟩)
      · rfl
  | getDataLine a buf =>
    simp only [CacheStore.step, bind_eq_ok, Prod.exists] at hs
    obtain ⟨hit, out, _, hr⟩ := hs
    obtain ⟨rfl, rfl⟩ := ok_inj hr
    exact ⟨t, rfl, g.filledInOrder_concat h t t _ rfl (fun _ => rfl) hfilled⟩
  | invalidate a =>
    rw [CacheStore.step, g.invalidate_eq, ok_bind] at hs
    obtain ⟨rfl, rfl⟩ := ok_inj hs
    exact ⟨_, rfl, g.filledInOrder_concat h t _ _ rfl (g.keys_invalidateLine t a) hfilled⟩

end Geometry

end FreeSampler
