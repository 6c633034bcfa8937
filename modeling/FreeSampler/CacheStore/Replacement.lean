import FreeSampler.CacheStore.Blocks
import FreeSampler.CacheStore.Residency
import FreeSampler.Framework.Replacement

namespace FreeSampler

open Framework

namespace CacheStore

/-- The lines of block `i` among the lines of some addresses, in their order. -/
def linesInOrder (s : CacheStore) (i : UInt64) (as : List UInt64) : List UInt64 :=
  (as.filter (fun a => s.getCacheBlockIndex a == i)).map s.getLineAddress

/-- The line of an address is one that the replacement policy holds after sets of some addresses:
it is pinned in its block, or the last line set there that is not. -/
def Holds (s : CacheStore) (as : List UInt64) (a : UInt64) : Prop :=
  SlotTable.Held s.p_NumWays.toNat (s.linesInOrder (s.getCacheBlockIndex a) as) (s.getLineAddress a)

instance (s : CacheStore) (as : List UInt64) (a : UInt64) : Decidable (s.Holds as a) :=
  inferInstanceAs (Decidable (SlotTable.Held _ _ _))

/-- A line that no later set drops. -/
def Pinned (s : CacheStore) (as : List UInt64) (a : UInt64) : Prop :=
  s.getLineAddress a ∈
    SlotTable.pinned s.p_NumWays.toNat (s.linesInOrder (s.getCacheBlockIndex a) as)

instance (s : CacheStore) (as : List UInt64) (a : UInt64) : Decidable (s.Pinned as a) :=
  inferInstanceAs (Decidable (_ ∈ _))

/-- Hit or miss, by the lines that the policy holds. -/
def HitsHeld (s : CacheStore) (before : List StoreOp) (r : StoreResult) : StoreOp → Prop
  | .setDataLine a _ => r = .set (decide (s.Holds (before.filterMap StoreOp.setAddress) a))
  | .getDataLine a _ =>
    ∃ out, r = .get (decide (s.Holds (before.filterMap StoreOp.setAddress) a)) out
  | .invalidate _ => r = .invalidated

end CacheStore

namespace Geometry

variable (g : Geometry)

def tagsInOrder (i : Nat) (as : List UInt64) : List Tag :=
  (as.filter (fun a => g.block a == i)).map g.tag

theorem tagsInOrder_concat (i : Nat) (as : List UInt64) (a : UInt64) :
    g.tagsInOrder i (as ++ [a]) =
      if g.block a = i then g.tagsInOrder i as ++ [g.tag a] else g.tagsInOrder i as := by
  split_ifs with hb
  · simp [tagsInOrder, hb]
  · simp [tagsInOrder, hb]

/-- A block holds what the policy keeps of the tags set in it, way by way. -/
theorem keys_tables_inOrder (i : Nat) (ops : List StoreOp) : (g.tables ops i).keys =
    SlotTable.keysAfter g.ways (g.tagsInOrder i (ops.filterMap StoreOp.setAddress)) := by
  induction ops using List.reverseRecOn with
  | nil => rfl
  | append_singleton ops op ih =>
    rw [tables_concat, List.filterMap_append]
    cases op with
    | setDataLine a buf =>
      simp only [List.filterMap_cons, StoreOp.setAddress, List.filterMap_nil]
      rw [next, keys_setLine, tagsInOrder_concat]
      by_cases hb : g.block a = i
      · rw [if_pos hb, if_pos hb.symm, SlotTable.keysAfter_concat, ih]
      · rw [if_neg hb, if_neg (Ne.symm hb), ih]
    | getDataLine a buf =>
      simp only [List.filterMap_cons, StoreOp.setAddress, List.filterMap_nil, List.append_nil]
      exact ih
    | invalidate a =>
      simp only [List.filterMap_cons, StoreOp.setAddress, List.filterMap_nil, List.append_nil]
      rw [next, keys_invalidateLine]
      exact ih

/-- Lines and tags of one block are held alike. -/
theorem holds_iff (t : Nat → g.Block) (as : List UInt64) (a : UInt64) :
    (g.store t).Holds as a ↔
      g.tag a ∈ SlotTable.keysAfter g.ways (g.tagsInOrder (g.block a) as) := by
  have hfilter : as.filter (fun b => (g.store t).getCacheBlockIndex b ==
      (g.store t).getCacheBlockIndex a) = as.filter (fun b => g.block b == g.block a) := by
    apply List.filter_congr
    intro b _
    exact Bool.eq_iff_iff.mpr (by simpa using g.getCacheBlockIndex_inj t b a)
  have hblock (b : UInt64) (hb : b ∈ a :: as.filter (fun b => g.block b == g.block a)) :
      g.block b = g.block a := by
    rcases List.mem_cons.mp hb with rfl | hmem
    · rfl
    · simpa using (List.mem_filter.mp hmem).2
  rw [CacheStore.Holds, CacheStore.linesInOrder, hfilter, store_numWays,
    SlotTable.mem_keysAfter _ g.ways_pos]
  apply SlotTable.held_map _ g.ways_pos
  intro b hb c hc
  exact g.getLineAddress_eq_iff_tag t b c ((hblock b hb).trans (hblock c hc).symm)

theorem resident_iff_holds (t : Nat → g.Block) (ops : List StoreOp) (a : UInt64) :
    g.resident (g.tables ops) a ≠ none ↔
      (g.store t).Holds (ops.filterMap StoreOp.setAddress) a := by
  rw [holds_iff, ← keys_tables_inOrder, Option.ne_none_iff_exists', resident]
  exact SlotTable.lookup_isSome _ _

theorem blockGet_flag (b : g.Block) (a : UInt64) (buf : List UInt32) :
    ∃ out, g.blockGet b a buf = .get (b.lookup (g.tag a)).isSome out := by
  rw [blockGet]
  cases b.lookup (g.tag a) with
  | none => exact ⟨some buf, rfl⟩
  | some e => exact ⟨_, rfl⟩

/-- One call hits exactly when the policy holds its line. -/
theorem step_hitsHeld (t : Nat → g.Block) (before : List StoreOp) (op : StoreOp)
    (hf : op.Fits g) :
    ∃ r, (g.store (g.tables before)).step op = .ok (r, g.store (g.tables (before ++ [op]))) ∧
      (g.store t).HitsHeld before r op := by
  rw [tables_concat]
  cases op with
  | setDataLine a buf =>
    have hheld := g.resident_iff_holds t before a
    rw [← Option.isSome_iff_ne_none] at hheld
    refine ⟨.set (g.resident (g.tables before) a).isSome, ?_, ?_⟩
    · rw [CacheStore.step, g.setDataLine_eq _ a buf hf]
      rfl
    · rw [CacheStore.HitsHeld, Bool.eq_iff_iff.mpr (hheld.trans decide_eq_true_iff.symm)]
  | getDataLine a buf =>
    have hheld := g.resident_iff_holds t before a
    rw [← Option.isSome_iff_ne_none] at hheld
    obtain ⟨out, hout⟩ := g.blockGet_flag (g.tables before (g.block a)) a buf
    refine ⟨_, g.step_getDataLine _ a buf hf, out, ?_⟩
    rw [hout, ← Bool.eq_iff_iff.mpr (hheld.trans decide_eq_true_iff.symm)]
    rfl
  | invalidate a =>
    refine ⟨.invalidated, ?_, rfl⟩
    rw [CacheStore.step, g.invalidate_eq]
    rfl

/-- The replacement policy in closed form. After every run, a line is resident exactly when it is
one of the first `p_NumWays` distinct lines set in its block, but for the very first, or the last
line set there that is none of these; and every call before hit or missed accordingly. -/
theorem run_hitsHeld (ops : List StoreOp) (hf : ∀ op ∈ ops, op.Fits g) :
    ∃ rs s, g.runFresh ops = .ok (rs, s) ∧
      (∀ a, s.IsResident a ↔ s.Holds (ops.filterMap StoreOp.setAddress) a) ∧
      EveryStep (fun h x => s.HitsHeld (h.map Prod.fst) x.2 x.1) (ops.zip rs) := by
  have hstep (op : StoreOp) (hop : op ∈ ops) (h : List (StoreOp × StoreResult)) (u : CacheStore)
      (hu : u = g.store (g.tables (h.map Prod.fst))) : ∃ r v, u.step op = .ok (r, v) ∧
        v = g.store (g.tables ((h ++ [(op, r)]).map Prod.fst)) ∧
        (g.store g.emptyBlocks).HitsHeld (h.map Prod.fst) r op := by
    obtain ⟨r, hs, hheld⟩ := g.step_hitsHeld g.emptyBlocks (h.map Prod.fst) op (hf op hop)
    refine ⟨r, _, hu ▸ hs, ?_, hheld⟩
    rw [List.map_append, List.map_singleton]
  obtain ⟨rs, s, hr, hend, hall⟩ := run_answered CacheStore.step
    (fun h s => s = g.store (g.tables (h.map Prod.fst)))
    (fun h x => (g.store g.emptyBlocks).HitsHeld (h.map Prod.fst) x.2 x.1)
    (g.store g.emptyBlocks) ops hstep rfl
  have hfst : (ops.zip rs).map Prod.fst = ops := List.map_fst_zip (run_length _ _ _ _ _ hr).ge
  rw [hfst] at hend
  refine ⟨rs, s, ?_, ?_, ?_⟩
  · rw [runFresh, CacheStore.runFresh, g.construct_eq]
    exact hr
  · intro a
    rw [hend, g.isResident_store]
    exact g.resident_iff_holds _ ops a
  · rw [hend]
    exact hall

/-- Three lines of block 0 in its two ways: the second one is pinned, the third one took the place
of the first, and takes it again. -/
theorem run_hitsHeld_conflicts :
    let ops : List StoreOp := [.setDataLine 0x0 [1, 2, 3, 4, 5, 6, 7, 8],
      .setDataLine 0x40 [11, 12, 13, 14, 15, 16, 17, 18],
      .setDataLine 0x80 [21, 22, 23, 24, 25, 26, 27, 28], .getDataLine 0x0 [0, 0],
      .setDataLine 0x0 [1, 2, 3, 4, 5, 6, 7, 8], .getDataLine 0x40 [0, 0], .invalidate 0x40]
    ∃ rs s, topRealCache.runFresh ops = .ok (rs, s) ∧
      (∀ a, s.IsResident a ↔ s.Holds (ops.filterMap StoreOp.setAddress) a) ∧
      EveryStep (fun h x => s.HitsHeld (h.map Prod.fst) x.2 x.1) (ops.zip rs) :=
  topRealCache.run_hitsHeld _ (by decide)

/-- A pinned line stays resident through every continuation of the run. -/
theorem pinned_stays (ops after : List StoreOp) (hf : ∀ op ∈ ops ++ after, op.Fits g)
    (a : UInt64) (hp : (g.store g.emptyBlocks).Pinned (ops.filterMap StoreOp.setAddress) a) :
    ∃ rs s, g.runFresh (ops ++ after) = .ok (rs, s) ∧ s.IsResident a := by
  obtain ⟨rs, hr⟩ := g.runFresh_tables (ops ++ after) hf
  refine ⟨rs, _, hr, ?_⟩
  rw [g.isResident_store, g.resident_iff_holds g.emptyBlocks, List.filterMap_append]
  left
  rw [CacheStore.linesInOrder, List.filter_append, List.map_append]
  exact SlotTable.pinned_append _ _ _ _ hp

/-- The second line of block 0, through the traffic of two others and its own invalidation. -/
theorem pinned_stays_second :
    let ops : List StoreOp := [.setDataLine 0x0 [1, 2, 3, 4, 5, 6, 7, 8],
      .setDataLine 0x40 [11, 12, 13, 14, 15, 16, 17, 18]]
    let after : List StoreOp := [.setDataLine 0x80 [21, 22, 23, 24, 25, 26, 27, 28],
      .invalidate 0x40, .setDataLine 0x0 [1, 2, 3, 4, 5, 6, 7, 8]]
    ∃ rs s, topRealCache.runFresh (ops ++ after) = .ok (rs, s) ∧ s.IsResident 0x44 :=
  topRealCache.pinned_stays _ _ (by decide) 0x44 (by decide)

end Geometry

end FreeSampler
