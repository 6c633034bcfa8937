import FreeSampler.CacheStore.Representation

namespace FreeSampler

open Framework

namespace CacheStore

/-- Some way of block `i` holds a line with a property. -/
def SomeWay (s : CacheStore) (i : UInt64) (p : CacheLine → Bool) : Prop :=
  ∃ w, w < s.p_NumWays.toNat ∧ (s.way i w).any p = true

instance (s : CacheStore) (i : UInt64) (p : CacheLine → Bool) : Decidable (s.SomeWay i p) :=
  inferInstanceAs (Decidable (∃ w, w < _ ∧ _ = true))

/-- A way that is empty, or that has been invalidated. -/
def HasFreeWay (s : CacheStore) (i : UInt64) : Prop :=
  s.SomeWay i (fun cl => cl.getEmpty || !cl.getValid)

instance (s : CacheStore) (i : UInt64) : Decidable (s.HasFreeWay i) :=
  inferInstanceAs (Decidable (s.SomeWay i _))

/-- Every valid line of block `i` is still in it, with its tag, its flag and its data. -/
def KeepsValid (s s' : CacheStore) (i : UInt64) : Prop :=
  ∀ w cl, w < s.p_NumWays.toNat → s.way i w = some cl → cl.getValid = true →
    s'.SomeWay i (fun cl' => cl' == cl)

/-- A set in a block with a free way drops none of the block's valid lines. -/
def ReusesFreeWay (s : CacheStore) (a : UInt64) (fromBuffer : List UInt32) : Prop :=
  s.HasFreeWay (s.getCacheBlockIndex a) →
    ∃ hit s', s.setDataLine a (some fromBuffer) = .ok (hit, s') ∧
      s.KeepsValid s' (s.getCacheBlockIndex a)

/-- Block `i` has an empty way, or its way 0 is not valid, or none of its ways is free. -/
def FreeWayFirst (s : CacheStore) (i : UInt64) : Prop :=
  s.SomeWay i CacheLine.getEmpty ∨ (s.way i 0).any CacheLine.getValid = false ∨ ¬ s.HasFreeWay i

instance (s : CacheStore) (i : UInt64) : Decidable (s.FreeWayFirst i) :=
  inferInstanceAs (Decidable (_ ∨ _ ∨ _))

end CacheStore

namespace Geometry

variable (g : Geometry)

theorem someWay_store (t : Nat → g.Block) (i : UInt64) (p : CacheLine → Bool)
    (hi : i.toNat < g.blocks) :
    (g.store t).SomeWay i p ↔ ∃ w, w < g.ways ∧ p (g.wayLine (t i.toNat) w) = true := by
  rw [CacheStore.SomeWay, store_numWays]
  apply exists_congr
  intro w
  apply and_congr_right
  intro hw
  rw [g.way_store t i w hi hw, Option.any_some]

theorem someWay_empty (t : Nat → g.Block) (i : UInt64) (hi : i.toNat < g.blocks) :
    (g.store t).SomeWay i CacheLine.getEmpty ↔ (t i.toNat).slots.length < g.ways := by
  rw [g.someWay_store t i _ hi]
  constructor
  · intro h
    obtain ⟨w, hw, he⟩ := h
    by_contra hfull
    have hu := (g.wayLine_used (t i.toNat) w).mpr (by omega)
    rw [he] at hu
    simp at hu
  · intro h
    refine ⟨_, h, ?_⟩
    rw [← Bool.not_eq_false]
    intro hu
    have hlt := (g.wayLine_used (t i.toNat) _).mp hu
    omega

/-- A line that a miss brings in replaces the line of its target way, and that line is nowhere
else in the block. -/
theorem wayLine_dropped (b : g.Block) (k : Tag) (e : Entry g.lineBytes)
    (hmiss : b.position k = none) (hv : (g.wayLine b (b.target k)).getValid = true) (w : Nat) :
    g.wayLine (b.put k e) w ≠ g.wayLine b (b.target k) := by
  have hused := (g.wayLine_used b _).mp (g.wayLine_valid b _ hv)
  rw [wayLine_put]
  intro heq
  split_ifs at heq with hw
  · obtain ⟨old, hold⟩ := (g.wayLine_getTag_iff b k (b.target k)).mp (by rw [← heq]; rfl)
    have hp := (b.position_eq_some k _).mpr ⟨old, hold⟩
    rw [hmiss] at hp
    simp at hp
  · have hw' := g.wayLine_valid b w (by rw [heq]; exact hv)
    exact hw (g.wayLine_tag_inj b w _ ((g.wayLine_used b w).mp hw') hused (by rw [heq]))

/-- A miss keeps the valid lines of its block exactly when its target way holds none. -/
theorem keepsValid_iff (t : Nat → g.Block) (a : UInt64) (buf : List UInt32)
    (hmiss : (t (g.block a)).position (g.tag a) = none) :
    (g.store t).KeepsValid (g.store (g.setLine t a buf)) ((g.store t).getCacheBlockIndex a) ↔
      (g.wayLine (t (g.block a)) ((t (g.block a)).target (g.tag a))).getValid = false := by
  have hindex := g.getCacheBlockIndex_toNat t a
  have hi := g.getCacheBlockIndex_lt t a
  have hput : g.setLine t a buf (g.block a) = (t (g.block a)).put (g.tag a) (g.loaded buf) :=
    Function.update_self ..
  constructor
  · intro h
    rw [← Bool.not_eq_true]
    intro hv
    have hlt := (t (g.block a)).target_lt (g.tag a) g.ways_pos
    have hkept := h _ _ (by rw [store_numWays]; exact hlt) (g.way_store t _ _ hi hlt)
      (by rw [hindex]; exact hv)
    obtain ⟨w, _, heq⟩ := (g.someWay_store _ _ _ hi).mp hkept
    rw [hindex, hput, beq_iff_eq] at heq
    exact g.wayLine_dropped _ _ _ hmiss hv w heq
  · intro h w cl hw hcl hv
    rw [store_numWays] at hw
    rw [g.way_store t _ w hi hw, hindex] at hcl
    rw [← Option.some.inj hcl] at hv ⊢
    have hne : w ≠ (t (g.block a)).target (g.tag a) := by
      intro heq
      rw [heq, h] at hv
      simp at hv
    apply (g.someWay_store _ _ _ hi).mpr
    refine ⟨w, hw, ?_⟩
    rw [hindex, hput, wayLine_put, if_neg hne, beq_self_eq_true]

theorem reusesFreeWay_store (t : Nat → g.Block) (a : UInt64) (buf : List UInt32)
    (hmiss : ¬ (g.store t).IsResident a) (hfit : g.lineBytes ≤ buf.length) :
    (g.store t).ReusesFreeWay a buf ↔
      (g.store t).FreeWayFirst ((g.store t).getCacheBlockIndex a) := by
  rw [isResident_store, not_not, resident_eq_none] at hmiss
  have hindex := g.getCacheBlockIndex_toNat t a
  have hi := g.getCacheBlockIndex_lt t a
  have hset : (∃ hit s', (g.store t).setDataLine a (some buf) = .ok (hit, s') ∧
      (g.store t).KeepsValid s' ((g.store t).getCacheBlockIndex a)) ↔
      (g.wayLine (t (g.block a)) ((t (g.block a)).target (g.tag a))).getValid = false := by
    rw [← g.keepsValid_iff t a buf hmiss, g.setDataLine_eq t a buf hfit]
    simp
  have htarget : (g.wayLine (t (g.block a)) ((t (g.block a)).target (g.tag a))).getValid = false ↔
      (g.store t).SomeWay ((g.store t).getCacheBlockIndex a) CacheLine.getEmpty ∨
      ((g.store t).way ((g.store t).getCacheBlockIndex a) 0).any CacheLine.getValid = false := by
    rw [g.someWay_empty t _ hi, g.way_store t _ 0 hi g.ways_pos, hindex, Option.any_some]
    simp only [SlotTable.target, hmiss, Option.getD_none]
    by_cases hroom : (t (g.block a)).slots.length < g.ways
    · rw [if_pos hroom]
      refine iff_of_true ?_ (Or.inl hroom)
      rw [← Bool.not_eq_true]
      intro hv
      have hlt := (g.wayLine_used _ _).mp (g.wayLine_valid _ _ hv)
      omega
    · rw [if_neg hroom]
      exact (or_iff_right hroom).symm
  rw [CacheStore.ReusesFreeWay, CacheStore.FreeWayFirst, hset, htarget]
  tauto

/-- In every reachable store, a missing set keeps the valid lines of a block with a free way
exactly when one of its ways is empty, or its way 0 is not valid. -/
theorem freeWays_reused_iff (ops : List StoreOp) (hf : ∀ op ∈ ops, op.Fits g) :
    ∃ rs s, g.runFresh ops = .ok (rs, s) ∧
      ∀ a fromBuffer, ¬ s.IsResident a → g.lineBytes ≤ fromBuffer.length →
        (s.ReusesFreeWay a fromBuffer ↔ s.FreeWayFirst (s.getCacheBlockIndex a)) := by
  obtain ⟨rs, hr⟩ := g.runFresh_tables ops hf
  exact ⟨rs, _, hr, fun a buf hmiss hfit => g.reusesFreeWay_store _ a buf hmiss hfit⟩

/-- Block 0 is full, and the line of its way 0 has been invalidated. -/
theorem freeWays_reused_iff_way_zero :
    ∃ rs s, topRealCache.runFresh [.setDataLine 0x0 [1, 2, 3, 4, 5, 6, 7, 8],
        .setDataLine 0x10000 [11, 12, 13, 14, 15, 16, 17, 18], .invalidate 0x0] = .ok (rs, s) ∧
      ∀ a fromBuffer, ¬ s.IsResident a → topRealCache.lineBytes ≤ fromBuffer.length →
        (s.ReusesFreeWay a fromBuffer ↔ s.FreeWayFirst (s.getCacheBlockIndex a)) :=
  topRealCache.freeWays_reused_iff _ (by decide)

/-- Block 0 is full, and the line of its way 1 has been invalidated: the next set drops the
valid line of way 0. -/
theorem freeWay_passed_over :
    ∃ rs s, topRealCache.runFresh [.setDataLine 0x0 [1, 2, 3, 4, 5, 6, 7, 8],
        .setDataLine 0x10000 [11, 12, 13, 14, 15, 16, 17, 18], .invalidate 0x10000] = .ok (rs, s) ∧
      ¬ s.IsResident 0x20000 ∧
      ¬ s.ReusesFreeWay 0x20000 [21, 22, 23, 24, 25, 26, 27, 28] := by
  obtain ⟨rs, hr⟩ := topRealCache.runFresh_tables [.setDataLine 0x0 [1, 2, 3, 4, 5, 6, 7, 8],
    .setDataLine 0x10000 [11, 12, 13, 14, 15, 16, 17, 18], .invalidate 0x10000] (by decide)
  have hmiss : ¬ (topRealCache.store (topRealCache.tables [.setDataLine 0x0 [1, 2, 3, 4, 5, 6, 7, 8],
      .setDataLine 0x10000 [11, 12, 13, 14, 15, 16, 17, 18], .invalidate 0x10000])).IsResident
        0x20000 := by decide +kernel
  refine ⟨rs, _, hr, hmiss, ?_⟩
  rw [topRealCache.reusesFreeWay_store _ _ _ hmiss (by decide)]
  decide +kernel

end Geometry

end FreeSampler
