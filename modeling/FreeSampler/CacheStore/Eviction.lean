import FreeSampler.CacheStore.Representation

namespace FreeSampler

open Framework

/-- A set of the line of `a` would drop the line of `b`: the line of `a` is not resident, its
block is full, and the block's way 0 holds the line of `b`. -/
def CacheStore.Evicts (s : CacheStore) (a b : UInt64) : Prop :=
  ¬ s.IsResident a ∧
    (∀ w < s.p_NumWays.toNat, ∃ cl, s.way (s.getCacheBlockIndex a) w = some cl ∧
      cl.getEmpty = false) ∧
    s.getCacheBlockIndex b = s.getCacheBlockIndex a ∧
    ∃ cl, s.way (s.getCacheBlockIndex a) 0 = some cl ∧ cl.getTag = s.getCacheTag b

namespace Geometry

variable (g : Geometry) (t : Nat → g.Block) (a b : UInt64) (buf : List UInt32)

theorem evicts_store : (g.store t).Evicts a b ↔
    g.resident t a = none ∧ ¬ (t (g.block a)).slots.length < g.ways ∧ g.block b = g.block a ∧
      (t (g.block a)).position (g.tag b) = some 0 := by
  have hblock := g.getCacheBlockIndex_toNat t a
  have hway (w : Nat) (hw : w < g.ways) : (g.store t).way ((g.store t).getCacheBlockIndex a) w =
      some (g.wayLine (t (g.block a)) w) := by
    rw [g.way_store t _ w (g.getCacheBlockIndex_lt t a) hw, hblock]
  have hfull : (∀ w < g.ways, ∃ cl, (g.store t).way ((g.store t).getCacheBlockIndex a) w = some cl ∧
      cl.getEmpty = false) ↔ ¬ (t (g.block a)).slots.length < g.ways := by
    constructor
    · intro h hlt
      obtain ⟨cl, hcl, he⟩ := h _ hlt
      rw [hway _ hlt] at hcl
      rw [← Option.some.inj hcl, g.wayLine_used] at he
      omega
    · intro h w hw
      exact ⟨_, hway w hw, (g.wayLine_used _ w).mpr (by omega)⟩
  have hzero : (∃ cl, (g.store t).way ((g.store t).getCacheBlockIndex a) 0 = some cl ∧
      cl.getTag = (g.store t).getCacheTag b) ↔
      (t (g.block a)).position (g.tag b) = some 0 := by
    rw [SlotTable.position_eq_some, ← g.wayLine_getTag_iff, hway 0 g.ways_pos]
    simp
  rw [CacheStore.Evicts, store_numWays, hfull, g.getCacheBlockIndex_inj, hzero, isResident_store, not_not]

theorem resident_setLine_evicted (h : (g.store t).Evicts a b) :
    g.resident (g.setLine t a buf) b = none := by
  obtain ⟨hmiss, hfull, hblock, hzero⟩ := (g.evicts_store t a b).mp h
  have hn : g.tag a ∉ (t (g.block a)).keys :=
    ((t (g.block a)).lookup_eq_none _).mp hmiss
  have hne : g.tag b ≠ g.tag a := by
    intro heq
    rw [heq, (g.resident_eq_none t a).mp hmiss] at hzero
    simp at hzero
  rw [resident, setLine, hblock, Function.update_self,
    SlotTable.lookup_put_evicts _ _ _ _ hne hn hfull, if_pos hzero]

theorem resident_setLine_kept (hline : g.lineNumber b ≠ g.lineNumber a)
    (h : ¬ (g.store t).Evicts a b) : g.resident (g.setLine t a buf) b = g.resident t b := by
  rw [resident, setLine]
  by_cases hblock : g.block b = g.block a
  · have hne : g.tag b ≠ g.tag a := fun ht => hline ((g.tag_block_iff b a).mp ⟨ht, hblock⟩)
    rw [hblock, Function.update_self, resident, hblock]
    by_cases hh : g.tag a ∈ (t (g.block a)).keys ∨ (t (g.block a)).slots.length < g.ways
    · exact SlotTable.lookup_put_keeps _ _ _ _ hne hh
    · obtain ⟨hn, hfull⟩ := not_or.mp hh
      have hzero : (t (g.block a)).position (g.tag b) ≠ some 0 := by
        intro hz
        exact h ((g.evicts_store t a b).mpr
          ⟨((t (g.block a)).lookup_eq_none _).mpr hn, hfull, hblock, hz⟩)
      rw [SlotTable.lookup_put_evicts _ _ _ _ hne hn hfull, if_neg hzero]
  · rw [Function.update_of_ne hblock, resident]

end Geometry

end FreeSampler
