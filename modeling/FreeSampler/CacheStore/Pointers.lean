import FreeSampler.CacheStore.Replacement

namespace FreeSampler

open Framework

namespace Geometry

variable (g : Geometry)

/-- After every run, the pointer for an address goes to the way that the policy gave its line. -/
theorem getCacheLine_tables (ops : List StoreOp) (a : UInt64) :
    (g.store (g.tables ops)).getCacheLine a =
      .ok (if (g.store g.emptyBlocks).Holds (ops.filterMap StoreOp.setAddress) a then
        some (g.block a * g.ways + SlotTable.slot g.ways
          (g.tagsInOrder (g.block a) (ops.filterMap StoreOp.setAddress)) (g.tag a)) else none) := by
  have hkeys := g.keys_tables_inOrder (g.block a) ops
  rw [getCacheLine_eq]
  split_ifs with hheld
  · have hslot := SlotTable.keysAfter_slot g.ways g.ways_pos _ _
      ((SlotTable.mem_keysAfter g.ways g.ways_pos _ _).mp
        ((g.holds_iff g.emptyBlocks _ a).mp hheld))
    rw [← hkeys] at hslot
    rw [(SlotTable.position_iff_key _ _ _).mpr hslot, Option.map_some]
  · have hmiss : g.resident (g.tables ops) a = none := by
      by_contra hres
      exact hheld ((g.resident_iff_holds g.emptyBlocks ops a).mp hres)
    rw [(g.resident_eq_none _ a).mp hmiss, Option.map_none]

/-- A line has one place for the whole run. A client that keeps the pointer to a line finds it there
whenever the line is in the cache at all: also when it was evicted and set again meanwhile. -/
theorem pointer_stable (ops after : List StoreOp) (hf : ∀ op ∈ ops ++ after, op.Fits g) :
    ∃ rs s rs' s', g.runFresh ops = .ok (rs, s) ∧ g.runFresh (ops ++ after) = .ok (rs', s') ∧
      ∀ a cl, s.getCacheLine a = .ok (some cl) → s'.getCacheLine a = .ok
        (if s'.Holds ((ops ++ after).filterMap StoreOp.setAddress) a then some cl else none) := by
  obtain ⟨rs, hr⟩ := g.runFresh_tables ops (fun op hop => hf op (List.mem_append_left _ hop))
  obtain ⟨rs', hr'⟩ := g.runFresh_tables (ops ++ after) hf
  refine ⟨rs, _, rs', _, hr, hr', ?_⟩
  intro a cl hcl
  rw [getCacheLine_tables] at hcl
  split_ifs at hcl with hheld
  · have hmem := SlotTable.mem_of_held _ _ _ ((SlotTable.mem_keysAfter g.ways g.ways_pos _ _).mp
      ((g.holds_iff g.emptyBlocks _ a).mp hheld))
    have hslot : SlotTable.slot g.ways (g.tagsInOrder (g.block a)
        ((ops ++ after).filterMap StoreOp.setAddress)) (g.tag a) = SlotTable.slot g.ways
          (g.tagsInOrder (g.block a) (ops.filterMap StoreOp.setAddress)) (g.tag a) := by
      rw [List.filterMap_append, tagsInOrder, List.filter_append, List.map_append]
      exact SlotTable.slot_append g.ways _ _ _ hmem
    rw [getCacheLine_tables, hslot, Option.some.inj (Except.ok.inj hcl)]
    rfl
  · simp at hcl

/-- The first line of block 0 is evicted by the third one, and gets its way back. -/
theorem pointer_stable_refilled :
    let ops : List StoreOp := [.setDataLine 0x0 [1, 2, 3, 4, 5, 6, 7, 8],
      .setDataLine 0x40 [11, 12, 13, 14, 15, 16, 17, 18]]
    let after : List StoreOp := [.setDataLine 0x80 [21, 22, 23, 24, 25, 26, 27, 28],
      .getDataLine 0x0 [0, 0], .setDataLine 0x4 [1, 2, 3, 4, 5, 6, 7, 8]]
    ∃ rs s rs' s', topRealCache.runFresh ops = .ok (rs, s) ∧
      topRealCache.runFresh (ops ++ after) = .ok (rs', s') ∧
      ∀ a cl, s.getCacheLine a = .ok (some cl) → s'.getCacheLine a =
        .ok (if s'.Holds ((ops ++ after).filterMap StoreOp.setAddress) a then some cl else none) :=
  topRealCache.pointer_stable _ _ (by decide)

end Geometry

end FreeSampler
