import FreeSampler.CacheStore.Addresses
import FreeSampler.CacheStore.Runs

namespace FreeSampler

open Framework

namespace CacheStore

/-- Way `w` of block `i`. -/
def way (s : CacheStore) (i : UInt64) (w : Nat) : Option CacheLine :=
  s.m_cacheLines[s.getCacheBlock i + w]?

/-- What holds of block `i` after a history of calls, when its first `k` ways are in use. -/
structure BlockInvariant (s : CacheStore) (ops : List StoreOp) (i : UInt64) (k : Nat) : Prop where
  ways_exist : ∀ w < s.p_NumWays.toNat, ∃ cl, s.way i w = some cl
  tags_distinct : ∀ v w cl cl', v < s.p_NumWays.toNat → w < s.p_NumWays.toNat →
    s.way i v = some cl → s.way i w = some cl' → cl.getEmpty = false → cl'.getEmpty = false →
    cl.getTag = cl'.getTag → v = w
  used_prefix : ∀ w cl, w < s.p_NumWays.toNat → s.way i w = some cl →
    (cl.getEmpty = false ↔ w < k)
  empty_iff_unloaded : ∀ w cl, w < s.p_NumWays.toNat → s.way i w = some cl →
    (cl.getEmpty = true ↔ cl.data = none)
  valid_used : ∀ w cl, w < s.p_NumWays.toNat → s.way i w = some cl →
    cl.getValid = true → cl.getEmpty = false
  tag_stored : ∀ w cl, w < s.p_NumWays.toNat → s.way i w = some cl → cl.getEmpty = false →
    ∃ a fromBuffer, .setDataLine a fromBuffer ∈ ops ∧
      s.getLineAddress a = (cl.getTag <<< s.m_bitShiftForCacheTag) ||| (i <<< s.m_bitsForLine)

end CacheStore

namespace Geometry

variable (g : Geometry)

theorem way_store (t : Nat → g.Block) (i : UInt64) (w : Nat) (hi : i.toNat < g.blocks)
    (hw : w < g.ways) : (g.store t).way i w = some (g.wayLine (t i.toNat) w) := by
  rw [CacheStore.way, g.getCacheBlock_toNat t i hi]
  exact g.lines_getElem? t i.toNat w hi hw

theorem wayLine_used (b : g.Block) (w : Nat) :
    (g.wayLine b w).getEmpty = false ↔ w < b.slots.length := by
  unfold wayLine
  cases hs : b.slots[w]? with
  | none =>
    have hw := List.getElem?_eq_none_iff.mp hs
    simp only [CacheLine.getEmpty, CacheLine.new, beq_self_eq_true, Bool.true_eq_false, false_iff]
    omega
  | some p =>
    have hw := (List.getElem?_eq_some_iff.mp hs).1
    have hk := p.1.2
    simp [CacheLine.getEmpty, hk, hw]

theorem wayLine_empty_iff (b : g.Block) (w : Nat) :
    (g.wayLine b w).getEmpty = true ↔ (g.wayLine b w).data = none := by
  unfold wayLine
  cases hs : b.slots[w]? with
  | none => simp [CacheLine.getEmpty, CacheLine.new]
  | some p =>
    have hk := p.1.2
    simp [CacheLine.getEmpty, hk]

theorem wayLine_valid (b : g.Block) (w : Nat) (h : (g.wayLine b w).getValid = true) :
    (g.wayLine b w).getEmpty = false := by
  unfold wayLine at h ⊢
  cases hs : b.slots[w]? with
  | none => simp [hs, CacheLine.getValid, CacheLine.new] at h
  | some p =>
    have hk := p.1.2
    simp [CacheLine.getEmpty, hk]

theorem wayLine_key (b : g.Block) (w : Nat) (h : w < b.slots.length) :
    ∃ k ∈ b.keys, b.keys[w]? = some k ∧ (g.wayLine b w).getTag = k.1 := by
  refine ⟨b.slots[w].1, ?_, ?_, ?_⟩
  · exact List.mem_map_of_mem (List.getElem_mem h)
  · simp [SlotTable.keys, h]
  · simp [wayLine, h, CacheLine.getTag]

theorem wayLine_tag_inj (b : g.Block) (v w : Nat) (hv : v < b.slots.length)
    (hw : w < b.slots.length) (h : (g.wayLine b v).getTag = (g.wayLine b w).getTag) : v = w := by
  obtain ⟨k, _, hk, htk⟩ := g.wayLine_key b v hv
  obtain ⟨l, _, hl, htl⟩ := g.wayLine_key b w hw
  have hkl : k = l := Subtype.ext (htk.symm.trans (h.trans htl))
  have hlen : v < b.keys.length := by simpa [SlotTable.keys] using hv
  exact (List.getElem?_inj hlen b.nodup).mp (by rw [hk, hl, hkl])

/-- Every key of every block was brought in by a set. -/
def KeysStored (ops : List StoreOp) (t : Nat → g.Block) : Prop :=
  ∀ i, ∀ k ∈ (t i).keys, ∃ a fromBuffer,
    .setDataLine a fromBuffer ∈ ops ∧ g.block a = i ∧ g.tag a = k

theorem keysStored_next (ops : List StoreOp) (t : Nat → g.Block) (op : StoreOp)
    (h : g.KeysStored ops t) : g.KeysStored (ops ++ [op]) (g.next t op) := by
  have hold (i : Nat) (k : Tag) (hk : k ∈ (t i).keys) : ∃ a fromBuffer,
      StoreOp.setDataLine a fromBuffer ∈ ops ++ [op] ∧ g.block a = i ∧ g.tag a = k := by
    obtain ⟨a, buf, hm, hb, ht⟩ := h i k hk
    exact ⟨a, buf, List.mem_append_left _ hm, hb, ht⟩
  intro i k hk
  obtain he | ⟨a, buf, rfl, rfl, he⟩ | ⟨a, rfl, rfl, he⟩ := g.next_block t op i
  · rw [he] at hk
    exact hold i k hk
  · rw [he] at hk
    rcases SlotTable.mem_keys_put _ _ _ _ hk with hk | hk
    · exact ⟨a, buf, by simp, rfl, hk.symm⟩
    · exact hold _ k hk
  · rw [he, SlotTable.keys_modify] at hk
    exact hold _ k hk

theorem keysStored_tables (ops : List StoreOp) : g.KeysStored ops (g.tables ops) := by
  induction ops using List.reverseRecOn with
  | nil =>
    intro i k hk
    simp [emptyBlocks, SlotTable.empty, SlotTable.keys] at hk
  | append_singleton ops op ih =>
    rw [tables_concat]
    exact g.keysStored_next ops _ op ih

theorem getLineAddress_eq_or (t : Nat → g.Block) (a i : UInt64) (hi : i.toNat = g.block a) :
    (g.store t).getLineAddress a =
      ((g.tag a).1 <<< (g.store t).m_bitShiftForCacheTag) ||| (i <<< (g.store t).m_bitsForLine) := by
  have hjoin := g.joined_toNat t (g.tag a).1 i 0 (g.tagValue_lt a) (hi ▸ g.block_lt a)
    (Nat.two_pow_pos g.lineBits)
  rw [UInt64.or_zero, hi] at hjoin
  apply UInt64.toNat_inj.mp
  rw [hjoin, getLineAddress_toNat, Geometry.tag, tagValue_field, joinFields, topField, block, lineNumber]
  show a.toNat / g.lineBytes * g.lineBytes =
    (a.toNat / g.lineBytes / g.blocks * g.blocks + a.toNat / g.lineBytes % g.blocks) * g.lineBytes + 0
  rw [Nat.div_add_mod', Nat.add_zero]

theorem blockInvariant_tables (ops : List StoreOp) (i : UInt64) (hi : i.toNat < g.blocks) :
    (g.store (g.tables ops)).BlockInvariant ops i (g.tables ops i.toNat).slots.length := by
  let b := g.tables ops i.toNat
  have hline (w : Nat) (cl : CacheLine) (hw : w < g.ways)
      (hcl : (g.store (g.tables ops)).way i w = some cl) : cl = g.wayLine b w := by
    rw [g.way_store _ i w hi hw] at hcl
    exact (Option.some.inj hcl).symm
  constructor <;> rw [store_numWays]
  · intro w hw
    exact ⟨_, g.way_store _ i w hi hw⟩
  · intro v w cl cl' hv hw hcl hcl' he he' ht
    rw [hline v cl hv hcl] at he ht
    rw [hline w cl' hw hcl'] at he' ht
    exact g.wayLine_tag_inj b v w ((g.wayLine_used b v).mp he) ((g.wayLine_used b w).mp he') ht
  · intro w cl hw hcl
    rw [hline w cl hw hcl]
    exact g.wayLine_used b w
  · intro w cl hw hcl
    rw [hline w cl hw hcl]
    exact g.wayLine_empty_iff b w
  · intro w cl hw hcl
    rw [hline w cl hw hcl]
    exact g.wayLine_valid b w
  · intro w cl hw hcl he
    rw [hline w cl hw hcl] at he ⊢
    obtain ⟨k, hk, _, htag⟩ := g.wayLine_key b w ((g.wayLine_used b w).mp he)
    obtain ⟨a, buf, hm, hb, ht⟩ := g.keysStored_tables ops i.toNat k hk
    exact ⟨a, buf, hm, by rw [htag, ← ht]; exact g.getLineAddress_eq_or _ a i hb.symm⟩

theorem slots_length_le (t : Nat → g.Block) (op : StoreOp) (i : Nat) :
    (t i).slots.length ≤ (g.next t op i).slots.length := by
  obtain he | ⟨a, buf, rfl, rfl, he⟩ | ⟨a, rfl, rfl, he⟩ := g.next_block t op i
  · rw [he]
  · rw [he]
    exact SlotTable.put_length_le _ _ _
  · rw [he]
    exact SlotTable.modify_length_le _ _ _

theorem slots_length_foldl (t : Nat → g.Block) (ops : List StoreOp) (i : Nat) :
    (t i).slots.length ≤ (ops.foldl g.next t i).slots.length := by
  induction ops generalizing t with
  | nil => exact le_rfl
  | cons op ops ih => exact (g.slots_length_le t op i).trans (ih (g.next t op))

/-- In every reachable store every block is well formed, and the number of its used ways
never decreases along a run. -/
theorem blocks_wellFormed (ops more : List StoreOp) (hf : ∀ op ∈ ops ++ more, op.Fits g) :
    ∃ rs s rs' s', g.runFresh ops = .ok (rs, s) ∧ run CacheStore.step s more = .ok (rs', s') ∧
      ∀ i < s.m_numCacheBlocks, ∃ k k', k ≤ k' ∧
        s.BlockInvariant ops i k ∧ s'.BlockInvariant (ops ++ more) i k' := by
  obtain ⟨rs, hr⟩ := g.runFresh_tables ops (fun op ho => hf op (List.mem_append_left _ ho))
  obtain ⟨rs', hr'⟩ := g.run_tables (g.tables ops) more
    (fun op ho => hf op (List.mem_append_right _ ho))
  have htables : more.foldl g.next (g.tables ops) = g.tables (ops ++ more) := by
    rw [tables, tables, List.foldl_append]
  rw [htables] at hr'
  refine ⟨rs, _, rs', _, hr, hr', ?_⟩
  intro i hlt
  have hi : i.toNat < g.blocks := by
    rw [UInt64.lt_iff_toNat_lt] at hlt
    exact hlt.trans_eq g.numCacheBlocks_toNat
  refine ⟨_, _, ?_, g.blockInvariant_tables ops i hi, g.blockInvariant_tables (ops ++ more) i hi⟩
  rw [← htables]
  exact g.slots_length_foldl (g.tables ops) more i.toNat

/-- Two ways filled, one invalidated, and then the block overflows. -/
theorem blocks_wellFormed_overflow :
    let ops : List StoreOp := [.setDataLine 0x0 [1, 2, 3, 4, 5, 6, 7, 8],
      .setDataLine 0x10000 [11, 12, 13, 14, 15, 16, 17, 18], .invalidate 0x0]
    let more : List StoreOp := [.setDataLine 0x20000 [21, 22, 23, 24, 25, 26, 27, 28]]
    ∃ rs s rs' s', topRealCache.runFresh ops = .ok (rs, s) ∧
      run CacheStore.step s more = .ok (rs', s') ∧
      ∀ i < s.m_numCacheBlocks, ∃ k k', k ≤ k' ∧
        s.BlockInvariant ops i k ∧ s'.BlockInvariant (ops ++ more) i k' :=
  topRealCache.blocks_wellFormed _ _ (by decide)

end Geometry

end FreeSampler
