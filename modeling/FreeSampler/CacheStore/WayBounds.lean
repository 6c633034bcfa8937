import FreeSampler.CacheStore.CacheStore

namespace FreeSampler

open Framework

namespace CacheStore

/-- Every way that a lookup visits is a line of the store, and both shifts are defined. -/
structure WaysInBounds (s : CacheStore) : Prop where
  lines_length : s.m_cacheLines.length = (s.p_CacheSize / s.p_LineSize).toNat
  noOverflow : ∀ a ii, ii < s.p_NumWays → (s.getCacheBlockIndex a * s.p_NumWays + ii).toNat =
    (s.getCacheBlockIndex a).toNat * s.p_NumWays.toNat + ii.toNat
  way_lt : ∀ a ii, ii < s.p_NumWays →
    (s.getCacheBlockIndex a * s.p_NumWays + ii).toNat < s.m_cacheLines.length
  bitsForLine_lt : s.m_bitsForLine < 64
  bitShiftForCacheTag_lt : s.m_bitShiftForCacheTag < 64

/-- What the constructor derives from a geometry. The shifts stay below 64, and the mask below
the number of blocks, whether or not that is a power of two. -/
structure Derived (s : CacheStore) : Prop where
  numCacheBlocks_eq : s.m_numCacheBlocks = s.p_CacheSize / s.p_LineSize / s.p_NumWays
  lines_length : s.m_cacheLines.length = (s.p_CacheSize / s.p_LineSize).toNat
  mask_lt : s.m_cacheBlockIndexMask < s.m_numCacheBlocks
  bitsForLine_lt : s.m_bitsForLine.toNat < 32
  bitShiftForCacheTag_lt : s.m_bitShiftForCacheTag.toNat < 63

/-- The logarithm of the low 32 bits of a number is below 32, and its power within the number. -/
theorem logbase2_toUInt32 (x : UInt64) (h : x.toUInt32 ≠ 0) :
    ∃ r, logbase2 x.toUInt32 = .ok r ∧ r.toNat < 32 ∧ 2 ^ r.toNat ≤ x.toNat := by
  obtain ⟨r, hr, hv⟩ := logbase2_ok x.toUInt32 h
  have hne : x.toUInt32.toNat ≠ 0 := fun hz => h (UInt32.toNat_inj.mp hz)
  refine ⟨r, hr, ?_, ?_⟩
  · rw [hv, Nat.log2_lt hne]
    exact x.toUInt32.toNat_lt
  · calc 2 ^ r.toNat = 2 ^ Nat.log2 x.toUInt32.toNat := by rw [hv]
      _ ≤ x.toUInt32.toNat := Nat.log2_self_le hne
      _ = x.toNat % 2 ^ 32 := UInt64.toNat_toUInt32 x
      _ ≤ x.toNat := Nat.mod_le _ _

theorem construct_derived (memorySize cacheSize lineSize numWays : UInt64) (hl : lineSize ≠ 0)
    (hw : numWays ≠ 0) (hline : lineSize.toUInt32 ≠ 0)
    (hblocks : (cacheSize / lineSize / numWays).toUInt32 ≠ 0) :
    ∃ s, construct memorySize cacheSize lineSize numWays = .ok s ∧
      (s.p_CacheSize = cacheSize ∧ s.p_LineSize = lineSize ∧ s.p_NumWays = numWays) ∧
      s.Derived := by
  obtain ⟨r, hr, hr32, -⟩ := logbase2_toUInt32 lineSize hline
  obtain ⟨q, hq, hq32, hpow⟩ := logbase2_toUInt32 _ hblocks
  unfold construct
  rw [if_neg (by simp [hl, hw]), hr, ok_bind, hq, ok_bind]
  refine ⟨_, rfl, ⟨rfl, rfl, rfl⟩, rfl, List.length_replicate, ?_, ?_, ?_⟩
  · have hmask : 2 ^ q.toNat - 1 < 2 ^ 64 := by
      have hle : 2 ^ q.toNat ≤ 2 ^ 32 := Nat.pow_le_pow_right (by decide) (by omega)
      omega
    have hpos := Nat.two_pow_pos q.toNat
    rw [UInt64.lt_iff_toNat_lt, UInt64.toNat_ofNat', Nat.mod_eq_of_lt hmask]
    show 2 ^ q.toNat - 1 < (cacheSize / lineSize / numWays).toNat
    omega
  · rw [UInt32.toNat_toUInt64]
    exact hr32
  · rw [UInt64.toNat_add, UInt32.toNat_toUInt64, UInt32.toNat_toUInt64]
    omega

/-- A block index times the ways of a block, and a way in it, lies within the lines. -/
theorem waysInBounds_of_derived (s : CacheStore) (h : s.Derived) : s.WaysInBounds := by
  have hindex (a : UInt64) : (s.getCacheBlockIndex a).toNat < s.m_numCacheBlocks.toNat := by
    have hmask := UInt64.lt_iff_toNat_lt.mp h.mask_lt
    rw [getCacheBlockIndex, UInt64.toNat_and]
    exact Nat.lt_of_le_of_lt Nat.and_le_right hmask
  have hlines : s.m_numCacheBlocks.toNat * s.p_NumWays.toNat ≤ s.m_cacheLines.length := by
    rw [h.numCacheBlocks_eq, UInt64.toNat_div, h.lines_length]
    exact Nat.div_mul_le_self _ _
  have hbound (a ii : UInt64) (hii : ii < s.p_NumWays) :
      (s.getCacheBlockIndex a).toNat * s.p_NumWays.toNat + ii.toNat < s.m_cacheLines.length := by
    rw [UInt64.lt_iff_toNat_lt] at hii
    calc (s.getCacheBlockIndex a).toNat * s.p_NumWays.toNat + ii.toNat
        < (s.getCacheBlockIndex a).toNat * s.p_NumWays.toNat + s.p_NumWays.toNat := by omega
      _ = ((s.getCacheBlockIndex a).toNat + 1) * s.p_NumWays.toNat := (Nat.succ_mul _ _).symm
      _ ≤ s.m_numCacheBlocks.toNat * s.p_NumWays.toNat := Nat.mul_le_mul_right _ (hindex a)
      _ ≤ s.m_cacheLines.length := hlines
  have hno (a ii : UInt64) (hii : ii < s.p_NumWays) :
      (s.getCacheBlockIndex a * s.p_NumWays + ii).toNat =
        (s.getCacheBlockIndex a).toNat * s.p_NumWays.toNat + ii.toNat := by
    have hlt := hbound a ii hii
    have hlen := (s.p_CacheSize / s.p_LineSize).toNat_lt
    rw [← h.lines_length] at hlen
    rw [UInt64.toNat_add, UInt64.toNat_mul, Nat.mod_add_mod, Nat.mod_eq_of_lt (by omega)]
  refine ⟨h.lines_length, hno, ?_, ?_, ?_⟩
  · intro a ii hii
    rw [hno a ii hii]
    exact hbound a ii hii
  · rw [UInt64.lt_iff_toNat_lt]
    exact Nat.lt_trans h.bitsForLine_lt (by decide)
  · rw [UInt64.lt_iff_toNat_lt]
    exact Nat.lt_trans h.bitShiftForCacheTag_lt (by decide)

/-- The constructor builds a store for exactly the geometries whose logarithms exist. The model's lines
take no memory: where the vector of lines is too long to allocate, the source builds no store. -/
theorem construct_ok_iff (memorySize cacheSize lineSize numWays : UInt64) :
    (∃ s, construct memorySize cacheSize lineSize numWays = .ok s) ↔
      lineSize ≠ 0 ∧ numWays ≠ 0 ∧ lineSize.toUInt32 ≠ 0 ∧
        (cacheSize / lineSize / numWays).toUInt32 ≠ 0 := by
  constructor
  · intro h
    obtain ⟨s, hs⟩ := h
    unfold construct at hs
    split_ifs at hs with hz
    rw [not_or] at hz
    obtain ⟨r, hr, hs⟩ := (bind_eq_ok _ _ _).mp hs
    obtain ⟨q, hq, _⟩ := (bind_eq_ok _ _ _).mp hs
    refine ⟨hz.1, hz.2, ?_, ?_⟩
    · intro h0
      rw [h0] at hr
      simp [logbase2] at hr
    · intro h0
      rw [h0] at hq
      simp [logbase2] at hq
  · intro h
    obtain ⟨hl, hw, hline, hblocks⟩ := h
    obtain ⟨s, hs, _⟩ := construct_derived memorySize cacheSize lineSize numWays hl hw hline hblocks
    exact ⟨s, hs⟩

/-- For every geometry that the constructor lets through, no way access leaves the store. -/
theorem construct_waysInBounds (memorySize cacheSize lineSize numWays : UInt64)
    (hl : lineSize ≠ 0) (hw : numWays ≠ 0) (hline : lineSize.toUInt32 ≠ 0)
    (hblocks : (cacheSize / lineSize / numWays).toUInt32 ≠ 0) :
    ∃ s, construct memorySize cacheSize lineSize numWays = .ok s ∧
      (s.p_CacheSize = cacheSize ∧ s.p_LineSize = lineSize ∧ s.p_NumWays = numWays) ∧
      s.WaysInBounds := by
  obtain ⟨s, hs, hparams, h⟩ :=
    construct_derived memorySize cacheSize lineSize numWays hl hw hline hblocks
  exact ⟨s, hs, hparams, s.waysInBounds_of_derived h⟩

/-- 333 lines of 9 bytes in 66 blocks of 5 ways, with three lines left over. -/
theorem construct_waysInBounds_odd :
    ∃ s, construct 100 3000 9 5 = .ok s ∧
      (s.p_CacheSize = 3000 ∧ s.p_LineSize = 9 ∧ s.p_NumWays = 5) ∧ s.WaysInBounds :=
  construct_waysInBounds 100 3000 9 5 (by decide) (by decide) (by decide) (by decide)

end CacheStore

end FreeSampler
