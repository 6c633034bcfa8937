import FreeSampler.CacheStore.Operations

namespace FreeSampler

open Framework

/-- The translation functions split an address into a tag, a block index and a byte index,
without gap or overlap. -/
structure CacheStore.SplitsAddresses (s : CacheStore) : Prop where
  blockIndex_lt : ∀ a, s.getCacheBlockIndex a < s.m_numCacheBlocks
  byteIndex_eq : ∀ a, s.getByteIndex a = a % s.p_LineSize
  lineAddress_eq : ∀ a, s.getLineAddress a = a - a % s.p_LineSize
  reassembles : ∀ a, a = (s.getCacheTag a <<< s.m_bitShiftForCacheTag) |||
    (s.getCacheBlockIndex a <<< s.m_bitsForLine) ||| s.getByteIndex a
  sameLine_iff : ∀ a b, (s.getCacheTag a = s.getCacheTag b ∧
    s.getCacheBlockIndex a = s.getCacheBlockIndex b) ↔ s.getLineAddress a = s.getLineAddress b
  existsUnique : ∀ tag index byte : UInt64,
    tag.toNat < 2 ^ (64 - s.m_bitShiftForCacheTag.toNat) → index < s.m_numCacheBlocks →
    byte < s.p_LineSize →
    ∃! a, s.getCacheTag a = tag ∧ s.getCacheBlockIndex a = index ∧ s.getByteIndex a = byte
  tag_ne_empty : ∀ a, s.getCacheTag a ≠ CacheLine.EMPTY

namespace Geometry

variable (g : Geometry)

theorem bitShift_toNat (t : Nat → g.Block) :
    (g.store t).m_bitShiftForCacheTag.toNat = g.blockBits + g.lineBits := by
  have h := g.tagBits_lt
  simp only [store, UInt64.toNat_ofNat']
  exact Nat.mod_eq_of_lt (by omega)

theorem bitsForLine_toNat (t : Nat → g.Block) : (g.store t).m_bitsForLine.toNat = g.lineBits := by
  have h := g.tagBits_lt
  simp only [store, UInt64.toNat_ofNat']
  exact Nat.mod_eq_of_lt (by omega)

theorem numCacheBlocks_store (t : Nat → g.Block) : (g.store t).m_numCacheBlocks.toNat = g.blocks :=
  g.numCacheBlocks_toNat

theorem shiftLeft_toNat (x s : UInt64) (n : Nat) (hs : s.toNat = n) (hn : n < 64)
    (hx : x.toNat * 2 ^ n < 2 ^ 64) : (x <<< s).toNat = x.toNat * 2 ^ n := by
  rw [UInt64.toNat_shiftLeft, hs, Nat.mod_eq_of_lt hn, Nat.shiftLeft_eq, Nat.mod_eq_of_lt hx]

/-- The three parts, shifted into place, do not overlap. -/
theorem joined_toNat (t : Nat → g.Block) (tag index byte : UInt64)
    (htag : tag.toNat < 2 ^ (64 - (g.blockBits + g.lineBits))) (hindex : index.toNat < g.blocks)
    (hbyte : byte.toNat < g.lineBytes) :
    ((tag <<< (g.store t).m_bitShiftForCacheTag) ||| (index <<< (g.store t).m_bitsForLine) |||
      byte).toNat = joinFields g.blocks g.lineBytes tag.toNat index.toNat byte.toNat := by
  have hbits := g.tagBits_lt
  have htop : tag.toNat * 2 ^ (g.blockBits + g.lineBits) < 2 ^ 64 := by
    calc tag.toNat * 2 ^ (g.blockBits + g.lineBits)
        < 2 ^ (64 - (g.blockBits + g.lineBits)) * 2 ^ (g.blockBits + g.lineBits) :=
          Nat.mul_lt_mul_of_pos_right htag (Nat.two_pow_pos _)
      _ = 2 ^ 64 := by rw [← Nat.pow_add, Nat.sub_add_cancel (by omega)]
  have hmid : index.toNat * 2 ^ g.lineBits < 2 ^ 64 := by
    calc index.toNat * 2 ^ g.lineBits < 2 ^ g.blockBits * 2 ^ g.lineBits :=
          Nat.mul_lt_mul_of_pos_right hindex (Nat.two_pow_pos _)
      _ = 2 ^ (g.blockBits + g.lineBits) := (Nat.pow_add 2 _ _).symm
      _ ≤ 2 ^ 64 := Nat.pow_le_pow_right (by decide) (by omega)
  rw [UInt64.toNat_or, UInt64.toNat_or,
    shiftLeft_toNat tag _ _ (g.bitShift_toNat t) (by omega) htop,
    shiftLeft_toNat index _ _ (g.bitsForLine_toNat t) (by omega) hmid]
  exact (joinFields_two_pow g.blockBits g.lineBits _ _ _ hindex hbyte).symm

theorem tagValue_lt (a : UInt64) :
    (g.tagValue a).toNat < 2 ^ (64 - (g.blockBits + g.lineBits)) := by
  have hbits := g.tagBits_lt
  rw [g.tagValue_toNat, Nat.div_lt_iff_lt_mul (Nat.two_pow_pos _), ← Nat.pow_add,
    Nat.sub_add_cancel (by omega)]
  exact a.toNat_lt

section Store

variable (t : Nat → g.Block)

theorem fields_iff (a tag index byte : UInt64) :
    ((g.store t).getCacheTag a = tag ∧ (g.store t).getCacheBlockIndex a = index ∧
      (g.store t).getByteIndex a = byte) ↔
    topField g.blocks g.lineBytes a.toNat = tag.toNat ∧
      midField g.blocks g.lineBytes a.toNat = index.toNat ∧
      lowField g.lineBytes a.toNat = byte.toNat := by
  rw [← UInt64.toNat_inj, ← UInt64.toNat_inj, ← UInt64.toNat_inj, g.getCacheBlockIndex_toNat,
    g.getByteIndex_toNat, g.getCacheTag_eq, Geometry.tag, g.tagValue_field]
  rfl

theorem existsUnique_address (tag index byte : UInt64)
    (htag : tag.toNat < 2 ^ (64 - (g.blockBits + g.lineBits))) (hindex : index.toNat < g.blocks)
    (hbyte : byte.toNat < g.lineBytes) :
    ∃! a, (g.store t).getCacheTag a = tag ∧ (g.store t).getCacheBlockIndex a = index ∧
      (g.store t).getByteIndex a = byte := by
  let joined := (tag <<< (g.store t).m_bitShiftForCacheTag) |||
    (index <<< (g.store t).m_bitsForLine) ||| byte
  have hjoin : joined.toNat = joinFields g.blocks g.lineBytes tag.toNat index.toNat byte.toNat :=
    g.joined_toNat t tag index byte htag hindex hbyte
  refine ⟨joined, (g.fields_iff t joined tag index byte).mpr ⟨?_, ?_, ?_⟩, ?_⟩
  · rw [hjoin, topField_joinFields _ _ _ _ _ hindex hbyte]
  · rw [hjoin, midField_joinFields _ _ _ _ _ hindex hbyte]
  · rw [hjoin, lowField_joinFields _ _ _ _ _ hbyte]
  · intro b hb
    obtain ⟨htop, hmid, hlow⟩ := (g.fields_iff t b tag index byte).mp hb
    apply UInt64.toNat_inj.mp
    rw [hjoin, ← htop, ← hmid, ← hlow, joinFields_fields]

theorem reassembles (a : UInt64) :
    a = ((g.store t).getCacheTag a <<< (g.store t).m_bitShiftForCacheTag) |||
      ((g.store t).getCacheBlockIndex a <<< (g.store t).m_bitsForLine) |||
      (g.store t).getByteIndex a := by
  have htag : ((g.store t).getCacheTag a).toNat < 2 ^ (64 - (g.blockBits + g.lineBits)) :=
    g.tagValue_lt a
  have hindex := g.getCacheBlockIndex_lt t a
  have hbyte : ((g.store t).getByteIndex a).toNat < g.lineBytes := by
    rw [g.getByteIndex_toNat]
    exact Nat.mod_lt _ (Nat.two_pow_pos _)
  obtain ⟨htop, hmid, hlow⟩ := (g.fields_iff t a _ _ _).mp ⟨rfl, rfl, rfl⟩
  apply UInt64.toNat_inj.mp
  rw [g.joined_toNat t _ _ _ htag hindex hbyte, ← htop, ← hmid, ← hlow,
    joinFields_fields]

theorem getByteIndex_eq (a : UInt64) : (g.store t).getByteIndex a = a % (g.store t).p_LineSize := by
  apply UInt64.toNat_inj.mp
  rw [g.getByteIndex_toNat, UInt64.toNat_mod, g.store_lineSize]

theorem getLineAddress_eq_sub (a : UInt64) :
    (g.store t).getLineAddress a = a - a % (g.store t).p_LineSize := by
  have hmod := Nat.mod_le a.toNat g.lineBytes
  have hdiv := Nat.div_add_mod' a.toNat g.lineBytes
  apply UInt64.toNat_inj.mp
  rw [g.getLineAddress_toNat, UInt64.toNat_sub_of_le _ _ (by
    rw [UInt64.le_iff_toNat_le, UInt64.toNat_mod, g.store_lineSize]
    exact hmod), UInt64.toNat_mod, g.store_lineSize]
  show a.toNat / g.lineBytes * g.lineBytes = _
  omega

/-- Tag and block index agree exactly on the addresses of one line. -/
theorem sameLine_iff (a b : UInt64) : ((g.store t).getCacheTag a = (g.store t).getCacheTag b ∧
    (g.store t).getCacheBlockIndex a = (g.store t).getCacheBlockIndex b) ↔
    (g.store t).getLineAddress a = (g.store t).getLineAddress b := by
  rw [g.getLineAddress_eq_iff, ← g.tag_block_iff, g.getCacheBlockIndex_inj, g.getCacheTag_eq,
    g.getCacheTag_eq, Subtype.ext_iff]

end Store

/-- In every geometry, splitting an address is a bijection onto the triples in range. -/
theorem construct_splitsAddresses : ∃ s, CacheStore.construct g.memorySize g.cacheSize g.lineSize
    g.numWays = .ok s ∧ s.SplitsAddresses := by
  refine ⟨_, g.construct_eq, ?_⟩
  constructor
  · intro a
    rw [UInt64.lt_iff_toNat_lt, g.numCacheBlocks_store]
    exact g.getCacheBlockIndex_lt _ a
  · exact g.getByteIndex_eq _
  · exact g.getLineAddress_eq_sub _
  · exact g.reassembles _
  · exact g.sameLine_iff _
  · intro tag index byte htag hindex hbyte
    rw [g.bitShift_toNat] at htag
    rw [UInt64.lt_iff_toNat_lt, g.numCacheBlocks_store] at hindex
    rw [UInt64.lt_iff_toNat_lt, g.store_lineSize] at hbyte
    exact g.existsUnique_address _ tag index byte htag hindex hbyte
  · exact g.tagValue_ne_empty

end Geometry

end FreeSampler
