import FreeSampler.CacheStore.CacheStore
import FreeSampler.Framework.Fields
import FreeSampler.Framework.SlotTable

namespace FreeSampler

open Framework

/-- A configuration of the store whose line size, way count and size are powers of two:
a line of 2 to 1024 bytes, at least one whole block, and fewer than 2^32 bytes in all. -/
structure Geometry where
  memorySize : UInt64
  cacheSize : UInt64
  lineSize : UInt64
  numWays : UInt64
  lineBits : Nat
  wayBits : Nat
  blockBits : Nat
  lineSize_eq : lineSize.toNat = 2 ^ lineBits
  numWays_eq : numWays.toNat = 2 ^ wayBits
  cacheSize_eq : cacheSize.toNat = 2 ^ (blockBits + wayBits + lineBits)
  lineBits_pos : 1 ≤ lineBits
  lineBits_le : lineBits ≤ 10
  cacheBits_lt : blockBits + wayBits + lineBits < 32

namespace Geometry

/-- The exponents are no restriction: every such configuration is a `Geometry`. -/
theorem exists_of_powers (memorySize cacheSize lineSize numWays : UInt64)
    (hl : ∃ k, lineSize.toNat = 2 ^ k) (hw : ∃ k, numWays.toNat = 2 ^ k)
    (hc : ∃ k, cacheSize.toNat = 2 ^ k) (h2 : 2 ≤ lineSize.toNat) (hle : lineSize.toNat ≤ 1024)
    (hfit : lineSize.toNat * numWays.toNat ≤ cacheSize.toNat) (hlt : cacheSize.toNat < 2 ^ 32) :
    ∃ g : Geometry, g.memorySize = memorySize ∧ g.cacheSize = cacheSize ∧
      g.lineSize = lineSize ∧ g.numWays = numWays := by
  obtain ⟨l, hl⟩ := hl
  obtain ⟨w, hw⟩ := hw
  obtain ⟨c, hc⟩ := hc
  have hpos : 1 ≤ l := by
    rcases Nat.eq_zero_or_pos l with h | h
    · rw [hl, h] at h2
      simp at h2
    · exact h
  have hl10 : l ≤ 10 := by
    rw [hl, show 1024 = 2 ^ 10 from rfl] at hle
    exact (Nat.pow_le_pow_iff_right (by decide)).mp hle
  have hsum : l + w ≤ c := by
    rw [hl, hw, hc, ← Nat.pow_add] at hfit
    exact (Nat.pow_le_pow_iff_right (by decide)).mp hfit
  have hc32 : c < 32 := by
    rw [hc] at hlt
    exact (Nat.pow_lt_pow_iff_right (by decide)).mp hlt
  have he : c - w - l + w + l = c := by omega
  exact ⟨⟨memorySize, cacheSize, lineSize, numWays, l, w, c - w - l, hl, hw, by rw [he, hc],
    hpos, hl10, by omega⟩, rfl, rfl, rfl, rfl⟩

variable (g : Geometry)

def ways : Nat := 2 ^ g.wayBits
def blocks : Nat := 2 ^ g.blockBits
def lineBytes : Nat := 2 ^ g.lineBits

theorem ways_pos : 0 < g.ways := Nat.two_pow_pos _

theorem tagBits_lt : g.blockBits + g.lineBits < 32 := by
  have h := g.cacheBits_lt
  omega

theorem blocks_mul_ways_lt : g.blocks * g.ways < 2 ^ 32 := by
  have h := g.cacheBits_lt
  rw [blocks, ways, ← Nat.pow_add]
  exact Nat.pow_lt_pow_right (by decide) (by omega)

/-- A cache tag; the empty line's tag is not one. -/
abbrev Tag := { t : UInt64 // t ≠ CacheLine.EMPTY }

/-- The data part of a loaded line: its valid flag and its `lineSize` words. -/
@[ext] structure Entry (lineWords : Nat) where
  isValid : Bool
  words : List UInt32
  length_eq : words.length = lineWords

/-- One cache block, by its loaded ways in order. -/
abbrev Block := SlotTable Tag (Entry g.lineBytes) g.ways

/-- The block an address selects. -/
def block (a : UInt64) : Nat := a.toNat / 2 ^ g.lineBits % 2 ^ g.blockBits

theorem block_lt (a : UInt64) : g.block a < g.blocks := Nat.mod_lt _ (Nat.two_pow_pos _)

theorem shift_toNat (a : UInt64) (n : Nat) (hn : n < 64) :
    (a >>> UInt64.ofNat n).toNat = a.toNat / 2 ^ n := by
  rw [UInt64.toNat_shiftRight, UInt64.toNat_ofNat', Nat.mod_eq_of_lt (by omega : n < 2 ^ 64),
    Nat.mod_eq_of_lt hn, Nat.shiftRight_eq_div_pow]

def tagValue (a : UInt64) : UInt64 := a >>> UInt64.ofNat (g.blockBits + g.lineBits)

theorem tagValue_toNat (a : UInt64) :
    (g.tagValue a).toNat = a.toNat / 2 ^ (g.blockBits + g.lineBits) := by
  have h := g.tagBits_lt
  exact shift_toNat a _ (by omega)

theorem tagValue_field (a : UInt64) :
    (g.tagValue a).toNat = topField g.blocks g.lineBytes a.toNat := by
  rw [g.tagValue_toNat, topField, blocks, lineBytes, Nat.div_div_eq_div_mul, ← Nat.pow_add,
    Nat.add_comm]

theorem tagValue_ne_empty (a : UInt64) : g.tagValue a ≠ CacheLine.EMPTY := by
  have hp := g.lineBits_pos
  have ha := a.toNat_lt
  have hle : a.toNat / 2 ^ (g.blockBits + g.lineBits) ≤ a.toNat / 2 ^ 1 :=
    Nat.div_le_div_left (Nat.pow_le_pow_right (by decide) (by omega)) (by decide)
  intro h
  have hn := congrArg UInt64.toNat h
  rw [g.tagValue_toNat] at hn
  simp only [CacheLine.EMPTY, UInt64.reduceSub, UInt64.reduceToNat] at hn
  omega

/-- The tag an address is kept under. -/
def tag (a : UInt64) : Tag := ⟨g.tagValue a, g.tagValue_ne_empty a⟩

/-- The number of the memory line an address lies in. -/
def lineNumber (a : UInt64) : Nat := a.toNat / 2 ^ g.lineBits

/-- Block and tag together name the line of an address. -/
theorem tag_block_iff (a b : UInt64) :
    (g.tag a = g.tag b ∧ g.block a = g.block b) ↔ g.lineNumber a = g.lineNumber b := by
  have htag : g.tag a = g.tag b ↔
      topField g.blocks g.lineBytes a.toNat = topField g.blocks g.lineBytes b.toNat := by
    rw [← g.tagValue_field, ← g.tagValue_field, UInt64.toNat_inj]
    exact Subtype.ext_iff
  rw [htag]
  exact fields_eq_iff g.blocks g.lineBytes a.toNat b.toNat

/-- The line that way `w` of a block stores. -/
def wayLine (t : g.Block) (w : Nat) : CacheLine :=
  match t.slots[w]? with
  | some (k, e) => ⟨e.isValid, k.1, some e.words⟩
  | none => CacheLine.new

/-- The store whose blocks hold the given tables. -/
def store (t : Nat → g.Block) : CacheStore where
  p_MemorySize := g.memorySize
  p_CacheSize := g.cacheSize
  p_LineSize := g.lineSize
  p_NumWays := g.numWays
  m_cacheLines := (List.range (g.blocks * g.ways)).map
    (fun k => g.wayLine (t (k / g.ways)) (k % g.ways))
  m_numMemoryLines := g.memorySize / g.lineSize
  m_numCacheLines := g.cacheSize / g.lineSize
  m_numCacheBlocks := g.cacheSize / g.lineSize / g.numWays
  m_cacheBlockIndexMask := UInt64.ofNat (2 ^ g.blockBits - 1)
  m_bitsForLine := UInt64.ofNat g.lineBits
  m_bitShiftForCacheTag := UInt64.ofNat (g.blockBits + g.lineBits)

@[simp] theorem store_numWays (t : Nat → g.Block) : (g.store t).p_NumWays.toNat = g.ways :=
  g.numWays_eq

@[simp] theorem store_lineSize (t : Nat → g.Block) : (g.store t).p_LineSize.toNat = g.lineBytes :=
  g.lineSize_eq

/-- No block holds a line yet. -/
def emptyBlocks : Nat → g.Block := fun _ => SlotTable.empty

section Construct

theorem numCacheBlocks_toNat :
    (g.cacheSize / g.lineSize / g.numWays).toNat = 2 ^ g.blockBits := by
  rw [UInt64.toNat_div, UInt64.toNat_div, g.cacheSize_eq, g.lineSize_eq, g.numWays_eq,
    Nat.pow_add, Nat.mul_div_cancel _ (Nat.two_pow_pos _), Nat.pow_add,
    Nat.mul_div_cancel _ (Nat.two_pow_pos _)]

private theorem numCacheLines_toNat : (g.cacheSize / g.lineSize).toNat = g.blocks * g.ways := by
  rw [UInt64.toNat_div, g.cacheSize_eq, g.lineSize_eq, Nat.pow_add,
    Nat.mul_div_cancel _ (Nat.two_pow_pos _), Nat.pow_add, blocks, ways]

/-- On a power of two below 2^32, `logbase2` is its exponent. -/
theorem logbase2_two_pow (x : UInt64) (n : Nat) (hx : x.toNat = 2 ^ n) (hn : n < 32) :
    ∃ r, logbase2 x.toUInt32 = .ok r ∧ r.toNat = n := by
  have hlt : 2 ^ n < 2 ^ 32 := Nat.pow_lt_pow_right (by decide) hn
  have ht : x.toUInt32.toNat = 2 ^ n := by
    rw [UInt64.toNat_toUInt32, hx, Nat.mod_eq_of_lt hlt]
  have hz : x.toUInt32 ≠ 0 := by
    intro h
    have hp := Nat.two_pow_pos n
    rw [h] at ht
    simp at ht
    omega
  obtain ⟨r, hr, hv⟩ := logbase2_ok _ hz
  exact ⟨r, hr, by rw [hv, ht, Nat.log2_two_pow]⟩

/-- The constructor accepts every such configuration and starts with empty blocks. -/
theorem construct_eq :
    CacheStore.construct g.memorySize g.cacheSize g.lineSize g.numWays =
      .ok (g.store g.emptyBlocks) := by
  have hc := g.cacheBits_lt
  have hl0 : g.lineSize ≠ 0 := by
    intro h
    have hp := Nat.two_pow_pos g.lineBits
    rw [← g.lineSize_eq, h] at hp
    simp at hp
  have hw0 : g.numWays ≠ 0 := by
    intro h
    have hp := Nat.two_pow_pos g.wayBits
    rw [← g.numWays_eq, h] at hp
    simp at hp
  obtain ⟨r, hr, hrv⟩ := logbase2_two_pow g.lineSize g.lineBits g.lineSize_eq (by omega)
  obtain ⟨q, hq, hqv⟩ := logbase2_two_pow _ g.blockBits g.numCacheBlocks_toNat (by omega)
  have hr64 : r.toUInt64 = UInt64.ofNat g.lineBits := by
    apply UInt64.toNat_inj.mp
    simp only [UInt32.toNat_toUInt64, hrv, UInt64.toNat_ofNat']
    omega
  have hs64 : q.toUInt64 + r.toUInt64 = UInt64.ofNat (g.blockBits + g.lineBits) := by
    apply UInt64.toNat_inj.mp
    simp only [UInt64.toNat_add, UInt32.toNat_toUInt64, hrv, hqv, UInt64.toNat_ofNat']
  have hlines : List.replicate (g.cacheSize / g.lineSize).toNat CacheLine.new =
      (g.store g.emptyBlocks).m_cacheLines := by
    rw [numCacheLines_toNat]
    simp [store, emptyBlocks, wayLine, SlotTable.empty, List.map_const']
  unfold CacheStore.construct
  rw [if_neg (by simp [hl0, hw0]), hr, hlines]
  simp only [ok_bind]
  rw [hq]
  simp only [ok_bind, hqv]
  rw [hs64, hr64]
  rfl

end Construct

end Geometry

end FreeSampler
