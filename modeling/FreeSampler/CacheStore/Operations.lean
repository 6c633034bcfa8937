import FreeSampler.CacheStore.Geometry
import Mathlib.Logic.Function.Basic

namespace FreeSampler

open Framework

/-- What a scan finds is a way of the block with the property. -/
theorem CacheStore.scanWays_some (lines : List CacheLine) (cacheBlock : Nat)
    (found : CacheLine → Bool) (left ii i : Nat)
    (h : CacheStore.scanWays lines cacheBlock found left ii = .ok (some i)) :
    ∃ w cl, w < ii + left ∧ lines[cacheBlock + w]? = some cl ∧ found cl = true := by
  induction left generalizing ii with
  | zero => simp [CacheStore.scanWays] at h
  | succ left ih =>
    rw [CacheStore.scanWays, bind_eq_ok] at h
    obtain ⟨cl, hcl, h⟩ := h
    split_ifs at h with hf
    · exact ⟨ii, cl, by omega, (elementAt_ok _ _ _).mp hcl, hf⟩
    · obtain ⟨w, cl', hw, hcl', hf'⟩ := ih (ii + 1) h
      exact ⟨w, cl', by omega, hcl', hf'⟩

/-- A lookup of a line that no way carries ends with `NULL`, if it ends. -/
theorem CacheStore.getCacheLine_null (s : CacheStore) (a : UInt64) (r : Option Nat)
    (hr : s.getCacheLine a = .ok r) (h : ¬ s.IsResident a) : r = none := by
  cases r with
  | none => rfl
  | some i =>
    obtain ⟨w, cl, hw, hcl, hf⟩ := scanWays_some _ _ _ _ _ i hr
    rw [Nat.zero_add] at hw
    exact absurd ⟨w, cl, hw, hcl, eq_of_beq hf⟩ h

theorem CacheStore.getDataLine_null (s : CacheStore) (a : UInt64) (buf : List UInt32)
    (h : s.getCacheLine a = .ok none) : s.getDataLine a (some buf) = .ok (false, some buf) := by
  simp only [getDataLine, h, ok_bind]
  rfl

theorem CacheStore.scanWays_eq (lines : List CacheLine) (cacheBlock : Nat)
    (found : CacheLine → Bool) (f : Nat → CacheLine) (left ii n : Nat) (hn : ii + left = n)
    (hl : ∀ w < n, lines[cacheBlock + w]? = some (f w)) (hb : ∀ w < ii, found (f w) = false) :
    CacheStore.scanWays lines cacheBlock found left ii =
      .ok (((List.range n).find? (fun w => found (f w))).map (cacheBlock + ·)) := by
  induction left generalizing ii with
  | zero =>
    have hnone : (List.range n).find? (fun w => found (f w)) = none := by
      rw [List.find?_range_eq_none]
      intro w hw
      simp [hb w (by omega)]
    simp [CacheStore.scanWays, hnone]
  | succ left ih =>
    have hat := (elementAt_ok lines (cacheBlock + ii) (f ii)).mpr (hl ii (by omega))
    rw [CacheStore.scanWays, hat, ok_bind]
    cases hf : found (f ii) with
    | true =>
      have hsome : (List.range n).find? (fun w => found (f w)) = some ii := by
        rw [List.find?_range_eq_some]
        refine ⟨hf, List.mem_range.mpr (by omega), ?_⟩
        intro w hw
        simp [hb w hw]
      simp [hsome, pure, Except.pure]
    | false =>
      apply ih (ii + 1) (by omega)
      intro w hw
      rcases Nat.lt_succ_iff_lt_or_eq.mp hw with h | h
      · exact hb w h
      · rw [h, hf]

/-- A hit is a load into the line found. -/
theorem CacheStore.setDataLine_of_hit (s : CacheStore) (a : UInt64) (buf : Ptr UInt32) {cl : Nat}
    {line : CacheLine} (hc : s.getCacheLine a = .ok (some cl)) (hat : s.m_cacheLines[cl]? = some line) :
    s.setDataLine a buf = (do
      let line ← line.load (s.getCacheTag a) buf s.p_LineSize.toNat
      return (true, { s with m_cacheLines := s.m_cacheLines.set cl line })) := by
  simp only [CacheStore.setDataLine, hc, ok_bind, pure_bind, (elementAt_ok _ _ _).mpr hat]

/-- A miss is a load into the line that `newCacheLine` frees. -/
theorem CacheStore.setDataLine_of_miss (s : CacheStore) (a : UInt64) (buf : Ptr UInt32) {cl : Nat}
    {lines : List CacheLine} {line : CacheLine} (hc : s.getCacheLine a = .ok none)
    (hnew : s.newCacheLine a = .ok (cl, { s with m_cacheLines := lines }))
    (hat : lines[cl]? = some line) :
    s.setDataLine a buf = (do
      let line ← line.load (s.getCacheTag a) buf s.p_LineSize.toNat
      return (false, { s with m_cacheLines := lines.set cl line })) := by
  simp only [CacheStore.setDataLine, hc, ok_bind, pure_bind, hnew, (elementAt_ok _ _ _).mpr hat]
  rfl

namespace Geometry

variable (g : Geometry)

theorem way_div (i w : Nat) (hw : w < g.ways) : (i * g.ways + w) / g.ways = i := by
  rw [Nat.add_comm, Nat.add_mul_div_right _ _ g.ways_pos, Nat.div_eq_of_lt hw, Nat.zero_add]

theorem lines_getElem? (t : Nat → g.Block) (i w : Nat) (hi : i < g.blocks) (hw : w < g.ways) :
    (g.store t).m_cacheLines[i * g.ways + w]? = some (g.wayLine (t i) w) := by
  have hlt : i * g.ways + w < g.blocks * g.ways := by
    have hs := Nat.mul_le_mul_right g.ways (Nat.succ_le_of_lt hi)
    rw [Nat.succ_mul] at hs
    omega
  have hm : (i * g.ways + w) % g.ways = w := by
    rw [Nat.add_comm, Nat.add_mul_mod_self_right, Nat.mod_eq_of_lt hw]
  simp only [store, List.getElem?_map, List.getElem?_range hlt, Option.map_some,
    g.way_div i w hw, hm]

/-- A line written into way `w` of block `i` is the update of that block's table. -/
theorem set_line (t : Nat → g.Block) (i w : Nat) (cl : CacheLine) (b : g.Block)
    (hw : w < g.ways) (h : ∀ v < g.ways, g.wayLine b v = if v = w then cl else g.wayLine (t i) v) :
    (g.store t).m_cacheLines.set (i * g.ways + w) cl =
      (g.store (Function.update t i b)).m_cacheLines := by
  apply List.ext_getElem?
  intro k
  have hk := Nat.div_add_mod k g.ways
  have hkm := Nat.mod_lt k g.ways_pos
  rw [List.getElem?_set]
  simp only [store, List.length_map, List.length_range, List.getElem?_map]
  by_cases hr : k < g.blocks * g.ways
  · rw [List.getElem?_range hr]
    simp only [Option.map_some]
    by_cases hi : k / g.ways = i
    · subst hi
      rw [Function.update_self, h _ hkm]
      by_cases he : k % g.ways = w
      · rw [if_pos he, if_pos (by rw [Nat.mul_comm]; omega), if_pos (by rw [Nat.mul_comm]; omega)]
      · rw [if_neg he, if_neg (by rw [Nat.mul_comm]; omega)]
    · rw [Function.update_of_ne hi]
      have hne : i * g.ways + w ≠ k := by
        intro heq
        apply hi
        rw [← heq, g.way_div i w hw]
      rw [if_neg hne]
  · rw [List.getElem?_eq_none (by simp; omega)]
    split_ifs with h1 h2
    · omega
    · rfl
    · rfl

theorem getCacheBlockIndex_toNat (t : Nat → g.Block) (a : UInt64) :
    ((g.store t).getCacheBlockIndex a).toNat = g.block a := by
  have h := g.tagBits_lt
  have hb : 2 ^ g.blockBits ≤ 2 ^ 32 := Nat.pow_le_pow_right (by decide) (by omega)
  have hm : (UInt64.ofNat (2 ^ g.blockBits - 1)).toNat = 2 ^ g.blockBits - 1 := by
    rw [UInt64.toNat_ofNat']
    omega
  simp only [CacheStore.getCacheBlockIndex, store, UInt64.toNat_and, hm]
  rw [shift_toNat a _ (by omega), Nat.and_two_pow_sub_one_eq_mod, block]

theorem getCacheBlockIndex_lt (t : Nat → g.Block) (a : UInt64) :
    ((g.store t).getCacheBlockIndex a).toNat < g.blocks := by
  rw [g.getCacheBlockIndex_toNat]
  exact g.block_lt a

theorem getCacheBlockIndex_inj (t : Nat → g.Block) (a b : UInt64) :
    (g.store t).getCacheBlockIndex a = (g.store t).getCacheBlockIndex b ↔ g.block a = g.block b := by
  rw [← UInt64.toNat_inj, g.getCacheBlockIndex_toNat, g.getCacheBlockIndex_toNat]

theorem getCacheBlock_toNat (t : Nat → g.Block) (i : UInt64) (hi : i.toNat < g.blocks) :
    (g.store t).getCacheBlock i = i.toNat * g.ways := by
  have hlt : i.toNat * g.ways < 2 ^ 64 := by
    have h := g.blocks_mul_ways_lt
    have hm := Nat.mul_lt_mul_of_pos_right hi g.ways_pos
    omega
  rw [CacheStore.getCacheBlock, UInt64.toNat_mul]
  simp only [store, g.numWays_eq]
  exact Nat.mod_eq_of_lt hlt

theorem getCacheBlock_eq (t : Nat → g.Block) (a : UInt64) :
    (g.store t).getCacheBlock ((g.store t).getCacheBlockIndex a) = g.block a * g.ways := by
  rw [g.getCacheBlock_toNat t _ (g.getCacheBlockIndex_lt t a), g.getCacheBlockIndex_toNat]

@[simp] theorem getCacheTag_eq (t : Nat → g.Block) (a : UInt64) :
    (g.store t).getCacheTag a = (g.tag a).1 := rfl

theorem getByteIndex_toNat (t : Nat → g.Block) (a : UInt64) :
    ((g.store t).getByteIndex a).toNat = a.toNat % g.lineBytes := by
  have hp := Nat.two_pow_pos g.lineBits
  have hl : (g.lineSize - 1).toNat = 2 ^ g.lineBits - 1 := by
    rw [UInt64.toNat_sub_of_le _ _ (by
      rw [UInt64.le_iff_toNat_le, g.lineSize_eq]
      exact hp), g.lineSize_eq]
    rfl
  simp only [CacheStore.getByteIndex, store, UInt64.toNat_and, hl]
  rw [Nat.and_two_pow_sub_one_eq_mod, lineBytes]

theorem getLineAddress_toNat (t : Nat → g.Block) (a : UInt64) :
    ((g.store t).getLineAddress a).toNat = g.lineNumber a * g.lineBytes := by
  have h := g.tagBits_lt
  have ha := a.toNat_lt
  have hle := Nat.div_mul_le_self a.toNat (2 ^ g.lineBits)
  have hb : g.lineBits < 2 ^ 64 := by omega
  simp only [CacheStore.getLineAddress, store, UInt64.toNat_shiftLeft]
  rw [shift_toNat a _ (by omega), UInt64.toNat_ofNat', Nat.mod_eq_of_lt hb,
    Nat.mod_eq_of_lt (by omega : g.lineBits < 64), Nat.shiftLeft_eq, Nat.mod_eq_of_lt (by omega),
    lineNumber, lineBytes]

theorem getLineAddress_eq_iff (t : Nat → g.Block) (a b : UInt64) :
    (g.store t).getLineAddress a = (g.store t).getLineAddress b ↔
      g.lineNumber a = g.lineNumber b := by
  rw [← UInt64.toNat_inj, getLineAddress_toNat, getLineAddress_toNat]
  exact Nat.mul_left_inj (Nat.two_pow_pos g.lineBits).ne'

theorem wayLine_getTag_iff (b : g.Block) (k : Tag) (w : Nat) :
    (g.wayLine b w).getTag = k.1 ↔ ∃ e, b.slots[w]? = some (k, e) := by
  unfold wayLine
  cases hs : b.slots[w]? with
  | none =>
    have hk := k.2
    simp only [CacheLine.getTag, CacheLine.new, reduceCtorEq, exists_false, iff_false]
    exact fun he => hk he.symm
  | some p =>
    simp only [CacheLine.getTag, Option.some.injEq]
    constructor
    · intro he
      exact ⟨p.2, Prod.ext (Subtype.ext he) rfl⟩
    · intro he
      obtain ⟨e, he⟩ := he
      rw [he]

theorem find_tag (b : g.Block) (k : Tag) :
    (List.range g.ways).find? (fun w => (g.wayLine b w).getTag == k.1) = b.position k := by
  have hiff (w : Nat) : ((g.wayLine b w).getTag == k.1) = true ↔ ∃ e, b.slots[w]? = some (k, e) := by
    rw [beq_iff_eq, g.wayLine_getTag_iff]
  cases hp : b.position k with
  | none =>
    rw [List.find?_range_eq_none]
    intro w _
    rw [Bool.not_eq_true']
    by_contra hf
    obtain ⟨e, he⟩ := (hiff w).mp (by simpa using hf)
    have hsome := (b.position_eq_some k w).mpr ⟨e, he⟩
    simp [hp] at hsome
  | some i =>
    have he := (b.position_eq_some k i).mp hp
    have hi := (b.position_lt k i hp).trans_le b.fits
    rw [List.find?_range_eq_some]
    refine ⟨(hiff i).mpr he, List.mem_range.mpr hi, ?_⟩
    intro w hw
    rw [Bool.not_eq_true']
    by_contra hf
    have hsome := (b.position_eq_some k w).mpr ((hiff w).mp (by simpa using hf))
    rw [hp] at hsome
    have heq := Option.some.inj hsome
    omega

theorem find_empty (b : g.Block) :
    (List.range g.ways).find? (fun w => (g.wayLine b w).getEmpty) =
      if b.slots.length < g.ways then some b.slots.length else none := by
  have hfull (w : Nat) (hw : w < b.slots.length) : (g.wayLine b w).getEmpty = false := by
    have hk := b.slots[w].1.2
    simpa [wayLine, List.getElem?_eq_getElem hw, CacheLine.getEmpty] using hk
  have hempty (w : Nat) (hw : b.slots.length ≤ w) : (g.wayLine b w).getEmpty = true := by
    simp [wayLine, List.getElem?_eq_none hw, CacheLine.getEmpty, CacheLine.new]
  have hfit := b.fits
  split_ifs with h
  · rw [List.find?_range_eq_some]
    refine ⟨hempty _ le_rfl, List.mem_range.mpr h, ?_⟩
    intro w hw
    rw [hfull w hw]
    rfl
  · rw [List.find?_range_eq_none]
    intro w hw
    rw [hfull w (by omega)]
    rfl

theorem getCacheLine_eq (t : Nat → g.Block) (a : UInt64) :
    (g.store t).getCacheLine a =
      .ok (((t (g.block a)).position (g.tag a)).map (g.block a * g.ways + ·)) := by
  rw [CacheStore.getCacheLine, getCacheBlock_eq, getCacheTag_eq]
  rw [store_numWays, CacheStore.scanWays_eq _ _ _ (g.wayLine (t (g.block a))) g.ways 0 g.ways (by omega)
    (fun w hw => g.lines_getElem? t _ w (g.block_lt a) hw) (by simp)]
  rw [g.find_tag]

theorem pickOrEvict_eq (t : Nat → g.Block) (a : UInt64)
    (hm : (t (g.block a)).position (g.tag a) = none) :
    (g.store t).pickOrEvict (g.block a * g.ways) =
      .ok (g.block a * g.ways + (t (g.block a)).target (g.tag a)) := by
  rw [CacheStore.pickOrEvict, store_numWays,
    CacheStore.scanWays_eq _ _ _ (g.wayLine (t (g.block a))) g.ways 0 g.ways (by omega)
    (fun w hw => g.lines_getElem? t _ w (g.block_lt a) hw) (by simp), ok_bind, g.find_empty]
  simp only [SlotTable.target, hm, Option.getD_none]
  split_ifs <;> rfl

/-- The entry a load of a buffer leaves: its first `lineSize` words, valid. -/
def loaded (buf : List UInt32) : Entry g.lineBytes :=
  ⟨true, buf.takeD g.lineBytes 0, List.takeD_length _ _ _⟩

theorem loaded_words (buf : List UInt32) (h : g.lineBytes ≤ buf.length) :
    (g.loaded buf).words = buf.take g.lineBytes := List.takeD_eq_take _ h

def setLine (t : Nat → g.Block) (a : UInt64) (buf : List UInt32) : Nat → g.Block :=
  Function.update t (g.block a) ((t (g.block a)).put (g.tag a) (g.loaded buf))

def invalidateLine (t : Nat → g.Block) (a : UInt64) : Nat → g.Block :=
  Function.update t (g.block a)
    ((t (g.block a)).modify (g.tag a) (fun e => { e with isValid := false }))

def invalidateTag (b : g.Block) (k : Tag) : g.Block :=
  b.modify k (fun e => { e with isValid := false })

/-- Which tags a block holds after a set depends on the tags that it held. -/
theorem keys_setLine (t : Nat → g.Block) (a : UInt64) (buf : List UInt32) (i : Nat) :
    (g.setLine t a buf i).keys =
      if i = g.block a then SlotTable.putKeys g.ways (t i).keys (g.tag a) else (t i).keys := by
  rw [setLine]
  split_ifs with hi
  · rw [hi, Function.update_self, SlotTable.keys_put]
  · rw [Function.update_of_ne hi]

theorem keys_invalidateLine (t : Nat → g.Block) (a : UInt64) (i : Nat) :
    (g.invalidateLine t a i).keys = (t i).keys := by
  rw [invalidateLine]
  by_cases hi : i = g.block a
  · rw [hi, Function.update_self, SlotTable.keys_modify]
  · rw [Function.update_of_ne hi]

/-- The entry kept for the line of an address. -/
def resident (t : Nat → g.Block) (a : UInt64) : Option (Entry g.lineBytes) :=
  (t (g.block a)).lookup (g.tag a)

theorem resident_eq_none (t : Nat → g.Block) (a : UInt64) :
    g.resident t a = none ↔ (t (g.block a)).position (g.tag a) = none :=
  ((t (g.block a)).position_eq_none (g.tag a)).symm

theorem wayLine_put (b : g.Block) (k : Tag) (e : Entry g.lineBytes) (v : Nat) :
    g.wayLine (b.put k e) v =
      if v = b.target k then ⟨e.isValid, k.1, some e.words⟩ else g.wayLine b v := by
  unfold wayLine
  rw [b.put_getElem? k e v g.ways_pos]
  split_ifs <;> rfl

theorem wayLine_data (b : g.Block) (w : Nat) (data : List UInt32)
    (h : (g.wayLine b w).data = some data) : data.length = g.lineBytes := by
  unfold wayLine at h
  cases hs : b.slots[w]? with
  | none => simp [hs, CacheLine.new] at h
  | some p =>
    rw [hs] at h
    rw [← Option.some.inj h]
    exact p.2.length_eq

theorem set_loaded (t : Nat → g.Block) (a : UInt64) (buf : List UInt32)
    (hb : g.lineBytes ≤ buf.length) :
    (g.store t).m_cacheLines.set (g.block a * g.ways + (t (g.block a)).target (g.tag a))
      ⟨true, (g.tag a).1, some (buf.take g.lineBytes)⟩ =
      (g.store (g.setLine t a buf)).m_cacheLines := by
  rw [setLine, ← g.set_line t (g.block a) _ _ _ ((t (g.block a)).target_lt _ g.ways_pos)]
  intro v _
  rw [g.wayLine_put, g.loaded_words buf hb]
  rfl

/-- A miss takes the target way and leaves it empty, its array untouched. -/
theorem newCacheLine_eq (t : Nat → g.Block) (a : UInt64) (w : Nat)
    (hm : (t (g.block a)).position (g.tag a) = none)
    (hw : w = (t (g.block a)).target (g.tag a)) :
    (g.store t).newCacheLine a = .ok (g.block a * g.ways + w, { g.store t with
      m_cacheLines := (g.store t).m_cacheLines.set (g.block a * g.ways + w)
        (g.wayLine (t (g.block a)) w).setEmpty }) := by
  have hget := g.lines_getElem? t (g.block a) _ (g.block_lt a)
    ((t (g.block a)).target_lt (g.tag a) g.ways_pos)
  rw [CacheStore.newCacheLine, getCacheBlock_eq, g.pickOrEvict_eq t a hm, ok_bind,
    (elementAt_ok _ _ _).mpr hget, ok_bind, hw]
  rfl

/-- `setDataLine` answers whether the line was resident, and puts it. -/
theorem setDataLine_eq (t : Nat → g.Block) (a : UInt64) (buf : List UInt32)
    (hb : g.lineBytes ≤ buf.length) :
    (g.store t).setDataLine a (some buf) =
      .ok ((g.resident t a).isSome, g.store (g.setLine t a buf)) := by
  have hways := g.ways_pos
  have hget := g.lines_getElem? t (g.block a) _ (g.block_lt a)
    ((t (g.block a)).target_lt (g.tag a) hways)
  have hload (cl : CacheLine) (hd : ∀ data, cl.data = some data → data.length = g.lineBytes) :
      cl.load ((g.store t).getCacheTag a) (some buf) (g.store t).p_LineSize.toNat =
        .ok ⟨true, (g.tag a).1, some (buf.take g.lineBytes)⟩ := by
    rw [getCacheTag_eq, store_lineSize]
    exact cl.load_eq (g.tag a).1 buf g.lineBytes hb hd
  have hstore : g.store (g.setLine t a buf) = { g.store t with
      m_cacheLines := (g.store (g.setLine t a buf)).m_cacheLines } := rfl
  rw [hstore, ← g.set_loaded t a buf hb]
  cases hp : (t (g.block a)).position (g.tag a) with
  | some i =>
    have hc := g.getCacheLine_eq t a
    rw [hp, Option.map_some] at hc
    rw [(t (g.block a)).target_of_hit _ i hp] at hget ⊢
    rw [CacheStore.setDataLine_of_hit _ a _ hc hget, hload _ (g.wayLine_data _ i)]
    have hr : (g.resident t a).isSome := by
      rw [Option.isSome_iff_ne_none]
      intro h
      rw [(g.resident_eq_none t a).mp h] at hp
      simp at hp
    rw [hr]
    rfl
  | none =>
    have hc := g.getCacheLine_eq t a
    rw [hp, Option.map_none] at hc
    have hat := List.getElem?_set_self (a := (g.wayLine (t (g.block a))
      ((t (g.block a)).target (g.tag a))).setEmpty) (List.getElem?_eq_some_iff.mp hget).1
    rw [CacheStore.setDataLine_of_miss _ a _ hc (g.newCacheLine_eq t a _ hp rfl) hat,
      hload (CacheLine.setEmpty _) (g.wayLine_data _ _), ok_bind, List.set_set, (g.resident_eq_none t a).mpr hp]
    rfl

theorem getCacheLine_eq_null (t : Nat → g.Block) (a : UInt64) :
    (g.store t).getCacheLine a = .ok none ↔ g.resident t a = none := by
  rw [getCacheLine_eq, Except.ok.injEq, Option.map_eq_none_iff, resident_eq_none]

theorem isResident_store (t : Nat → g.Block) (a : UInt64) :
    (g.store t).IsResident a ↔ g.resident t a ≠ none := by
  have hblock := g.getCacheBlock_eq t a
  rw [CacheStore.IsResident, hblock, store_numWays, Option.ne_none_iff_exists', getCacheTag_eq]
  constructor
  · intro h
    obtain ⟨w, cl, hw, hcl, htag⟩ := h
    rw [g.lines_getElem? t _ w (g.block_lt a) hw] at hcl
    rw [← Option.some.inj hcl] at htag
    obtain ⟨e, he⟩ := (g.wayLine_getTag_iff _ (g.tag a) w).mp htag
    exact ⟨e, ((t (g.block a)).lookup_eq_some _ e).mpr (List.mem_of_getElem? he)⟩
  · intro h
    obtain ⟨e, he⟩ := h
    obtain ⟨w, hw⟩ := List.mem_iff_getElem?.mp (((t (g.block a)).lookup_eq_some _ e).mp he)
    have hlt := (List.getElem?_eq_some_iff.mp hw).1.trans_le (t (g.block a)).fits
    exact ⟨w, _, hlt, g.lines_getElem? t _ w (g.block_lt a) hlt,
      (g.wayLine_getTag_iff _ (g.tag a) w).mpr ⟨e, hw⟩⟩

/-- A resident entry sits in the way that `getCacheLine` points to. -/
theorem wayLine_resident (t : Nat → g.Block) (a : UInt64) (i : Nat) (e : Entry g.lineBytes)
    (hp : (t (g.block a)).position (g.tag a) = some i) (he : g.resident t a = some e) :
    g.wayLine (t (g.block a)) i = ⟨e.isValid, (g.tag a).1, some e.words⟩ := by
  obtain ⟨e', hs⟩ := ((t (g.block a)).position_eq_some _ i).mp hp
  have hl := ((t (g.block a)).lookup_eq_some _ e').mpr (List.mem_of_getElem? hs)
  have heq : e = e' := Option.some.inj (he.symm.trans hl)
  rw [wayLine, hs, heq]

theorem lineWords_toNat (t : Nat → g.Block) :
    ((g.store t).p_LineSize / 4).toNat = g.lineBytes / 4 := by
  rw [UInt64.toNat_div, store_lineSize]
  rfl

theorem getDataLine_miss (t : Nat → g.Block) (a : UInt64) (buf : List UInt32)
    (hm : g.resident t a = none) : (g.store t).getDataLine a (some buf) = .ok (false, some buf) := by
  exact (g.store t).getDataLine_null a buf ((g.getCacheLine_eq_null t a).mpr hm)

/-- A hit copies out the first `lineSize / 4` words of the entry and no others. -/
theorem getDataLine_hit (t : Nat → g.Block) (a : UInt64) (buf : List UInt32)
    (e : Entry g.lineBytes) (he : g.resident t a = some e) (hb : g.lineBytes / 4 ≤ buf.length) :
    (g.store t).getDataLine a (some buf) = .ok (true,
      some (e.words.take (g.lineBytes / 4) ++ buf.drop (g.lineBytes / 4))) := by
  have hpn : (t (g.block a)).position (g.tag a) ≠ none := by
    intro h
    rw [(g.resident_eq_none t a).mpr h] at he
    simp at he
  obtain ⟨i, hp⟩ := Option.ne_none_iff_exists'.mp hpn
  have hi := ((t (g.block a)).position_lt _ i hp).trans_le (t (g.block a)).fits
  have hget := g.lines_getElem? t (g.block a) i (g.block_lt a) hi
  rw [g.wayLine_resident t a i e hp he] at hget
  have hw : g.lineBytes / 4 ≤ e.words.length := by
    rw [e.length_eq]
    omega
  simp only [CacheStore.getDataLine, g.getCacheLine_eq, hp, Option.map_some, ok_bind,
    (elementAt_ok _ _ _).mpr hget, CacheLine.getData, List.drop_zero, g.lineWords_toNat,
    copyWords_eq _ e.words buf hw hb]
  rfl

/-- `invalidate` clears the valid flag of a resident line, and changes nothing else. -/
theorem invalidate_eq (t : Nat → g.Block) (a : UInt64) :
    (g.store t).invalidate a = .ok (g.store (g.invalidateLine t a)) := by
  let b := t (g.block a)
  rw [CacheStore.invalidate, g.getCacheLine_eq, ok_bind]
  cases hp : b.position (g.tag a) with
  | none =>
    have hsame : g.invalidateLine t a = t := by
      have hl : b.lookup (g.tag a) = none := (b.position_eq_none _).mp hp
      simp only [b] at hl
      rw [invalidateLine, SlotTable.modify, hl, Function.update_eq_self]
    rw [hsame]
    rfl
  | some i =>
    obtain ⟨e, hs⟩ := (b.position_eq_some _ i).mp hp
    have hl : b.lookup (g.tag a) = some e := (b.lookup_eq_some _ e).mpr (List.mem_of_getElem? hs)
    have hi := (b.position_lt _ i hp).trans_le b.fits
    have hget := g.lines_getElem? t (g.block a) i (g.block_lt a) hi
    have hw := g.wayLine_resident t a i e hp hl
    have hset := g.set_line t (g.block a) i ((g.wayLine b i).setValid false)
      (b.modify (g.tag a) (fun e => { e with isValid := false })) hi (by
        intro v _
        rw [SlotTable.modify, hl]
        dsimp only
        rw [g.wayLine_put, b.target_of_hit _ i hp]
        simp only [b, hw, CacheLine.setValid])
    have hstore : g.store (g.invalidateLine t a) = { g.store t with
        m_cacheLines := (g.store (g.invalidateLine t a)).m_cacheLines } := rfl
    rw [hstore, invalidateLine, ← hset]
    simp only [b, Option.map_some, (elementAt_ok _ _ _).mpr hget, ok_bind]
    rfl

end Geometry

end FreeSampler
