import FreeSampler.CacheStore.Residency
import FreeSampler.Framework.Kept
import Mathlib.Data.List.Find

namespace FreeSampler

open Framework

namespace CacheStore

/-- How a client of the line objects brings a line in: `newCacheLine`, and a load into the line that
it returns, under the tag of the address. Nothing asks whether the line is there already. -/
def insertLine (s : CacheStore) (x : UInt64 × List UInt32) : Except Fault (Nat × CacheStore) := do
  let (cl, s) ← s.newCacheLine x.1
  let line ← elementAt s.m_cacheLines cl
  let line ← line.load (s.getCacheTag x.1) (some x.2) s.p_LineSize.toNat
  return (cl, { s with m_cacheLines := s.m_cacheLines.set cl line })

theorem insertLine_ok (s : CacheStore) (x : UInt64 × List UInt32) (cl : Nat)
    (line loaded : CacheLine)
    (hpick : s.pickOrEvict (s.getCacheBlock (s.getCacheBlockIndex x.1)) = .ok cl)
    (hat : s.m_cacheLines[cl]? = some line)
    (hload : line.setEmpty.load (s.getCacheTag x.1) (some x.2) s.p_LineSize.toNat = .ok loaded) :
    s.insertLine x = .ok (cl, { s with m_cacheLines := s.m_cacheLines.set cl loaded }) := by
  have hset := (elementAt_ok _ _ _).mpr (List.getElem?_set_self (a := line.setEmpty)
    (List.getElem?_eq_some_iff.mp hat).1)
  have hnew : s.newCacheLine x.1 =
      .ok (cl, { s with m_cacheLines := s.m_cacheLines.set cl line.setEmpty }) := by
    rw [newCacheLine, hpick, ok_bind, (elementAt_ok _ _ _).mpr hat]
    rfl
  have htag : CacheStore.getCacheTag
      { s with m_cacheLines := s.m_cacheLines.set cl line.setEmpty } x.1 = s.getCacheTag x.1 := rfl
  simp only [insertLine, hnew, ok_bind, hset, htag, hload, List.set_set]
  rfl

/-- The insertions into the block of an address. -/
def insertsBeside (s : CacheStore) (a : UInt64) (xs : List (UInt64 × List UInt32)) :
    List (UInt64 × List UInt32) :=
  xs.filter (fun x => s.getCacheBlockIndex x.1 == s.getCacheBlockIndex a)

/-- The way that an insertion takes after others: the next one, or way 0 when there is none. -/
def insertionWay (s : CacheStore) (before : List (UInt64 × List UInt32)) (a : UInt64) : Nat :=
  if (s.insertsBeside a before).length < s.p_NumWays.toNat then (s.insertsBeside a before).length
  else 0

/-- The insertion that a read of an address finds: the first one of its line that is kept. -/
def insertionFound (s : CacheStore) (xs : List (UInt64 × List UInt32)) (a : UInt64) :
    Option (UInt64 × List UInt32) :=
  (kept s.p_NumWays.toNat (s.insertsBeside a xs)).find?
    (fun x => s.getLineAddress x.1 == s.getLineAddress a)

end CacheStore

namespace Geometry

variable (g : Geometry)

def insertAll (xs : List (UInt64 × List UInt32)) : Except Fault (List Nat × CacheStore) := do
  let s ← CacheStore.construct g.memorySize g.cacheSize g.lineSize g.numWays
  run CacheStore.insertLine s xs

/-- The insertions into block `i`. -/
def insertsIn (i : Nat) (xs : List (UInt64 × List UInt32)) : List (UInt64 × List UInt32) :=
  xs.filter (fun x => g.block x.1 == i)

/-- The line in way `w` of a block that keeps some insertions. -/
def insertedLine (slots : List (UInt64 × List UInt32)) (w : Nat) : CacheLine :=
  match slots[w]? with
  | some (a, buf) => ⟨true, (g.tag a).1, some (buf.take g.lineBytes)⟩
  | none => .new

/-- The store after some insertions. -/
def inserted (xs : List (UInt64 × List UInt32)) : CacheStore :=
  { g.store g.emptyBlocks with
    m_cacheLines := (List.range (g.blocks * g.ways)).map (fun k =>
      g.insertedLine (kept g.ways (g.insertsIn (k / g.ways) xs)) (k % g.ways)) }

theorem insertsIn_concat (i : Nat) (xs : List (UInt64 × List UInt32)) (x : UInt64 × List UInt32) :
    g.insertsIn i (xs ++ [x]) =
      if g.block x.1 = i then g.insertsIn i xs ++ [x] else g.insertsIn i xs := by
  split_ifs with hb
  · simp [insertsIn, hb]
  · simp [insertsIn, hb]

theorem store_empty_inserted : g.store g.emptyBlocks = g.inserted [] := by
  have hlines : (g.store g.emptyBlocks).m_cacheLines = (g.inserted []).m_cacheLines := by
    apply List.map_congr_left
    intro k _
    rfl
  rw [CacheStore.ext_iff]
  exact ⟨rfl, rfl, rfl, rfl, hlines, rfl, rfl, rfl, rfl, rfl, rfl⟩

theorem inserted_lines (xs : List (UInt64 × List UInt32)) (i w : Nat) (hi : i < g.blocks)
    (hw : w < g.ways) : (g.inserted xs).m_cacheLines[i * g.ways + w]? =
      some (g.insertedLine (kept g.ways (g.insertsIn i xs)) w) := by
  have hlt : i * g.ways + w < g.blocks * g.ways := by
    have hs := Nat.mul_le_mul_right g.ways (Nat.succ_le_of_lt hi)
    rw [Nat.succ_mul] at hs
    omega
  have hm : (i * g.ways + w) % g.ways = w := by
    rw [Nat.add_comm, Nat.add_mul_mod_self_right, Nat.mod_eq_of_lt hw]
  simp only [inserted, List.getElem?_map, List.getElem?_range hlt, Option.map_some,
    g.way_div i w hw, hm]

theorem find_emptyWay (slots : List (UInt64 × List UInt32)) (h : slots.length ≤ g.ways) :
    (List.range g.ways).find? (fun w => (g.insertedLine slots w).getEmpty) =
      if slots.length < g.ways then some slots.length else none := by
  have hfull (w : Nat) (hw : w < slots.length) : (g.insertedLine slots w).getEmpty = false := by
    have hk := (g.tag slots[w].1).2
    simpa [insertedLine, List.getElem?_eq_getElem hw, CacheLine.getEmpty] using hk
  have hempty (w : Nat) (hw : slots.length ≤ w) : (g.insertedLine slots w).getEmpty = true := by
    simp [insertedLine, List.getElem?_eq_none hw, CacheLine.getEmpty, CacheLine.new]
  split_ifs with hroom
  · rw [List.find?_range_eq_some]
    refine ⟨hempty _ le_rfl, List.mem_range.mpr hroom, ?_⟩
    intro w hw
    rw [hfull w hw]
    rfl
  · rw [List.find?_range_eq_none]
    intro w hw
    rw [hfull w (by omega)]
    rfl

theorem insertedLine_concat (ys : List (UInt64 × List UInt32)) (x : UInt64 × List UInt32)
    (v : Nat) : g.insertedLine (kept g.ways (ys ++ [x])) v =
      if v = (if ys.length < g.ways then ys.length else 0) then
        ⟨true, (g.tag x.1).1, some (x.2.take g.lineBytes)⟩
      else g.insertedLine (kept g.ways ys) v := by
  rw [insertedLine, kept_concat_getElem? g.ways g.ways_pos]
  split_ifs <;> rfl

theorem insertedLine_data (slots : List (UInt64 × List UInt32))
    (hb : ∀ y ∈ slots, g.lineBytes ≤ y.2.length) (w : Nat) (data : List UInt32)
    (h : (g.insertedLine slots w).data = some data) : data.length = g.lineBytes := by
  unfold insertedLine at h
  cases hs : slots[w]? with
  | none => simp [hs, CacheLine.new] at h
  | some y =>
    rw [hs] at h
    rw [← Option.some.inj h, List.length_take]
    exact Nat.min_eq_left (hb y (List.mem_of_getElem? hs))

theorem pickOrEvict_inserted (xs : List (UInt64 × List UInt32)) (a : UInt64) :
    (g.inserted xs).pickOrEvict (g.block a * g.ways) =
      .ok (g.block a * g.ways + if (g.insertsIn (g.block a) xs).length < g.ways then
        (g.insertsIn (g.block a) xs).length else 0) := by
  have hlen := kept_length g.ways g.ways_pos (g.insertsIn (g.block a) xs)
  have hways : (g.inserted xs).p_NumWays.toNat = g.ways := g.numWays_eq
  rw [CacheStore.pickOrEvict, hways, CacheStore.scanWays_eq _ _ _
    (g.insertedLine (kept g.ways (g.insertsIn (g.block a) xs))) g.ways 0 g.ways (by omega)
    (fun v hv => g.inserted_lines xs _ v (g.block_lt a) hv) (by simp), ok_bind,
    g.find_emptyWay _ (by omega)]
  by_cases hroom : (g.insertsIn (g.block a) xs).length < g.ways
  · rw [if_pos (by omega), if_pos hroom, hlen, Nat.min_eq_left hroom.le]
    rfl
  · rw [if_neg (by omega), if_neg hroom]
    rfl

/-- A client gets the next way of the block, or way 0, and its line is in it. -/
theorem insertLine_eq (xs : List (UInt64 × List UInt32)) (x : UInt64 × List UInt32)
    (hxs : ∀ y ∈ xs, g.lineBytes ≤ y.2.length) (hb : g.lineBytes ≤ x.2.length) (w : Nat)
    (hway : w = if (g.insertsIn (g.block x.1) xs).length < g.ways then
      (g.insertsIn (g.block x.1) xs).length else 0) :
    (g.inserted xs).insertLine x = .ok (g.block x.1 * g.ways + w, g.inserted (xs ++ [x])) := by
  have hpos := g.ways_pos
  have hw : w < g.ways := by
    rw [hway]
    split_ifs <;> omega
  have hpick : (g.inserted xs).pickOrEvict
      ((g.inserted xs).getCacheBlock ((g.inserted xs).getCacheBlockIndex x.1)) =
      .ok (g.block x.1 * g.ways + w) := by
    have hblock : (g.inserted xs).getCacheBlock ((g.inserted xs).getCacheBlockIndex x.1) =
        g.block x.1 * g.ways := g.getCacheBlock_eq g.emptyBlocks x.1
    rw [hblock, g.pickOrEvict_inserted xs x.1, hway]
  have hload := CacheLine.load_eq
    (g.insertedLine (kept g.ways (g.insertsIn (g.block x.1) xs)) w).setEmpty
    (g.tag x.1).1 x.2 g.lineBytes hb (g.insertedLine_data _ (by
      intro y hy
      exact hxs y (List.mem_filter.mp (mem_of_kept g.ways _ y hy)).1) w)
  have hset := rows_set (fun j v => g.insertedLine (kept g.ways (g.insertsIn j xs)) v)
    (fun j v => g.insertedLine (kept g.ways (g.insertsIn j (xs ++ [x]))) v) g.blocks g.ways
    (g.block x.1) w ⟨true, (g.tag x.1).1, some (x.2.take g.lineBytes)⟩ hw (by
      intro j v _
      rw [insertsIn_concat]
      by_cases hj : g.block x.1 = j
      · subst hj
        simp only [if_true, true_and, insertedLine_concat, hway]
      · rw [if_neg hj, if_neg (fun hn => hj hn.1.symm)])
  have hsize : (g.inserted xs).p_LineSize.toNat = g.lineBytes := g.lineSize_eq
  rw [← hsize] at hload
  rw [CacheStore.insertLine_ok _ x _ _ _ hpick (g.inserted_lines xs _ w (g.block_lt x.1) hw) hload,
    hsize]
  exact congrArg
    (fun lines => Except.ok (_, { g.store g.emptyBlocks with m_cacheLines := lines })) hset

theorem insertsBeside_eq (xs ys : List (UInt64 × List UInt32)) (a : UInt64) :
    (g.inserted ys).insertsBeside a xs = g.insertsIn (g.block a) xs := by
  apply List.filter_congr
  intro x _
  rw [Bool.eq_iff_iff, beq_iff_eq, beq_iff_eq]
  exact g.getCacheBlockIndex_inj g.emptyBlocks x.1 a

/-- In the block of an address, the insertions of its line are those with its tag. -/
theorem sameLine_iff_tag (xs ys : List (UInt64 × List UInt32)) (a : UInt64)
    (x : UInt64 × List UInt32) (hx : x ∈ kept g.ways (g.insertsIn (g.block a) xs)) :
    ((g.inserted ys).getLineAddress x.1 == (g.inserted ys).getLineAddress a) =
      ((g.tag x.1).1 == (g.tag a).1) := by
  have hblock : g.block x.1 = g.block a := by
    simpa using (List.mem_filter.mp (mem_of_kept g.ways _ x hx)).2
  rw [Bool.eq_iff_iff, beq_iff_eq, beq_iff_eq, ← Subtype.ext_iff]
  exact g.getLineAddress_eq_iff_tag g.emptyBlocks x.1 a hblock

theorem find_insertedTag (slots : List (UInt64 × List UInt32)) (h : slots.length ≤ g.ways)
    (k : Tag) : (List.range g.ways).find? (fun w => (g.insertedLine slots w).getTag == k.1) =
      slots.findIdx? (fun x => (g.tag x.1).1 == k.1) := by
  have hused (w : Nat) (hw : w < slots.length) :
      (g.insertedLine slots w).getTag = (g.tag slots[w].1).1 := by
    rw [insertedLine, List.getElem?_eq_getElem hw]
    rfl
  have hfree (w : Nat) (hw : slots.length ≤ w) : (g.insertedLine slots w).getTag ≠ k.1 := by
    rw [insertedLine, List.getElem?_eq_none hw]
    exact k.2.symm
  cases hi : slots.findIdx? (fun x => (g.tag x.1).1 == k.1) with
  | none =>
    rw [List.find?_range_eq_none]
    intro w _
    rw [Bool.not_eq_true', beq_eq_false_iff_ne]
    by_cases hw : w < slots.length
    · rw [hused w hw]
      simpa using List.findIdx?_eq_none_iff.mp hi slots[w] (List.getElem_mem hw)
    · exact hfree w (by omega)
  | some i =>
    obtain ⟨hlt, htag, hbefore⟩ := List.findIdx?_eq_some_iff_getElem.mp hi
    rw [List.find?_range_eq_some, hused i hlt]
    refine ⟨htag, List.mem_range.mpr (by omega), ?_⟩
    intro w hw
    rw [hused w (by omega)]
    simpa using hbefore w hw

theorem getCacheLine_inserted (xs : List (UInt64 × List UInt32)) (a : UInt64) :
    (g.inserted xs).getCacheLine a =
      .ok (((kept g.ways (g.insertsIn (g.block a) xs)).findIdx?
        (fun x => (g.tag x.1).1 == (g.tag a).1)).map (g.block a * g.ways + ·)) := by
  have hways : (g.inserted xs).p_NumWays.toNat = g.ways := g.numWays_eq
  have hlen := kept_length g.ways g.ways_pos (g.insertsIn (g.block a) xs)
  have hblock : (g.inserted xs).getCacheBlock ((g.inserted xs).getCacheBlockIndex a) =
      g.block a * g.ways := g.getCacheBlock_eq g.emptyBlocks a
  have htag : (g.inserted xs).getCacheTag a = (g.tag a).1 := rfl
  rw [CacheStore.getCacheLine, hblock, htag, hways, CacheStore.scanWays_eq _ _ _
    (g.insertedLine (kept g.ways (g.insertsIn (g.block a) xs))) g.ways 0 g.ways (by omega)
    (fun v hv => g.inserted_lines xs _ v (g.block_lt a) hv) (by simp),
    g.find_insertedTag _ (by omega)]

theorem insertionFound_eq (xs : List (UInt64 × List UInt32)) (a : UInt64) :
    (g.inserted xs).insertionFound xs a = (kept g.ways (g.insertsIn (g.block a) xs)).find?
      (fun x => (g.tag x.1).1 == (g.tag a).1) := by
  have hways : (g.inserted xs).p_NumWays.toNat = g.ways := g.numWays_eq
  rw [CacheStore.insertionFound, insertsBeside_eq, hways]
  exact List.find?_congr (fun x hx => g.sameLine_iff_tag xs xs a x hx)

/-- A read of an address finds the first insertion of its line that the block keeps. -/
theorem getDataLine_inserted (xs : List (UInt64 × List UInt32))
    (hxs : ∀ y ∈ xs, g.lineBytes ≤ y.2.length) (a : UInt64) (out : List UInt32)
    (hout : g.lineBytes / 4 ≤ out.length) : (g.inserted xs).getDataLine a (some out) =
      match (g.inserted xs).insertionFound xs a with
      | some x => .ok (true, some (x.2.take (g.lineBytes / 4) ++ out.drop (g.lineBytes / 4)))
      | none => .ok (false, some out) := by
  have hlen := kept_length g.ways g.ways_pos (g.insertsIn (g.block a) xs)
  have hline := g.getCacheLine_inserted xs a
  rw [insertionFound_eq]
  cases hi : (kept g.ways (g.insertsIn (g.block a) xs)).findIdx?
      (fun x => (g.tag x.1).1 == (g.tag a).1) with
  | none =>
    have hnone := List.find?_eq_none.mpr (fun x hx =>
      Bool.not_eq_true _ ▸ List.findIdx?_eq_none_iff.mp hi x hx)
    rw [hi] at hline
    simp only [CacheStore.getDataLine, hline, hnone, Option.map_none, ok_bind]
    rfl
  | some i =>
    obtain ⟨hlt, htagi, hbefore⟩ := List.findIdx?_eq_some_iff_getElem.mp hi
    let x := (kept g.ways (g.insertsIn (g.block a) xs))[i]
    have hsome : (kept g.ways (g.insertsIn (g.block a) xs)).find?
        (fun x => (g.tag x.1).1 == (g.tag a).1) = some x :=
      List.find?_eq_some_iff_getElem.mpr ⟨htagi, i, hlt, rfl, by simpa using hbefore⟩
    have hat : (g.inserted xs).m_cacheLines[g.block a * g.ways + i]? =
        some ⟨true, (g.tag x.1).1, some (x.2.take g.lineBytes)⟩ := by
      rw [g.inserted_lines xs _ i (g.block_lt a) (by omega), insertedLine,
        List.getElem?_eq_getElem hlt]
    have hx : g.lineBytes ≤ x.2.length :=
      hxs x (List.mem_filter.mp (mem_of_kept g.ways _ x (List.getElem_mem hlt))).1
    have hwords : ((g.inserted xs).p_LineSize / 4).toNat = g.lineBytes / 4 :=
      g.lineWords_toNat g.emptyBlocks
    have hcopy := copyWords_eq (g.lineBytes / 4) (x.2.take g.lineBytes) out
      (by rw [List.length_take]; omega) hout
    rw [List.take_take, Nat.min_eq_left (Nat.div_le_self _ _)] at hcopy
    rw [hi] at hline
    simp only [CacheStore.getDataLine, hline, hsome, Option.map_some, ok_bind,
      (elementAt_ok _ _ _).mpr hat, CacheLine.getData, List.drop_zero, hwords, hcopy]
    rfl

/-- Clients that bring lines in without looking them up. Every insertion gets the next way of its
block, or way 0 when there is none left, also where the line is there already; and what a read finds
in the end is the first insertion of its line among those kept, not the last. -/
theorem insertAll_found (xs : List (UInt64 × List UInt32))
    (hxs : ∀ x ∈ xs, g.lineBytes ≤ x.2.length) :
    ∃ cls s, g.insertAll xs = .ok (cls, s) ∧
      EveryStep (fun h x => x.2 = s.getCacheBlock (s.getCacheBlockIndex x.1.1) +
        s.insertionWay (h.map Prod.fst) x.1.1) (xs.zip cls) ∧
      ∀ a out, g.lineBytes / 4 ≤ out.length → s.getDataLine a (some out) =
        match s.insertionFound xs a with
        | some x => .ok (true, some (x.2.take (g.lineBytes / 4) ++ out.drop (g.lineBytes / 4)))
        | none => .ok (false, some out) := by
  have hstep (x : UInt64 × List UInt32) (hx : x ∈ xs) (h : List ((UInt64 × List UInt32) × Nat))
      (u : CacheStore) (hu : u = g.inserted (h.map Prod.fst) ∧
        ∀ y ∈ h.map Prod.fst, g.lineBytes ≤ y.2.length) :
      ∃ cl v, u.insertLine x = .ok (cl, v) ∧
        (v = g.inserted ((h ++ [(x, cl)]).map Prod.fst) ∧
          ∀ y ∈ (h ++ [(x, cl)]).map Prod.fst, g.lineBytes ≤ y.2.length) ∧
        cl = (g.inserted []).getCacheBlock ((g.inserted []).getCacheBlockIndex x.1) +
          (g.inserted []).insertionWay (h.map Prod.fst) x.1 := by
    obtain ⟨rfl, hbefore⟩ := hu
    have hblock : (g.inserted []).getCacheBlock ((g.inserted []).getCacheBlockIndex x.1) =
        g.block x.1 * g.ways := g.getCacheBlock_eq g.emptyBlocks x.1
    have hways : (g.inserted []).p_NumWays.toNat = g.ways := g.numWays_eq
    refine ⟨_, _, g.insertLine_eq _ x hbefore (hxs x hx) _ rfl, ⟨?_, ?_⟩, ?_⟩
    · rw [List.map_append, List.map_singleton]
    · intro y hy
      rw [List.map_append, List.mem_append] at hy
      rcases hy with hold | hnew
      · exact hbefore y hold
      · rw [List.mem_singleton.mp hnew]
        exact hxs x hx
    · rw [hblock, CacheStore.insertionWay, insertsBeside_eq, hways]
  obtain ⟨cls, s, hr, ⟨hend, _⟩, hall⟩ := run_answered CacheStore.insertLine
    (fun h s => s = g.inserted (h.map Prod.fst) ∧ ∀ y ∈ h.map Prod.fst, g.lineBytes ≤ y.2.length)
    (fun h x => x.2 = (g.inserted []).getCacheBlock ((g.inserted []).getCacheBlockIndex x.1.1) +
      (g.inserted []).insertionWay (h.map Prod.fst) x.1.1)
    (g.inserted []) xs hstep ⟨rfl, by simp⟩
  rw [List.map_fst_zip (run_length _ _ _ _ _ hr).ge] at hend
  refine ⟨cls, s, ?_, ?_, ?_⟩
  · rw [insertAll, g.construct_eq, ok_bind, g.store_empty_inserted]
    exact hr
  · rw [hend]
    exact hall
  · intro a out hout
    rw [hend]
    exact g.getDataLine_inserted xs hxs a out hout

/-- Four lines of block 0 in its two ways, the second one twice. -/
theorem insertAll_found_conflicts :
    let xs : List (UInt64 × List UInt32) := [(0x0, [0, 1, 2, 3, 4, 5, 6, 7]),
      (0x10000, [10, 11, 12, 13, 14, 15, 16, 17]), (0x20000, [20, 21, 22, 23, 24, 25, 26, 27]),
      (0x10000, [30, 31, 32, 33, 34, 35, 36, 37])]
    ∃ cls s, topRealCache.insertAll xs = .ok (cls, s) ∧
      EveryStep (fun h x => x.2 = s.getCacheBlock (s.getCacheBlockIndex x.1.1) +
        s.insertionWay (h.map Prod.fst) x.1.1) (xs.zip cls) ∧
      ∀ a out, topRealCache.lineBytes / 4 ≤ out.length → s.getDataLine a (some out) =
        match s.insertionFound xs a with
        | some x => .ok (true, some (x.2.take (topRealCache.lineBytes / 4) ++
            out.drop (topRealCache.lineBytes / 4)))
        | none => .ok (false, some out) :=
  topRealCache.insertAll_found _ (by decide)

/-- The second insertion of a line is not the one that is read. -/
example : (do
    let (_, s) ← topRealCache.insertAll [(0x0, [0, 1, 2, 3, 4, 5, 6, 7]),
      (0x4, [10, 11, 12, 13, 14, 15, 16, 17])]
    s.getDataLine 0x0 (some [9, 9])) = .ok (true, some [0, 1]) := by decide +kernel

end Geometry

end FreeSampler
