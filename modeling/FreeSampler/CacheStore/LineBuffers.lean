import FreeSampler.CacheStore.Runs
import FreeSampler.Framework.Bytes

namespace FreeSampler

open Framework

/-- A set from a line buffer of `p_LineSize` bytes stays inside it, and a get of the line into
another such buffer stays inside that one and brings all the bytes back. -/
def CacheStore.ReproducesLine (s : CacheStore) (a : UInt64) (line : List UInt8) : Prop :=
  ∃ hit s', s.setDataLine a (some (toWords line)) = .ok (hit, s') ∧
    ∀ (b : UInt64) (buffer : List UInt8), s.getLineAddress b = s.getLineAddress a →
      buffer.length = s.p_LineSize.toNat →
      ∃ words, s'.getDataLine b (some (toWords buffer)) = .ok (true, some words) ∧
        overlay buffer words = line

namespace Geometry

variable (g : Geometry)

/-- A set reads `p_LineSize` words, whatever way it goes: a buffer with fewer words is overrun. -/
theorem setDataLine_short (t : Nat → g.Block) (a : UInt64) (buf : List UInt32)
    (hb : buf.length < g.lineBytes) :
    (g.store t).setDataLine a (some buf) = .error .outOfBounds := by
  have hget := g.lines_getElem? t (g.block a) _ (g.block_lt a)
    ((t (g.block a)).target_lt (g.tag a) g.ways_pos)
  have hload (cl : CacheLine) :
      cl.load ((g.store t).getCacheTag a) (some buf) (g.store t).p_LineSize.toNat =
        .error .outOfBounds := by
    rw [getCacheTag_eq, store_lineSize]
    exact cl.load_short (g.tag a).1 buf g.lineBytes hb
  have hc := g.getCacheLine_eq t a
  cases hp : (t (g.block a)).position (g.tag a) with
  | some i =>
    rw [hp, Option.map_some] at hc
    rw [(t (g.block a)).target_of_hit _ i hp] at hget
    rw [CacheStore.setDataLine_of_hit _ a _ hc hget, hload]
    rfl
  | none =>
    rw [hp, Option.map_none] at hc
    have hat := List.getElem?_set_self (a := (g.wayLine (t (g.block a))
      ((t (g.block a)).target (g.tag a))).setEmpty) (List.getElem?_eq_some_iff.mp hget).1
    rw [CacheStore.setDataLine_of_miss _ a _ hc (g.newCacheLine_eq t a _ hp rfl) hat, hload]
    rfl

theorem setDataLine_inside_iff (t : Nat → g.Block) (a : UInt64) (buf : List UInt32) :
    (∃ hit s', (g.store t).setDataLine a (some buf) = .ok (hit, s')) ↔ g.lineBytes ≤ buf.length := by
  constructor
  · intro h
    by_contra hlt
    obtain ⟨hit, s', hs⟩ := h
    rw [g.setDataLine_short t a buf (by omega)] at hs
    simp at hs
  · intro h
    exact ⟨_, _, g.setDataLine_eq t a buf h⟩

theorem step_tables (t : Nat → g.Block) (op : StoreOp) (r : StoreResult) (s' : CacheStore)
    (h : (g.store t).step op = .ok (r, s')) : ∃ t', s' = g.store t' := by
  cases op with
  | setDataLine a buf =>
    simp only [CacheStore.step, bind_eq_ok, Prod.exists] at h
    obtain ⟨hit, u, hs, hr⟩ := h
    have hfit := (g.setDataLine_inside_iff t a buf).mp ⟨hit, u, hs⟩
    rw [g.setDataLine_eq t a buf hfit] at hs
    rw [← (ok_inj hr).2, ← (ok_inj hs).2]
    exact ⟨_, rfl⟩
  | getDataLine a buf =>
    simp only [CacheStore.step, bind_eq_ok, Prod.exists] at h
    obtain ⟨hit, out, _, hr⟩ := h
    exact ⟨t, (ok_inj hr).2.symm⟩
  | invalidate a =>
    simp only [CacheStore.step, g.invalidate_eq, ok_bind] at h
    exact ⟨_, (ok_inj h).2.symm⟩

/-- Every store that a run reaches holds tables, whatever its buffers. -/
theorem runFresh_reaches (ops : List StoreOp) (rs : List StoreResult) (s : CacheStore)
    (h : g.runFresh ops = .ok (rs, s)) : ∃ t, s = g.store t := by
  rw [runFresh, CacheStore.runFresh, g.construct_eq, ok_bind] at h
  apply run_invariant CacheStore.step (fun _ s => ∃ t, s = g.store t) _ s [] ops rs ?_ ⟨_, rfl⟩ h
  intro op _ _ u r u' hu hs
  obtain ⟨t, rfl⟩ := hu
  exact g.step_tables t op r u' hs

/-- No reachable store reproduces any line from a buffer of `p_LineSize` bytes. -/
theorem lineBuffer_overrun (ops : List StoreOp) (rs : List StoreResult) (s : CacheStore)
    (h : g.runFresh ops = .ok (rs, s)) (a : UInt64) (line : List UInt8)
    (hline : line.length = s.p_LineSize.toNat) : ¬ s.ReproducesLine a line := by
  obtain ⟨t, rfl⟩ := g.runFresh_reaches ops rs s h
  intro hrep
  obtain ⟨hit, s', hs, _⟩ := hrep
  have hfit := (g.setDataLine_inside_iff t a (toWords line)).mp ⟨hit, s', hs⟩
  have hpos : 0 < g.lineBytes := Nat.two_pow_pos _
  rw [toWords_length, hline, store_lineSize] at hfit
  omega

/-- A line set with a whole number of words, and then from a buffer of its 8 bytes. -/
theorem lineBuffer_overrun_hit :
    ∃ rs s, topRealCache.runFresh [.setDataLine 0x0 [1, 2, 3, 4, 5, 6, 7, 8]] = .ok (rs, s) ∧
      ¬ s.ReproducesLine 0x4 [1, 2, 3, 4, 5, 6, 7, 8] := by
  obtain ⟨⟨rs, s⟩, h⟩ := exists_ok
    (topRealCache.runFresh [.setDataLine 0x0 [1, 2, 3, 4, 5, 6, 7, 8]]) (by decide +kernel)
  obtain ⟨t, hs⟩ := topRealCache.runFresh_reaches _ rs s h
  refine ⟨rs, s, h, topRealCache.lineBuffer_overrun _ rs s h 0x4 _ ?_⟩
  rw [hs]
  rfl

/-- The first set of the first line, from a buffer of 8 bytes as the cache allocates it. -/
theorem lineBuffer_overrun_first :
    (topRealCache.store topRealCache.emptyBlocks).setDataLine 0x0
      (some (toWords [1, 2, 3, 4, 5, 6, 7, 8])) = .error .outOfBounds ∧
    ¬ (topRealCache.store topRealCache.emptyBlocks).ReproducesLine 0x0 [1, 2, 3, 4, 5, 6, 7, 8] := by
  have hs : (topRealCache.store topRealCache.emptyBlocks).setDataLine 0x0
      (some (toWords [1, 2, 3, 4, 5, 6, 7, 8])) = .error .outOfBounds := by decide
  refine ⟨hs, ?_⟩
  intro h
  obtain ⟨hit, s', hok, _⟩ := h
  rw [hs] at hok
  simp at hok

end Geometry

end FreeSampler
