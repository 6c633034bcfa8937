import FreeSampler.CacheStore.Runs

namespace FreeSampler

open Framework

/-- The latest set of the line of `a` in a history handed over this buffer. -/
def CacheStore.LatestSet (s : CacheStore) (ops : List StoreOp) (a : UInt64)
    (fromBuffer : List UInt32) : Prop :=
  ∃ before b after, ops = before ++ .setDataLine b fromBuffer :: after ∧
    s.getLineAddress b = s.getLineAddress a ∧
    ∀ c buf, .setDataLine c buf ∈ after → s.getLineAddress c ≠ s.getLineAddress a

namespace Geometry

variable (g : Geometry)

/-- The buffer a call hands over for the line of `a`, if it sets that line. -/
def setTo (a : UInt64) : StoreOp → Option (List UInt32)
  | .setDataLine b fromBuffer => if g.lineNumber b = g.lineNumber a then some fromBuffer else none
  | _ => none

/-- What is kept for a line is what the latest set of that line loaded. -/
def KeepsLatest (ops : List StoreOp) (t : Nat → g.Block) : Prop :=
  ∀ a e, g.resident t a = some e →
    ∃ buf, latest (g.setTo a) ops = some buf ∧ e.words = (g.loaded buf).words

/-- One call keeps the tables in step with the latest sets: a hit reloads the line, a fill
or an eviction brings in the set line only, an invalidation touches no data. -/
theorem keepsLatest_next (ops : List StoreOp) (t : Nat → g.Block) (op : StoreOp)
    (h : g.KeepsLatest ops t) : g.KeepsLatest (ops ++ [op]) (g.next t op) := by
  intro a e he
  cases op with
  | setDataLine b buf =>
    by_cases hb : g.lineNumber a = g.lineNumber b
    · have hs := g.resident_setLine_self t b a buf hb
      have heq : e = g.loaded buf := Option.some.inj (he.symm.trans hs)
      exact ⟨buf, latest_concat_some _ _ _ _ (by simp [setTo, hb]), by rw [heq]⟩
    · obtain ⟨old, hl, hw⟩ := h a e (g.resident_setLine_of_ne t b a buf e hb he)
      refine ⟨old, ?_, hw⟩
      rw [latest_concat_none _ _ _ (by simp [setTo, Ne.symm hb]), hl]
  | getDataLine b buf =>
    obtain ⟨old, hl, hw⟩ := h a e he
    exact ⟨old, by rw [latest_concat_none _ _ _ rfl, hl], hw⟩
  | invalidate b =>
    have hr := g.resident_invalidateLine t b a
    simp only [next] at he
    rw [hr] at he
    obtain ⟨e', he', hw'⟩ : ∃ e', g.resident t a = some e' ∧ e'.words = e.words := by
      split_ifs at he
      · obtain ⟨e', he', heq⟩ := Option.map_eq_some_iff.mp he
        exact ⟨e', he', by rw [← heq]⟩
      · exact ⟨e, he, rfl⟩
    obtain ⟨old, hl, hw⟩ := h a e' he'
    exact ⟨old, by rw [latest_concat_none _ _ _ rfl, hl], by rw [← hw', hw]⟩

theorem keepsLatest_tables (ops : List StoreOp) : g.KeepsLatest ops (g.tables ops) := by
  induction ops using List.reverseRecOn with
  | nil =>
    intro a e he
    simp [resident_empty] at he
  | append_singleton ops op ih =>
    rw [tables_concat]
    exact g.keepsLatest_next ops _ op ih

theorem latestSet_of_latest (t : Nat → g.Block) (a : UInt64) (ops : List StoreOp)
    (buf : List UInt32) (h : latest (g.setTo a) ops = some buf) :
    (g.store t).LatestSet ops a buf := by
  obtain ⟨before, op, after, ho, hv, hn⟩ := (latest_eq_some _ ops buf).mp h
  cases op with
  | setDataLine b fromBuffer =>
    simp only [setTo] at hv
    split_ifs at hv with hb
    have hbuf := Option.some.inj hv
    subst hbuf
    refine ⟨before, b, after, ho, (g.getLineAddress_eq_iff t b a).mpr hb, ?_⟩
    intro c d hc hcl
    have hnone := hn _ hc
    simp [setTo, (g.getLineAddress_eq_iff t c a).mp hcl] at hnone
  | getDataLine b toBuffer => simp [setTo] at hv
  | invalidate b => simp [setTo] at hv

/-- A resident line is read back as the latest buffer set for it: its first `lineSize / 4`
words, and then what the target buffer held. -/
theorem getDataLine_resident (ops : List StoreOp) (hf : ∀ op ∈ ops, op.Fits g) (a : UInt64)
    (toBuffer : List UInt32) (hb : g.lineBytes / 4 ≤ toBuffer.length)
    (he : g.resident (g.tables ops) a ≠ none) :
    ∃ fromBuffer, (g.store (g.tables ops)).LatestSet ops a fromBuffer ∧
      (g.store (g.tables ops)).getDataLine a (some toBuffer) = .ok (true,
        some (fromBuffer.take (g.lineBytes / 4) ++ toBuffer.drop (g.lineBytes / 4))) := by
  obtain ⟨e, he⟩ := Option.ne_none_iff_exists'.mp he
  obtain ⟨buf, hl, hw⟩ := g.keepsLatest_tables ops a e he
  have hset := g.latestSet_of_latest (g.tables ops) a ops buf hl
  have hfit : g.lineBytes ≤ buf.length := by
    obtain ⟨before, b, after, ho, _, _⟩ := hset
    have hm : StoreOp.setDataLine b buf ∈ ops := by simp [ho]
    exact hf _ hm
  have hmin : min (g.lineBytes / 4) g.lineBytes = g.lineBytes / 4 :=
    Nat.min_eq_left (Nat.div_le_self _ _)
  refine ⟨buf, hset, ?_⟩
  rw [g.getDataLine_hit _ a toBuffer e he hb, hw, g.loaded_words buf hfit, List.take_take, hmin]

/-- What a map from line addresses to lines would answer after a history of calls: a hit
copies out the latest buffer set for the address's line. -/
def ReturnsLatestSet (ops : List StoreOp) (s : CacheStore) : Prop :=
  ∀ a toBuffer, g.lineBytes / 4 ≤ toBuffer.length →
    ∃ hit out, s.getDataLine a (some toBuffer) = .ok (hit, some out) ∧
      (hit = true → ∃ fromBuffer, s.LatestSet ops a fromBuffer ∧
        out = fromBuffer.take (g.lineBytes / 4) ++ toBuffer.drop (g.lineBytes / 4))

/-- The store refines a map from line addresses to lines: any run of fitting calls is
answered throughout, and `getDataLine` then returns what the map holds. -/
theorem getDataLine_latest (ops : List StoreOp) (hf : ∀ op ∈ ops, op.Fits g) :
    ∃ rs s, g.runFresh ops = .ok (rs, s) ∧ g.ReturnsLatestSet ops s := by
  obtain ⟨rs, hr⟩ := g.runFresh_tables ops hf
  refine ⟨rs, _, hr, ?_⟩
  intro a toBuffer hb
  by_cases he : g.resident (g.tables ops) a = none
  · exact ⟨false, toBuffer, g.getDataLine_miss _ a toBuffer he, by simp⟩
  · obtain ⟨buf, hset, hget⟩ := g.getDataLine_resident ops hf a toBuffer hb he
    exact ⟨true, _, hget, fun _ => ⟨buf, hset, rfl⟩⟩

/-- Three lines that collide in block 0, the first of them evicted and set again. -/
theorem getDataLine_latest_colliding :
    let ops : List StoreOp := [.setDataLine 0x0 [1, 2, 3, 4, 5, 6, 7, 8],
      .setDataLine 0x10000 [11, 12, 13, 14, 15, 16, 17, 18],
      .setDataLine 0x20000 [21, 22, 23, 24, 25, 26, 27, 28], .getDataLine 0x0 [0, 0],
      .invalidate 0x10000, .setDataLine 0x4 [31, 32, 33, 34, 35, 36, 37, 38]]
    ∃ rs s, topRealCache.runFresh ops = .ok (rs, s) ∧ topRealCache.ReturnsLatestSet ops s :=
  topRealCache.getDataLine_latest _ (by decide)

end Geometry

end FreeSampler
