import FreeSampler.CacheStore.Runs

namespace FreeSampler

open Framework

/-- A call that sets the line of `a`. -/
def CacheStore.SetsLine (s : CacheStore) (a : UInt64) : StoreOp → Prop
  | .setDataLine b _ => s.getLineAddress b = s.getLineAddress a
  | _ => False

namespace Geometry

variable (g : Geometry)

/-- After `invalidate(a)`, and until the line of `a` is set again, no `getDataLine` for that
line hits, and the next `setDataLine` for it reports a miss. -/
def InvalidationEffective (s : CacheStore) (a : UInt64) : Prop :=
  ∀ s' ops rs u, s.invalidate a = .ok s' → (∀ op ∈ ops, op.Fits g ∧ ¬ s.SetsLine a op) →
    run CacheStore.step s' ops = .ok (rs, u) →
    ∀ b, s.getLineAddress b = s.getLineAddress a →
      (∀ toBuffer, g.lineBytes / 4 ≤ toBuffer.length →
        ∃ out, u.getDataLine b (some toBuffer) = .ok (false, out)) ∧
      (∀ fromBuffer, g.lineBytes ≤ fromBuffer.length →
        ∃ u', u.setDataLine b (some fromBuffer) = .ok (false, u'))

theorem resident_next_none (t u : Nat → g.Block) (a : UInt64) (op : StoreOp)
    (h : g.resident t a = none) (hn : ¬ (g.store u).SetsLine a op) :
    g.resident (g.next t op) a = none := by
  cases op with
  | setDataLine b buf =>
    have hb : g.lineNumber a ≠ g.lineNumber b := by
      intro hab
      exact hn ((g.getLineAddress_eq_iff u b a).mpr hab.symm)
    rw [Option.eq_none_iff_forall_ne_some]
    intro e he
    rw [g.resident_setLine_of_ne t b a buf e hb he] at h
    simp at h
  | getDataLine b buf => exact h
  | invalidate b =>
    rw [next, resident_invalidateLine, h]
    split_ifs <;> rfl

theorem resident_foldl_none (t u : Nat → g.Block) (a : UInt64) (ops : List StoreOp)
    (h : g.resident t a = none) (hn : ∀ op ∈ ops, ¬ (g.store u).SetsLine a op) :
    g.resident (ops.foldl g.next t) a = none := by
  induction ops generalizing t with
  | nil => exact h
  | cons op ops ih =>
    exact ih (g.next t op) (g.resident_next_none t u a op h (hn op (by simp)))
      (fun o ho => hn o (by simp [ho]))

/-- `getCacheLine` does not look at the valid flag, so an invalidation is effective exactly
when there is nothing to invalidate. -/
theorem invalidationEffective_store (t : Nat → g.Block) (a : UInt64) :
    g.InvalidationEffective (g.store t) a ↔ ¬ (g.store t).IsResident a := by
  rw [isResident_store, not_not]
  constructor
  · intro h
    by_contra hr
    obtain ⟨e, he⟩ := Option.ne_none_iff_exists'.mp hr
    have hi : g.resident (g.invalidateLine t a) a = some { e with isValid := false } := by
      rw [resident_invalidateLine, if_pos rfl, he]
      rfl
    let buf : List UInt32 := List.replicate (g.lineBytes / 4) 0
    have hb : g.lineBytes / 4 ≤ buf.length := by simp [buf]
    obtain ⟨out, hout⟩ := (h _ [] _ _ (g.invalidate_eq t a) (by simp) rfl a rfl).1 buf hb
    rw [g.getDataLine_hit _ a buf _ hi hb] at hout
    simp at hout
  · intro hr s' ops rs u hs hops hrun b hb
    have hi : g.resident (g.invalidateLine t a) a = none := by
      rw [resident_invalidateLine, if_pos rfl, hr]
      rfl
    have hs' : s' = g.store (g.invalidateLine t a) :=
      Except.ok.inj (hs.symm.trans (g.invalidate_eq t a))
    obtain ⟨rs', hrun'⟩ := g.run_tables (g.invalidateLine t a) ops (fun op ho => (hops op ho).1)
    rw [hs', hrun'] at hrun
    have hu := (ok_inj hrun).2
    have hline := (g.getLineAddress_eq_iff t b a).mp hb
    have hnone : g.resident (ops.foldl g.next (g.invalidateLine t a)) b = none := by
      rw [g.resident_congr _ b a hline]
      exact g.resident_foldl_none _ t a ops hi (fun op ho => (hops op ho).2)
    rw [← hu]
    constructor
    · intro toBuffer _
      exact ⟨_, g.getDataLine_miss _ b toBuffer hnone⟩
    · intro fromBuffer hfit
      have hset := g.setDataLine_eq (ops.foldl g.next (g.invalidateLine t a)) b fromBuffer hfit
      rw [hnone] at hset
      exact ⟨_, hset⟩

/-- In every reachable store, invalidating an address keeps its line from hitting exactly
when no way of its block holds the address's tag before the call. -/
theorem invalidate_effective_iff (ops : List StoreOp) (hf : ∀ op ∈ ops, op.Fits g) :
    ∃ rs s, g.runFresh ops = .ok (rs, s) ∧
      ∀ a, g.InvalidationEffective s a ↔ ¬ s.IsResident a := by
  obtain ⟨rs, hr⟩ := g.runFresh_tables ops hf
  exact ⟨rs, _, hr, fun a => g.invalidationEffective_store _ a⟩

/-- A store that holds one line and not another. -/
theorem invalidate_effective_iff_one_line : ∃ rs s,
    topRealCache.runFresh [.setDataLine 0x0 [1, 2, 3, 4, 5, 6, 7, 8]] = .ok (rs, s) ∧
      ∀ a, topRealCache.InvalidationEffective s a ↔ ¬ s.IsResident a :=
  topRealCache.invalidate_effective_iff _ (by decide)

/-- One line set, then invalidated: it still hits, with its old words. -/
theorem invalidated_line_hits :
    (topRealCache.runFresh [.setDataLine 0x0 [1, 2, 3, 4, 5, 6, 7, 8], .invalidate 0x0,
      .getDataLine 0x0 [0, 0]]).map Prod.fst =
        .ok [.set false, .invalidated, .get true (some [1, 2])] ∧
    ¬ ∀ rs s, topRealCache.runFresh [.setDataLine 0x0 [1, 2, 3, 4, 5, 6, 7, 8]] = .ok (rs, s) →
      topRealCache.InvalidationEffective s 0x0 := by
  refine ⟨by decide, ?_⟩
  intro h
  obtain ⟨rs, hr⟩ := topRealCache.runFresh_tables
    [.setDataLine 0x0 [1, 2, 3, 4, 5, 6, 7, 8]] (by decide)
  have hnull := (topRealCache.invalidationEffective_store _ 0x0).mp (h _ _ hr)
  rw [isResident_store, not_not] at hnull
  have hres := topRealCache.resident_setLine_self topRealCache.emptyBlocks 0x0 0x0
    [1, 2, 3, 4, 5, 6, 7, 8] rfl
  exact absurd (hres.symm.trans hnull) (by simp)

end Geometry

end FreeSampler
