import FreeSampler.CacheStore.Representation
import FreeSampler.Framework.Keyed
import Mathlib.Data.List.Forall2

namespace FreeSampler

open Framework

def StoreOp.memoryAddress : StoreOp → UInt64
  | .setDataLine a _ => a
  | .getDataLine a _ => a
  | .invalidate a => a

namespace CacheStore

/-- The calls of a run at the addresses of block `i`. -/
def opsAt (s : CacheStore) (i : UInt64) (ops : List StoreOp) : List StoreOp :=
  ops.filter (fun op => s.getCacheBlockIndex op.memoryAddress == i)

/-- The calls of a run at the addresses of block `i`, with their results. -/
def resultsAt (s : CacheStore) (i : UInt64) (h : List (StoreOp × StoreResult)) :
    List (StoreOp × StoreResult) :=
  h.filter (fun x => s.getCacheBlockIndex x.1.memoryAddress == i)

/-- Two calls give the same results and leave the same store in either order. -/
def Commute (s : CacheStore) (op op' : StoreOp) : Prop :=
  ∃ r r' t, run step s [op, op'] = .ok ([r, r'], t) ∧ run step s [op', op] = .ok ([r', r], t)

end CacheStore

namespace Geometry

variable (g : Geometry)

def blockGet (b : g.Block) (a : UInt64) (toBuffer : List UInt32) : StoreResult :=
  match b.lookup (g.tag a) with
  | none => .get false (some toBuffer)
  | some e => .get true (some (e.words.take (g.lineBytes / 4) ++ toBuffer.drop (g.lineBytes / 4)))

/-- What a call answers, and what it does to the block that its address selects. -/
def blockStep (b : g.Block) : StoreOp → Except Fault (StoreResult × g.Block)
  | .setDataLine a buf => .ok (.set (b.lookup (g.tag a)).isSome, b.put (g.tag a) (g.loaded buf))
  | .getDataLine a buf => .ok (g.blockGet b a buf, b)
  | .invalidate a => .ok (.invalidated, g.invalidateTag b (g.tag a))

def opBlock (op : StoreOp) : Nat := g.block op.memoryAddress

theorem step_getDataLine (t : Nat → g.Block) (a : UInt64) (buf : List UInt32)
    (hf : g.lineBytes / 4 ≤ buf.length) : (g.store t).step (.getDataLine a buf) =
      .ok (g.blockGet (t (g.block a)) a buf, g.store t) := by
  cases hr : g.resident t a with
  | none =>
    rw [CacheStore.step, g.getDataLine_miss t a buf hr, blockGet]
    rw [resident] at hr
    rw [hr]
    rfl
  | some e =>
    rw [CacheStore.step, g.getDataLine_hit t a buf e hr hf, blockGet]
    rw [resident] at hr
    rw [hr]
    rfl

/-- The store is the family of its blocks: a call steps its own block and no other. -/
theorem step_keyed (t : Nat → g.Block) (op : StoreOp) (hf : op.Fits g) :
    ∃ r b, g.blockStep (t (g.opBlock op)) op = .ok (r, b) ∧
      (g.store t).step op = .ok (r, g.store (Function.update t (g.opBlock op) b)) := by
  cases op with
  | setDataLine a buf =>
    refine ⟨_, _, rfl, ?_⟩
    rw [CacheStore.step, g.setDataLine_eq t a buf hf]
    rfl
  | getDataLine a buf =>
    refine ⟨_, _, rfl, ?_⟩
    rw [Function.update_eq_self]
    exact g.step_getDataLine t a buf hf
  | invalidate a =>
    refine ⟨_, _, rfl, ?_⟩
    rw [CacheStore.step, g.invalidate_eq]
    rfl

theorem run_keyed (t : Nat → g.Block) (ops : List StoreOp) (hf : ∀ op ∈ ops, op.Fits g) :
    ∃ rs t', run CacheStore.step (g.store t) ops = .ok (rs, g.store t') ∧
      run (keyed g.opBlock g.blockStep) t ops = .ok (rs, t') := by
  have hops : List.Forall₂ (fun op op' => op = op' ∧ op.Fits g) ops ops := by
    rw [List.forall₂_same]
    intro op ho
    exact ⟨rfl, hf op ho⟩
  have hstep (s : CacheStore) (t : Nat → g.Block) (op op' : StoreOp) (hs : s = g.store t)
      (hop : op = op' ∧ op.Fits g) : ∃ r s' t', s.step op = .ok (r, s') ∧
        keyed g.opBlock g.blockStep t op' = .ok (r, t') ∧ s' = g.store t' := by
    obtain ⟨rfl, hfit⟩ := hop
    obtain ⟨r, b, hb, hr⟩ := g.step_keyed t op hfit
    rw [hs]
    exact ⟨r, _, _, hr, (keyed_ok g.opBlock g.blockStep t _ op r).mpr ⟨b, hb, rfl⟩, rfl⟩
  obtain ⟨rs, s, t', hr, hk, rfl⟩ := run_lockstep CacheStore.step (keyed g.opBlock g.blockStep)
    (fun s t => s = g.store t) _ hstep (g.store t) t ops ops rfl hops
  exact ⟨rs, t', hr, hk⟩

theorem index_eq_opBlock (t : Nat → g.Block) (op : StoreOp) (i : UInt64) :
    ((g.store t).getCacheBlockIndex op.memoryAddress == i) = decide (g.opBlock op = i.toNat) := by
  apply Bool.eq_iff_iff.mpr
  rw [beq_iff_eq, decide_eq_true_eq, ← UInt64.toNat_inj, g.getCacheBlockIndex_toNat, opBlock]

theorem opsAt_eq (t : Nat → g.Block) (i : UInt64) (ops : List StoreOp) :
    (g.store t).opsAt i ops = atKey g.opBlock i.toNat ops := by
  apply List.filter_congr
  intro op _
  exact g.index_eq_opBlock t op i

theorem resultsAt_eq (t : Nat → g.Block) (i : UInt64) (h : List (StoreOp × StoreResult)) :
    (g.store t).resultsAt i h = answersAtKey g.opBlock i.toNat h := by
  apply List.filter_congr
  intro x _
  exact g.index_eq_opBlock t x.1 i

theorem commute_store (t : Nat → g.Block) (op op' : StoreOp) (hf : op.Fits g) (hf' : op'.Fits g)
    (hne : (g.store t).getCacheBlockIndex op.memoryAddress ≠
      (g.store t).getCacheBlockIndex op'.memoryAddress) : (g.store t).Commute op op' := by
  have hkey : g.opBlock op ≠ g.opBlock op' := fun heq =>
    hne ((g.getCacheBlockIndex_inj t _ _).mpr heq)
  obtain ⟨r, b, hb, -⟩ := g.step_keyed t op hf
  obtain ⟨r', b', hb', -⟩ := g.step_keyed t op' hf'
  obtain ⟨u, hu, hu'⟩ := keyed_comm g.opBlock g.blockStep t op op' hkey r r' b b' hb hb'
  have hpair (x y : StoreOp) (hx : x.Fits g) (hy : y.Fits g) (o : List StoreResult)
      (hk : run (keyed g.opBlock g.blockStep) t [x, y] = .ok (o, u)) :
      run CacheStore.step (g.store t) [x, y] = .ok (o, g.store u) := by
    obtain ⟨rs, t', hr, hk'⟩ := g.run_keyed t [x, y] (by simp [hx, hy])
    obtain ⟨rfl, rfl⟩ := ok_unique hk hk'
    exact hr
  exact ⟨r, r', g.store u, hpair op op' hf hf' _ hu, hpair op' op hf' hf _ hu'⟩

/-- Blocks do not interfere: in two runs with the same calls on a block, those calls are answered
alike and leave its ways alike, and calls on different blocks commute. -/
theorem blocks_isolated (ops ops' : List StoreOp) (hf : ∀ op ∈ ops, op.Fits g)
    (hf' : ∀ op ∈ ops', op.Fits g) :
    ∃ rs s rs' s', g.runFresh ops = .ok (rs, s) ∧ g.runFresh ops' = .ok (rs', s') ∧
      (∀ i < s.m_numCacheBlocks, s.opsAt i ops = s.opsAt i ops' →
        s.resultsAt i (ops.zip rs) = s.resultsAt i (ops'.zip rs') ∧
        ∀ w < s.p_NumWays.toNat, s.way i w = s'.way i w) ∧
      ∀ op op' : StoreOp, op.Fits g → op'.Fits g →
        s.getCacheBlockIndex op.memoryAddress ≠ s.getCacheBlockIndex op'.memoryAddress →
        s.Commute op op' := by
  obtain ⟨rs, t, hr, hk⟩ := g.run_keyed g.emptyBlocks ops hf
  obtain ⟨rs', t', hr', hk'⟩ := g.run_keyed g.emptyBlocks ops' hf'
  refine ⟨rs, g.store t, rs', g.store t', ?_, ?_, ?_, fun op op' ho ho' hne =>
    g.commute_store t op op' ho ho' hne⟩
  · rw [runFresh, CacheStore.runFresh, g.construct_eq]
    exact hr
  · rw [runFresh, CacheStore.runFresh, g.construct_eq]
    exact hr'
  · intro i hi hops
    have hlt : i.toNat < g.blocks := (UInt64.lt_iff_toNat_lt.mp hi).trans_eq g.numCacheBlocks_toNat
    rw [opsAt_eq, opsAt_eq] at hops
    obtain ⟨hresults, hblock⟩ := run_isolated g.opBlock g.blockStep g.emptyBlocks g.emptyBlocks t t'
      ops ops' rs rs' i.toNat rfl hops hk hk'
    rw [resultsAt_eq, resultsAt_eq]
    refine ⟨hresults, ?_⟩
    intro w hw
    rw [store_numWays] at hw
    rw [g.way_store t i w hlt hw, g.way_store t' i w hlt hw, hblock]

/-- Block 0 overflows alike beside different traffic on block 1. -/
theorem blocks_isolated_overflow :
    let own : List StoreOp := [.setDataLine 0x0 [1, 2, 3, 4, 5, 6, 7, 8],
      .setDataLine 0x40 [11, 12, 13, 14, 15, 16, 17, 18], .invalidate 0x0,
      .setDataLine 0x80 [21, 22, 23, 24, 25, 26, 27, 28], .getDataLine 0x0 [0, 0]]
    let other : List StoreOp := [.setDataLine 0x8 [9, 9, 9, 9, 9, 9, 9, 9], .invalidate 0x8]
    ∃ rs s rs' s', topRealCache.runFresh (own ++ other) = .ok (rs, s) ∧
      topRealCache.runFresh (other ++ own) = .ok (rs', s') ∧
      (∀ i < s.m_numCacheBlocks, s.opsAt i (own ++ other) = s.opsAt i (other ++ own) →
        s.resultsAt i ((own ++ other).zip rs) = s.resultsAt i ((other ++ own).zip rs') ∧
        ∀ w < s.p_NumWays.toNat, s.way i w = s'.way i w) ∧
      ∀ op op' : StoreOp, op.Fits topRealCache → op'.Fits topRealCache →
        s.getCacheBlockIndex op.memoryAddress ≠ s.getCacheBlockIndex op'.memoryAddress →
        s.Commute op op' :=
  topRealCache.blocks_isolated _ _ (by decide) (by decide)

end Geometry

end FreeSampler
