import FreeSampler.CacheStore.Operations

namespace FreeSampler

open Framework

/-- The buffer of a call holds what the call reads or writes: `load` reads `lineSize` words,
and a hit copies out `lineSize / 4` of them. -/
def StoreOp.Fits (g : Geometry) : StoreOp → Prop
  | .setDataLine _ fromBuffer => g.lineBytes ≤ fromBuffer.length
  | .getDataLine _ toBuffer => g.lineBytes / 4 ≤ toBuffer.length
  | .invalidate _ => True

instance (g : Geometry) : (op : StoreOp) → Decidable (op.Fits g)
  | .setDataLine _ _ => inferInstanceAs (Decidable (_ ≤ _))
  | .getDataLine _ _ => inferInstanceAs (Decidable (_ ≤ _))
  | .invalidate _ => inferInstanceAs (Decidable True)

/-- A run of calls on a freshly constructed store. -/
def CacheStore.runFresh (memorySize cacheSize lineSize numWays : UInt64) (ops : List StoreOp) :
    Except Fault (List StoreResult × CacheStore) := do
  let s ← CacheStore.construct memorySize cacheSize lineSize numWays
  run CacheStore.step s ops

namespace Geometry

variable (g : Geometry)

def runFresh (ops : List StoreOp) : Except Fault (List StoreResult × CacheStore) :=
  CacheStore.runFresh g.memorySize g.cacheSize g.lineSize g.numWays ops

def next (t : Nat → g.Block) : StoreOp → (Nat → g.Block)
  | .setDataLine a fromBuffer => g.setLine t a fromBuffer
  | .getDataLine _ _ => t
  | .invalidate a => g.invalidateLine t a

/-- The tables after a run of calls on empty blocks. -/
def tables (ops : List StoreOp) : Nat → g.Block := ops.foldl g.next g.emptyBlocks

@[simp] theorem tables_nil : g.tables [] = g.emptyBlocks := rfl

theorem tables_concat (ops : List StoreOp) (op : StoreOp) :
    g.tables (ops ++ [op]) = g.next (g.tables ops) op := by
  simp [tables]

/-- What one call does to block `i`: nothing, a `put` or a `modify` of its table. -/
theorem next_block (t : Nat → g.Block) (op : StoreOp) (i : Nat) :
    g.next t op i = t i ∨
    (∃ a buf, op = .setDataLine a buf ∧ g.block a = i ∧
      g.next t op i = (t i).put (g.tag a) (g.loaded buf)) ∨
    (∃ a, op = .invalidate a ∧ g.block a = i ∧
      g.next t op i = (t i).modify (g.tag a) (fun e => { e with isValid := false })) := by
  cases op with
  | setDataLine a buf =>
    by_cases hi : g.block a = i
    · subst hi
      exact Or.inr (Or.inl ⟨a, buf, rfl, rfl, Function.update_self ..⟩)
    · exact Or.inl (Function.update_of_ne (Ne.symm hi) ..)
  | getDataLine a buf => exact Or.inl rfl
  | invalidate a =>
    by_cases hi : g.block a = i
    · subst hi
      exact Or.inr (Or.inr ⟨a, rfl, rfl, Function.update_self ..⟩)
    · exact Or.inl (Function.update_of_ne (Ne.symm hi) ..)

/-- Every call with a fitting buffer is answered, and the store it leaves is again the
image of tables: the code refines the keyed blocks. -/
theorem step_refines (t : Nat → g.Block) (op : StoreOp) (hf : op.Fits g) :
    ∃ r, (g.store t).step op = .ok (r, g.store (g.next t op)) := by
  cases op with
  | setDataLine a buf =>
    simp only [CacheStore.step, g.setDataLine_eq t a buf hf, ok_bind]
    exact ⟨_, rfl⟩
  | getDataLine a buf =>
    cases hr : g.resident t a with
    | none =>
      simp only [CacheStore.step, g.getDataLine_miss t a buf hr, ok_bind]
      exact ⟨_, rfl⟩
    | some e =>
      simp only [CacheStore.step, g.getDataLine_hit t a buf e hr hf, ok_bind]
      exact ⟨_, rfl⟩
  | invalidate a =>
    simp only [CacheStore.step, g.invalidate_eq, ok_bind]
    exact ⟨_, rfl⟩

theorem run_tables (t : Nat → g.Block) (ops : List StoreOp) (hf : ∀ op ∈ ops, op.Fits g) :
    ∃ rs, run CacheStore.step (g.store t) ops = .ok (rs, g.store (ops.foldl g.next t)) :=
  run_refines CacheStore.step g.store g.next (StoreOp.Fits g) g.step_refines t ops hf

theorem runFresh_tables (ops : List StoreOp) (hf : ∀ op ∈ ops, op.Fits g) :
    ∃ rs, g.runFresh ops = .ok (rs, g.store (g.tables ops)) := by
  rw [runFresh, CacheStore.runFresh, g.construct_eq, ok_bind]
  exact g.run_tables g.emptyBlocks ops hf

theorem resident_empty (a : UInt64) : g.resident g.emptyBlocks a = none := rfl

/-- The line addresses of one line share block and tag. -/
theorem resident_congr (t : Nat → g.Block) (a b : UInt64) (h : g.lineNumber a = g.lineNumber b) :
    g.resident t a = g.resident t b := by
  obtain ⟨ht, hb⟩ := (g.tag_block_iff a b).mpr h
  rw [resident, resident, ht, hb]

theorem resident_setLine_self (t : Nat → g.Block) (a b : UInt64) (buf : List UInt32)
    (h : g.lineNumber b = g.lineNumber a) :
    g.resident (g.setLine t a buf) b = some (g.loaded buf) := by
  obtain ⟨ht, hb⟩ := (g.tag_block_iff b a).mpr h
  rw [resident, setLine, ht, hb, Function.update_self]
  exact SlotTable.lookup_put_self _ _ _ g.ways_pos

theorem resident_setLine_of_ne (t : Nat → g.Block) (a b : UInt64) (buf : List UInt32)
    (e : Entry g.lineBytes) (h : g.lineNumber b ≠ g.lineNumber a)
    (he : g.resident (g.setLine t a buf) b = some e) : g.resident t b = some e := by
  rw [resident, setLine] at he
  by_cases hb : g.block b = g.block a
  · have ht : g.tag b ≠ g.tag a := fun ht => h ((g.tag_block_iff b a).mp ⟨ht, hb⟩)
    rw [hb, Function.update_self] at he
    rw [resident, hb]
    exact SlotTable.lookup_put_of_ne _ _ _ _ _ ht he
  · rw [Function.update_of_ne hb] at he
    exact he

/-- Invalidation keeps every line resident, with its words. -/
theorem resident_invalidateLine (t : Nat → g.Block) (a b : UInt64) :
    g.resident (g.invalidateLine t a) b =
      if g.lineNumber b = g.lineNumber a
      then (g.resident t b).map (fun e => { e with isValid := false })
      else g.resident t b := by
  rw [resident, invalidateLine]
  by_cases hb : g.block b = g.block a
  · rw [hb, Function.update_self, SlotTable.lookup_modify]
    by_cases ht : g.tag b = g.tag a
    · rw [if_pos ht, if_pos ((g.tag_block_iff b a).mp ⟨ht, hb⟩), resident, ht, hb]
    · rw [if_neg ht, if_neg (fun h => ht ((g.tag_block_iff b a).mpr h).1), resident, hb]
  · rw [Function.update_of_ne hb, if_neg (fun h => hb ((g.tag_block_iff b a).mpr h).2), resident]

/-- The cache that `TopRealCache` builds: 128 bytes in lines of 8 bytes, two ways a block. -/
def topRealCache : Geometry where
  memorySize := 1024
  cacheSize := 128
  lineSize := 8
  numWays := 2
  lineBits := 3
  wayBits := 1
  blockBits := 3
  lineSize_eq := rfl
  numWays_eq := rfl
  cacheSize_eq := rfl
  lineBits_pos := by decide
  lineBits_le := by decide
  cacheBits_lt := by decide

end Geometry

end FreeSampler
