import FreeSampler.CacheStore.LineMap

namespace FreeSampler

open Framework

/-- The address a call sets. -/
def StoreOp.setAddress : StoreOp → Option UInt64
  | .setDataLine a _ => some a
  | _ => none

namespace CacheStore

/-- The line addresses of block `i` among the lines of some addresses. -/
def linesIn (s : CacheStore) (i : UInt64) (as : List UInt64) : Finset UInt64 :=
  ((as.filter (fun a => s.getCacheBlockIndex a == i)).map s.getLineAddress).toFinset

theorem linesIn_subset (s : CacheStore) (i : UInt64) (as : List UInt64) :
    s.linesIn i as ⊆ (as.map s.getLineAddress).toFinset := by
  intro line hline
  rw [linesIn, List.mem_toFinset, List.mem_map] at hline
  obtain ⟨a, ha, rfl⟩ := hline
  exact List.mem_toFinset.mpr (List.mem_map_of_mem (List.mem_of_mem_filter ha))

/-- The line addresses of block `i` that a history sets. -/
def linesSet (s : CacheStore) (i : UInt64) (ops : List StoreOp) : Finset UInt64 :=
  s.linesIn i (ops.filterMap StoreOp.setAddress)

/-- How a call on block `i` is answered after a history when no line is evicted: a set hits
exactly when its line was set before, and a get of such a line hits with the latest data. -/
def AnswersAsResident (s : CacheStore) (i : UInt64) (before : List StoreOp) (r : StoreResult) :
    StoreOp → Prop
  | .setDataLine a _ => s.getCacheBlockIndex a = i →
      r = .set (decide (s.getLineAddress a ∈ s.linesSet i before))
  | .getDataLine a toBuffer => s.getCacheBlockIndex a = i →
      s.getLineAddress a ∈ s.linesSet i before →
      ∃ fromBuffer, s.LatestSet before a fromBuffer ∧
        r = .get true (some (fromBuffer.take (s.p_LineSize / 4).toNat ++
          toBuffer.drop (s.p_LineSize / 4).toNat))
  | .invalidate _ => True

end CacheStore

namespace Geometry

variable (g : Geometry)

def tagsIn (i : Nat) (as : List UInt64) : Finset Tag :=
  ((as.filter (fun a => g.block a == i)).map g.tag).toFinset

theorem mem_tagsIn (i : Nat) (as : List UInt64) (k : Tag) :
    k ∈ g.tagsIn i as ↔ ∃ a ∈ as, g.block a = i ∧ g.tag a = k := by
  simp only [tagsIn, List.mem_toFinset, List.mem_map, List.mem_filter, beq_iff_eq, and_assoc]

theorem tagsIn_concat (i : Nat) (as : List UInt64) (a : UInt64) :
    g.tagsIn i (as ++ [a]) =
      if g.block a = i then insert (g.tag a) (g.tagsIn i as) else g.tagsIn i as := by
  split_ifs with hb
  · simp [tagsIn, hb]
  · simp [tagsIn, hb]

def tagsSet (i : Nat) (ops : List StoreOp) : Finset Tag :=
  g.tagsIn i (ops.filterMap StoreOp.setAddress)

theorem tagsSet_concat (i : Nat) (ops : List StoreOp) (op : StoreOp) :
    g.tagsSet i (ops ++ [op]) =
      match op.setAddress with
      | some a => if g.block a = i then insert (g.tag a) (g.tagsSet i ops) else g.tagsSet i ops
      | none => g.tagsSet i ops := by
  cases hs : op.setAddress with
  | none => simp [tagsSet, hs]
  | some a =>
    rw [tagsSet, List.filterMap_append]
    simp only [List.filterMap_cons, hs, List.filterMap_nil]
    exact g.tagsIn_concat i _ a

/-- While the tags set in a block fit its ways, they are the tags it holds: a new tag
finds a free way, so none is evicted. -/
theorem keys_tables (i : Nat) (ops : List StoreOp) (h : (g.tagsSet i ops).card ≤ g.ways) :
    (g.tables ops i).keys.toFinset = g.tagsSet i ops := by
  induction ops using List.reverseRecOn with
  | nil => rfl
  | append_singleton ops op ih =>
    rw [tables_concat]
    rw [tagsSet_concat] at h ⊢
    cases op with
    | setDataLine a buf =>
      simp only [StoreOp.setAddress] at h ⊢
      rw [next, keys_setLine]
      by_cases hb : g.block a = i
      · rw [if_pos hb] at h
        have hk := ih ((Finset.card_le_card (Finset.subset_insert _ _)).trans h)
        rw [if_pos hb, if_pos hb.symm, ← hk]
        rw [← hk] at h
        exact SlotTable.putKeys_toFinset _ _ (g.tables ops i).nodup h
      · rw [if_neg hb] at h
        rw [if_neg hb, if_neg (Ne.symm hb), ih h]
    | getDataLine a buf => exact ih h
    | invalidate a =>
      rw [next, keys_invalidateLine]
      exact ih h

/-- Two functions that identify the same elements have images of one size. -/
private theorem card_map_toFinset {α β γ : Type} [DecidableEq β] [DecidableEq γ] (as : List α)
    (f : α → β) (h : α → γ) (heq : ∀ a ∈ as, ∀ b ∈ as, f a = f b ↔ h a = h b) :
    (as.map f).toFinset.card = (as.map h).toFinset.card := by
  induction as with
  | nil => rfl
  | cons a as ih =>
    have hr := ih (fun b hb c hc => heq b (by simp [hb]) c (by simp [hc]))
    have hm : f a ∈ (as.map f).toFinset ↔ h a ∈ (as.map h).toFinset := by
      simp only [List.mem_toFinset, List.mem_map]
      apply exists_congr
      intro b
      exact and_congr_right (fun hb => heq b (by simp [hb]) a (by simp))
    rw [List.map_cons, List.map_cons, List.toFinset_cons, List.toFinset_cons]
    by_cases hf : f a ∈ (as.map f).toFinset
    · rw [Finset.insert_eq_of_mem hf, Finset.insert_eq_of_mem (hm.mp hf), hr]
    · rw [Finset.card_insert_of_notMem hf, Finset.card_insert_of_notMem (fun h => hf (hm.mpr h)), hr]

theorem getCacheBlockIndex_eq_iff (t : Nat → g.Block) (a i : UInt64) :
    (g.store t).getCacheBlockIndex a = i ↔ g.block a = i.toNat := by
  rw [← UInt64.toNat_inj, g.getCacheBlockIndex_toNat]

theorem getLineAddress_eq_iff_tag (t : Nat → g.Block) (a b : UInt64) (h : g.block a = g.block b) :
    (g.store t).getLineAddress a = (g.store t).getLineAddress b ↔ g.tag a = g.tag b := by
  rw [g.getLineAddress_eq_iff, ← g.tag_block_iff]
  exact and_iff_left h

theorem linesIn_card (t : Nat → g.Block) (i : UInt64) (as : List UInt64) :
    ((g.store t).linesIn i as).card = (g.tagsIn i.toNat as).card := by
  have hfilter : as.filter (fun a => (g.store t).getCacheBlockIndex a == i) =
      as.filter (fun a => g.block a == i.toNat) := by
    apply List.filter_congr
    intro a _
    exact Bool.eq_iff_iff.mpr (by simpa using g.getCacheBlockIndex_eq_iff t a i)
  rw [CacheStore.linesIn, hfilter, tagsIn]
  apply card_map_toFinset
  intro a ha b hb
  have hab : g.block a = i.toNat := by simpa using (List.mem_filter.mp ha).2
  have hbb : g.block b = i.toNat := by simpa using (List.mem_filter.mp hb).2
  exact g.getLineAddress_eq_iff_tag t a b (hab.trans hbb.symm)

theorem mem_linesIn (t : Nat → g.Block) (a : UInt64) (as : List UInt64) (i : UInt64)
    (hi : g.block a = i.toNat) :
    (g.store t).getLineAddress a ∈ (g.store t).linesIn i as ↔ g.tag a ∈ g.tagsIn i.toNat as := by
  rw [mem_tagsIn]
  simp only [CacheStore.linesIn, List.mem_toFinset, List.mem_map, List.mem_filter, beq_iff_eq,
    and_assoc, g.getCacheBlockIndex_eq_iff]
  apply exists_congr
  intro b
  exact and_congr_right fun _ => and_congr_right fun hb =>
    g.getLineAddress_eq_iff_tag t b a (hb.trans hi.symm)

theorem linesSet_card (t : Nat → g.Block) (i : UInt64) (ops : List StoreOp) :
    ((g.store t).linesSet i ops).card = (g.tagsSet i.toNat ops).card := g.linesIn_card t i _

theorem mem_linesSet (t : Nat → g.Block) (a : UInt64) (ops : List StoreOp) (i : UInt64)
    (hi : g.block a = i.toNat) :
    (g.store t).getLineAddress a ∈ (g.store t).linesSet i ops ↔ g.tag a ∈ g.tagsSet i.toNat ops :=
  g.mem_linesIn t a _ i hi

theorem resident_iff_set (ops : List StoreOp) (a : UInt64)
    (h : (g.tagsSet (g.block a) ops).card ≤ g.ways) :
    g.resident (g.tables ops) a ≠ none ↔ g.tag a ∈ g.tagsSet (g.block a) ops := by
  rw [← g.keys_tables (g.block a) ops h, List.mem_toFinset, Option.ne_none_iff_exists', resident]
  exact SlotTable.lookup_isSome _ _

theorem linesSet_mono (s : CacheStore) (i : UInt64) (before after : List StoreOp) :
    s.linesSet i before ⊆ s.linesSet i (before ++ after) := by
  intro x hx
  simp only [CacheStore.linesSet, CacheStore.linesIn, List.filterMap_append, List.filter_append,
    List.map_append, List.toFinset_append]
  exact Finset.mem_union_left _ hx

/-- One call after a history that leaves room in its block. -/
theorem step_answers (t : Nat → g.Block) (before : List StoreOp) (op : StoreOp) (i : UInt64)
    (hf : ∀ o ∈ before ++ [op], o.Fits g)
    (hc : ((g.store t).linesSet i before).card ≤ g.ways) :
    ∃ r, (g.store (g.tables before)).step op = .ok (r, g.store (g.tables (before ++ [op]))) ∧
      (g.store t).AnswersAsResident i before r op := by
  rw [tables_concat]
  rw [linesSet_card] at hc
  have hfit : op.Fits g := hf op (by simp)
  cases op with
  | setDataLine a buf =>
    refine ⟨.set (g.resident (g.tables before) a).isSome, ?_, ?_⟩
    · rw [CacheStore.step, g.setDataLine_eq _ a buf hfit]
      rfl
    · intro hi
      have hb := (g.getCacheBlockIndex_eq_iff t a i).mp hi
      have hr := g.resident_iff_set before a (by rw [hb]; exact hc)
      rw [hb, ← g.mem_linesSet t a before i hb, ← Option.isSome_iff_ne_none] at hr
      rw [← Bool.eq_iff_iff.mpr (hr.trans decide_eq_true_iff.symm)]
  | getDataLine a buf =>
    by_cases he : g.resident (g.tables before) a = none
    · refine ⟨.get false (some buf), ?_, ?_⟩
      · rw [CacheStore.step, g.getDataLine_miss _ a buf he]
        rfl
      · intro hi hm
        have hb := (g.getCacheBlockIndex_eq_iff t a i).mp hi
        have hr := g.resident_iff_set before a (by rw [hb]; exact hc)
        rw [hb, ← g.mem_linesSet t a before i hb] at hr
        exact absurd he (hr.mpr hm)
    · obtain ⟨fromBuffer, hl, hget⟩ :=
        g.getDataLine_resident before (fun o ho => hf o (by simp [ho])) a buf hfit he
      refine ⟨_, by rw [CacheStore.step, hget]; rfl, ?_⟩
      intro _ _
      exact ⟨fromBuffer, hl, by rw [g.lineWords_toNat]⟩
  | invalidate a =>
    exact ⟨.invalidated, by rw [CacheStore.step, g.invalidate_eq]; rfl, trivial⟩

/-- A working set that fits its block stays resident: through any run, whatever happens in
the other blocks, its lines miss once and hit ever after. -/
theorem workingSet_stays (ops : List StoreOp) (hf : ∀ op ∈ ops, op.Fits g) :
    ∃ rs s, g.runFresh ops = .ok (rs, s) ∧
      ∀ i, (s.linesSet i ops).card ≤ s.p_NumWays.toNat →
        ∀ before op after, ops = before ++ op :: after →
          ∃ r, rs[before.length]? = some r ∧ s.AnswersAsResident i before r op := by
  obtain ⟨rs, hr⟩ := g.runFresh_tables ops hf
  refine ⟨rs, _, hr, ?_⟩
  intro i hc before op after ho
  rw [store_numWays] at hc
  have hsub := Finset.card_le_card (linesSet_mono (g.store (g.tables ops)) i before (op :: after))
  rw [← ho] at hsub
  obtain ⟨r, hstep, hans⟩ := g.step_answers (g.tables ops) before op i
    (fun o hm => hf o (by rw [ho]; simp at hm ⊢; tauto)) (by omega)
  refine ⟨r, ?_, hans⟩
  rw [runFresh, CacheStore.runFresh, g.construct_eq, ok_bind, ho, run_append_ok] at hr
  obtain ⟨os₁, u, os₂, h₁, h₂, rfl⟩ := hr
  obtain ⟨rs₁, hr₁⟩ := g.run_tables g.emptyBlocks before (fun o hm => hf o (by simp [ho, hm]))
  obtain ⟨rfl, hu⟩ := ok_unique h₁ hr₁
  obtain ⟨o, s', os', hs, _, rfl⟩ := (run_cons_ok _ _ _ _ _ _).mp h₂
  rw [hu] at hs
  have hro := (ok_unique hs hstep).1
  rw [← run_length _ _ _ _ _ h₁, List.getElem?_append_right le_rfl, Nat.sub_self, hro]
  rfl

/-- Two lines that fit block 0, while three others overflow block 1. -/
theorem workingSet_stays_beside_overflow :
    let ops : List StoreOp := [.setDataLine 0x0 [1, 2, 3, 4, 5, 6, 7, 8],
      .setDataLine 0x8 [1, 1, 1, 1, 1, 1, 1, 1], .setDataLine 0x10008 [2, 2, 2, 2, 2, 2, 2, 2],
      .setDataLine 0x10000 [11, 12, 13, 14, 15, 16, 17, 18],
      .setDataLine 0x20008 [3, 3, 3, 3, 3, 3, 3, 3], .getDataLine 0x0 [0, 0],
      .setDataLine 0x10004 [21, 22, 23, 24, 25, 26, 27, 28]]
    ∃ rs s, topRealCache.runFresh ops = .ok (rs, s) ∧
      ∀ i, (s.linesSet i ops).card ≤ s.p_NumWays.toNat →
        ∀ before op after, ops = before ++ op :: after →
          ∃ r, rs[before.length]? = some r ∧ s.AnswersAsResident i before r op :=
  topRealCache.workingSet_stays _ (by decide)

end Geometry

end FreeSampler
