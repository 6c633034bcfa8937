import FreeSampler.CacheStore.Residency
import FreeSampler.RealCache.Timing

namespace FreeSampler

open Framework Tlm

namespace RealCache

/-- Some call of a run touched the line of an address. -/
def Touched (s : CacheStore) (calls : List Call) (a : UInt64) : Prop :=
  ∃ call ∈ calls, s.getLineAddress call.trans.address = s.getLineAddress a

instance (s : CacheStore) (calls : List Call) (a : UInt64) : Decidable (Touched s calls a) :=
  inferInstanceAs (Decidable (∃ call ∈ calls, _))

/-- A first touch costs 100 ns when it is a read and 200 ns when it is a write, a later one nothing. -/
def firstTouchDelay (s : CacheStore) (before : List Call) (call : Call) : Nat :=
  if Touched s before call.trans.address then 0 else missDelay call.trans.command

/-- The command that touched a line first. -/
def firstTouch (s : CacheStore) (calls : List Call) (line : UInt64) : Option Command :=
  calls.findSome? (fun call =>
    if s.getLineAddress call.trans.address = line then some call.trans.command else none)

/-- The line addresses that were touched first by a command. -/
def linesFirstTouched (s : CacheStore) (command : Command) (calls : List Call) : Finset UInt64 :=
  (calls.map (fun call => s.getLineAddress call.trans.address)).toFinset.filter
    (fun line => firstTouch s calls line = some command)

/-- What the answers of a run owe to first touches: each delay, and the sum of them all. -/
structure FirstTouchCosts (s : CacheStore) (calls : List Call) (answers : List Answer) : Prop where
  each : EveryStep (fun h e => e.2.delay = e.1.delay + firstTouchDelay s (h.map Prod.fst) e.1)
    (calls.zip answers)
  total : (answers.map Answer.delay).sum = (calls.map Call.delay).sum +
    100 * (linesFirstTouched s .read calls).card + 200 * (linesFirstTouched s .write calls).card

section FirstTouch

variable (s : CacheStore) (calls : List Call) (call : Call)

theorem firstTouch_eq_none (line : UInt64) : firstTouch s calls line = none ↔
    line ∉ calls.map (fun call => s.getLineAddress call.trans.address) := by
  rw [firstTouch, List.findSome?_eq_none_iff, List.mem_map]
  constructor
  · intro h hmem
    obtain ⟨call, hc, hline⟩ := hmem
    simpa [hline] using h call hc
  · intro h call hc
    apply if_neg
    intro hline
    exact h ⟨call, hc, hline⟩

theorem firstTouch_untouched (h : ¬ Touched s calls call.trans.address) :
    firstTouch s calls (s.getLineAddress call.trans.address) = none := by
  rw [firstTouch_eq_none, List.mem_map]
  exact h

theorem mem_linesFirstTouched (command : Command) (line : UInt64) :
    line ∈ linesFirstTouched s command calls ↔ firstTouch s calls line = some command := by
  rw [linesFirstTouched, Finset.mem_filter, List.mem_toFinset]
  constructor
  · intro h
    exact h.2
  · intro h
    refine ⟨?_, h⟩
    by_contra hn
    rw [(firstTouch_eq_none s calls line).mpr hn] at h
    simp at h

theorem firstTouch_concat (line : UInt64) : firstTouch s (calls ++ [call]) line =
    (firstTouch s calls line).or
      (if s.getLineAddress call.trans.address = line then some call.trans.command else none) :=
  findSome?_concat _ calls call

theorem linesFirstTouched_touched (command : Command) (h : Touched s calls call.trans.address) :
    linesFirstTouched s command (calls ++ [call]) = linesFirstTouched s command calls := by
  ext line
  rw [mem_linesFirstTouched, mem_linesFirstTouched, firstTouch_concat]
  by_cases hline : s.getLineAddress call.trans.address = line
  · have hsome : firstTouch s calls line ≠ none := by
      rw [Ne, firstTouch_eq_none, not_not, ← hline, List.mem_map]
      exact h
    obtain ⟨first, hfirst⟩ := Option.ne_none_iff_exists'.mp hsome
    rw [hfirst, Option.some_or]
  · rw [if_neg hline, Option.or_none]

theorem linesFirstTouched_new (command : Command) (h : ¬ Touched s calls call.trans.address) :
    linesFirstTouched s command (calls ++ [call]) =
      if call.trans.command = command
      then insert (s.getLineAddress call.trans.address) (linesFirstTouched s command calls)
      else linesFirstTouched s command calls := by
  have hnone := firstTouch_untouched s calls call h
  ext line
  rw [mem_linesFirstTouched, firstTouch_concat]
  by_cases hline : s.getLineAddress call.trans.address = line
  · rw [← hline, hnone, if_pos rfl, Option.none_or, Option.some.injEq]
    split_ifs with hc
    · simp [hc]
    · rw [mem_linesFirstTouched, hnone]
      simp [hc]
  · rw [if_neg hline, Option.or_none]
    split_ifs with hc
    · rw [Finset.mem_insert, mem_linesFirstTouched, or_iff_right (Ne.symm hline)]
    · rw [mem_linesFirstTouched]

theorem total_concat (hc : call.trans.command ≠ .ignore) :
    100 * (linesFirstTouched s .read (calls ++ [call])).card +
      200 * (linesFirstTouched s .write (calls ++ [call])).card =
    100 * (linesFirstTouched s .read calls).card + 200 * (linesFirstTouched s .write calls).card +
      firstTouchDelay s calls call := by
  rw [firstTouchDelay]
  by_cases h : Touched s calls call.trans.address
  · rw [if_pos h, linesFirstTouched_touched s calls call _ h,
      linesFirstTouched_touched s calls call _ h, Nat.add_zero]
  · have hnew (command : Command) :
        s.getLineAddress call.trans.address ∉ linesFirstTouched s command calls := by
      rw [mem_linesFirstTouched, firstTouch_untouched s calls call h]
      simp
    rw [if_neg h, linesFirstTouched_new s calls call _ h, linesFirstTouched_new s calls call _ h]
    cases hcommand : call.trans.command with
    | read =>
      rw [if_pos rfl, if_neg (by decide), Finset.card_insert_of_notMem (hnew .read), missDelay]
      omega
    | write =>
      rw [if_pos rfl, if_neg (by decide), Finset.card_insert_of_notMem (hnew .write), missDelay]
      omega
    | ignore => exact absurd hcommand hc

end FirstTouch

section Run

variable (g : Geometry) (memory : SimplestMemory)

def addresses (calls : List Call) : List UInt64 := calls.map (fun call => call.trans.address)

theorem touched_iff (t : Nat → g.Block) (calls : List Call) (a : UInt64) :
    Touched (g.store t) calls a ↔ g.tag a ∈ g.tagsIn (g.block a) (addresses calls) := by
  rw [g.mem_tagsIn]
  constructor
  · intro h
    obtain ⟨call, hc, hline⟩ := h
    obtain ⟨htag, hblock⟩ := (g.tag_block_iff _ _).mpr ((g.getLineAddress_eq_iff t _ _).mp hline)
    exact ⟨call.trans.address, List.mem_map_of_mem hc, hblock, htag⟩
  · intro h
    obtain ⟨b, hb, hblock, htag⟩ := h
    obtain ⟨call, hc, rfl⟩ := List.mem_map.mp hb
    exact ⟨call, hc, (g.getLineAddress_eq_iff t _ _).mpr ((g.tag_block_iff _ _).mp ⟨htag, hblock⟩)⟩

/-- A cache whose blocks hold the tags of a run, the answers of which cost its first touches. -/
structure HoldsTouched (calls : List Call) (answers : List Answer) (k : Nat → List Geometry.Tag) :
    Prop where
  tags_eq : ∀ i, (k i).toFinset = g.tagsIn i (addresses calls)
  costs : FirstTouchCosts (g.store g.emptyBlocks) calls answers

/-- While the lines of a block fit its ways, a touch of one more drops none. -/
theorem touch_toFinset (t : Nat → g.Block) (as : List UInt64) (a : UInt64)
    (hk : ∀ i, (g.tagsHeld t i).toFinset = g.tagsIn i as)
    (hfit : (g.tagsIn (g.block a) (as ++ [a])).card ≤ g.ways) (i : Nat) :
    (g.touch (g.tagsHeld t) a i).toFinset = g.tagsIn i (as ++ [a]) := by
  rw [Geometry.touch, g.tagsIn_concat]
  by_cases hi : g.block a = i
  · rw [g.tagsIn_concat, if_pos rfl, ← hk] at hfit
    rw [if_pos hi, ← hi, Function.update_self, ← hk]
    exact SlotTable.putKeys_toFinset _ _ (t (g.block a)).nodup hfit
  · rw [if_neg hi, Function.update_of_ne (Ne.symm hi), hk]

/-- One more access costs what its first touch costs. -/
theorem holdsTouched_step (hl : 4 ≤ g.lineBytes) (h32 : g.lineBytes ≤ 32) (calls : List Call)
    (answers : List Answer) (hlen : answers.length = calls.length) (k : Nat → List Geometry.Tag)
    (c : RealCache SimplestMemory) (hk : HoldsTags g k c) (ht : HoldsTouched g calls answers k)
    (call : Call) (h : WordTraffic call.trans)
    (hfit : (g.tagsIn (g.block call.trans.address) (addresses (calls ++ [call]))).card ≤ g.ways) :
    ∃ a c', c.b_transport SimplestMemory.target call = .ok (a, c') ∧
      HoldsTags g (g.touch k call.trans.address) c' ∧
      HoldsTouched g (calls ++ [call]) (answers ++ [a]) (g.touch k call.trans.address) := by
  obtain ⟨a, c', hs, hk', -, hdelay⟩ := access_timed g hl h32 k c hk call h
  have hheld : g.holdsLine k call.trans.address =
      decide (Touched (g.store g.emptyBlocks) calls call.trans.address) := by
    apply decide_eq_decide.mpr
    rw [touched_iff, ← ht.tags_eq, List.mem_toFinset]
  have hcost : accessDelay g k call.trans =
      firstTouchDelay (g.store g.emptyBlocks) calls call := by
    rw [accessDelay, hheld, firstTouchDelay]
    by_cases htouched : Touched (g.store g.emptyBlocks) calls call.trans.address
    · rw [if_pos (decide_eq_true htouched), if_pos htouched]
    · rw [if_neg (by simpa using htouched), if_neg htouched]
  have hzip : (calls ++ [call]).zip (answers ++ [a]) = calls.zip answers ++ [(call, a)] := by
    rw [List.zip_append hlen.symm]
    rfl
  have hfst : (calls.zip answers).map Prod.fst = calls := List.map_fst_zip hlen.ge
  refine ⟨a, c', hs, hk', ?_, ?_, ?_⟩
  · intro i
    obtain ⟨_, t, _, rfl⟩ := hk
    rw [addresses, List.map_append] at hfit ⊢
    exact touch_toFinset g t _ _ ht.tags_eq hfit i
  · rw [hzip, everyStep_concat, hfst]
    exact ⟨ht.costs.each, by rw [hdelay, hcost]⟩
  · have htotal := ht.costs.total
    have hnext := total_concat (g.store g.emptyBlocks) calls call h.command_ne
    rw [List.map_append, List.map_append, List.sum_append, List.sum_append]
    simp only [List.map_cons, List.map_nil, List.sum_cons, List.sum_nil, Nat.add_zero]
    omega

/-- Runs whose lines fit their blocks are answered at the cost of their first touches. -/
theorem run_holdsTouched (hl : 4 ≤ g.lineBytes) (h32 : g.lineBytes ≤ 32)
    (hm : memory.DefaultSizes) (calls : List Call) (h : ∀ call ∈ calls, WordTraffic call.trans)
    (hfit : ∀ a, (g.tagsIn (g.block a) (addresses calls)).card ≤ g.ways) :
    ∃ answers c k, run (b_transport SimplestMemory.target) (g.freshCache memory) calls =
      .ok (answers, c) ∧ HoldsTags g k c ∧ HoldsTouched g calls answers k := by
  induction calls using List.reverseRecOn with
  | nil =>
    refine ⟨[], _, _, rfl, holdsTags_fresh g memory hm, ?_, everyStep_nil _, rfl⟩
    intro i
    rfl
  | append_singleton calls call ih =>
    have hsub (i : Nat) : g.tagsIn i (addresses calls) ⊆ g.tagsIn i (addresses (calls ++ [call])) := by
      intro tag htag
      rw [g.mem_tagsIn] at htag ⊢
      obtain ⟨a, ha, hrest⟩ := htag
      rw [addresses, List.map_append]
      exact ⟨a, List.mem_append_left _ ha, hrest⟩
    obtain ⟨answers, c, k, hrun, hk, ht⟩ := ih (fun d hd => h d (List.mem_append_left _ hd))
      (fun a => (Finset.card_le_card (hsub _)).trans (hfit a))
    have hlen := run_length _ _ _ _ _ hrun
    obtain ⟨a, c', hs, hk', ht'⟩ := holdsTouched_step g hl h32 calls answers hlen k c hk ht call
      (h call (by simp)) (hfit _)
    exact ⟨_, c', _, run_concat_ok _ _ c c' calls call answers a hrun hs, hk', ht'⟩

end Run

end RealCache

namespace Geometry

open RealCache

/-- In front of a memory with the default sizes, a run that touches at most `p_NumWays` lines of
each block is answered, and each access costs what its first touch costs: 100 ns for every line
first read and 200 ns for every line first written. -/
theorem firstTouch_costs (g : Geometry) (hl : 4 ≤ g.lineBytes) (h32 : g.lineBytes ≤ 32)
    (memory : SimplestMemory) (hm : memory.DefaultSizes) (calls : List Call)
    (h : ∀ call ∈ calls, WordTraffic call.trans)
    (hfit : ∀ i, ((g.freshCache memory).m_cacheStore.linesIn i (addresses calls)).card ≤
      (g.freshCache memory).m_cacheStore.p_NumWays.toNat) :
    ∃ answers c, g.runCache SimplestMemory.target memory calls = .ok (answers, c) ∧
      FirstTouchCosts (g.freshCache memory).m_cacheStore calls answers := by
  have htags (a : UInt64) : (g.tagsIn (g.block a) (addresses calls)).card ≤ g.ways := by
    have hlines := hfit ((g.store g.emptyBlocks).getCacheBlockIndex a)
    rwa [freshCache, linesIn_card, getCacheBlockIndex_toNat, store_numWays] at hlines
  obtain ⟨answers, c, k, hrun, _, ht⟩ := run_holdsTouched g memory hl h32 hm calls h htags
  refine ⟨answers, c, ?_, ht.costs⟩
  rw [runCache_eq]
  exact hrun

/-- A line first read and a line first written, both of block 0, each touched again. -/
theorem firstTouch_costs_two_lines :
    let memory := SimplestMemory.construct 1024 8 (List.replicate 1024 0)
      (SimplestMemory.allocated_replicate 1024 8 0 (by decide) (by decide))
    let calls := [Call.onWord .read 0x0 [0, 0, 0, 0], .onWord .write 0x40 [7, 0, 0, 0],
      .onWord .write 0x4 [5, 0, 0, 0], .onWord .read 0x42 [0, 0, 0, 0]]
    ∃ answers c, topRealCache.runCache SimplestMemory.target memory calls = .ok (answers, c) ∧
      FirstTouchCosts (topRealCache.freshCache memory).m_cacheStore calls answers := by
  intro memory calls
  apply topRealCache.firstTouch_costs (by decide) (by decide) memory ⟨rfl, rfl⟩ calls (by decide)
  intro i
  apply (Finset.card_le_card (CacheStore.linesIn_subset _ i (addresses calls))).trans
  show (((addresses calls).map (topRealCache.store topRealCache.emptyBlocks).getLineAddress).toFinset).card ≤ 2
  decide

end Geometry

end FreeSampler
