import FreeSampler.CacheStore.Replacement
import FreeSampler.RealCache.FirstTouch

namespace FreeSampler

open Framework Tlm

namespace Geometry

variable (g : Geometry)

/-- The tags that the policy keeps of accesses to some addresses, block by block. -/
def tagsAfter (as : List UInt64) : Nat → List Tag :=
  fun i => SlotTable.keysAfter g.ways (g.tagsInOrder i as)

theorem tagsAfter_concat (as : List UInt64) (a : UInt64) :
    g.tagsAfter (as ++ [a]) = g.touch (g.tagsAfter as) a := by
  funext i
  rw [tagsAfter, g.tagsInOrder_concat, touch]
  by_cases hi : g.block a = i
  · rw [if_pos hi, SlotTable.keysAfter_concat, ← hi, Function.update_self]
    rfl
  · rw [if_neg hi, Function.update_of_ne (Ne.symm hi)]
    rfl

theorem holdsLine_tagsAfter (t : Nat → g.Block) (as : List UInt64) (a : UInt64) :
    g.holdsLine (g.tagsAfter as) a = decide ((g.store t).Holds as a) := by
  apply decide_eq_decide.mpr
  rw [g.holds_iff]
  rfl

end Geometry

namespace RealCache

/-- What the lines that the policy holds after some calls make the next one cost. -/
def heldDelay (s : CacheStore) (before : List Call) (call : Call) : Nat :=
  if s.Holds (addresses before) call.trans.address then 0 else missDelay call.trans.command

/-- The calls of a command that missed. -/
def misses (command : Command) (h : History) : Nat :=
  h.countP (fun e => decide (e.1.trans.command = command) && !e.2.branch.hit)

/-- A call hits, and costs nothing, exactly when the policy holds its line. -/
def CostsHeld (s : CacheStore) (h : History) (e : Call × Answer) : Prop :=
  e.2.branch.hit = decide (s.Holds (addresses (h.map Prod.fst)) e.1.trans.address) ∧
    e.2.delay = e.1.delay + heldDelay s (h.map Prod.fst) e.1

/-- What a run of calls costs: each of them, and the sum over its misses. -/
structure PolicyCosts (s : CacheStore) (calls : List Call) (answers : List Answer) : Prop where
  each : EveryStep (CostsHeld s) (calls.zip answers)
  total : (answers.map Answer.delay).sum = (calls.map Call.delay).sum +
    100 * misses .read (calls.zip answers) + 200 * misses .write (calls.zip answers)

theorem misses_concat (command : Command) (h : History) (e : Call × Answer) :
    misses command (h ++ [e]) = misses command h +
      if e.1.trans.command = command ∧ e.2.branch.hit = false then 1 else 0 := by
  rw [misses, List.countP_append, List.countP_singleton, misses]
  simp

theorem total_misses (h : History) (e : Call × Answer) (hc : e.1.trans.command ≠ .ignore) :
    100 * misses .read (h ++ [e]) + 200 * misses .write (h ++ [e]) =
      100 * misses .read h + 200 * misses .write h +
        if e.2.branch.hit = true then 0 else missDelay e.1.trans.command := by
  rw [misses_concat, misses_concat]
  cases hhit : e.2.branch.hit with
  | true => simp
  | false =>
    cases hcommand : e.1.trans.command with
    | read =>
      simp [missDelay]
      omega
    | write =>
      simp [missDelay]
      omega
    | ignore => exact absurd hcommand hc

section Policy

variable (g : Geometry)

/-- The tags that a run of calls leaves, as the policy orders them. -/
def policyTags (calls : List Call) : Nat → List Geometry.Tag := g.tagsAfter (addresses calls)

theorem policyTags_concat (calls : List Call) (call : Call) :
    policyTags g (calls ++ [call]) = g.touch (policyTags g calls) call.trans.address := by
  rw [policyTags, addresses, List.map_append, List.map_singleton, g.tagsAfter_concat]
  rfl

theorem holdsLine_policyTags (t : Nat → g.Block) (calls : List Call) (a : UInt64) :
    g.holdsLine (policyTags g calls) a = decide ((g.store t).Holds (addresses calls) a) :=
  g.holdsLine_tagsAfter t _ a

theorem accessDelay_policyTags (t : Nat → g.Block) (calls : List Call) (call : Call) :
    accessDelay g (policyTags g calls) call.trans = heldDelay (g.store t) calls call := by
  rw [accessDelay, holdsLine_policyTags g t, heldDelay]
  simp only [decide_eq_true_eq]

/-- One access costs what the policy says, and leaves the tags that the policy keeps. -/
theorem policyCosts_step (hl : 4 ≤ g.lineBytes) (h32 : g.lineBytes ≤ 32) (h : History)
    (c : RealCache SimplestMemory) (hc : HoldsTags g (policyTags g (h.map Prod.fst)) c)
    (call : Call) (hv : WordTraffic call.trans) :
    ∃ a c', c.b_transport SimplestMemory.target call = .ok (a, c') ∧
      HoldsTags g (policyTags g ((h ++ [(call, a)]).map Prod.fst)) c' ∧
      CostsHeld (g.store g.emptyBlocks) h (call, a) := by
  obtain ⟨a, c', hs, hk, hhit, hdelay⟩ := access_timed g hl h32 _ c hc call hv
  rw [holdsLine_policyTags g g.emptyBlocks] at hhit
  refine ⟨a, c', hs, ?_, hhit, ?_⟩
  · rw [List.map_append, List.map_singleton, policyTags_concat]
    exact hk
  · rw [hdelay, accessDelay_policyTags g g.emptyBlocks]

theorem run_policyCosts (hl : 4 ≤ g.lineBytes) (h32 : g.lineBytes ≤ 32) (memory : SimplestMemory)
    (hm : memory.DefaultSizes) (calls : List Call) (hv : ∀ call ∈ calls, WordTraffic call.trans) :
    ∃ answers c, run (b_transport SimplestMemory.target) (g.freshCache memory) calls =
      .ok (answers, c) ∧ HoldsTags g (policyTags g calls) c ∧
      EveryStep (CostsHeld (g.store g.emptyBlocks)) (calls.zip answers) := by
  obtain ⟨answers, c, hr, hend, hall⟩ := run_answered (b_transport SimplestMemory.target)
    (fun h c => HoldsTags g (policyTags g (h.map Prod.fst)) c)
    (CostsHeld (g.store g.emptyBlocks)) (g.freshCache memory) calls
    (fun call hcall h c hc => policyCosts_step g hl h32 h c hc call (hv call hcall))
    (holdsTags_fresh g memory hm)
  rw [List.map_fst_zip (run_length _ _ _ _ _ hr).ge] at hend
  exact ⟨answers, c, hr, hend, hall⟩

end Policy

/-- Where every call costs what the policy says, the costs of the misses add up. -/
theorem total_of_each (s : CacheStore) (h : History)
    (hc : ∀ e ∈ h, e.1.trans.command ≠ .ignore) (hall : EveryStep (CostsHeld s) h) :
    (h.map (fun e => e.2.delay)).sum = (h.map (fun e => e.1.delay)).sum + 100 * misses .read h +
      200 * misses .write h := by
  induction h using List.reverseRecOn with
  | nil => rfl
  | append_singleton h e ih =>
    rw [everyStep_concat] at hall
    obtain ⟨hhit, hdelay⟩ := hall.2
    have hprev := ih (fun x hx => hc x (List.mem_append_left _ hx)) hall.1
    have htotal := total_misses h e (hc e (by simp))
    have hcost : heldDelay s (h.map Prod.fst) e.1 =
        if e.2.branch.hit = true then 0 else missDelay e.1.trans.command := by
      rw [heldDelay, hhit]
      simp only [decide_eq_true_eq]
    simp only [List.map_append, List.map_singleton, List.sum_append, List.sum_singleton]
    omega

end RealCache

namespace Geometry

open RealCache

variable (g : Geometry)

/-- The timing of every run, with conflicts and evictions: a call is free when the policy holds
its line, and costs 100 ns as a read and 200 ns as a write when it does not. -/
theorem policy_costs (hl : 4 ≤ g.lineBytes) (h32 : g.lineBytes ≤ 32) (memory : SimplestMemory)
    (hm : memory.DefaultSizes) (calls : List Call) (hv : ∀ call ∈ calls, WordTraffic call.trans) :
    ∃ answers c, g.runCache SimplestMemory.target memory calls = .ok (answers, c) ∧
      PolicyCosts c.m_cacheStore calls answers ∧
      ∀ a, c.m_cacheStore.IsResident a ↔ c.m_cacheStore.Holds (addresses calls) a := by
  obtain ⟨answers, c, hr, hend, hall⟩ := run_policyCosts g hl h32 memory hm calls hv
  obtain ⟨-, t, hc, htags⟩ := hend
  have hlen := run_length _ _ _ _ _ hr
  have hcommand : ∀ e ∈ calls.zip answers, e.1.trans.command ≠ .ignore := by
    intro e he
    exact (hv e.1 (List.of_mem_zip he).1).command_ne
  have htotal := total_of_each _ _ hcommand hall
  have hcalls : (calls.zip answers).map (fun e => e.1.delay) = calls.map Call.delay := by
    conv_rhs => rw [← List.map_fst_zip hlen.ge, List.map_map]
    rfl
  have hanswers : (calls.zip answers).map (fun e => e.2.delay) = answers.map Answer.delay := by
    conv_rhs => rw [← List.map_snd_zip hlen.le, List.map_map]
    rfl
  refine ⟨answers, c, ?_, ⟨?_, ?_⟩, ?_⟩
  · rw [runCache_eq]
    exact hr
  · rw [hc]
    exact hall
  · rw [← hcalls, ← hanswers]
    exact htotal
  · intro a
    have hkeys : (t (g.block a)).keys = policyTags g calls (g.block a) := congrFun htags _
    rw [hc, g.isResident_store, g.holds_iff, Option.ne_none_iff_exists', resident,
      SlotTable.lookup_isSome, hkeys]
    rfl

/-- Three lines of block 0 in its two ways: the first and the third take turns in one of them. -/
theorem policy_costs_conflicts :
    let memory := SimplestMemory.construct 1024 8 (List.replicate 1024 0)
      (SimplestMemory.allocated_replicate 1024 8 0 (by decide) (by decide))
    let calls := [Call.onWord .read 0x0 [0, 0, 0, 0], .onWord .write 0x40 [7, 0, 0, 0],
      .onWord .read 0x80 [0, 0, 0, 0], .onWord .write 0x4 [5, 0, 0, 0],
      .onWord .read 0x44 [0, 0, 0, 0]]
    ∃ answers c, topRealCache.runCache SimplestMemory.target memory calls = .ok (answers, c) ∧
      PolicyCosts c.m_cacheStore calls answers ∧
      ∀ a, c.m_cacheStore.IsResident a ↔ c.m_cacheStore.Holds (addresses calls) a :=
  topRealCache.policy_costs (by decide) (by decide) _ ⟨rfl, rfl⟩ _ (by decide)

end Geometry

end FreeSampler
