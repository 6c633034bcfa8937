import FreeSampler.RealCache.Costs
import FreeSampler.RealCache.Targets

namespace FreeSampler

open Framework Tlm

namespace RealCache

/-- The write that a call passes on to the target, if it does. -/
def forwarded (e : Call × Answer) : Option Transaction :=
  match e.2.branch with
  | .writeMiss _ _ => some ⟨e.1.trans, e.1.delay⟩
  | .writeError _ => some ⟨e.1.trans, e.1.delay⟩
  | _ => none

/-- A target that reading a line does not change. -/
def KeepsOnFill {σ : Type} (T : Target σ) (g : Geometry) : Prop :=
  ∀ s trans delay r s', LineRequest g trans → T.b_transport s trans delay = .ok (r, s') → s' = s

/-- The state of the target is the one that the forwarded writes of a history lead to. -/
def Forwards {σ : Type} (T : Target σ) (memory : σ) (h : History) (c : RealCache σ) : Prop :=
  ∃ replies, run T.step memory (h.filterMap forwarded) = .ok (replies, c.memory)

section Step

variable {σ : Type} (T : Target σ) (g : Geometry) (memory : σ) (h : History) (c c' : RealCache σ)
  (call : Call) (a : Answer)

theorem forwards_none (hp : Forwards T memory h c) (hn : forwarded (call, a) = none)
    (hm : c'.memory = c.memory) : Forwards T memory (h ++ [(call, a)]) c' := by
  obtain ⟨replies, hr⟩ := hp
  refine ⟨replies, ?_⟩
  rw [filterMap_concat, hn, Option.toList_none, List.append_nil, hm]
  exact hr

theorem forwards_some (hp : Forwards T memory h c) (r : Transport)
    (hs : forwarded (call, a) = some ⟨call.trans, call.delay⟩)
    (hm : T.b_transport c.memory call.trans call.delay = .ok (r, c'.memory)) :
    Forwards T memory (h ++ [(call, a)]) c' := by
  obtain ⟨replies, hr⟩ := hp
  refine ⟨replies ++ [r], ?_⟩
  rw [filterMap_concat, hs]
  exact run_concat_ok T.step memory c.memory c'.memory _ _ replies r hr hm

/-- One call changes the target by the write that it forwards, and by nothing else. -/
theorem forwards_step (hl : 4 ≤ g.lineBytes) (hT : KeepsOnFill T g) (t : Nat → g.Block)
    (hc : c.m_cacheStore = g.store t) (hp : Forwards T memory h c)
    (hs : c.b_transport T call = .ok (a, c')) : Forwards T memory (h ++ [(call, a)]) c' := by
  have hline := lineRequest_is g t c hc hl call.trans.address
  cases ((b_transport_iff T g t c c' call a hl hc).mp hs).2 with
  | readHit line b rest hread _ hdata => exact forwards_none T memory h c c call _ hp rfl rfl
  | readMiss r m b rest hread _ hfill hdata =>
    exact forwards_none T memory h c _ call _ hp rfl (hT _ _ _ _ _ hline hfill)
  | writeHit line b rest hwrite _ hdata => exact forwards_none T memory h c _ call _ hp rfl rfl
  | writeError r m hwrite _ hw herror => exact forwards_some T memory h c _ call _ hp r rfl hw
  | writeMiss r f written m hwrite _ hw hok hfill =>
    refine forwards_some T memory h c _ call _ hp r rfl ?_
    rw [hw, filled, hT _ _ _ _ _ hline hfill]
  | ignored hi => exact forwards_none T memory h c c call _ hp rfl rfl

end Step

end RealCache

theorem SimplestMemory.keepsOnFill (g : Geometry) :
    RealCache.KeepsOnFill SimplestMemory.target g := by
  intro m trans delay r m' hline h
  obtain ⟨data, ha, _⟩ := (m.b_transport_ok m' trans delay r).mp h
  exact ((m.access_read m' trans data hline.command_eq).mp ha).1

/-- The requests for lines pass the checks of a memory whose lines and page are long enough. -/
theorem SimplestMemory.check_lineRequest (g : Geometry) (memory : SimplestMemory)
    (hline : g.lineBytes ≤ 4 * memory.p_LINESIZE) (hpage : g.lineBytes ≤ 4 * memory.p_PAGESIZE)
    (trans : GenericPayload) (h : RealCache.LineRequest g trans) : memory.check trans = [] := by
  have hadr := h.address_lt
  have hlen := h.dataLength_eq
  refine (memory.check_eq_nil trans).mpr ⟨?_, h.byteEnablePtr_eq, by omega, ?_⟩
  · simp only [UInt64.toNat_div, UInt64.reduceToNat]
    omega
  · rw [h.streamingWidth_eq]
    exact UInt32.le_refl _

namespace RealCache

/-- A call that misses as a write, as far as the lines held after some others tell. -/
def missesWrite (s : CacheStore) (before : List Call) (call : Call) : Prop :=
  call.trans.command = .write ∧ ¬ s.Holds (addresses before) call.trans.address

instance (s : CacheStore) (before : List Call) (call : Call) :
    Decidable (missesWrite s before call) := inferInstanceAs (Decidable (_ ∧ _))

/-- The writes of a run of calls whose lines the policy does not hold when they come. -/
def missedWrites (s : CacheStore) (calls : List Call) : List Transaction :=
  (withPast [] calls).filterMap (fun e =>
    if missesWrite s e.1 e.2 then some ⟨e.2.trans, e.2.delay⟩ else none)

/-- A call forwards its write exactly when the policy misses it. -/
def ForwardsMissed (s : CacheStore) (before : History) (e : Call × Answer) : Prop :=
  forwarded e = if missesWrite s (before.map Prod.fst) e.1 then some ⟨e.1.trans, e.1.delay⟩
    else none

/-- Where every call follows the policy, the forwarded writes are those that it misses. -/
theorem forwarded_eq_missed (s : CacheStore) (h : History) (hall : EveryStep (ForwardsMissed s) h) :
    h.filterMap forwarded = missedWrites s (h.map Prod.fst) := by
  induction h using List.reverseRecOn with
  | nil => rfl
  | append_singleton h e ih =>
    rw [everyStep_concat] at hall
    have hforward := hall.2
    rw [ForwardsMissed] at hforward
    rw [filterMap_concat, ih hall.1, hforward, List.map_append, List.map_singleton, missedWrites,
      missedWrites, withPast_concat, filterMap_concat]

theorem forwarded_outcome {σ : Type} (T : Target σ) (g : Geometry) (t : Nat → g.Block)
    (c c' : RealCache σ) (call : Call) (a : Answer) (h : Outcome T g t c call a c') :
    forwarded (call, a) = if call.trans.command = .write ∧ a.branch.hit = false
      then some ⟨call.trans, call.delay⟩ else none := by
  cases h with
  | readHit line b rest hread _ _ => simp [forwarded, respond, hread]
  | readMiss r m b rest hread _ _ _ => simp [forwarded, respond, hread]
  | writeHit line b rest _ _ _ => simp [forwarded, respond, Branch.hit]
  | writeError r m hwrite _ _ _ => simp [forwarded, respond, Branch.hit, hwrite]
  | writeMiss r f written m hwrite _ _ _ _ => simp [forwarded, respond, Branch.hit, hwrite]
  | ignored hi => simp [forwarded, respond, hi]

/-- A call that hits exactly when the policy holds its line follows the policy. -/
theorem forwardsMissed_outcome {σ : Type} (T : Target σ) (g : Geometry) (t : Nat → g.Block)
    (s : CacheStore) (h : History) (c c' : RealCache σ) (call : Call) (a : Answer)
    (hout : Outcome T g t c call a c')
    (hhit : a.branch.hit = decide (s.Holds (addresses (h.map Prod.fst)) call.trans.address)) :
    ForwardsMissed s h (call, a) := by
  rw [ForwardsMissed, forwarded_outcome T g t c c' call a hout, hhit]
  apply if_congr _ rfl rfl
  rw [decide_eq_false_iff_not]
  rfl

end RealCache

namespace Geometry

open RealCache

variable (g : Geometry)

/-- What the memory sees of a run: it ends as if the writes whose lines the policy did not hold
when they came, and no others, had been made to it directly. -/
theorem memory_missedWrites (hl : 4 ≤ g.lineBytes) (h32 : g.lineBytes ≤ 32)
    (memory : SimplestMemory) (hm : memory.DefaultSizes) (calls : List Call)
    (hv : ∀ call ∈ calls, WordTraffic call.trans) :
    ∃ answers c replies, g.runCache SimplestMemory.target memory calls = .ok (answers, c) ∧
      run SimplestMemory.target.step memory (missedWrites c.m_cacheStore calls) =
        .ok (replies, c.memory) := by
  have hstep (call : Call) (hcall : call ∈ calls) (h : History) (c : RealCache SimplestMemory)
      (hinv : HoldsTags g (policyTags g (h.map Prod.fst)) c ∧
        Forwards SimplestMemory.target memory h c) :
      ∃ a c', c.b_transport SimplestMemory.target call = .ok (a, c') ∧
        (HoldsTags g (policyTags g ((h ++ [(call, a)]).map Prod.fst)) c' ∧
          Forwards SimplestMemory.target memory (h ++ [(call, a)]) c') ∧
        ForwardsMissed (g.store g.emptyBlocks) h (call, a) := by
    obtain ⟨htags, hforwards⟩ := hinv
    obtain ⟨a, c', hs, htags', hhit, _⟩ := policyCosts_step g hl h32 h c htags call (hv call hcall)
    obtain ⟨-, t, hc, -⟩ := htags
    have hout := ((b_transport_iff SimplestMemory.target g t c c' call a hl hc).mp hs).2
    exact ⟨a, c', hs, ⟨htags', forwards_step SimplestMemory.target g memory h c c' call a hl
      (SimplestMemory.keepsOnFill g) t hc hforwards hs⟩,
      forwardsMissed_outcome SimplestMemory.target g t _ h c c' call a hout hhit⟩
  obtain ⟨answers, c, hr, ⟨htags, replies, hmemory⟩, hall⟩ := run_answered
    (b_transport SimplestMemory.target)
    (fun h c => HoldsTags g (policyTags g (h.map Prod.fst)) c ∧
      Forwards SimplestMemory.target memory h c)
    (ForwardsMissed (g.store g.emptyBlocks)) (g.freshCache memory) calls hstep
    ⟨holdsTags_fresh g memory hm, [], rfl⟩
  obtain ⟨-, t, hc, -⟩ := htags
  refine ⟨answers, c, replies, ?_, ?_⟩
  · rw [runCache_eq]
    exact hr
  · -- which lines the policy holds depends on the sizes of the store alone
    have hmissed : EveryStep (ForwardsMissed (g.store t)) (calls.zip answers) := hall
    rw [forwarded_eq_missed (g.store t) _ hmissed,
      List.map_fst_zip (run_length _ _ _ _ _ hr).ge] at hmemory
    rw [hc]
    exact hmemory

/-- A write miss, a write hit on the same line, and a write that comes after its eviction. -/
theorem memory_missedWrites_evicted :
    let memory := SimplestMemory.construct 1024 8 (List.replicate 1024 0)
      (SimplestMemory.allocated_replicate 1024 8 0 (by decide) (by decide))
    let calls := [Call.onWord .write 0x0 [1, 0, 0, 0], .onWord .write 0x4 [2, 0, 0, 0],
      .onWord .read 0x40 [0, 0, 0, 0], .onWord .read 0x80 [0, 0, 0, 0],
      .onWord .write 0x4 [3, 0, 0, 0]]
    ∃ answers c replies, topRealCache.runCache SimplestMemory.target memory calls =
        .ok (answers, c) ∧
      run SimplestMemory.target.step memory (missedWrites c.m_cacheStore calls) =
        .ok (replies, c.memory) :=
  topRealCache.memory_missedWrites (by decide) (by decide) _ ⟨rfl, rfl⟩ _ (by decide)

end Geometry

end FreeSampler
