import FreeSampler.FakeCache.FakeCache
import FreeSampler.Memory.SparseRuns
import FreeSampler.RealCache.MemoryTraffic

namespace FreeSampler

open Framework Tlm

namespace FakeCache

/-- The demonstration cache in front of a memory with the sizes of another one. -/
structure Fronts (memory : SimplestMemory) (c : FakeCache) (m : SimplestMemory) : Prop where
  memory_eq : c.memory = m
  p_PAGESIZE_eq : m.p_PAGESIZE = memory.p_PAGESIZE
  p_LINESIZE_eq : m.p_LINESIZE = memory.p_LINESIZE

/-- Where the checks pass, the demonstration cache answers as the memory behind it. -/
theorem b_transport_checked (memory : SimplestMemory) (c c' : FakeCache) (m : SimplestMemory)
    (hc : Fronts memory c m) (trans : GenericPayload) (hcheck : memory.check trans = [])
    (delay : Nat) (sc_time_stamp : String) (r : Transport) :
    (target sc_time_stamp).b_transport c trans delay = .ok (r, c') ↔
      SimplestMemory.target.b_transport m trans delay = .ok (r, c'.memory) := by
  obtain ⟨rfl, hp, hl⟩ := hc
  rw [← SimplestMemory.check_congr memory c.memory hp hl] at hcheck
  have hfake := c.b_transport_ok c' ⟨⟨trans, delay⟩, sc_time_stamp⟩ r
  have hmemory := c.memory.b_transport_ok c'.memory trans delay r
  rw [c.raised_nil _ hcheck] at hfake
  rw [hcheck] at hmemory
  exact hfake.trans hmemory.symm

theorem fronts_next (memory : SimplestMemory) (c : FakeCache) (m m' : SimplestMemory)
    (hc : Fronts memory c m) (trans : GenericPayload) (delay : Nat) (r : Transport)
    (h : SimplestMemory.target.b_transport m trans delay = .ok (r, m')) :
    Fronts memory ⟨m'⟩ m' := by
  obtain ⟨data, ha, _⟩ := (m.b_transport_ok m' trans delay r).mp h
  obtain ⟨hp, hl⟩ := m.access_sizes m' trans data ha
  exact ⟨rfl, hp.trans hc.p_PAGESIZE_eq, hl.trans hc.p_LINESIZE_eq⟩

theorem target_simulated (memory : SimplestMemory) (sc_time_stamp : String) :
    (target sc_time_stamp).SimulatedBy SimplestMemory.target (fun trans => memory.check trans = [])
      (Fronts memory) := by
  intro c m trans delay r c' hc hcheck h
  have hs := (b_transport_checked memory c c' m hc trans hcheck delay sc_time_stamp r).mp h
  exact ⟨c'.memory, hs, fronts_next memory c m c'.memory hc trans delay r hs⟩

theorem simulated_target (memory : SimplestMemory) (sc_time_stamp : String) :
    SimplestMemory.target.SimulatedBy (target sc_time_stamp) (fun trans => memory.check trans = [])
      (fun m c => Fronts memory c m) := by
  intro m c trans delay r m' hc hcheck h
  exact ⟨⟨m'⟩, (b_transport_checked memory c ⟨m'⟩ m hc trans hcheck delay sc_time_stamp r).mpr h,
    fronts_next memory c m m' hc trans delay r h⟩

end FakeCache

namespace Geometry

open RealCache

variable (g : Geometry)

/-- The demonstration cache between the cache and its memory changes nothing: where the writes
pass the memory's checks, a run through both caches is the run through the one, with the same
answers, the same lines in the cache and the same contents of the memory. -/
theorem fakeCache_between (hl : 4 ≤ g.lineBytes) (memory : SimplestMemory)
    (hline : g.lineBytes ≤ 4 * memory.p_LINESIZE) (hpage : g.lineBytes ≤ 4 * memory.p_PAGESIZE)
    (sc_time_stamp : String) (calls : List Call)
    (hcheck : ∀ call ∈ calls, call.trans.command = .write → memory.check call.trans = [])
    (answers : List Answer) (store : CacheStore) (m : SimplestMemory) :
    (∃ c, g.runCache (FakeCache.target sc_time_stamp) (FakeCache.construct memory) calls =
        .ok (answers, c) ∧ c.m_cacheStore = store ∧ c.memory.memory = m) ↔
      ∃ c, g.runCache SimplestMemory.target memory calls = .ok (answers, c) ∧
        c.m_cacheStore = store ∧ c.memory = m := by
  have hlines := memory.check_lineRequest g hline hpage
  have hfronts : FakeCache.Fronts memory (FakeCache.construct memory) memory := ⟨rfl, rfl, rfl⟩
  constructor
  · intro h
    obtain ⟨c, hrun, rfl, rfl⟩ := h
    obtain ⟨d, hd, hrel⟩ := runCache_simulated _ _ _ _ g hl
      (FakeCache.target_simulated memory sc_time_stamp) hlines _ memory hfronts calls hcheck
      answers c hrun
    exact ⟨d, hd, hrel.m_cacheStore_eq, hrel.memory_related.memory_eq.symm⟩
  · intro h
    obtain ⟨c, hrun, rfl, rfl⟩ := h
    obtain ⟨d, hd, hrel⟩ := runCache_simulated _ _ _ _ g hl
      (FakeCache.simulated_target memory sc_time_stamp) hlines memory _ hfronts calls hcheck
      answers c hrun
    exact ⟨d, hd, hrel.m_cacheStore_eq, hrel.memory_related.memory_eq⟩

/-- A write that misses, and reads of both lines at odd and even word indices. -/
theorem fakeCache_between_mixed :
    let calls := [Call.onWord .write 0x4 [7, 0, 0, 0], .onWord .read 0x0 [0, 0, 0, 0],
      .onWord .read 0xC [0, 0, 0, 0], .onWord .write 0x48 [5, 0, 0, 0]]
    ∀ answers store m,
      (∃ c, topRealCache.runCache (FakeCache.target "0 s")
          (FakeCache.construct SimplestMemory.small) calls = .ok (answers, c) ∧
          c.m_cacheStore = store ∧ c.memory.memory = m) ↔
        ∃ c, topRealCache.runCache SimplestMemory.target SimplestMemory.small calls =
          .ok (answers, c) ∧ c.m_cacheStore = store ∧ c.memory = m :=
  topRealCache.fakeCache_between (by decide) SimplestMemory.small (by decide) (by decide) "0 s" _
    (by decide)

end Geometry

namespace SparseMemory

open RealCache

/-- A request for a line of more than a word is refused as a burst. -/
theorem lineRequest_refused (g : Geometry) (h8 : 8 ≤ g.lineBytes) (allocated : Nat → Page)
    (m : SparseMemory) (trans : GenericPayload) (h : LineRequest g trans) (delay : Nat) :
    (targetOver allocated).b_transport m trans delay =
      .ok (⟨{ trans with responseStatus := .burstError }, delay, []⟩, m) := by
  have hle : g.lineBytes ≤ 2 ^ 10 := Nat.pow_le_pow_right (by decide) g.lineBits_le
  have hadr := h.address_lt
  have hlen := h.dataLength_eq
  have hinside : ¬ MAXSIZEMEM ≤ trans.address / 4 := by
    rw [UInt64.le_iff_toNat_le, UInt64.toNat_div]
    have hmax : MAXSIZEMEM.toNat = 1048576 := rfl
    simp only [UInt64.reduceToNat]
    omega
  have hburst : 4 < trans.dataLength := by
    have hfour : (4 : UInt32).toNat = 4 := rfl
    rw [UInt32.lt_iff_toNat_lt]
    omega
  have herror : errorResponse trans = some .burstError := by
    simp [errorResponse, hinside, h.byteEnablePtr_eq, hburst]
  exact m.step_rejected ⟨trans, delay, _⟩ .burstError herror

/-- A write is answered alike in every state, over every allocation. -/
theorem write_simulated (allocated allocated' : Nat → Page) (m m' u : SparseMemory)
    (trans : GenericPayload) (hwrite : trans.command = .write) (delay : Nat) (r : Transport)
    (h : (targetOver allocated).b_transport m trans delay = .ok (r, u)) :
    ∃ u', (targetOver allocated').b_transport m' trans delay = .ok (r, u') := by
  cases he : errorResponse trans with
  | some status =>
    have hs := m.step_rejected ⟨trans, delay, allocated m.pageIDs.length⟩ status he
    obtain ⟨rfl, -⟩ := ok_unique h hs
    exact ⟨m', m'.step_rejected ⟨trans, delay, _⟩ status he⟩
  | none =>
    have hd : 4 ≤ trans.data.length := by
      change m.b_transport _ _ _ = _ at h
      simp only [b_transport, he, transfer, hwrite, bind_eq_ok, Prod.exists] at h
      obtain ⟨_, _, ⟨w, hw, _⟩, _⟩ := h
      exact loadWord_inside trans.data w hw
    obtain ⟨v, hv⟩ := m.write_accepted ⟨trans, delay, allocated m.pageIDs.length⟩ he hwrite hd
    obtain ⟨rfl, -⟩ := ok_unique h hv
    exact m'.write_accepted ⟨trans, delay, allocated' m'.pageIDs.length⟩ he hwrite hd

theorem targetOver_simulated (g : Geometry) (h8 : 8 ≤ g.lineBytes)
    (allocated allocated' : Nat → Page) :
    (targetOver allocated).SimulatedBy (targetOver allocated')
      (fun trans => trans.command = .write ∨ LineRequest g trans) (fun _ _ => True) := by
  intro m m' trans delay r u _ hV h
  rcases hV with hwrite | hline
  · obtain ⟨u', hu⟩ := write_simulated allocated allocated' m m' u trans hwrite delay r h
    exact ⟨u', hu, trivial⟩
  · rw [lineRequest_refused g h8 allocated m trans hline delay] at h
    obtain ⟨rfl, -⟩ := ok_inj h
    exact ⟨m', lineRequest_refused g h8 allocated' m' trans hline delay, trivial⟩

/-- The memory reports nothing: it answers with an error response. -/
theorem targetOver_silent (allocated : Nat → Page) (m m' : SparseMemory) (trans : GenericPayload)
    (delay : Nat) (r : Transport)
    (h : (targetOver allocated).b_transport m trans delay = .ok (r, m')) : r.reports = [] := by
  change m.b_transport _ _ _ = _ at h
  cases he : errorResponse trans with
  | some status =>
    simp only [b_transport, he] at h
    rw [← (ok_inj h).1]
  | none =>
    simp only [b_transport, he, bind_eq_ok, Prod.exists] at h
    obtain ⟨data, u, _, hr⟩ := h
    rw [← (ok_inj hr).1]

end SparseMemory

namespace RealCache

/-- What the cache makes of a line that it did not get: it takes the zeros of its own buffer for
the line, reports the error response, and delivers a zero. -/
def FillRefused (g : Geometry) (e : Call × Answer) : Prop :=
  ∀ line, e.2.branch.filled = some line → line = List.replicate g.lineBytes 0 ∧
    e.2.reports =
      [⟨"RealCache", "Response error from b_transport call to Memory, " ++ e.1.sc_time_stamp⟩] ∧
    (e.1.trans.command = .read → e.2.trans.data.head? = some 0)

/-- No fill over the sparse memory is answered with a line. -/
theorem fillRefused_step (g : Geometry) (h8 : 8 ≤ g.lineBytes)
    (allocated : Nat → SparseMemory.Page) (t : Nat → g.Block) (c c' : RealCache SparseMemory)
    (hc : c.m_cacheStore = g.store t) (call : Call) (a : Answer)
    (h : Outcome (SparseMemory.targetOver allocated) g t c call a c') :
    FillRefused g (call, a) := by
  have hline := lineRequest_is g t c hc (by omega) call.trans.address
  intro line hf
  cases h with
  | readHit line' b rest _ _ _ => simp [respond, Branch.filled] at hf
  | readMiss r m b rest _ _ hfill _ =>
    obtain ⟨rfl, -⟩ := ok_unique hfill
      (SparseMemory.lineRequest_refused g h8 allocated c.memory _ hline call.delay)
    refine ⟨?_, rfl, ?_⟩
    · rw [← Option.some.inj hf]
      exact hline.data_eq
    · intro _
      simp only [respond, List.head?_cons, hline.data_eq, List.getD_eq_getElem?_getD]
      rw [List.getElem?_replicate_of_lt (g.byteOffset_lt _), Option.getD_some]
  | writeHit line' b rest _ _ _ => simp [respond, Branch.filled] at hf
  | writeError r m _ _ _ _ => simp [respond, Branch.filled] at hf
  | writeMiss r f written m hwrite _ hw _ hfill =>
    obtain ⟨rfl, -⟩ := ok_unique hfill
      (SparseMemory.lineRequest_refused g h8 allocated written _ hline r.delay)
    have hsilent := SparseMemory.targetOver_silent allocated c.memory written _ _ r hw
    refine ⟨?_, ?_, ?_⟩
    · rw [← Option.some.inj hf]
      exact hline.data_eq
    · simp only [respond, hsilent]
      rfl
    · intro hread
      simp [hwrite] at hread
  | ignored _ => simp [respond, Branch.filled] at hf

end RealCache

namespace Geometry

open RealCache

variable (g : Geometry)

/-- The sparse memory refuses the bursts that a cache with lines of more than a word makes. So the
cache shows nothing of it: every fill is a line of zeros and a report, and over any other contents
of the memory, and of its allocations, the same calls get the same answers. -/
theorem sparse_refusesFills (h8 : 8 ≤ g.lineBytes) (allocated : Nat → SparseMemory.Page)
    (memory : SparseMemory) (calls : List Call) (answers : List Answer) (c : RealCache SparseMemory)
    (hrun : g.runCache (SparseMemory.targetOver allocated) memory calls = .ok (answers, c)) :
    (∀ e ∈ calls.zip answers, FillRefused g e) ∧
      ∀ (allocated' : Nat → SparseMemory.Page) (memory' : SparseMemory), ∃ c',
        g.runCache (SparseMemory.targetOver allocated') memory' calls = .ok (answers, c') ∧
          c'.m_cacheStore = c.m_cacheStore := by
  have hl : 4 ≤ g.lineBytes := by omega
  refine ⟨?_, ?_⟩
  · rw [runCache_eq] at hrun
    have hstep (call : Call) (_ : call ∈ calls) (h : History) (u : RealCache SparseMemory)
        (a : Answer) (u' : RealCache SparseMemory)
        (hu : g.HoldsTables u ∧ ∀ e ∈ h, FillRefused g e)
        (hs : u.b_transport (SparseMemory.targetOver allocated) call = .ok (a, u')) :
        g.HoldsTables u' ∧ ∀ e ∈ h ++ [(call, a)], FillRefused g e := by
      obtain ⟨⟨t, ht⟩, hall⟩ := hu
      have hout := ((b_transport_iff _ g t u u' call a hl ht).mp hs).2
      refine ⟨g.holdsTables_outcome _ t u u' call a ht hout, ?_⟩
      intro e he
      rcases List.mem_append.mp he with he | he
      · exact hall e he
      · rw [List.mem_singleton.mp he]
        exact fillRefused_step g h8 allocated t u u' ht call a hout
    exact (run_invariant _ (fun h u => g.HoldsTables u ∧ ∀ e ∈ h, FillRefused g e) _ c [] calls
      answers hstep ⟨⟨_, rfl⟩, by simp⟩ hrun).2
  · intro allocated' memory'
    obtain ⟨c', hrun', hrel⟩ := runCache_simulated _ _ _ _ g hl
      (SparseMemory.targetOver_simulated g h8 allocated allocated') (fun trans => Or.inr) memory
      memory' trivial calls (fun call _ => Or.inl) answers c hrun
    exact ⟨c', hrun', hrel.m_cacheStore_eq⟩

/-- A write of 5 that the memory takes, a read of it, and one behind the end of the memory. -/
theorem sparse_refusesFills_write :
    let calls := [Call.onWord .write 0x8 [5, 0, 0, 0], .onWord .read 0x8 [7, 7, 7, 7],
      .onWord .write 0x400000 [6, 0, 0, 0]]
    ∃ answers c, topRealCache.runCache (SparseMemory.targetOver (fun _ _ => 0))
        SparseMemory.construct calls = .ok (answers, c) ∧
      (∀ e ∈ calls.zip answers, FillRefused topRealCache e) ∧
      ∀ (allocated' : Nat → SparseMemory.Page) (memory' : SparseMemory), ∃ c',
        topRealCache.runCache (SparseMemory.targetOver allocated') memory' calls =
          .ok (answers, c') ∧ c'.m_cacheStore = c.m_cacheStore := by
  intro calls
  obtain ⟨⟨answers, c⟩, h⟩ := exists_ok (topRealCache.runCache
    (SparseMemory.targetOver (fun _ _ => 0)) SparseMemory.construct calls) (by decide +kernel)
  exact ⟨answers, c, h, topRealCache.sparse_refusesFills (by decide) _ _ calls answers c h⟩

end Geometry

end FreeSampler
