import FreeSampler.RealCache.Timing
import Mathlib.Data.List.Forall2

namespace FreeSampler

open Framework Tlm

namespace Geometry

variable (g : Geometry)

/-- The tag of every way of every block, block by block. -/
def wayTags (k : Nat → List Tag) : List UInt64 :=
  (List.range (g.blocks * g.ways)).map (fun n =>
    ((k (n / g.ways))[n % g.ways]?.map Subtype.val).getD CacheLine.EMPTY)

theorem getTag_wayLine (b : g.Block) (w : Nat) :
    (g.wayLine b w).getTag = (b.keys[w]?.map Subtype.val).getD CacheLine.EMPTY := by
  rw [wayLine, SlotTable.keys, List.getElem?_map]
  cases b.slots[w]? with
  | none => rfl
  | some e => rfl

theorem getTags_store (t : Nat → g.Block) :
    (g.store t).m_cacheLines.map CacheLine.getTag = g.wayTags (g.tagsHeld t) := by
  rw [store, List.map_map, wayTags]
  apply List.map_congr_left
  intro n _
  exact g.getTag_wayLine (t (n / g.ways)) (n % g.ways)

end Geometry

namespace RealCache

/-- What the timing of a call shows: whether it hit, the delay that it added, and the tag of
every line of the cache after it. -/
structure Observation where
  hit : Bool
  addedDelay : Nat
  tags : List UInt64
  deriving DecidableEq, Repr

def observe (call : Call) (a : Answer) (c : RealCache SimplestMemory) : Observation :=
  ⟨a.branch.hit, a.delay - call.delay, c.m_cacheStore.m_cacheLines.map CacheLine.getTag⟩

/-- A call as the observer of its timing sees it. -/
def timedStep : RealCache SimplestMemory → Call →
    Except Fault (Observation × RealCache SimplestMemory) :=
  observed (b_transport SimplestMemory.target) observe

/-- What is seen of an access depends on its command, its address and the tags held. -/
theorem timedStep_eq (g : Geometry) (hl : 4 ≤ g.lineBytes) (h32 : g.lineBytes ≤ 32)
    (k : Nat → List Geometry.Tag) (c : RealCache SimplestMemory) (hk : HoldsTags g k c)
    (call : Call) (h : WordTraffic call.trans) :
    ∃ c', c.timedStep call = .ok (⟨g.holdsLine k call.trans.address, accessDelay g k call.trans,
        g.wayTags (g.touch k call.trans.address)⟩, c') ∧
      HoldsTags g (g.touch k call.trans.address) c' := by
  obtain ⟨a, c', hs, hk', hhit, hdelay⟩ := access_timed g hl h32 k c hk call h
  have hadded : a.delay - call.delay = accessDelay g k call.trans := by omega
  have htags : c'.m_cacheStore.m_cacheLines.map CacheLine.getTag =
      g.wayTags (g.touch k call.trans.address) := by
    obtain ⟨_, t, hc, ht⟩ := hk'
    rw [hc, g.getTags_store, ht]
  have hseen := observed_ok (b_transport SimplestMemory.target) observe c c' call a hs
  rw [observe, hhit, hadded, htags] at hseen
  exact ⟨c', hseen, hk'⟩

/-- Two calls with one command and one address. -/
def SameAccess (call call' : Call) : Prop :=
  call.trans.command = call'.trans.command ∧ call.trans.address = call'.trans.address

/-- Two caches that hold the same tags look the same through accesses to the same addresses,
whatever data they hold or get, and hold the same tags again. -/
theorem timedStep_lockstep (g : Geometry) (hl : 4 ≤ g.lineBytes) (h32 : g.lineBytes ≤ 32)
    (c d : RealCache SimplestMemory) (hcd : ∃ k, HoldsTags g k c ∧ HoldsTags g k d)
    (call call' : Call) (hsame : SameAccess call call') (h : WordTraffic call.trans)
    (h' : WordTraffic call'.trans) :
    ∃ o c' d', c.timedStep call = .ok (o, c') ∧ d.timedStep call' = .ok (o, d') ∧
      ∃ k, HoldsTags g k c' ∧ HoldsTags g k d' := by
  obtain ⟨k, hc, hd⟩ := hcd
  obtain ⟨hcommand, haddress⟩ := hsame
  obtain ⟨c', hs, hc'⟩ := timedStep_eq g hl h32 k c hc call h
  obtain ⟨d', hs', hd'⟩ := timedStep_eq g hl h32 k d hd call' h'
  rw [accessDelay, ← hcommand, ← haddress] at hs'
  rw [← haddress] at hd'
  exact ⟨_, c', d', hs, hs', _, hc', hd'⟩

end RealCache

namespace Geometry

open RealCache

variable (g : Geometry)

/-- The timing of a run of calls on a cache just constructed in front of a memory. -/
def traceCache (memory : SimplestMemory) (calls : List Call) :
    Except Fault (List Observation × RealCache SimplestMemory) := do
  let c ← RealCache.construct g.memorySize g.cacheSize g.lineSize g.numWays memory
  run RealCache.timedStep c calls

/-- Timing depends on the trace of commands and addresses only: two runs over the same trace are
answered and look the same at every step, whatever is written and whatever the memories hold. -/
theorem traceCache_eq (hl : 4 ≤ g.lineBytes) (h32 : g.lineBytes ≤ 32)
    (memory memory' : SimplestMemory) (hm : memory.DefaultSizes) (hm' : memory'.DefaultSizes)
    (calls calls' : List Call) (hsame : List.Forall₂ SameAccess calls calls')
    (h : ∀ call ∈ calls, WordTraffic call.trans) (h' : ∀ call ∈ calls', WordTraffic call.trans) :
    ∃ seen c d, g.traceCache memory calls = .ok (seen, c) ∧
      g.traceCache memory' calls' = .ok (seen, d) := by
  let I (call call' : Call) : Prop :=
    SameAccess call call' ∧ WordTraffic call.trans ∧ WordTraffic call'.trans
  have hboth : List.Forall₂ I calls calls' := by
    rw [List.forall₂_iff_zip] at hsame ⊢
    refine ⟨hsame.1, ?_⟩
    intro call call' hmem
    exact ⟨hsame.2 hmem, h call (List.of_mem_zip hmem).1, h' call' (List.of_mem_zip hmem).2⟩
  obtain ⟨seen, c, d, hc, hd, _⟩ := run_lockstep RealCache.timedStep RealCache.timedStep
    (fun c d => ∃ k, HoldsTags g k c ∧ HoldsTags g k d) I
    (fun c d call call' hcd hI =>
      timedStep_lockstep g hl h32 c d hcd call call' hI.1 hI.2.1 hI.2.2)
    (g.freshCache memory) (g.freshCache memory') calls calls'
    ⟨_, holdsTags_fresh g memory hm, holdsTags_fresh g memory' hm'⟩ hboth
  refine ⟨seen, c, d, ?_, ?_⟩
  · rw [traceCache, g.construct_freshCache]
    exact hc
  · rw [traceCache, g.construct_freshCache]
    exact hd

/-- Three lines that conflict in block 0, over different data and different memories. -/
theorem traceCache_eq_conflicts :
    let memory (garbage : UInt32) := SimplestMemory.construct 1024 8 (List.replicate 1024 garbage)
      (SimplestMemory.allocated_replicate 1024 8 garbage (by decide) (by decide))
    let calls := [Call.onWord .read 0x0 [0, 0, 0, 0], .onWord .write 0x40 [7, 0, 0, 0],
      .onWord .read 0x82 [0, 0, 0, 0], .onWord .write 0x0 [8, 0, 0, 0]]
    let calls' := [Call.onWord .read 0x0 [1, 1, 1, 1], .onWord .write 0x40 [9, 2, 2, 2],
      .onWord .read 0x82 [3, 3, 3, 3], .onWord .write 0x0 [4, 4, 4, 4]]
    ∃ seen c d, topRealCache.traceCache (memory 0) calls = .ok (seen, c) ∧
      topRealCache.traceCache (memory 9) calls' = .ok (seen, d) := by
  intro memory calls calls'
  apply topRealCache.traceCache_eq (by decide) (by decide) (memory 0) (memory 9) ⟨rfl, rfl⟩
    ⟨rfl, rfl⟩ calls calls' ?_ (by decide) (by decide)
  refine .cons ⟨rfl, rfl⟩ (.cons ⟨rfl, rfl⟩ (.cons ⟨rfl, rfl⟩ (.cons ⟨rfl, rfl⟩ .nil)))

end Geometry

end FreeSampler
