import FreeSampler.Framework.Run
import FreeSampler.FakeCache.FakeCache
import Mathlib.Data.List.Forall2

namespace FreeSampler

open Framework Tlm

/-- What an initiator sees of a call, and the contents of the memory after it. -/
structure Seen where
  data : List UInt8
  delay : Nat
  responseStatus : ResponseStatus
  m_mem : List UInt32
  deriving DecidableEq, Repr

def Seen.of (r : Transport) (memory : SimplestMemory) : Seen :=
  ⟨r.trans.data, r.delay, r.trans.responseStatus, memory.m_mem⟩

namespace FakeCache

def seen : FakeCache → Call → Except Fault (Seen × FakeCache) :=
  observed b_transport (fun _ r c => Seen.of r c.memory)

/-- The memory as its initiator sees it without a cache. -/
def seenDirect : SimplestMemory → Transaction → Except Fault (Seen × SimplestMemory) :=
  observed SimplestMemory.target.step (fun _ r m => Seen.of r m)

/-- One valid call looks the same with and without the cache. -/
theorem seen_step (c : FakeCache) (call : Call)
    (hv : ValidTraffic c.memory.p_PAGESIZE c.memory.p_LINESIZE call.trans) :
    ∃ o c', c.seen call = .ok (o, c') ∧
      seenDirect c.memory call.toTransaction = .ok (o, c'.memory) ∧
      c'.memory.p_PAGESIZE = c.memory.p_PAGESIZE ∧ c'.memory.p_LINESIZE = c.memory.p_LINESIZE := by
  obtain ⟨data, memory, ha, hp, hl⟩ := c.memory.access_valid call.trans hv
  have hr := (c.b_transport_ok ⟨memory⟩ call _).mpr ⟨data, ha, rfl⟩
  have ht := (c.memory.b_transport_ok memory call.trans call.delay _).mpr ⟨data, ha, rfl⟩
  have hfake := observed_ok b_transport (fun _ r c => Seen.of r c.memory) c _ call _ hr
  have hdirect := observed_ok SimplestMemory.target.step (fun _ r m => Seen.of r m) c.memory memory
    call.toTransaction _ ht
  exact ⟨_, ⟨memory⟩, hfake, hdirect, hp, hl⟩

/-- The cache is transparent: every run of valid calls is answered with and without it, and the
initiator sees the same data, delays, statuses and memory contents at every step. -/
theorem run_transparent (memory : SimplestMemory) (calls : List Call)
    (hv : ∀ call ∈ calls, ValidTraffic memory.p_PAGESIZE memory.p_LINESIZE call.trans) :
    ∃ seen c, run FakeCache.seen (construct memory) calls = .ok (seen, c) ∧
      run seenDirect memory (calls.map Call.toTransaction) = .ok (seen, c.memory) := by
  let R (c : FakeCache) (m : SimplestMemory) : Prop := c.memory = m ∧
    m.p_PAGESIZE = memory.p_PAGESIZE ∧ m.p_LINESIZE = memory.p_LINESIZE
  let I (call : Call) (t : Transaction) : Prop :=
    ValidTraffic memory.p_PAGESIZE memory.p_LINESIZE call.trans ∧ t = call.toTransaction
  have hcalls : List.Forall₂ I calls (calls.map Call.toTransaction) := by
    rw [List.forall₂_map_right_iff, List.forall₂_same]
    intro call hc
    exact ⟨hv call hc, rfl⟩
  have hstep (c : FakeCache) (m : SimplestMemory) (call : Call) (t : Transaction) (hR : R c m)
      (hI : I call t) : ∃ o c' m', FakeCache.seen c call = .ok (o, c') ∧
        seenDirect m t = .ok (o, m') ∧ R c' m' := by
    obtain ⟨rfl, hp, hl⟩ := hR
    obtain ⟨hvalid, rfl⟩ := hI
    rw [← hp, ← hl] at hvalid
    obtain ⟨o, c', hs, hd, hp', hl'⟩ := c.seen_step call hvalid
    exact ⟨o, c', c'.memory, hs, hd, rfl, hp'.trans hp, hl'.trans hl⟩
  obtain ⟨seen, c, m, hfake, hdirect, hend⟩ := run_lockstep FakeCache.seen seenDirect R I hstep
    (construct memory) memory calls _ ⟨rfl, rfl, rfl⟩ hcalls
  rw [← hend.1] at hdirect
  exact ⟨seen, c, hfake, hdirect⟩

/-- A burst over an odd and an even word, written through the memory and read through the cache. -/
theorem run_transparent_burst :
    let call (command : Command) (address : UInt64) (data : List UInt8) : Call :=
      ⟨⟨⟨command, address, data, 6, none, 8, false, .incomplete⟩, 0⟩, "0 s"⟩
    let calls := [call .write 0x6 [1, 2, 3, 4, 5, 6], call .read 0x8 [9, 9, 9, 9, 9, 9, 9],
      call .read 0x5 [0, 0, 0, 0, 0, 0]]
    ∃ seen c, run FakeCache.seen (construct SimplestMemory.small) calls = .ok (seen, c) ∧
      run seenDirect SimplestMemory.small (calls.map Call.toTransaction) =
        .ok (seen, c.memory) :=
  run_transparent _ _ (by decide)

end FakeCache

end FreeSampler
