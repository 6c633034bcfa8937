import FreeSampler.FakeCache.FakeCache
import FreeSampler.Memory.Checks

namespace FreeSampler

open Framework Tlm SimplestMemory

namespace FakeCache

/-- The checks of the memory hold behind the cache: what the memory would report is reported,
and no word outside its array is accessed without a report. -/
structure KeepsChecks (c : FakeCache) (trans : GenericPayload) : Prop where
  reported : c.memory.check trans ≠ [] → c.raised trans ≠ []
  contained : ∀ i, touches trans i → c.memory.p_PAGESIZE ≤ i / 4 → c.raised trans ≠ []

/-- A call that fails a check keeps them on the path through the memory only. One that passes
them all does so if its last word is in the array, too. -/
def ChecksApply (c : FakeCache) (trans : GenericPayload) : Prop :=
  if c.memory.check trans = [] then trans.command = .ignore ∨ burstEnd trans ≤ c.memory.p_PAGESIZE
  else isDataInCache trans = false

/-- The even word indices take the path without checks, so a call that fails one keeps them
only at an odd word index. -/
theorem keepsChecks_iff (c : FakeCache) (call : Call) :
    (c.KeepsChecks call.trans ↔ c.ChecksApply call.trans) ∧
      ∀ r c', c.b_transport call = .ok (r, c') → r.reports = c.raised call.trans := by
  refine ⟨?_, ?_⟩
  · rw [ChecksApply]
    by_cases hpass : c.memory.check call.trans = []
    · have hsilent : c.raised call.trans = [] := by
        rw [raised, hpass]
        exact ite_self []
      have hinside : c.KeepsChecks call.trans ↔ c.memory.StaysInside call.trans := by
        constructor
        · intro h i hi
          by_contra hout
          exact h.contained i hi (by omega) hsilent
        · intro h
          refine ⟨fun hfail => absurd hpass hfail, ?_⟩
          intro i hi hout
          have hlt := h i hi
          omega
      rw [if_pos hpass, hinside, c.memory.staysInside_iff_burstEnd call.trans hpass]
    · rw [if_neg hpass]
      constructor
      · intro h
        by_contra hcached
        have hsilent : c.raised call.trans = [] := if_pos (Bool.not_eq_false _ ▸ hcached)
        exact h.reported hpass hsilent
      · intro hodd
        have hraised : c.raised call.trans = c.memory.check call.trans := by simp [raised, hodd]
        rw [← hraised] at hpass
        exact ⟨fun _ => hpass, fun _ _ _ => hpass⟩
  · intro r c' h
    obtain ⟨data, _, rfl⟩ := (c.b_transport_ok c' call r).mp h
    rfl

/-- A read of word 0 with byte enables, and one of word 48: the memory would report both, the
cache reports neither, and the second leaves the array. -/
theorem checks_bypassed :
    let call (address : UInt64) (byteEnablePtr : Ptr UInt8) : Call :=
      ⟨⟨⟨.read, address, [0, 0, 0, 0], 4, byteEnablePtr, 4, false, .incomplete⟩, 0⟩, "0 s"⟩
    let c := construct SimplestMemory.small
    (¬ c.KeepsChecks (call 0 (some [255])).trans ∧
      (c.b_transport (call 0 (some [255]))).map (fun p => p.1.reports) = .ok [] ∧
      SimplestMemory.small.check (call 0 (some [255])).trans ≠ []) ∧
    (¬ c.KeepsChecks (call 192 none).trans ∧
      (c.b_transport (call 192 none)).map Prod.fst = .error .outOfBounds) := by
  intro call c
  refine ⟨⟨?_, by decide +kernel, by decide⟩, ?_, by decide +kernel⟩
  · intro h
    exact h.reported (by decide) (by decide)
  · intro h
    exact h.contained 192 ⟨by decide, by decide, by decide⟩ (by decide) (by decide)

end FakeCache

end FreeSampler
