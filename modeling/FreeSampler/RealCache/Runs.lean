import FreeSampler.RealCache.Branches

namespace FreeSampler

open Framework Tlm

namespace RealCache

/-- The calls of a run with their answers, oldest first. -/
abbrev History := List (Call × Answer)

namespace Branch

/-- The line buffer that a fill handed to `setDataLine`. -/
def filled : Branch → Option (List UInt8)
  | .readMiss fill => some fill.data
  | .writeMiss _ fill => some fill.data
  | _ => none

/-- What the target answered on behalf of a call. -/
def answered : Branch → List GenericPayload
  | .readMiss fill => [fill]
  | .writeMiss write fill => [write, fill]
  | .writeError write => [write]
  | _ => []

end Branch

end RealCache

namespace Geometry

variable {σ : Type} (T : Target σ) (g : Geometry)

/-- A run of calls on a cache just constructed, bound to a target in a given state. -/
def runCache (memory : σ) (calls : List RealCache.Call) :
    Except Fault (List RealCache.Answer × RealCache σ) := do
  let c ← RealCache.construct g.memorySize g.cacheSize g.lineSize g.numWays memory
  run (RealCache.b_transport T) c calls

def freshCache (memory : σ) : RealCache σ := ⟨g.store g.emptyBlocks, GenericPayload.new, memory⟩

theorem construct_freshCache (memory : σ) :
    RealCache.construct g.memorySize g.cacheSize g.lineSize g.numWays memory =
      .ok (g.freshCache memory) := by
  rw [RealCache.construct, g.construct_eq]
  rfl

theorem runCache_eq (memory : σ) (calls : List RealCache.Call) :
    g.runCache T memory calls = run (RealCache.b_transport T) (g.freshCache memory) calls := by
  rw [runCache, g.construct_freshCache]
  rfl

/-- The cache store of a cache holds tables. -/
def HoldsTables (c : RealCache σ) : Prop := ∃ t, c.m_cacheStore = g.store t

theorem holdsTables_outcome (t : Nat → g.Block) (c c' : RealCache σ) (call : RealCache.Call)
    (a : RealCache.Answer) (hc : c.m_cacheStore = g.store t)
    (h : RealCache.Outcome T g t c call a c') : g.HoldsTables c' := by
  cases h with
  | readHit line b rest _ _ _ => exact ⟨t, hc⟩
  | readMiss r memory b rest _ _ _ _ => exact ⟨_, rfl⟩
  | writeHit line b rest _ _ _ => exact ⟨_, rfl⟩
  | writeError r memory _ _ _ _ => exact ⟨t, hc⟩
  | writeMiss r f written memory _ _ _ _ _ => exact ⟨_, rfl⟩
  | ignored _ => exact ⟨t, hc⟩

theorem isResident_iff (t : Nat → g.Block) (a : UInt64) :
    (g.store t).IsResident a ↔ ∃ line, g.cachedLine t a = some line := by
  rw [g.isResident_store, Ne, ← g.cachedLine_eq_none]
  exact Option.ne_none_iff_exists'

/-- Every reachable cache stores the image of tables. -/
theorem holdsTables_runCache (hl : 4 ≤ g.lineBytes) (memory : σ) (calls : List RealCache.Call)
    (answers : List RealCache.Answer) (c : RealCache σ)
    (h : g.runCache T memory calls = .ok (answers, c)) : g.HoldsTables c := by
  rw [runCache_eq] at h
  refine run_invariant (RealCache.b_transport T) (fun _ c => g.HoldsTables c) _ c [] calls answers
    ?_ ⟨_, rfl⟩ h
  intro call _ _ u a u' hu hs
  obtain ⟨t, ht⟩ := hu
  exact g.holdsTables_outcome T t u u' call a ht
    ((RealCache.b_transport_iff T g t u u' call a hl ht).mp hs).2

end Geometry

end FreeSampler
