import FreeSampler.Memory.SparseMemory
import FreeSampler.RealCache.Runs

namespace FreeSampler

open Framework Tlm

namespace RealCache

variable {σ : Type} (T : Target σ)

/-- An error that the target answers on behalf of a call reaches the initiator, and leaves the
cache store as it was. -/
def ErrorPropagated (c c' : RealCache σ) (a : Answer) : Prop :=
  (∃ p ∈ a.branch.answered, p.isResponseError = true) →
    a.trans.isResponseError = true ∧ c'.m_cacheStore = c.m_cacheStore

/-- The target answers the line fill that follows in a given state without an error. -/
def AcceptsFill (c : RealCache σ) (call : Call) (memory : σ) (delay : Nat) : Prop :=
  ∀ r s, T.b_transport memory (c.lineRequest call.trans.address c.newLine) delay = .ok (r, s) →
    r.trans.isResponseError = false

/-- The target answers every access that a miss makes without an error: the line fill of a
read, and the forwarded write and the line fill of a write. -/
def TargetAccepts (c : RealCache σ) (call : Call) : Prop :=
  match call.trans.command with
  | .write => ∀ r s, T.b_transport c.memory call.trans call.delay = .ok (r, s) →
      r.trans.isResponseError = false ∧ AcceptsFill T c call s r.delay
  | _ => AcceptsFill T c call c.memory call.delay

section Missed

variable (c c' : RealCache σ) (call : Call) (a : Answer)

theorem lookupLine_missed (adr : UInt64) (hit : Bool) (dataout : List UInt8)
    (hmiss : ¬ c.m_cacheStore.IsResident adr) (h : c.lookupLine adr = .ok (hit, dataout)) :
    hit = false ∧ dataout = c.newLine := by
  have hlookup := h
  simp only [lookupLine, CacheStore.getDataLine, bind_eq_ok] at hlookup
  obtain ⟨_, ⟨r, hr, -⟩, -⟩ := hlookup
  obtain rfl := c.m_cacheStore.getCacheLine_null adr r hr hmiss
  obtain ⟨rfl, rfl⟩ := ok_unique h (c.lookupLine_null adr hr)
  exact ⟨rfl, rfl⟩

theorem fillLine_answered (adr : UInt64) (dataout : List UInt8) (delay : Nat) (r : Transport)
    (h : c.fillLine T call adr dataout delay = .ok (r, c')) :
    ∃ f memory, T.b_transport c.memory (c.lineRequest adr dataout) delay = .ok (f, memory) ∧
      r.trans = f.trans := by
  simp only [fillLine, readLineFromMemory, bind_eq_ok, Prod.exists] at h
  obtain ⟨r₁, c₁, ⟨b, r₂, c₂, ha, hr⟩, ⟨hit, store, hs, hp⟩⟩ := h
  obtain ⟨f, memory, hf, -, rfl, rfl⟩ := (accessDataFromMemory_ok T c call _ _ _ _ _).mp ha
  obtain ⟨rfl, rfl⟩ := ok_inj hr
  obtain ⟨rfl, rfl⟩ := ok_inj hp
  exact ⟨f, memory, hf, rfl⟩

/-- A read that misses asks for its line, and is answered `TLM_OK_RESPONSE`. -/
theorem readByte_missed (hmiss : ¬ c.m_cacheStore.IsResident call.trans.address)
    (h : c.readByte T call = .ok (a, c')) : a.trans.isResponseError = false ∧
      ∃ f memory, T.b_transport c.memory (c.lineRequest call.trans.address c.newLine) call.delay =
        .ok (f, memory) ∧ a.branch.answered = [f.trans] := by
  simp only [readByte, bind_eq_ok, Prod.exists] at h
  obtain ⟨hit, dataout, hlookup, h⟩ := h
  obtain ⟨rfl, rfl⟩ := lookupLine_missed c _ hit dataout hmiss hlookup
  simp only [Bool.false_eq_true, if_false, bind_eq_ok, Prod.exists] at h
  obtain ⟨r, c₁, hf, dByte, _, data, _, hr⟩ := h
  obtain ⟨f, memory, hfill, htrans⟩ := fillLine_answered T c c₁ call _ _ _ r hf
  obtain ⟨rfl, -⟩ := ok_inj hr
  refine ⟨rfl, f, memory, hfill, ?_⟩
  simp only [respond, Branch.answered, htrans]

/-- A write that misses is passed on, and asks for its line unless the target refuses it. It is
answered `TLM_OK_RESPONSE`. -/
theorem writeByte_missed (hmiss : ¬ c.m_cacheStore.IsResident call.trans.address)
    (h : c.writeByte T call = .ok (a, c')) : a.trans.isResponseError = false ∧
      ∃ r memory, T.b_transport c.memory call.trans call.delay = .ok (r, memory) ∧
        if r.trans.isResponseError then a.branch.answered = [r.trans]
        else ∃ f memory',
          T.b_transport memory (c.lineRequest call.trans.address c.newLine) r.delay =
            .ok (f, memory') ∧ a.branch.answered = [r.trans, f.trans] := by
  simp only [writeByte, bind_eq_ok, Prod.exists] at h
  obtain ⟨hit, dataout, hlookup, h⟩ := h
  obtain ⟨rfl, rfl⟩ := lookupLine_missed c _ hit dataout hmiss hlookup
  simp only [Bool.false_eq_true, if_false, bind_eq_ok, Prod.exists] at h
  obtain ⟨b, r₁, c₁, ha, h⟩ := h
  obtain ⟨r, memory, hw, -, rfl, rfl⟩ := (accessDataFromMemory_ok T c call _ _ _ _ _).mp ha
  cases he : r.trans.isResponseError with
  | true =>
    simp only [he, if_true] at h
    obtain ⟨rfl, -⟩ := ok_inj h
    exact ⟨rfl, r, memory, hw, by rw [he]; rfl⟩
  | false =>
    simp only [he, Bool.false_eq_true, if_false, bind_eq_ok, Prod.exists] at h
    obtain ⟨r₂, c₂, hf, h⟩ := h
    obtain ⟨f, memory', hfill, htrans⟩ :=
      fillLine_answered T { c with memory := memory } c₂ call _ _ _ r₂ hf
    obtain ⟨rfl, -⟩ := ok_inj h
    refine ⟨rfl, r, memory, hw, ?_⟩
    rw [he]
    refine ⟨f, memory', hfill, ?_⟩
    simp only [respond, Branch.answered, htrans]

/-- A call answered `TLM_OK_RESPONSE` propagates errors exactly when there is none to propagate. -/
theorem errorPropagated_ok (hstatus : a.trans.isResponseError = false) :
    ErrorPropagated c c' a ↔ ∀ p ∈ a.branch.answered, p.isResponseError = false := by
  rw [ErrorPropagated, hstatus]
  simp

/-- In every state, a read or write that misses propagates the target's errors exactly when the
target answers all its accesses without one. -/
theorem errorPropagated_iff (hcommand : call.trans.command ≠ .ignore)
    (hmiss : ¬ c.m_cacheStore.IsResident call.trans.address)
    (hs : c.b_transport T call = .ok (a, c')) :
    ErrorPropagated c c' a ↔ TargetAccepts T c call := by
  rw [b_transport] at hs
  split_ifs at hs with hlen
  cases hc : call.trans.command with
  | read =>
    simp only [hc] at hs
    obtain ⟨hstatus, f, memory, hfill, hanswered⟩ := readByte_missed T c c' call a hmiss hs
    rw [errorPropagated_ok c c' a hstatus, hanswered, List.forall_mem_singleton]
    simp only [TargetAccepts, hc]
    constructor
    · intro hok r s hr
      obtain ⟨rfl, -⟩ := ok_unique hr hfill
      exact hok
    · intro hacc
      exact hacc f memory hfill
  | write =>
    simp only [hc] at hs
    obtain ⟨hstatus, r, memory, hw, hrest⟩ := writeByte_missed T c c' call a hmiss hs
    rw [errorPropagated_ok c c' a hstatus]
    simp only [TargetAccepts, hc]
    split_ifs at hrest with herror
    · -- the forwarded write is refused: there is an error, and it is not propagated
      rw [hrest, List.forall_mem_singleton]
      constructor
      · intro hok
        simp [hok] at herror
      · intro hacc
        exact (hacc r memory hw).1
    · obtain ⟨f, memory', hfill, hanswered⟩ := hrest
      rw [Bool.not_eq_true] at herror
      rw [hanswered, List.forall_mem_cons, List.forall_mem_singleton]
      constructor
      · intro hok r' s hr'
        obtain ⟨rfl, rfl⟩ := ok_unique hr' hw
        refine ⟨herror, ?_⟩
        intro f' s hf'
        obtain ⟨rfl, -⟩ := ok_unique hf' hfill
        exact hok.2
      · intro hacc
        exact ⟨herror, (hacc r memory hw).2 f memory' hfill⟩
  | ignore => exact absurd hc hcommand

end Missed

end RealCache

namespace Geometry

open RealCache

/-- A read in front of a memory that rejects bursts. -/
theorem errorPropagated_iff_burst : ∃ a c',
    (topRealCache.freshCache SparseMemory.construct).b_transport
      (SparseMemory.target fun _ => 0) (.onWord .read 0x0 [7, 7, 7, 7]) = .ok (a, c') ∧
    (ErrorPropagated (topRealCache.freshCache SparseMemory.construct) c' a ↔
      TargetAccepts (SparseMemory.target fun _ => 0)
        (topRealCache.freshCache SparseMemory.construct) (.onWord .read 0x0 [7, 7, 7, 7])) := by
  obtain ⟨⟨a, c'⟩, hs⟩ := exists_ok ((topRealCache.freshCache SparseMemory.construct).b_transport
    (SparseMemory.target fun _ => 0) (.onWord .read 0x0 [7, 7, 7, 7])) (by decide +kernel)
  refine ⟨a, c', hs, errorPropagated_iff _ _ c' _ a (by decide) ?_ hs⟩
  rw [freshCache, isResident_store, not_not]
  rfl

/-- The sparse memory rejects the burst of a line fill; the read is answered
`TLM_OK_RESPONSE` with a zero byte, and its line is cached. -/
theorem error_not_propagated : ∃ a c' r s,
    (topRealCache.freshCache SparseMemory.construct).b_transport
      (SparseMemory.target fun _ => 0) (.onWord .read 0x0 [7, 7, 7, 7]) = .ok (a, c') ∧
    (SparseMemory.target fun _ => 0).b_transport SparseMemory.construct
      ((topRealCache.freshCache SparseMemory.construct).lineRequest 0x0
        (topRealCache.freshCache SparseMemory.construct).newLine) 0 = .ok (r, s) ∧
    r.trans.responseStatus = .burstError ∧ a.trans.responseStatus = .ok ∧
    a.trans.data = [0, 7, 7, 7] ∧ c'.m_cacheStore.IsResident 0x0 ∧
    ¬ ErrorPropagated (topRealCache.freshCache SparseMemory.construct) c' a := by
  let fresh := topRealCache.freshCache SparseMemory.construct
  let call : Call := .onWord .read 0x0 [7, 7, 7, 7]
  let answer : Transport :=
    ⟨{ fresh.lineRequest 0x0 fresh.newLine with responseStatus := .burstError }, 0, []⟩
  have hfill : (SparseMemory.target fun _ => 0).b_transport SparseMemory.construct
      (fresh.lineRequest 0x0 fresh.newLine) 0 = .ok (answer, SparseMemory.construct) := by
    have herr : SparseMemory.errorResponse (fresh.lineRequest 0x0 fresh.newLine) =
        some .burstError := by decide +kernel
    simp only [SparseMemory.target, SparseMemory.b_transport, herr]
    rfl
  have hout : Outcome (SparseMemory.target fun _ => 0) topRealCache topRealCache.emptyBlocks fresh
      call _ _ := .readMiss answer SparseMemory.construct 7 [7, 7, 7] rfl rfl hfill rfl
  refine ⟨_, _, answer, SparseMemory.construct,
    (b_transport_iff _ topRealCache topRealCache.emptyBlocks fresh _ call _ (by decide) rfl).mpr
      ⟨rfl, hout⟩, hfill, rfl, rfl, rfl, ?_, ?_⟩
  · exact (topRealCache.isResident_iff _ _).mpr ⟨_, topRealCache.cachedLine_setLine_self (by decide)
      topRealCache.emptyBlocks 0x0 0x0 answer.trans.data call.past rfl rfl⟩
  · intro hprop
    have herr := (hprop ⟨answer.trans, by simp [respond, Branch.answered], rfl⟩).1
    simp [respond, GenericPayload.isResponseError] at herr

end Geometry

end FreeSampler
