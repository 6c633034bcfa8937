import FreeSampler.Memory.SimplestMemory

namespace FreeSampler

open Framework Tlm

namespace SimplestMemory

/-- The bytes of `m_mem` that the copy of a call reads or writes. -/
def touches (trans : GenericPayload) (i : Nat) : Prop :=
  let adr := (trans.address / 4).toNat
  trans.command ≠ .ignore ∧ 4 * adr ≤ i ∧ i < 4 * adr + trans.dataLength.toNat

def StaysInside (m : SimplestMemory) (trans : GenericPayload) : Prop :=
  ∀ i, touches trans i → i < 4 * m.p_PAGESIZE

/-- The word behind the last one of a burst. -/
def burstEnd (trans : GenericPayload) : Nat :=
  (trans.address / 4).toNat + (trans.dataLength.toNat + 3) / 4

theorem staysInside_iff (m : SimplestMemory) (trans : GenericPayload)
    (hc : trans.command ≠ .ignore) : m.StaysInside trans ↔ trans.dataLength.toNat = 0 ∨
      4 * (trans.address / 4).toNat + trans.dataLength.toNat ≤ 4 * m.p_PAGESIZE := by
  constructor
  · intro h
    rcases Nat.eq_zero_or_pos trans.dataLength.toNat with h0 | hpos
    · exact Or.inl h0
    · have hlast := h (4 * (trans.address / 4).toNat + trans.dataLength.toNat - 1)
        ⟨hc, by omega, by omega⟩
      exact Or.inr (by omega)
  · intro h i hi
    obtain ⟨-, hlo, hhi⟩ := hi
    omega

/-- With a buffer of `len` bytes, the copy is defined exactly when it stays inside the array. -/
theorem access_ok_iff (m : SimplestMemory) (trans : GenericPayload)
    (hd : trans.dataLength.toNat ≤ trans.data.length) :
    (∃ data m', m.access trans = .ok (data, m')) ↔ m.StaysInside trans := by
  cases hc : trans.command with
  | read =>
    have hcopy := memcpy_ok_iff trans.data m.bytes 0 (4 * (trans.address / 4).toNat)
      trans.dataLength.toNat
    rw [bytes_length, Nat.zero_add, and_iff_left hd] at hcopy
    rw [m.staysInside_iff trans (by simp [hc]), ← hcopy]
    constructor
    · intro h
      obtain ⟨data, m', ha⟩ := h
      exact ⟨data, ((m.access_read m' trans data hc).mp ha).2⟩
    · intro h
      obtain ⟨data, hr⟩ := h
      exact ⟨data, m, (m.access_read m trans data hc).mpr ⟨rfl, hr⟩⟩
  | write =>
    have hstore := m.store_ok_iff (trans.address / 4).toNat trans.data trans.dataLength.toNat
    rw [and_iff_right hd] at hstore
    rw [m.staysInside_iff trans (by simp [hc]), ← hstore]
    constructor
    · intro h
      obtain ⟨data, m', ha⟩ := h
      exact ⟨m', ((m.access_write m' trans data hc).mp ha).2⟩
    · intro h
      obtain ⟨m', hs⟩ := h
      exact ⟨trans.data, m', (m.access_write m' trans trans.data hc).mpr ⟨rfl, hs⟩⟩
  | ignore =>
    refine iff_of_true ⟨trans.data, m, (m.access_ignore m trans trans.data hc).mpr ⟨rfl, rfl⟩⟩ ?_
    intro i hi
    exact absurd hc hi.1

theorem b_transport_answers_iff (m : SimplestMemory) (trans : GenericPayload) (delay : Nat) :
    (∃ r m', m.b_transport trans delay = .ok (r, m')) ↔
      ∃ data m', m.access trans = .ok (data, m') := by
  constructor
  · intro h
    obtain ⟨r, m', ht⟩ := h
    obtain ⟨data, ha, -⟩ := (m.b_transport_ok m' trans delay r).mp ht
    exact ⟨data, m', ha⟩
  · intro h
    obtain ⟨data, m', ha⟩ := h
    exact ⟨_, m', (m.b_transport_ok m' trans delay _).mpr ⟨data, ha, rfl⟩⟩

/-- The checks bound where a burst starts, not where it ends: a call that passes all of them
stays inside the array exactly when its last word does. -/
theorem staysInside_iff_burstEnd (m : SimplestMemory) (trans : GenericPayload)
    (hpass : m.check trans = []) :
    m.StaysInside trans ↔ trans.command = .ignore ∨ burstEnd trans ≤ m.p_PAGESIZE := by
  have hstart := ((m.check_eq_nil trans).mp hpass).1
  by_cases hc : trans.command = .ignore
  · exact iff_of_true (fun i hi => absurd hc hi.1) (Or.inl hc)
  · rw [m.staysInside_iff trans hc, or_iff_right hc, burstEnd]
    omega

theorem burst_staysInside_iff (m : SimplestMemory) (trans : GenericPayload) (delay : Nat)
    (hc : trans.command ≠ .ignore) (hpass : m.check trans = []) :
    (m.StaysInside trans ↔ burstEnd trans ≤ m.p_PAGESIZE) ∧
      (trans.dataLength.toNat ≤ trans.data.length →
        (m.StaysInside trans ↔ ∃ r m', m.b_transport trans delay = .ok (r, m'))) := by
  refine ⟨?_, ?_⟩
  · rw [m.staysInside_iff_burstEnd trans hpass, or_iff_right hc]
  · intro hd
    rw [m.b_transport_answers_iff, m.access_ok_iff trans hd]

/-- A burst that ends with the array. -/
theorem burst_staysInside_iff_last :
    let trans : GenericPayload :=
      ⟨.read, 184, List.replicate 8 0, 8, none, 8, false, .incomplete⟩
    (small.StaysInside trans ↔ burstEnd trans ≤ small.p_PAGESIZE) ∧
      (trans.dataLength.toNat ≤ trans.data.length →
        (small.StaysInside trans ↔ ∃ r m', small.b_transport trans 0 = .ok (r, m'))) :=
  burst_staysInside_iff small _ 0 (by decide) (by decide)

/-- Two words from the last one on: no check fails, and the copy leaves the array. -/
theorem burst_leaves_array :
    let trans : GenericPayload :=
      ⟨.read, 188, List.replicate 8 0, 8, none, 8, false, .incomplete⟩
    small.check trans = [] ∧ ¬ small.StaysInside trans ∧
      (small.b_transport trans 0).map Prod.fst = .error .outOfBounds := by
  intro trans
  refine ⟨by decide, ?_, by decide +kernel⟩
  intro h
  exact absurd (h 192 ⟨by decide, by decide, by decide⟩) (by decide)

/-- What an initiator may expect of a call that fails a check. -/
def RejectsAtomically (m : SimplestMemory) (trans : GenericPayload) (delay : Nat) : Prop :=
  ∃ r m', m.b_transport trans delay = .ok (r, m') ∧ m' = m ∧ r.trans.data = trans.data ∧
    r.trans.isResponseError = true

/-- No call is rejected. One that fails a check is reported, and then carried out and answered
like any other. -/
theorem failed_answeredOk (m : SimplestMemory) (trans : GenericPayload) (delay : Nat)
    (hfail : m.check trans ≠ []) :
    ¬ m.RejectsAtomically trans delay ∧ ∀ r m', m.b_transport trans delay = .ok (r, m') →
      r.reports ≠ [] ∧ r.trans.responseStatus = .ok ∧
        m.access trans = .ok (r.trans.data, m') := by
  have hanswer (r : Transport) (m' : SimplestMemory) (ht : m.b_transport trans delay = .ok (r, m')) :
      r.reports ≠ [] ∧ r.trans.responseStatus = .ok ∧
        m.access trans = .ok (r.trans.data, m') := by
    obtain ⟨data, ha, rfl⟩ := (m.b_transport_ok m' trans delay r).mp ht
    exact ⟨hfail, rfl, ha⟩
  refine ⟨?_, hanswer⟩
  intro h
  obtain ⟨r, m', ht, -, -, herror⟩ := h
  simp [GenericPayload.isResponseError, (hanswer r m' ht).2.1] at herror

/-- A read behind the last word. -/
theorem failed_answeredOk_behind :
    let trans : GenericPayload := ⟨.read, 192, [0, 0, 0, 0], 4, none, 4, false, .incomplete⟩
    ¬ small.RejectsAtomically trans 0 ∧ ∀ r m', small.b_transport trans 0 = .ok (r, m') →
      r.reports ≠ [] ∧ r.trans.responseStatus = .ok ∧
        small.access trans = .ok (r.trans.data, m') :=
  failed_answeredOk small _ 0 (by decide)

/-- A write with byte enables is reported, stored and answered `TLM_OK_RESPONSE`. -/
theorem failed_write_stored :
    let trans : GenericPayload :=
      ⟨.write, 0, [7, 7, 7, 7], 4, some [255], 4, false, .incomplete⟩
    small.check trans ≠ [] ∧ ¬ small.RejectsAtomically trans 0 ∧
      (small.b_transport trans 0).map (fun p => (p.1.trans.responseStatus, p.2.bytes[0]?,
        small.bytes[0]?)) = .ok (.ok, some 7, some 0) := by
  intro trans
  have hfacts : (small.b_transport trans 0).map (fun p => (p.1.trans.responseStatus, p.2.bytes[0]?,
      small.bytes[0]?)) = .ok (.ok, some 7, some 0) := by decide +kernel
  refine ⟨by decide, ?_, hfacts⟩
  intro h
  obtain ⟨r, m', ht, -, -, herror⟩ := h
  rw [ht] at hfacts
  have hstatus : r.trans.responseStatus = .ok := (ok_inj hfacts).1
  simp [GenericPayload.isResponseError, hstatus] at herror

end SimplestMemory

end FreeSampler
