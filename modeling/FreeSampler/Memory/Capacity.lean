import FreeSampler.Memory.SparseRuns

namespace FreeSampler

open Framework Tlm

namespace SparseMemory

/-- No byte behind the first 2^20 is served, and the pages hold these bytes only. -/
structure ServesMiB (h : History) (m : SparseMemory) : Prop where
  answered_inside : ∀ e ∈ h, e.2.trans.responseStatus = .ok → ∀ x, e.1.trans.covers x → x < 2 ^ 20
  pages_inside : ∀ id ∈ m.pageIDs, ∀ k < 4096, 4096 * id.toNat + k < 2 ^ 20
  storage_le : 4096 * m.pageIDs.length ≤ 2 ^ 20

/-- A call that `b_transport` rejects, for its address, its byte enables, its length or its width,
or that lies within the first 2^20 bytes. The limit is checked against the word index, so it rejects
an address from byte 2^22 on only. -/
def Call.WithinMiB (c : Call) : Prop :=
  2 ^ 22 ≤ c.trans.address.toNat ∨ c.trans.byteEnablePtr ≠ none ∨ 4 < c.trans.dataLength ∨
    c.trans.streamingWidth < c.trans.dataLength ∨
    c.trans.address.toNat + max c.trans.dataLength.toNat 1 ≤ 2 ^ 20

theorem Call.withinMiB_iff (c : Call) : c.WithinMiB ↔ errorResponse c.trans ≠ none ∨
    c.trans.address.toNat + max c.trans.dataLength.toNat 1 ≤ 2 ^ 20 := by
  rw [ne_eq, errorResponse_eq_none, not_and_or, not_and_or, not_and_or, Nat.not_lt, UInt32.not_le,
    UInt32.not_le, or_assoc, or_assoc, or_assoc]
  rfl

theorem pageID_adr_toNat (c : Call) : (pageID c.adr).toNat = c.trans.address.toNat / 4096 := by
  simp only [pageID, Call.adr, UInt64.toNat_div, UInt64.reduceToNat]
  omega

theorem storage_le_of_pages (m : SparseMemory)
    (hp : ∀ id ∈ m.pageIDs, ∀ k < 4096, 4096 * id.toNat + k < 2 ^ 20) :
    4096 * m.pageIDs.length ≤ 2 ^ 20 := by
  have hlen := m.pageIDs_length_le 256 (by
    intro id hid
    have hfirst := hp id hid 0 (by decide)
    omega)
  omega

/-- One call keeps the memory within its 2^20 bytes exactly when it lies within them, or is
rejected. -/
theorem servesMiB_step (h : History) (m m' : SparseMemory) (c : Call) (a : Transport)
    (hm : ServesMiB h m) (hs : m.step c = .ok (a, m')) :
    ServesMiB (h ++ [(c, a)]) m' ↔ c.WithinMiB := by
  rw [c.withinMiB_iff]
  rcases m.step_cases m' c a hs with ⟨he, hne, rfl⟩ | ⟨he, hok, hids⟩
  · refine iff_of_true ⟨?_, hm.pages_inside, hm.storage_le⟩ (Or.inl (by simp [he]))
    intro e hmem hoke
    rcases List.mem_append.mp hmem with hold | hlast
    · exact hm.answered_inside e hold hoke
    · rw [List.mem_singleton.mp hlast] at hoke
      exact absurd hoke hne
  · have hid := pageID_adr_toNat c
    constructor
    · intro hnext
      right
      have hpage := hnext.pages_inside _ ((hids _).mpr (Or.inl rfl)) 0 (by decide)
      rcases Nat.eq_zero_or_pos c.trans.dataLength.toNat with h0 | hpos
      · omega
      · have hcovers : c.trans.covers (c.trans.address.toNat + c.trans.dataLength.toNat - 1) :=
          ⟨by omega, by omega⟩
        have hlast := hnext.answered_inside (c, a) (by simp) hok _ hcovers
        omega
    · intro hwithin
      have hend := hwithin.resolve_left (by simp [he])
      have hpages : ∀ id ∈ m'.pageIDs, ∀ k < 4096, 4096 * id.toNat + k < 2 ^ 20 := by
        intro id hmem k hk
        rcases (hids id).mp hmem with rfl | hold
        · omega
        · exact hm.pages_inside id hold k hk
      refine ⟨?_, hpages, m'.storage_le_of_pages hpages⟩
      intro e hmem hoke x hx
      rcases List.mem_append.mp hmem with hold | hlast
      · exact hm.answered_inside e hold hoke x hx
      · rw [List.mem_singleton.mp hlast] at hx
        have hhi : x < c.trans.address.toNat + c.trans.dataLength.toNat := hx.2
        omega

theorem servesMiB_construct : ServesMiB [] construct := by
  have hempty : construct.pageIDs = [] := rfl
  refine ⟨by simp, ?_, ?_⟩
  · intro id hid
    simp [hempty] at hid
  · simp [hempty]

/-- The limit is checked against word indices, so no address between the bytes 2^20 and 2^22 is
rejected: a run stays within the first 2^20 bytes exactly when each call that leaves them has an
address behind both, or fails another check. -/
theorem servesMiB_iff (calls : List Call) (answers : List Transport) (m : SparseMemory)
    (hrun : run step construct calls = .ok (answers, m)) :
    EveryState step construct ServesMiB calls ↔ ∀ c ∈ calls, c.WithinMiB := by
  refine everyState_iff_forall step ServesMiB Call.WithinMiB construct m calls answers ?_
    servesMiB_construct hrun
  intro c _ h u a v hu hs
  exact servesMiB_step h u v c a hu hs

/-- A write of the last word of the first 2^20 bytes, and a read behind the limit of the check. -/
theorem servesMiB_iff_last :
    let call (command : Command) (address : UInt64) : Call :=
      ⟨⟨command, address, [1, 0, 0, 0], 4, none, 4, false, .incomplete⟩, 0, fun _ => 7⟩
    let calls := [call .write 0xffffc, call .read 0x400000]
    EveryState step construct ServesMiB calls ↔ ∀ c ∈ calls, c.WithinMiB := by
  intro call calls
  have hbuffer : ∀ c ∈ calls, 4 ≤ c.trans.data.length := by simp [calls, call]
  obtain ⟨answers, m, hrun⟩ := run_total step calls (fun c hc u => u.step_total c (hbuffer c hc))
    construct
  exact servesMiB_iff calls answers m hrun

/-- A write at byte address 2^20 is answered `TLM_OK_RESPONSE`. -/
theorem write_behind_MiB :
    let call : Call :=
      ⟨⟨.write, 0x100000, [1, 0, 0, 0], 4, none, 4, false, .incomplete⟩, 0, fun _ => 7⟩
    (∃ a m, construct.step call = .ok (a, m) ∧ a.trans.responseStatus = .ok ∧
      256 ∈ m.pageIDs) ∧ ¬ EveryState step construct ServesMiB [call] := by
  intro call
  obtain ⟨a, m, hs⟩ := construct.step_total call (Nat.le_refl 4)
  have haccepted : errorResponse call.trans = none := by decide
  rcases construct.step_cases m call a hs with ⟨he, -, -⟩ | ⟨-, hok, hids⟩
  · rw [haccepted] at he
    simp at he
  · refine ⟨⟨a, m, hs, hok, (hids 256).mpr (Or.inl (by decide))⟩, ?_⟩
    intro hall
    have hrun : run step construct [call] = .ok ([a], m) :=
      run_concat_ok step construct construct m [] call [] a rfl hs
    have hlast := hall [call] [] [a] m rfl hrun
    have hcovers : call.trans.covers 0x100000 := by decide
    exact absurd (hlast.answered_inside (call, a) (by simp) hok _ hcovers) (by decide)

end SparseMemory

end FreeSampler
