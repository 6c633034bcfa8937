import FreeSampler.Initiator.TestInitiator
import FreeSampler.Memory.InitialImage
import FreeSampler.Memory.MockMemory1

namespace FreeSampler

open Framework Tlm

namespace TestInitiator

variable (p : Printed)

/-- What a block reports over the mock memory: a read of any word gives its parity. -/
def mockReports : Block → List Report
  | .read unittestName address expdata expdelay =>
    wrongData p unittestName (imageWord (address / 4)) expdata ++
      wrongDelay p unittestName 100 expdelay
  | .write unittestName address m_data expdelay readDelay =>
    wrongDelay p unittestName 100 expdelay ++
      (wrongData p unittestName (imageWord (address / 4)) m_data ++
        wrongDelay p unittestName 100 readDelay)

/-- A block that expects the parity of its word, and 100 ns. -/
def Block.ExpectsParity : Block → Prop
  | .read _ address expdata expdelay => imageWord (address / 4) = expdata ∧ expdelay = 100
  | .write _ address m_data expdelay readDelay =>
    imageWord (address / 4) = m_data ∧ expdelay = 100 ∧ readDelay = 100

theorem mockReports_eq_nil (b : Block) : mockReports p b = [] ↔ b.ExpectsParity := by
  cases b with
  | read unittestName address expdata expdelay =>
    simp only [mockReports, List.append_eq_nil_iff, wrongData_eq_nil, wrongDelay_eq_nil,
      Block.ExpectsParity, eq_comm (a := 100)]
  | write unittestName address m_data expdelay readDelay =>
    simp only [mockReports, List.append_eq_nil_iff, wrongData_eq_nil, wrongDelay_eq_nil,
      Block.ExpectsParity, eq_comm (a := 100)]
    exact and_left_comm

theorem mock_read (i : TestInitiator MockMemory1) (hread : i.trans.command = .read) :
    ∃ i', i.b_transport MockMemory1.target 0 = .ok ((100, []), i') ∧
      i'.m_data = imageWord (i.trans.address / 4) ∧ i'.trans.isResponseError = false := by
  have ha := MockMemory1.access_read { i.trans with data := wordBytes i.m_data } hread
    (Nat.le_refl 4)
  have hs := (MockMemory1.b_transport_ok i.target i.target _ 0 _).mpr ⟨_, ha, rfl⟩
  exact ⟨_, b_transport_answered MockMemory1.target i 0 _ _ (imageWord (i.trans.address / 4))
    (List.append_nil _) hs, rfl, rfl⟩

theorem mock_write (i : TestInitiator MockMemory1) (hwrite : i.trans.command = .write) :
    ∃ i', i.b_transport MockMemory1.target 0 = .ok ((100, []), i') ∧ i'.m_data = i.m_data ∧
      i'.trans.isResponseError = false ∧ i'.trans.address = i.trans.address := by
  have ha : MockMemory1.access { i.trans with data := wordBytes i.m_data } =
      .ok (wordBytes i.m_data) := by
    simp only [MockMemory1.access, hwrite]
  have hs := (MockMemory1.b_transport_ok i.target i.target _ 0 _).mpr ⟨_, ha, rfl⟩
  exact ⟨_, b_transport_answered MockMemory1.target i 0 _ _ i.m_data rfl hs, rfl, rfl, rfl⟩

theorem check_write_mock (i : TestInitiator MockMemory1) (hok : i.trans.isResponseError = false)
    (hne : i.m_data ≠ 0x7fffffff) (unittestName : String) (delay expdelay readDelay : Nat) :
    ∃ i', i.check_trans_write_good MockMemory1.target p unittestName delay expdelay readDelay =
      .ok (wrongDelay p unittestName delay expdelay ++
        (wrongData p unittestName (imageWord (i.trans.address / 4)) i.m_data ++
          wrongDelay p unittestName 100 readDelay), i') := by
  have hincrement : increment (i.setCommand .read).m_data = .ok (i.m_data + 1) := if_neg hne
  obtain ⟨i', hs, hdata, hok'⟩ := mock_read ((i.setCommand .read).setData (i.m_data + 1)) rfl
  refine ⟨i', ?_⟩
  simp only [check_trans_write_good, hincrement, ok_bind, hs, check_trans_read_good, hdata,
    responseError_ok p unittestName _ hok, responseError_ok p unittestName _ hok', List.nil_append]
  rfl

theorem step_mock (i : TestInitiator MockMemory1) (b : Block) (hd : b.Defined) :
    ∃ i', i.step MockMemory1.target p b = .ok (mockReports p b, i') := by
  cases b with
  | read unittestName address expdata expdelay =>
    obtain ⟨i', hs, hdata, hok⟩ := mock_read ((i.setCommand .read).setAddress address) rfl
    refine ⟨i', ?_⟩
    rw [step_read_ok _ p i i' unittestName address expdata expdelay 100 [] hs,
      check_trans_read_good, responseError_ok p unittestName _ hok, hdata]
    rfl
  | write unittestName address v expdelay readDelay =>
    obtain ⟨u, hs, hdata, hok, hadr⟩ := mock_write
      (((i.setCommand .write).setAddress address).setData v) rfl
    have haddress : u.trans.address = address := hadr
    have hv : u.m_data = v := hdata
    obtain ⟨i', hs'⟩ := check_write_mock p u hok (by rw [hv]; exact hd) unittestName 100 expdelay
      readDelay
    rw [haddress, hv] at hs'
    exact ⟨i', step_write_ok _ p i u i' unittestName address v expdelay readDelay 100 [] _ hs hs'⟩

/-- A script over the mock memory: every block reports for itself, since nothing is stored. -/
theorem run_mock (i : TestInitiator MockMemory1) (blocks : List Block)
    (hd : ∀ b ∈ blocks, b.Defined) :
    ∃ i', run (step MockMemory1.target p) i blocks = .ok (blocks.map (mockReports p), i') := by
  induction blocks generalizing i with
  | nil => exact ⟨i, rfl⟩
  | cons b blocks ih =>
    obtain ⟨u, hs⟩ := step_mock p i b (hd b (by simp))
    obtain ⟨i', hr⟩ := ih u (fun c hc => hd c (by simp [hc]))
    exact ⟨i', (run_cons_ok _ i i' b blocks _).mpr ⟨_, u, _, hs, hr, rfl⟩⟩

/-- The mock memory passes exactly the scripts of which every read, and every read back, expects
the parity of its word after 100 ns: what was written never matters. -/
theorem mock_passes_iff (m_data : UInt32) (memory : MockMemory1) (blocks : List Block)
    (hd : ∀ b ∈ blocks, b.Defined) :
    ∃ reports i, run (step MockMemory1.target p) (setUp m_data memory) blocks = .ok (reports, i) ∧
      (reports.flatten = [] ↔ ∀ b ∈ blocks, b.ExpectsParity) := by
  obtain ⟨i, hr⟩ := run_mock p (setUp m_data memory) blocks hd
  refine ⟨_, i, hr, ?_⟩
  simp only [List.flatten_eq_nil_iff, List.mem_map, forall_exists_index, and_imp,
    forall_apply_eq_imp_iff₂, mockReports_eq_nil]

/-- A read of an odd word passes, a write of 2 does not. -/
theorem mock_passes_iff_write :
    let p : Printed := ⟨"0 s", fun delay => toString delay ++ " ns"⟩
    let blocks : List Block := [.read "read" 0xC 1 100, .write "write" 0x0 2 100 100]
    ∃ reports i, run (step MockMemory1.target p) (setUp 7 ⟨⟩) blocks = .ok (reports, i) ∧
      (reports.flatten = [] ↔ ∀ b ∈ blocks, b.ExpectsParity) := by
  intro p blocks
  exact mock_passes_iff p 7 ⟨⟩ blocks (by decide)

end TestInitiator

end FreeSampler
