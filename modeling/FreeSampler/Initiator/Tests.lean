import FreeSampler.Initiator.MockChecks
import FreeSampler.Memory.ServesWords

namespace FreeSampler

open Framework Tlm TestInitiator

/-- Every memory that keeps words passes the same tests: whatever blocks a script consists of, if
it reads words that were initialized or written before, and writes no greatest `int`, then it
raises the same reports over the array, the demonstration cache and the pages. -/
theorem scripts_indifferent (n LINESIZE : Nat) (hn : n ≤ SparseMemory.MAXSIZEMEM.toNat)
    (hline : 1 ≤ LINESIZE) (garbage : List UInt32)
    (hg : SimplestMemory.Allocated n LINESIZE garbage) (p : Printed)
    (allocated : Nat → SparseMemory.Page) (m_data : UInt32) (blocks : List Block)
    (reports : List (List Report)) (m : WordMemory)
    (h : run (WordMemory.expected p) (initialMemory n) blocks = .ok (reports, m)) :
    (∃ i, run (step SimplestMemory.target p)
      (setUp m_data (SimplestMemory.construct n LINESIZE garbage hg)) blocks =
      .ok (reports, i)) ∧
    (∃ i, run (step (FakeCache.target p.sc_time_stamp) p)
      (setUp m_data (FakeCache.construct (SimplestMemory.construct n LINESIZE garbage hg))) blocks =
      .ok (reports, i)) ∧
    ∃ i, run (step (SparseMemory.targetOver allocated) p)
      (setUp m_data SparseMemory.construct) blocks = .ok (reports, i) := by
  have harray := SimplestMemory.holdsWords_construct n LINESIZE hline garbage hg
  obtain ⟨i, hi, _⟩ := run_served _ p _ SimplestMemory.serves _ (ready_setUp m_data _) _ m harray
    blocks reports h
  obtain ⟨j, hj, _⟩ := run_served _ p _ (FakeCache.serves p.sc_time_stamp)
    (setUp m_data (FakeCache.construct (SimplestMemory.construct n LINESIZE garbage hg)))
    (ready_setUp m_data _) _ m harray blocks reports h
  obtain ⟨k, hk, _⟩ := run_served _ p _ (SparseMemory.serves allocated)
    (setUp m_data SparseMemory.construct) (ready_setUp m_data _) _ m
    (SparseMemory.holdsWords_construct n hn) blocks reports h
  exact ⟨⟨i, hi⟩, ⟨j, hj⟩, ⟨k, hk⟩⟩

/-- A write in the second page that reads back, and a read that expects a 5 there and no delay. -/
theorem scripts_indifferent_wrong :
    let p : Printed := ⟨"0 s", fun delay => toString delay ++ " ns"⟩
    let memory := SimplestMemory.construct 2048 8 (List.replicate 2048 7)
      (SimplestMemory.allocated_replicate 2048 8 7 (by decide) (by decide))
    let blocks : List Block := [.write "write" 0x1004 6 100 100, .read "read" 0x1004 5 0]
    let reports : List (List Report) := [[], [⟨"read", "Wrong data returned, 6, 0 s"⟩,
      ⟨"read", "Wrong delay returned, 100 ns, 0 s"⟩]]
    (∃ i, run (step SimplestMemory.target p) (setUp 9 memory) blocks = .ok (reports, i)) ∧
    (∃ i, run (step (FakeCache.target "0 s") p) (setUp 9 (FakeCache.construct memory)) blocks =
      .ok (reports, i)) ∧
    ∃ i, run (step (SparseMemory.targetOver (fun _ _ => 9)) p)
      (setUp 9 SparseMemory.construct) blocks = .ok (reports, i) := by
  intro p memory blocks reports
  obtain ⟨⟨reports', m⟩, h⟩ := exists_ok (run (WordMemory.expected p) (initialMemory 2048) blocks)
    (by decide +kernel)
  have hreports : (run (WordMemory.expected p) (initialMemory 2048) blocks).map Prod.fst =
      .ok reports := by decide +kernel
  rw [h] at hreports
  obtain rfl : reports' = reports := Except.ok.inj hreports
  exact scripts_indifferent 2048 8 (by decide) (by decide) _ _ p _ 9 blocks reports m h

namespace TestInitiator

variable {σ : Type} (p : Printed) (unittestName : String)

/-- The debug transport of the last test, which writes at 0x4. Time stands still meanwhile. -/
def check_transport_dbg (i : TestInitiator σ)
    (transport_dbg : σ → GenericPayload → Except Fault ((UInt32 × GenericPayload) × σ)) :
    Except Fault (List Report × TestInitiator σ) := do
  let i := (i.setCommand .write).setAddress 0x4
  let ((_, trans), target) ← transport_dbg i.target { i.trans with data := wordBytes i.m_data }
  let m_data ← loadWord trans.data
  let reports := if trans.isResponseError then
    [⟨unittestName, "Response error from transport_dbg, " ++ p.sc_time_stamp⟩] else []
  return (reports, ⟨m_data, trans, target⟩)

/-- The DMI hint of the payload, the page that it gets, and the latencies. -/
def check_dmi (i : TestInitiator SparseMemory) (allocated : Nat → SparseMemory.Page)
    (delay : Nat) : Except Fault (List Report × TestInitiator SparseMemory) := do
  let hint := if !i.trans.dmiAllowed then [⟨unittestName, "Expected DMI to be allowed."⟩] else []
  let ((_, dmi_data), memory) :=
    i.target.get_direct_mem_ptr (allocated i.target.pageIDs.length) i.trans
  let word ← memory.loadWordAt dmi_data.dmiPtr ⟨1, by decide⟩
  let check (failed : Bool) (msg : String) : List Report :=
    if failed then [⟨unittestName, msg⟩] else []
  let access := dmi_data.grantedAccess
  let reports := hint ++ i.check_trans_read_good p unittestName word delay 100 ++
    check (access != .read && access != .readWrite) "Expected DMI is_read_allowed()." ++
    check (access != .write && access != .readWrite) "Expected DMI is_write_allowed()." ++
    check (dmi_data.readLatency != 10) "Expected DMI get_read_latency() == 10." ++
    check (dmi_data.writeLatency != 10) "Expected DMI get_write_latency() == 10."
  return (reports, { i with target := memory })

/-- A debug write that is answered without an error raises nothing. -/
theorem check_transport_dbg_silent (i : TestInitiator σ)
    (transport_dbg : σ → GenericPayload → Except Fault ((UInt32 × GenericPayload) × σ))
    (h : ∀ s trans, trans.command = .write →
      transport_dbg s trans = .ok ((4, { trans with responseStatus := .ok }), s)) :
    ∃ i', i.check_transport_dbg p unittestName transport_dbg = .ok ([], i') := by
  let u := (i.setCommand .write).setAddress 0x4
  have hs := h u.target { u.trans with data := wordBytes u.m_data } rfl
  refine ⟨⟨u.m_data, { u.trans with data := wordBytes u.m_data, responseStatus := .ok },
    u.target⟩, ?_⟩
  simp only [u] at hs
  simp only [check_transport_dbg, hs, ok_bind, loadWord_wordBytes]
  rfl

/-- An access of the pages that takes its time allows DMI. -/
theorem dmiAllowed_b_transport (allocated : Nat → SparseMemory.Page)
    (i i' : TestInitiator SparseMemory) (delay : Nat) (x : Nat × List Report)
    (h : i.b_transport (SparseMemory.targetOver allocated) delay = .ok (x, i'))
    (hd : x.1 ≠ delay ∨ i.trans.dmiAllowed = true) : i'.trans.dmiAllowed = true := by
  simp only [b_transport, bind_eq_ok, Prod.exists] at h
  obtain ⟨r, memory, hs, _, _, hr⟩ := h
  obtain ⟨rfl, rfl⟩ := ok_inj hr
  let call : SparseMemory.Call := ⟨{ i.trans with data := wordBytes i.m_data }, delay,
    allocated i.target.pageIDs.length⟩
  cases he : SparseMemory.errorResponse call.trans with
  | some status =>
    have hrejected := i.target.step_rejected call status he
    obtain ⟨rfl, -⟩ := ok_unique hs hrejected
    exact hd.resolve_left (fun hne => hne rfl)
  | none =>
    have hanswer := i.target.step_answer memory call r he hs
    show r.trans.dmiAllowed = true
    rw [hanswer]

theorem dmiAllowed_check_write (allocated : Nat → SparseMemory.Page)
    (i i' : TestInitiator SparseMemory) (delay expdelay readDelay : Nat) (checks : List Report)
    (h : i.check_trans_write_good (SparseMemory.targetOver allocated) p unittestName delay expdelay
      readDelay = .ok (checks, i')) (hd : i.trans.dmiAllowed = true) :
    i'.trans.dmiAllowed = true := by
  simp only [check_trans_write_good, bind_eq_ok, Prod.exists] at h
  obtain ⟨m_data, _, readDelay', reports, u, hs, hr⟩ := h
  obtain ⟨-, rfl⟩ := ok_inj hr
  exact dmiAllowed_b_transport allocated _ u 0 _ hs (Or.inr hd)

/-- The DMI check is silent when the pages show the value of `m_data` at word 1 of its page. -/
theorem check_dmi_silent (allocated : Nat → SparseMemory.Page) (i : TestInitiator SparseMemory)
    (hok : i.trans.isResponseError = false) (hdmi : i.trans.dmiAllowed = true)
    (hoffset : SparseMemory.pageOffset (i.trans.address / 4) = ⟨1, by decide⟩)
    (hshown : ∀ new, i.target.shown new (i.trans.address / 4) = i.m_data) :
    ∃ i', i.check_dmi p unittestName allocated 100 = .ok ([], i') := by
  obtain ⟨words, hcells, hword⟩ := i.target.fetch_cells (allocated i.target.pageIDs.length)
    (i.trans.address / 4)
  rw [hoffset, hshown] at hword
  have hload := (elementAt_ok _ _ _).mpr hcells
  have hdata := (wrongData_eq_nil p unittestName i.m_data i.m_data).mpr rfl
  have hdelay := (wrongDelay_eq_nil p unittestName 100 100).mpr rfl
  refine ⟨{ i with target := (i.target.fetchMemoryPage (allocated i.target.pageIDs.length)
    (i.trans.address / 4)).2 }, ?_⟩
  simp only [check_dmi, SparseMemory.get_direct_mem_ptr, SparseMemory.loadWordAt, hload, ok_bind,
    pure_bind, hword, hdmi, check_trans_read_good, responseError_ok p unittestName _ hok, hdata,
    hdelay]
  rfl

end TestInitiator

namespace InitiatorTestSimplestMemory

/-- The blocks of the test, with the delays that the constructor was given. -/
def blocks (m_missDelay m_hitDelay : Nat) : List Block :=
  [.read "test_1.1 0x0 read word 0" 0x0 0 m_missDelay,
    .read "test_1.1 0x4 read word 1" 0x4 1 m_hitDelay,
    .read "test_1.1 0xC read word 3" 0xC 1 m_missDelay,
    .read "test_1.1 0x10 read word 4" 0x10 0 m_missDelay,
    .write "test_1.3 write  0x0 2" 0x0 2 m_hitDelay m_hitDelay,
    .write "test_1.4 write  0x4 3" 0x4 3 m_hitDelay m_hitDelay]

def test_1 {σ : Type} (T : Target σ) (p : Printed) (m_missDelay m_hitDelay : Nat) (m_data : UInt32)
    (target : σ) : Except Fault (List Report) := do
  let (reports, _) ← run (step T p) (setUp m_data target) (blocks m_missDelay m_hitDelay)
  return reports.flatten

theorem test_1_ok {σ : Type} (T : Target σ) (p : Printed) (m_missDelay m_hitDelay : Nat)
    (m_data : UInt32) (target : σ) (reports : List (List Report)) (i : TestInitiator σ)
    (h : run (step T p) (setUp m_data target) (blocks m_missDelay m_hitDelay) = .ok (reports, i)) :
    test_1 T p m_missDelay m_hitDelay m_data target = .ok reports.flatten := by
  rw [test_1, h]
  rfl

/-- The test passes on every target that keeps words, from the initial words on. -/
theorem test_1_served {σ : Type} (T : Target σ) (R : σ → WordMemory → Prop) (hT : T.Serves R)
    (p : Printed) (m_data : UInt32) (target : σ) (hR : R target (initialMemory 1024)) :
    test_1 T p 100 100 m_data target = .ok [] := by
  have hexpected : ∃ m, run (WordMemory.expected p) (initialMemory 1024) (blocks 100 100) =
      .ok ([[], [], [], [], [], []], m) := ⟨_, rfl⟩
  obtain ⟨m, hm⟩ := hexpected
  obtain ⟨i, hi, _⟩ := run_served T p R hT (setUp m_data target) (ready_setUp m_data target) _ m hR
    _ _ hm
  exact test_1_ok T p 100 100 m_data target _ i hi

end InitiatorTestSimplestMemory

namespace InitiatorTestMockMemory

def blocks : List Block :=
  [.read "test_1.1 0x0 read word 0" 0x0 0 100,
    .read "test_1.1 0x4 read word 1" 0x4 1 100,
    .read "test_1.1 0xC read word 3" 0xC 1 100,
    .read "test_1.1 0x10 read word 4" 0x10 0 100,
    .write "test_1.3 write  0x0 2" 0x0 0 100 100,
    .write "test_1.4 write  0x4 3" 0x4 1 100 100]

def test_1 (p : Printed) (m_data : UInt32) (memory : MockMemory1) :
    Except Fault (List Report) := do
  let (reports, i) ← run (step MockMemory1.target p) (setUp m_data memory) blocks
  let (debug, _) ← i.check_transport_dbg p "test_1.7 transport_dbg" MockMemory1.transport_dbg
  return reports.flatten ++ debug

theorem test_1_passes (p : Printed) (m_data : UInt32) (memory : MockMemory1) :
    test_1 p m_data memory = .ok [] := by
  obtain ⟨i, hi⟩ := run_mock p (setUp m_data memory) blocks (by decide)
  have hreports : (blocks.map (mockReports p)).flatten = [] := rfl
  obtain ⟨i', hdebug⟩ := check_transport_dbg_silent p "test_1.7 transport_dbg" i
    MockMemory1.transport_dbg (by
      intro m trans hwrite
      simp only [MockMemory1.transport_dbg, MockMemory1.access, hwrite]
      rfl)
  simp only [test_1, hi, ok_bind, hdebug, hreports]
  rfl

end InitiatorTestMockMemory

namespace InitiatorTestSparseMemory

def blocks : List Block :=
  [.read "test_1.1 0x0 read word 0" 0x0 0 100,
    .read "test_1.1 0x4 read word 1" 0x4 1 100,
    .read "test_1.1 0xC read word 3" 0xC 1 100,
    .read "test_1.1 0x10 read word 4" 0x10 0 100,
    .write "test_1.3 write  0x0 2" 0x0 2 100 100,
    .write "test_1.4 write  0x4 3" 0x4 3 100 100]

/-- `((PAGESIZE * 2) + 1) * sizeof(uint32_t)`: word 1 of the third page. -/
def otherPage : UInt64 := (1024 * 2 + 1) * 4

/-- The DMI check takes over the payload and the delay of the write before it. -/
def test_1 (p : Printed) (allocated : Nat → SparseMemory.Page) (m_data : UInt32)
    (memory : SparseMemory) : Except Fault (List Report) := do
  let T := SparseMemory.targetOver allocated
  let (reports, i) ← run (step T p) (setUp m_data memory) blocks
  let i := ((i.setCommand .write).setAddress otherPage).setData 0x5A
  let ((delay, targetReports), i) ← i.b_transport T 0
  let (write, i) ←
    i.check_trans_write_good T p "test_1.5 write/access a different page" delay 100 100
  let (dmi, i) ← i.check_dmi p "test_1.6 check DMI hint" allocated delay
  let (debug, _) ← i.check_transport_dbg p "test_1.7 transport_dbg" SparseMemory.transport_dbg
  return reports.flatten ++ targetReports ++ write ++ dmi ++ debug

theorem test_1_passes (p : Printed) (allocated : Nat → SparseMemory.Page) (m_data : UInt32) :
    test_1 p allocated m_data SparseMemory.construct = .ok [] := by
  have hexpected : ∃ m, run (WordMemory.expected p) (initialMemory 4096) blocks =
      .ok ([[], [], [], [], [], []], m) ∧ m.size = 4096 := ⟨_, rfl, rfl⟩
  obtain ⟨m, hm, hsize⟩ := hexpected
  have hserves := SparseMemory.serves allocated
  obtain ⟨i, hi, hready, hR⟩ := run_served _ p _ hserves (setUp m_data SparseMemory.construct)
    (ready_setUp m_data _) _ m (SparseMemory.holdsWords_construct 4096 (by decide)) _ _ hm
  have hin : (otherPage / 4).toNat < m.size := by
    rw [hsize]
    decide
  -- the write behind the pages that are loaded
  obtain ⟨u, hu, hready', hdata, hok, hadr, hR'⟩ := write_served _ _ hserves
    (((i.setCommand .write).setAddress otherPage).setData 0x5A)
    ⟨hready.dataLength_eq, hready.byteEnablePtr_eq, hready.streamingWidth_le⟩ m hR rfl hin
  have haddress : u.trans.address = otherPage := hadr
  have hvalue : u.m_data = 0x5A := hdata
  have hknown : (m.store (otherPage / 4) 0x5A).known (u.trans.address / 4) = some u.m_data := by
    rw [haddress, hvalue, WordMemory.store_known, if_pos rfl]
  obtain ⟨v, hv, _, hdata', hok', hadr', hR''⟩ := check_write_served _ p _ hserves u hready' _ hR'
    hok (by rw [haddress]; exact hin) hknown (by rw [hvalue]; decide)
    "test_1.5 write/access a different page" 100 100 100
  have hdmi := dmiAllowed_b_transport allocated _ u 0 _ hu (Or.inl (by decide))
  have hdmi' := dmiAllowed_check_write p _ allocated u v 100 100 100 _ hv hdmi
  have hword : v.trans.address / 4 = otherPage / 4 := by rw [hadr', haddress]
  obtain ⟨w, hw⟩ := check_dmi_silent p "test_1.6 check DMI hint" allocated v hok' hdmi'
    (by rw [hword]; rfl) (by
      intro new
      rw [hdata', hadr']
      exact hR''.word_eq _ _ hknown new)
  obtain ⟨w', hw'⟩ := check_transport_dbg_silent p "test_1.7 transport_dbg" w
    SparseMemory.transport_dbg (by
      intro m trans hwrite
      simp only [SparseMemory.transport_dbg, SparseMemory.debugData, hwrite]
      rfl)
  have hdelay := (wrongDelay_eq_nil p "test_1.5 write/access a different page" 100 100).mpr rfl
  simp only [test_1, hi, ok_bind, hu, hv, hw, hw', hdelay]
  rfl

end InitiatorTestSparseMemory

end FreeSampler
