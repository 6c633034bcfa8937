import FreeSampler.Framework.Run
import FreeSampler.Tlm.WordMemory

namespace FreeSampler

open Framework Tlm

/-- What the kernel prints: the simulated time, which stands still since nothing waits, and a
delay in ns. -/
structure Printed where
  sc_time_stamp : String
  to_string : Nat → String

/-- A test initiator, with the state of the target that its socket is bound to. The data pointer
of the payload addresses `m_data`, so what `trans.data` holds between two calls does not matter. -/
structure TestInitiator (σ : Type) where
  m_data : UInt32
  trans : GenericPayload
  target : σ

namespace TestInitiator

variable {σ : Type} (T : Target σ) (p : Printed)

/-- The initiator as its tests set it up, over an uninitialized `m_data`. -/
def setUp (m_data : UInt32) (target : σ) : TestInitiator σ where
  m_data := m_data
  trans := { GenericPayload.new with
    dataLength := 4
    streamingWidth := 4
    byteEnablePtr := none
    dmiAllowed := false }
  target := target

/-- `socket->b_transport( *trans, delay )`, with the four bytes of `m_data` as the buffer. -/
def b_transport (i : TestInitiator σ) (delay : Nat) :
    Except Fault ((Nat × List Report) × TestInitiator σ) := do
  let (r, target) ← T.b_transport i.target { i.trans with data := wordBytes i.m_data } delay
  let m_data ← loadWord r.trans.data
  return ((r.delay, r.reports), ⟨m_data, r.trans, target⟩)

theorem loadWord_wordBytes (w : UInt32) : loadWord (wordBytes w) = .ok w := by
  obtain ⟨v, hv, hbytes⟩ := loadWord_ok (wordBytes w) (Nat.le_refl 4)
  rw [hv, wordBytes_inj v w hbytes]

/-- An answer whose data are a word leaves that word in `m_data`. -/
theorem b_transport_answered (i : TestInitiator σ) (delay : Nat) (r : Transport) (s : σ)
    (v : UInt32) (hv : r.trans.data = wordBytes v)
    (hs : T.b_transport i.target { i.trans with data := wordBytes i.m_data } delay = .ok (r, s)) :
    i.b_transport T delay = .ok ((r.delay, r.reports), ⟨v, r.trans, s⟩) := by
  simp only [b_transport, hs, ok_bind, hv, loadWord_wordBytes]
  rfl

/-- `set_command`, and the mandatory initial status. -/
def setCommand (i : TestInitiator σ) (command : Command) : TestInitiator σ :=
  { i with trans := { i.trans with command := command, responseStatus := .incomplete } }

def setAddress (i : TestInitiator σ) (address : UInt64) : TestInitiator σ :=
  { i with trans := { i.trans with address := address } }

def setData (i : TestInitiator σ) (m_data : UInt32) : TestInitiator σ := { i with m_data := m_data }

section Checks

variable (unittestName : String)

def responseError (trans : GenericPayload) : List Report :=
  if trans.isResponseError then
    [⟨unittestName, "Response error from b_transport, " ++ p.sc_time_stamp⟩]
  else []

/-- `m_data` is an `int`, and is printed as one. -/
def wrongData (m_data expdata : UInt32) : List Report :=
  if m_data ≠ expdata then
    [⟨unittestName, "Wrong data returned, " ++ toString m_data.toInt32.toInt ++ ", " ++
      p.sc_time_stamp⟩]
  else []

def wrongDelay (delay expdelay : Nat) : List Report :=
  if delay ≠ expdelay then
    [⟨unittestName, "Wrong delay returned, " ++ p.to_string delay ++ ", " ++ p.sc_time_stamp⟩]
  else []

theorem responseError_ok (trans : GenericPayload) (h : trans.isResponseError = false) :
    responseError p unittestName trans = [] := by
  rw [responseError, h]
  rfl

theorem wrongData_eq_nil (m_data expdata : UInt32) :
    wrongData p unittestName m_data expdata = [] ↔ m_data = expdata := by
  simp [wrongData]

theorem wrongDelay_eq_nil (delay expdelay : Nat) :
    wrongDelay p unittestName delay expdelay = [] ↔ delay = expdelay := by
  simp [wrongDelay]

def check_trans_read_good (i : TestInitiator σ) (expdata : UInt32) (delay expdelay : Nat) :
    List Report :=
  responseError p unittestName i.trans ++ wrongData p unittestName i.m_data expdata ++
    wrongDelay p unittestName delay expdelay

/-- `m_data += 1`: an `int` has no value behind its greatest one. -/
def increment (m_data : UInt32) : Except Fault UInt32 :=
  if m_data = 0x7fffffff then .error .outOfBounds else .ok (m_data + 1)

/-- The checks of a write, and a read of what was written, by the same payload. The initiators
differ in the delay that they expect of the read. -/
def check_trans_write_good (i : TestInitiator σ) (delay expdelay readDelay : Nat) :
    Except Fault (List Report × TestInitiator σ) := do
  let reports := responseError p unittestName i.trans ++ wrongDelay p unittestName delay expdelay
  let i := i.setCommand .read
  let expdata := i.m_data
  let m_data ← increment i.m_data
  let ((delay, targetReports), i) ← (i.setData m_data).b_transport T 0
  return (reports ++ (targetReports ++
    i.check_trans_read_good p unittestName expdata delay readDelay), i)

end Checks

/-- A block of a test: a checked read, or a checked write of a value. -/
inductive Block where
  | read (unittestName : String) (address : UInt64) (expdata : UInt32) (expdelay : Nat)
  | write (unittestName : String) (address : UInt64) (m_data : UInt32) (expdelay readDelay : Nat)
  deriving DecidableEq, Repr

/-- A block whose value the initiator can increment. -/
def Block.Defined : Block → Prop
  | .read _ _ _ _ => True
  | .write _ _ m_data _ _ => m_data ≠ 0x7fffffff

instance : DecidablePred Block.Defined
  | .read _ _ _ _ => inferInstanceAs (Decidable True)
  | .write _ _ m_data _ _ => inferInstanceAs (Decidable (m_data ≠ 0x7fffffff))

/-- The reports that a block raises, by the target first. -/
def step (i : TestInitiator σ) : Block → Except Fault (List Report × TestInitiator σ)
  | .read unittestName address expdata expdelay => do
    let i := (i.setCommand .read).setAddress address
    let ((delay, reports), i) ← i.b_transport T 0
    return (reports ++ i.check_trans_read_good p unittestName expdata delay expdelay, i)
  | .write unittestName address m_data expdelay readDelay => do
    let i := ((i.setCommand .write).setAddress address).setData m_data
    let ((delay, reports), i) ← i.b_transport T 0
    let (checks, i) ← i.check_trans_write_good T p unittestName delay expdelay readDelay
    return (reports ++ checks, i)

theorem step_read_ok (i i' : TestInitiator σ) (unittestName : String) (address : UInt64)
    (expdata : UInt32) (expdelay delay : Nat) (reports : List Report)
    (h : ((i.setCommand .read).setAddress address).b_transport T 0 = .ok ((delay, reports), i')) :
    i.step T p (.read unittestName address expdata expdelay) =
      .ok (reports ++ i'.check_trans_read_good p unittestName expdata delay expdelay, i') := by
  simp only [step, h, ok_bind]
  rfl

theorem step_write_ok (i u i' : TestInitiator σ) (unittestName : String) (address : UInt64)
    (m_data : UInt32) (expdelay readDelay delay : Nat) (reports checks : List Report)
    (h : (((i.setCommand .write).setAddress address).setData m_data).b_transport T 0 =
      .ok ((delay, reports), u))
    (hc : u.check_trans_write_good T p unittestName delay expdelay readDelay = .ok (checks, i')) :
    i.step T p (.write unittestName address m_data expdelay readDelay) =
      .ok (reports ++ checks, i') := by
  simp only [step, h, ok_bind, hc]
  rfl

/-- The payload that a test sets up moves words. -/
structure Ready (i : TestInitiator σ) : Prop where
  dataLength_eq : i.trans.dataLength = 4
  byteEnablePtr_eq : i.trans.byteEnablePtr = none
  streamingWidth_le : 4 ≤ i.trans.streamingWidth

theorem ready_setUp (m_data : UInt32) (target : σ) : Ready (setUp m_data target) :=
  ⟨rfl, rfl, UInt32.le_refl 4⟩

end TestInitiator

open TestInitiator

namespace Tlm.WordMemory

/-- What a block reports over a memory of which some words are known: a wrong expectation. Nothing
is asked for where it reads a word that is not known, or writes the greatest `int`. -/
def expected (p : Printed) (m : WordMemory) : Block → Except Unit (List Report × WordMemory)
  | .read unittestName address expdata expdelay =>
    if (address / 4).toNat < m.size then
      match m.known (address / 4) with
      | some v => .ok (wrongData p unittestName v expdata ++ wrongDelay p unittestName 100 expdelay,
          m)
      | none => .error ()
    else .error ()
  | .write unittestName address v expdelay readDelay =>
    if (address / 4).toNat < m.size ∧ v ≠ 0x7fffffff then
      .ok (wrongDelay p unittestName 100 expdelay ++ wrongDelay p unittestName 100 readDelay,
        m.store (address / 4) v)
    else .error ()

end Tlm.WordMemory

namespace TestInitiator

variable {σ : Type} (T : Target σ) (p : Printed) (R : σ → WordMemory → Prop)

theorem movesWord_ready (i : TestInitiator σ) (hi : Ready i) (size : Nat)
    (hin : (i.trans.address / 4).toNat < size) :
    MovesWord size { i.trans with data := wordBytes i.m_data } :=
  ⟨hin, hi.dataLength_eq, hi.byteEnablePtr_eq, hi.streamingWidth_le, Nat.le_refl 4⟩

/-- A call that the word memory answers leaves the word of its data in `m_data`. -/
theorem b_transport_served (hT : T.Serves R) (i : TestInitiator σ) (hi : Ready i)
    (m m' : WordMemory) (hR : R i.target m) (v : UInt32)
    (hs : m.step ⟨{ i.trans with data := wordBytes i.m_data }, 0⟩ = .ok (wordBytes v, m')) :
    ∃ i', i.b_transport T 0 = .ok ((100, []), i') ∧ Ready i' ∧ i'.m_data = v ∧
      i'.trans.isResponseError = false ∧ i'.trans.address = i.trans.address ∧ R i'.target m' := by
  obtain ⟨r, s, hr, ⟨⟨dmiAllowed, htrans⟩, hdelay, hreports⟩, hnext⟩ :=
    hT i.target m _ (wordBytes v) m' hR hs
  have hcall := b_transport_answered T i 0 r s v (by rw [htrans]) hr
  rw [hdelay, hreports] at hcall
  refine ⟨⟨v, r.trans, s⟩, hcall, ?_, rfl, ?_, ?_, hnext⟩
  · rw [htrans]
    exact ⟨hi.dataLength_eq, hi.byteEnablePtr_eq, hi.streamingWidth_le⟩
  · rw [htrans]
    rfl
  · rw [htrans]

theorem read_served (hT : T.Serves R) (i : TestInitiator σ) (hi : Ready i) (m : WordMemory)
    (hR : R i.target m) (hc : i.trans.command = .read) (v : UInt32)
    (hin : (i.trans.address / 4).toNat < m.size) (hv : m.known (i.trans.address / 4) = some v) :
    ∃ i', i.b_transport T 0 = .ok ((100, []), i') ∧ Ready i' ∧ i'.m_data = v ∧
      i'.trans.isResponseError = false ∧ i'.trans.address = i.trans.address ∧ R i'.target m := by
  apply b_transport_served T R hT i hi m m hR v
  exact (m.step_read m _ _ hc).mpr ⟨movesWord_ready i hi _ hin, v, hv, rfl, rfl⟩

theorem write_served (hT : T.Serves R) (i : TestInitiator σ) (hi : Ready i) (m : WordMemory)
    (hR : R i.target m) (hc : i.trans.command = .write)
    (hin : (i.trans.address / 4).toNat < m.size) :
    ∃ i', i.b_transport T 0 = .ok ((100, []), i') ∧ Ready i' ∧ i'.m_data = i.m_data ∧
      i'.trans.isResponseError = false ∧ i'.trans.address = i.trans.address ∧
      R i'.target (m.store (i.trans.address / 4) i.m_data) := by
  apply b_transport_served T R hT i hi m _ hR i.m_data
  exact (m.step_write _ _ _ hc).mpr ⟨movesWord_ready i hi _ hin, i.m_data,
    loadWord_wordBytes i.m_data, rfl, rfl⟩

/-- The check of a write reports its delay, and the delay of the read: the word comes back. -/
theorem check_write_served (hT : T.Serves R) (i : TestInitiator σ) (hi : Ready i) (m : WordMemory)
    (hR : R i.target m) (hok : i.trans.isResponseError = false)
    (hin : (i.trans.address / 4).toNat < m.size)
    (hv : m.known (i.trans.address / 4) = some i.m_data) (hne : i.m_data ≠ 0x7fffffff)
    (unittestName : String) (delay expdelay readDelay : Nat) :
    ∃ i', i.check_trans_write_good T p unittestName delay expdelay readDelay =
        .ok (wrongDelay p unittestName delay expdelay ++ wrongDelay p unittestName 100 readDelay,
          i') ∧ Ready i' ∧ i'.m_data = i.m_data ∧ i'.trans.isResponseError = false ∧
      i'.trans.address = i.trans.address ∧ R i'.target m := by
  have hincrement : increment (i.setCommand .read).m_data = .ok (i.m_data + 1) := if_neg hne
  obtain ⟨i', hs, hready, hdata, hok', hadr, hnext⟩ := read_served T R hT
    ((i.setCommand .read).setData (i.m_data + 1))
    ⟨hi.dataLength_eq, hi.byteEnablePtr_eq, hi.streamingWidth_le⟩ m hR rfl i.m_data hin hv
  have hsame : wrongData p unittestName i'.m_data (i.setCommand .read).m_data = [] :=
    (wrongData_eq_nil p unittestName _ _).mpr hdata
  refine ⟨i', ?_, hready, hdata, hok', hadr, hnext⟩
  simp only [check_trans_write_good, hincrement, ok_bind, hs, check_trans_read_good, hsame,
    responseError_ok p unittestName _ hok, responseError_ok p unittestName _ hok', List.nil_append]
  rfl

/-- A block raises the expected reports. -/
theorem step_served (hT : T.Serves R) (i : TestInitiator σ) (hi : Ready i) (m m' : WordMemory)
    (hR : R i.target m) (b : Block) (reports : List Report)
    (h : m.expected p b = .ok (reports, m')) :
    ∃ i', i.step T p b = .ok (reports, i') ∧ Ready i' ∧ R i'.target m' := by
  cases b with
  | read unittestName address expdata expdelay =>
    simp only [WordMemory.expected] at h
    split_ifs at h with hin
    cases hv : m.known (address / 4) with
    | none => simp [hv] at h
    | some v =>
      rw [hv] at h
      obtain ⟨rfl, rfl⟩ := ok_inj h
      obtain ⟨i', hs, hready, hdata, hok, _, hnext⟩ := read_served T R hT
        ((i.setCommand .read).setAddress address)
        ⟨hi.dataLength_eq, hi.byteEnablePtr_eq, hi.streamingWidth_le⟩ m hR rfl v hin hv
      refine ⟨i', ?_, hready, hnext⟩
      rw [step_read_ok T p i i' unittestName address expdata expdelay 100 [] hs,
        check_trans_read_good, responseError_ok p unittestName _ hok, hdata, List.nil_append,
        List.nil_append]
  | write unittestName address v expdelay readDelay =>
    simp only [WordMemory.expected] at h
    split_ifs at h with hin
    obtain ⟨rfl, rfl⟩ := ok_inj h
    obtain ⟨u, hs, hready, hdata, hok, hadr, hnext⟩ := write_served T R hT
      (((i.setCommand .write).setAddress address).setData v)
      ⟨hi.dataLength_eq, hi.byteEnablePtr_eq, hi.streamingWidth_le⟩ m hR rfl hin.1
    have haddress : u.trans.address = address := hadr
    have hdatav : u.m_data = v := hdata
    have hknown : (m.store (address / 4) v).known (u.trans.address / 4) = some u.m_data := by
      rw [haddress, hdatav, WordMemory.store_known, if_pos rfl]
    obtain ⟨i', hs', hready', -, -, -, hnext'⟩ := check_write_served T p R hT u hready
      (m.store (address / 4) v) hnext hok (by rw [haddress]; exact hin.1) hknown
      (by rw [hdatav]; exact hin.2) unittestName 100 expdelay readDelay
    exact ⟨i', step_write_ok T p i u i' unittestName address v expdelay readDelay 100 [] _ hs hs',
      hready', hnext'⟩

/-- A script of blocks raises the expected reports, on every target that serves words. -/
theorem run_served (hT : T.Serves R) (i : TestInitiator σ) (hi : Ready i) (m m' : WordMemory)
    (hR : R i.target m) (blocks : List Block) (reports : List (List Report))
    (h : run (WordMemory.expected p) m blocks = .ok (reports, m')) :
    ∃ i', run (step T p) i blocks = .ok (reports, i') ∧ Ready i' ∧ R i'.target m' := by
  refine run_simulates (WordMemory.expected p) (step T p) (fun m i => Ready i ∧ R i.target m) m m' i
    blocks reports ?_ ⟨hi, hR⟩ h
  intro b _ m i reports m' hmi hs
  exact step_served T p R hT i hmi.1 m m' hmi.2 b reports hs

end TestInitiator

end FreeSampler
