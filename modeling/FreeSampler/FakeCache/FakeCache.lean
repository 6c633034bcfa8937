import FreeSampler.Memory.SimplestMemory

namespace FreeSampler

open Framework Tlm

/-- The demonstration cache. It has no storage of its own: `_impl_memory` is the array of the
memory that `initiator_socket` is bound to, so both read and write `memory.m_mem`. -/
structure FakeCache where
  memory : SimplestMemory

namespace FakeCache

/-- A transport call, and what `sc_time_stamp()` prints during it. -/
structure Call extends Transaction where
  sc_time_stamp : String

def construct (memory : SimplestMemory) : FakeCache := ⟨memory⟩

/-- `_impl_memory`, from `memory->getDirectMemoryPointer()`. -/
def _impl_memory (c : FakeCache) : List UInt32 := c.memory.getDirectMemoryPointer

def cacheDelay : Nat := 100

/-- Even word indices count as cached. -/
def isDataInCache (trans : GenericPayload) : Bool := trans.address / 4 % 2 == 0

/-- Delegate an access to the memory; an error response is reported. -/
def accessDataFromMemory (c : FakeCache) (call : Call) :
    Except Fault (Bool × Transport × FakeCache) := do
  let (r, memory) ← c.memory.b_transport call.trans call.delay
  if r.trans.isResponseError then
    let report := ⟨"FakeCache",
      "Response error from b_transport call to Memory, " ++ call.sc_time_stamp⟩
    return (false, { r with reports := r.reports ++ [report] }, ⟨memory⟩)
  else return (true, r, ⟨memory⟩)

/-- The copy between the initiator's buffer and the array, without any check. -/
def accessDataFromCache (c : FakeCache) (trans : GenericPayload) (delay : Nat) :
    Except Fault (List UInt8 × Nat × FakeCache) :=
  let adr := (trans.address / 4).toNat
  let len := trans.dataLength.toNat
  match trans.command with
  | .read => do
    let data ← memcpy trans.data 0 (toBytes c._impl_memory) (4 * adr) len
    return (data, delay + cacheDelay, c)
  | .write => do
    let memory ← c.memory.store adr trans.data len
    return (trans.data, delay + cacheDelay, ⟨memory⟩)
  | .ignore => return (trans.data, delay + cacheDelay, c)

/-- The answer to the initiator: whatever happened, the status is `TLM_OK_RESPONSE`. -/
def b_transport (c : FakeCache) (call : Call) : Except Fault (Transport × FakeCache) :=
  if isDataInCache call.trans then do
    let (data, delay, c) ← c.accessDataFromCache call.trans call.delay
    return (⟨{ call.trans with data := data, responseStatus := .ok }, delay, []⟩, c)
  else do
    let (_, r, c) ← c.accessDataFromMemory call
    return ({ r with trans := { r.trans with responseStatus := .ok } }, c)

/-- The reports that a call raises, all of them before it makes its copy. -/
def raised (c : FakeCache) (trans : GenericPayload) : List Report :=
  if isDataInCache trans then [] else c.memory.check trans

theorem accessDataFromCache_eq (c : FakeCache) (trans : GenericPayload) (delay : Nat) :
    c.accessDataFromCache trans delay = (do
      let (data, memory) ← c.memory.access trans
      return (data, delay + cacheDelay, ⟨memory⟩)) := by
  cases hc : trans.command with
  | read =>
    simp only [accessDataFromCache, SimplestMemory.access, hc, bind_assoc, pure_bind]
    rfl
  | write => simp only [accessDataFromCache, SimplestMemory.access, hc, bind_assoc, pure_bind]
  | ignore =>
    simp only [accessDataFromCache, SimplestMemory.access, hc, pure_bind]

theorem accessDataFromMemory_eq (c : FakeCache) (call : Call) :
    c.accessDataFromMemory call = (do
      let (data, memory) ← c.memory.access call.trans
      return (true, ⟨{ call.trans with data := data, responseStatus := .ok }, call.delay + 100,
        c.memory.check call.trans⟩, ⟨memory⟩)) := by
  simp only [accessDataFromMemory, SimplestMemory.b_transport, bind_assoc, pure_bind]
  rfl

/-- On either path a call makes the copy that the memory would make, and adds 100 ns. -/
theorem b_transport_eq (c : FakeCache) (call : Call) : c.b_transport call = (do
    let (data, memory) ← c.memory.access call.trans
    return (⟨{ call.trans with data := data, responseStatus := .ok }, call.delay + 100,
      c.raised call.trans⟩, ⟨memory⟩)) := by
  rw [b_transport, raised]
  by_cases hcached : isDataInCache call.trans = true
  · rw [if_pos hcached, if_pos hcached, accessDataFromCache_eq]
    simp only [bind_assoc, pure_bind, cacheDelay]
  · rw [if_neg hcached, if_neg hcached, accessDataFromMemory_eq]
    simp only [bind_assoc, pure_bind]

theorem b_transport_ok (c c' : FakeCache) (call : Call) (r : Transport) :
    c.b_transport call = .ok (r, c') ↔
      ∃ data, c.memory.access call.trans = .ok (data, c'.memory) ∧
        r = ⟨{ call.trans with data := data, responseStatus := .ok }, call.delay + 100,
          c.raised call.trans⟩ := by
  simp only [b_transport_eq, bind_eq_ok, Prod.exists]
  constructor
  · intro h
    obtain ⟨data, memory, ha, hr⟩ := h
    obtain ⟨rfl, rfl⟩ := ok_inj hr
    exact ⟨data, ha, rfl⟩
  · intro h
    obtain ⟨data, ha, rfl⟩ := h
    exact ⟨data, c'.memory, ha, rfl⟩

theorem b_transport_data_length (c c' : FakeCache) (call : Call) (r : Transport)
    (h : c.b_transport call = .ok (r, c')) : r.trans.data.length = call.trans.data.length := by
  obtain ⟨data, ha, rfl⟩ := (c.b_transport_ok c' call r).mp h
  exact c.memory.access_length c'.memory call.trans data ha

/-- A call that passes the memory's checks raises no report on either path. -/
theorem raised_nil (c : FakeCache) (trans : GenericPayload) (h : c.memory.check trans = []) :
    c.raised trans = [] := by
  rw [raised, h]
  exact ite_self []

/-- The cache as a blocking transport target, at one simulated time. -/
def target (sc_time_stamp : String) : Target FakeCache where
  b_transport c trans delay := c.b_transport ⟨⟨trans, delay⟩, sc_time_stamp⟩
  data_length c trans delay r c' h := c.b_transport_data_length c' ⟨⟨trans, delay⟩, sc_time_stamp⟩ r h

end FakeCache

end FreeSampler
