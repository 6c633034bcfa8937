import FreeSampler.Memory.WordPattern
import FreeSampler.Tlm.Payload
import Mathlib.Tactic.MkIffOfInductiveProp

namespace FreeSampler

open Framework Tlm

/-- The memory with one fixed array of `p_PAGESIZE` words. Both sizes are of type `int`, and so is
the product `4 * p_LINESIZE`, which must not overflow. -/
@[ext] structure SimplestMemory where
  p_PAGESIZE : Nat
  p_LINESIZE : Nat
  m_mem : List UInt32
  size_eq : m_mem.length = p_PAGESIZE
  pageSize_lt : p_PAGESIZE < 2 ^ 31
  lineSize_lt : 4 * p_LINESIZE < 2 ^ 31

/-- A read or write that a memory of `pageSize` words and lines of `lineSize` words supports. -/
@[mk_iff] structure ValidTraffic (pageSize lineSize : Nat) (trans : GenericPayload) : Prop where
  command_ne : trans.command ≠ .ignore
  byteEnablePtr_eq : trans.byteEnablePtr = none
  streamingWidth_le : trans.dataLength ≤ trans.streamingWidth
  lineSize_le : trans.dataLength.toNat ≤ 4 * lineSize
  pageSize_le : 4 * (trans.address / 4).toNat + trans.dataLength.toNat ≤ 4 * pageSize
  data_le : trans.dataLength.toNat ≤ trans.data.length

instance (pageSize lineSize : Nat) (trans : GenericPayload) :
    Decidable (ValidTraffic pageSize lineSize trans) :=
  decidable_of_iff' _ (validTraffic_iff pageSize lineSize trans)

namespace SimplestMemory

/-- What the constructor gets: two sizes in range, and an allocation of the first one. -/
structure Allocated (PAGESIZE LINESIZE : Nat) (garbage : List UInt32) : Prop where
  length_eq : garbage.length = PAGESIZE
  pageSize_lt : PAGESIZE < 2 ^ 31
  lineSize_lt : 4 * LINESIZE < 2 ^ 31

theorem allocated_replicate (PAGESIZE LINESIZE : Nat) (word : UInt32) (hp : PAGESIZE < 2 ^ 31)
    (hl : 4 * LINESIZE < 2 ^ 31) : Allocated PAGESIZE LINESIZE (List.replicate PAGESIZE word) :=
  ⟨List.length_replicate, hp, hl⟩

/-- The constructor, over an allocation that held `garbage`. -/
def construct (PAGESIZE LINESIZE : Nat) (garbage : List UInt32)
    (h : Allocated PAGESIZE LINESIZE garbage) : SimplestMemory where
  p_PAGESIZE := PAGESIZE
  p_LINESIZE := LINESIZE
  m_mem := initialWords PAGESIZE garbage
  size_eq := by rw [initialWords_length, h.length_eq]
  pageSize_lt := h.pageSize_lt
  lineSize_lt := h.lineSize_lt

def bytes (m : SimplestMemory) : List UInt8 := toBytes m.m_mem

@[simp] theorem bytes_length (m : SimplestMemory) : m.bytes.length = 4 * m.p_PAGESIZE := by
  rw [bytes, toBytes_length, m.size_eq]

/-- The array itself: whoever asks for it shares it with the memory. -/
def getDirectMemoryPointer (m : SimplestMemory) : List UInt32 := m.m_mem

/-- `memcpy(&m_mem[adr], ptr, len)`. -/
def store (m : SimplestMemory) (adr : Nat) (ptr : List UInt8) (len : Nat) :
    Except Fault SimplestMemory :=
  match h : memcpy m.bytes (4 * adr) ptr 0 len with
  | .error e => .error e
  | .ok mem => .ok { m with
      m_mem := toWords mem
      size_eq := by
        rw [toWords_length, memcpy_length _ _ _ _ _ _ h, bytes_length]
        omega }

/-- The reports of the four checks. A check only reports: the call goes on. -/
def check (m : SimplestMemory) (trans : GenericPayload) : List Report :=
  let adr := trans.address / 4
  (if m.p_PAGESIZE ≤ adr.toNat then
    [⟨"TLM-2", "Target does not support address of the given transaction"⟩] else []) ++
  (if trans.byteEnablePtr.isSome then
    [⟨"TLM-2", "Target does not support byte enable of the given transaction"⟩] else []) ++
  (if 4 * m.p_LINESIZE < trans.dataLength.toNat then
    [⟨"TLM-2", "Target does not support len of the given transaction"⟩] else []) ++
  (if trans.streamingWidth < trans.dataLength then
    [⟨"TLM-2", "Target does not support width  of the given transaction"⟩] else [])

/-- The copy between the initiator's buffer and the array. -/
def access (m : SimplestMemory) (trans : GenericPayload) :
    Except Fault (List UInt8 × SimplestMemory) :=
  let adr := (trans.address / 4).toNat
  let len := trans.dataLength.toNat
  match trans.command with
  | .read => do
    let data ← memcpy trans.data 0 m.bytes (4 * adr) len
    return (data, m)
  | .write => do
    let m ← m.store adr trans.data len
    return (trans.data, m)
  | .ignore => return (trans.data, m)

def b_transport (m : SimplestMemory) (trans : GenericPayload) (delay : Nat) :
    Except Fault (Transport × SimplestMemory) := do
  let reports := m.check trans
  let delay := delay + 100
  let (data, m) ← m.access trans
  return (⟨{ trans with data := data, responseStatus := .ok }, delay, reports⟩, m)

/-- What passing all four checks says. -/
theorem check_eq_nil (m : SimplestMemory) (trans : GenericPayload) : m.check trans = [] ↔
    (trans.address / 4).toNat < m.p_PAGESIZE ∧ trans.byteEnablePtr = none ∧
      trans.dataLength.toNat ≤ 4 * m.p_LINESIZE ∧ trans.dataLength ≤ trans.streamingWidth := by
  simp only [check, List.append_eq_nil_iff, ite_eq_right_iff, List.cons_ne_nil, imp_false,
    Nat.not_le, Nat.not_lt, UInt32.not_lt, Option.not_isSome_iff_eq_none, and_assoc]

theorem store_ok (m m' : SimplestMemory) (adr : Nat) (ptr : List UInt8) (len : Nat)
    (h : m.store adr ptr len = .ok m') :
    m'.p_PAGESIZE = m.p_PAGESIZE ∧ m'.p_LINESIZE = m.p_LINESIZE ∧
      memcpy m.bytes (4 * adr) ptr 0 len = .ok m'.bytes := by
  unfold store at h
  split at h
  · simp at h
  · rename_i mem hm
    rw [← Except.ok.inj h]
    have hl : mem.length = 4 * m.p_PAGESIZE := by rw [memcpy_length _ _ _ _ _ _ hm, bytes_length]
    have hb := toBytes_toWords m.p_PAGESIZE mem hl
    exact ⟨rfl, rfl, hm.trans (congrArg Except.ok hb.symm)⟩

theorem store_ok_iff (m : SimplestMemory) (adr : Nat) (ptr : List UInt8) (len : Nat) :
    (∃ m', m.store adr ptr len = .ok m') ↔
      len = 0 ∨ (len ≤ ptr.length ∧ 4 * adr + len ≤ 4 * m.p_PAGESIZE) := by
  have hcopy := memcpy_ok_iff m.bytes ptr (4 * adr) 0 len
  rw [bytes_length, Nat.zero_add] at hcopy
  rw [← hcopy]
  constructor
  · intro h
    obtain ⟨m', hs⟩ := h
    exact ⟨m'.bytes, (m.store_ok m' adr ptr len hs).2.2⟩
  · intro h
    obtain ⟨result, hr⟩ := h
    unfold store
    split
    · rename_i e he
      rw [hr] at he
      simp at he
    · exact ⟨_, rfl⟩

theorem store_inside (m : SimplestMemory) (adr : Nat) (ptr : List UInt8) (len : Nat)
    (hp : len ≤ ptr.length) (hm : 4 * adr + len ≤ 4 * m.p_PAGESIZE) :
    ∃ m', m.store adr ptr len = .ok m' :=
  (m.store_ok_iff adr ptr len).mpr (Or.inr ⟨hp, hm⟩)

/-- On an aligned address the array is entered at the address itself. -/
theorem word_address (trans : GenericPayload) (hw : trans.address.toNat % 4 = 0) :
    4 * (trans.address / 4).toNat = trans.address.toNat := by
  simp only [UInt64.toNat_div, UInt64.reduceToNat]
  omega

theorem access_read (m m' : SimplestMemory) (trans : GenericPayload) (data : List UInt8)
    (hc : trans.command = .read) : m.access trans = .ok (data, m') ↔
      m' = m ∧ memcpy trans.data 0 m.bytes (4 * (trans.address / 4).toNat)
        trans.dataLength.toNat = .ok data := by
  simp only [access, hc, bind_eq_ok]
  constructor
  · intro h
    obtain ⟨data', hd, hr⟩ := h
    obtain ⟨rfl, rfl⟩ := ok_inj hr
    exact ⟨rfl, hd⟩
  · intro h
    obtain ⟨rfl, hd⟩ := h
    exact ⟨data, hd, rfl⟩

theorem access_write (m m' : SimplestMemory) (trans : GenericPayload) (data : List UInt8)
    (hc : trans.command = .write) : m.access trans = .ok (data, m') ↔
      data = trans.data ∧
        m.store (trans.address / 4).toNat trans.data trans.dataLength.toNat = .ok m' := by
  simp only [access, hc, bind_eq_ok]
  constructor
  · intro h
    obtain ⟨m₁, hs, hr⟩ := h
    obtain ⟨rfl, rfl⟩ := ok_inj hr
    exact ⟨rfl, hs⟩
  · intro h
    obtain ⟨rfl, hs⟩ := h
    exact ⟨m', hs, rfl⟩

theorem access_ignore (m m' : SimplestMemory) (trans : GenericPayload) (data : List UInt8)
    (hc : trans.command = .ignore) : m.access trans = .ok (data, m') ↔
      data = trans.data ∧ m' = m := by
  simp only [access, hc, pure, Except.pure, Except.ok.injEq, Prod.mk.injEq]
  constructor
  · intro h
    exact ⟨h.1.symm, h.2.symm⟩
  · intro h
    exact ⟨h.1.symm, h.2.symm⟩

theorem access_length (m m' : SimplestMemory) (trans : GenericPayload) (data : List UInt8)
    (h : m.access trans = .ok (data, m')) : data.length = trans.data.length := by
  cases hc : trans.command with
  | read => exact memcpy_length _ _ _ _ _ _ ((m.access_read m' trans data hc).mp h).2
  | write => rw [((m.access_write m' trans data hc).mp h).1]
  | ignore => rw [((m.access_ignore m' trans data hc).mp h).1]

theorem access_valid (m : SimplestMemory) (trans : GenericPayload)
    (hv : ValidTraffic m.p_PAGESIZE m.p_LINESIZE trans) :
    ∃ data m', m.access trans = .ok (data, m') ∧ m'.p_PAGESIZE = m.p_PAGESIZE ∧
      m'.p_LINESIZE = m.p_LINESIZE := by
  cases hc : trans.command with
  | read =>
    have hcopy := memcpy_ok trans.data m.bytes 0 (4 * (trans.address / 4).toNat)
      trans.dataLength.toNat (by rw [bytes_length]; exact hv.pageSize_le)
      (by rw [Nat.zero_add]; exact hv.data_le)
    exact ⟨_, m, (m.access_read m trans _ hc).mpr ⟨rfl, hcopy⟩, rfl, rfl⟩
  | write =>
    obtain ⟨m', hs⟩ := m.store_inside (trans.address / 4).toNat trans.data trans.dataLength.toNat
      hv.data_le hv.pageSize_le
    obtain ⟨hp, hl, -⟩ := m.store_ok m' _ _ _ hs
    exact ⟨trans.data, m', (m.access_write m' trans _ hc).mpr ⟨rfl, hs⟩, hp, hl⟩
  | ignore => exact absurd hc hv.command_ne

theorem access_sizes (m m' : SimplestMemory) (trans : GenericPayload) (data : List UInt8)
    (h : m.access trans = .ok (data, m')) :
    m'.p_PAGESIZE = m.p_PAGESIZE ∧ m'.p_LINESIZE = m.p_LINESIZE := by
  cases hc : trans.command with
  | read =>
    rw [((m.access_read m' trans data hc).mp h).1]
    exact ⟨rfl, rfl⟩
  | write =>
    obtain ⟨hp, hl, -⟩ := m.store_ok m' _ _ _ ((m.access_write m' trans data hc).mp h).2
    exact ⟨hp, hl⟩
  | ignore =>
    rw [((m.access_ignore m' trans data hc).mp h).2]
    exact ⟨rfl, rfl⟩

theorem check_congr (m m' : SimplestMemory) (hp : m'.p_PAGESIZE = m.p_PAGESIZE)
    (hl : m'.p_LINESIZE = m.p_LINESIZE) (trans : GenericPayload) :
    m'.check trans = m.check trans := by
  rw [check, check, hp, hl]

/-- A call makes the copy, adds 100 ns and answers `TLM_OK_RESPONSE`. -/
theorem b_transport_ok (m m' : SimplestMemory) (trans : GenericPayload) (delay : Nat)
    (r : Transport) : m.b_transport trans delay = .ok (r, m') ↔
      ∃ data, m.access trans = .ok (data, m') ∧
        r = ⟨{ trans with data := data, responseStatus := .ok }, delay + 100, m.check trans⟩ := by
  simp only [b_transport, bind_eq_ok, Prod.exists]
  constructor
  · intro h
    obtain ⟨data, m₁, ha, hr⟩ := h
    obtain ⟨rfl, rfl⟩ := ok_inj hr
    exact ⟨data, ha, rfl⟩
  · intro h
    obtain ⟨data, ha, rfl⟩ := h
    exact ⟨data, m', ha, rfl⟩

theorem b_transport_data_length (m m' : SimplestMemory) (trans : GenericPayload) (delay : Nat)
    (r : Transport) (h : m.b_transport trans delay = .ok (r, m')) :
    r.trans.data.length = trans.data.length := by
  obtain ⟨data, ha, rfl⟩ := (m.b_transport_ok m' trans delay r).mp h
  exact m.access_length m' trans data ha

def target : Target SimplestMemory := ⟨b_transport, fun m trans delay r m' h =>
  m.b_transport_data_length m' trans delay r h⟩

/-- A memory of 48 words. -/
def small : SimplestMemory :=
  construct 48 8 (List.replicate 48 0) (allocated_replicate 48 8 0 (by decide) (by decide))

end SimplestMemory

end FreeSampler
