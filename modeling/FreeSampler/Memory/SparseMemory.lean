import FreeSampler.Framework.LazyHeap
import FreeSampler.Memory.WordPattern
import FreeSampler.Tlm.Payload

namespace FreeSampler

open Framework Tlm

namespace SparseMemory

/-- Words in a page. -/
def PAGESIZE : Nat := 1024

/-- 1 MiB in the source's comment; the checks compare it with a word index. -/
def MAXSIZEMEM : UInt64 := 1048576

def LATENCY_ONE_CLOCK : Nat := 10

abbrev Page := Fin PAGESIZE → UInt32

/-- A fresh page over the contents of `new uint32_t[PAGESIZE]`. -/
def initPage (new : Page) : Page := fun offset =>
  (initialWords PAGESIZE (List.ofFn new)).get
    (offset.cast (by rw [initialWords_length, List.length_ofFn]))

end SparseMemory

/-- The memory: the hash map from page IDs to pages, with the pages its pointers address. -/
structure SparseMemory where
  m_writtenAddresses : LazyHeap UInt64 SparseMemory.Page

namespace SparseMemory

def construct : SparseMemory := ⟨LazyHeap.empty⟩

def pageID (adr : UInt64) : UInt64 := adr / 1024

def pageOffset (adr : UInt64) : Fin PAGESIZE := ⟨adr.toNat % 1024, Nat.mod_lt _ (by decide)⟩

/-- The page of a word address, allocated over `new` and initialized on its first access. -/
def fetchMemoryPage (m : SparseMemory) (new : Page) (adr : UInt64) : Nat × SparseMemory :=
  let (page, heap) := m.m_writtenAddresses.fetch (pageID adr) (initPage new)
  (page, ⟨heap⟩)

/-- `page[offset]`. -/
def loadWordAt (m : SparseMemory) (page : Nat) (offset : Fin PAGESIZE) : Except Fault UInt32 := do
  let words ← elementAt m.m_writtenAddresses.cells page
  return words offset

/-- `page[offset] = w`. -/
def storeWordAt (m : SparseMemory) (page : Nat) (offset : Fin PAGESIZE) (w : UInt32) :
    Except Fault SparseMemory := do
  let words ← elementAt m.m_writtenAddresses.cells page
  return ⟨m.m_writtenAddresses.set page (Function.update words offset w)⟩

/-- The error response a transaction gets, in the order of the checks. -/
def errorResponse (trans : GenericPayload) : Option ResponseStatus :=
  let adr := trans.address / 4
  if MAXSIZEMEM ≤ adr then some .addressError
  else if trans.byteEnablePtr.isSome then some .byteEnableError
  else if 4 < trans.dataLength ∨ trans.streamingWidth < trans.dataLength then some .burstError
  else none

/-- What passing all the checks says. The limit is checked against the word index: it leaves four
times as many bytes. -/
theorem errorResponse_eq_none (trans : GenericPayload) : errorResponse trans = none ↔
    trans.address.toNat < 2 ^ 22 ∧ trans.byteEnablePtr = none ∧ trans.dataLength ≤ 4 ∧
      trans.dataLength ≤ trans.streamingWidth := by
  have hlimit : MAXSIZEMEM ≤ trans.address / 4 ↔ ¬ trans.address.toNat < 2 ^ 22 := by
    have hmax : MAXSIZEMEM.toNat = 2 ^ 20 := rfl
    simp only [UInt64.le_iff_toNat_le, UInt64.toNat_div, hmax, UInt64.reduceToNat]
    omega
  simp only [errorResponse]
  split_ifs with hadr hbyte hburst
  · exact iff_of_false not_false (fun h => hlimit.mp hadr h.1)
  · simp [Option.isSome_iff_ne_none.mp hbyte]
  · rw [← UInt32.not_le, ← UInt32.not_le, ← not_and_or] at hburst
    simp [hburst]
  · rw [not_or, UInt32.not_lt, UInt32.not_lt] at hburst
    rw [Option.not_isSome_iff_eq_none] at hbyte
    exact iff_of_true rfl ⟨not_not.mp (fun h => hadr (hlimit.mpr h)), hbyte, hburst⟩

/-- The word transfer. It moves a whole word, whatever the data length. -/
def transfer (m : SparseMemory) (page : Nat) (offset : Fin PAGESIZE) (trans : GenericPayload) :
    Except Fault (List UInt8 × SparseMemory) :=
  match trans.command with
  | .read => do
    let w ← m.loadWordAt page offset
    let data ← storeWord w trans.data
    return (data, m)
  | .write => do
    let w ← loadWord trans.data
    let m ← m.storeWordAt page offset w
    return (trans.data, m)
  | .ignore => return (trans.data, m)

def b_transport (m : SparseMemory) (new : Page) (trans : GenericPayload) (delay : Nat) :
    Except Fault (Transport × SparseMemory) :=
  match errorResponse trans with
  | some status => return (⟨{ trans with responseStatus := status }, delay, []⟩, m)
  | none => do
    let adr := trans.address / 4
    let delay := delay + 100
    let (page, m) := m.fetchMemoryPage new adr
    let (data, m) ← m.transfer page (pageOffset adr) trans
    return (⟨{ trans with data := data, dmiAllowed := true, responseStatus := .ok }, delay, []⟩, m)

theorem transfer_length (m m' : SparseMemory) (page : Nat) (offset : Fin PAGESIZE)
    (trans : GenericPayload) (data : List UInt8)
    (h : m.transfer page offset trans = .ok (data, m')) : data.length = trans.data.length := by
  cases hc : trans.command with
  | read =>
    simp only [transfer, hc, bind_eq_ok] at h
    obtain ⟨w, _, data', hs, hr⟩ := h
    rw [← (ok_inj hr).1]
    exact storeWord_length w trans.data data' hs
  | write =>
    simp only [transfer, hc, bind_eq_ok] at h
    obtain ⟨w, _, m₁, _, hr⟩ := h
    rw [← (ok_inj hr).1]
  | ignore =>
    simp only [transfer, hc] at h
    rw [← (ok_inj h).1]

theorem b_transport_data_length (m m' : SparseMemory) (new : Page) (trans : GenericPayload)
    (delay : Nat) (r : Transport) (h : m.b_transport new trans delay = .ok (r, m')) :
    r.trans.data.length = trans.data.length := by
  cases he : errorResponse trans with
  | some status =>
    simp only [b_transport, he] at h
    rw [← (ok_inj h).1]
  | none =>
    simp only [b_transport, he, bind_eq_ok, Prod.exists] at h
    obtain ⟨data, m₁, ht, hr⟩ := h
    rw [← (ok_inj hr).1]
    exact transfer_length _ _ _ _ _ data ht

/-- The memory as a blocking transport target, over allocations that all hold `new`. -/
def target (new : Page) : Target SparseMemory where
  b_transport m trans delay := m.b_transport new trans delay
  data_length m trans delay r m' h := m.b_transport_data_length m' new trans delay r h

/-- The DMI descriptor for the page of an address. The access is always granted. -/
def get_direct_mem_ptr (m : SparseMemory) (new : Page) (trans : GenericPayload) :
    (Bool × Dmi) × SparseMemory :=
  let adr := trans.address / 4
  let (page, m) := m.fetchMemoryPage new adr
  let start_adr := adr / 1024 * 1024
  ((true, {
    grantedAccess := .readWrite
    dmiPtr := page
    startAddress := start_adr
    endAddress := start_adr + 1024 - 1
    readLatency := LATENCY_ONE_CLOCK
    writeLatency := LATENCY_ONE_CLOCK }), m)

/-- What a debug call leaves in the initiator's buffer. It looks at no page. -/
def debugData (trans : GenericPayload) : Except Fault (List UInt8) :=
  let adr := trans.address / 4
  match trans.command with
  | .read => if adr % 8 = 0 then storeWord 0 trans.data else storeWord 1 trans.data
  | .write => .ok trans.data
  | .ignore => .ok trans.data

/-- The debug path: the number of bytes, and the payload. -/
def transport_dbg (m : SparseMemory) (trans : GenericPayload) :
    Except Fault ((UInt32 × GenericPayload) × SparseMemory) := do
  let data ← debugData trans
  return ((4, { trans with data := data, responseStatus := .ok }), m)

def word (m : SparseMemory) (adr : UInt64) : Option UInt32 :=
  (m.m_writtenAddresses.contents (pageID adr)).map (· (pageOffset adr))

def pageIDs (m : SparseMemory) : List UInt64 := m.m_writtenAddresses.keys

/-- The memory as a blocking transport target, where the allocation of page number `n` holds
`allocated n`. -/
def targetOver (allocated : Nat → Page) : Target SparseMemory where
  b_transport m trans delay := m.b_transport (allocated m.pageIDs.length) trans delay
  data_length m trans delay r m' h := m.b_transport_data_length m' _ trans delay r h

theorem page_offset_iff (a b : UInt64) :
    (pageID a = pageID b ∧ pageOffset a = pageOffset b) ↔ a = b := by
  constructor
  · intro h
    have hp : a.toNat / 1024 = b.toNat / 1024 := by
      have hpage := congrArg UInt64.toNat h.1
      simpa [pageID] using hpage
    have ho : a.toNat % 1024 = b.toNat % 1024 := congrArg Fin.val h.2
    apply UInt64.toNat_inj.mp
    omega
  · intro h
    rw [h]
    exact ⟨rfl, rfl⟩

section Fetch

variable (m : SparseMemory) (new : Page) (adr : UInt64)

/-- The word the page of `adr` shows once fetched: the one it holds, or the initial one. -/
def shown (w : UInt64) : UInt32 := (m.word w).getD (initPage new (pageOffset w))

theorem fetch_pageIDs (id : UInt64) :
    id ∈ (m.fetchMemoryPage new adr).2.pageIDs ↔ id = pageID adr ∨ id ∈ m.pageIDs :=
  m.m_writtenAddresses.keys_fetch (pageID adr) id (initPage new)

theorem fetch_word (w : UInt64) : (m.fetchMemoryPage new adr).2.word w =
    if pageID w = pageID adr then some (m.shown new w) else m.word w := by
  rw [word, fetchMemoryPage]
  split_ifs with hid
  · rw [hid, LazyHeap.contents_fetch_self, Option.map_some, shown, word, hid]
    cases m.m_writtenAddresses.contents (pageID adr) <;> rfl
  · rw [LazyHeap.contents_fetch_of_ne _ _ _ _ hid, word]

theorem fetch_cells : ∃ words, (m.fetchMemoryPage new adr).2.m_writtenAddresses.cells[
    (m.fetchMemoryPage new adr).1]? = some words ∧
    words (pageOffset adr) = m.shown new adr := by
  have hs := m.m_writtenAddresses.find_fetch_self (pageID adr) (initPage new)
  have hc := m.m_writtenAddresses.contents_fetch_self (pageID adr) (initPage new)
  rw [LazyHeap.contents, hs, Option.bind_some] at hc
  refine ⟨_, hc, ?_⟩
  rw [shown, word]
  cases m.m_writtenAddresses.contents (pageID adr) <;> rfl

theorem transfer_read (trans : GenericPayload) (hc : trans.command = .read)
    (hd : 4 ≤ trans.data.length) :
    (m.fetchMemoryPage new adr).2.transfer (m.fetchMemoryPage new adr).1 (pageOffset adr) trans =
      .ok (wordBytes (m.shown new adr) ++ trans.data.drop 4, (m.fetchMemoryPage new adr).2) := by
  obtain ⟨words, hw, hshown⟩ := m.fetch_cells new adr
  simp only [transfer, hc, loadWordAt, (elementAt_ok _ _ _).mpr hw, ok_bind, pure_bind, hshown,
    storeWord_ok _ _ hd]
  rfl

theorem transfer_write (trans : GenericPayload) (hc : trans.command = .write) (v : UInt32)
    (hv : loadWord trans.data = .ok v) :
    ∃ m', (m.fetchMemoryPage new adr).2.transfer (m.fetchMemoryPage new adr).1 (pageOffset adr)
      trans = .ok (trans.data, m') ∧
      m'.pageIDs = (m.fetchMemoryPage new adr).2.pageIDs ∧
      ∀ w, m'.word w = if w = adr then some v else (m.fetchMemoryPage new adr).2.word w := by
  obtain ⟨words, hw, -⟩ := m.fetch_cells new adr
  have hs : (m.fetchMemoryPage new adr).2.m_writtenAddresses.find (pageID adr) =
      some (m.fetchMemoryPage new adr).1 := m.m_writtenAddresses.find_fetch_self _ _
  have hwords : (m.fetchMemoryPage new adr).2.m_writtenAddresses.contents (pageID adr) =
      some words := by rw [LazyHeap.contents, hs, Option.bind_some, hw]
  refine ⟨⟨(m.fetchMemoryPage new adr).2.m_writtenAddresses.set (m.fetchMemoryPage new adr).1
    (Function.update words (pageOffset adr) v)⟩, ?_, rfl, ?_⟩
  · simp only [transfer, hc, hv, storeWordAt, (elementAt_ok _ _ _).mpr hw, ok_bind]
    rfl
  · intro w
    rw [word, LazyHeap.contents_set _ _ _ _ _ hs]
    by_cases hid : pageID w = pageID adr
    · rw [if_pos hid, Option.map_some]
      by_cases ho : pageOffset w = pageOffset adr
      · rw [ho, Function.update_self, if_pos ((page_offset_iff w adr).mp ⟨hid, ho⟩)]
      · have hne : w ≠ adr := by
          intro hwa
          exact ho (by rw [hwa])
        rw [Function.update_of_ne ho, if_neg hne, word, hid, hwords]
        rfl
    · have hne : w ≠ adr := by
        intro hwa
        exact hid (by rw [hwa])
      rw [if_neg hid, if_neg hne, word]

end Fetch

end SparseMemory

end FreeSampler
