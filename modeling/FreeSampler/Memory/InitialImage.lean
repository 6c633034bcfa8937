import FreeSampler.Memory.MockMemory1
import FreeSampler.Memory.Sessions
import FreeSampler.Memory.SimplestMemory
import Mathlib.Data.List.OfFn

namespace FreeSampler

open Framework Tlm

/-- A transaction that reads the four bytes of a word. -/
structure ReadsWord (w : UInt64) (trans : GenericPayload) : Prop where
  command_eq : trans.command = .read
  address_eq : trans.address / 4 = w
  dataLength_eq : trans.dataLength = 4
  byteEnablePtr_eq : trans.byteEnablePtr = none
  streamingWidth_le : 4 ≤ trans.streamingWidth
  data_le : 4 ≤ trans.data.length

/-- A transaction that writes into the bytes of a word. -/
def WritesWord (w : UInt64) (trans : GenericPayload) : Prop :=
  let adr := (trans.address / 4).toNat
  trans.command = .write ∧ adr < w.toNat + 1 ∧ 4 * w.toNat < 4 * adr + trans.dataLength.toNat

/-- A read is answered with `TLM_OK_RESPONSE` and delivers a word; the rest of the buffer stays. -/
def Delivers (trans : GenericPayload) (r : Transport) (v : UInt32) : Prop :=
  r.trans.responseStatus = .ok ∧ r.trans.data = wordBytes v ++ trans.data.drop 4

/-- The pattern of the initial image: words 0, 1, 0, 1, ... -/
def imageWord (w : UInt64) : UInt32 := UInt32.ofNat (w.toNat % 2)

/-- After every run that does not write a word, a read of it delivers the word of the image. -/
def Tlm.Target.PresentsImage {σ : Type} (T : Target σ) (start : σ) (w : UInt64) : Prop :=
  ∀ calls replies s, run T.step start calls = .ok (replies, s) →
    (∀ c ∈ calls, ¬ WritesWord w c.trans) → ∀ trans delay, ReadsWord w trans →
      ∃ r s', T.b_transport s trans delay = .ok (r, s') ∧ Delivers trans r (imageWord w)

def wordRead (w : UInt64) : GenericPayload :=
  ⟨.read, 4 * w, [0, 0, 0, 0], 4, none, 4, false, .incomplete⟩

theorem readsWord_wordRead (w : UInt64) (hw : w.toNat < 2 ^ 62) : ReadsWord w (wordRead w) := by
  refine ⟨rfl, ?_, rfl, rfl, UInt32.le_refl 4, Nat.le_refl 4⟩
  apply UInt64.toNat_inj.mp
  simp only [wordRead, UInt64.toNat_div, UInt64.toNat_mul, UInt64.reduceToNat]
  omega

theorem delivers_unique (trans : GenericPayload) (r : Transport) (v v' : UInt32)
    (h : Delivers trans r v) (h' : Delivers trans r v') : v = v' := by
  apply wordBytes_inj
  exact List.append_cancel_right (h.2.symm.trans h'.2)

namespace SimplestMemory

theorem store_keepsWord (m m' : SimplestMemory) (adr : Nat) (ptr : List UInt8) (len w : Nat)
    (h : m.store adr ptr len = .ok m') (ho : w + 1 ≤ adr ∨ 4 * adr + len ≤ 4 * w) :
    m'.m_mem[w]? = m.m_mem[w]? := by
  obtain ⟨hp, -, hcopy⟩ := m.store_ok m' adr ptr len h
  apply getElem?_of_bytes
  · rw [m'.size_eq, m.size_eq, hp]
  · intro j hj
    show m'.bytes[4 * w + j]? = m.bytes[4 * w + j]?
    rw [memcpy_getElem? _ _ _ _ _ _ hcopy, if_neg (by omega)]

theorem step_keepsWord (m m' : SimplestMemory) (c : Transaction) (r : Transport) (w : UInt64)
    (hw : ¬ WritesWord w c.trans) (h : target.step m c = .ok (r, m')) :
    m'.m_mem[w.toNat]? = m.m_mem[w.toNat]? := by
  obtain ⟨data, ha, -⟩ := (m.b_transport_ok m' c.trans c.delay r).mp h
  cases hc : c.trans.command with
  | read => rw [((m.access_read m' c.trans data hc).mp ha).1]
  | write =>
    have hs := ((m.access_write m' c.trans data hc).mp ha).2
    apply m.store_keepsWord m' _ _ _ _ hs
    by_contra hover
    rw [not_or] at hover
    exact hw ⟨hc, by omega, by omega⟩
  | ignore => rw [((m.access_ignore m' c.trans data hc).mp ha).2]

theorem run_keepsWord (m m' : SimplestMemory) (calls : List Transaction)
    (replies : List Transport) (w : UInt64) (hw : ∀ c ∈ calls, ¬ WritesWord w c.trans)
    (h : run target.step m calls = .ok (replies, m')) :
    m'.m_mem[w.toNat]? = m.m_mem[w.toNat]? := by
  apply run_invariant target.step (fun _ s => s.m_mem[w.toNat]? = m.m_mem[w.toNat]?) m m' [] calls
    replies ?_ rfl h
  intro c hc _ s r s' hs hstep
  rw [s.step_keepsWord s' c r w (hw c hc) hstep]
  exact hs

theorem read_word (m : SimplestMemory) (trans : GenericPayload) (delay : Nat) (w : UInt64)
    (v : UInt32) (hr : ReadsWord w trans) (hv : m.m_mem[w.toNat]? = some v) :
    ∃ r, m.b_transport trans delay = .ok (r, m) ∧ Delivers trans r v := by
  obtain ⟨hlt, -⟩ := List.getElem?_eq_some_iff.mp hv
  rw [m.size_eq] at hlt
  have hcopy := memcpy_ok trans.data m.bytes 0 (4 * w.toNat) 4 (by rw [bytes_length]; omega)
    (by rw [Nat.zero_add]; exact hr.data_le)
  rw [bytes, toBytes_word m.m_mem w.toNat v hv] at hcopy
  refine ⟨_, (m.b_transport_ok m trans delay _).mpr ⟨wordBytes v ++ trans.data.drop 4, ?_, rfl⟩,
    rfl, rfl⟩
  apply (m.access_read m trans _ hr.command_eq).mpr
  rw [hr.address_eq, hr.dataLength_eq]
  exact ⟨rfl, hcopy⟩

/-- A memory presents the initial image exactly at the words that its constructor initializes. -/
theorem presentsImage_initialized (n LINESIZE : Nat) (w : UInt64) (hn : n < 2 ^ 31)
    (hl : 4 * LINESIZE < 2 ^ 31) (hw : w.toNat < n) :
    (∀ garbage h, target.PresentsImage (construct n LINESIZE garbage h) w) ↔
      Initialized n w.toNat := by
  constructor
  · intro h
    by_contra hi
    have hgarbage := allocated_replicate n LINESIZE 0xffffffff hn hl
    let m := construct n LINESIZE (List.replicate n 0xffffffff) hgarbage
    have hread : ReadsWord w (wordRead w) := readsWord_wordRead w (by omega)
    have hlt : w.toNat < m.m_mem.length := by rw [m.size_eq]; exact hw
    obtain ⟨r, hr, hd⟩ := m.read_word _ 0 w _ hread (List.getElem?_eq_getElem hlt)
    obtain ⟨r', m', hr', hd'⟩ := h _ hgarbage [] [] m rfl (by simp) _ 0 hread
    obtain ⟨rfl, -⟩ := ok_unique hr hr'
    have himage := delivers_unique _ _ _ _ hd hd'
    apply initialWords_uninitialized n w.toNat hw hi
    show m.m_mem[w.toNat]? = some (imageWord w)
    rw [List.getElem?_eq_getElem hlt, himage]
  · intro hi garbage hg calls replies m hrun hunwritten trans delay hr
    have hkeep := run_keepsWord _ m calls replies w hunwritten hrun
    have hv := initialWords_initialized n garbage hg.length_eq w.toNat hw hi
    obtain ⟨r, hr, hd⟩ := m.read_word trans delay w _ hr (hkeep.trans hv)
    exact ⟨r, m, hr, hd⟩

end SimplestMemory

theorem MockMemory1.presentsImage (w : UInt64) : target.PresentsImage ⟨⟩ w := by
  intro calls replies m _ _ trans delay hr
  have ha := access_read trans hr.command_eq hr.data_le
  rw [hr.address_eq] at ha
  exact ⟨_, m, (b_transport_ok m m trans delay _).mpr ⟨_, ha, rfl⟩, rfl, rfl⟩

namespace SparseMemory

/-- After every interleaving of transport calls, requests and direct stores in which no event
stores to a word, a read of it delivers the word of the image. -/
def PresentsImage (w : UInt64) : Prop :=
  ∀ events replies s, Admissible 0 events → run Session.step Session.start events = .ok (replies, s) →
    (∀ x ∈ events.zip replies, storedTo w x = none) → ∀ call : Call, ReadsWord w call.trans →
      ∃ r m', s.memory.step call = .ok (r, m') ∧ Delivers call.trans r (imageWord w)

theorem errorResponse_readsWord (w : UInt64) (trans : GenericPayload) (hw : w < MAXSIZEMEM)
    (hr : ReadsWord w trans) : errorResponse trans = none := by
  have hadr : ¬ MAXSIZEMEM ≤ w := UInt64.not_le.mpr hw
  have hwidth : ¬ trans.streamingWidth < 4 := UInt32.not_lt.mpr hr.streamingWidth_le
  simp [errorResponse, hr.address_eq, hr.dataLength_eq, hr.byteEnablePtr_eq, hadr, hwidth]

theorem read_shown (m : SparseMemory) (call : Call) (w : UInt64) (hw : w < MAXSIZEMEM)
    (hr : ReadsWord w call.trans) :
    ∃ r m', m.step call = .ok (r, m') ∧ Delivers call.trans r (m.shown call.new w) := by
  obtain ⟨r, m', hs, hok, hread, -⟩ :=
    m.step_accepted call (errorResponse_readsWord w call.trans hw hr) hr.data_le
  have hdata := hread hr.command_eq
  rw [Call.adr, hr.address_eq] at hdata
  exact ⟨r, m', hs, hok, hdata⟩

theorem initPage_getElem? (new : Page) (w : UInt64) :
    (initialWords PAGESIZE (List.ofFn new))[w.toNat % PAGESIZE]? =
      some (initPage new (pageOffset w)) := by
  have hlt : w.toNat % PAGESIZE < (initialWords PAGESIZE (List.ofFn new)).length := by
    rw [initialWords_length, List.length_ofFn]
    exact Nat.mod_lt _ (by decide)
  exact List.getElem?_eq_getElem hlt

theorem initPage_initialized (new : Page) (w : UInt64)
    (hi : Initialized PAGESIZE (w.toNat % PAGESIZE)) :
    initPage new (pageOffset w) = imageWord w := by
  have hword := initPage_getElem? new w
  rw [initialWords_initialized PAGESIZE _ List.length_ofFn _ (Nat.mod_lt _ (by decide)) hi] at hword
  have hparity : w.toNat % PAGESIZE % 2 = w.toNat % 2 := Nat.mod_mod_of_dvd _ (by decide)
  rw [hparity] at hword
  exact (Option.some.inj hword).symm

theorem touchedFor_initPage (w : UInt64) (x : Event × Reply) (i : UInt32)
    (h : touchedFor w x = some i) : ∃ new, i = initPage new (pageOffset w) := by
  match x, h with
  | (.transport call, .transport r), h =>
    simp only [touchedFor, allocatedFor] at h
    split_ifs at h
    exact ⟨call.new, (Option.some.inj h).symm⟩
  | (.direct request new, .granted dmi_data), h =>
    simp only [touchedFor] at h
    split_ifs at h
    exact ⟨new, (Option.some.inj h).symm⟩

/-- A word that no event stored to shows the initial word of its page. -/
theorem shown_unstored (h : List (Event × Reply)) (s : Session) (hm : HoldsStored h s)
    (new : Page) (w : UInt64) (hw : ∀ x ∈ h, storedTo w x = none) :
    ∃ first, s.memory.shown new w = initPage first (pageOffset w) := by
  rw [shown, hm.word_eq w, lazyValue, (latest_eq_none _ _).mpr hw]
  cases hf : h.findSome? (touchedFor w) with
  | none => exact ⟨new, by rw [Option.map_none, Option.getD_none]⟩
  | some i =>
    rw [Option.map_some, Option.getD_some, Option.getD_none]
    obtain ⟨x, -, hx⟩ := List.exists_of_findSome?_eq_some hf
    exact touchedFor_initPage w x i hx

/-- The memory presents the initial image exactly at the words of a page that are initialized. -/
theorem presentsImage_initialized (w : UInt64) (hw : w < MAXSIZEMEM) :
    PresentsImage w ↔ Initialized PAGESIZE (w.toNat % PAGESIZE) := by
  constructor
  · intro h
    by_contra hi
    let call : Call := ⟨wordRead w, 0, fun _ => 0xffffffff⟩
    have hread : ReadsWord w (wordRead w) := readsWord_wordRead w (by
      have hlt := UInt64.lt_iff_toNat_lt.mp hw
      have hmax : MAXSIZEMEM.toNat = 1048576 := rfl
      omega)
    obtain ⟨r, m, hr, hd⟩ := read_shown construct call w hw hread
    obtain ⟨r', m', hr', hd'⟩ := h [] [] Session.start trivial rfl (by simp) call hread
    obtain ⟨rfl, -⟩ := ok_unique hr hr'
    have himage := delivers_unique _ _ _ _ hd hd'
    have hne := initialWords_uninitialized PAGESIZE _ (Nat.mod_lt _ (by decide)) hi
    apply hne
    have hparity : w.toNat % PAGESIZE % 2 = w.toNat % 2 := Nat.mod_mod_of_dvd _ (by decide)
    have hofn : List.ofFn (fun _ : Fin PAGESIZE => (0xffffffff : UInt32)) =
        List.replicate PAGESIZE 0xffffffff := List.ofFn_const _ _
    have hempty : construct.word w = none := rfl
    rw [shown, hempty, Option.getD_none] at himage
    rw [hparity, ← hofn, initPage_getElem?, himage]
    rfl
  · intro hi events replies s ha hrun hunstored call hr
    obtain ⟨replies', s', hrun', hend, -⟩ :=
      run_holdsStored [] Session.start holdsStored_start events ha
    obtain ⟨rfl, rfl⟩ := ok_unique hrun hrun'
    obtain ⟨first, hfirst⟩ := shown_unstored _ s hend call.new w hunstored
    obtain ⟨r, m', hs, hd⟩ := s.memory.read_shown call w hw hr
    rw [hfirst, initPage_initialized first w hi] at hd
    exact ⟨r, m', hs, hd⟩

end SparseMemory

/-- Where the memories present their common initial image: the sparse one at the initialized
words of every page, the one array at its initialized words, and the mock everywhere. -/
theorem presentsImage_iff (w : UInt64) :
    (w < SparseMemory.MAXSIZEMEM → (SparseMemory.PresentsImage w ↔
      Initialized SparseMemory.PAGESIZE (w.toNat % SparseMemory.PAGESIZE))) ∧
    (∀ n LINESIZE, n < 2 ^ 31 → 4 * LINESIZE < 2 ^ 31 → w.toNat < n →
      ((∀ garbage h, SimplestMemory.target.PresentsImage
        (SimplestMemory.construct n LINESIZE garbage h) w) ↔ Initialized n w.toNat)) ∧
    MockMemory1.target.PresentsImage ⟨⟩ w := by
  refine ⟨?_, ?_, ?_⟩
  · intro hw
    exact SparseMemory.presentsImage_initialized w hw
  · intro n LINESIZE hn hl hw
    exact SimplestMemory.presentsImage_initialized n LINESIZE w hn hl hw
  · exact MockMemory1.presentsImage w

/-- The words that the initialization misses: word 256 of a page, behind the bytes that `memset`
clears, and the last word of an array, behind the bound of the loop. -/
theorem presentsImage_missed :
    ¬ SparseMemory.PresentsImage 256 ∧ ¬ SimplestMemory.target.PresentsImage
      (SimplestMemory.construct 4 8 [9, 9, 9, 9] ⟨rfl, by decide, by decide⟩) 3 := by
  refine ⟨?_, ?_⟩
  · intro h
    exact absurd ((SparseMemory.presentsImage_initialized 256 (by decide)).mp h) (by decide)
  · intro h
    obtain ⟨r, m, hr, hd⟩ := h [] [] _ rfl (by simp) (wordRead 3) 0 (readsWord_wordRead 3 (by decide))
    have hdata : (SimplestMemory.target.b_transport (SimplestMemory.construct 4 8 [9, 9, 9, 9]
        ⟨rfl, by decide, by decide⟩) (wordRead 3) 0).toOption.map (fun x => x.1.trans.data) = some [9, 0, 0, 0] := by decide
    rw [hr] at hdata
    have hread : r.trans.data = [9, 0, 0, 0] := Option.some.inj hdata
    rw [hd.2] at hread
    exact absurd hread (by decide)

end FreeSampler
