import FreeSampler.Framework.Run
import FreeSampler.Memory.SparseMemory

namespace FreeSampler

open Framework Tlm

namespace SparseMemory

/-- A blocking transport call, with what `new` would return if it had to allocate a page. -/
structure Call where
  trans : GenericPayload
  delay : Nat
  new : Page

namespace Call

def adr (c : Call) : UInt64 := c.trans.address / 4

end Call

def step (m : SparseMemory) (c : Call) : Except Fault (Transport × SparseMemory) :=
  m.b_transport c.new c.trans c.delay

/-- The calls of a run with their answers, oldest first. -/
abbrev History := List (Call × Transport)

/-- The word an accepted write stores at a word address. -/
def writtenTo (w : UInt64) (e : Call × Transport) : Option UInt32 :=
  if e.2.trans.responseStatus = .ok ∧ e.1.trans.command = .write ∧ e.1.adr = w
  then (loadWord e.1.trans.data).toOption else none

/-- The initial word at a word address in the page an accepted call would allocate. -/
def allocatedFor (w : UInt64) (e : Call × Transport) : Option UInt32 :=
  if e.2.trans.responseStatus = .ok ∧ pageID e.1.adr = pageID w
  then some (initPage e.1.new (pageOffset w)) else none

/-- The word that a position held when its page was allocated: by the first accepted call
on the page. -/
def initialWord (h : History) (w : UInt64) : Option UInt32 := h.findSome? (allocatedFor w)

/-- An accepted read delivers the word of the latest accepted write to its word address, or
the initial word. -/
def ReadsLatest (h : History) (e : Call × Transport) : Prop :=
  e.2.trans.responseStatus = .ok → e.1.trans.command = .read →
    ∃ i, initialWord (h ++ [e]) e.1.adr = some i ∧
      e.2.trans.data = wordBytes ((latest (writtenTo e.1.adr) h).getD i)

/-- The flat word memory that a history spells is the one a state holds. -/
structure HoldsFlat (h : History) (m : SparseMemory) : Prop where
  word_eq : ∀ w, m.word w = (initialWord h w).map (fun i => (latest (writtenTo w) h).getD i)
  pageIDs_iff : ∀ id, id ∈ m.pageIDs ↔
    ∃ e ∈ h, e.2.trans.responseStatus = .ok ∧ pageID e.1.adr = id

theorem errorResponse_ne_ok (trans : GenericPayload) (status : ResponseStatus)
    (h : errorResponse trans = some status) : status ≠ .ok := by
  simp only [errorResponse] at h
  intro hs
  rw [hs] at h
  split_ifs at h <;> simp at h

theorem step_rejected (m : SparseMemory) (c : Call) (status : ResponseStatus)
    (h : errorResponse c.trans = some status) :
    m.step c = .ok (⟨{ c.trans with responseStatus := status }, c.delay, []⟩, m) := by
  rw [step, b_transport, h]
  rfl

/-- An accepted call fetches its page, and then reads or writes one word of it. -/
theorem step_accepted (m : SparseMemory) (c : Call) (h : errorResponse c.trans = none)
    (hd : 4 ≤ c.trans.data.length) :
    ∃ r m', m.step c = .ok (r, m') ∧ r.trans.responseStatus = .ok ∧
      (c.trans.command = .read →
        r.trans.data = wordBytes (m.shown c.new c.adr) ++ c.trans.data.drop 4) ∧
      (∀ id, id ∈ m'.pageIDs ↔ id = pageID c.adr ∨ id ∈ m.pageIDs) ∧
      ∀ w, m'.word w = if c.trans.command = .write ∧ w = c.adr
        then (loadWord c.trans.data).toOption
        else if pageID w = pageID c.adr then some (m.shown c.new w) else m.word w := by
  have hids := m.fetch_pageIDs c.new c.adr
  have hword := m.fetch_word c.new c.adr
  cases hc : c.trans.command with
  | read =>
    have ht := m.transfer_read c.new c.adr c.trans hc hd
    refine ⟨⟨{ c.trans with
      data := wordBytes (m.shown c.new c.adr) ++ c.trans.data.drop 4, dmiAllowed := true, responseStatus := .ok },
      c.delay + 100, []⟩, (m.fetchMemoryPage c.new c.adr).2, ?_, rfl, fun _ => rfl, hids, ?_⟩
    · simp only [step, b_transport, h, Call.adr] at ht ⊢
      rw [ht]
      rfl
    · simpa using hword
  | write =>
    obtain ⟨v, hv, -⟩ := loadWord_ok c.trans.data hd
    obtain ⟨m', ht, hp, hw⟩ := m.transfer_write c.new c.adr c.trans hc v hv
    refine ⟨⟨{ c.trans with dmiAllowed := true, responseStatus := .ok }, c.delay + 100, []⟩, m',
      ?_, rfl, by simp, ?_, ?_⟩
    · simp only [step, b_transport, h, Call.adr] at ht ⊢
      rw [ht]
      rfl
    · intro id
      rw [hp, hids]
    · intro w
      rw [hw, hv, hword]
      simp only [true_and]
      rfl
  | ignore =>
    refine ⟨⟨{ c.trans with dmiAllowed := true, responseStatus := .ok }, c.delay + 100, []⟩,
      (m.fetchMemoryPage c.new c.adr).2, ?_, rfl, by simp, hids, ?_⟩
    · simp only [step, b_transport, h, transfer, hc]
      rfl
    · simpa using hword

/-- An accepted call changes the data, the DMI hint and the status of its payload only. -/
theorem step_answer (m m' : SparseMemory) (c : Call) (r : Transport)
    (h : errorResponse c.trans = none) (hs : m.step c = .ok (r, m')) :
    r = ⟨{ c.trans with data := r.trans.data, dmiAllowed := true, responseStatus := .ok },
      c.delay + 100, []⟩ := by
  simp only [step, b_transport, h, bind_eq_ok, Prod.exists] at hs
  obtain ⟨data, u, _, hr⟩ := hs
  rw [← (ok_inj hr).1]

/-- An accepted write is answered alike in every state. -/
theorem write_accepted (m : SparseMemory) (c : Call) (h : errorResponse c.trans = none)
    (hc : c.trans.command = .write) (hd : 4 ≤ c.trans.data.length) :
    ∃ m', m.step c = .ok (⟨{ c.trans with dmiAllowed := true, responseStatus := .ok },
      c.delay + 100, []⟩, m') := by
  obtain ⟨v, hv, -⟩ := loadWord_ok c.trans.data hd
  obtain ⟨m', ht, -⟩ := m.transfer_write c.new c.adr c.trans hc v hv
  refine ⟨m', ?_⟩
  simp only [step, b_transport, h, Call.adr] at ht ⊢
  rw [ht]
  rfl

/-- A transfer moves no page. -/
theorem transfer_index (m m' : SparseMemory) (page : Nat) (offset : Fin PAGESIZE)
    (trans : GenericPayload) (data : List UInt8)
    (h : m.transfer page offset trans = .ok (data, m')) :
    m'.m_writtenAddresses.index = m.m_writtenAddresses.index := by
  cases hc : trans.command with
  | read =>
    simp only [transfer, hc, bind_eq_ok] at h
    obtain ⟨w, _, data', _, hr⟩ := h
    rw [← (ok_inj hr).2]
  | write =>
    simp only [transfer, hc, storeWordAt, bind_eq_ok] at h
    obtain ⟨w, _, m₁, ⟨words, _, hs⟩, hr⟩ := h
    rw [← (ok_inj hr).2, ← Except.ok.inj hs]
    rfl
  | ignore =>
    simp only [transfer, hc] at h
    rw [← (ok_inj h).2]

/-- A call is rejected and changes nothing, or it is accepted and its page is there. -/
theorem step_cases (m m' : SparseMemory) (c : Call) (a : Transport)
    (h : m.step c = .ok (a, m')) :
    (errorResponse c.trans = some a.trans.responseStatus ∧ a.trans.responseStatus ≠ .ok ∧ m' = m) ∨
    (errorResponse c.trans = none ∧ a.trans.responseStatus = .ok ∧
      ∀ id, id ∈ m'.pageIDs ↔ id = pageID c.adr ∨ id ∈ m.pageIDs) := by
  cases he : errorResponse c.trans with
  | some status =>
    rw [m.step_rejected c status he] at h
    obtain ⟨rfl, rfl⟩ := ok_inj h
    exact Or.inl ⟨rfl, errorResponse_ne_ok c.trans status he, rfl⟩
  | none =>
    simp only [step, b_transport, he, bind_eq_ok, Prod.exists] at h
    obtain ⟨data, m₁, ht, hr⟩ := h
    obtain ⟨rfl, rfl⟩ := ok_inj hr
    refine Or.inr ⟨rfl, rfl, ?_⟩
    intro id
    rw [pageIDs, LazyHeap.keys, transfer_index _ _ _ _ _ _ ht]
    exact m.fetch_pageIDs c.new c.adr id

theorem pageIDs_length_le (m : SparseMemory) (n : Nat) (hn : ∀ id ∈ m.pageIDs, id.toNat < n) :
    m.pageIDs.length ≤ n :=
  m.m_writtenAddresses.keys_length_le UInt64.toNat (fun _ _ h => UInt64.toNat_inj.mp h) n hn

theorem step_total (m : SparseMemory) (c : Call) (hd : 4 ≤ c.trans.data.length) :
    ∃ r m', m.step c = .ok (r, m') := by
  cases hr : errorResponse c.trans with
  | some status => exact ⟨_, _, m.step_rejected c status hr⟩
  | none =>
    obtain ⟨r, u, hu, _⟩ := m.step_accepted c hr hd
    exact ⟨r, u, hu⟩

theorem writtenTo_none (w : UInt64) (h : History) (hi : initialWord h w = none) :
    latest (writtenTo w) h = none := by
  rw [latest_eq_none]
  intro e he
  have ha := List.findSome?_eq_none_iff.mp hi e he
  rw [allocatedFor] at ha
  rw [writtenTo, if_neg]
  intro hw
  rw [if_pos ⟨hw.1, by rw [hw.2.2]⟩] at ha
  simp at ha

theorem writtenTo_read (w : UInt64) (e : Call × Transport) (hc : e.1.trans.command = .read) :
    writtenTo w e = none := by
  apply if_neg
  intro hn
  rw [hc] at hn
  simp at hn

section Accepted

variable {ι : Type} (stored first : ι → Option UInt32) (h : List ι) (x : ι) (m : SparseMemory)
  (c : Call) (r : Transport) (w : UInt64)

/-- The words after an accepted call are those that a history spells with the call in it. -/
theorem word_accepted (hstored : stored x = writtenTo w (c, r)) (hfirst : first x = allocatedFor w (c, r))
    (hword : m.word w = lazyValue stored first h)
    (hlazy : h.findSome? first = none → latest stored h = none)
    (hok : r.trans.responseStatus = .ok) (hd : 4 ≤ c.trans.data.length) :
    (if c.trans.command = .write ∧ w = c.adr then (loadWord c.trans.data).toOption
      else if pageID w = pageID c.adr then some (m.shown c.new w) else m.word w) =
    lazyValue stored first (h ++ [x]) := by
  obtain ⟨v, hv, -⟩ := loadWord_ok c.trans.data hd
  have hw : stored x = if c.trans.command = .write ∧ w = c.adr then some v else none := by
    rw [hstored, writtenTo, hv]
    exact if_congr ⟨fun hn => ⟨hn.2.1, hn.2.2.symm⟩, fun hn => ⟨hok, hn.1, hn.2.symm⟩⟩ rfl rfl
  have hi : first x = if pageID w = pageID c.adr then some (initPage c.new (pageOffset w)) else none := by
    rw [hfirst, allocatedFor]
    exact if_congr ⟨fun hn => hn.2.symm, fun hn => ⟨hok, hn.symm⟩⟩ rfl rfl
  rw [lazyValue_concat stored first h x _ _ v _ hw hi (fun hn => by rw [hn.2]) hlazy, ← hword, hv]
  rfl

/-- What the page of an accepted call shows is the word that a history spells, the call included. -/
theorem shown_accepted (hstored : stored x = none) (hfirst : first x = allocatedFor w (c, r))
    (hword : m.word w = lazyValue stored first h)
    (hlazy : h.findSome? first = none → latest stored h = none)
    (hok : r.trans.responseStatus = .ok) (hp : pageID c.adr = pageID w) :
    ∃ i, (h ++ [x]).findSome? first = some i ∧ m.shown c.new w = (latest stored h).getD i := by
  rw [allocatedFor, if_pos ⟨hok, hp⟩] at hfirst
  have hvalue := lazyValue_initial stored first h x _ hfirst hstored hlazy
  rw [← hword] at hvalue
  obtain ⟨i, hi, hv⟩ := Option.map_eq_some_iff.mp hvalue
  rw [latest_concat_none stored h x hstored] at hv
  exact ⟨i, hi, hv.symm⟩

end Accepted

theorem holdsFlat_rejected (h : History) (m : SparseMemory) (e : Call × Transport)
    (hm : HoldsFlat h m) (hne : e.2.trans.responseStatus ≠ .ok) : HoldsFlat (h ++ [e]) m := by
  refine ⟨?_, ?_⟩
  · intro w
    rw [hm.word_eq w]
    exact (lazyValue_skip (writtenTo w) (allocatedFor w) h e (if_neg (fun hn => hne hn.1))
      (if_neg (fun hn => hne hn.1))).symm
  · intro id
    rw [hm.pageIDs_iff]
    simp [hne]

/-- One call keeps the state in step with the flat memory, and a read delivers its word. -/
theorem holdsFlat_step (h : History) (m m' : SparseMemory) (c : Call) (a : Transport)
    (hd : c.trans.data.length = 4) (hm : HoldsFlat h m) (hs : m.step c = .ok (a, m')) :
    HoldsFlat (h ++ [(c, a)]) m' ∧ ReadsLatest h (c, a) := by
  cases he : errorResponse c.trans with
  | some status =>
    have hne := errorResponse_ne_ok c.trans status he
    rw [m.step_rejected c status he] at hs
    obtain ⟨rfl, rfl⟩ := ok_inj hs
    exact ⟨holdsFlat_rejected h m (c, _) hm hne, fun hok => absurd hok hne⟩
  | none =>
    obtain ⟨r, u, hr, hok, hread, hids, hword⟩ := m.step_accepted c he (Nat.le_of_eq hd.symm)
    obtain ⟨rfl, rfl⟩ := ok_unique hs hr
    refine ⟨⟨?_, ?_⟩, ?_⟩
    · intro w
      rw [hword]
      exact word_accepted _ _ h (c, a) m c a w rfl rfl (hm.word_eq w) (writtenTo_none w h) hok
        (Nat.le_of_eq hd.symm)
    · intro id
      rw [hids, hm.pageIDs_iff]
      simp only [List.mem_append, List.mem_singleton]
      constructor
      · intro hor
        rcases hor with heq | hex
        · exact ⟨(c, a), Or.inr rfl, hok, heq.symm⟩
        · obtain ⟨e, hmem, hrest⟩ := hex
          exact ⟨e, Or.inl hmem, hrest⟩
      · intro hex
        obtain ⟨e, hmem | hmem, hoke, hide⟩ := hex
        · exact Or.inr ⟨e, hmem, hoke, hide⟩
        · rw [hmem] at hide
          exact Or.inl hide.symm
    · intro _ hc
      obtain ⟨i, hi, hshown⟩ := shown_accepted _ _ h (c, a) m c a c.adr
        (writtenTo_read c.adr (c, a) hc) rfl (hm.word_eq c.adr) (writtenTo_none c.adr h) hok rfl
      have hrest : c.trans.data.drop 4 = [] := List.drop_eq_nil_of_le (Nat.le_of_eq hd)
      exact ⟨i, hi, by rw [hread hc, hshown, hrest, List.append_nil]⟩

theorem holdsFlat_construct : HoldsFlat [] construct := by
  refine ⟨?_, ?_⟩
  · intro w
    rfl
  · intro id
    simp [pageIDs, construct, LazyHeap.empty, LazyHeap.keys]

/-- What a run of calls on a fresh memory owes to the flat word memory. -/
structure RefinesFlat (calls : List Call) (answers : List Transport) (m : SparseMemory) : Prop where
  reads_latest : EveryStep ReadsLatest (calls.zip answers)
  rejected_inert : ∀ before c after, calls = before ++ c :: after →
    ∃ as₁ a as₂ u v, answers = as₁ ++ a :: as₂ ∧ run step construct before = .ok (as₁, u) ∧
      u.step c = .ok (a, v) ∧
      (a.trans.isResponseError = true → v = u ∧ a.trans.data = c.trans.data ∧ a.delay = c.delay ∧
        run step construct (before ++ after) = .ok (as₁ ++ as₂, m))
  pageIDs_iff : ∀ id, id ∈ m.pageIDs ↔
    ∃ e ∈ calls.zip answers, e.2.trans.responseStatus = .ok ∧ pageID e.1.adr = id

theorem step_error_inert (m m' : SparseMemory) (c : Call) (a : Transport)
    (hd : c.trans.data.length = 4) (hs : m.step c = .ok (a, m'))
    (he : a.trans.isResponseError = true) :
    m' = m ∧ a.trans.data = c.trans.data ∧ a.delay = c.delay := by
  cases hr : errorResponse c.trans with
  | some status =>
    rw [m.step_rejected c status hr] at hs
    obtain ⟨rfl, rfl⟩ := ok_inj hs
    exact ⟨rfl, rfl, rfl⟩
  | none =>
    obtain ⟨r, u, hu, hok, _⟩ := m.step_accepted c hr (Nat.le_of_eq hd.symm)
    obtain ⟨rfl, rfl⟩ := ok_unique hs hu
    simp [GenericPayload.isResponseError, hok] at he

/-- The memory refines a flat word memory: every run of calls with a 4-byte buffer is
answered, its reads deliver the latest words, and its rejected calls might as well not be there. -/
theorem run_refinesFlat (calls : List Call) (hd : ∀ c ∈ calls, c.trans.data.length = 4) :
    ∃ answers m, run step construct calls = .ok (answers, m) ∧ RefinesFlat calls answers m := by
  obtain ⟨answers, m, hrun⟩ := run_total step calls
    (fun c hc m => m.step_total c (Nat.le_of_eq (hd c hc).symm)) construct
  obtain ⟨hflat, hreads⟩ := run_everyStep step HoldsFlat ReadsLatest construct m calls answers
    (fun c hc h u a u' hm hs => holdsFlat_step h u u' c a (hd c hc) hm hs) holdsFlat_construct hrun
  refine ⟨answers, m, hrun, hreads, ?_, hflat.pageIDs_iff⟩
  intro before c after hcalls
  have hrun' := hrun
  rw [hcalls, run_append_ok] at hrun'
  obtain ⟨as₁, u, os, h₁, h₂, hos⟩ := hrun'
  obtain ⟨a, v, as₂, hs, h₃, rfl⟩ := (run_cons_ok step u m c after os).mp h₂
  refine ⟨as₁, a, as₂, u, v, hos, h₁, hs, ?_⟩
  intro he
  obtain ⟨hvu, hdata, hdelay⟩ := u.step_error_inert v c a (hd c (by simp [hcalls])) hs he
  rw [hvu] at h₃
  exact ⟨hvu, hdata, hdelay, (run_append_ok step construct m before after _).mpr
    ⟨as₁, u, as₂, h₁, h₃, rfl⟩⟩

/-- Two writes and a read of one word, with a rejected write in between. -/
theorem run_refinesFlat_rejected :
    let call (command : Command) (address : UInt64) (data : List UInt8) : Call :=
      ⟨⟨command, address, data, 4, none, 4, false, .incomplete⟩, 0, fun _ => 7⟩
    let calls := [call .write 0x1000 [1, 0, 0, 0], call .write 0x400000 [9, 0, 0, 0],
      call .write 0x1002 [2, 0, 0, 0], call .read 0x1000 [0, 0, 0, 0]]
    ∃ answers m, run step construct calls = .ok (answers, m) ∧ RefinesFlat calls answers m :=
  run_refinesFlat _ (by simp)

end SparseMemory

end FreeSampler
