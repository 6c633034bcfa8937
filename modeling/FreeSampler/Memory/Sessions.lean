import FreeSampler.Memory.DirectMemory
import FreeSampler.Memory.SparseRuns

namespace FreeSampler

open Framework Tlm

namespace SparseMemory

/-- A direct access that was granted: the address asked for, and the pointer handed out. -/
structure Grant where
  address : UInt64
  dmiPtr : Nat
  deriving DecidableEq, Repr

def Grant.pageID (grant : Grant) : UInt64 := SparseMemory.pageID (grant.address / 4)

/-- The word address of the `k`-th word behind a granted pointer. -/
def Grant.wordAddress (grant : Grant) (k : Fin PAGESIZE) : UInt64 :=
  grant.pageID * 1024 + UInt64.ofNat k.val

/-- A memory, and the direct accesses that its initiator holds, oldest first. -/
structure Session where
  memory : SparseMemory
  grants : List Grant

/-- What an initiator can do: a transport call, a request for direct access, and a store of a
word through the pointer of its `grant`-th grant. -/
inductive Event where
  | transport (call : Call)
  | direct (request : GenericPayload) (new : Page)
  | store (grant : Nat) (k : Fin PAGESIZE) (v : UInt32)

inductive Reply where
  | transport (r : Transport)
  | granted (dmi_data : Dmi)
  | stored (grant : Grant)

namespace Session

def start : Session := ⟨construct, []⟩

def step (s : Session) : Event → Except Fault (Reply × Session)
  | .transport call => do
    let (r, m) ← s.memory.step call
    return (.transport r, { s with memory := m })
  | .direct request new =>
    let ((_, dmi_data), m) := s.memory.get_direct_mem_ptr new request
    return (.granted dmi_data, ⟨m, s.grants ++ [⟨request.address, dmi_data.dmiPtr⟩]⟩)
  | .store i k v => do
    let grant ← elementAt s.grants i
    let m ← s.memory.storeWordAt grant.dmiPtr k v
    return (.stored grant, { s with memory := m })

end Session

/-- What an initiator that holds `n` grants may do: a transport call brings a buffer of at least
four bytes along, and a store goes through a pointer that was granted before. -/
def Event.Admitted (n : Nat) : Event → Prop
  | .transport call => 4 ≤ call.trans.data.length
  | .direct _ _ => True
  | .store i _ _ => i < n

def Event.grants : Event → Nat
  | .direct _ _ => 1
  | _ => 0

/-- Any interleaving of transport calls, requests and stores through granted pointers. -/
def Admissible : Nat → List Event → Prop
  | _, [] => True
  | n, e :: events => e.Admitted n ∧ Admissible (n + e.grants) events

/-- The word that an event stores at a word address, by either path. -/
def storedTo (w : UInt64) : Event × Reply → Option UInt32
  | (.transport call, .transport r) => writtenTo w (call, r)
  | (.store _ k v, .stored grant) => if grant.wordAddress k = w then some v else none
  | _ => none

/-- The initial word at a word address in the page that an event would allocate. -/
def touchedFor (w : UInt64) : Event × Reply → Option UInt32
  | (.transport call, .transport r) => allocatedFor w (call, r)
  | (.direct request new, .granted _) =>
    if pageID (request.address / 4) = pageID w then some (initPage new (pageOffset w)) else none
  | _ => none

/-- An accepted read delivers the word stored last to its word address, by either path, or the
initial word of its page. -/
def ReadsStored (h : List (Event × Reply)) : Event × Reply → Prop
  | (.transport call, .transport r) =>
    r.trans.responseStatus = .ok → call.trans.command = .read →
      ∃ i, (h ++ [(Event.transport call, Reply.transport r)]).findSome? (touchedFor call.adr) = some i ∧
        r.trans.data = wordBytes ((latest (storedTo call.adr) h).getD i) ++ call.trans.data.drop 4
  | _ => True

/-- What a session owes to its history. -/
structure HoldsStored (h : List (Event × Reply)) (s : Session) : Prop where
  word_eq : ∀ w, s.memory.word w = lazyValue (storedTo w) (touchedFor w) h
  unstored : ∀ w, h.findSome? (touchedFor w) = none → latest (storedTo w) h = none
  grants_eq : ∀ grant ∈ s.grants,
    s.memory.m_writtenAddresses.find grant.pageID = some grant.dmiPtr

theorem wordAddress_toNat (grant : Grant) (k : Fin PAGESIZE) :
    (grant.wordAddress k).toNat = grant.pageID.toNat * 1024 + k.val := by
  have ha := grant.address.toNat_lt
  have hk : k.val < 1024 := k.isLt
  simp only [Grant.wordAddress, Grant.pageID, pageID, UInt64.toNat_add, UInt64.toNat_mul,
    UInt64.toNat_div, UInt64.toNat_ofNat', UInt64.reduceToNat]
  omega

theorem wordAddress_eq_iff (grant : Grant) (k : Fin PAGESIZE) (w : UInt64) :
    grant.wordAddress k = w ↔ pageID w = grant.pageID ∧ pageOffset w = k := by
  have hk : k.val < 1024 := k.isLt
  rw [← UInt64.toNat_inj, wordAddress_toNat, ← UInt64.toNat_inj, Fin.ext_iff]
  simp only [SparseMemory.pageID, pageOffset, UInt64.toNat_div, UInt64.reduceToNat]
  omega

theorem storeWordAt_word (m : SparseMemory) (id : UInt64) (page : Nat) (k : Fin PAGESIZE)
    (v : UInt32) (hf : m.m_writtenAddresses.find id = some page) :
    ∃ m', m.storeWordAt page k v = .ok m' ∧
      (∀ id', m'.m_writtenAddresses.find id' = m.m_writtenAddresses.find id') ∧
      ∀ w, m'.word w = if pageID w = id ∧ pageOffset w = k then some v else m.word w := by
  have hlt := m.m_writtenAddresses.find_lt id page hf
  have hat := elementAt_get m.m_writtenAddresses.cells page hlt
  have hstore : m.storeWordAt page k v = .ok ⟨m.m_writtenAddresses.set page
      (Function.update m.m_writtenAddresses.cells[page] k v)⟩ := by
    rw [storeWordAt, hat]
    rfl
  refine ⟨_, hstore, fun id' => rfl, ?_⟩
  intro w
  rw [word, LazyHeap.contents_set _ _ _ _ _ hf]
  by_cases hid : pageID w = id
  · rw [if_pos hid, Option.map_some]
    by_cases hk : pageOffset w = k
    · rw [if_pos ⟨hid, hk⟩, hk, Function.update_self]
    · rw [if_neg (fun hn => hk hn.2), Function.update_of_ne hk, word, hid, LazyHeap.contents, hf,
        Option.bind_some, List.getElem?_eq_getElem hlt]
      rfl
  · rw [if_neg hid, if_neg (fun hn => hid hn.1), word]

theorem transfer_find (m m' : SparseMemory) (page : Nat) (offset : Fin PAGESIZE)
    (request : GenericPayload) (data : List UInt8)
    (h : m.transfer page offset request = .ok (data, m')) (id : UInt64) :
    m'.m_writtenAddresses.find id = m.m_writtenAddresses.find id := by
  rw [LazyHeap.find, LazyHeap.find, transfer_index m m' page offset request data h]

theorem step_find (m m' : SparseMemory) (call : Call) (r : Transport)
    (h : m.step call = .ok (r, m')) (id : UInt64) (page : Nat)
    (hf : m.m_writtenAddresses.find id = some page) :
    m'.m_writtenAddresses.find id = some page := by
  rw [step, b_transport] at h
  cases he : errorResponse call.trans with
  | some status =>
    rw [he] at h
    rw [← (ok_inj h).2]
    exact hf
  | none =>
    simp only [he, bind_eq_ok, Prod.exists] at h
    obtain ⟨data, m₁, ht, hr⟩ := h
    rw [← (ok_inj hr).2, transfer_find _ _ _ _ _ _ ht]
    exact m.m_writtenAddresses.find_fetch_keeps _ id _ page hf

section Step

variable (h : List (Event × Reply)) (s : Session) (hm : HoldsStored h s)

include hm

theorem word_skip (e : Event × Reply) (w : UInt64) (hw : storedTo w e = none)
    (ht : touchedFor w e = none) :
    s.memory.word w = lazyValue (storedTo w) (touchedFor w) (h ++ [e]) := by
  rw [lazyValue_skip _ _ h e ht hw]
  exact hm.word_eq w

/-- A word is stored only after its page was touched. -/
theorem unstored_concat (e : Event × Reply) (w : UInt64)
    (he : (h ++ [e]).findSome? (touchedFor w) = none → storedTo w e = none)
    (hn : (h ++ [e]).findSome? (touchedFor w) = none) :
    latest (storedTo w) (h ++ [e]) = none := by
  rw [latest_concat_none _ h e (he hn)]
  apply hm.unstored w
  rw [findSome?_concat, Option.or_eq_none_iff] at hn
  exact hn.1

theorem shown_touched (new : Page) (e : Event × Reply) (w : UInt64)
    (ht : touchedFor w e = some (initPage new (pageOffset w))) (hw : storedTo w e = none) :
    some (s.memory.shown new w) = lazyValue (storedTo w) (touchedFor w) (h ++ [e]) := by
  rw [lazyValue_initial _ _ h e _ ht hw (hm.unstored w), ← hm.word_eq w, shown]

/-- A transport call keeps the session in step with its history, and a read delivers its word. -/
theorem holdsStored_transport (call : Call) (r : Transport) (m' : SparseMemory)
    (hd : 4 ≤ call.trans.data.length) (hs : s.memory.step call = .ok (r, m')) :
    HoldsStored (h ++ [(.transport call, .transport r)]) { s with memory := m' } ∧
      ReadsStored h (.transport call, .transport r) := by
  have hgrants (grant : Grant) (hg : grant ∈ s.grants) :
      m'.m_writtenAddresses.find grant.pageID = some grant.dmiPtr :=
    s.memory.step_find m' call r hs _ _ (hm.grants_eq grant hg)
  have hunstored (w : UInt64) := unstored_concat h s hm (.transport call, .transport r) w (by
    intro hn
    rw [findSome?_concat, Option.or_eq_none_iff] at hn
    have ha : ¬ (r.trans.responseStatus = .ok ∧ pageID call.adr = pageID w) := by
      intro hp
      simp [touchedFor, allocatedFor, hp] at hn
    exact if_neg (fun hw => ha ⟨hw.1, by rw [hw.2.2]⟩))
  cases he : errorResponse call.trans with
  | some status =>
    have hne := errorResponse_ne_ok call.trans status he
    rw [s.memory.step_rejected call status he] at hs
    obtain ⟨rfl, rfl⟩ := ok_inj hs
    refine ⟨⟨?_, hunstored, hgrants⟩, fun hok => absurd hok hne⟩
    intro w
    exact word_skip h s hm _ w (if_neg (fun hn => hne hn.1)) (if_neg (fun hn => hne hn.1))
  | none =>
    obtain ⟨r', u, hr, hok, hread, _, hword⟩ := s.memory.step_accepted call he hd
    obtain ⟨rfl, rfl⟩ := ok_unique hs hr
    refine ⟨⟨?_, hunstored, hgrants⟩, ?_⟩
    · intro w
      rw [← word_accepted _ _ h (.transport call, .transport r) s.memory call r w rfl rfl
        (hm.word_eq w) (hm.unstored w) hok hd]
      exact hword w
    · intro _ hc
      obtain ⟨i, hi, hshown⟩ := shown_accepted _ _ h (.transport call, .transport r) s.memory call r
        call.adr (writtenTo_read call.adr (call, r) hc) rfl (hm.word_eq call.adr)
        (hm.unstored call.adr) hok rfl
      exact ⟨i, hi, by rw [hread hc, hshown]⟩

/-- A request for direct access hands out the page of its address, and keeps all others. -/
theorem holdsStored_direct (request : GenericPayload) (new : Page) :
    HoldsStored (h ++ [(.direct request new,
        .granted (s.memory.get_direct_mem_ptr new request).1.2)])
      ⟨(s.memory.get_direct_mem_ptr new request).2, s.grants ++
        [⟨request.address, (s.memory.get_direct_mem_ptr new request).1.2.dmiPtr⟩]⟩ := by
  refine ⟨?_, ?_, ?_⟩
  · intro w
    show (s.memory.fetchMemoryPage new (request.address / 4)).2.word w = _
    rw [fetch_word]
    by_cases hp : pageID w = pageID (request.address / 4)
    · rw [if_pos hp]
      exact shown_touched h s hm new _ w (if_pos hp.symm) rfl
    · rw [if_neg hp]
      exact word_skip h s hm _ w rfl (if_neg (Ne.symm hp))
  · intro w
    exact unstored_concat h s hm _ w (fun _ => rfl)
  · intro grant hg
    rcases List.mem_append.mp hg with hg | hg
    · exact s.memory.m_writtenAddresses.find_fetch_keeps _ _ _ _ (hm.grants_eq grant hg)
    · rw [List.mem_singleton.mp hg]
      exact dmiPtr_eq s.memory new request

/-- A store through a granted pointer changes the word behind it and no other. -/
theorem holdsStored_store (i : Nat) (k : Fin PAGESIZE) (v : UInt32) (grant : Grant)
    (hg : s.grants[i]? = some grant) :
    ∃ m', s.memory.storeWordAt grant.dmiPtr k v = .ok m' ∧
      HoldsStored (h ++ [(.store i k v, .stored grant)]) { s with memory := m' } := by
  have hfind := hm.grants_eq grant (List.mem_of_getElem? hg)
  obtain ⟨m', hs, hkeep, hword⟩ := s.memory.storeWordAt_word grant.pageID grant.dmiPtr k v hfind
  have hfirst (w : UInt64) (hw : grant.wordAddress k = w) : h.findSome? (touchedFor w) ≠ none := by
    intro hn
    have hp := ((wordAddress_eq_iff grant k w).mp hw).1
    have hnone := hm.word_eq w
    rw [lazyValue, hn, Option.map_none, word, Option.map_eq_none_iff,
      LazyHeap.contents_eq_none, hp, hfind] at hnone
    simp at hnone
  refine ⟨m', hs, ?_, ?_, ?_⟩
  · intro w
    show m'.word w = _
    rw [hword]
    by_cases hw : grant.wordAddress k = w
    · rw [if_pos ((wordAddress_eq_iff grant k w).mp hw), lazyValue_write _ _ h _ v (if_pos hw)]
      rw [findSome?_concat]
      intro hn
      exact hfirst w hw (Option.or_eq_none_iff.mp hn).1
    · rw [if_neg (fun hn => hw ((wordAddress_eq_iff grant k w).mpr hn))]
      exact word_skip h s hm _ w (if_neg hw) rfl
  · intro w
    apply unstored_concat h s hm
    intro hn
    apply if_neg
    intro hw
    rw [findSome?_concat, Option.or_eq_none_iff] at hn
    exact hfirst w hw hn.1
  · intro grant' hg'
    rw [hkeep]
    exact hm.grants_eq grant' hg'

/-- One admitted event is answered, and keeps the session in step with its history. -/
theorem holdsStored_step (e : Event) (ha : e.Admitted s.grants.length) :
    ∃ reply s', s.step e = .ok (reply, s') ∧ s'.grants.length = s.grants.length + e.grants ∧
      HoldsStored (h ++ [(e, reply)]) s' ∧ ReadsStored h (e, reply) := by
  cases e with
  | transport call =>
    obtain ⟨r, m', hs⟩ := s.memory.step_total call ha
    refine ⟨.transport r, { s with memory := m' }, ?_, rfl, holdsStored_transport h s hm call r m' ha hs⟩
    rw [Session.step, hs]
    rfl
  | direct request new =>
    exact ⟨_, _, rfl, List.length_append, holdsStored_direct h s hm request new, trivial⟩
  | store i k v =>
    obtain ⟨m', hs, hnext⟩ :=
      holdsStored_store h s hm i k v _ (List.getElem?_eq_getElem (ha : i < s.grants.length))
    refine ⟨.stored s.grants[i], { s with memory := m' }, ?_, rfl, hnext, trivial⟩
    simp only [Session.step, elementAt_get s.grants i ha, ok_bind, hs]
    rfl

end Step

/-- Every interleaving is answered, and what a session owes to its history holds throughout. -/
theorem run_holdsStored (h : List (Event × Reply)) (s : Session) (hm : HoldsStored h s)
    (events : List Event) (ha : Admissible s.grants.length events) :
    ∃ replies s', run Session.step s events = .ok (replies, s') ∧
      HoldsStored (h ++ events.zip replies) s' ∧
      ∀ before x after, events.zip replies = before ++ x :: after → ReadsStored (h ++ before) x := by
  induction events generalizing h s with
  | nil => exact ⟨[], s, rfl, by simpa using hm, by simp⟩
  | cons e events ih =>
    obtain ⟨reply, u, hs, hlen, hu, hread⟩ := holdsStored_step h s hm e ha.1
    obtain ⟨replies, s', hr, hend, hreads⟩ := ih _ u hu (by rw [hlen]; exact ha.2)
    refine ⟨reply :: replies, s', (run_cons_ok _ _ _ _ _ _).mpr ⟨reply, u, replies, hs, hr, rfl⟩,
      by simpa using hend, ?_⟩
    intro before x after hsplit
    cases before with
    | nil =>
      rw [List.zip_cons_cons, List.nil_append] at hsplit
      rw [← (List.cons.inj hsplit).1, List.append_nil]
      exact hread
    | cons y before =>
      rw [List.zip_cons_cons, List.cons_append] at hsplit
      obtain ⟨rfl, hrest⟩ := List.cons.inj hsplit
      simpa using hreads before x after hrest

theorem holdsStored_start : HoldsStored [] Session.start := by
  refine ⟨?_, ?_, ?_⟩
  · intro w
    rfl
  · intro w _
    rfl
  · intro grant hg
    simp [Session.start] at hg

/-- What a run of events on a fresh memory owes to coherence. -/
structure Coherent (events : List Event) (replies : List Reply) (s : Session) : Prop where
  reads_stored : EveryStep ReadsStored (events.zip replies)
  never_stale : ∀ grant ∈ s.grants, ∀ new adr, pageID adr = grant.pageID →
    (s.memory.fetchMemoryPage new adr).1 = grant.dmiPtr
  unshared : ∀ id id' page, s.memory.m_writtenAddresses.find id = some page →
    s.memory.m_writtenAddresses.find id' = some page → id = id'

/-- The two paths stay coherent in every interleaving: each read delivers the word stored last
by either of them, and every granted pointer keeps pointing to the page of its address alone. -/
theorem run_coherent (events : List Event) (ha : Admissible 0 events) :
    ∃ replies s, run Session.step Session.start events = .ok (replies, s) ∧
      Coherent events replies s := by
  obtain ⟨replies, s, hr, hend, hreads⟩ := run_holdsStored [] Session.start holdsStored_start events ha
  refine ⟨replies, s, hr, hreads, ?_, ?_⟩
  · intro grant hg new adr hp
    have hf := hend.grants_eq grant hg
    rw [fetchMemoryPage, hp, s.memory.m_writtenAddresses.fetch_present _ _ _ hf]
  · intro id id' page hid hid'
    exact s.memory.m_writtenAddresses.find_inj id id' page hid hid'

/-- A word written by a call, then through a grant for its page, and read back. -/
theorem run_coherent_two_paths :
    let call (command : Command) (data : List UInt8) : Call :=
      ⟨⟨command, 0x1004, data, 4, none, 4, false, .incomplete⟩, 0, fun _ => 7⟩
    let events : List Event := [.transport (call .write [1, 0, 0, 0]),
      .direct { GenericPayload.new with address := 0x1ffc } (fun _ => 8),
      .store 0 ⟨1, by decide⟩ 5, .transport (call .read [0, 0, 0, 0])]
    ∃ replies s, run Session.step Session.start events = .ok (replies, s) ∧
      Coherent events replies s :=
  run_coherent _ (by simp [Admissible, Event.Admitted, Event.grants])

end SparseMemory

end FreeSampler
