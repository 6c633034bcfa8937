import FreeSampler.FakeCache.FakeCache
import FreeSampler.Memory.InitialImage
import FreeSampler.Tlm.WordMemory

namespace FreeSampler

open Framework Tlm

namespace SimplestMemory

/-- The array holds the words that are known. -/
structure HoldsWords (s : SimplestMemory) (m : WordMemory) : Prop where
  size_le : m.size ≤ s.p_PAGESIZE
  line_le : 1 ≤ s.p_LINESIZE
  word_eq : ∀ w v, m.known w = some v → s.m_mem[w.toNat]? = some v

theorem check_movesWord (s : SimplestMemory) (m : WordMemory) (h : HoldsWords s m)
    (trans : GenericPayload) (hm : MovesWord m.size trans) : s.check trans = [] := by
  have hlt := hm.inside
  have hsize := h.size_le
  have hline := h.line_le
  have hlen : trans.dataLength.toNat = 4 := by rw [hm.dataLength_eq]; rfl
  rw [GenericPayload.word] at hlt
  refine (s.check_eq_nil trans).mpr ⟨by omega, hm.byteEnablePtr_eq, by omega, ?_⟩
  rw [hm.dataLength_eq]
  exact hm.streamingWidth_le

/-- A store of four bytes at a word is a store of the word that they spell. -/
theorem store_word (s s' : SimplestMemory) (w : Nat) (ptr : List UInt8) (v : UInt32)
    (hv : loadWord ptr = .ok v) (h : s.store w ptr 4 = .ok s') (hw : w < s.p_PAGESIZE) :
    s'.m_mem[w]? = some v := by
  obtain ⟨hp, -, hcopy⟩ := s.store_ok s' w ptr 4 h
  have hd := loadWord_inside ptr v hv
  obtain ⟨v', hv', hbytes⟩ := loadWord_ok ptr hd
  obtain rfl := Except.ok.inj (hv.symm.trans hv')
  have hlt : w < s'.m_mem.length := by rw [s'.size_eq, hp]; exact hw
  have hget := List.getElem?_eq_getElem hlt
  rw [hget]
  apply congrArg some
  apply wordBytes_inj
  rw [← toBytes_word s'.m_mem w _ hget, hbytes]
  apply List.ext_getElem?
  intro j
  by_cases hj : j < 4
  · rw [List.getElem?_take_of_lt hj, List.getElem?_take_of_lt hj, List.getElem?_drop]
    show s'.bytes[4 * w + j]? = ptr[j]?
    rw [memcpy_getElem? _ _ _ _ _ _ hcopy, if_pos (by omega)]
    congr 1
    omega
  · rw [List.getElem?_take_eq_none (by omega), List.getElem?_take_eq_none (by omega)]

/-- The copy that a word transfer makes, and the words after it. -/
theorem access_word (s : SimplestMemory) (m m' : WordMemory) (h : HoldsWords s m)
    (c : Transaction) (data : List UInt8) (hs : m.step c = .ok (data, m')) :
    ∃ s', s.access c.trans = .ok (data, s') ∧ s.check c.trans = [] ∧ HoldsWords s' m' := by
  have hsize := h.size_le
  cases hc : c.trans.command with
  | read =>
    obtain ⟨hm, v, hv, rfl, rfl⟩ := (m.step_read m' c data hc).mp hs
    obtain ⟨r, hr, -, hdata⟩ := s.read_word c.trans c.delay c.trans.word v
      ⟨hc, rfl, hm.dataLength_eq, hm.byteEnablePtr_eq, hm.streamingWidth_le, hm.data_le⟩
      (h.word_eq _ v hv)
    obtain ⟨data, ha, rfl⟩ := (s.b_transport_ok s c.trans c.delay r).mp hr
    obtain rfl : data = wordBytes v ++ c.trans.data.drop 4 := hdata
    exact ⟨s, ha, check_movesWord s m' h c.trans hm, h⟩
  | write =>
    obtain ⟨hm, v, hv, rfl, rfl⟩ := (m.step_write m' c data hc).mp hs
    have hlen : c.trans.dataLength.toNat = 4 := by rw [hm.dataLength_eq]; rfl
    have hin := hm.inside
    obtain ⟨s', hstore⟩ := s.store_inside c.trans.word.toNat c.trans.data 4 hm.data_le (by omega)
    obtain ⟨hp, hl, -⟩ := s.store_ok s' _ _ _ hstore
    refine ⟨s', (s.access_write s' c.trans _ hc).mpr ⟨rfl, by rw [hlen]; exact hstore⟩,
      check_movesWord s m h c.trans hm, by rw [hp]; exact hsize, by rw [hl]; exact h.line_le, ?_⟩
    intro x y hx
    rw [WordMemory.store_known] at hx
    split_ifs at hx with heq
    · rw [heq, ← Option.some.inj hx]
      exact store_word s s' _ _ v hv hstore (by omega)
    · have hne : x.toNat ≠ c.trans.word.toNat := fun hn => heq (UInt64.toNat_inj.mp hn)
      rw [s.store_keepsWord s' _ _ _ x.toNat hstore (by omega)]
      exact h.word_eq x y hx
  | ignore => simp [m.step_ignore c hc] at hs

theorem serves : SimplestMemory.target.Serves HoldsWords := by
  intro s m c data m' h hs
  obtain ⟨s', ha, hcheck, hnext⟩ := s.access_word m m' h c data hs
  refine ⟨_, s', (s.b_transport_ok s' c.trans c.delay _).mpr ⟨data, ha, rfl⟩, ?_, hnext⟩
  exact ⟨⟨c.trans.dmiAllowed, rfl⟩, rfl, hcheck⟩

end SimplestMemory

theorem FakeCache.serves (sc_time_stamp : String) : (FakeCache.target sc_time_stamp).Serves
    (fun c m => SimplestMemory.HoldsWords c.memory m) := by
  intro s m c data m' h hs
  obtain ⟨memory, ha, hcheck, hnext⟩ := s.memory.access_word m m' h c data hs
  refine ⟨_, ⟨memory⟩, (s.b_transport_ok ⟨memory⟩ ⟨c, sc_time_stamp⟩ _).mpr ⟨data, ha, rfl⟩, ?_,
    hnext⟩
  exact ⟨⟨c.trans.dmiAllowed, rfl⟩, rfl, s.raised_nil c.trans hcheck⟩

namespace SparseMemory

/-- The pages show the words that are known, allocated or not. -/
structure HoldsWords (s : SparseMemory) (m : WordMemory) : Prop where
  size_le : m.size ≤ MAXSIZEMEM.toNat
  word_eq : ∀ w v, m.known w = some v → ∀ new, s.shown new w = v

theorem errorResponse_movesWord (m : WordMemory) (hsize : m.size ≤ MAXSIZEMEM.toNat)
    (trans : GenericPayload) (hm : MovesWord m.size trans) : errorResponse trans = none := by
  have hadr : ¬ MAXSIZEMEM ≤ trans.address / 4 := by
    have hin : (trans.address / 4).toNat < m.size := hm.inside
    rw [UInt64.le_iff_toNat_le]
    omega
  have hwidth : ¬ trans.streamingWidth < 4 := UInt32.not_lt.mpr hm.streamingWidth_le
  simp [errorResponse, hm.dataLength_eq, hm.byteEnablePtr_eq, hadr, hwidth]

/-- A known word stays shown when the page of a call is allocated and the word is not stored to. -/
theorem shown_kept (s s' : SparseMemory) (c : Call) (w : UInt64) (v : UInt32)
    (hv : ∀ new, s.shown new w = v)
    (hw : s'.word w = if pageID w = pageID c.adr then some (s.shown c.new w) else s.word w)
    (new : Page) : s'.shown new w = v := by
  rw [shown, hw]
  split_ifs
  · rw [Option.getD_some]
    exact hv c.new
  · exact hv new

theorem serves (allocated : Nat → Page) : (targetOver allocated).Serves HoldsWords := by
  intro s m c data m' h hs
  let call : Call := ⟨c.trans, c.delay, allocated s.pageIDs.length⟩
  cases hc : c.trans.command with
  | read =>
    obtain ⟨hm, v, hv, rfl, rfl⟩ := (m.step_read m' c data hc).mp hs
    have he := errorResponse_movesWord m' h.size_le c.trans hm
    obtain ⟨r, s', hr, _, hread, _, hword⟩ := s.step_accepted call he hm.data_le
    have hanswer := s.step_answer s' call r he hr
    have hshown : s.shown call.new call.adr = v := h.word_eq _ v hv call.new
    rw [hread hc, hshown] at hanswer
    refine ⟨r, s', hr, ?_, h.size_le, ?_⟩
    · rw [hanswer]
      exact ⟨⟨true, rfl⟩, rfl, rfl⟩
    · intro x y hx new
      have hx' := hword x
      rw [if_neg (fun hn => by simp [call, hc] at hn)] at hx'
      exact shown_kept s s' call x y (h.word_eq x y hx) hx' new
  | write =>
    obtain ⟨hm, v, hv, rfl, rfl⟩ := (m.step_write m' c data hc).mp hs
    have he := errorResponse_movesWord m h.size_le c.trans hm
    obtain ⟨s', hr⟩ := s.write_accepted call he hc hm.data_le
    obtain ⟨r', s'', hr', _, _, _, hword⟩ := s.step_accepted call he hm.data_le
    obtain ⟨-, rfl⟩ := ok_unique hr' hr
    refine ⟨_, s'', hr, ⟨⟨true, rfl⟩, rfl, rfl⟩, h.size_le, ?_⟩
    intro x y hx new
    have hx' := hword x
    rw [WordMemory.store_known] at hx
    split_ifs at hx with heq
    · rw [if_pos ⟨hc, heq⟩] at hx'
      have hload : loadWord call.trans.data = .ok v := hv
      rw [shown, hx', hload, ← Option.some.inj hx]
      rfl
    · rw [if_neg (fun hn => heq hn.2)] at hx'
      exact shown_kept s s'' call x y (h.word_eq x y hx) hx' new
  | ignore => simp [m.step_ignore c hc] at hs

end SparseMemory

/-- The words that the constructors of all memories initialize, in an array of `n` words. -/
def initialMemory (n : Nat) : WordMemory where
  size := n
  known := fun w => if w.toNat < n ∧ Initialized n w.toNat ∧
    Initialized SparseMemory.PAGESIZE (w.toNat % SparseMemory.PAGESIZE)
    then some (imageWord w) else none

theorem SimplestMemory.holdsWords_construct (n LINESIZE : Nat) (hline : 1 ≤ LINESIZE)
    (garbage : List UInt32) (h : Allocated n LINESIZE garbage) :
    HoldsWords (construct n LINESIZE garbage h) (initialMemory n) := by
  refine ⟨Nat.le_refl n, hline, ?_⟩
  intro w v hv
  simp only [initialMemory] at hv
  split_ifs at hv with hw
  rw [← Option.some.inj hv]
  exact initialWords_initialized n garbage h.length_eq w.toNat hw.1 hw.2.1

theorem SparseMemory.holdsWords_construct (n : Nat) (hn : n ≤ MAXSIZEMEM.toNat) :
    HoldsWords SparseMemory.construct (initialMemory n) := by
  refine ⟨hn, ?_⟩
  intro w v hv new
  simp only [initialMemory] at hv
  split_ifs at hv with hw
  have hempty : SparseMemory.construct.word w = none := rfl
  rw [shown, hempty, Option.getD_none, ← Option.some.inj hv]
  exact initPage_initialized new w hw.2.2

/-- One memory is as good as another: whatever words a run of calls moves, if it reads those that
were initialized or written before, then the array, the demonstration cache in front of the array
and the pages give the same replies, those of the abstract word memory. -/
theorem memories_interchangeable (n LINESIZE : Nat) (hn : n ≤ SparseMemory.MAXSIZEMEM.toNat)
    (hline : 1 ≤ LINESIZE) (garbage : List UInt32)
    (hg : SimplestMemory.Allocated n LINESIZE garbage) (sc_time_stamp : String)
    (allocated : Nat → SparseMemory.Page) (calls : List Transaction)
    (replies : List WordReply) (m : WordMemory)
    (h : run WordMemory.promised (initialMemory n) calls = .ok (replies, m)) :
    (∃ s, run SimplestMemory.target.shown (SimplestMemory.construct n LINESIZE garbage hg) calls =
      .ok (replies, s)) ∧
    (∃ c, run (FakeCache.target sc_time_stamp).shown
      (FakeCache.construct (SimplestMemory.construct n LINESIZE garbage hg)) calls =
      .ok (replies, c)) ∧
    ∃ s, run (SparseMemory.targetOver allocated).shown SparseMemory.construct calls =
      .ok (replies, s) := by
  have harray := SimplestMemory.holdsWords_construct n LINESIZE hline garbage hg
  obtain ⟨s, hs, _⟩ := SimplestMemory.target.run_serves _ SimplestMemory.serves _ _ m harray calls
    replies h
  obtain ⟨c, hc, _⟩ := (FakeCache.target sc_time_stamp).run_serves _ (FakeCache.serves _)
    (FakeCache.construct (SimplestMemory.construct n LINESIZE garbage hg)) _ m harray calls replies
    h
  obtain ⟨p, hp, _⟩ := (SparseMemory.targetOver allocated).run_serves _
    (SparseMemory.serves allocated) _ _ m (SparseMemory.holdsWords_construct n hn) calls replies h
  exact ⟨⟨s, hs⟩, ⟨c, hc⟩, ⟨p, hp⟩⟩

/-- Words of two pages: a read of the image, a write, a read of it at an unaligned address, and a
write to a word that no constructor initializes. -/
theorem memories_interchangeable_pages :
    let call (command : Command) (address : UInt64) (data : List UInt8) : Transaction :=
      ⟨⟨command, address, data, 4, none, 4, false, .incomplete⟩, 0⟩
    let calls := [call .read 0x4 [0, 0, 0, 0], call .write 0x1008 [1, 2, 3, 4],
      call .read 0x100A [0, 0, 0, 0], call .write 0x400 [9, 9, 9, 9]]
    let memory := SimplestMemory.construct 2048 8 (List.replicate 2048 7)
      (SimplestMemory.allocated_replicate 2048 8 7 (by decide) (by decide))
    ∃ replies, (∃ s, run SimplestMemory.target.shown memory calls = .ok (replies, s)) ∧
      (∃ c, run (FakeCache.target "0 s").shown (FakeCache.construct memory) calls =
        .ok (replies, c)) ∧
      ∃ s, run (SparseMemory.targetOver (fun _ _ => 9)).shown SparseMemory.construct calls =
        .ok (replies, s) := by
  intro call calls memory
  obtain ⟨⟨replies, m⟩, h⟩ := exists_ok (run WordMemory.promised (initialMemory 2048) calls)
    (by decide +kernel)
  exact ⟨replies, memories_interchangeable 2048 8 (by decide) (by decide) _ _ "0 s" _ calls replies
    m h⟩

end FreeSampler
