import FreeSampler.Initiator.CachedScripts
import FreeSampler.Initiator.Tests

namespace FreeSampler

open Framework Tlm

/-- What a testable module with an array finds in memory: `m_data` of its initiator, and `m_mem`. -/
structure Found where
  m_data : UInt32
  m_mem : List UInt32
  length_eq : m_mem.length = 1024

theorem Found.allocated (found : Found) : SimplestMemory.Allocated 1024 8 found.m_mem :=
  ⟨found.length_eq, by decide, by decide⟩

/-- `SimplestMemory("SimplestMemory")`, by the defaults of its constructor. -/
def Found.simplestMemory (found : Found) : SimplestMemory :=
  .construct 1024 8 found.m_mem found.allocated

def TopMockMemory.runTests (p : Printed) (m_data : UInt32) : Except Fault (List Report) :=
  InitiatorTestMockMemory.test_1 p m_data ⟨⟩

def TopSimplestMemory.runTests (p : Printed) (found : Found) : Except Fault (List Report) :=
  InitiatorTestSimplestMemory.test_1 SimplestMemory.target p 100 100 found.m_data
    found.simplestMemory

def TopFakeCache.runTests (p : Printed) (found : Found) : Except Fault (List Report) :=
  InitiatorTestSimplestMemory.test_1 (FakeCache.target p.sc_time_stamp) p 100 100 found.m_data
    (FakeCache.construct found.simplestMemory)

def TopRealCache.runTests (p : Printed) (past : Nat → Nat → UInt32) (found : Found) :
    Except Fault (List Report) := do
  let realCache ← RealCache.construct 1024 128 8 2 found.simplestMemory
  InitiatorTestSimplestMemory.test_1 (RealCache.socket SimplestMemory.target past p.sc_time_stamp) p
    100 0 found.m_data (realCache, 0)

def TopSparseMemory.runTests (p : Printed) (allocated : Nat → SparseMemory.Page)
    (m_data : UInt32) : Except Fault (List Report) :=
  InitiatorTestSparseMemory.test_1 p allocated m_data SparseMemory.construct

/-- The testable modules, by what they find in memory: `past n` lies behind the line buffers of the
cache's call number `n`, and page number `n` is allocated over `allocated n`. -/
structure Top where
  mockMemory : UInt32
  simplestMemory : Found
  fakeCache : Found
  realCache : Found
  past : Nat → Nat → UInt32
  sparseMemory : UInt32
  allocated : Nat → SparseMemory.Page

/-- The reports of all tests, in the order of the modules. -/
def Top.thread_process (top : Top) (p : Printed) : Except Fault (List Report) := do
  let mock ← TopMockMemory.runTests p top.mockMemory
  let simplest ← TopSimplestMemory.runTests p top.simplestMemory
  let fake ← TopFakeCache.runTests p top.fakeCache
  let real ← TopRealCache.runTests p top.past top.realCache
  let sparse ← TopSparseMemory.runTests p top.allocated top.sparseMemory
  return mock ++ simplest ++ fake ++ real ++ sparse

/-- The first line of the array holds the words 0 and 1, whatever the allocation held. -/
theorem Found.firstLine (found : Found) :
    RealCache.slice found.simplestMemory.bytes 0 8 = [0, 0, 0, 0, 1, 0, 0, 0] := by
  have hfirst (ws : List UInt32) (h₀ : ws[0]? = some (UInt32.ofNat (0 % 2)))
      (h₁ : ws[1]? = some (UInt32.ofNat (1 % 2))) :
      RealCache.slice (toBytes ws) 0 8 = [0, 0, 0, 0, 1, 0, 0, 0] := by
    match ws with
    | [] => simp at h₀
    | [a] => simp at h₁
    | a :: b :: rest =>
      obtain rfl : a = 0 := Option.some.inj h₀
      obtain rfl : b = 1 := Option.some.inj h₁
      rfl
  have h₀ := initialWords_initialized 1024 found.m_mem found.length_eq 0 (by decide) (by decide)
  have h₁ := initialWords_initialized 1024 found.m_mem found.length_eq 1 (by decide) (by decide)
  simp only [Found.simplestMemory, SimplestMemory.construct, SimplestMemory.bytes]
  exact hfirst _ h₀ h₁

/-- A byte in front of a word makes the value of the byte when the word is small. -/
theorem withFirstByte_eq_small (w v : UInt32) (b : UInt8) (hb : b.toNat = v.toNat) :
    withFirstByte w b = v ↔ w.toNat < 256 := by
  have hlt := b.toNat_lt
  rw [← UInt32.toNat_inj, withFirstByte_toNat]
  omega

namespace InitiatorTestSimplestMemory

open FreeSampler.Geometry RealCache TestInitiator

/-- Every line of the cache gets the first bytes of the memory. -/
theorem lineAsked_topRealCache (found : Found) (a : UInt64) :
    (topRealCache.store topRealCache.emptyBlocks).lineAsked found.simplestMemory a =
      [0, 0, 0, 0, 1, 0, 0, 0] := by
  have hbytes : topRealCache.lineBytes = 8 := rfl
  have hstart : 4 * (a.toNat % 8 / 4 / 4) = 0 := by omega
  rw [lineAsked_store, requested, hbytes, hstart]
  exact found.firstLine

/-- A read that puts a small value in front of what `m_data` held before the test. -/
theorem expects_small (s : CacheStore) (memory : SimplestMemory) (m_data : UInt32)
    (before : List Block) (unittestName : String) (address : UInt64) (expdata : UInt32)
    (expdelay : Nat) (byte : UInt8) (hreads : latest Block.value before = none)
    (hbyte : Block.byteAt s memory (before ++ [.read unittestName address expdata expdelay])
      address = some byte) (hsmall : byte.toNat = expdata.toNat)
    (hdelay : expdelay = if s.Holds (before.map Block.address) address then 0 else 100) :
    (Block.read unittestName address expdata expdelay).Expects s memory m_data before ↔
      m_data.toNat < 256 := by
  rw [Block.Expects, Block.wordBehind, hreads, hbyte, Option.getD_none, Option.getD_some,
    eq_comm (a := expdata), withFirstByte_eq_small _ _ _ hsmall, and_iff_left hdelay]

/-- The words 0 and 1 share a line, the words 3 and 4 are in the next two; all three lines hold the
words 0 and 1. -/
theorem bytes_read (found : Found) :
    let bytes := Block.byteAt (topRealCache.store topRealCache.emptyBlocks) found.simplestMemory
    bytes ((blocks 100 0).take 1) 0x0 = some 0 ∧ bytes ((blocks 100 0).take 2) 0x4 = some 1 ∧
      bytes ((blocks 100 0).take 3) 0xC = some 1 ∧ bytes ((blocks 100 0).take 4) 0x10 = some 0 := by
  have hline := lineAsked_topRealCache found
  refine ⟨?_, ?_, ?_, ?_⟩
  all_goals
    simp only [blocks, List.take_succ_cons, List.take_zero, Block.byteAt, withPast, latest,
      List.nil_append, List.cons_append, List.filterMap_cons, Block.leaves, hline]
    rfl

/-- The test expects of the cache what it does, but for the upper bytes of `m_data`. -/
theorem blocks_expected (found : Found) : EveryStep (Block.Expects
      (topRealCache.store topRealCache.emptyBlocks) found.simplestMemory found.m_data)
    (blocks 100 0) ↔ found.m_data.toNat < 256 := by
  obtain ⟨hbyte₁, hbyte₂, hbyte₃, hbyte₄⟩ := bytes_read found
  constructor
  · intro h
    exact (expects_small _ _ _ [] _ _ _ _ 0 rfl hbyte₁ rfl rfl).mp (h [] _ _ rfl)
  · intro h
    rw [everyStep_iff_withPast]
    intro e he
    simp only [blocks, withPast, List.nil_append, List.cons_append, List.mem_cons,
      List.not_mem_nil, or_false] at he
    rcases he with rfl | rfl | rfl | rfl | rfl | rfl
    · exact (expects_small _ _ _ _ _ _ _ _ 0 rfl hbyte₁ rfl rfl).mpr h
    · exact (expects_small _ _ _ _ _ _ _ _ 1 rfl hbyte₂ rfl rfl).mpr h
    · exact (expects_small _ _ _ _ _ _ _ _ 1 rfl hbyte₃ rfl rfl).mpr h
    · exact (expects_small _ _ _ _ _ _ _ _ 0 rfl hbyte₄ rfl rfl).mpr h
    · exact ⟨by decide, rfl, by decide⟩
    · exact ⟨by decide, rfl, by decide⟩

/-- Over the cache, the test passes exactly when the upper bytes of `m_data` are zero at the
start. -/
theorem test_1_cached (p : Printed) (past : Nat → Nat → UInt32) (found : Found) :
    ∃ reports, TopRealCache.runTests p past found = .ok reports ∧
      (reports = [] ↔ found.m_data.toNat < 256) := by
  obtain ⟨reports, i, hr, -, hsilent, -⟩ := run_behind topRealCache topRealCache.emptyBlocks p past
    found.simplestMemory found.m_data (by decide) (by decide) ⟨rfl, rfl⟩ (blocks 100 0) (by decide)
  have hcache : RealCache.construct 1024 128 8 2 found.simplestMemory =
      .ok (topRealCache.freshCache found.simplestMemory) := topRealCache.construct_freshCache _
  refine ⟨reports.flatten, ?_, hsilent.trans (blocks_expected found)⟩
  rw [TopRealCache.runTests, hcache]
  exact test_1_ok _ p 100 0 _ _ reports i hr

end InitiatorTestSimplestMemory

namespace Top

/-- Whatever the modules find in memory, their tests run to the end, and the only ones that can
raise a report are those over the cache: all tests pass exactly when the upper bytes of the
uninitialized `m_data` of that initiator are zero. -/
theorem thread_process_silent_iff (top : Top) (p : Printed) :
    ∃ reports, top.thread_process p = .ok reports ∧
      (reports = [] ↔ top.realCache.m_data.toNat < 256) := by
  have hmock := InitiatorTestMockMemory.test_1_passes p top.mockMemory ⟨⟩
  have hsimplest := InitiatorTestSimplestMemory.test_1_served _ _ SimplestMemory.serves p
    top.simplestMemory.m_data top.simplestMemory.simplestMemory
    (SimplestMemory.holdsWords_construct 1024 8 (by decide) _ top.simplestMemory.allocated)
  have hfake := InitiatorTestSimplestMemory.test_1_served _ _ (FakeCache.serves p.sc_time_stamp) p
    top.fakeCache.m_data (FakeCache.construct top.fakeCache.simplestMemory)
    (SimplestMemory.holdsWords_construct 1024 8 (by decide) _ top.fakeCache.allocated)
  obtain ⟨reports, hreal, hiff⟩ :=
    InitiatorTestSimplestMemory.test_1_cached p top.past top.realCache
  have hsparse := InitiatorTestSparseMemory.test_1_passes p top.allocated top.sparseMemory
  refine ⟨reports, ?_, hiff⟩
  simp only [thread_process, TopMockMemory.runTests, TopSimplestMemory.runTests,
    TopFakeCache.runTests, TopSparseMemory.runTests, hmock, hsimplest, hfake, hreal, hsparse,
    ok_bind, List.nil_append, List.append_nil]
  rfl

end Top

end FreeSampler
