import FreeSampler.Initiator.CachedChecks
import FreeSampler.RealCache.Answers

namespace FreeSampler

open Framework Tlm

/-- The bytes that the request for the line of an address reads. -/
def CacheStore.lineAsked (s : CacheStore) (memory : SimplestMemory) (a : UInt64) : List UInt8 :=
  RealCache.slice memory.bytes (4 * ((s.getWordIndex a).toNat / 4)) s.p_LineSize.toNat

namespace TestInitiator

open RealCache

namespace Block

def address : Block → UInt64
  | .read _ address _ _ => address
  | .write _ address _ _ _ => address

def value : Block → Option UInt32
  | .read _ _ _ _ => none
  | .write _ _ m_data _ _ => some m_data

/-- A block of the initiator in front of the cache: it expects one delay of a write and of the read
behind it, and writes into the memory a value that it can increment. -/
def ForCache : Block → Prop
  | .read _ _ _ _ => True
  | .write _ address m_data expdelay readDelay =>
    (address / 4).toNat < 1024 ∧ m_data ≠ 0x7fffffff ∧ readDelay = expdelay

instance : DecidablePred ForCache
  | .read _ _ _ _ => inferInstanceAs (Decidable True)
  | .write _ address m_data expdelay readDelay =>
    inferInstanceAs (Decidable ((address / 4).toNat < 1024 ∧ m_data ≠ 0x7fffffff ∧
      readDelay = expdelay))

section Expected

variable (s : CacheStore) (memory : SimplestMemory)

def BringsIn (before : List Block) (b : Block) : Prop := ¬ s.Holds (before.map address) b.address

instance (before : List Block) (b : Block) : Decidable (b.BringsIn s before) :=
  inferInstanceAs (Decidable (¬ _))

/-- The byte that a block leaves at an address, as long as the memory is as it was: the one asked
for with its line, or the first one of a value written there. -/
def leaves (adr : UInt64) (before : List Block) (b : Block) : Option UInt8 :=
  if s.getLineAddress b.address = s.getLineAddress adr ∧ b.BringsIn s before then
    some ((s.lineAsked memory b.address).getD (s.getByteIndex adr).toNat 0)
  else if b.address = adr then b.value.map (fun v => UInt8.ofNat v.toNat)
  else none

/-- The byte that the cache has at an address behind a script. -/
def byteAt (blocks : List Block) (adr : UInt64) : Option UInt8 :=
  latest (fun e => leaves s memory adr e.1 e.2) (withPast [] blocks)

theorem byteAt_concat (blocks : List Block) (b : Block) (adr : UInt64) :
    byteAt s memory (blocks ++ [b]) adr =
      (b.leaves s memory adr blocks).or (byteAt s memory blocks adr) := by
  rw [byteAt, withPast_concat, latest_concat]
  rfl

/-- The word that the initiator has in `m_data` behind a script, but for its first byte. -/
def wordBehind (m_data : UInt32) (blocks : List Block) : UInt32 := (latest value blocks).getD m_data

/-- What a block must expect behind others. A write must find its line in the cache, and the
increment of its value must leave the upper bytes alone. -/
def Expects (m_data : UInt32) (before : List Block) : Block → Prop
  | .read unittestName address expdata expdelay =>
    expdata = withFirstByte (wordBehind m_data before) ((byteAt s memory
      (before ++ [.read unittestName address expdata expdelay]) address).getD 0) ∧
    expdelay = if s.Holds (before.map Block.address) address then 0 else 100
  | .write _ address v expdelay _ =>
    s.Holds (before.map Block.address) address ∧ expdelay = 0 ∧ v.toNat % 256 ≠ 255

instance (m_data : UInt32) (before : List Block) : DecidablePred (Expects s memory m_data before)
  | .read _ _ _ _ => inferInstanceAs (Decidable (_ ∧ _))
  | .write _ _ _ _ _ => inferInstanceAs (Decidable (_ ∧ _))

end Expected

end Block

section Scripts

variable (g : Geometry) (t₀ : Nat → g.Block) (p : Printed) (past : Nat → Nat → UInt32)
variable (memory : SimplestMemory) (m_data : UInt32)

theorem lineAsked_store (a : UInt64) : (g.store t₀).lineAsked memory a = requested g memory a := by
  rw [CacheStore.lineAsked, g.getWordIndex_toNat, g.store_lineSize]
  rfl

theorem leaves_brings (adr : UInt64) (before : List Block) (b : Block)
    (hb : b.BringsIn (g.store t₀) before) (hline : g.lineNumber adr = g.lineNumber b.address) :
    b.leaves (g.store t₀) memory adr before =
      some ((requested g memory b.address).getD (g.byteOffset adr) 0) := by
  have hsame := (g.getLineAddress_eq_iff t₀ _ _).mpr hline.symm
  rw [Block.leaves, if_pos ⟨hsame, hb⟩, lineAsked_store, g.getByteIndex_toNat]
  rfl

/-- Other lines keep their bytes. -/
theorem leaves_of_ne (adr : UInt64) (before : List Block) (b : Block)
    (hline : g.lineNumber adr ≠ g.lineNumber b.address) :
    b.leaves (g.store t₀) memory adr before = none := by
  have hne : ¬ (g.store t₀).getLineAddress b.address = (g.store t₀).getLineAddress adr := by
    intro h
    exact hline ((g.getLineAddress_eq_iff t₀ _ _).mp h).symm
  rw [Block.leaves, if_neg (fun h => hne h.1), if_neg]
  rintro rfl
  exact hline rfl

theorem leaves_held (adr : UInt64) (before : List Block) (b : Block)
    (hb : ¬ b.BringsIn (g.store t₀) before) : b.leaves (g.store t₀) memory adr before =
      if b.address = adr then b.value.map (fun v => UInt8.ofNat v.toNat) else none := by
  rw [Block.leaves, if_neg (fun h => hb h.2)]

/-- Tables that follow a script: the tags are those that the policy keeps, and the bytes those that
the blocks have left. -/
structure Follows (before : List Block) (t : Nat → g.Block) : Prop where
  tags_eq : g.tagsHeld t = g.tagsAfter (before.map Block.address)
  lines_eq : g.ShowsBytes t (Block.byteAt (g.store t₀) memory before)

theorem follows_nil : Follows g t₀ memory [] g.emptyBlocks := by
  refine ⟨rfl, ?_⟩
  intro a kept h
  simp [Geometry.cachedLine, g.resident_empty] at h

section Step

variable (before : List Block) (b : Block) (t : Nat → g.Block)

/-- A block finds its line exactly when it does not bring it in. -/
theorem bringsIn_iff (ht : Follows g t₀ memory before t) :
    b.BringsIn (g.store t₀) before ↔ g.cachedLine t b.address = none := by
  rw [Block.BringsIn, g.holds_iff_cached t₀ t _ ht.tags_eq, ← Option.isSome_iff_exists,
    Option.not_isSome_iff_eq_none]

theorem follows_found (ht : Follows g t₀ memory before t) (line : List UInt8)
    (hline : g.cachedLine t b.address = some line) (hb : b.value = none) :
    Follows g t₀ memory (before ++ [b]) t := by
  have hheld : ¬ b.BringsIn (g.store t₀) before := by
    rw [bringsIn_iff g t₀ memory before b t ht, hline]
    exact Option.some_ne_none line
  have hkept : g.holdsLine (g.tagsHeld t) b.address = true := by
    rw [ht.tags_eq, g.holdsLine_tagsAfter t₀]
    exact decide_eq_true (not_not.mp hheld)
  refine ⟨?_, ?_⟩
  · rw [List.map_append, List.map_singleton, g.tagsAfter_concat, ← ht.tags_eq,
      g.touch_held _ _ hkept]
  · intro a kept h
    rw [Block.byteAt_concat, leaves_held g t₀ memory a before b hheld, hb, Option.map_none,
      ite_self, Option.none_or]
    exact ht.lines_eq a kept h

/-- The tags behind a line that is set. -/
theorem tags_setLine (ht : Follows g t₀ memory before t) (buf : List UInt32) :
    g.tagsHeld (g.setLine t b.address buf) = g.tagsAfter ((before ++ [b]).map Block.address) := by
  rw [g.tagsHeld_setLine, ht.tags_eq, List.map_append, List.map_singleton, g.tagsAfter_concat]

theorem requested_length (hm : memory.DefaultSizes) (h32 : g.lineBytes ≤ 32) (a : UInt64) :
    (requested g memory a).length = g.lineBytes := by
  have hbytes : memory.bytes.length = 4 * 1024 := by rw [memory.bytes_length, hm.1]
  have hlt : a.toNat % g.lineBytes < g.lineBytes := g.byteOffset_lt a
  rw [requested, slice, List.length_take, List.length_drop, hbytes]
  omega

theorem follows_brought (hl : 4 ≤ g.lineBytes) (h32 : g.lineBytes ≤ 32) (hm : memory.DefaultSizes)
    (ht : Follows g t₀ memory before t) (hb : g.cachedLine t b.address = none)
    (words : Nat → UInt32) : Follows g t₀ memory (before ++ [b])
      (g.setLine t b.address (g.lineWords (requested g memory b.address) words)) := by
  have hbrings := (bringsIn_iff g t₀ memory before b t ht).mpr hb
  have hlen := requested_length g memory hm h32 b.address
  refine ⟨tags_setLine g t₀ memory before b t ht _, ?_⟩
  apply g.showsBytes_set t _ _ hl ht.lines_eq b.address _ words hlen
  · intro a hsame
    rw [Block.byteAt_concat, leaves_brings g t₀ memory a before b hbrings hsame, Option.some_or,
      g.getElem?_byteOffset _ hlen]
  · intro a hne
    rw [Block.byteAt_concat, leaves_of_ne g t₀ memory a before b hne, Option.none_or]

theorem follows_written (hl : 4 ≤ g.lineBytes) (ht : Follows g t₀ memory before t)
    (kept : List UInt8) (hkept : g.cachedLine t b.address = some kept) (v : UInt32)
    (hv : b.value = some v) (words : Nat → UInt32) : Follows g t₀ memory (before ++ [b])
      (g.setLine t b.address (g.lineWords
        (kept.set (g.byteOffset b.address) (UInt8.ofNat v.toNat)) words)) := by
  have hheld : ¬ b.BringsIn (g.store t₀) before := by
    rw [bringsIn_iff g t₀ memory before b t ht, hkept]
    exact Option.some_ne_none kept
  refine ⟨tags_setLine g t₀ memory before b t ht _, ?_⟩
  apply g.showsBytes_write t _ _ hl ht.lines_eq b.address kept hkept
  · rw [Block.byteAt_concat, leaves_held g t₀ memory _ before b hheld, hv, Option.map_some,
      if_pos rfl, Option.some_or]
  · intro a hne
    rw [Block.byteAt_concat, leaves_held g t₀ memory a before b hheld, if_neg (Ne.symm hne),
      Option.none_or]

/-- A line that is cached has the byte that its blocks have left. -/
theorem byteAt_cached (hl : 4 ≤ g.lineBytes) (ht : Follows g t₀ memory before t) (a : UInt64)
    (kept : List UInt8) (hkept : g.cachedLine t a = some kept) :
    Block.byteAt (g.store t₀) memory before a = some (kept.getD (g.byteOffset a) 0) := by
  have hlen := g.cachedLine_length hl t a kept hkept
  rw [← ht.lines_eq a kept hkept, g.getElem?_byteOffset kept hlen]

end Step

/-- An initiator behind a script of which every block got what it expected. -/
structure Behind (before : List Block) (i : TestInitiator (RealCache SimplestMemory × Nat)) :
    Prop where
  memory_eq : i.target.1.memory = memory
  upper_eq : i.m_data.toNat / 256 = (Block.wordBehind m_data before).toNat / 256
  tables : ∃ t, i.target.1.m_cacheStore = g.store t ∧ Follows g t₀ memory before t

theorem step_answered (hl : 4 ≤ g.lineBytes) (h32 : g.lineBytes ≤ 32)
    (i : TestInitiator (RealCache SimplestMemory × Nat)) (hi : CacheReady g i) (b : Block)
    (hb : b.ForCache) : ∃ reports i',
      i.step (socket SimplestMemory.target past p.sc_time_stamp) p b = .ok (reports, i') ∧
      CacheReady g i' := by
  have hstep : ∃ reports i',
      i.step (socket SimplestMemory.target past p.sc_time_stamp) p b = .ok (reports, i') := by
    cases b with
    | read unittestName address expdata expdelay =>
      obtain ⟨t, hc⟩ := hi.tables
      cases hline : g.cachedLine t address with
      | none =>
        obtain ⟨i', _, _, hs, -⟩ := step_read_missed g p past hl h32 i hi.ready t hc hi.sizes
          unittestName address expdata expdelay hline _ rfl
        exact ⟨_, i', hs⟩
      | some line =>
        obtain ⟨i', _, hs, -⟩ := step_read_cached SimplestMemory.target g p past hl i hi.ready t hc
          unittestName address expdata expdelay line hline
        exact ⟨_, i', hs⟩
    | write unittestName address v expdelay readDelay =>
      obtain ⟨hadr, hne, rfl⟩ := hb
      by_cases hres : i.target.1.m_cacheStore.IsResident address
      · obtain ⟨i', hs⟩ := step_write_cached g p past hl i hi unittestName address v hne _ hres
        exact ⟨_, i', hs⟩
      · obtain ⟨i', _, _, hs⟩ := step_write_missed g p past hl h32 i hi unittestName address hadr v
          hne _ hres
        exact ⟨_, i', hs⟩
  obtain ⟨reports, i', hs⟩ := hstep
  exact ⟨reports, i', hs, cacheReady_step g p past hl i i' hi b reports hs⟩

/-- The upper bytes of `m_data` are all that a read keeps of it. -/
theorem withFirstByte_congr (w v : UInt32) (b : UInt8) (h : w.toNat / 256 = v.toNat / 256) :
    withFirstByte w b = withFirstByte v b := by
  rw [withFirstByte, withFirstByte, h]

section Blocks

variable (before : List Block) (i : TestInitiator (RealCache SimplestMemory × Nat))
variable (hl : 4 ≤ g.lineBytes) (h32 : g.lineBytes ≤ 32)
variable (hready : CacheReady g i) (hi : Behind g t₀ memory m_data before i)

include hl h32 hready hi

/-- A read behind a script gets the byte that the script, or the read itself, has left. -/
theorem step_read_behind (hm : memory.DefaultSizes) (unittestName : String) (address : UInt64)
    (expdata : UInt32) (expdelay : Nat) :
    let b := Block.read unittestName address expdata expdelay
    ∃ reports i', i.step (socket SimplestMemory.target past p.sc_time_stamp) p b =
        .ok (reports, i') ∧ Behind g t₀ memory m_data (before ++ [b]) i' ∧
      (reports = [] ↔ b.Expects (g.store t₀) memory m_data before) := by
  intro b
  obtain ⟨hmemory, hupper, t, hc, ht⟩ := hi
  have hbrings := bringsIn_iff g t₀ memory before b t ht
  -- the reports of a read that leaves the byte of its line in `m_data`
  have hread (m : UInt32) (byte : UInt8) (delay : Nat) (hm : m = withFirstByte i.m_data byte)
      (hbyte : Block.byteAt (g.store t₀) memory (before ++ [b]) address = some byte)
      (hdelay : delay = if (g.store t₀).Holds (before.map Block.address) address then 0 else 100) :
      m.toNat / 256 = (Block.wordBehind m_data (before ++ [b])).toNat / 256 ∧
        (wrongData p unittestName m expdata ++ wrongDelay p unittestName delay expdelay = [] ↔
          b.Expects (g.store t₀) memory m_data before) := by
    refine ⟨?_, ?_⟩
    · rw [hm, withFirstByte_upper, hupper, Block.wordBehind, Block.wordBehind,
        latest_concat_none Block.value before b rfl]
    · rw [Block.Expects, hbyte, Option.getD_some, ← withFirstByte_congr _ _ _ hupper, ← hm,
        ← hdelay, List.append_eq_nil_iff, wrongData_eq_nil, wrongDelay_eq_nil, eq_comm (a := m),
        eq_comm (a := delay)]
  cases hline : g.cachedLine t address with
  | some line =>
    have hfollows := follows_found g t₀ memory before b t ht line hline rfl
    have hheld : (g.store t₀).Holds (before.map Block.address) address :=
      not_not.mp (fun h => Option.some_ne_none line (hline.symm.trans (hbrings.mp h)))
    obtain ⟨i', m, hs, _, hcache, hdata, hword⟩ := step_read_cached SimplestMemory.target g p past
      hl i hready.ready t hc unittestName address expdata expdelay line hline
    obtain ⟨hupper', hiff⟩ := hread m _ 0 hword
      (byteAt_cached g t₀ memory _ t hl hfollows address line hline) (if_pos hheld).symm
    exact ⟨_, i', hs, ⟨by rw [hcache, hmemory], by rw [hdata, hupper'], t, by rw [hcache, hc],
      hfollows⟩, hiff⟩
  | none =>
    have hmissed : ¬ (g.store t₀).Holds (before.map Block.address) address := hbrings.mpr hline
    obtain ⟨i', m, words, hs, _, hmemory', hstore, hdata, hword⟩ := step_read_missed g p past hl
      h32 i hready.ready t hc (by rw [hmemory]; exact hm) unittestName address expdata expdelay
      hline (requested g memory address) (by rw [hmemory])
    have hfollows := follows_brought g t₀ memory before b t hl h32 hm ht hline words
    have hself := g.cachedLine_setLine_self hl t address address (requested g memory address) words
      (requested_length g memory hm h32 address) rfl
    obtain ⟨hupper', hiff⟩ := hread m _ 100 hword
      (byteAt_cached g t₀ memory _ _ hl hfollows address _ hself) (if_neg hmissed).symm
    exact ⟨_, i', hs, ⟨hmemory'.trans hmemory, by rw [hdata, hupper'], _, hstore, hfollows⟩, hiff⟩

/-- A write behind a script is silent when its line is there, and leaves its first byte there. -/
theorem step_write_behind (unittestName : String) (address : UInt64)
    (hadr : (address / 4).toNat < 1024) (v : UInt32) (hne : v ≠ 0x7fffffff) (expdelay : Nat) :
    let b := Block.write unittestName address v expdelay expdelay
    ∃ reports i', i.step (socket SimplestMemory.target past p.sc_time_stamp) p b =
        .ok (reports, i') ∧ (reports = [] ↔ b.Expects (g.store t₀) memory m_data before) ∧
      (b.Expects (g.store t₀) memory m_data before →
        Behind g t₀ memory m_data (before ++ [b]) i') := by
  intro b
  obtain ⟨hmemory, hupper, t, hc, ht⟩ := hi
  have hbrings := bringsIn_iff g t₀ memory before b t ht
  cases hline : g.cachedLine t address with
  | some line =>
    have hheld : (g.store t₀).Holds (before.map Block.address) address :=
      not_not.mp (fun h => Option.some_ne_none line (hline.symm.trans (hbrings.mp h)))
    obtain ⟨i', words, hs, _, hmemory', hstore, hdata⟩ := step_write_held SimplestMemory.target g p
      past hl i hready.ready t hc unittestName address v hne expdelay line hline
    refine ⟨_, i', hs, ?_, ?_⟩
    · apply Iff.trans _ (and_iff_right hheld).symm
      simp only [List.nil_append, List.append_eq_nil_iff, wrongDelay_eq_nil, wrongData_eq_nil,
        withFirstByte_eq_iff, increment_upper, true_and]
      constructor
      · intro h
        exact ⟨h.1.symm, h.2.1⟩
      · intro h
        exact ⟨h.1.symm, h.2, h.1.symm⟩
    · intro hexpects
      refine ⟨hmemory'.trans hmemory, ?_, _, hstore,
        follows_written g t₀ memory before b t hl ht line hline v rfl words⟩
      rw [hdata, withFirstByte_upper, Block.wordBehind,
        latest_concat_some Block.value before b v rfl]
      exact (increment_upper v).mpr hexpects.2.2
  | none =>
    have hmissed : ¬ (g.store t₀).Holds (before.map Block.address) address := hbrings.mpr hline
    have hres : ¬ i.target.1.m_cacheStore.IsResident address := by
      rw [hc, g.isResident_iff, hline]
      simp
    obtain ⟨i', reports, w, hs⟩ := step_write_missed g p past hl h32 i hready unittestName address
      hadr v hne expdelay hres
    refine ⟨_, i', hs, ?_, fun hexpects => absurd hexpects.1 hmissed⟩
    refine iff_of_false ?_ (fun hexpects => hmissed hexpects.1)
    simp only [List.append_eq_nil_iff, wrongDelay_eq_nil]
    omega

end Blocks

/-- One block behind a script that went as expected. -/
theorem step_behind (hl : 4 ≤ g.lineBytes) (h32 : g.lineBytes ≤ 32) (hm : memory.DefaultSizes)
    (before : List Block) (i : TestInitiator (RealCache SimplestMemory × Nat))
    (hready : CacheReady g i) (hi : Behind g t₀ memory m_data before i) (b : Block)
    (hb : b.ForCache) :
    ∃ reports i', i.step (socket SimplestMemory.target past p.sc_time_stamp) p b =
        .ok (reports, i') ∧ (reports = [] ↔ b.Expects (g.store t₀) memory m_data before) ∧
      (b.Expects (g.store t₀) memory m_data before →
        Behind g t₀ memory m_data (before ++ [b]) i') := by
  cases b with
  | read unittestName address expdata expdelay =>
    obtain ⟨reports, i', hs, hbehind, hiff⟩ := step_read_behind g t₀ p past memory m_data before i
      hl h32 hready hi hm unittestName address expdata expdelay
    exact ⟨reports, i', hs, hiff, fun _ => hbehind⟩
  | write unittestName address v expdelay readDelay =>
    obtain ⟨hadr, hne, rfl⟩ := hb
    exact step_write_behind g t₀ p past memory m_data before i hl h32 hready hi unittestName address
      hadr v hne _

/-- A script runs to the end, and is silent as long as its blocks get what they expect. -/
theorem run_behind (hl : 4 ≤ g.lineBytes) (h32 : g.lineBytes ≤ 32) (hm : memory.DefaultSizes)
    (blocks : List Block) (hb : ∀ b ∈ blocks, b.ForCache) :
    ∃ reports i, run (step (socket SimplestMemory.target past p.sc_time_stamp) p)
        (setUp m_data (g.freshCache memory, 0)) blocks = .ok (reports, i) ∧ CacheReady g i ∧
      (reports.flatten = [] ↔ EveryStep (Block.Expects (g.store t₀) memory m_data) blocks) ∧
      (EveryStep (Block.Expects (g.store t₀) memory m_data) blocks →
        Behind g t₀ memory m_data blocks i) := by
  have hstep (b : Block) (hmem : b ∈ blocks) (before : List Block)
      (i : TestInitiator (RealCache SimplestMemory × Nat)) (hi : CacheReady g i) :
      ∃ reports i', i.step (socket SimplestMemory.target past p.sc_time_stamp) p b =
          .ok (reports, i') ∧ CacheReady g i' ∧ (Behind g t₀ memory m_data before i →
        (reports = [] ↔ b.Expects (g.store t₀) memory m_data before) ∧
          (b.Expects (g.store t₀) memory m_data before →
            Behind g t₀ memory m_data (before ++ [b]) i')) := by
    obtain ⟨reports, i', hs, hready⟩ := step_answered g p past hl h32 i hi b (hb b hmem)
    refine ⟨reports, i', hs, hready, ?_⟩
    intro hbehind
    obtain ⟨reports', j, hs', hiff, hnext⟩ := step_behind g t₀ p past memory m_data hl h32 hm before
      i hi hbehind b (hb b hmem)
    obtain ⟨rfl, rfl⟩ := ok_inj (hs'.symm.trans hs)
    exact ⟨hiff, hnext⟩
  exact run_silent _ (CacheReady g) (Behind g t₀ memory m_data) _ _ blocks hstep
    ⟨ready_setUp m_data _, ⟨g.emptyBlocks, rfl⟩, hm⟩
    ⟨rfl, rfl, g.emptyBlocks, rfl, follows_nil g t₀ memory⟩

end Scripts

end TestInitiator

namespace Geometry

open RealCache TestInitiator

variable (g : Geometry)

/-- Which scripts of checked reads and writes pass over the cache, with conflicts and evictions:
those of which every write finds its line there, and every read expects the byte that the script
has left at its address, in the time that the policy makes it take. Such a script writes nothing to
the memory. -/
theorem cachedScript_passes_iff (hl : 4 ≤ g.lineBytes) (h32 : g.lineBytes ≤ 32)
    (memory : SimplestMemory) (hm : memory.DefaultSizes) (p : Printed) (past : Nat → Nat → UInt32)
    (m_data : UInt32) (blocks : List TestInitiator.Block) (hb : ∀ b ∈ blocks, b.ForCache) :
    ∃ reports i, run (step (socket SimplestMemory.target past p.sc_time_stamp) p)
        (setUp m_data (g.freshCache memory, 0)) blocks = .ok (reports, i) ∧
      (reports.flatten = [] ↔ EveryStep
        (TestInitiator.Block.Expects i.target.1.m_cacheStore memory m_data) blocks) ∧
      (reports.flatten = [] → i.target.1.memory = memory) := by
  obtain ⟨reports, i, hr, hready, hsilent, hbehind⟩ := run_behind g g.emptyBlocks p past memory
    m_data hl h32 hm blocks hb
  obtain ⟨t, hc⟩ := hready.tables
  refine ⟨reports, i, hr, ?_, fun h => (hbehind (hsilent.mp h)).memory_eq⟩
  -- what a block must expect depends on the sizes of the store alone
  rw [hc]
  exact hsilent

/-- Three lines of block 0 in its two ways: a write to the first line, which the third then drops,
so the byte of the memory is back; and one to the second line, which stays. -/
theorem cachedScript_passes_iff_conflicts :
    let p : Printed := ⟨"0 s", fun delay => toString delay ++ " ns"⟩
    let memory : SimplestMemory :=
      ⟨1024, 8, List.replicate 1024 0, List.length_replicate, by decide, by decide⟩
    let blocks : List TestInitiator.Block := [.read "first" 0x0 0 100, .write "first" 0x0 9 0 0,
      .read "second" 0x40 0 100, .write "second" 0x44 5 0 0, .read "third" 0x80 0 100,
      .read "first" 0x0 0 100, .read "second" 0x44 5 0]
    ∃ reports i, run (step (socket SimplestMemory.target (fun _ _ => 0) p.sc_time_stamp) p)
        (setUp 7 (topRealCache.freshCache memory, 0)) blocks = .ok (reports, i) ∧
      (reports.flatten = [] ↔ EveryStep
        (TestInitiator.Block.Expects i.target.1.m_cacheStore memory 7) blocks) ∧
      (reports.flatten = [] → i.target.1.memory = memory) := by
  intro p memory blocks
  exact topRealCache.cachedScript_passes_iff (by decide) (by decide) memory ⟨rfl, rfl⟩ p _ 7 blocks
    (by decide)

end Geometry

end FreeSampler
