import FreeSampler.RealCache.Hits
import FreeSampler.RealCache.MemoryTraffic

namespace FreeSampler

open Framework Tlm

/-- Where a fill of the line of one address reads the byte of another address of that line. -/
def CacheStore.fillPlace (s : CacheStore) (a adr : UInt64) : Nat :=
  4 * ((s.getWordIndex a).toNat / 4) + (s.getByteIndex adr).toNat

namespace RealCache

def Answer.transport (a : Answer) : Transport := ⟨a.trans, a.delay, a.reports⟩

section Foretold

variable (s : CacheStore) (memory : SimplestMemory)

/-- The byte that a call stores in the memory, if any: a write that misses passes its word on. -/
def storesByte (x : Nat) (before : List Call) (call : Call) : Option UInt8 :=
  if missesWrite s before call ∧ x / 4 = (call.trans.address / 4).toNat then call.trans.data[x % 4]?
  else none

/-- Byte `x` of the memory behind some calls. -/
def memoryByte (calls : List Call) (x : Nat) : Option UInt8 :=
  (latest (fun e => storesByte s x e.1 e.2) (withPast [] calls)).or memory.bytes[x]?

/-- The byte that a call leaves in the cache at an address: a miss brings in what the memory has by
then where the fill reads, and a write hit stores its first byte at exactly its address. -/
def leavesByte (adr : UInt64) (before : List Call) (call : Call) : Option UInt8 :=
  if s.getLineAddress call.trans.address = s.getLineAddress adr ∧
      ¬ s.Holds (addresses before) call.trans.address then
    memoryByte s memory (before ++ [call]) (s.fillPlace call.trans.address adr)
  else if call.trans.command = .write ∧ call.trans.address = adr then call.trans.data.head?
  else none

/-- The byte that the cache has at an address behind some calls. -/
def cachedByte (calls : List Call) (adr : UInt64) : Option UInt8 :=
  latest (fun e => leavesByte s memory adr e.1 e.2) (withPast [] calls)

/-- What a call gets back: a read the byte that the cache then has at its address, in the first
place of its buffer, and a write its own payload. -/
def foretold (before : List Call) (call : Call) : Transport where
  trans := { call.trans with
    data := if call.trans.command = .read then
        (cachedByte s memory (before ++ [call]) call.trans.address).getD 0 :: call.trans.data.tail
      else call.trans.data
    responseStatus := .ok }
  delay := call.delay + heldDelay s before call
  reports := []

theorem memoryByte_concat (calls : List Call) (call : Call) (x : Nat) :
    memoryByte s memory (calls ++ [call]) x =
      (storesByte s x calls call).or (memoryByte s memory calls x) := by
  rw [memoryByte, withPast_concat, latest_concat, Option.or_assoc]
  rfl

theorem cachedByte_concat (calls : List Call) (call : Call) (adr : UInt64) :
    cachedByte s memory (calls ++ [call]) adr =
      (leavesByte s memory adr calls call).or (cachedByte s memory calls adr) := by
  rw [cachedByte, withPast_concat, latest_concat]
  rfl

end Foretold

end RealCache

namespace Geometry

open RealCache

variable (g : Geometry)

theorem getWordIndex_toNat (t : Nat → g.Block) (a : UInt64) :
    ((g.store t).getWordIndex a).toNat = g.byteOffset a / 4 := by
  rw [CacheStore.getWordIndex, UInt64.toNat_div, g.getByteIndex_toNat]
  rfl

/-- Tables whose tags follow the policy have the lines that it holds. -/
theorem holds_iff_cached (t₀ t : Nat → g.Block) (as : List UInt64)
    (htags : g.tagsHeld t = g.tagsAfter as) (a : UInt64) :
    (g.store t₀).Holds as a ↔ ∃ kept, g.cachedLine t a = some kept := by
  have hholds := g.holdsLine_tagsAfter t₀ as a
  rw [← htags] at hholds
  cases hheld : g.holdsLine (g.tagsHeld t) a with
  | true =>
    exact iff_of_true (of_decide_eq_true (hholds.symm.trans hheld))
      (g.cachedLine_of_holdsLine t a hheld)
  | false =>
    apply iff_of_false (of_decide_eq_false (hholds.symm.trans hheld))
    rw [g.cachedLine_of_not_holdsLine t a hheld]
    simp

theorem getElem?_byteOffset (buf : List UInt8) (hlen : buf.length = g.lineBytes) (a : UInt64) :
    buf[g.byteOffset a]? = some (buf.getD (g.byteOffset a) 0) := by
  have hlt : g.byteOffset a < buf.length := by
    rw [hlen]
    exact g.byteOffset_lt a
  rw [List.getD_eq_getElem?_getD, List.getElem?_eq_getElem hlt, Option.getD_some]

/-- The bytes that the cached lines hold, address by address. -/
def ShowsBytes (t : Nat → g.Block) (byteAt : UInt64 → Option UInt8) : Prop :=
  ∀ a kept, g.cachedLine t a = some kept → kept[g.byteOffset a]? = byteAt a

section ShowsBytes

variable (t : Nat → g.Block) (byteAt byteAt' : UInt64 → Option UInt8)

/-- A line that is set shows its own bytes, and the other lines the bytes that they had. -/
theorem showsBytes_set (hl : 4 ≤ g.lineBytes) (ht : g.ShowsBytes t byteAt) (adr : UInt64)
    (buf : List UInt8) (words : Nat → UInt32) (hlen : buf.length = g.lineBytes)
    (hself : ∀ a, g.lineNumber a = g.lineNumber adr → byteAt' a = buf[g.byteOffset a]?)
    (hother : ∀ a, g.lineNumber a ≠ g.lineNumber adr → byteAt' a = byteAt a) :
    g.ShowsBytes (g.setLine t adr (g.lineWords buf words)) byteAt' := by
  intro a kept hkept
  by_cases hsame : g.lineNumber a = g.lineNumber adr
  · rw [g.cachedLine_setLine_self hl t adr a buf words hlen hsame] at hkept
    rw [← Option.some.inj hkept, hself a hsame]
  · rw [hother a hsame]
    exact ht a kept (g.cachedLine_setLine_of_ne t adr a _ kept hsame hkept)

/-- A line that is set again with one byte changed shows this byte at its address only. -/
theorem showsBytes_write (hl : 4 ≤ g.lineBytes) (ht : g.ShowsBytes t byteAt) (adr : UInt64)
    (kept : List UInt8) (hkept : g.cachedLine t adr = some kept) (v : UInt8) (words : Nat → UInt32)
    (hself : byteAt' adr = some v) (hother : ∀ a, a ≠ adr → byteAt' a = byteAt a) :
    g.ShowsBytes (g.setLine t adr (g.lineWords (kept.set (g.byteOffset adr) v) words)) byteAt' := by
  have hlen := g.cachedLine_length hl t adr kept hkept
  apply g.showsBytes_set t byteAt byteAt' hl ht adr _ words (by rw [List.length_set, hlen])
  · intro a hsame
    by_cases ha : a = adr
    · have hlt : g.byteOffset adr < kept.length := by
        rw [hlen]
        exact g.byteOffset_lt adr
      rw [ha, hself, List.getElem?_set_self hlt]
    · have hoffset : g.byteOffset adr ≠ g.byteOffset a := by
        intro ho
        exact ha (g.eq_of_lineNumber_byteOffset a adr hsame ho.symm)
      rw [hother a ha, List.getElem?_set_ne hoffset]
      exact (ht a kept ((g.cachedLine_congr t a adr hsame).trans hkept)).symm
  · intro a hne
    exact hother a (fun ha => hne (congrArg g.lineNumber ha))

end ShowsBytes

end Geometry

namespace RealCache

section Requests

variable (g : Geometry) (t : Nat → g.Block) (c : RealCache SimplestMemory) (call : Call)

/-- What a fill gets from a memory of the default sizes. -/
theorem lineFill_bytes (hl : 4 ≤ g.lineBytes) (h32 : g.lineBytes ≤ 32)
    (hc : c.m_cacheStore = g.store t) (m m' : SimplestMemory) (hm : m.DefaultSizes) (delay : Nat)
    (r : Transport) (h : SimplestMemory.target.b_transport m
      (c.lineRequest call.trans.address c.newLine) delay = .ok (r, m')) :
    m' = m ∧ r.reports ++ errorReport call r.trans = [] ∧
      ∀ adr, r.trans.data[g.byteOffset adr]? =
        m.bytes[(g.store t).fillPlace call.trans.address adr]? := by
  obtain ⟨hp, hlines⟩ := hm
  obtain ⟨hle, rfl, rfl⟩ := (lineFill_iff g t c call hc m m' delay r).mp h
  have hcheck := m'.check_lineRequest g (by omega) (by omega) _
    (lineRequest_is g t c hc hl call.trans.address)
  refine ⟨rfl, ?_, ?_⟩
  · rw [hcheck]
    rfl
  · intro adr
    rw [slice_getElem? _ _ _ _ (g.byteOffset_lt adr), CacheStore.fillPlace, g.getWordIndex_toNat,
      g.getByteIndex_toNat, fillSource, c.lineSize_toNat g t hc]
    rfl

/-- A write that a memory of the default sizes gets changes the word at its address. -/
theorem forwarded_bytes (m m' : SimplestMemory) (hm : m.DefaultSizes) (hv : WordTraffic call.trans)
    (hwrite : call.trans.command = .write) (r : Transport)
    (h : SimplestMemory.target.b_transport m call.trans call.delay = .ok (r, m')) :
    r.trans = { call.trans with responseStatus := .ok } ∧ r.reports = [] ∧
      ∀ x, m'.bytes[x]? = if x / 4 = (call.trans.address / 4).toNat then call.trans.data[x % 4]?
        else m.bytes[x]? := by
  obtain ⟨hp, hlines⟩ := hm
  have hadr := hv.address_lt
  have hlen : call.trans.dataLength.toNat = 4 := by rw [hv.dataLength_eq]; rfl
  have hwidth : call.trans.dataLength ≤ call.trans.streamingWidth := by
    rw [hv.dataLength_eq]
    exact hv.streamingWidth_le
  obtain ⟨data, ha, rfl⟩ := (m.b_transport_ok m' call.trans call.delay r).mp h
  obtain ⟨rfl, hstore⟩ := (m.access_write m' call.trans data hwrite).mp ha
  obtain ⟨-, -, hcopy⟩ := m.store_ok m' _ _ _ hstore
  rw [hlen] at hcopy
  refine ⟨rfl, (m.check_eq_nil call.trans).mpr
    ⟨by omega, hv.byteEnablePtr_eq, by omega, hwidth⟩, ?_⟩
  intro x
  rw [memcpy_getElem? _ _ _ _ _ _ hcopy]
  by_cases hx : x / 4 = (call.trans.address / 4).toNat
  · have hoffset : 0 + (x - 4 * (call.trans.address / 4).toNat) = x % 4 := by omega
    rw [if_pos (by omega), if_pos hx, hoffset]
  · rw [if_neg (by omega), if_neg hx]

end Requests

section Step

variable (g : Geometry) (t₀ t : Nat → g.Block) (memory : SimplestMemory) (calls : List Call)
  (c : RealCache SimplestMemory) (call : Call)

theorem leavesByte_held (adr : UInt64)
    (hheld : (g.store t₀).Holds (addresses calls) call.trans.address) :
    leavesByte (g.store t₀) memory adr calls call =
      if call.trans.command = .write ∧ call.trans.address = adr then call.trans.data.head?
      else none := by
  rw [leavesByte, if_neg (fun h => h.2 hheld)]

theorem leavesByte_missed (adr : UInt64)
    (hmissed : ¬ (g.store t₀).Holds (addresses calls) call.trans.address)
    (hsame : g.lineNumber adr = g.lineNumber call.trans.address) :
    leavesByte (g.store t₀) memory adr calls call = memoryByte (g.store t₀) memory
      (calls ++ [call]) ((g.store t₀).fillPlace call.trans.address adr) := by
  rw [leavesByte, if_pos ⟨(g.getLineAddress_eq_iff t₀ _ _).mpr hsame.symm, hmissed⟩]

/-- A call leaves the other lines alone. -/
theorem leavesByte_of_ne (adr : UInt64) (hne : g.lineNumber adr ≠ g.lineNumber call.trans.address) :
    leavesByte (g.store t₀) memory adr calls call = none := by
  rw [leavesByte, if_neg, if_neg]
  · rintro ⟨-, rfl⟩
    exact hne rfl
  · intro h
    exact hne ((g.getLineAddress_eq_iff t₀ _ _).mp h.1).symm

/-- The tags behind a line that is set. -/
theorem tagsHeld_access (htags : g.tagsHeld t = policyTags g calls) (buf : List UInt32) :
    g.tagsHeld (g.setLine t call.trans.address buf) = policyTags g (calls ++ [call]) := by
  rw [g.tagsHeld_setLine, htags, policyTags_concat]

/-- What the calls so far tell about a cache that holds some tables. -/
structure Shows (c : RealCache SimplestMemory) : Prop where
  sizes : c.memory.DefaultSizes
  memory_eq : ∀ x, c.memory.bytes[x]? = memoryByte (g.store t₀) memory calls x
  store_eq : c.m_cacheStore = g.store t
  tags_eq : g.tagsHeld t = policyTags g calls
  lines_eq : g.ShowsBytes t (cachedByte (g.store t₀) memory calls)

/-- Only a write that misses reaches the memory. -/
theorem memoryByte_kept (x : Nat) (h : ¬ missesWrite (g.store t₀) calls call) :
    memoryByte (g.store t₀) memory (calls ++ [call]) x =
      memoryByte (g.store t₀) memory calls x := by
  rw [memoryByte_concat, storesByte, if_neg (fun hs => h hs.1), Option.none_or]

theorem not_missesWrite_read (hread : call.trans.command = .read) :
    ¬ missesWrite (g.store t₀) calls call := by
  rintro ⟨hwrite, -⟩
  simp [hread] at hwrite

theorem shows_read (hc : Shows g t₀ t memory calls c) (hread : call.trans.command = .read)
    (hheld : (g.store t₀).Holds (addresses calls) call.trans.address) :
    Shows g t₀ t memory (calls ++ [call]) c := by
  have hkept := not_missesWrite_read g t₀ calls call hread
  refine ⟨hc.sizes, ?_, hc.store_eq, ?_, ?_⟩
  · intro x
    rw [memoryByte_kept g t₀ memory calls call x hkept, hc.memory_eq]
  · rw [policyTags_concat, g.touch_held, hc.tags_eq]
    rw [holdsLine_policyTags g t₀]
    exact decide_eq_true hheld
  · intro adr kept hline
    have hsame : ¬ (call.trans.command = .write ∧ call.trans.address = adr) := by
      intro h
      simp [hread] at h
    rw [cachedByte_concat, leavesByte_held g t₀ memory calls call adr hheld, if_neg hsame,
      Option.none_or]
    exact hc.lines_eq adr kept hline

theorem shows_write (hl : 4 ≤ g.lineBytes) (hc : Shows g t₀ t memory calls c)
    (hwrite : call.trans.command = .write) (kept : List UInt8)
    (hkept : g.cachedLine t call.trans.address = some kept) (b : UInt8)
    (hdata : call.trans.data.head? = some b) (words : Nat → UInt32) :
    Shows g t₀ (g.setLine t call.trans.address
        (g.lineWords (kept.set (g.byteOffset call.trans.address) b) words)) memory (calls ++ [call])
      { c with m_cacheStore := g.store (g.setLine t call.trans.address
        (g.lineWords (kept.set (g.byteOffset call.trans.address) b) words)) } := by
  have hheld := (g.holds_iff_cached t₀ t _ hc.tags_eq call.trans.address).mpr ⟨kept, hkept⟩
  refine ⟨hc.sizes, ?_, rfl, tagsHeld_access g t calls call hc.tags_eq _, ?_⟩
  · intro x
    rw [memoryByte_kept g t₀ memory calls call x (fun h => h.2 hheld), hc.memory_eq]
  · apply g.showsBytes_write t _ _ hl hc.lines_eq _ kept hkept
    · rw [cachedByte_concat, leavesByte_held g t₀ memory calls call _ hheld, if_pos ⟨hwrite, rfl⟩,
        hdata, Option.some_or]
    · intro adr hne
      rw [cachedByte_concat, leavesByte_held g t₀ memory calls call _ hheld,
        if_neg (fun h => hne h.2.symm), Option.none_or]

/-- A miss leaves the line that the memory had by then where the fill read. -/
theorem shows_filled (hl : 4 ≤ g.lineBytes) (hc : Shows g t₀ t memory calls c)
    (hline : g.cachedLine t call.trans.address = none) (r : GenericPayload) (m : SimplestMemory)
    (hm : m.DefaultSizes)
    (hbytes : ∀ x, m.bytes[x]? = memoryByte (g.store t₀) memory (calls ++ [call]) x)
    (hlen : r.data.length = g.lineBytes)
    (hr : ∀ adr, r.data[g.byteOffset adr]? =
      m.bytes[(g.store t₀).fillPlace call.trans.address adr]?) :
    Shows g t₀ (g.setLine t call.trans.address (g.lineWords r.data call.past)) memory
      (calls ++ [call]) (filled g t call r m) := by
  have hmissed : ¬ (g.store t₀).Holds (addresses calls) call.trans.address := by
    rw [g.holds_iff_cached t₀ t _ hc.tags_eq call.trans.address, hline]
    simp
  refine ⟨hm, hbytes, rfl, tagsHeld_access g t calls call hc.tags_eq _, ?_⟩
  apply g.showsBytes_set t _ _ hl hc.lines_eq _ r.data call.past hlen
  · intro adr hsame
    rw [cachedByte_concat, leavesByte_missed g t₀ memory calls call adr hmissed hsame, ← hbytes,
      ← hr, g.getElem?_byteOffset r.data hlen, Option.some_or]
  · intro adr hne
    rw [cachedByte_concat, leavesByte_of_ne g t₀ memory calls call adr hne, Option.none_or]

/-- A read gets the byte that the cache has at its address by then. -/
theorem foretold_read (hc : Shows g t₀ t memory (calls ++ [call]) c)
    (hread : call.trans.command = .read) (kept : List UInt8)
    (hkept : g.cachedLine t call.trans.address = some kept) (b : UInt8) (rest : List UInt8)
    (hdata : call.trans.data = b :: rest) :
    { call.trans with
      data := kept.getD (g.byteOffset call.trans.address) 0 :: rest, responseStatus := .ok } =
      (foretold (g.store t₀) memory calls call).trans := by
  have hbyte := hc.lines_eq call.trans.address kept hkept
  simp only [foretold, if_pos hread, hdata, List.tail_cons, ← hbyte, List.getD_eq_getElem?_getD]

theorem foretold_write (hwrite : call.trans.command = .write) :
    { call.trans with responseStatus := .ok } =
      (foretold (g.store t₀) memory calls call).trans := by
  simp [foretold, hwrite]

/-- Every way that a call goes is the one foretold. -/
theorem shows_outcome (hl : 4 ≤ g.lineBytes) (h32 : g.lineBytes ≤ 32)
    (hc : Shows g t₀ t memory calls c) (hv : WordTraffic call.trans)
    (c' : RealCache SimplestMemory) (a : Answer)
    (hout : Outcome SimplestMemory.target g t c call a c') :
    ∃ t', Shows g t₀ t' memory (calls ++ [call]) c' ∧
      a.trans = (foretold (g.store t₀) memory calls call).trans ∧ a.reports = [] := by
  have hcached := g.holds_iff_cached t₀ t _ hc.tags_eq call.trans.address
  cases hout with
  | readHit kept b rest hread hkept hdata =>
    have hnext := shows_read g t₀ t memory calls c call hc hread (hcached.mpr ⟨kept, hkept⟩)
    exact ⟨t, hnext, foretold_read g t₀ t memory calls c call hnext hread kept hkept b rest hdata,
      rfl⟩
  | readMiss r m b rest hread hline hfill hdata =>
    have hlen := fill_length SimplestMemory.target g t c hc.store_eq _ _ _ _ r hfill
    obtain ⟨rfl, hreports, hbytes⟩ := lineFill_bytes g t c call hl h32 hc.store_eq _ m hc.sizes _ r
      hfill
    have hnot := not_missesWrite_read g t₀ calls call hread
    have hnext := shows_filled g t₀ t memory calls c call hl hc hline r.trans c.memory hc.sizes
      (fun x => by rw [memoryByte_kept g t₀ memory calls call x hnot, hc.memory_eq]) hlen hbytes
    have hself := g.cachedLine_setLine_self hl t call.trans.address call.trans.address r.trans.data
      call.past hlen rfl
    exact ⟨_, hnext, foretold_read g t₀ _ memory calls _ call hnext hread _ hself b rest hdata,
      hreports⟩
  | writeHit kept b rest hwrite hkept hdata =>
    exact ⟨_, shows_write g t₀ t memory calls c call hl hc hwrite kept hkept b (by rw [hdata]; rfl)
      call.past, foretold_write g t₀ memory calls call hwrite, rfl⟩
  | writeError r m hwrite hline hw herror =>
    obtain ⟨htrans, -, -⟩ := forwarded_bytes call c.memory m hc.sizes hv hwrite r hw
    rw [htrans] at herror
    simp [GenericPayload.isResponseError] at herror
  | writeMiss r f m m' hwrite hline hw hok hfill =>
    have hlen := fill_length SimplestMemory.target g t { c with memory := m } hc.store_eq _ _ _ _ f
      hfill
    obtain ⟨htrans, hreports, hword⟩ := forwarded_bytes call c.memory m hc.sizes hv hwrite r hw
    obtain ⟨_, _, hw', -, -, hm⟩ := write_answered call c.memory hc.sizes hv
    obtain ⟨-, rfl⟩ := ok_unique hw hw'
    obtain ⟨rfl, hreports', hbytes⟩ := lineFill_bytes g t { c with memory := m } call hl h32
      hc.store_eq m m' hm _ f hfill
    have hmissed : missesWrite (g.store t₀) calls call := by
      refine ⟨hwrite, ?_⟩
      rw [hcached, hline]
      simp
    have hmemory (x : Nat) : m'.bytes[x]? =
        memoryByte (g.store t₀) memory (calls ++ [call]) x := by
      have hdata := hv.data_le
      rw [hword, memoryByte_concat, storesByte, ← hc.memory_eq]
      by_cases hx : x / 4 = (call.trans.address / 4).toNat
      · have hlt : x % 4 < call.trans.data.length := by omega
        rw [if_pos hx, if_pos ⟨hmissed, hx⟩, List.getElem?_eq_getElem hlt, Option.some_or]
      · rw [if_neg hx, if_neg (fun h => hx h.2), Option.none_or]
    have hnext := shows_filled g t₀ t memory calls c call hl hc hline f.trans m' hm hmemory hlen
      hbytes
    refine ⟨_, hnext, ?_, ?_⟩
    · rw [← foretold_write g t₀ memory calls call hwrite]
      simp only [respond, htrans]
    · simp only [respond, hreports, hreports', List.nil_append]
  | ignored hi => exact absurd hi hv.command_ne

end Step

/-- Every call is answered as foretold. -/
theorem foretold_step (g : Geometry) (t₀ : Nat → g.Block) (memory : SimplestMemory)
    (hl : 4 ≤ g.lineBytes) (h32 : g.lineBytes ≤ 32) (calls : List Call)
    (c : RealCache SimplestMemory) (hc : ∃ t, Shows g t₀ t memory calls c) (call : Call)
    (hv : WordTraffic call.trans) :
    ∃ a c', c.b_transport SimplestMemory.target call = .ok (a, c') ∧
      (∃ t, Shows g t₀ t memory (calls ++ [call]) c') ∧
      a.transport = foretold (g.store t₀) memory calls call := by
  obtain ⟨t, hc⟩ := hc
  obtain ⟨a, c', hs, -, -, hdelay⟩ := access_timed g hl h32 _ c
    ⟨hc.sizes, t, hc.store_eq, hc.tags_eq⟩ call hv
  have hout := ((b_transport_iff SimplestMemory.target g t c c' call a hl hc.store_eq).mp hs).2
  obtain ⟨t', hnext, htrans, hreports⟩ := shows_outcome g t₀ t memory calls c call hl h32 hc hv c' a
    hout
  refine ⟨a, c', hs, ⟨t', hnext⟩, ?_⟩
  rw [Answer.transport, htrans, hreports, hdelay, accessDelay_policyTags g t₀]
  rfl

theorem shows_fresh (g : Geometry) (t₀ : Nat → g.Block) (memory : SimplestMemory)
    (hm : memory.DefaultSizes) :
    Shows g t₀ g.emptyBlocks memory [] (g.freshCache memory) := by
  refine ⟨hm, fun _ => rfl, rfl, rfl, ?_⟩
  intro adr kept hkept
  simp [Geometry.cachedLine, g.resident_empty] at hkept

end RealCache

namespace Geometry

open RealCache

variable (g : Geometry)

/-- The cache over its memory as a function of its history, with conflicts, evictions and write
misses: the policy on the addresses of the calls, their written bytes and the first contents of the
memory foretell every answer of a run, and what the memory holds at its end. -/
theorem answers_foretold (hl : 4 ≤ g.lineBytes) (h32 : g.lineBytes ≤ 32)
    (memory : SimplestMemory) (hm : memory.DefaultSizes) (calls : List Call)
    (hv : ∀ call ∈ calls, WordTraffic call.trans) :
    ∃ answers c, g.runCache SimplestMemory.target memory calls = .ok (answers, c) ∧
      answers.map Answer.transport =
        (withPast [] calls).map (fun e => foretold c.m_cacheStore memory e.1 e.2) ∧
      ∀ x, c.memory.bytes[x]? = memoryByte c.m_cacheStore memory calls x := by
  -- any tables do: what is foretold depends on the sizes of the store alone
  obtain ⟨answers, c, hr, hend, hall⟩ := run_foretold (b_transport SimplestMemory.target)
    (fun before c => ∃ t, Shows g g.emptyBlocks t memory before c) Answer.transport
    (foretold (g.store g.emptyBlocks) memory) (g.freshCache memory) calls
    (fun call hcall before c hc => foretold_step g g.emptyBlocks memory hl h32 before c hc call
      (hv call hcall))
    ⟨g.emptyBlocks, shows_fresh g g.emptyBlocks memory hm⟩
  obtain ⟨t, hc⟩ := hend
  refine ⟨answers, c, ?_, ?_, ?_⟩
  · rw [runCache_eq]
    exact hr
  · rw [hc.store_eq]
    exact hall
  · rw [hc.store_eq]
    exact hc.memory_eq

/-- A write miss, a write hit on its line, a read that gets the written byte from another line's
fill, and the first line again after its eviction, when the byte of the write hit is gone. -/
theorem answers_foretold_evicted :
    let memory := SimplestMemory.construct 1024 8 (List.replicate 1024 0)
      (SimplestMemory.allocated_replicate 1024 8 0 (by decide) (by decide))
    let calls := [Call.onWord .write 0x0 [7, 6, 5, 4], .onWord .write 0x4 [9, 0, 0, 0],
      .onWord .read 0x40 [0, 0, 0, 0], .onWord .read 0x80 [3, 3, 3, 3],
      .onWord .read 0x4 [0, 0, 0, 0]]
    ∃ answers c, topRealCache.runCache SimplestMemory.target memory calls = .ok (answers, c) ∧
      answers.map Answer.transport =
        (withPast [] calls).map (fun e => foretold c.m_cacheStore memory e.1 e.2) ∧
      ∀ x, c.memory.bytes[x]? = memoryByte c.m_cacheStore memory calls x :=
  topRealCache.answers_foretold (by decide) (by decide) _ ⟨rfl, rfl⟩ _ (by decide)

end Geometry

end FreeSampler
