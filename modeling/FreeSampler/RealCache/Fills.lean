import FreeSampler.Memory.SimplestMemory
import FreeSampler.RealCache.Runs

namespace FreeSampler

open Framework Tlm

namespace RealCache

/-- A transaction on an aligned word whose whole line lies inside the memory. -/
structure OnLineInside (c : RealCache SimplestMemory) (call : Call) : Prop where
  accesses : call.trans.command ≠ .ignore
  length_eq : call.trans.dataLength = 4
  buffer_le : 4 ≤ call.trans.data.length
  aligned : call.trans.address.toNat % 4 = 0
  inside : (c.m_cacheStore.getLineAddress call.trans.address).toNat +
    c.m_cacheStore.p_LineSize.toNat ≤ 4 * c.memory.p_PAGESIZE

/-- `len` bytes of the memory from a byte address on. -/
def slice (bytes : List UInt8) (start len : Nat) : List UInt8 := (bytes.drop start).take len

/-- A miss brings in the bytes that the memory holds for the line: they are what the cache
holds next, a read returns its byte of them, and a read after a write returns the byte written. -/
def FillsLine (c : RealCache SimplestMemory) (call : Call) : Prop :=
  ∃ a c', c.b_transport SimplestMemory.target call = .ok (a, c') ∧
    c'.lookupLine call.trans.address = .ok (true, slice c'.memory.bytes
      (c.m_cacheStore.getLineAddress call.trans.address).toNat c.m_cacheStore.p_LineSize.toNat) ∧
    (call.trans.command = .read →
      a.trans.data.head? = c'.memory.bytes[call.trans.address.toNat]?) ∧
    (call.trans.command = .write → ∀ next : Call, next.trans.command = .read →
      next.trans.address = call.trans.address → next.trans.dataLength = 4 → next.trans.data ≠ [] →
      ∃ b d, c'.b_transport SimplestMemory.target next = .ok (b, d) ∧
        b.trans.data.head? = call.trans.data.head?)

/-- The byte address from which the memory serves a line fill: `readLineFromMemory` sends the
word index within the line, and the memory takes it for a byte address. -/
def fillSource (c : RealCache SimplestMemory) (call : Call) : Nat :=
  4 * (call.trans.address.toNat % c.m_cacheStore.p_LineSize.toNat / 4 / 4)

/-- The memory's bytes when the line is read: a write has been forwarded by then. -/
def bytesAtFill (c : RealCache SimplestMemory) (call : Call) : List UInt8 :=
  match call.trans.command with
  | .write => c.memory.bytes.take call.trans.address.toNat ++ call.trans.data.take 4 ++
      c.memory.bytes.drop (call.trans.address.toNat + 4)
  | _ => c.memory.bytes

/-- The memory holds the same bytes where the fill reads and at the line address. -/
def SourceMatches (c : RealCache SimplestMemory) (call : Call) : Prop :=
  slice (c.bytesAtFill call) (c.fillSource call) c.m_cacheStore.p_LineSize.toNat =
    slice (c.bytesAtFill call) (c.m_cacheStore.getLineAddress call.trans.address).toNat
      c.m_cacheStore.p_LineSize.toNat

theorem slice_length (bytes : List UInt8) (start len : Nat) (h : start + len ≤ bytes.length) :
    (slice bytes start len).length = len := by
  rw [slice, List.length_take, List.length_drop]
  omega

theorem slice_getElem? (bytes : List UInt8) (start len i : Nat) (h : i < len) :
    (slice bytes start len)[i]? = bytes[start + i]? := by
  rw [slice, List.getElem?_take_of_lt h, List.getElem?_drop]

section Miss

variable (g : Geometry) (t : Nat → g.Block) (c c' : RealCache SimplestMemory) (call : Call)
  (a : Answer)

theorem address_split (hc : c.m_cacheStore = g.store t) : call.trans.address.toNat =
    (c.m_cacheStore.getLineAddress call.trans.address).toNat +
      g.byteOffset call.trans.address := by
  rw [hc, g.getLineAddress_toNat, Geometry.lineNumber, Geometry.lineBytes, Geometry.byteOffset]
  exact (Nat.div_add_mod' _ _).symm

theorem address_inside (hl : 4 ≤ g.lineBytes) (hc : c.m_cacheStore = g.store t)
    (h : c.OnLineInside call) : call.trans.address.toNat + 4 ≤ 4 * c.memory.p_PAGESIZE := by
  have hq := g.lineBytes_eq hl
  have hs := address_split g t c call hc
  have hi := h.inside
  have ha := h.aligned
  have ho := g.byteOffset_lt call.trans.address
  have hline : (c.m_cacheStore.getLineAddress call.trans.address).toNat % 4 = 0 := by
    rw [hc, g.getLineAddress_toNat, hq, ← Nat.mul_assoc, Nat.mul_comm _ 4, Nat.mul_assoc]
    exact Nat.mul_mod_right 4 _
  have hsize := c.lineSize_toNat g t hc
  omega

theorem bytesAtFill_length (hl : 4 ≤ g.lineBytes) (hc : c.m_cacheStore = g.store t)
    (h : c.OnLineInside call) : (c.bytesAtFill call).length = 4 * c.memory.p_PAGESIZE := by
  have hi := address_inside g t c call hl hc h
  have hb := h.buffer_le
  rw [bytesAtFill]
  split
  · simp only [List.length_append, List.length_take, List.length_drop, SimplestMemory.bytes_length]
    omega
  · exact c.memory.bytes_length

theorem lineFill_iff (hc : c.m_cacheStore = g.store t) (m m' : SimplestMemory) (delay : Nat)
    (r : Transport) : SimplestMemory.target.b_transport m
        (c.lineRequest call.trans.address c.newLine) delay = .ok (r, m') ↔
      c.fillSource call + g.lineBytes ≤ m.bytes.length ∧ m' = m ∧
        r = ⟨{ c.lineRequest call.trans.address c.newLine with
          data := slice m.bytes (c.fillSource call) g.lineBytes, responseStatus := .ok },
          delay + 100, m.check (c.lineRequest call.trans.address c.newLine)⟩ := by
  have hnew := c.newLine_length g t hc
  have hpos : 0 < g.lineBytes := Nat.two_pow_pos _
  have hsize := c.lineSize_toNat g t hc
  have hlen : (c.lineRequest call.trans.address c.newLine).dataLength.toNat = g.lineBytes := by
    have hle : g.lineBytes ≤ 2 ^ 10 := Nat.pow_le_pow_right (by decide) g.lineBits_le
    simp only [lineRequest, UInt64.toNat_toUInt32, hsize]
    omega
  have hadr : 4 * ((c.lineRequest call.trans.address c.newLine).address / 4).toNat =
      c.fillSource call := by
    simp only [lineRequest, CacheStore.getWordIndex, UInt64.toNat_div, UInt64.reduceToNat,
      fillSource, hsize]
    rw [hc, g.getByteIndex_toNat]
  have hread := SimplestMemory.access_read m m' (c.lineRequest call.trans.address c.newLine)
  change m.b_transport _ _ = _ ↔ _
  rw [SimplestMemory.b_transport_ok]
  constructor
  · intro h
    obtain ⟨data, ha, rfl⟩ := h
    obtain ⟨rfl, hm⟩ := (hread data rfl).mp ha
    rw [hadr, hlen] at hm
    obtain ⟨hle, rfl⟩ := (memcpy_whole _ _ _ _ _ hnew hpos).mp hm
    exact ⟨hle, rfl, rfl⟩
  · intro h
    obtain ⟨hle, rfl, rfl⟩ := h
    refine ⟨_, (hread _ rfl).mpr ⟨rfl, ?_⟩, rfl⟩
    rw [hadr, hlen]
    exact (memcpy_whole _ _ _ _ _ hnew hpos).mpr ⟨hle, rfl⟩

/-- The memory takes a forwarded write, and then holds its four bytes at the address. -/
theorem forwardedWrite (hl : 4 ≤ g.lineBytes) (hc : c.m_cacheStore = g.store t)
    (h : c.OnLineInside call) (hw : call.trans.command = .write) :
    ∃ r written, SimplestMemory.target.b_transport c.memory call.trans call.delay =
        .ok (r, written) ∧ r.trans.isResponseError = false ∧
      written.p_PAGESIZE = c.memory.p_PAGESIZE ∧ written.bytes = c.bytesAtFill call := by
  have hi := address_inside g t c call hl hc h
  have ha := h.aligned
  have hb := h.buffer_le
  have hadr := SimplestMemory.word_address call.trans ha
  have hlen : call.trans.dataLength.toNat = 4 := by rw [h.length_eq]; rfl
  obtain ⟨written, hs⟩ := c.memory.store_inside (call.trans.address / 4).toNat call.trans.data 4
    hb (by omega)
  obtain ⟨hp, -, hm⟩ := c.memory.store_ok written _ _ _ hs
  rw [hadr, memcpy_ok _ _ _ _ _ (by omega) (by rw [SimplestMemory.bytes_length]; exact hi)] at hm
  refine ⟨_, written, (c.memory.b_transport_ok written call.trans call.delay _).mpr ⟨call.trans.data,
    (c.memory.access_write written call.trans _ hw).mpr ⟨rfl, by rw [hlen]; exact hs⟩, rfl⟩,
    rfl, hp, ?_⟩
  rw [bytesAtFill, hw, ← Except.ok.inj hm, List.drop_zero]

/-- A miss over the simplest memory installs the bytes at the fill's source. -/
theorem miss_fills (hl : 4 ≤ g.lineBytes) (hc : c.m_cacheStore = g.store t)
    (h : c.OnLineInside call) (hmiss : g.cachedLine t call.trans.address = none)
    (hs : c.b_transport SimplestMemory.target call = .ok (a, c')) :
    ∃ f memory, c' = filled g t call f memory ∧ memory.bytes = c.bytesAtFill call ∧
      c.fillSource call + g.lineBytes ≤ (c.bytesAtFill call).length ∧
      f.data = slice (c.bytesAtFill call) (c.fillSource call) g.lineBytes ∧
      (call.trans.command = .read →
        a.trans.data.head? = some (f.data.getD (g.byteOffset call.trans.address) 0)) := by
  have hout := ((b_transport_iff SimplestMemory.target g t c c' call a hl hc).mp hs).2
  cases hout with
  | readHit line b rest _ hline => simp [hmiss] at hline
  | readMiss r memory b rest hread _ hfill _ =>
    have hbytes : c.bytesAtFill call = c.memory.bytes := by rw [bytesAtFill, hread]
    obtain ⟨hle, rfl, rfl⟩ := (lineFill_iff g t c call hc _ _ _ _).mp hfill
    rw [hbytes]
    exact ⟨_, _, rfl, rfl, hle, rfl, fun _ => rfl⟩
  | writeHit line b rest _ hline => simp [hmiss] at hline
  | writeError r memory hw _ hwrite herror =>
    obtain ⟨r', written, hr', hok, _⟩ := forwardedWrite g t c call hl hc h hw
    obtain ⟨rfl, _⟩ := ok_unique hwrite hr'
    simp [hok] at herror
  | writeMiss r f written memory hw _ hwrite _ hfill =>
    obtain ⟨r', written', hr', _, _, hbytes⟩ := forwardedWrite g t c call hl hc h hw
    obtain ⟨rfl, rfl⟩ := ok_unique hwrite hr'
    obtain ⟨hle, rfl, rfl⟩ := (lineFill_iff g t c call hc _ _ _ _).mp hfill
    rw [hbytes] at hle
    refine ⟨_, _, rfl, hbytes, hle, by rw [hbytes], ?_⟩
    intro hr
    simp [hw] at hr
  | ignored hi => exact absurd hi h.accesses

theorem miss_answered (hl : 4 ≤ g.lineBytes) (hc : c.m_cacheStore = g.store t)
    (h : c.OnLineInside call) (hmiss : g.cachedLine t call.trans.address = none)
    (hle : c.fillSource call + g.lineBytes ≤ 4 * c.memory.p_PAGESIZE) :
    ∃ a c', c.b_transport SimplestMemory.target call = .ok (a, c') := by
  cases hcommand : call.trans.command with
  | read =>
    have hb := h.buffer_le
    have hne : call.trans.data ≠ [] := List.ne_nil_of_length_pos (by omega)
    obtain ⟨b, rest, hdata⟩ := List.exists_cons_of_ne_nil hne
    have hfill := (lineFill_iff g t c call hc c.memory c.memory call.delay _).mpr
      ⟨by rw [SimplestMemory.bytes_length]; exact hle, rfl, rfl⟩
    exact ⟨_, _, (b_transport_iff SimplestMemory.target g t c _ call _ hl hc).mpr
      ⟨h.length_eq, .readMiss _ _ b rest hcommand hmiss hfill hdata⟩⟩
  | write =>
    obtain ⟨r, written, hwrite, hok, hp, _⟩ := forwardedWrite g t c call hl hc h hcommand
    have hfill := (lineFill_iff g t c call hc written written r.delay _).mpr
      ⟨by rw [SimplestMemory.bytes_length, hp]; exact hle, rfl, rfl⟩
    exact ⟨_, _, (b_transport_iff SimplestMemory.target g t c _ call _ hl hc).mpr
      ⟨h.length_eq, .writeMiss r _ written _ hcommand hmiss hwrite hok hfill⟩⟩
  | ignore => exact absurd hcommand h.accesses

theorem lookupLine_filled (hl : 4 ≤ g.lineBytes) (f : GenericPayload) (memory : SimplestMemory)
    (hf : f.data.length = g.lineBytes) :
    (filled g t call f memory).lookupLine call.trans.address = .ok (true, f.data) :=
  lookupLine_hit g _ (filled g t call f memory) hl rfl call.trans.address f.data
    (g.cachedLine_setLine_self hl t _ _ f.data call.past hf rfl)

theorem bytesAtFill_written (hl : 4 ≤ g.lineBytes) (hc : c.m_cacheStore = g.store t)
    (h : c.OnLineInside call) (hw : call.trans.command = .write) :
    (c.bytesAtFill call)[call.trans.address.toNat]? = call.trans.data.head? := by
  have hi := address_inside g t c call hl hc h
  have hb := h.buffer_le
  rw [bytesAtFill, hw]
  dsimp only
  rw [List.append_assoc, List.getElem?_append_right (by simp),
    List.length_take, SimplestMemory.bytes_length, Nat.min_eq_left (by omega), Nat.sub_self,
    List.getElem?_append_left (by rw [List.length_take]; omega),
    List.getElem?_take_of_lt (by decide), List.head?_eq_getElem?]

theorem fillSource_inside (hl : 4 ≤ g.lineBytes) (hc : c.m_cacheStore = g.store t)
    (h : c.OnLineInside call) (hmatch : c.SourceMatches call) :
    c.fillSource call + g.lineBytes ≤ (c.bytesAtFill call).length := by
  have hsize := c.lineSize_toNat g t hc
  have hinside := h.inside
  have hfl := bytesAtFill_length g t c call hl hc h
  have hpos : 0 < g.lineBytes := Nat.two_pow_pos _
  rw [hsize] at hinside
  rw [SourceMatches, hsize] at hmatch
  have hlen := congrArg List.length hmatch
  rw [slice_length _ (c.m_cacheStore.getLineAddress call.trans.address).toNat _ (by omega), slice,
    List.length_take, List.length_drop] at hlen
  omega

/-- Where the two ranges hold the same bytes, the byte of the line at the address's place is
the memory's byte at the address. -/
theorem filledByte_eq (hc : c.m_cacheStore = g.store t) (hmatch : c.SourceMatches call)
    (hle : c.fillSource call + g.lineBytes ≤ (c.bytesAtFill call).length) :
    some ((slice (c.bytesAtFill call) (c.fillSource call) g.lineBytes).getD
      (g.byteOffset call.trans.address) 0) = (c.bytesAtFill call)[call.trans.address.toNat]? := by
  have hsplit := address_split g t c call hc
  have hoff := g.byteOffset_lt call.trans.address
  have hlen := slice_length _ _ _ hle
  have hbyte : (slice (c.bytesAtFill call) (c.fillSource call) g.lineBytes)[
      g.byteOffset call.trans.address]? = (c.bytesAtFill call)[call.trans.address.toNat]? := by
    rw [SourceMatches, c.lineSize_toNat g t hc] at hmatch
    rw [hmatch, slice_getElem? _ _ _ _ hoff, ← hsplit]
  rw [← hbyte, List.getD_eq_getElem?_getD, List.getElem?_eq_getElem (by omega), Option.getD_some]

/-- A miss fills its line right exactly when the two ranges hold the same bytes. -/
theorem fillsLine_iff_tables (hl : 4 ≤ g.lineBytes) (hc : c.m_cacheStore = g.store t)
    (h : c.OnLineInside call) (hmiss : g.cachedLine t call.trans.address = none) :
    c.FillsLine call ↔ c.SourceMatches call := by
  have hsize := c.lineSize_toNat g t hc
  constructor
  · intro hfills
    obtain ⟨a, c', hs, hline, _⟩ := hfills
    obtain ⟨f, memory, rfl, hbytes, hle, hdata, _⟩ := miss_fills g t c c' call a hl hc h hmiss hs
    have hflen : f.data.length = g.lineBytes := by rw [hdata, slice_length _ _ _ hle]
    rw [lookupLine_filled g t call hl f memory hflen] at hline
    have heq := (ok_inj hline).2
    rw [SourceMatches, hsize, ← hdata, heq, hsize]
    exact congrArg (fun bytes => slice bytes _ _) hbytes
  · intro hmatch
    have hle := fillSource_inside g t c call hl hc h hmatch
    have hfl := bytesAtFill_length g t c call hl hc h
    obtain ⟨a, c', hs⟩ := miss_answered g t c call hl hc h hmiss (by omega)
    obtain ⟨f, memory, rfl, hbytes, _, hdata, hread⟩ := miss_fills g t c c' call a hl hc h hmiss hs
    have hflen : f.data.length = g.lineBytes := by rw [hdata, slice_length _ _ _ hle]
    have hbyte := filledByte_eq g t c call hc hmatch hle
    rw [← hdata] at hbyte
    refine ⟨a, _, hs, ?_, ?_, ?_⟩
    · rw [SourceMatches, hsize] at hmatch
      rw [lookupLine_filled g t call hl f memory hflen, hdata, hmatch, hsize]
      exact congrArg (fun bytes => Except.ok (true, slice bytes _ _)) hbytes.symm
    · intro hr
      rw [hread hr, hbyte]
      exact congrArg (fun bytes => bytes[call.trans.address.toNat]?) hbytes.symm
    · intro hw next hnread hnadr hnlen hndata
      obtain ⟨b, rest, hb⟩ := List.exists_cons_of_ne_nil hndata
      have hnext : g.cachedLine (g.setLine t call.trans.address (g.lineWords f.data call.past))
          next.trans.address = some f.data := by
        rw [hnadr]
        exact g.cachedLine_setLine_self hl t _ _ f.data call.past hflen rfl
      refine ⟨_, _, (b_transport_iff SimplestMemory.target g _ (filled g t call f memory) _ next _
        hl rfl).mpr ⟨hnlen, .readHit f.data b rest hnread hnext hb⟩, ?_⟩
      simp only [respond, List.head?_cons]
      rw [hnadr, hbyte]
      exact bytesAtFill_written g t c call hl hc h hw

end Miss

end RealCache

namespace Geometry

open RealCache

variable (g : Geometry)

/-- In every reachable cache over every simplest memory, a miss on an aligned word brings in
its line exactly when the memory holds the same bytes where the fill reads. -/
theorem fillsLine_iff (hl : 4 ≤ g.lineBytes) (memory : SimplestMemory) (calls : List Call)
    (answers : List Answer) (c : RealCache SimplestMemory)
    (hrun : g.runCache SimplestMemory.target memory calls = .ok (answers, c)) (call : Call)
    (h : c.OnLineInside call) (hmiss : ¬ c.m_cacheStore.IsResident call.trans.address) :
    c.FillsLine call ↔ c.SourceMatches call := by
  obtain ⟨t, ht⟩ := g.holdsTables_runCache SimplestMemory.target hl memory calls answers c hrun
  rw [ht, isResident_iff, not_exists] at hmiss
  exact fillsLine_iff_tables g t c call hl ht h (Option.eq_none_iff_forall_ne_some.mpr hmiss)

/-- The first line is filled right. -/
theorem fillsLine_iff_first_line :
    (topRealCache.freshCache SimplestMemory.small).FillsLine (.onWord .read 0x4 [7, 7, 7, 7]) ↔
      (topRealCache.freshCache SimplestMemory.small).SourceMatches
        (.onWord .read 0x4 [7, 7, 7, 7]) := by
  refine topRealCache.fillsLine_iff (by decide) SimplestMemory.small [] [] _ ?_ _
    ⟨by decide, by decide, by decide, by decide, by decide⟩ ?_
  · rw [runCache_eq]
    rfl
  · rw [freshCache, isResident_store, not_not]
    rfl

/-- The first transaction writes 5 at address 8: the cache gets the first line of the memory
instead of the written one, and reads 0 back. -/
theorem fillsLine_fails :
    (topRealCache.runCache SimplestMemory.target SimplestMemory.small
      [.onWord .write 0x8 [5, 0, 0, 0], .onWord .read 0x8 [7, 7, 7, 7]]).map
        (fun p => p.1.map (fun a => (a.trans.data, a.trans.responseStatus))) =
      .ok [([5, 0, 0, 0], .ok), ([0, 7, 7, 7], .ok)] ∧
    ¬ (topRealCache.freshCache SimplestMemory.small).FillsLine
      (.onWord .write 0x8 [5, 0, 0, 0]) := by
  refine ⟨by decide +kernel, ?_⟩
  rw [fillsLine_iff_tables topRealCache topRealCache.emptyBlocks
    (topRealCache.freshCache SimplestMemory.small) _ (by decide) rfl
    ⟨by decide, by decide, by decide, by decide, by decide⟩ rfl]
  rw [SourceMatches]
  decide +kernel

end Geometry

end FreeSampler
