import FreeSampler.RealCache.Fills
import FreeSampler.RealCache.Targets
import FreeSampler.RealCache.Words

namespace FreeSampler

open Framework Tlm

/-- Memories of equal sizes that hold the same first `n` bytes. -/
structure SimplestMemory.SamePrefix (n : Nat) (m m' : SimplestMemory) : Prop where
  p_PAGESIZE_eq : m'.p_PAGESIZE = m.p_PAGESIZE
  p_LINESIZE_eq : m'.p_LINESIZE = m.p_LINESIZE
  bytes_eq : ∀ i < n, m'.bytes[i]? = m.bytes[i]?

namespace SimplestMemory

theorem SamePrefix.symm (n : Nat) (m m' : SimplestMemory) (h : SamePrefix n m m') :
    SamePrefix n m' m := by
  refine ⟨h.p_PAGESIZE_eq.symm, h.p_LINESIZE_eq.symm, ?_⟩
  intro i hi
  exact (h.bytes_eq i hi).symm

theorem SamePrefix.check_eq (n : Nat) (m m' : SimplestMemory) (h : SamePrefix n m m')
    (trans : GenericPayload) : m'.check trans = m.check trans :=
  m.check_congr m' h.p_PAGESIZE_eq h.p_LINESIZE_eq trans

/-- A write that one of them takes is taken by the other, and leaves the same prefix. -/
theorem samePrefix_write (n : Nat) (m m' u : SimplestMemory) (h : SamePrefix n m m')
    (trans : GenericPayload) (hwrite : trans.command = .write) (delay : Nat) (r : Transport)
    (hs : m.b_transport trans delay = .ok (r, u)) :
    ∃ u', m'.b_transport trans delay = .ok (r, u') ∧ SamePrefix n u u' := by
  obtain ⟨data, ha, rfl⟩ := (m.b_transport_ok u trans delay r).mp hs
  obtain ⟨rfl, hstore⟩ := (m.access_write u trans data hwrite).mp ha
  have hfits := (m.store_ok_iff _ _ _).mp ⟨u, hstore⟩
  rw [← h.p_PAGESIZE_eq] at hfits
  obtain ⟨u', hstore'⟩ := (m'.store_ok_iff _ _ _).mpr hfits
  obtain ⟨hp, hl, hcopy⟩ := m.store_ok u _ _ _ hstore
  obtain ⟨hp', hl', hcopy'⟩ := m'.store_ok u' _ _ _ hstore'
  have haccess := (m'.access_write u' trans trans.data hwrite).mpr ⟨rfl, hstore'⟩
  refine ⟨u', (m'.b_transport_ok u' trans delay _).mpr ⟨trans.data, haccess, ?_⟩, ?_, ?_, ?_⟩
  · rw [h.check_eq]
  · rw [hp', hp, h.p_PAGESIZE_eq]
  · rw [hl', hl, h.p_LINESIZE_eq]
  · intro i hi
    rw [memcpy_getElem? _ _ _ _ _ _ hcopy, memcpy_getElem? _ _ _ _ _ _ hcopy', h.bytes_eq i hi]

end SimplestMemory

namespace Geometry

open RealCache SimplestMemory

variable (g : Geometry)

/-- The bytes of the memory that a cache of these lines can show: no fill reads behind them. -/
def shownBytes : Nat := g.lineBytes + 4 * ((g.lineBytes - 1) / 16)

/-- A line request is answered from the shown bytes. -/
theorem samePrefix_line (m m' u : SimplestMemory) (h : SamePrefix g.shownBytes m m')
    (trans : GenericPayload) (hline : LineRequest g trans) (delay : Nat) (r : Transport)
    (hs : m.b_transport trans delay = .ok (r, u)) :
    ∃ u', m'.b_transport trans delay = .ok (r, u') ∧ SamePrefix g.shownBytes u u' := by
  have hpos : 0 < g.lineBytes := Nat.two_pow_pos _
  have hbuffer : trans.data.length = g.lineBytes := by rw [hline.data_eq, List.length_replicate]
  have hsource : 4 * (trans.address / 4).toNat + g.lineBytes ≤ g.shownBytes := by
    have hlt := hline.address_lt
    simp only [UInt64.toNat_div, UInt64.reduceToNat, shownBytes]
    omega
  obtain ⟨data, ha, rfl⟩ := (m.b_transport_ok u trans delay r).mp hs
  obtain ⟨rfl, hcopy⟩ := (m.access_read u trans data hline.command_eq).mp ha
  rw [hline.dataLength_eq] at hcopy
  obtain ⟨hinside, hdata⟩ := (memcpy_whole _ _ _ _ _ hbuffer hpos).mp hcopy
  have hsame : data = slice m'.bytes (4 * (trans.address / 4).toNat) g.lineBytes := by
    rw [hdata]
    apply List.ext_getElem?
    intro i
    by_cases hi : i < g.lineBytes
    · rw [slice_getElem? _ _ _ _ hi, h.bytes_eq _ (by omega), List.getElem?_take_of_lt hi,
        List.getElem?_drop]
    · rw [slice, List.getElem?_take_eq_none (by omega), List.getElem?_take_eq_none (by omega)]
  have haccess : m'.access trans = .ok (data, m') := by
    apply (m'.access_read m' trans data hline.command_eq).mpr
    rw [hline.dataLength_eq]
    rw [bytes_length, ← h.p_PAGESIZE_eq, ← bytes_length] at hinside
    exact ⟨rfl, (memcpy_whole _ _ _ _ _ hbuffer hpos).mpr ⟨hinside, hsame⟩⟩
  exact ⟨m', (m'.b_transport_ok m' trans delay _).mpr ⟨data, haccess, by rw [h.check_eq]⟩, h⟩

/-- The two requests that reach a memory cannot tell it from one with the same shown bytes. -/
theorem samePrefix_simulated : SimplestMemory.target.SimulatedBy SimplestMemory.target
    (fun trans => trans.command = .write ∨ LineRequest g trans) (SamePrefix g.shownBytes) := by
  intro m m' trans delay r u h hV hs
  rcases hV with hwrite | hline
  · exact samePrefix_write g.shownBytes m m' u h trans hwrite delay r hs
  · exact g.samePrefix_line m m' u h trans hline delay r hs

/-- A run over one memory is a run over the other, with the same answers. -/
theorem runCache_samePrefix (hl : 4 ≤ g.lineBytes) (m m' : SimplestMemory)
    (h : SamePrefix g.shownBytes m m') (calls : List Call) (answers : List Answer)
    (c : RealCache SimplestMemory)
    (hrun : g.runCache SimplestMemory.target m calls = .ok (answers, c)) :
    ∃ c', g.runCache SimplestMemory.target m' calls = .ok (answers, c') := by
  obtain ⟨c', hrun', _⟩ := runCache_simulated SimplestMemory.target SimplestMemory.target _ _ g hl
    g.samePrefix_simulated (fun trans => Or.inr) m m' h calls (fun call _ => Or.inl) answers c hrun
  exact ⟨c', hrun'⟩

/-- A read of the four bytes at an address. -/
def readAt (a : Nat) : Call := .onWord .read (UInt64.ofNat a) [0, 0, 0, 0]

theorem readAt_address (a : Nat) (ha : a < g.lineBytes) : (readAt a).trans.address.toNat = a := by
  have hle : g.lineBytes ≤ 2 ^ 10 := Nat.pow_le_pow_right (by decide) g.lineBits_le
  show (UInt64.ofNat a).toNat = a
  rw [UInt64.toNat_ofNat']
  omega

theorem readAt_firstLine (a b : Nat) (ha : a < g.lineBytes) (hb : b < g.lineBytes) :
    g.lineNumber (readAt a).trans.address = g.lineNumber (readAt b).trans.address := by
  rw [lineNumber, lineNumber, g.readAt_address a ha, g.readAt_address b hb]
  exact (Nat.div_eq_of_lt ha).trans (Nat.div_eq_of_lt hb).symm

/-- A first read at `16 * k` fills the first line from the bytes `4 * k` on. -/
theorem first_read (hl : 4 ≤ g.lineBytes) (m : SimplestMemory) (k : Nat)
    (hk : 16 * k < g.lineBytes) (hm : 4 * k + g.lineBytes ≤ 4 * m.p_PAGESIZE) :
    ∃ a c t, (g.freshCache m).b_transport SimplestMemory.target (readAt (16 * k)) = .ok (a, c) ∧
      c.m_cacheStore = g.store t ∧ g.cachedLine t (readAt (16 * k)).trans.address =
        some (slice m.bytes (4 * k) g.lineBytes) := by
  have hadr := g.readAt_address _ hk
  have hsize := (g.freshCache m).lineSize_toNat g g.emptyBlocks rfl
  have hsource : (g.freshCache m).fillSource (readAt (16 * k)) = 4 * k := by
    rw [fillSource, hadr, hsize, Nat.mod_eq_of_lt hk]
    omega
  have hinside : OnLineInside (g.freshCache m) (readAt (16 * k)) := by
    refine ⟨Command.noConfusion, rfl, Nat.le_refl 4, by omega, ?_⟩
    rw [hsize]
    show ((g.store g.emptyBlocks).getLineAddress _).toNat + _ ≤ 4 * m.p_PAGESIZE
    have hfirst : g.lineNumber (readAt (16 * k)).trans.address = 0 := by
      rw [lineNumber, hadr]
      exact Nat.div_eq_of_lt hk
    rw [g.getLineAddress_toNat, hfirst]
    omega
  obtain ⟨a, c, hs⟩ := miss_answered g g.emptyBlocks (g.freshCache m) (readAt (16 * k)) hl rfl
    hinside rfl (by rw [hsource]; exact hm)
  obtain ⟨f, memory, rfl, _, hle, hdata, _⟩ := miss_fills g g.emptyBlocks (g.freshCache m) c
    (readAt (16 * k)) a hl rfl hinside rfl hs
  have hbytes : (g.freshCache m).bytesAtFill (readAt (16 * k)) = m.bytes := rfl
  rw [hsource, hbytes] at hdata
  refine ⟨a, _, _, hs, rfl, ?_⟩
  rw [← hdata]
  apply g.cachedLine_setLine_self hl _ _ _ f.data
  · rw [hdata]
    exact slice_length _ _ _ (by rw [bytes_length]; exact hm)
  · rfl

/-- A second read delivers any byte of the line. -/
theorem two_reads (hl : 4 ≤ g.lineBytes) (m : SimplestMemory) (k x : Nat)
    (hk : 16 * k < g.lineBytes) (hx : x < g.lineBytes)
    (hm : 4 * k + g.lineBytes ≤ 4 * m.p_PAGESIZE) :
    ∃ a b c, g.runCache SimplestMemory.target m [readAt (16 * k), readAt x] = .ok ([a, b], c) ∧
      b.trans.data.head? = m.bytes[4 * k + x]? := by
  obtain ⟨a, c, t, hs, hc, hline⟩ := g.first_read hl m k hk hm
  have hlen : (slice m.bytes (4 * k) g.lineBytes).length = g.lineBytes :=
    slice_length _ _ _ (by rw [bytes_length]; exact hm)
  rw [g.cachedLine_congr t _ _ (g.readAt_firstLine (16 * k) x hk hx)] at hline
  obtain ⟨b, hs', hb⟩ := readHit_firstByte SimplestMemory.target g hl t c hc _ _ hline (readAt x)
    ⟨rfl, rfl, rfl⟩ (Nat.le_refl 4)
  refine ⟨a, b, c, ?_, ?_⟩
  · rw [runCache_eq]
    exact run_pair_ok _ _ _ _ _ _ _ _ hs hs'
  · rw [hb, List.head?_cons, byteOffset, g.readAt_address x hx, Nat.mod_eq_of_lt hx,
      ← slice_getElem? m.bytes (4 * k) g.lineBytes x hx, List.getD_eq_getElem?_getD,
      List.getElem?_eq_getElem (by omega), Option.getD_some]

/-- What a cache shows of its memory: two memories of equal sizes give the same answers in every
run of calls exactly when their first `shownBytes` bytes are the same. -/
theorem sameAnswers_iff (hl : 4 ≤ g.lineBytes) (m m' : SimplestMemory)
    (hp : m'.p_PAGESIZE = m.p_PAGESIZE) (hline : m'.p_LINESIZE = m.p_LINESIZE)
    (hm : g.shownBytes ≤ 4 * m.p_PAGESIZE) :
    (∀ calls answers, (∃ c, g.runCache SimplestMemory.target m calls = .ok (answers, c)) ↔
      ∃ c', g.runCache SimplestMemory.target m' calls = .ok (answers, c')) ↔
    m'.bytes.take g.shownBytes = m.bytes.take g.shownBytes := by
  constructor
  · intro hsame
    have hbyte (k x : Nat) (hk : 16 * k < g.lineBytes) (hx : x < g.lineBytes) :
        m'.bytes[4 * k + x]? = m.bytes[4 * k + x]? := by
      have hinside : 4 * k + g.lineBytes ≤ 4 * m.p_PAGESIZE := by
        rw [shownBytes] at hm
        omega
      obtain ⟨a, b, c, hrun, hb⟩ := g.two_reads hl m k x hk hx hinside
      obtain ⟨a', b', c', hrun', hb'⟩ := g.two_reads hl m' k x hk hx (by rw [hp]; exact hinside)
      obtain ⟨d, hd⟩ := (hsame _ _).mp ⟨c, hrun⟩
      have heq := (ok_unique hd hrun').1
      simp only [List.cons.injEq] at heq
      rw [← hb', ← hb, heq.2.1]
    apply List.ext_getElem?
    intro i
    by_cases hi : i < g.shownBytes
    · rw [List.getElem?_take_of_lt hi, List.getElem?_take_of_lt hi]
      have hpos : 0 < g.lineBytes := Nat.two_pow_pos _
      rw [shownBytes] at hi
      -- byte `i` lies in the last fill that starts at or before it
      have hsplit : i = 4 * min (i / 4) ((g.lineBytes - 1) / 16) +
          (i - 4 * min (i / 4) ((g.lineBytes - 1) / 16)) := by omega
      rw [hsplit]
      exact hbyte _ _ (by omega) (by omega)
    · rw [List.getElem?_take_eq_none (by omega), List.getElem?_take_eq_none (by omega)]
  · intro hshown calls answers
    have h : SamePrefix g.shownBytes m m' := by
      refine ⟨hp, hline, ?_⟩
      intro i hi
      rw [← List.getElem?_take_of_lt hi, hshown, List.getElem?_take_of_lt hi]
    constructor
    · intro hrun
      obtain ⟨c, hrun⟩ := hrun
      exact g.runCache_samePrefix hl m m' h calls answers c hrun
    · intro hrun
      obtain ⟨c, hrun⟩ := hrun
      exact g.runCache_samePrefix hl m' m h.symm calls answers c hrun

/-- Behind the cache of the test system, which shows the first eight bytes of its memory, a memory
whose other words are all 9 is as good as one whose words are all 0. -/
theorem sameAnswers_iff_first_line :
    let memory : SimplestMemory :=
      ⟨48, 8, 0 :: 1 :: List.replicate 46 9, rfl, by decide, by decide⟩
    (∀ calls answers,
      (∃ c, topRealCache.runCache SimplestMemory.target SimplestMemory.small calls =
        .ok (answers, c)) ↔
      ∃ c', topRealCache.runCache SimplestMemory.target memory calls = .ok (answers, c')) ↔
    memory.bytes.take topRealCache.shownBytes =
      SimplestMemory.small.bytes.take topRealCache.shownBytes := by
  intro memory
  exact topRealCache.sameAnswers_iff (by decide) SimplestMemory.small memory rfl rfl (by decide)

end Geometry

end FreeSampler
