import FreeSampler.CacheStore.Eviction
import FreeSampler.Memory.SimplestMemory
import FreeSampler.RealCache.Runs

namespace FreeSampler

open Framework Tlm

namespace RealCache

/-- The first byte of an acknowledged write at exactly `adr`. -/
def acknowledged (adr : UInt64) (e : Call × Answer) : Option UInt8 :=
  if e.1.trans.command = .write ∧ e.1.trans.address = adr ∧ e.2.trans.responseStatus = .ok
  then e.1.trans.data.head? else none

/-- Every byte written last is in the memory, unless its line is in the cache. -/
def NoWriteLost (h : History) (c : RealCache SimplestMemory) : Prop :=
  ∀ adr v, latest (acknowledged adr) h = some v → ¬ c.m_cacheStore.IsResident adr →
    c.memory.bytes[adr.toNat]? = some v

/-- If the call evicts a line, the memory already holds the bytes written last to it. -/
def EvictsCleanly (h : History) (c : RealCache SimplestMemory) (call : Call) : Prop :=
  ∀ adr v, latest (acknowledged adr) h = some v →
    c.m_cacheStore.Evicts call.trans.address adr → c.memory.bytes[adr.toNat]? = some v

/-- A run of accesses to aligned words. -/
def OnWords (calls : List Call) : Prop :=
  ∀ call ∈ calls, call.trans.command ≠ .ignore ∧ call.trans.address.toNat % 4 = 0

theorem acknowledged_mem (h : History) (adr : UInt64) (v : UInt8)
    (hv : latest (acknowledged adr) h = some v) : ∃ e ∈ h, e.1.trans.address = adr := by
  obtain ⟨before, e, after, rfl, he, _⟩ := (latest_eq_some _ h v).mp hv
  rw [acknowledged] at he
  split_ifs at he with hc
  exact ⟨e, by simp, hc.2.1⟩

theorem lineRead_keeps (c : RealCache SimplestMemory) (adr : UInt64) (m m' : SimplestMemory)
    (delay : Nat) (r : Transport) (h : SimplestMemory.target.b_transport m
      (c.lineRequest adr c.newLine) delay = .ok (r, m')) : m' = m := by
  obtain ⟨data, ha, _⟩ := (m.b_transport_ok m' _ delay r).mp h
  exact ((m.access_read m' _ data rfl).mp ha).1

theorem write_keeps (m m' : SimplestMemory) (trans : GenericPayload) (delay : Nat) (r : Transport)
    (hcommand : trans.command = .write) (hlen : trans.dataLength = 4)
    (ha : trans.address.toNat % 4 = 0)
    (h : SimplestMemory.target.b_transport m trans delay = .ok (r, m')) (i : Nat) (hi : i % 4 = 0)
    (hne : i ≠ trans.address.toNat) : m'.bytes[i]? = m.bytes[i]? := by
  obtain ⟨data, hacc, _⟩ := (m.b_transport_ok m' trans delay r).mp h
  obtain ⟨_, hs⟩ := (m.access_write m' trans data hcommand).mp hacc
  obtain ⟨_, _, hm⟩ := m.store_ok m' _ _ _ hs
  have hadr := SimplestMemory.word_address trans ha
  have hl : trans.dataLength.toNat = 4 := by rw [hlen]; rfl
  rw [memcpy_getElem? _ _ _ _ _ _ hm, hadr, hl, if_neg (by omega)]

/-- Setting a line keeps every write exactly when the eviction, if any, is clean. -/
theorem noWriteLost_set (g : Geometry) (t : Nat → g.Block) (h : History)
    (c c' : RealCache SimplestMemory) (call : Call) (a : Answer) (buf : List UInt32)
    (hc : c.m_cacheStore = g.store t)
    (hc' : c'.m_cacheStore = g.store (g.setLine t call.trans.address buf))
    (haligned : ∀ e ∈ h, e.1.trans.address.toNat % 4 = 0)
    (hmem : ∀ adr : UInt64, adr.toNat % 4 = 0 → adr ≠ call.trans.address →
      c'.memory.bytes[adr.toNat]? = c.memory.bytes[adr.toNat]?)
    (hp : NoWriteLost h c) : NoWriteLost (h ++ [(call, a)]) c' ↔ EvictsCleanly h c call := by
  have hother (adr : UInt64) (hne : adr ≠ call.trans.address) :
      latest (acknowledged adr) (h ++ [(call, a)]) = latest (acknowledged adr) h :=
    latest_concat_none _ _ _ (if_neg (fun hn => hne hn.2.1.symm))
  have hbyte (adr : UInt64) (v : UInt8) (hne : adr ≠ call.trans.address)
      (hv : latest (acknowledged adr) h = some v) :
      c'.memory.bytes[adr.toNat]? = c.memory.bytes[adr.toNat]? := by
    obtain ⟨e, he, rfl⟩ := acknowledged_mem h adr v hv
    exact hmem _ (haligned e he) hne
  constructor
  · intro hlost adr v hv hev
    have hne : adr ≠ call.trans.address := by
      intro heq
      rw [heq, hc, g.evicts_store] at hev
      rw [(g.resident_eq_none t _).mp hev.1] at hev
      simp at hev
    have hgone : ¬ c'.m_cacheStore.IsResident adr := by
      rw [hc] at hev
      rw [hc', g.isResident_store, not_not]
      exact g.resident_setLine_evicted t _ adr buf hev
    rw [← hbyte adr v hne hv]
    exact hlost adr v (by rw [hother adr hne, hv]) hgone
  · intro hclean adr v hv hgone
    rw [hc', g.isResident_store, not_not] at hgone
    have hline : g.lineNumber adr ≠ g.lineNumber call.trans.address := by
      intro heq
      rw [g.resident_setLine_self t _ adr buf heq] at hgone
      simp at hgone
    have hne : adr ≠ call.trans.address := by
      intro heq
      exact hline (by rw [heq])
    rw [hother adr hne] at hv
    rw [hbyte adr v hne hv]
    by_cases hev : (g.store t).Evicts call.trans.address adr
    · exact hclean adr v hv (by rw [hc]; exact hev)
    · rw [g.resident_setLine_kept t _ adr buf hline hev] at hgone
      exact hp adr v hv (by rw [hc, g.isResident_store, not_not]; exact hgone)

theorem noWriteLost_same (h : History) (c : RealCache SimplestMemory) (call : Call) (a : Answer)
    (hcommand : call.trans.command ≠ .write) (hp : NoWriteLost h c) :
    NoWriteLost (h ++ [(call, a)]) c := by
  intro adr v hv
  have hnone : acknowledged adr (call, a) = none := if_neg (fun hn => hcommand hn.1)
  rw [latest_concat_none _ _ _ hnone] at hv
  exact hp adr v hv

/-- One access keeps every write exactly when it evicts cleanly. -/
theorem noWriteLost_step (g : Geometry) (hl : 4 ≤ g.lineBytes) (t : Nat → g.Block) (h : History)
    (c c' : RealCache SimplestMemory) (call : Call) (a : Answer) (hc : c.m_cacheStore = g.store t)
    (haligned : ∀ e ∈ h, e.1.trans.address.toNat % 4 = 0)
    (hcommand : call.trans.command ≠ .ignore) (hword : call.trans.address.toNat % 4 = 0)
    (hp : NoWriteLost h c) (hs : c.b_transport SimplestMemory.target call = .ok (a, c')) :
    NoWriteLost (h ++ [(call, a)]) c' ↔ EvictsCleanly h c call := by
  obtain ⟨hlen, hout⟩ := (b_transport_iff SimplestMemory.target g t c c' call a hl hc).mp hs
  cases hout with
  | readHit line b rest hread hline hdata =>
    refine iff_of_true (noWriteLost_same h c call _ (by simp [hread]) hp) ?_
    intro adr v _ hev
    exact absurd ((g.isResident_iff t _).mpr ⟨line, hline⟩) (hc ▸ hev.1)
  | readMiss r memory b rest hread hline hfill hdata =>
    rw [lineRead_keeps c _ _ _ _ r hfill]
    exact noWriteLost_set g t h c _ call _ _ hc rfl haligned (fun _ _ _ => rfl) hp
  | writeHit line b rest hwrite hline hdata =>
    exact noWriteLost_set g t h c _ call _ _ hc rfl haligned (fun _ _ _ => rfl) hp
  | writeError r memory hwrite hline hw herror =>
    obtain ⟨data, _, rfl⟩ := (c.memory.b_transport_ok memory _ _ r).mp hw
    simp [GenericPayload.isResponseError] at herror
  | writeMiss r f written memory hwrite hline hw hok hfill =>
    have hsame := lineRead_keeps c _ _ _ _ f hfill
    refine noWriteLost_set g t h c _ call _ _ hc rfl haligned ?_ hp
    intro adr hadr hne
    simp only [filled, hsame]
    refine write_keeps c.memory written call.trans call.delay r hwrite hlen hword hw adr.toNat hadr ?_
    intro heq
    exact hne (UInt64.toNat_inj.mp heq)
  | ignored hi => exact absurd hi hcommand

end RealCache

namespace Geometry

open RealCache

variable (g : Geometry)

/-- In a run of accesses to aligned words over the simplest memory, no acknowledged write is
lost in any state exactly when every call evicts cleanly. -/
theorem noWriteLost_iff (hl : 4 ≤ g.lineBytes) (memory : SimplestMemory) (calls : List Call)
    (hwords : OnWords calls) (answers : List Answer) (c : RealCache SimplestMemory)
    (hrun : g.runCache SimplestMemory.target memory calls = .ok (answers, c)) :
    EveryState (b_transport SimplestMemory.target) (g.freshCache memory) NoWriteLost calls ↔
      EveryInput (b_transport SimplestMemory.target) (g.freshCache memory) EvictsCleanly calls := by
  rw [runCache_eq] at hrun
  refine everyState_iff_everyInput (b_transport SimplestMemory.target)
    (fun h c => g.HoldsTables c ∧ ∀ e ∈ h, e.1.trans.address.toNat % 4 = 0) NoWriteLost
    EvictsCleanly _ c calls answers ?_ ?_ ⟨⟨_, rfl⟩, by simp⟩ ?_ hrun
  · intro call hcall h u a v hu hs
    obtain ⟨⟨t, ht⟩, haligned⟩ := hu
    refine ⟨g.holdsTables_outcome SimplestMemory.target t u v call a ht
      ((b_transport_iff SimplestMemory.target g t u v call a hl ht).mp hs).2, ?_⟩
    intro e he
    rcases List.mem_append.mp he with he | he
    · exact haligned e he
    · rw [List.mem_singleton.mp he]
      exact (hwords call hcall).2
  · intro call hcall h u a v hu hp hs
    obtain ⟨⟨t, ht⟩, haligned⟩ := hu
    exact noWriteLost_step g hl t h u v call a ht haligned (hwords call hcall).1
      (hwords call hcall).2 hp hs
  · intro adr v hv
    simp at hv

/-- A write miss, and two reads that evict its line. -/
theorem noWriteLost_iff_write_miss :
    let calls := [Call.onWord .write 0x0 [7, 0, 0, 0], .onWord .read 0x40 [0, 0, 0, 0],
      .onWord .read 0x80 [0, 0, 0, 0]]
    EveryState (b_transport SimplestMemory.target) (topRealCache.freshCache SimplestMemory.small)
        NoWriteLost calls ↔
      EveryInput (b_transport SimplestMemory.target) (topRealCache.freshCache SimplestMemory.small)
        EvictsCleanly calls := by
  intro calls
  obtain ⟨⟨answers, c⟩, h⟩ := exists_ok (topRealCache.runCache SimplestMemory.target
    SimplestMemory.small calls) (by decide +kernel)
  refine topRealCache.noWriteLost_iff (by decide) SimplestMemory.small calls ?_ answers c h
  simp only [OnWords, calls]
  decide

/-- A read, a write that hits, and two reads that evict the written line: its byte is gone. -/
theorem write_lost :
    let calls := [Call.onWord .read 0x0 [0, 0, 0, 0], .onWord .write 0x0 [7, 0, 0, 0],
      .onWord .read 0x40 [0, 0, 0, 0], .onWord .read 0x80 [0, 0, 0, 0]]
    (topRealCache.runCache SimplestMemory.target SimplestMemory.small calls).map (fun p =>
      (latest (acknowledged 0x0) (calls.zip p.1), decide (p.2.m_cacheStore.IsResident 0x0),
        p.2.memory.bytes[0]?)) = .ok (some 7, false, some 0) ∧
    ¬ EveryState (b_transport SimplestMemory.target) (topRealCache.freshCache SimplestMemory.small)
      NoWriteLost calls := by
  intro calls
  have hfacts : (topRealCache.runCache SimplestMemory.target SimplestMemory.small calls).map
      (fun p => (latest (acknowledged 0x0) (calls.zip p.1),
        decide (p.2.m_cacheStore.IsResident 0x0), p.2.memory.bytes[0]?)) =
      .ok (some 7, false, some 0) := by decide +kernel
  refine ⟨hfacts, ?_⟩
  intro hall
  obtain ⟨⟨answers, c⟩, h⟩ := exists_ok (topRealCache.runCache SimplestMemory.target
    SimplestMemory.small calls) (by decide +kernel)
  rw [h] at hfacts
  obtain ⟨hv, hrest⟩ := ok_inj hfacts
  obtain ⟨hres, hbyte⟩ := Prod.mk.inj hrest
  rw [runCache_eq] at h
  have hkept := hall calls [] answers c (by simp) h 0x0 7 hv (of_decide_eq_false hres)
  simp [hbyte] at hkept

end Geometry

end FreeSampler
