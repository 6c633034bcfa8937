import FreeSampler.Framework.Run
import FreeSampler.RealCache.Runs

namespace FreeSampler

open Framework Tlm

/-- Whatever `T` answers to a request of a kind, `U` answers from every related state. -/
def Tlm.Target.SimulatedBy {σ τ : Type} (T : Target σ) (U : Target τ) (V : GenericPayload → Prop)
    (R : σ → τ → Prop) : Prop :=
  ∀ s u trans delay r s', R s u → V trans → T.b_transport s trans delay = .ok (r, s') →
    ∃ u', U.b_transport u trans delay = .ok (r, u') ∧ R s' u'

namespace RealCache

/-- The requests that a cache makes to read a line. -/
structure LineRequest (g : Geometry) (trans : GenericPayload) : Prop where
  command_eq : trans.command = .read
  address_lt : 4 * trans.address.toNat < g.lineBytes
  dataLength_eq : trans.dataLength.toNat = g.lineBytes
  byteEnablePtr_eq : trans.byteEnablePtr = none
  streamingWidth_eq : trans.streamingWidth = trans.dataLength
  data_eq : trans.data = List.replicate g.lineBytes 0

/-- The same caches in front of related targets. -/
structure Related {σ τ : Type} (R : σ → τ → Prop) (c : RealCache σ) (d : RealCache τ) : Prop where
  m_cacheStore_eq : d.m_cacheStore = c.m_cacheStore
  m_cachetrans_eq : d.m_cachetrans = c.m_cachetrans
  memory_related : R c.memory d.memory

theorem lineRequest_is {σ : Type} (g : Geometry) (t : Nat → g.Block) (c : RealCache σ)
    (hc : c.m_cacheStore = g.store t) (hl : 4 ≤ g.lineBytes) (adr : UInt64) :
    LineRequest g (c.lineRequest adr c.newLine) := by
  have hsize := c.lineSize_toNat g t hc
  have hle : g.lineBytes ≤ 2 ^ 10 := Nat.pow_le_pow_right (by decide) g.lineBits_le
  have hlen : (c.m_cacheStore.p_LineSize.toUInt32).toNat = g.lineBytes := by
    rw [UInt64.toNat_toUInt32, hsize]
    omega
  have hoffset : adr.toNat % g.lineBytes < g.lineBytes := g.byteOffset_lt adr
  refine ⟨rfl, ?_, hlen, rfl, rfl, ?_⟩
  · have hq := g.lineBytes_eq hl
    simp only [lineRequest, CacheStore.getWordIndex, UInt64.toNat_div, UInt64.reduceToNat]
    rw [hc, g.getByteIndex_toNat]
    omega
  · show c.newLine = _
    rw [newLine, hsize]

section Simulated

variable {σ τ : Type} (T : Target σ) (U : Target τ) (V : GenericPayload → Prop) (R : σ → τ → Prop)
  (g : Geometry)

/-- A call that the cache answers over `T` is answered alike over `U`. -/
theorem b_transport_simulated (hl : 4 ≤ g.lineBytes) (hsim : T.SimulatedBy U V R)
    (hlines : ∀ trans, LineRequest g trans → V trans) (t : Nat → g.Block) (c c' : RealCache σ)
    (hc : c.m_cacheStore = g.store t) (d : RealCache τ) (hR : Related R c d) (call : Call)
    (hcall : call.trans.command = .write → V call.trans) (a : Answer)
    (h : c.b_transport T call = .ok (a, c')) :
    ∃ d', d.b_transport U call = .ok (a, d') ∧ Related R c' d' := by
  obtain ⟨hlen, hout⟩ := (b_transport_iff T g t c c' call a hl hc).mp h
  obtain ⟨hstore, htrans, hmem⟩ := hR
  have hd : d.m_cacheStore = g.store t := hstore.trans hc
  have hiff (a : Answer) (d' : RealCache τ) := b_transport_iff U g t d d' call a hl hd
  have hrequest : d.lineRequest call.trans.address d.newLine =
      c.lineRequest call.trans.address c.newLine := by
    rw [lineRequest, lineRequest, newLine, newLine, hstore, htrans]
  have hline := hlines _ (lineRequest_is g t c hc hl call.trans.address)
  cases hout with
  | readHit line b rest hread hline hdata =>
    exact ⟨d, (hiff _ _).mpr ⟨hlen, .readHit line b rest hread hline hdata⟩, hstore, htrans, hmem⟩
  | readMiss r memory b rest hread hmiss hfill hdata =>
    obtain ⟨memory', hfill', hR'⟩ := hsim _ _ _ _ _ _ hmem hline hfill
    rw [← hrequest] at hfill'
    exact ⟨_, (hiff _ _).mpr ⟨hlen, .readMiss r memory' b rest hread hmiss hfill' hdata⟩, rfl,
      rfl, hR'⟩
  | writeHit line b rest hwrite hline hdata =>
    exact ⟨_, (hiff _ _).mpr ⟨hlen, .writeHit line b rest hwrite hline hdata⟩, rfl, htrans, hmem⟩
  | writeError r memory hwrite hmiss hw herror =>
    obtain ⟨memory', hw', hR'⟩ := hsim _ _ _ _ _ _ hmem (hcall hwrite) hw
    exact ⟨_, (hiff _ _).mpr ⟨hlen, .writeError r memory' hwrite hmiss hw' herror⟩, hstore, htrans,
      hR'⟩
  | writeMiss r f written memory hwrite hmiss hw hok hfill =>
    obtain ⟨written', hw', hR'⟩ := hsim _ _ _ _ _ _ hmem (hcall hwrite) hw
    obtain ⟨memory', hfill', hR''⟩ := hsim _ _ _ _ _ _ hR' hline hfill
    rw [← hrequest] at hfill'
    exact ⟨_, (hiff _ _).mpr ⟨hlen, .writeMiss r f written' memory' hwrite hmiss hw' hok hfill'⟩,
      rfl, rfl, hR''⟩
  | ignored hi => exact ⟨d, (hiff _ _).mpr ⟨hlen, .ignored hi⟩, hstore, htrans, hmem⟩

/-- A run over `T` is a run over `U`, with the same answers and the same lines in the cache. -/
theorem runCache_simulated (hl : 4 ≤ g.lineBytes) (hsim : T.SimulatedBy U V R)
    (hlines : ∀ trans, LineRequest g trans → V trans) (s : σ) (u : τ) (hR : R s u)
    (calls : List Call) (hcalls : ∀ call ∈ calls, call.trans.command = .write → V call.trans)
    (answers : List Answer) (c : RealCache σ) (h : g.runCache T s calls = .ok (answers, c)) :
    ∃ d, g.runCache U u calls = .ok (answers, d) ∧ Related R c d := by
  rw [Geometry.runCache_eq] at h ⊢
  have hstep (call : Call) (hcall : call ∈ calls) (c : RealCache σ) (d : RealCache τ) (a : Answer)
      (c' : RealCache σ) (hcd : g.HoldsTables c ∧ Related R c d)
      (hs : c.b_transport T call = .ok (a, c')) :
      ∃ d', d.b_transport U call = .ok (a, d') ∧ g.HoldsTables c' ∧ Related R c' d' := by
    obtain ⟨⟨t, ht⟩, hrel⟩ := hcd
    obtain ⟨d', hd', hrel'⟩ := b_transport_simulated T U V R g hl hsim hlines t c c' ht d hrel call
      (hcalls call hcall) a hs
    exact ⟨d', hd', g.holdsTables_outcome T t c c' call a ht
      ((b_transport_iff T g t c c' call a hl ht).mp hs).2, hrel'⟩
  obtain ⟨d, hrun, hend⟩ := run_simulates (b_transport T) (b_transport U)
    (fun c d => g.HoldsTables c ∧ Related R c d) (g.freshCache s) c (g.freshCache u) calls answers
    hstep ⟨⟨_, rfl⟩, rfl, rfl, hR⟩ h
  exact ⟨d, hrun, hend.2⟩

end Simulated

end RealCache

end FreeSampler
