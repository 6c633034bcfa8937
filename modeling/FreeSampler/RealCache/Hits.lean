import FreeSampler.Memory.SimplestMemory
import FreeSampler.RealCache.Runs

namespace FreeSampler

open Framework Tlm

namespace RealCache

/-- The last fill of the line of `adr` in a history set the buffer `buf`; `after` is the
history since. -/
def LastFill (s : CacheStore) (adr : UInt64) (h : History) (buf : List UInt8) (after : History) :
    Prop :=
  ∃ before f, h = before ++ f :: after ∧ f.2.branch.filled = some buf ∧
    s.getLineAddress f.1.trans.address = s.getLineAddress adr ∧
    ∀ e ∈ after, e.2.branch.filled ≠ none →
      s.getLineAddress e.1.trans.address ≠ s.getLineAddress adr

/-- The byte that a write hit at exactly `adr` stores. -/
def writeHitAt (adr : UInt64) (e : Call × Answer) : Option UInt8 :=
  if e.2.branch = .writeHit ∧ e.1.trans.address = adr then e.1.trans.data.head? else none

/-- A read hit stores the byte of the latest write hit at its address since the last fill of
the line, or else the byte that this fill brought in; the rest of the buffer stays. -/
def ReadsLatestByte (s : CacheStore) (h : History) (e : Call × Answer) : Prop :=
  e.2.branch = .readHit →
    ∃ buf after v, LastFill s e.1.trans.address h buf after ∧
      buf[(s.getByteIndex e.1.trans.address).toNat]? = some v ∧
      e.2.trans.data = (latest (writeHitAt e.1.trans.address) after).getD v :: e.1.trans.data.tail

section LastFill

variable (s : CacheStore) (adr : UInt64) (h : History) (e : Call × Answer) (buf : List UInt8)

theorem lastFill_self (hf : e.2.branch.filled = some buf)
    (ha : s.getLineAddress e.1.trans.address = s.getLineAddress adr) :
    LastFill s adr (h ++ [e]) buf [] := ⟨h, e, rfl, hf, ha, by simp⟩

theorem lastFill_concat (after : History) (hlast : LastFill s adr h buf after)
    (hn : e.2.branch.filled ≠ none → s.getLineAddress e.1.trans.address ≠ s.getLineAddress adr) :
    LastFill s adr (h ++ [e]) buf (after ++ [e]) := by
  obtain ⟨before, f, rfl, hf, ha, hrest⟩ := hlast
  refine ⟨before, f, by simp, hf, ha, ?_⟩
  intro x hx
  rcases List.mem_append.mp hx with hx | hx
  · exact hrest x hx
  · rw [List.mem_singleton.mp hx]
    exact hn

theorem writeHitAt_none (hb : e.2.branch ≠ .writeHit ∨ e.1.trans.address ≠ adr) :
    writeHitAt adr e = none := by
  rw [writeHitAt, if_neg]
  intro hn
  rcases hb with hb | hb
  · exact hb hn.1
  · exact hb hn.2

end LastFill

end RealCache

namespace Geometry

open RealCache

variable {σ : Type} (T : Target σ) (g : Geometry)

theorem eq_of_lineNumber_byteOffset (a b : UInt64) (hn : g.lineNumber a = g.lineNumber b)
    (ho : g.byteOffset a = g.byteOffset b) : a = b := by
  have ha := Nat.div_add_mod a.toNat g.lineBytes
  have hb := Nat.div_add_mod b.toNat g.lineBytes
  rw [byteOffset, byteOffset] at ho
  rw [lineNumber, lineNumber, ← lineBytes] at hn
  apply UInt64.toNat_inj.mp
  rw [← ha, ← hb, hn, ho]

/-- Every byte of a cached line is the one its history spells. -/
def KeepsBytes (s : CacheStore) (h : History) (t : Nat → g.Block) : Prop :=
  ∀ adr kept, g.cachedLine t adr = some kept →
    ∃ buf after v, LastFill s adr h buf after ∧ buf[g.byteOffset adr]? = some v ∧
      kept[g.byteOffset adr]? = some ((latest (writeHitAt adr) after).getD v)

theorem keepsByte_concat (s : CacheStore) (h : History) (e : Call × Answer) (adr : UInt64)
    (kept : List UInt8)
    (hk : ∃ buf after v, LastFill s adr h buf after ∧ buf[g.byteOffset adr]? = some v ∧
      kept[g.byteOffset adr]? = some ((latest (writeHitAt adr) after).getD v))
    (hf : e.2.branch.filled ≠ none → s.getLineAddress e.1.trans.address ≠ s.getLineAddress adr)
    (hw : writeHitAt adr e = none) :
    ∃ buf after v, LastFill s adr (h ++ [e]) buf after ∧ buf[g.byteOffset adr]? = some v ∧
      kept[g.byteOffset adr]? = some ((latest (writeHitAt adr) after).getD v) := by
  obtain ⟨buf, after, v, hlast, hv, hb⟩ := hk
  refine ⟨buf, after ++ [e], v, lastFill_concat s adr h e buf after hlast hf, hv, ?_⟩
  rw [latest_concat_none _ _ _ hw]
  exact hb

/-- A fill starts a new history for the bytes of its line and keeps those of the others. -/
theorem keepsBytes_fill (hl : 4 ≤ g.lineBytes) (t u : Nat → g.Block) (h : History)
    (e : Call × Answer) (buf : List UInt8) (past : Nat → UInt32)
    (hk : g.KeepsBytes (g.store u) h t) (hf : e.2.branch.filled = some buf)
    (hb : buf.length = g.lineBytes) (hw : e.2.branch ≠ .writeHit) :
    g.KeepsBytes (g.store u) (h ++ [e])
      (g.setLine t e.1.trans.address (g.lineWords buf past)) := by
  intro adr kept hline
  by_cases hn : g.lineNumber adr = g.lineNumber e.1.trans.address
  · have hself := g.cachedLine_setLine_self hl t e.1.trans.address adr buf past hb hn
    have heq : kept = buf := Option.some.inj (hline.symm.trans hself)
    have hlt : g.byteOffset adr < buf.length := by
      rw [hb]
      exact g.byteOffset_lt adr
    refine ⟨buf, [], buf[g.byteOffset adr], lastFill_self _ adr h e buf hf
      ((g.getLineAddress_eq_iff u _ _).mpr hn.symm), List.getElem?_eq_getElem hlt, ?_⟩
    rw [heq]
    exact List.getElem?_eq_getElem hlt
  · have hold := g.cachedLine_setLine_of_ne t e.1.trans.address adr _ kept hn hline
    exact g.keepsByte_concat _ h e adr kept (hk adr kept hold)
      (fun _ hs => hn ((g.getLineAddress_eq_iff u _ _).mp hs).symm)
      (writeHitAt_none adr e (Or.inl hw))

/-- A write hit changes the byte at its address and no other. -/
theorem keepsBytes_writeHit (hl : 4 ≤ g.lineBytes) (t u : Nat → g.Block) (h : History)
    (e : Call × Answer) (kept : List UInt8) (b : UInt8) (past : Nat → UInt32)
    (hk : g.KeepsBytes (g.store u) h t) (hbranch : e.2.branch = .writeHit)
    (hline : g.cachedLine t e.1.trans.address = some kept) (hdata : e.1.trans.data.head? = some b) :
    g.KeepsBytes (g.store u) (h ++ [e]) (g.setLine t e.1.trans.address
      (g.lineWords (kept.set (g.byteOffset e.1.trans.address) b) past)) := by
  have hlen := g.cachedLine_length hl t _ kept hline
  have hnofill : e.2.branch.filled = none := by rw [hbranch]; rfl
  intro adr kept' hline'
  by_cases hn : g.lineNumber adr = g.lineNumber e.1.trans.address
  · have hself := g.cachedLine_setLine_self hl t e.1.trans.address adr
      (kept.set (g.byteOffset e.1.trans.address) b) past (by rw [List.length_set, hlen]) hn
    have heq : kept' = kept.set (g.byteOffset e.1.trans.address) b :=
      Option.some.inj (hline'.symm.trans hself)
    rw [g.cachedLine_congr t _ adr hn.symm] at hline
    rw [heq]
    by_cases ha : e.1.trans.address = adr
    · obtain ⟨buf, after, v, hlast, hv, _⟩ := hk adr kept hline
      have hlatest : writeHitAt adr e = some b := by rw [writeHitAt, if_pos ⟨hbranch, ha⟩, hdata]
      refine ⟨buf, after ++ [e], v,
        lastFill_concat _ adr h e buf after hlast (fun hne => absurd hnofill hne), hv, ?_⟩
      rw [latest_concat_some _ _ _ b hlatest, ha, List.getElem?_set_self]
      · rfl
      · rw [hlen]
        exact g.byteOffset_lt adr
    · have hoff : g.byteOffset e.1.trans.address ≠ g.byteOffset adr := by
        intro ho
        exact ha (g.eq_of_lineNumber_byteOffset _ _ hn.symm ho)
      have hkeep := g.keepsByte_concat _ h e adr kept (hk adr kept hline)
        (fun hne => absurd hnofill hne) (writeHitAt_none adr e (Or.inr ha))
      rw [List.getElem?_set_ne hoff]
      exact hkeep
  · have hold := g.cachedLine_setLine_of_ne t e.1.trans.address adr _ kept' hn hline'
    have ha : e.1.trans.address ≠ adr := by
      intro ha
      exact hn (by rw [ha])
    exact g.keepsByte_concat _ h e adr kept' (hk adr kept' hold)
      (fun hne => absurd hnofill hne) (writeHitAt_none adr e (Or.inr ha))

/-- What a reachable cache owes to its history. -/
def CacheHistory (s : CacheStore) (h : History) (c : RealCache σ) : Prop :=
  ∃ t, c.m_cacheStore = g.store t ∧ g.KeepsBytes s h t

/-- One call keeps the bytes in step with their history, and a read hit delivers its byte. -/
theorem cacheHistory_step (hl : 4 ≤ g.lineBytes) (u : Nat → g.Block) (h : History)
    (c c' : RealCache σ) (call : Call) (a : Answer) (hc : g.CacheHistory (g.store u) h c)
    (hs : c.b_transport T call = .ok (a, c')) :
    g.CacheHistory (g.store u) (h ++ [(call, a)]) c' ∧ ReadsLatestByte (g.store u) h (call, a) := by
  obtain ⟨t, ht, hk⟩ := hc
  have hout := ((b_transport_iff T g t c c' call a hl ht).mp hs).2
  have hsame (hf : a.branch.filled = none) (hw : a.branch ≠ .writeHit) :
      g.KeepsBytes (g.store u) (h ++ [(call, a)]) t := by
    intro adr kept hline
    exact g.keepsByte_concat _ h (call, a) adr kept (hk adr kept hline)
      (fun hne => absurd hf hne) (writeHitAt_none adr (call, a) (Or.inl hw))
  cases hout with
  | readHit kept b rest hcommand hline hdata =>
    refine ⟨⟨t, ht, hsame rfl (by simp [respond])⟩, ?_⟩
    intro _
    obtain ⟨buf, after, v, hlast, hv, hb⟩ := hk _ kept hline
    refine ⟨buf, after, v, hlast, ?_, ?_⟩
    · rw [g.getByteIndex_toNat]
      exact hv
    · simp only [respond, hdata, List.tail_cons, List.getD_eq_getElem?_getD, hb, Option.getD_some]
  | readMiss r memory b rest hcommand hline hfill hdata =>
    have hlen := fill_length T g t c ht _ _ _ _ r hfill
    exact ⟨⟨_, rfl, g.keepsBytes_fill hl t u h (call, _) r.trans.data call.past hk rfl hlen
      (by simp [respond])⟩, fun hb => by simp [respond] at hb⟩
  | writeHit kept b rest hcommand hline hdata =>
    exact ⟨⟨_, rfl, g.keepsBytes_writeHit hl t u h (call, _) kept b call.past hk rfl hline
      (by rw [hdata]; rfl)⟩, fun hb => by simp [respond] at hb⟩
  | writeError r memory hcommand hline hwrite herror =>
    exact ⟨⟨t, ht, hsame rfl (by simp [respond])⟩, fun hb => by simp [respond] at hb⟩
  | writeMiss r f written memory hcommand hline hwrite hok hfill =>
    have hlen := fill_length T g t { c with memory := written } ht _ _ _ _ f hfill
    exact ⟨⟨_, rfl, g.keepsBytes_fill hl t u h (call, _) f.trans.data call.past hk rfl hlen
      (by simp [respond])⟩, fun hb => by simp [respond] at hb⟩
  | ignored hcommand =>
    exact ⟨⟨t, ht, hsame rfl (by simp [respond])⟩, fun hb => by simp [respond] at hb⟩

/-- A read of a resident line is a hit, and it is answered. -/
theorem resident_readHit (hl : 4 ≤ g.lineBytes) (c : RealCache σ) (hc : g.HoldsTables c) (call : Call)
    (hcommand : call.trans.command = .read) (hlen : call.trans.dataLength = 4)
    (hdata : call.trans.data ≠ []) (hres : c.m_cacheStore.IsResident call.trans.address) :
    ∃ a, c.b_transport T call = .ok (a, c) ∧ a.branch = .readHit := by
  obtain ⟨t, ht⟩ := hc
  rw [ht, isResident_iff] at hres
  obtain ⟨kept, hline⟩ := hres
  obtain ⟨b, rest, hb⟩ := List.exists_cons_of_ne_nil hdata
  exact ⟨_, (b_transport_iff T g t c c call _ hl ht).mpr
    ⟨hlen, .readHit kept b rest hcommand hline hb⟩, rfl⟩

/-- In every run over every target each read hit has delivered the latest byte, and a read
of a line that is resident at the end hits. -/
theorem readHit_latest (hl : 4 ≤ g.lineBytes) (memory : σ) (calls : List Call)
    (answers : List Answer) (c : RealCache σ)
    (h : g.runCache T memory calls = .ok (answers, c)) :
    EveryStep (ReadsLatestByte c.m_cacheStore) (calls.zip answers) ∧
      ∀ call, call.trans.command = .read → call.trans.dataLength = 4 → call.trans.data ≠ [] →
        c.m_cacheStore.IsResident call.trans.address →
        ∃ a, c.b_transport T call = .ok (a, c) ∧ a.branch = .readHit := by
  have hholds := g.holdsTables_runCache T hl memory calls answers c h
  refine ⟨?_, fun call hcommand hlen hdata hres =>
    g.resident_readHit T hl c hholds call hcommand hlen hdata hres⟩
  obtain ⟨u, hu⟩ := hholds
  rw [runCache_eq] at h
  rw [hu]
  have hstart : g.CacheHistory (g.store u) [] (g.freshCache memory) := by
    refine ⟨g.emptyBlocks, rfl, ?_⟩
    intro adr kept hline
    simp [cachedLine, resident_empty] at hline
  exact (run_everyStep (b_transport T) (g.CacheHistory (g.store u)) _ _ c calls answers
    (fun call _ h v a v' hv hs => g.cacheHistory_step T hl u h v v' call a hv hs) hstart h).2

/-- A filled line, two bytes written, and the line evicted and filled again. -/
theorem readHit_latest_refilled :
    let calls := [Call.onWord .read 0x0 [0, 0, 0, 0], .onWord .write 0x1 [7, 0, 0, 0],
      .onWord .write 0x2 [8, 0, 0, 0], .onWord .read 0x1 [0, 0, 0, 0],
      .onWord .read 0x40 [0, 0, 0, 0], .onWord .read 0x80 [0, 0, 0, 0],
      .onWord .read 0x0 [0, 0, 0, 0], .onWord .read 0x1 [9, 9, 9, 9]]
    ∃ answers c, topRealCache.runCache SimplestMemory.target SimplestMemory.small calls =
        .ok (answers, c) ∧
      EveryStep (ReadsLatestByte c.m_cacheStore) (calls.zip answers) ∧
      ∀ call, call.trans.command = .read → call.trans.dataLength = 4 → call.trans.data ≠ [] →
        c.m_cacheStore.IsResident call.trans.address →
        ∃ a, c.b_transport SimplestMemory.target call = .ok (a, c) ∧ a.branch = .readHit := by
  intro calls
  obtain ⟨⟨answers, c⟩, h⟩ := exists_ok (topRealCache.runCache SimplestMemory.target
    SimplestMemory.small calls) (by decide +kernel)
  exact ⟨answers, c, h, topRealCache.readHit_latest SimplestMemory.target (by decide) _ _ _ _ h⟩

end Geometry

end FreeSampler
