import FreeSampler.Memory.SimplestMemory
import FreeSampler.RealCache.Runs

namespace FreeSampler

open Framework Tlm

namespace RealCache

/-- A transaction of four bytes at an address. -/
structure OnWordAt (command : Command) (adr : UInt64) (trans : GenericPayload) : Prop where
  command_eq : trans.command = command
  address_eq : trans.address = adr
  dataLength_eq : trans.dataLength = 4

variable {σ : Type} (T : Target σ) (g : Geometry)

theorem writeHit_firstByte (hl : 4 ≤ g.lineBytes) (t : Nat → g.Block) (c : RealCache σ)
    (hc : c.m_cacheStore = g.store t) (adr : UInt64) (line : List UInt8)
    (hline : g.cachedLine t adr = some line) (write : Call) (hw : OnWordAt .write adr write.trans)
    (b : UInt8) (rest : List UInt8) (hdata : write.trans.data = b :: rest) :
    ∃ a c' t', c.b_transport T write = .ok (a, c') ∧ c'.m_cacheStore = g.store t' ∧
      g.cachedLine t' adr = some (line.set (g.byteOffset adr) b) := by
  have hlen := g.cachedLine_length hl t adr line hline
  rw [← hw.address_eq] at hline
  refine ⟨_, _, _, (b_transport_iff T g t c _ write _ hl hc).mpr
    ⟨hw.dataLength_eq, .writeHit line b rest hw.command_eq hline hdata⟩, rfl, ?_⟩
  rw [hw.address_eq]
  apply g.cachedLine_setLine_self hl t adr adr _ write.past
  · rw [List.length_set, hlen]
  · rfl

theorem readHit_firstByte (hl : 4 ≤ g.lineBytes) (t : Nat → g.Block) (c : RealCache σ)
    (hc : c.m_cacheStore = g.store t) (adr : UInt64) (line : List UInt8)
    (hline : g.cachedLine t adr = some line) (read : Call) (hr : OnWordAt .read adr read.trans)
    (hd : 4 ≤ read.trans.data.length) :
    ∃ a, c.b_transport T read = .ok (a, c) ∧
      a.trans.data = line.getD (g.byteOffset adr) 0 :: read.trans.data.tail := by
  rw [← hr.address_eq] at hline
  obtain ⟨b, rest, hdata⟩ := List.exists_cons_of_ne_nil
    (List.ne_nil_of_length_pos (by omega : 0 < read.trans.data.length))
  refine ⟨_, (b_transport_iff T g t c c read _ hl hc).mpr
    ⟨hr.dataLength_eq, .readHit line b rest hr.command_eq hline hdata⟩, ?_⟩
  rw [hdata, ← hr.address_eq]
  rfl

end RealCache

namespace Geometry

open RealCache

variable {σ : Type} (T : Target σ) (g : Geometry)

/-- In every reachable cache over every target, a write of a word to a resident line followed by
a read of it carries the first byte of the word over: the other bytes of the reader's buffer
stay, and so do the other bytes of the line. -/
theorem firstByte_survives (hl : 4 ≤ g.lineBytes) (memory : σ) (calls : List Call)
    (answers : List Answer) (c : RealCache σ) (hrun : g.runCache T memory calls = .ok (answers, c))
    (adr : UInt64) (hres : c.m_cacheStore.IsResident adr) (v : UInt32) (write read : Call)
    (hw : OnWordAt .write adr write.trans) (hv : write.trans.data.take 4 = wordBytes v)
    (hr : OnWordAt .read adr read.trans) (hd : 4 ≤ read.trans.data.length) :
    ∃ a c' b line, c.b_transport T write = .ok (a, c') ∧ c'.b_transport T read = .ok (b, c') ∧
      b.trans.data = UInt8.ofNat v.toNat :: read.trans.data.tail ∧
      c.lookupLine adr = .ok (true, line) ∧
      c'.lookupLine adr = .ok (true, line.set (c.byteIndex adr) (UInt8.ofNat v.toNat)) := by
  obtain ⟨t, ht⟩ := g.holdsTables_runCache T hl memory calls answers c hrun
  have hcached : ∃ line, g.cachedLine t adr = some line := by
    rwa [ht, isResident_iff] at hres
  obtain ⟨line, hline⟩ := hcached
  have hdata : ∃ rest, write.trans.data = UInt8.ofNat v.toNat :: rest := by
    cases hwd : write.trans.data with
    | nil => simp [hwd, wordBytes] at hv
    | cons x rest =>
      rw [hwd, List.take_succ_cons, wordBytes] at hv
      exact ⟨rest, by rw [(List.cons.inj hv).1]⟩
  obtain ⟨rest, hdata⟩ := hdata
  obtain ⟨a, c', t', hs, hc', hline'⟩ :=
    writeHit_firstByte T g hl t c ht adr line hline write hw _ rest hdata
  obtain ⟨b, hs', hread⟩ := readHit_firstByte T g hl t' c' hc' adr _ hline' read hr hd
  have hlt : g.byteOffset adr < line.length := by
    rw [g.cachedLine_length hl t adr line hline]
    exact g.byteOffset_lt adr
  refine ⟨a, c', b, line, hs, hs', ?_, lookupLine_hit g t c hl ht adr line hline, ?_⟩
  · rw [hread, List.getD_eq_getElem?_getD, List.getElem?_set_self hlt, Option.getD_some]
  · rw [c.byteIndex_eq g t ht]
    exact lookupLine_hit g t' c' hl hc' adr _ hline'

/-- A word of four different bytes, read back into a buffer that held other values. -/
theorem firstByte_survives_word :
    ∃ answers c, topRealCache.runCache SimplestMemory.target SimplestMemory.small
        [.onWord .read 0x4 [0, 0, 0, 0]] = .ok (answers, c) ∧
      ∃ a c' b line, c.b_transport SimplestMemory.target (.onWord .write 0x4 [4, 3, 2, 1]) =
          .ok (a, c') ∧
        c'.b_transport SimplestMemory.target (.onWord .read 0x4 [9, 9, 9, 9]) = .ok (b, c') ∧
        b.trans.data = UInt8.ofNat (0x01020304 : UInt32).toNat :: [9, 9, 9] ∧
        c.lookupLine 0x4 = .ok (true, line) ∧
        c'.lookupLine 0x4 = .ok (true, line.set (c.byteIndex 0x4)
          (UInt8.ofNat (0x01020304 : UInt32).toNat)) := by
  obtain ⟨⟨answers, c⟩, h⟩ := exists_ok (topRealCache.runCache SimplestMemory.target
    SimplestMemory.small [.onWord .read 0x4 [0, 0, 0, 0]]) (by decide +kernel)
  have hres : (topRealCache.runCache SimplestMemory.target SimplestMemory.small
      [.onWord .read 0x4 [0, 0, 0, 0]]).toOption.any
        (fun p => decide (p.2.m_cacheStore.IsResident 0x4)) = true := by decide +kernel
  rw [h] at hres
  exact ⟨answers, c, h, topRealCache.firstByte_survives SimplestMemory.target (by decide) _ _ answers
    c h 0x4 (of_decide_eq_true hres) 0x01020304 _ _ ⟨rfl, rfl, rfl⟩ rfl ⟨rfl, rfl, rfl⟩ (by decide)⟩

/-- The word is not what the reader gets. -/
theorem word_truncated :
    (topRealCache.runCache SimplestMemory.target SimplestMemory.small
      [.onWord .read 0x4 [0, 0, 0, 0], .onWord .write 0x4 (wordBytes 0x01020304),
        .onWord .read 0x4 [9, 9, 9, 9]]).map
        (fun p => p.1.map (fun a => (a.trans.data, decide (a.branch = .writeHit ∨ a.branch = .readHit)))) =
      .ok [([1, 0, 0, 0], false), (wordBytes 0x01020304, true), ([4, 9, 9, 9], true)] ∧
    ([4, 9, 9, 9] : List UInt8) ≠ wordBytes 0x01020304 := by
  refine ⟨?_, ?_⟩
  · decide +kernel
  · decide

end Geometry

end FreeSampler
