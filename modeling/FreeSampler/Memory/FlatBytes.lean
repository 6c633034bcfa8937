import FreeSampler.Framework.Run
import FreeSampler.Memory.SimplestMemory

namespace FreeSampler

open Framework Tlm

namespace SimplestMemory

/-- The calls of a run with their answers, oldest first. -/
abbrev History := List (Transaction × Transport)

/-- The byte that a write stores at a byte address which it covers. -/
def writtenByte (x : Nat) (e : Transaction × Transport) : Option UInt8 :=
  if e.1.trans.command = .write ∧ e.1.trans.covers x
  then e.1.trans.data[x - e.1.trans.address.toNat]? else none

/-- The byte that a history spells at a byte address of a memory that began as `m`. -/
def flatByte (m : SimplestMemory) (h : History) (x : Nat) : Option UInt8 :=
  (latest (writtenByte x) h).or m.bytes[x]?

/-- A read delivers the flat bytes it covers. The rest of the buffer, and with a write all of
it, stays as it was. -/
structure ReadsFlat (m : SimplestMemory) (h : History) (e : Transaction × Transport) : Prop where
  answered : e.2.trans.responseStatus = .ok
  delivered : e.1.trans.command = .read → ∀ i < e.1.trans.dataLength.toNat,
    ∃ b, e.2.trans.data[i]? = some b ∧ flatByte m h (e.1.trans.address.toNat + i) = some b
  beyond : ∀ i, e.1.trans.dataLength.toNat ≤ i → e.2.trans.data[i]? = e.1.trans.data[i]?
  write_keeps : e.1.trans.command = .write → e.2.trans.data = e.1.trans.data

/-- A state with the bytes that a history spells. -/
structure HoldsBytes (m : SimplestMemory) (h : History) (s : SimplestMemory) : Prop where
  p_PAGESIZE_eq : s.p_PAGESIZE = m.p_PAGESIZE
  p_LINESIZE_eq : s.p_LINESIZE = m.p_LINESIZE
  byte_eq : ∀ x, s.bytes[x]? = flatByte m h x

section Step

variable (m s : SimplestMemory) (trans : GenericPayload)
  (hv : ValidTraffic s.p_PAGESIZE s.p_LINESIZE trans) (hw : trans.address.toNat % 4 = 0)

include hv hw

theorem access_read_bytes (hc : trans.command = .read) :
    ∃ data, s.access trans = .ok (data, s) ∧ ∀ i, data[i]? =
      if i < trans.dataLength.toNat then s.bytes[trans.address.toNat + i]? else trans.data[i]? := by
  obtain ⟨data, s', ha, -⟩ := s.access_valid trans hv
  obtain ⟨rfl, hcopy⟩ := (s.access_read s' trans data hc).mp ha
  refine ⟨data, ha, ?_⟩
  intro i
  rw [memcpy_getElem? _ _ _ _ _ _ hcopy, word_address trans hw]
  simp

theorem access_write_bytes (hc : trans.command = .write) :
    ∃ s', s.access trans = .ok (trans.data, s') ∧ s'.p_PAGESIZE = s.p_PAGESIZE ∧
      s'.p_LINESIZE = s.p_LINESIZE ∧ ∀ x, s'.bytes[x]? =
        if trans.covers x then trans.data[x - trans.address.toNat]? else s.bytes[x]? := by
  obtain ⟨data, s', ha, hp, hl⟩ := s.access_valid trans hv
  obtain ⟨rfl, hs⟩ := (s.access_write s' trans data hc).mp ha
  obtain ⟨-, -, hcopy⟩ := s.store_ok s' _ _ _ hs
  refine ⟨s', ha, hp, hl, ?_⟩
  intro x
  rw [memcpy_getElem? _ _ _ _ _ _ hcopy, word_address trans hw, Nat.zero_add]
  rfl

end Step

theorem covered_inside (m : SimplestMemory) (trans : GenericPayload)
    (hv : ValidTraffic m.p_PAGESIZE m.p_LINESIZE trans) (hw : trans.address.toNat % 4 = 0)
    (i : Nat) (hi : i < trans.dataLength.toNat) :
    ∃ b, m.bytes[trans.address.toNat + i]? = some b := by
  have hin := hv.pageSize_le
  rw [word_address trans hw] at hin
  exact ⟨_, List.getElem?_eq_getElem (by rw [bytes_length]; omega)⟩

theorem flatByte_read (m : SimplestMemory) (h : History) (c : Transaction) (a : Transport) (x : Nat)
    (hc : c.trans.command = .read) : flatByte m (h ++ [(c, a)]) x = flatByte m h x := by
  have hnone : writtenByte x (c, a) = none := by simp [writtenByte, hc]
  rw [flatByte, latest_concat_none _ _ _ hnone, flatByte]

theorem flatByte_write (m : SimplestMemory) (h : History) (c : Transaction) (a : Transport)
    (x : Nat) (hc : c.trans.command = .write) (hd : c.trans.dataLength.toNat ≤ c.trans.data.length) :
    flatByte m (h ++ [(c, a)]) x = if c.trans.covers x
      then c.trans.data[x - c.trans.address.toNat]? else flatByte m h x := by
  rw [flatByte, latest_concat, writtenByte]
  by_cases hx : c.trans.covers x
  · have hlt : x - c.trans.address.toNat < c.trans.data.length := by
      have hhi := hx.2
      have hlo := hx.1
      omega
    rw [if_pos hx, if_pos ⟨hc, hx⟩, List.getElem?_eq_getElem hlt, Option.some_or, Option.some_or]
  · rw [if_neg hx, if_neg (fun hn => hx hn.2), Option.none_or, flatByte]

/-- One call moves exactly the bytes that it covers. -/
theorem holdsBytes_step (m : SimplestMemory) (h : History) (s : SimplestMemory) (c : Transaction)
    (hm : HoldsBytes m h s) (hv : ValidTraffic m.p_PAGESIZE m.p_LINESIZE c.trans)
    (hw : c.trans.address.toNat % 4 = 0) :
    ∃ a s', target.step s c = .ok (a, s') ∧ HoldsBytes m (h ++ [(c, a)]) s' ∧
      ReadsFlat m h (c, a) := by
  have hvs : ValidTraffic s.p_PAGESIZE s.p_LINESIZE c.trans := by
    rw [hm.p_PAGESIZE_eq, hm.p_LINESIZE_eq]
    exact hv
  cases hc : c.trans.command with
  | read =>
    obtain ⟨data, ha, hdata⟩ := s.access_read_bytes c.trans hvs hw hc
    have hs := (s.b_transport_ok s c.trans c.delay _).mpr ⟨data, ha, rfl⟩
    refine ⟨_, s, hs, ⟨hm.p_PAGESIZE_eq, hm.p_LINESIZE_eq, ?_⟩, rfl, ?_, ?_, ?_⟩
    · intro x
      rw [flatByte_read m h c _ x hc]
      exact hm.byte_eq x
    · intro _ i hi
      obtain ⟨b, hb⟩ := s.covered_inside c.trans hvs hw i hi
      refine ⟨b, ?_, by rw [← hm.byte_eq, hb]⟩
      show data[i]? = some b
      rw [hdata, if_pos hi, hb]
    · intro i hi
      show data[i]? = c.trans.data[i]?
      rw [hdata, if_neg (Nat.not_lt.mpr hi)]
    · intro hwrite
      simp [hc] at hwrite
  | write =>
    obtain ⟨s', ha, hp, hl, hbytes⟩ := s.access_write_bytes c.trans hvs hw hc
    have hs := (s.b_transport_ok s' c.trans c.delay _).mpr ⟨c.trans.data, ha, rfl⟩
    refine ⟨_, s', hs, ⟨hp.trans hm.p_PAGESIZE_eq, hl.trans hm.p_LINESIZE_eq, ?_⟩, rfl, ?_,
      fun _ _ => rfl, fun _ => rfl⟩
    · intro x
      rw [hbytes, flatByte_write m h c _ x hc hv.data_le, hm.byte_eq]
    · intro hread
      simp [hc] at hread
  | ignore => exact absurd hc hv.command_ne

/-- The memory is a flat byte array: in every run of aligned bursts inside it, a read delivers
each byte as the latest write that covers it left it, or as it was at the start. -/
theorem run_flatBytes (m : SimplestMemory) (calls : List Transaction)
    (hv : ∀ c ∈ calls, ValidTraffic m.p_PAGESIZE m.p_LINESIZE c.trans ∧
      c.trans.address.toNat % 4 = 0) :
    ∃ answers m', run target.step m calls = .ok (answers, m') ∧
      EveryStep (ReadsFlat m) (calls.zip answers) ∧
      ∀ x, m'.bytes[x]? = flatByte m (calls.zip answers) x := by
  obtain ⟨answers, m', hr, hend, hreads⟩ := run_answered target.step (HoldsBytes m) (ReadsFlat m) m
    calls (fun c hc h s hm => holdsBytes_step m h s c hm (hv c hc).1 (hv c hc).2)
    ⟨rfl, rfl, fun _ => rfl⟩
  exact ⟨answers, m', hr, hreads, hend.byte_eq⟩

/-- Bursts of 5 and of 2 bytes that overlap, and a read of 7 bytes across them. -/
theorem run_flatBytes_overlap :
    let call (command : Command) (address : UInt64) (data : List UInt8) (len : UInt32) :
        Transaction := ⟨⟨command, address, data, len, none, 8, false, .incomplete⟩, 0⟩
    let calls := [call .write 0x8 [1, 2, 3, 4, 5] 5, call .write 0xc [6, 7, 8] 2,
      call .read 0x8 [0, 0, 0, 0, 0, 0, 0, 0] 7]
    ∃ answers m', run target.step small calls = .ok (answers, m') ∧
      EveryStep (ReadsFlat small) (calls.zip answers) ∧
      ∀ x, m'.bytes[x]? = flatByte small (calls.zip answers) x :=
  run_flatBytes small _ (by decide)

end SimplestMemory

end FreeSampler
