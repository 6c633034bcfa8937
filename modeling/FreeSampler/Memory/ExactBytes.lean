import FreeSampler.Memory.Sessions

namespace FreeSampler

open Framework Tlm

namespace SparseMemory

/-- Byte `x` of the memory, where its page is allocated: byte `x % 4` of word `x / 4`. -/
def memoryByte (m : SparseMemory) (x : UInt64) : Option UInt8 :=
  (m.word (x / 4)).bind (fun w => (wordBytes w)[(x % 4).toNat]?)

/-- The memory with the page of a call allocated. -/
def fetched (m : SparseMemory) (c : Call) : SparseMemory := (m.fetchMemoryPage c.new c.adr).2

/-- An answered call moves the bytes it covers, and no others. -/
def TransfersExactly (m : SparseMemory) (c : Call) : Prop :=
  ∃ r m', m.step c = .ok (r, m') ∧
    (c.trans.command = .read → ∀ i, r.trans.data[i]? = if i < c.trans.dataLength.toNat
      then (m.fetched c).memoryByte (c.trans.address + UInt64.ofNat i) else c.trans.data[i]?) ∧
    (c.trans.command = .write → ∀ x, m'.memoryByte x = if c.trans.covers x.toNat
      then c.trans.data[x.toNat - c.trans.address.toNat]? else (m.fetched c).memoryByte x)

/-- The word at `address / 4` and the first four bytes of the buffer are such that moving the
whole word does no harm: what is moved beside the bytes asked for is there already, and the
bytes asked for are those of the word. -/
structure WordCoincides (m : SparseMemory) (c : Call) : Prop where
  buffer_le : 4 ≤ c.trans.data.length
  read_eq : c.trans.command = .read → ∀ i < 4, (m.fetched c).memoryByte (4 * c.adr + UInt64.ofNat i) =
    if i < c.trans.dataLength.toNat
    then (m.fetched c).memoryByte (c.trans.address + UInt64.ofNat i) else c.trans.data[i]?
  write_inside : c.trans.command = .write → ∀ x, x / 4 = c.adr → c.trans.data[(x % 4).toNat]? =
    if c.trans.covers x.toNat then c.trans.data[x.toNat - c.trans.address.toNat]?
    else (m.fetched c).memoryByte x
  write_behind : c.trans.command = .write → ∀ x, x / 4 ≠ c.adr → c.trans.covers x.toNat →
    (m.fetched c).memoryByte x = c.trans.data[x.toNat - c.trans.address.toNat]?

/-- A read or write that passes the checks. -/
def Call.Moves (c : Call) : Prop := errorResponse c.trans = none ∧ c.trans.command ≠ .ignore

section Transfer

variable (m : SparseMemory) (c : Call) (he : errorResponse c.trans = none)

theorem fetched_word : (m.fetched c).word c.adr = some (m.shown c.new c.adr) := by
  rw [fetched, fetch_word, if_pos rfl]

include he

theorem dataLength_le : c.trans.dataLength.toNat ≤ 4 := by
  obtain ⟨-, -, hlen, -⟩ := (errorResponse_eq_none c.trans).mp he
  exact UInt32.le_iff_toNat_le.mp hlen

theorem adr_lt : c.adr.toNat < 1048576 := by
  obtain ⟨hlimit, -⟩ := (errorResponse_eq_none c.trans).mp he
  simp only [Call.adr, UInt64.toNat_div, UInt64.reduceToNat]
  omega

theorem word_byte (i : Nat) (hi : i < 4) :
    (m.fetched c).memoryByte (4 * c.adr + UInt64.ofNat i) = (wordBytes (m.shown c.new c.adr))[i]? := by
  have hadr := adr_lt c he
  have hx : (4 * c.adr + UInt64.ofNat i).toNat = 4 * c.adr.toNat + i := by
    simp only [UInt64.toNat_add, UInt64.toNat_mul, UInt64.toNat_ofNat', UInt64.reduceToNat]
    omega
  have hword : (4 * c.adr + UInt64.ofNat i) / 4 = c.adr := by
    apply UInt64.toNat_inj.mp
    simp only [UInt64.toNat_div, hx, UInt64.reduceToNat]
    omega
  have hoffset : ((4 * c.adr + UInt64.ofNat i) % 4).toNat = i := by
    simp only [UInt64.toNat_mod, hx, UInt64.reduceToNat]
    omega
  rw [memoryByte, hword, hoffset, fetched_word, Option.bind_some]

/-- A read delivers the word's four bytes, whatever its address and length ask for. -/
theorem read_bytes (hc : c.trans.command = .read) (hd : 4 ≤ c.trans.data.length) :
    ∃ r m', m.step c = .ok (r, m') ∧ ∀ i, r.trans.data[i]? =
      if i < 4 then (m.fetched c).memoryByte (4 * c.adr + UInt64.ofNat i) else c.trans.data[i]? := by
  obtain ⟨r, m', hs, -, hread, -, -⟩ := m.step_accepted c he hd
  refine ⟨r, m', hs, ?_⟩
  intro i
  rw [hread hc]
  split_ifs with hi
  · rw [word_byte m c he i hi, List.getElem?_append_left (by simpa using hi)]
  · rw [List.getElem?_append_right (by simpa using Nat.not_lt.mp hi), List.getElem?_drop,
      wordBytes_length]
    congr 1
    omega

/-- A write stores the first four bytes of the buffer in the word, and changes nothing else. -/
theorem write_bytes (hc : c.trans.command = .write) (hd : 4 ≤ c.trans.data.length) :
    ∃ r m', m.step c = .ok (r, m') ∧ ∀ x, m'.memoryByte x =
      if x / 4 = c.adr then c.trans.data[(x % 4).toNat]? else (m.fetched c).memoryByte x := by
  obtain ⟨r, m', hs, -, -, -, hword⟩ := m.step_accepted c he hd
  obtain ⟨v, hv, hbytes⟩ := loadWord_ok c.trans.data hd
  refine ⟨r, m', hs, ?_⟩
  intro x
  have hlt : (x % 4).toNat < 4 := by
    rw [UInt64.toNat_mod]
    exact Nat.mod_lt _ (by decide)
  rw [memoryByte, hword]
  by_cases hx : x / 4 = c.adr
  · rw [if_pos ⟨hc, hx⟩, if_pos hx, hv]
    show (wordBytes v)[(x % 4).toNat]? = _
    rw [hbytes, List.getElem?_take_of_lt hlt]
  · rw [if_neg (fun hn => hx hn.2), if_neg hx, memoryByte, fetched, fetch_word]

theorem step_buffer (r : Transport) (m' : SparseMemory) (hc : c.trans.command ≠ .ignore)
    (hs : m.step c = .ok (r, m')) : 4 ≤ c.trans.data.length := by
  simp only [step, b_transport, he, bind_eq_ok, Prod.exists] at hs
  obtain ⟨data, u, ht, -⟩ := hs
  cases hcommand : c.trans.command with
  | read =>
    simp only [transfer, hcommand, bind_eq_ok] at ht
    obtain ⟨w, _, data', hstore, -⟩ := ht
    exact storeWord_inside w c.trans.data data' hstore
  | write =>
    simp only [transfer, hcommand, bind_eq_ok] at ht
    obtain ⟨w, hload, -⟩ := ht
    exact loadWord_inside c.trans.data w hload
  | ignore => exact absurd hcommand hc

end Transfer

theorem transfersExactly_read (m : SparseMemory) (c : Call) (he : errorResponse c.trans = none)
    (hc : c.trans.command = .read) : m.TransfersExactly c ↔ m.WordCoincides c := by
  have hne : c.trans.command ≠ .ignore := by simp [hc]
  have hwrite : c.trans.command ≠ .write := by simp [hc]
  have hlen := dataLength_le c he
  constructor
  · intro h
    obtain ⟨r, m', hs, hread, -⟩ := h
    have hd := step_buffer m c he r m' hne hs
    obtain ⟨r', u, hs', hbytes⟩ := read_bytes m c he hc hd
    obtain ⟨rfl, rfl⟩ := ok_unique hs hs'
    refine ⟨hd, ?_, fun hw => absurd hw hwrite, fun hw => absurd hw hwrite⟩
    intro _ i hi
    have hbyte := hbytes i
    rw [if_pos hi] at hbyte
    rw [← hbyte, hread hc i]
  · intro h
    obtain ⟨r, m', hs, hbytes⟩ := read_bytes m c he hc h.buffer_le
    refine ⟨r, m', hs, ?_, fun hw => absurd hw hwrite⟩
    intro _ i
    rw [hbytes]
    by_cases hi : i < 4
    · rw [if_pos hi, h.read_eq hc i hi]
    · rw [if_neg hi, if_neg (by omega)]

theorem transfersExactly_write (m : SparseMemory) (c : Call) (he : errorResponse c.trans = none)
    (hc : c.trans.command = .write) : m.TransfersExactly c ↔ m.WordCoincides c := by
  have hne : c.trans.command ≠ .ignore := by simp [hc]
  have hread : c.trans.command ≠ .read := by simp [hc]
  constructor
  · intro h
    obtain ⟨r, m', hs, -, hwrite⟩ := h
    have hd := step_buffer m c he r m' hne hs
    obtain ⟨r', u, hs', hbytes⟩ := write_bytes m c he hc hd
    obtain ⟨rfl, rfl⟩ := ok_unique hs hs'
    refine ⟨hd, fun hr => absurd hr hread, ?_, ?_⟩
    · intro _ x hx
      have hbyte := hbytes x
      rw [if_pos hx] at hbyte
      rw [← hbyte, hwrite hc x]
    · intro _ x hx hcovered
      have hbyte := hbytes x
      rw [if_neg hx] at hbyte
      rw [← hbyte, hwrite hc x, if_pos hcovered]
  · intro h
    obtain ⟨r, m', hs, hbytes⟩ := write_bytes m c he hc h.buffer_le
    refine ⟨r, m', hs, fun hr => absurd hr hread, ?_⟩
    intro _ x
    rw [hbytes]
    by_cases hx : x / 4 = c.adr
    · rw [if_pos hx, h.write_inside hc x hx]
    · rw [if_neg hx]
      split_ifs with hcovered
      · exact h.write_behind hc x hx hcovered
      · rfl

/-- A call moves exactly the bytes it covers when the word coincides, and only then. -/
theorem transfersExactly_iff (m : SparseMemory) (c : Call) (hm : c.Moves) :
    m.TransfersExactly c ↔ m.WordCoincides c := by
  obtain ⟨he, hne⟩ := hm
  cases hc : c.trans.command with
  | read => exact m.transfersExactly_read c he hc
  | write => exact m.transfersExactly_write c he hc
  | ignore => exact absurd hc hne

/-- A whole aligned word always coincides. -/
theorem wordCoincides_aligned (m : SparseMemory) (c : Call) (hd : 4 ≤ c.trans.data.length)
    (ha : c.trans.address.toNat % 4 = 0) (hl : c.trans.dataLength = 4) : m.WordCoincides c := by
  have hadr : 4 * c.adr = c.trans.address := by
    apply UInt64.toNat_inj.mp
    have hlt := c.trans.address.toNat_lt
    simp only [Call.adr, UInt64.toNat_mul, UInt64.toNat_div, UInt64.reduceToNat]
    omega
  have hlen : c.trans.dataLength.toNat = 4 := by rw [hl]; rfl
  have hcovers (x : UInt64) : c.trans.covers x.toNat ↔ x / 4 = c.adr := by
    rw [← UInt64.toNat_inj, GenericPayload.covers, hlen]
    simp only [Call.adr, UInt64.toNat_div, UInt64.reduceToNat]
    omega
  refine ⟨hd, ?_, ?_, ?_⟩
  · intro _ i hi
    rw [hlen, if_pos hi, hadr]
  · intro _ x hx
    have hoffset : (x % 4).toNat = x.toNat - c.trans.address.toNat := by
      have hword := ((hcovers x).mpr hx).1
      have hhi := ((hcovers x).mpr hx).2
      rw [hlen] at hhi
      simp only [UInt64.toNat_mod, UInt64.reduceToNat]
      omega
    rw [if_pos ((hcovers x).mpr hx), hoffset]
  · intro _ x hx hcovered
    exact absurd ((hcovers x).mp hcovered) hx

/-- The property of the transport calls of a run, each with the memory that it meets. -/
def EveryCall (P : SparseMemory → Call → Prop) (events : List Event) : Prop :=
  EveryInput Session.step Session.start
    (fun _ s e => ∀ c, e = .transport c → c.Moves → P s.memory c) events

/-- The memory moves whole words: in a run each read or write moves exactly the bytes it covers
when each of them meets a word that coincides, as an aligned word does, and only then. -/
theorem run_transfersExactly_iff (events : List Event) :
    (EveryCall TransfersExactly events ↔ EveryCall WordCoincides events) ∧
      ∀ m c, 4 ≤ c.trans.data.length → c.trans.address.toNat % 4 = 0 → c.trans.dataLength = 4 →
        WordCoincides m c := by
  refine ⟨?_, wordCoincides_aligned⟩
  apply everyInput_congr
  intro _ s e
  constructor
  · intro h c hc hm
    exact (s.memory.transfersExactly_iff c hm).mp (h c hc hm)
  · intro h c hc hm
    exact (s.memory.transfersExactly_iff c hm).mpr (h c hc hm)

/-- A write of one byte at byte address 1 stores the second byte of the buffer there. -/
theorem byte_misplaced :
    let call : Call := ⟨⟨.write, 1, [9, 8, 7, 6], 1, none, 1, false, .incomplete⟩, 0, fun _ => 0⟩
    (construct.step call).map (fun p => (p.1.trans.responseStatus, p.2.memoryByte 1)) =
      .ok (.ok, some 8) ∧ ¬ EveryCall TransfersExactly [.transport call] := by
  intro call
  refine ⟨by decide +kernel, ?_⟩
  intro h
  have hexact := h [] (.transport call) [] [] Session.start rfl rfl call rfl ⟨by decide, by decide⟩
  have hcoincides := (construct.transfersExactly_iff call ⟨by decide, by decide⟩).mp hexact
  exact absurd (hcoincides.write_inside rfl 1 (by decide)) (by decide)

end SparseMemory

end FreeSampler
