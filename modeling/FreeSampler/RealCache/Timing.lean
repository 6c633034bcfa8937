import FreeSampler.RealCache.Fills

namespace FreeSampler

open Framework Tlm

namespace Geometry

variable (g : Geometry)

/-- The tags that the blocks hold, each in the order of its ways. -/
def tagsHeld (t : Nat → g.Block) : Nat → List Tag := fun i => (t i).keys

/-- The tags held after an access to the line of an address. -/
def touch (k : Nat → List Tag) (a : UInt64) : Nat → List Tag :=
  Function.update k (g.block a) (SlotTable.putKeys g.ways (k (g.block a)) (g.tag a))

def holdsLine (k : Nat → List Tag) (a : UInt64) : Bool := decide (g.tag a ∈ k (g.block a))

theorem tagsHeld_setLine (t : Nat → g.Block) (a : UInt64) (buf : List UInt32) :
    g.tagsHeld (g.setLine t a buf) = g.touch (g.tagsHeld t) a := by
  funext i
  rw [tagsHeld, keys_setLine, touch]
  split_ifs with hi
  · rw [hi, Function.update_self]
    rfl
  · rw [Function.update_of_ne hi]
    rfl

/-- A line that is held is found where it is, and no tag moves. -/
theorem touch_held (k : Nat → List Tag) (a : UInt64) (h : g.holdsLine k a = true) :
    g.touch k a = k := by
  rw [touch, SlotTable.putKeys_of_mem _ _ (of_decide_eq_true h), Function.update_eq_self]

theorem cachedLine_of_holdsLine (t : Nat → g.Block) (a : UInt64)
    (h : g.holdsLine (g.tagsHeld t) a = true) : ∃ line, g.cachedLine t a = some line := by
  obtain ⟨e, he⟩ := ((t (g.block a)).lookup_isSome (g.tag a)).mpr (of_decide_eq_true h)
  exact ⟨g.lineData e, Option.map_eq_some_iff.mpr ⟨e, he, rfl⟩⟩

theorem cachedLine_of_not_holdsLine (t : Nat → g.Block) (a : UInt64)
    (h : g.holdsLine (g.tagsHeld t) a = false) : g.cachedLine t a = none := by
  apply (g.cachedLine_eq_none t a).mpr
  apply ((t (g.block a)).lookup_eq_none (g.tag a)).mpr
  exact of_decide_eq_false h

end Geometry

def SimplestMemory.DefaultSizes (m : SimplestMemory) : Prop := m.p_PAGESIZE = 1024 ∧ m.p_LINESIZE = 8

namespace RealCache

namespace Branch

def hit : Branch → Bool
  | .readHit => true
  | .writeHit => true
  | _ => false

end Branch

/-- A read or write of four bytes at an address of a memory with the default sizes. -/
@[mk_iff] structure WordTraffic (trans : GenericPayload) : Prop where
  command_ne : trans.command ≠ .ignore
  dataLength_eq : trans.dataLength = 4
  byteEnablePtr_eq : trans.byteEnablePtr = none
  streamingWidth_le : 4 ≤ trans.streamingWidth
  address_lt : (trans.address / 4).toNat < 1024
  data_le : 4 ≤ trans.data.length

instance (trans : GenericPayload) : Decidable (WordTraffic trans) :=
  decidable_of_iff' _ (wordTraffic_iff trans)

theorem WordTraffic.valid (trans : GenericPayload) (h : WordTraffic trans) (m : SimplestMemory)
    (hm : m.DefaultSizes) : ValidTraffic m.p_PAGESIZE m.p_LINESIZE trans := by
  have hlen : trans.dataLength.toNat = 4 := by rw [h.dataLength_eq]; rfl
  have hadr := h.address_lt
  obtain ⟨hp, hl⟩ := hm
  refine ⟨h.command_ne, h.byteEnablePtr_eq, ?_, by omega, by omega, by rw [hlen]; exact h.data_le⟩
  rw [h.dataLength_eq]
  exact h.streamingWidth_le

/-- What a miss adds to the delay: one access of the memory for the fill, and before it one for
the write. -/
def missDelay : Command → Nat
  | .read => 100
  | .write => 200
  | .ignore => 0

/-- The delay that the tags held make an access take. -/
def accessDelay (g : Geometry) (k : Nat → List Geometry.Tag) (trans : GenericPayload) : Nat :=
  if g.holdsLine k trans.address then 0 else missDelay trans.command

/-- A cache in front of a memory with the default sizes, by the tags that it holds. -/
def HoldsTags (g : Geometry) (k : Nat → List Geometry.Tag) (c : RealCache SimplestMemory) : Prop :=
  c.memory.DefaultSizes ∧ ∃ t, c.m_cacheStore = g.store t ∧ g.tagsHeld t = k

section Step

variable (g : Geometry) (t : Nat → g.Block) (c : RealCache SimplestMemory) (call : Call)

theorem lineFill_answered (h32 : g.lineBytes ≤ 32) (hc : c.m_cacheStore = g.store t)
    (m : SimplestMemory) (hm : m.DefaultSizes) (delay : Nat) :
    ∃ r, SimplestMemory.target.b_transport m (c.lineRequest call.trans.address c.newLine) delay =
      .ok (r, m) ∧ r.delay = delay + 100 := by
  have hlt : call.trans.address.toNat % g.lineBytes < g.lineBytes := g.byteOffset_lt _
  have hle : c.fillSource call + g.lineBytes ≤ m.bytes.length := by
    rw [SimplestMemory.bytes_length, hm.1, fillSource, c.lineSize_toNat g t hc]
    omega
  exact ⟨_, (lineFill_iff g t c call hc m m delay _).mpr ⟨hle, rfl, rfl⟩, rfl⟩

theorem write_answered (m : SimplestMemory) (hm : m.DefaultSizes) (h : WordTraffic call.trans) :
    ∃ r m', SimplestMemory.target.b_transport m call.trans call.delay = .ok (r, m') ∧
      r.trans.isResponseError = false ∧ r.delay = call.delay + 100 ∧ m'.DefaultSizes := by
  obtain ⟨data, m', ha, hp, hl⟩ := m.access_valid call.trans (h.valid call.trans m hm)
  exact ⟨_, m', (m.b_transport_ok m' call.trans call.delay _).mpr ⟨data, ha, rfl⟩, rfl, rfl,
    hp.trans hm.1, hl.trans hm.2⟩

/-- One access of a cached line costs nothing, and leaves the tags as they are. -/
theorem hit_timed (hl : 4 ≤ g.lineBytes) (hc : c.m_cacheStore = g.store t)
    (h : WordTraffic call.trans) (line : List UInt8)
    (hline : g.cachedLine t call.trans.address = some line) :
    ∃ a c', c.b_transport SimplestMemory.target call = .ok (a, c') ∧ c'.memory = c.memory ∧
      a.branch.hit = true ∧ a.delay = call.delay ∧ (c'.m_cacheStore = g.store t ∨
        ∃ buf, c'.m_cacheStore = g.store (g.setLine t call.trans.address buf)) := by
  have hdata := h.data_le
  obtain ⟨b, rest, hb⟩ := List.exists_cons_of_ne_nil
    (List.ne_nil_of_length_pos (by omega : 0 < call.trans.data.length))
  have hiff (a : Answer) (c' : RealCache SimplestMemory) :=
    b_transport_iff SimplestMemory.target g t c c' call a hl hc
  cases hcommand : call.trans.command with
  | read =>
    exact ⟨_, c, (hiff _ _).mpr ⟨h.dataLength_eq, .readHit line b rest hcommand hline hb⟩, rfl,
      rfl, rfl, Or.inl hc⟩
  | write =>
    exact ⟨_, _, (hiff _ _).mpr ⟨h.dataLength_eq, .writeHit line b rest hcommand hline hb⟩, rfl,
      rfl, rfl, Or.inr ⟨_, rfl⟩⟩
  | ignore => exact absurd hcommand h.command_ne

/-- One access of a line that is not cached fills it, at the cost of the memory accesses. -/
theorem miss_timed (hl : 4 ≤ g.lineBytes) (h32 : g.lineBytes ≤ 32)
    (hc : c.m_cacheStore = g.store t) (hm : c.memory.DefaultSizes) (h : WordTraffic call.trans)
    (hline : g.cachedLine t call.trans.address = none) :
    ∃ a c', c.b_transport SimplestMemory.target call = .ok (a, c') ∧ c'.memory.DefaultSizes ∧
      a.branch.hit = false ∧ a.delay = call.delay + missDelay call.trans.command ∧
      ∃ buf, c'.m_cacheStore = g.store (g.setLine t call.trans.address buf) := by
  have hdata := h.data_le
  obtain ⟨b, rest, hb⟩ := List.exists_cons_of_ne_nil
    (List.ne_nil_of_length_pos (by omega : 0 < call.trans.data.length))
  have hiff (a : Answer) (c' : RealCache SimplestMemory) :=
    b_transport_iff SimplestMemory.target g t c c' call a hl hc
  cases hcommand : call.trans.command with
  | read =>
    obtain ⟨r, hfill, hdelay⟩ := lineFill_answered g t c call h32 hc c.memory hm call.delay
    exact ⟨_, _, (hiff _ _).mpr
      ⟨h.dataLength_eq, .readMiss r c.memory b rest hcommand hline hfill hb⟩, hm, rfl, hdelay,
      _, rfl⟩
  | write =>
    obtain ⟨r, written, hwrite, hok, hdelay, hm'⟩ := write_answered call c.memory hm h
    obtain ⟨f, hfill, hdelay'⟩ := lineFill_answered g t c call h32 hc written hm' r.delay
    refine ⟨_, _, (hiff _ _).mpr
      ⟨h.dataLength_eq, .writeMiss r f written written hcommand hline hwrite hok hfill⟩, hm', rfl,
      ?_, _, rfl⟩
    show f.delay = _
    rw [hdelay', hdelay]
    rfl
  | ignore => exact absurd hcommand h.command_ne

end Step

/-- An access is timed by the tags held alone, and changes them as a touch of its line. -/
theorem access_timed (g : Geometry) (hl : 4 ≤ g.lineBytes) (h32 : g.lineBytes ≤ 32)
    (k : Nat → List Geometry.Tag) (c : RealCache SimplestMemory) (hk : HoldsTags g k c)
    (call : Call) (h : WordTraffic call.trans) :
    ∃ a c', c.b_transport SimplestMemory.target call = .ok (a, c') ∧
      HoldsTags g (g.touch k call.trans.address) c' ∧
      a.branch.hit = g.holdsLine k call.trans.address ∧
      a.delay = call.delay + accessDelay g k call.trans := by
  obtain ⟨hm, t, hc, rfl⟩ := hk
  cases hheld : g.holdsLine (g.tagsHeld t) call.trans.address with
  | true =>
    obtain ⟨line, hline⟩ := g.cachedLine_of_holdsLine t _ hheld
    obtain ⟨a, c', hs, hmem, hhit, hdelay, hstore⟩ := hit_timed g t c call hl hc h line hline
    refine ⟨a, c', hs, ⟨by rw [hmem]; exact hm, ?_⟩, hhit, ?_⟩
    · rcases hstore with hstore | ⟨buf, hstore⟩
      · exact ⟨t, hstore, (g.touch_held _ _ hheld).symm⟩
      · exact ⟨_, hstore, g.tagsHeld_setLine t _ buf⟩
    · rw [hdelay, accessDelay, if_pos hheld, Nat.add_zero]
  | false =>
    have hline := g.cachedLine_of_not_holdsLine t _ hheld
    obtain ⟨a, c', hs, hm', hhit, hdelay, buf, hstore⟩ := miss_timed g t c call hl h32 hc hm h hline
    refine ⟨a, c', hs, ⟨hm', _, hstore, g.tagsHeld_setLine t _ buf⟩, hhit, ?_⟩
    rw [hdelay, accessDelay, if_neg (by rw [hheld]; decide)]

theorem holdsTags_fresh (g : Geometry) (memory : SimplestMemory) (hm : memory.DefaultSizes) :
    HoldsTags g (fun _ => []) (g.freshCache memory) := ⟨hm, g.emptyBlocks, rfl, rfl⟩

end RealCache

end FreeSampler
