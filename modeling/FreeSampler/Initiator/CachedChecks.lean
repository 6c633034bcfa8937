import FreeSampler.Initiator.TestInitiator
import FreeSampler.RealCache.Compositions
import FreeSampler.RealCache.Costs
import FreeSampler.RealCache.Words

namespace FreeSampler

open Framework Tlm

namespace RealCache

variable {σ : Type} (T : Target σ)

theorem storeAt_length {α : Type} (array result : List α) (index : Nat) (value : α)
    (h : storeAt array index value = .ok result) : result.length = array.length := by
  rw [storeAt] at h
  split_ifs at h
  rw [← Except.ok.inj h, List.length_set]

theorem accessDataFromMemory_length (c c' : RealCache σ) (call : Call) (trans : GenericPayload)
    (delay : Nat) (b : Bool) (r : Transport)
    (h : c.accessDataFromMemory T call trans delay = .ok (b, r, c')) :
    r.trans.data.length = trans.data.length := by
  obtain ⟨s, memory, hs, _, rfl, _⟩ := (accessDataFromMemory_ok T c call trans delay b r c').mp h
  exact T.data_length _ _ _ s memory hs

/-- The cache leaves the length of the initiator's buffer as it is. -/
theorem b_transport_data_length (c c' : RealCache σ) (call : Call) (a : Answer)
    (h : c.b_transport T call = .ok (a, c')) : a.trans.data.length = call.trans.data.length := by
  rw [b_transport] at h
  split_ifs at h with hlen
  cases hc : call.trans.command with
  | read =>
    simp only [hc, readByte, bind_eq_ok, Prod.exists] at h
    obtain ⟨bHit, dataout, _, h⟩ := h
    split_ifs at h
    · simp only [bind_eq_ok] at h
      obtain ⟨_, _, data, hs, hr⟩ := h
      rw [← (ok_inj hr).1]
      exact storeAt_length _ data _ _ hs
    · simp only [bind_eq_ok, Prod.exists] at h
      obtain ⟨_, _, _, _, _, data, hs, hr⟩ := h
      rw [← (ok_inj hr).1]
      exact storeAt_length _ data _ _ hs
  | write =>
    simp only [hc, writeByte, bind_eq_ok, Prod.exists] at h
    obtain ⟨bHit, dataout, _, h⟩ := h
    split_ifs at h
    · simp only [bind_eq_ok, Prod.exists] at h
      obtain ⟨_, _, _, _, _, _, _, hr⟩ := h
      rw [← (ok_inj hr).1]
      rfl
    · simp only [bind_eq_ok, Prod.exists] at h
      obtain ⟨b, r, c₁, ha, h⟩ := h
      have hr := accessDataFromMemory_length T c c₁ call call.trans call.delay b r ha
      split_ifs at h
      · rw [← (ok_inj h).1]
        exact hr
      · simp only [bind_eq_ok, Prod.exists] at h
        obtain ⟨_, _, _, h⟩ := h
        rw [← (ok_inj h).1]
        exact hr
  | ignore =>
    simp only [hc] at h
    rw [← (ok_inj h).1]
    rfl

/-- The cache as a target itself, with the number of its calls so far: `past n` is what lies
behind the line buffers of call number `n`. -/
def socket (past : Nat → Nat → UInt32) (sc_time_stamp : String) : Target (RealCache σ × Nat) where
  b_transport s trans delay := do
    let (a, c) ← s.1.b_transport T ⟨trans, delay, past s.2, sc_time_stamp⟩
    return (⟨a.trans, a.delay, a.reports⟩, c, s.2 + 1)
  data_length s trans delay r s' h := by
    simp only [bind_eq_ok, Prod.exists] at h
    obtain ⟨a, c, hs, hr⟩ := h
    rw [← (ok_inj hr).1]
    exact b_transport_data_length T s.1 c _ a hs

end RealCache

/-- A word with its first byte replaced, as a read through the cache leaves `m_data`. -/
def withFirstByte (w : UInt32) (b : UInt8) : UInt32 :=
  UInt32.ofNat (256 * (w.toNat / 256) + b.toNat)

theorem withFirstByte_toNat (w : UInt32) (b : UInt8) :
    (withFirstByte w b).toNat = 256 * (w.toNat / 256) + b.toNat := by
  have hw := w.toNat_lt
  have hb := b.toNat_lt
  rw [withFirstByte, UInt32.toNat_ofNat']
  omega

theorem wordBytes_withFirstByte (w : UInt32) (b : UInt8) :
    wordBytes (withFirstByte w b) = b :: (wordBytes w).tail := by
  have hb := b.toNat_lt
  have byte (m n : Nat) (h : m % 256 = n % 256) : UInt8.ofNat m = UInt8.ofNat n := by
    apply UInt8.toNat_inj.mp
    simpa using h
  have hfirst : UInt8.ofNat (256 * (w.toNat / 256) + b.toNat) = b := by
    apply UInt8.toNat_inj.mp
    simp only [UInt8.toNat_ofNat']
    omega
  simp only [wordBytes, withFirstByte_toNat, List.tail_cons, hfirst, List.cons.injEq, true_and,
    and_true]
  exact ⟨byte _ _ (by omega), byte _ _ (by omega), byte _ _ (by omega)⟩

/-- It is a given word when the byte is its first one and the other bytes are the same. -/
theorem withFirstByte_eq_iff (w v : UInt32) (b : UInt8) :
    withFirstByte w b = v ↔ b = UInt8.ofNat v.toNat ∧ w.toNat / 256 = v.toNat / 256 := by
  have hb := b.toNat_lt
  rw [← UInt32.toNat_inj, ← UInt8.toNat_inj, withFirstByte_toNat, UInt8.toNat_ofNat']
  omega

theorem withFirstByte_upper (w : UInt32) (b : UInt8) :
    (withFirstByte w b).toNat / 256 = w.toNat / 256 := by
  have hb := b.toNat_lt
  rw [withFirstByte_toNat]
  omega

/-- The upper three bytes survive the increment of a value unless its first byte carries. -/
theorem increment_upper (v : UInt32) :
    (v + 1).toNat / 256 = v.toNat / 256 ↔ v.toNat % 256 ≠ 255 := by
  have hv := v.toNat_lt
  have hone : (1 : UInt32).toNat = 1 := rfl
  rw [UInt32.toNat_add, hone]
  omega

namespace TestInitiator

open RealCache

variable {σ : Type} (T : Target σ) (g : Geometry) (p : Printed) (past : Nat → Nat → UInt32)

/-- The call that the cache gets from the initiator. -/
def cacheCall (i : TestInitiator (RealCache σ × Nat)) (delay : Nat) : RealCache.Call :=
  ⟨{ i.trans with data := wordBytes i.m_data }, delay, past i.target.2, p.sc_time_stamp⟩

/-- An outcome of the cache, as its initiator goes on with it. -/
theorem b_transport_cached (hl : 4 ≤ g.lineBytes) (i : TestInitiator (RealCache σ × Nat))
    (hi : Ready i) (t : Nat → g.Block) (hc : i.target.1.m_cacheStore = g.store t) (delay : Nat)
    (a : Answer) (c' : RealCache σ) (v : UInt32) (hv : a.trans.data = wordBytes v)
    (h : Outcome T g t i.target.1 (i.cacheCall p past delay) a c') :
    i.b_transport (socket T past p.sc_time_stamp) delay =
      .ok ((a.delay, a.reports), ⟨v, a.trans, (c', i.target.2 + 1)⟩) := by
  have hs := (b_transport_iff T g t i.target.1 c' (i.cacheCall p past delay) a hl hc).mpr
    ⟨hi.dataLength_eq, h⟩
  have hsocket : (socket T past p.sc_time_stamp).b_transport i.target
      { i.trans with data := wordBytes i.m_data } delay =
      .ok (⟨a.trans, a.delay, a.reports⟩, c', i.target.2 + 1) := by
    rw [cacheCall] at hs
    simp only [socket, hs, ok_bind]
    rfl
  exact b_transport_answered _ i delay _ _ v hv hsocket

/-- A read of a cached line costs nothing, and replaces the first byte of `m_data`. -/
theorem read_cached (hl : 4 ≤ g.lineBytes) (i : TestInitiator (RealCache σ × Nat)) (hi : Ready i)
    (t : Nat → g.Block) (hc : i.target.1.m_cacheStore = g.store t)
    (hread : i.trans.command = .read) (line : List UInt8)
    (hline : g.cachedLine t i.trans.address = some line) :
    ∃ i', i.b_transport (socket T past p.sc_time_stamp) 0 = .ok ((0, []), i') ∧ Ready i' ∧
      i'.trans.isResponseError = false ∧ i'.target.1 = i.target.1 ∧
      i'.m_data = withFirstByte i.m_data (line.getD (g.byteOffset i.trans.address) 0) := by
  refine ⟨_, b_transport_cached T g p past hl i hi t hc 0 _ _
    (withFirstByte i.m_data (line.getD (g.byteOffset i.trans.address) 0)) ?_
    (.readHit line _ _ hread hline rfl), ?_, rfl, rfl, rfl⟩
  · exact (wordBytes_withFirstByte _ _).symm
  · exact ⟨hi.dataLength_eq, hi.byteEnablePtr_eq, hi.streamingWidth_le⟩

/-- The bytes that the request for the line of an address reads. -/
def requested (m : SimplestMemory) (a : UInt64) : List UInt8 :=
  slice m.bytes (4 * (a.toNat % g.lineBytes / 4 / 4)) g.lineBytes

/-- A read of a line that is not cached takes 100 ns, brings in the bytes that the request reads,
and replaces the first byte of `m_data` by one of them. -/
theorem read_missed (hl : 4 ≤ g.lineBytes) (h32 : g.lineBytes ≤ 32)
    (i : TestInitiator (RealCache SimplestMemory × Nat)) (hi : Ready i) (t : Nat → g.Block)
    (hc : i.target.1.m_cacheStore = g.store t) (hm : i.target.1.memory.DefaultSizes)
    (hread : i.trans.command = .read) (hline : g.cachedLine t i.trans.address = none) :
    ∃ i' words, i.b_transport (socket SimplestMemory.target past p.sc_time_stamp) 0 =
        .ok ((100, []), i') ∧ Ready i' ∧ i'.trans.isResponseError = false ∧
      i'.m_data = withFirstByte i.m_data
        ((requested g i.target.1.memory i.trans.address).getD (g.byteOffset i.trans.address) 0) ∧
      i'.target.1.memory = i.target.1.memory ∧
      i'.target.1.m_cacheStore = g.store (g.setLine t i.trans.address
        (g.lineWords (requested g i.target.1.memory i.trans.address) words)) := by
  obtain ⟨hpage, hwords⟩ := hm
  have hoffset : i.trans.address.toNat % g.lineBytes < g.lineBytes := g.byteOffset_lt _
  have hsource : i.target.1.fillSource (i.cacheCall p past 0) =
      4 * (i.trans.address.toNat % g.lineBytes / 4 / 4) := by
    rw [fillSource, i.target.1.lineSize_toNat g t hc]
    rfl
  have hrequest := lineRequest_is g t i.target.1 hc hl i.trans.address
  have hcheck : i.target.1.memory.check (i.target.1.lineRequest (i.cacheCall p past 0).trans.address
      i.target.1.newLine) = [] :=
    i.target.1.memory.check_lineRequest g (by omega) (by omega) _ hrequest
  have hfill := (lineFill_iff g t i.target.1 (i.cacheCall p past 0) hc i.target.1.memory
    i.target.1.memory 0 _).mpr
    ⟨by rw [hsource, SimplestMemory.bytes_length, hpage]; omega, rfl, rfl⟩
  rw [hsource, hcheck] at hfill
  have hcall := b_transport_cached SimplestMemory.target g p past hl i hi t hc 0 _ _
    (withFirstByte i.m_data ((requested g i.target.1.memory i.trans.address).getD
      (g.byteOffset i.trans.address) 0))
    (wordBytes_withFirstByte _ _).symm (.readMiss _ _ _ _ hread hline hfill rfl)
  exact ⟨_, _, hcall, ⟨hi.dataLength_eq, hi.byteEnablePtr_eq, hi.streamingWidth_le⟩, rfl, rfl, rfl,
    rfl⟩

/-- A checked read of a cached line: the first byte of `m_data` comes from the line, the other
three are those of the value before. -/
theorem step_read_cached (hl : 4 ≤ g.lineBytes) (i : TestInitiator (RealCache σ × Nat))
    (hi : Ready i) (t : Nat → g.Block) (hc : i.target.1.m_cacheStore = g.store t)
    (unittestName : String) (address : UInt64) (expdata : UInt32) (expdelay : Nat)
    (line : List UInt8) (hline : g.cachedLine t address = some line) :
    ∃ i' m_data, i.step (socket T past p.sc_time_stamp) p
        (.read unittestName address expdata expdelay) =
      .ok (wrongData p unittestName m_data expdata ++ wrongDelay p unittestName 0 expdelay, i') ∧
      Ready i' ∧ i'.target.1 = i.target.1 ∧ i'.m_data = m_data ∧
      m_data = withFirstByte i.m_data (line.getD (g.byteOffset address) 0) := by
  obtain ⟨i', hs, hready, hok, hcache, hdata⟩ := read_cached T g p past hl
    ((i.setCommand .read).setAddress address)
    ⟨hi.dataLength_eq, hi.byteEnablePtr_eq, hi.streamingWidth_le⟩ t hc rfl line hline
  refine ⟨i', i'.m_data, ?_, hready, hcache, rfl, hdata⟩
  rw [step_read_ok _ p i i' unittestName address expdata expdelay 0 [] hs, check_trans_read_good,
    responseError_ok p unittestName _ hok]
  rfl

theorem step_read_missed (hl : 4 ≤ g.lineBytes) (h32 : g.lineBytes ≤ 32)
    (i : TestInitiator (RealCache SimplestMemory × Nat)) (hi : Ready i) (t : Nat → g.Block)
    (hc : i.target.1.m_cacheStore = g.store t) (hm : i.target.1.memory.DefaultSizes)
    (unittestName : String) (address : UInt64) (expdata : UInt32) (expdelay : Nat)
    (hline : g.cachedLine t address = none) (line : List UInt8)
    (hrequest : requested g i.target.1.memory address = line) :
    ∃ i' m_data words, i.step (socket SimplestMemory.target past p.sc_time_stamp) p
        (.read unittestName address expdata expdelay) =
      .ok (wrongData p unittestName m_data expdata ++ wrongDelay p unittestName 100 expdelay, i') ∧
      Ready i' ∧ i'.target.1.memory = i.target.1.memory ∧
      i'.target.1.m_cacheStore = g.store (g.setLine t address (g.lineWords line words)) ∧
      i'.m_data = m_data ∧
      m_data = withFirstByte i.m_data (line.getD (g.byteOffset address) 0) := by
  obtain ⟨i', words, hs, hready, hok, hdata, hmemory, hstore⟩ := read_missed g p past hl h32
    ((i.setCommand .read).setAddress address)
    ⟨hi.dataLength_eq, hi.byteEnablePtr_eq, hi.streamingWidth_le⟩ t hc hm rfl hline
  rw [← hrequest]
  refine ⟨i', i'.m_data, words, ?_, hready, hmemory, hstore, rfl, hdata⟩
  rw [step_read_ok _ p i i' unittestName address expdata expdelay 100 [] hs, check_trans_read_good,
    responseError_ok p unittestName _ hok]
  rfl

/-- The check of a write that left its line in the cache: the delays, and the byte that the line
holds in front of the three upper bytes of the incremented value. -/
theorem check_write_cached (hl : 4 ≤ g.lineBytes) (i : TestInitiator (RealCache σ × Nat))
    (hi : Ready i) (t : Nat → g.Block) (hc : i.target.1.m_cacheStore = g.store t)
    (hok : i.trans.isResponseError = false) (line : List UInt8)
    (hline : g.cachedLine t i.trans.address = some line) (hne : i.m_data ≠ 0x7fffffff)
    (unittestName : String) (delay expdelay readDelay : Nat) :
    ∃ i' m_data, i.check_trans_write_good (socket T past p.sc_time_stamp) p unittestName delay
        expdelay readDelay = .ok (wrongDelay p unittestName delay expdelay ++
          (wrongData p unittestName m_data i.m_data ++ wrongDelay p unittestName 0 readDelay), i') ∧
      Ready i' ∧ i'.target.1 = i.target.1 ∧ i'.m_data = m_data ∧
      m_data = withFirstByte (i.m_data + 1) (line.getD (g.byteOffset i.trans.address) 0) := by
  have hincrement : increment (i.setCommand .read).m_data = .ok (i.m_data + 1) := if_neg hne
  obtain ⟨i', hs, hready, hok', hcache, hdata⟩ := read_cached T g p past hl
    ((i.setCommand .read).setData (i.m_data + 1))
    ⟨hi.dataLength_eq, hi.byteEnablePtr_eq, hi.streamingWidth_le⟩ t hc rfl line hline
  refine ⟨i', i'.m_data, ?_, hready, hcache, rfl, hdata⟩
  simp only [check_trans_write_good, hincrement, ok_bind, hs, check_trans_read_good,
    responseError_ok p unittestName _ hok, responseError_ok p unittestName _ hok', List.nil_append]
  rfl

/-- A write to a cached line costs nothing, and puts the first byte of `m_data` in the line. -/
theorem write_cached (hl : 4 ≤ g.lineBytes) (i : TestInitiator (RealCache σ × Nat)) (hi : Ready i)
    (t : Nat → g.Block) (hc : i.target.1.m_cacheStore = g.store t)
    (hwrite : i.trans.command = .write) (line : List UInt8)
    (hline : g.cachedLine t i.trans.address = some line) :
    ∃ i' words, i.b_transport (socket T past p.sc_time_stamp) 0 = .ok ((0, []), i') ∧ Ready i' ∧
      i'.trans.isResponseError = false ∧ i'.trans.address = i.trans.address ∧
      i'.m_data = i.m_data ∧ i'.target.1.memory = i.target.1.memory ∧
      i'.target.1.m_cacheStore = g.store (g.setLine t i.trans.address (g.lineWords
        (line.set (g.byteOffset i.trans.address) (UInt8.ofNat i.m_data.toNat)) words)) :=
  ⟨_, _, b_transport_cached T g p past hl i hi t hc 0 _ _ i.m_data rfl
    (.writeHit line _ _ hwrite hline rfl),
    ⟨hi.dataLength_eq, hi.byteEnablePtr_eq, hi.streamingWidth_le⟩, rfl, rfl, rfl, rfl, rfl⟩

/-- A checked write to a cached line: no delay, and the first byte of the value in front of the
upper ones of the incremented value. -/
theorem step_write_held (hl : 4 ≤ g.lineBytes) (i : TestInitiator (RealCache σ × Nat))
    (hi : Ready i) (t : Nat → g.Block) (hc : i.target.1.m_cacheStore = g.store t)
    (unittestName : String) (address : UInt64) (v : UInt32) (hne : v ≠ 0x7fffffff) (expdelay : Nat)
    (line : List UInt8) (hline : g.cachedLine t address = some line) :
    ∃ i' words, i.step (socket T past p.sc_time_stamp) p
      (.write unittestName address v expdelay expdelay) = .ok ([] ++
        (wrongDelay p unittestName 0 expdelay ++
          (wrongData p unittestName (withFirstByte (v + 1) (UInt8.ofNat v.toNat)) v ++
            wrongDelay p unittestName 0 expdelay)), i') ∧ Ready i' ∧
      i'.target.1.memory = i.target.1.memory ∧
      i'.target.1.m_cacheStore = g.store (g.setLine t address (g.lineWords
        (line.set (g.byteOffset address) (UInt8.ofNat v.toNat)) words)) ∧
      i'.m_data = withFirstByte (v + 1) (UInt8.ofNat v.toNat) := by
  obtain ⟨u, words, hs, hready, hok, haddress, hdata, hmemory, hstore⟩ := write_cached T g p past hl
    (((i.setCommand .write).setAddress address).setData v)
    ⟨hi.dataLength_eq, hi.byteEnablePtr_eq, hi.streamingWidth_le⟩ t hc rfl line hline
  have hadr : u.trans.address = address := haddress
  have hv : u.m_data = v := hdata
  have hlen := g.cachedLine_length hl t address line hline
  have hlt : g.byteOffset address < line.length := by
    rw [hlen]
    exact g.byteOffset_lt address
  have hset := g.cachedLine_setLine_self hl t address address
    (line.set (g.byteOffset address) (UInt8.ofNat v.toNat)) words
    (by rw [List.length_set, hlen]) rfl
  obtain ⟨i', m_data, hs', hready', hcache, hdata', hm⟩ := check_write_cached T g p past hl u hready
    _ hstore hok _ (by rw [hadr]; exact hset) (by rw [hv]; exact hne) unittestName 0 expdelay
    expdelay
  have hbyte : (line.set (g.byteOffset address) (UInt8.ofNat v.toNat)).getD
      (g.byteOffset address) 0 = UInt8.ofNat v.toNat := by
    rw [List.getD_eq_getElem?_getD, List.getElem?_set_self hlt, Option.getD_some]
  rw [hadr, hv, hbyte] at hm
  rw [hv, hm] at hs'
  exact ⟨i', words, step_write_ok _ p i u i' unittestName address v expdelay expdelay 0 [] _ hs hs',
    hready', by rw [hcache]; exact hmemory, by rw [hcache]; exact hstore, hdata'.trans hm⟩

/-- What every outcome over the simplest memory leaves as it is. -/
theorem outcome_frame (t : Nat → g.Block) (c c' : RealCache SimplestMemory) (call : RealCache.Call)
    (a : Answer) (h : Outcome SimplestMemory.target g t c call a c') :
    (∃ data, a.trans = { call.trans with data := data, responseStatus := .ok }) ∧
      (call.trans.command = .write → a.trans.data = call.trans.data) ∧
      (c.memory.DefaultSizes → c'.memory.DefaultSizes) := by
  have hsizes (m m' : SimplestMemory) (trans : GenericPayload) (delay : Nat) (r : Transport)
      (hs : SimplestMemory.target.b_transport m trans delay = .ok (r, m')) :
      (∃ data, m.access trans = .ok (data, m') ∧
        r.trans = { trans with data := data, responseStatus := .ok }) ∧
      (m.DefaultSizes → m'.DefaultSizes) := by
    obtain ⟨data, ha, rfl⟩ := (m.b_transport_ok m' trans delay r).mp hs
    obtain ⟨hp, hline⟩ := m.access_sizes m' trans data ha
    exact ⟨⟨data, ha, rfl⟩, fun hm => ⟨hp.trans hm.1, hline.trans hm.2⟩⟩
  cases h with
  | readHit line b rest hread _ _ => exact ⟨⟨_, rfl⟩, by simp [hread], id⟩
  | readMiss r m b rest hread _ hfill _ =>
    exact ⟨⟨_, rfl⟩, by simp [hread], (hsizes _ _ _ _ _ hfill).2⟩
  | writeHit line b rest _ _ _ => exact ⟨⟨_, rfl⟩, fun _ => rfl, id⟩
  | writeError r m hwrite _ hw _ =>
    obtain ⟨⟨data, ha, htrans⟩, hm⟩ := hsizes _ _ _ _ _ hw
    have hdata := ((c.memory.access_write m call.trans data hwrite).mp ha).1
    refine ⟨⟨data, by rw [respond, htrans]⟩, ?_, hm⟩
    intro _
    rw [respond, htrans]
    exact hdata
  | writeMiss r f written m hwrite _ hw _ hfill =>
    obtain ⟨⟨data, ha, htrans⟩, hm⟩ := hsizes _ _ _ _ _ hw
    have hdata := ((c.memory.access_write written call.trans data hwrite).mp ha).1
    refine ⟨⟨data, by rw [respond, htrans]⟩, ?_, ?_⟩
    · intro _
      rw [respond, htrans]
      exact hdata
    · intro hc
      exact (hsizes _ _ _ _ _ hfill).2 (hm hc)
  | ignored hi => exact ⟨⟨_, rfl⟩, by simp [hi], id⟩

/-- An initiator in front of a cache with a memory of the default sizes. -/
structure CacheReady (i : TestInitiator (RealCache SimplestMemory × Nat)) : Prop where
  ready : Ready i
  tables : g.HoldsTables i.target.1
  sizes : i.target.1.memory.DefaultSizes

section Scripts

variable (hl : 4 ≤ g.lineBytes)

include hl

theorem cacheReady_b_transport (i i' : TestInitiator (RealCache SimplestMemory × Nat))
    (hi : CacheReady g i) (delay : Nat) (x : Nat × List Report)
    (h : i.b_transport (socket SimplestMemory.target past p.sc_time_stamp) delay = .ok (x, i')) :
    CacheReady g i' := by
  obtain ⟨hready, ⟨t, ht⟩, hsizes⟩ := hi
  simp only [b_transport, socket, bind_eq_ok, Prod.exists] at h
  obtain ⟨r, c', n, ⟨a, c, hs, hr⟩, v, hv, hend⟩ := h
  obtain ⟨rfl, hcn⟩ := ok_inj hr
  obtain ⟨rfl, rfl⟩ := Prod.mk.inj hcn
  obtain ⟨rfl, rfl⟩ := ok_inj hend
  have hout := ((b_transport_iff SimplestMemory.target g t i.target.1 c _ a hl ht).mp hs).2
  obtain ⟨⟨data, htrans⟩, -, hm⟩ := outcome_frame g t _ c _ a hout
  refine ⟨?_, g.holdsTables_outcome SimplestMemory.target t _ c _ a ht hout, hm hsizes⟩
  rw [htrans]
  exact ⟨hready.dataLength_eq, hready.byteEnablePtr_eq, hready.streamingWidth_le⟩

theorem cacheReady_step (i i' : TestInitiator (RealCache SimplestMemory × Nat))
    (hi : CacheReady g i) (b : Block) (reports : List Report)
    (h : i.step (socket SimplestMemory.target past p.sc_time_stamp) p b = .ok (reports, i')) :
    CacheReady g i' := by
  have hset (i : TestInitiator (RealCache SimplestMemory × Nat)) (hi : CacheReady g i)
      (command : Command) (address : UInt64) (m_data : UInt32) :
      CacheReady g ((i.setCommand command).setData m_data) ∧
        CacheReady g (((i.setCommand command).setAddress address).setData m_data) :=
    ⟨⟨⟨hi.ready.dataLength_eq, hi.ready.byteEnablePtr_eq, hi.ready.streamingWidth_le⟩, hi.tables,
      hi.sizes⟩, ⟨hi.ready.dataLength_eq, hi.ready.byteEnablePtr_eq, hi.ready.streamingWidth_le⟩,
      hi.tables, hi.sizes⟩
  cases b with
  | read unittestName address expdata expdelay =>
    simp only [step, bind_eq_ok, Prod.exists] at h
    obtain ⟨delay, targetReports, u, hs, hr⟩ := h
    obtain ⟨-, rfl⟩ := ok_inj hr
    exact cacheReady_b_transport g p past hl _ u (hset i hi .read address i.m_data).2 0 _ hs
  | write unittestName address v expdelay readDelay =>
    simp only [step, bind_eq_ok, Prod.exists, check_trans_write_good] at h
    obtain ⟨delay, targetReports, u, hs, checks, u', hcheck, hr⟩ := h
    obtain ⟨m_data, _, delay', reports', w, hs', hw⟩ := hcheck
    obtain ⟨-, rfl⟩ := ok_inj hr
    obtain ⟨-, rfl⟩ := ok_inj hw
    have hu := cacheReady_b_transport g p past hl _ u (hset i hi .write address v).2 0 _ hs
    exact cacheReady_b_transport g p past hl _ w (hset u hu .read address m_data).1 0 _ hs'

/-- A write to a line that is not cached takes 200 ns, and leaves the line in the cache. -/
theorem write_missed (h32 : g.lineBytes ≤ 32) (i : TestInitiator (RealCache SimplestMemory × Nat))
    (hi : CacheReady g i) (hwrite : i.trans.command = .write)
    (hadr : (i.trans.address / 4).toNat < 1024)
    (hmiss : ¬ i.target.1.m_cacheStore.IsResident i.trans.address) :
    ∃ i' t line reports,
      i.b_transport (socket SimplestMemory.target past p.sc_time_stamp) 0 =
        .ok ((200, reports), i') ∧ Ready i' ∧ i'.trans.isResponseError = false ∧
      i'.m_data = i.m_data ∧ i'.target.1.m_cacheStore = g.store t ∧
      g.cachedLine t i'.trans.address = some line := by
  obtain ⟨hready, ⟨t, ht⟩, hsizes⟩ := hi
  rw [ht, g.isResident_iff, not_exists] at hmiss
  have hline : g.cachedLine t i.trans.address = none :=
    Option.eq_none_iff_forall_ne_some.mpr hmiss
  have hword : WordTraffic (i.cacheCall p past 0).trans := by
    refine ⟨?_, hready.dataLength_eq, hready.byteEnablePtr_eq, hready.streamingWidth_le, hadr,
      Nat.le_refl 4⟩
    show i.trans.command ≠ .ignore
    rw [hwrite]
    exact Command.noConfusion
  obtain ⟨a, c', hs, _, _, hdelay, buf, hstore⟩ := miss_timed g t i.target.1 (i.cacheCall p past 0)
    hl h32 ht hsizes hword hline
  have hout := ((b_transport_iff SimplestMemory.target g t i.target.1 c' _ a hl ht).mp hs).2
  obtain ⟨⟨data, htrans⟩, hdata, -⟩ := outcome_frame g t _ c' _ a hout
  have hcost : a.delay = 200 := by
    rw [hdelay]
    show 0 + missDelay i.trans.command = 200
    rw [hwrite]
    rfl
  have hcall := b_transport_cached SimplestMemory.target g p past hl i hready t ht 0 a c' i.m_data
    (hdata hwrite) hout
  rw [hcost] at hcall
  have hself : g.cachedLine (g.setLine t i.trans.address buf) i.trans.address =
      some (g.lineData (g.loaded buf)) := by
    rw [Geometry.cachedLine, g.resident_setLine_self t _ _ buf rfl, Option.map_some]
  refine ⟨_, _, g.lineData (g.loaded buf), a.reports, hcall, ?_, ?_, rfl, hstore, ?_⟩
  · rw [htrans]
    exact ⟨hready.dataLength_eq, hready.byteEnablePtr_eq, hready.streamingWidth_le⟩
  · rw [htrans]
    rfl
  · rw [htrans]
    exact hself

theorem step_write_cached (i : TestInitiator (RealCache SimplestMemory × Nat))
    (hi : CacheReady g i) (unittestName : String) (address : UInt64) (v : UInt32)
    (hne : v ≠ 0x7fffffff) (expdelay : Nat) (hres : i.target.1.m_cacheStore.IsResident address) :
    ∃ i', i.step (socket SimplestMemory.target past p.sc_time_stamp) p
      (.write unittestName address v expdelay expdelay) = .ok ([] ++
        (wrongDelay p unittestName 0 expdelay ++
          (wrongData p unittestName (withFirstByte (v + 1) (UInt8.ofNat v.toNat)) v ++
            wrongDelay p unittestName 0 expdelay)), i') := by
  obtain ⟨t, ht⟩ := hi.tables
  rw [ht, g.isResident_iff] at hres
  obtain ⟨line, hline⟩ := hres
  obtain ⟨i', _, hs, -⟩ := step_write_held SimplestMemory.target g p past hl i hi.ready t ht
    unittestName address v hne expdelay line hline
  exact ⟨i', hs⟩

/-- A checked write that misses takes 200 ns, and its read none. -/
theorem step_write_missed (h32 : g.lineBytes ≤ 32)
    (i : TestInitiator (RealCache SimplestMemory × Nat)) (hi : CacheReady g i)
    (unittestName : String) (address : UInt64) (hadr : (address / 4).toNat < 1024) (v : UInt32)
    (hne : v ≠ 0x7fffffff) (expdelay : Nat)
    (hmiss : ¬ i.target.1.m_cacheStore.IsResident address) :
    ∃ i' reports m_data, i.step (socket SimplestMemory.target past p.sc_time_stamp) p
      (.write unittestName address v expdelay expdelay) = .ok (reports ++
        (wrongDelay p unittestName 200 expdelay ++ (wrongData p unittestName m_data v ++
          wrongDelay p unittestName 0 expdelay)), i') := by
  obtain ⟨u, t, line, reports, hs, hready, hok, hdata, hstore, hline⟩ := write_missed g p past hl
    h32 (((i.setCommand .write).setAddress address).setData v)
    ⟨⟨hi.ready.dataLength_eq, hi.ready.byteEnablePtr_eq, hi.ready.streamingWidth_le⟩, hi.tables,
      hi.sizes⟩ rfl hadr hmiss
  have hv : u.m_data = v := hdata
  obtain ⟨i', m_data, hs', _⟩ := check_write_cached SimplestMemory.target g p past hl u hready t
    hstore hok line hline (by rw [hv]; exact hne) unittestName 200 expdelay expdelay
  rw [hv] at hs'
  exact ⟨i', reports, m_data,
    step_write_ok _ p i u i' unittestName address v expdelay expdelay 200 reports _ hs hs'⟩

theorem cacheReady_run (memory : SimplestMemory) (hm : memory.DefaultSizes) (m_data : UInt32)
    (blocks : List Block) (reports : List (List Report))
    (i : TestInitiator (RealCache SimplestMemory × Nat))
    (h : run (step (socket SimplestMemory.target past p.sc_time_stamp) p)
      (setUp m_data (g.freshCache memory, 0)) blocks = .ok (reports, i)) : CacheReady g i := by
  have hstart : CacheReady g (setUp m_data (g.freshCache memory, 0)) :=
    ⟨ready_setUp m_data _, ⟨g.emptyBlocks, rfl⟩, hm⟩
  refine run_invariant (step (socket SimplestMemory.target past p.sc_time_stamp) p)
    (fun _ i => CacheReady g i) _ i [] blocks reports ?_ hstart h
  intro b _ _ u reports u' hu hs
  exact cacheReady_step g p past hl u u' hu b reports hs

end Scripts

end TestInitiator

namespace Geometry

open RealCache TestInitiator

variable (g : Geometry)

/-- After every script of checked accesses through the cache, a checked write passes exactly when
its line is in the cache, no delay is expected of it, and the first byte of the value is not 255:
the cache gives one byte of the word back, and the initiator has incremented the other three. -/
theorem checkedWrite_passes_iff (hl : 4 ≤ g.lineBytes) (h32 : g.lineBytes ≤ 32)
    (memory : SimplestMemory) (hm : memory.DefaultSizes) (p : Printed) (past : Nat → Nat → UInt32)
    (m_data : UInt32) (blocks : List TestInitiator.Block) (reports : List (List Report))
    (i : TestInitiator (RealCache SimplestMemory × Nat))
    (hrun : run (step (socket SimplestMemory.target past p.sc_time_stamp) p)
      (setUp m_data (g.freshCache memory, 0)) blocks = .ok (reports, i))
    (unittestName : String) (address : UInt64) (hadr : (address / 4).toNat < 1024) (v : UInt32)
    (hne : v ≠ 0x7fffffff) (expdelay : Nat) :
    ∃ checks i', i.step (socket SimplestMemory.target past p.sc_time_stamp) p
        (.write unittestName address v expdelay expdelay) = .ok (checks, i') ∧
      (checks = [] ↔ i.target.1.m_cacheStore.IsResident address ∧ expdelay = 0 ∧
        v.toNat % 256 ≠ 255) := by
  have hi := cacheReady_run g p past hl memory hm m_data blocks reports i hrun
  by_cases hres : i.target.1.m_cacheStore.IsResident address
  · obtain ⟨i', hs⟩ := step_write_cached g p past hl i hi unittestName address v hne expdelay hres
    refine ⟨_, i', hs, ?_⟩
    simp only [List.nil_append, List.append_eq_nil_iff, wrongDelay_eq_nil, wrongData_eq_nil,
      withFirstByte_eq_iff, increment_upper, hres, true_and]
    constructor
    · intro h
      exact ⟨h.1.symm, h.2.1⟩
    · intro h
      exact ⟨h.1.symm, h.2, h.1.symm⟩
  · obtain ⟨i', r, w, hs⟩ := step_write_missed g p past hl h32 i hi unittestName address hadr v hne
      expdelay hres
    refine ⟨_, i', hs, ?_⟩
    simp only [List.append_eq_nil_iff, wrongDelay_eq_nil, wrongData_eq_nil, hres, false_and,
      iff_false]
    omega

/-- A write of 2 to a line that a read brought in passes, one of 255 does not. -/
theorem checkedWrite_passes_iff_read :
    let memory : SimplestMemory :=
      ⟨1024, 8, List.replicate 1024 0, List.length_replicate, by decide, by decide⟩
    let p : Printed := ⟨"0 s", fun _ => "0 s"⟩
    let past : Nat → Nat → UInt32 := fun _ _ => 0
    ∃ reports i, run (step (socket SimplestMemory.target past p.sc_time_stamp) p)
        (setUp 0 (topRealCache.freshCache memory, 0)) [.read "read" 0x0 0 100] =
        .ok (reports, i) ∧
      ∀ v : UInt32, v = 2 ∨ v = 255 → ∃ checks i',
        i.step (socket SimplestMemory.target past p.sc_time_stamp) p (.write "write" 0x4 v 0 0) =
          .ok (checks, i') ∧
        (checks = [] ↔ i.target.1.m_cacheStore.IsResident 0x4 ∧ 0 = 0 ∧ v.toNat % 256 ≠ 255) := by
  intro memory p past
  obtain ⟨⟨reports, i⟩, h⟩ := exists_ok (run (step (socket SimplestMemory.target past
    p.sc_time_stamp) p) (setUp 0 (topRealCache.freshCache memory, 0)) [.read "read" 0x0 0 100])
    (by decide +kernel)
  refine ⟨reports, i, h, ?_⟩
  intro v hv
  have hne : v ≠ 0x7fffffff := by
    rcases hv with rfl | rfl
    · decide
    · decide
  exact topRealCache.checkedWrite_passes_iff (by decide) (by decide) memory ⟨rfl, rfl⟩ p past 0 _
    reports i h "write" 0x4 (by decide) v hne 0

end Geometry

end FreeSampler
