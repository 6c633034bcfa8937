import FreeSampler.CacheStore.Runs
import FreeSampler.RealCache.RealCache

namespace FreeSampler

open Framework Tlm

namespace Geometry

variable (g : Geometry)

/-- The bytes that a hit copies out of an entry. -/
def lineData (e : Entry g.lineBytes) : List UInt8 := toBytes (e.words.take (g.lineBytes / 4))

/-- The bytes the tables hold for the line of an address. -/
def cachedLine (t : Nat → g.Block) (a : UInt64) : Option (List UInt8) :=
  (g.resident t a).map g.lineData

def byteOffset (a : UInt64) : Nat := a.toNat % g.lineBytes

theorem byteOffset_lt (a : UInt64) : g.byteOffset a < g.lineBytes :=
  Nat.mod_lt _ (Nat.two_pow_pos _)

theorem cachedLine_eq_none (t : Nat → g.Block) (a : UInt64) :
    g.cachedLine t a = none ↔ g.resident t a = none := Option.map_eq_none_iff

theorem lineBytes_eq (hl : 4 ≤ g.lineBytes) : g.lineBytes = 4 * (g.lineBytes / 4) := by
  have hbits : 2 ≤ g.lineBits := by
    rw [lineBytes, show 4 = 2 ^ 2 from rfl] at hl
    exact (Nat.pow_le_pow_iff_right (by decide)).mp hl
  obtain ⟨k, hk⟩ := Nat.exists_eq_add_of_le hbits
  rw [lineBytes, hk, Nat.pow_add]
  omega

theorem cachedLine_length (hl : 4 ≤ g.lineBytes) (t : Nat → g.Block) (a : UInt64)
    (line : List UInt8) (h : g.cachedLine t a = some line) : line.length = g.lineBytes := by
  obtain ⟨e, _, rfl⟩ := Option.map_eq_some_iff.mp h
  have hw := e.length_eq
  have hq := g.lineBytes_eq hl
  rw [lineData, toBytes_length, List.length_take, hw]
  omega

theorem cachedLine_congr (t : Nat → g.Block) (a b : UInt64) (h : g.lineNumber a = g.lineNumber b) :
    g.cachedLine t a = g.cachedLine t b := by
  rw [cachedLine, cachedLine, g.resident_congr t a b h]

/-- The words that `setDataLine` gets for a line buffer. -/
def lineWords (line : List UInt8) (past : Nat → UInt32) : List UInt32 :=
  toWords line ++ (List.range g.lineBytes).map past

theorem lineWords_length (line : List UInt8) (past : Nat → UInt32) :
    g.lineBytes ≤ (g.lineWords line past).length := by
  simp [lineWords]

/-- A line buffer that is set is kept byte by byte, whatever lies behind it. -/
theorem lineData_loaded (hl : 4 ≤ g.lineBytes) (line : List UInt8) (past : Nat → UInt32)
    (h : line.length = g.lineBytes) : g.lineData (g.loaded (g.lineWords line past)) = line := by
  have hw : (toWords line).length = g.lineBytes / 4 := by rw [toWords_length, h]
  have hmin : min (g.lineBytes / 4) g.lineBytes = g.lineBytes / 4 :=
    Nat.min_eq_left (Nat.div_le_self _ _)
  rw [lineData, g.loaded_words _ (g.lineWords_length line past), List.take_take, hmin, lineWords,
    List.take_left' hw]
  exact toBytes_toWords (g.lineBytes / 4) line (h.trans (g.lineBytes_eq hl))

theorem cachedLine_setLine_self (hl : 4 ≤ g.lineBytes) (t : Nat → g.Block) (a b : UInt64)
    (line : List UInt8) (past : Nat → UInt32) (h : line.length = g.lineBytes)
    (hb : g.lineNumber b = g.lineNumber a) :
    g.cachedLine (g.setLine t a (g.lineWords line past)) b = some line := by
  rw [cachedLine, g.resident_setLine_self t a b _ hb, Option.map_some, g.lineData_loaded hl line past h]

theorem cachedLine_setLine_of_ne (t : Nat → g.Block) (a b : UInt64) (buf : List UInt32)
    (line : List UInt8) (hb : g.lineNumber b ≠ g.lineNumber a)
    (h : g.cachedLine (g.setLine t a buf) b = some line) : g.cachedLine t b = some line := by
  obtain ⟨e, he, hd⟩ := Option.map_eq_some_iff.mp h
  rw [cachedLine, g.resident_setLine_of_ne t a b buf e hb he, Option.map_some, hd]

theorem lineNumber_getLineAddress (t : Nat → g.Block) (a : UInt64) :
    g.lineNumber ((g.store t).getLineAddress a) = g.lineNumber a := by
  rw [lineNumber, g.getLineAddress_toNat]
  exact Nat.mul_div_cancel _ (Nat.two_pow_pos _)

theorem setLine_congr (t : Nat → g.Block) (a b : UInt64) (buf : List UInt32)
    (h : g.lineNumber a = g.lineNumber b) : g.setLine t a buf = g.setLine t b buf := by
  obtain ⟨ht, hb⟩ := (g.tag_block_iff a b).mpr h
  rw [setLine, setLine, ht, hb]

end Geometry

namespace RealCache

variable {σ : Type} (T : Target σ) (g : Geometry)

/-- The report that an access answered with an error adds. -/
def errorReport (call : Call) (trans : GenericPayload) : List Report :=
  if trans.isResponseError then
    [⟨"RealCache", "Response error from b_transport call to Memory, " ++ call.sc_time_stamp⟩]
  else []

/-- The cache after a line fill that the target answered with `r`. -/
def filled (t : Nat → g.Block) (call : Call) (r : GenericPayload) (memory : σ) : RealCache σ where
  m_cacheStore := g.store (g.setLine t call.trans.address (g.lineWords r.data call.past))
  m_cachetrans := r
  memory := memory

/-- The way calls go, over the tables that the cache store holds. -/
inductive Outcome (t : Nat → g.Block) (c : RealCache σ) (call : Call) :
    Answer → RealCache σ → Prop where
  | readHit (line : List UInt8) (b : UInt8) (rest : List UInt8)
      (hcommand : call.trans.command = .read)
      (hline : g.cachedLine t call.trans.address = some line)
      (hdata : call.trans.data = b :: rest) :
      Outcome t c call
        (respond { call.trans with data := line.getD (g.byteOffset call.trans.address) 0 :: rest }
          call.delay [] .readHit) c
  | readMiss (r : Transport) (memory : σ) (b : UInt8) (rest : List UInt8)
      (hcommand : call.trans.command = .read)
      (hline : g.cachedLine t call.trans.address = none)
      (hfill : T.b_transport c.memory (c.lineRequest call.trans.address c.newLine) call.delay =
        .ok (r, memory))
      (hdata : call.trans.data = b :: rest) :
      Outcome t c call
        (respond
          { call.trans with data := r.trans.data.getD (g.byteOffset call.trans.address) 0 :: rest }
          r.delay (r.reports ++ errorReport call r.trans) (.readMiss r.trans))
        (filled g t call r.trans memory)
  | writeHit (line : List UInt8) (b : UInt8) (rest : List UInt8)
      (hcommand : call.trans.command = .write)
      (hline : g.cachedLine t call.trans.address = some line)
      (hdata : call.trans.data = b :: rest) :
      Outcome t c call (respond call.trans call.delay [] .writeHit)
        { c with m_cacheStore := g.store (g.setLine t call.trans.address
          (g.lineWords (line.set (g.byteOffset call.trans.address) b) call.past)) }
  | writeError (r : Transport) (memory : σ)
      (hcommand : call.trans.command = .write)
      (hline : g.cachedLine t call.trans.address = none)
      (hwrite : T.b_transport c.memory call.trans call.delay = .ok (r, memory))
      (herror : r.trans.isResponseError = true) :
      Outcome t c call
        (respond r.trans r.delay (r.reports ++ errorReport call r.trans) (.writeError r.trans))
        { c with memory := memory }
  | writeMiss (r f : Transport) (written memory : σ)
      (hcommand : call.trans.command = .write)
      (hline : g.cachedLine t call.trans.address = none)
      (hwrite : T.b_transport c.memory call.trans call.delay = .ok (r, written))
      (hok : r.trans.isResponseError = false)
      (hfill : T.b_transport written (c.lineRequest call.trans.address c.newLine) r.delay =
        .ok (f, memory)) :
      Outcome t c call
        (respond r.trans f.delay (r.reports ++ (f.reports ++ errorReport call f.trans))
          (.writeMiss r.trans f.trans))
        (filled g t call f.trans memory)
  | ignored (hcommand : call.trans.command = .ignore) :
      Outcome t c call (respond call.trans call.delay [] .ignored) c

section Equations

variable (t : Nat → g.Block) (c : RealCache σ) (call : Call)

theorem lineSize_toNat (hc : c.m_cacheStore = g.store t) :
    c.m_cacheStore.p_LineSize.toNat = g.lineBytes := by
  rw [hc, Geometry.store_lineSize]

theorem newLine_length (hc : c.m_cacheStore = g.store t) : c.newLine.length = g.lineBytes := by
  rw [newLine, List.length_replicate, c.lineSize_toNat g t hc]

theorem byteIndex_eq (hc : c.m_cacheStore = g.store t) (adr : UInt64) :
    c.byteIndex adr = g.byteOffset adr := by
  rw [byteIndex, hc]
  exact g.getByteIndex_toNat t adr

theorem lineBuffer_eq (hc : c.m_cacheStore = g.store t) (line : List UInt8) (past : Nat → UInt32) :
    c.lineBuffer line past = g.lineWords line past := by
  rw [lineBuffer, c.lineSize_toNat g t hc, Geometry.lineWords]

theorem setDataLine_lineBuffer (hc : c.m_cacheStore = g.store t) (adr a : UInt64)
    (h : g.lineNumber adr = g.lineNumber a) (line : List UInt8) (past : Nat → UInt32) :
    c.m_cacheStore.setDataLine adr (some (c.lineBuffer line past)) =
      .ok ((g.resident t adr).isSome, g.store (g.setLine t a (g.lineWords line past))) := by
  rw [c.lineBuffer_eq g t hc, hc, g.setDataLine_eq t _ _ (g.lineWords_length _ _),
    g.setLine_congr t adr a _ h]

/-- Where the store answers `NULL`, the new line buffer stays as it was. -/
theorem lookupLine_null (adr : UInt64) (h : c.m_cacheStore.getCacheLine adr = .ok none) :
    c.lookupLine adr = .ok (false, c.newLine) := by
  simp only [lookupLine, c.m_cacheStore.getDataLine_null adr _ h, ok_bind, Option.getD_some,
    overlay_toWords]
  rfl

theorem lookupLine_miss (hc : c.m_cacheStore = g.store t) (adr : UInt64)
    (h : g.cachedLine t adr = none) : c.lookupLine adr = .ok (false, c.newLine) := by
  apply c.lookupLine_null adr
  rw [hc, g.getCacheLine_eq_null, ← g.cachedLine_eq_none]
  exact h

theorem lookupLine_hit (hl : 4 ≤ g.lineBytes) (hc : c.m_cacheStore = g.store t) (adr : UInt64)
    (line : List UInt8) (h : g.cachedLine t adr = some line) :
    c.lookupLine adr = .ok (true, line) := by
  obtain ⟨e, he, rfl⟩ := Option.map_eq_some_iff.mp h
  have hn := c.newLine_length g t hc
  have hq := g.lineBytes_eq hl
  have hwl : (toWords c.newLine).length = g.lineBytes / 4 := by rw [toWords_length, hn]
  have hel := e.length_eq
  have hhit := g.getDataLine_hit t adr (toWords c.newLine) e he hwl.ge
  rw [List.drop_eq_nil_of_le hwl.le, List.append_nil] at hhit
  simp only [lookupLine, hc, hhit, ok_bind]
  rw [overlay, Option.getD_some, List.length_take, List.drop_eq_nil_of_le (by omega),
    List.append_nil]
  rfl

theorem accessDataFromMemory_ok (trans : GenericPayload) (delay : Nat) (b : Bool) (r : Transport)
    (c' : RealCache σ) : c.accessDataFromMemory T call trans delay = .ok (b, r, c') ↔
      ∃ s memory, T.b_transport c.memory trans delay = .ok (s, memory) ∧
        b = !s.trans.isResponseError ∧
        r = ⟨s.trans, s.delay, s.reports ++ errorReport call s.trans⟩ ∧
        c' = { c with memory := memory } := by
  simp only [accessDataFromMemory, bind_eq_ok, Prod.exists]
  apply exists_congr
  intro s
  apply exists_congr
  intro memory
  apply and_congr_right
  intro _
  cases he : s.trans.isResponseError with
  | true =>
    simp only [errorReport, he, if_true, pure, Except.pure, Except.ok.injEq, Prod.mk.injEq,
      Bool.not_true, eq_comm]
  | false =>
    simp only [errorReport, he, Bool.false_eq_true, if_false, pure, Except.pure, Except.ok.injEq,
      Prod.mk.injEq, Bool.not_false, List.append_nil, eq_comm]

/-- A fill installs what the target answered, and no other outcome is possible. -/
theorem fillLine_ok (hc : c.m_cacheStore = g.store t) (delay : Nat) (r : Transport)
    (c' : RealCache σ) :
    c.fillLine T call call.trans.address c.newLine delay = .ok (r, c') ↔
      ∃ s memory, T.b_transport c.memory (c.lineRequest call.trans.address c.newLine) delay =
          .ok (s, memory) ∧
        r = ⟨s.trans, s.delay, s.reports ++ errorReport call s.trans⟩ ∧
        c' = filled g t call s.trans memory := by
  have hset (d : RealCache σ) (hd : d.m_cacheStore = g.store t) (s : Transport) :=
    d.setDataLine_lineBuffer g t hd (d.m_cacheStore.getLineAddress call.trans.address)
      call.trans.address (by rw [hd, g.lineNumber_getLineAddress]) s.trans.data call.past
  simp only [fillLine, readLineFromMemory, bind_eq_ok, Prod.exists]
  constructor
  · intro h
    obtain ⟨r₁, c₁, ⟨b, r₂, c₂, ha, hr⟩, ⟨hit, store, hs, hp⟩⟩ := h
    obtain ⟨s, memory, ht, -, rfl, rfl⟩ := (accessDataFromMemory_ok T c call _ _ _ _ _).mp ha
    obtain ⟨rfl, rfl⟩ := ok_inj hr
    obtain ⟨rfl, rfl⟩ := ok_inj hp
    have hstore := (ok_unique hs (hset ⟨c.m_cacheStore, s.trans, memory⟩ hc s)).2
    exact ⟨s, memory, ht, rfl, by rw [hstore]; rfl⟩
  · intro h
    obtain ⟨s, memory, ht, rfl, rfl⟩ := h
    refine ⟨_, _, ⟨_, _, _, (accessDataFromMemory_ok T c call _ _ _ _ _).mpr
      ⟨s, memory, ht, rfl, rfl, rfl⟩, rfl⟩, _, _, hset ⟨c.m_cacheStore, s.trans, memory⟩ hc s, rfl⟩

end Equations

section Cases

variable (t : Nat → g.Block) (c c' : RealCache σ) (call : Call) (a : Answer)

theorem storeAt_zero_ok (data data' : List UInt8) (v : UInt8) :
    storeAt data 0 v = .ok data' ↔ ∃ b rest, data = b :: rest ∧ data' = v :: rest := by
  cases data with
  | nil => simp [storeAt]
  | cons b rest => simp [storeAt, eq_comm]

theorem elementAt_zero_ok (data : List UInt8) (b : UInt8) :
    elementAt data 0 = .ok b ↔ ∃ rest, data = b :: rest := by
  cases data with
  | nil => simp [elementAt]
  | cons x rest => simp [elementAt]

theorem elementAt_line (line : List UInt8) (adr : UInt64) (h : line.length = g.lineBytes) :
    elementAt line (g.byteOffset adr) = .ok (line.getD (g.byteOffset adr) 0) := by
  have hlt : g.byteOffset adr < line.length := by
    rw [h]
    exact g.byteOffset_lt adr
  rw [elementAt_get line _ hlt, List.getD_eq_getElem?_getD, List.getElem?_eq_getElem hlt,
    Option.getD_some]

theorem fill_length (hc : c.m_cacheStore = g.store t) (s s' : σ) (adr : UInt64) (delay : Nat)
    (r : Transport) (h : T.b_transport s (c.lineRequest adr c.newLine) delay = .ok (r, s')) :
    r.trans.data.length = g.lineBytes := by
  rw [T.data_length _ _ _ _ _ h]
  exact c.newLine_length g t hc

theorem readByte_hit_iff (hl : 4 ≤ g.lineBytes) (hc : c.m_cacheStore = g.store t)
    (hcommand : call.trans.command = .read) (line : List UInt8)
    (hline : g.cachedLine t call.trans.address = some line) :
    c.readByte T call = .ok (a, c') ↔ Outcome T g t c call a c' := by
  have hlen := g.cachedLine_length hl t _ line hline
  simp only [readByte, lookupLine_hit g t c hl hc _ line hline, ok_bind, if_true,
    c.byteIndex_eq g t hc, elementAt_line g line _ hlen, bind_eq_ok]
  constructor
  · intro h
    obtain ⟨data, hs, hr⟩ := h
    obtain ⟨b, rest, hdata, rfl⟩ := (storeAt_zero_ok _ _ _).mp hs
    obtain ⟨rfl, rfl⟩ := ok_inj hr
    exact .readHit line b rest hcommand hline hdata
  · intro h
    cases h with
    | readHit line' b rest _ hline' hdata =>
      have heq : line' = line := Option.some.inj (hline'.symm.trans hline)
      exact ⟨_, (storeAt_zero_ok _ _ _).mpr ⟨b, rest, hdata, rfl⟩, by rw [heq]; rfl⟩
    | readMiss r memory b rest _ hline' => simp [hline] at hline'
    | writeHit line b rest hw => simp [hcommand] at hw
    | writeError r memory hw => simp [hcommand] at hw
    | writeMiss r f written memory hw => simp [hcommand] at hw
    | ignored hi => simp [hcommand] at hi

theorem readByte_miss_iff (hc : c.m_cacheStore = g.store t)
    (hcommand : call.trans.command = .read) (hline : g.cachedLine t call.trans.address = none) :
    c.readByte T call = .ok (a, c') ↔ Outcome T g t c call a c' := by
  have hbyte (s : Transport) (memory : σ) (hlen : s.trans.data.length = g.lineBytes) :
      elementAt s.trans.data ((filled g t call s.trans memory).byteIndex call.trans.address) =
        .ok (s.trans.data.getD (g.byteOffset call.trans.address) 0) := by
    rw [byteIndex_eq g _ (filled g t call s.trans memory) rfl]
    exact elementAt_line g _ _ hlen
  simp only [readByte, lookupLine_miss g t c hc _ hline, ok_bind, Bool.false_eq_true,
    if_false, bind_eq_ok, Prod.exists]
  constructor
  · intro h
    obtain ⟨r, c₁, hf, byte, hb, data, hs, hr⟩ := h
    obtain ⟨s, memory, ht, rfl, rfl⟩ := (fillLine_ok T g t c call hc _ _ _).mp hf
    obtain ⟨b, rest, hdata, rfl⟩ := (storeAt_zero_ok _ _ _).mp hs
    rw [hbyte s memory (fill_length T g t c hc _ _ _ _ s ht)] at hb
    obtain ⟨rfl, rfl⟩ := ok_inj hr
    rw [← Except.ok.inj hb]
    exact .readMiss s memory b rest hcommand hline ht hdata
  · intro h
    cases h with
    | readHit line b rest _ hline' => simp [hline] at hline'
    | readMiss r memory b rest _ _ hfill hdata =>
      exact ⟨_, _, (fillLine_ok T g t c call hc _ _ _).mpr ⟨r, memory, hfill, rfl, rfl⟩, _,
        hbyte r memory (fill_length T g t c hc _ _ _ _ r hfill),
        _, (storeAt_zero_ok _ _ _).mpr ⟨b, rest, hdata, rfl⟩, rfl⟩
    | writeHit line b rest hw => simp [hcommand] at hw
    | writeError r memory hw => simp [hcommand] at hw
    | writeMiss r f written memory hw => simp [hcommand] at hw
    | ignored hi => simp [hcommand] at hi

theorem writeByte_hit_iff (hl : 4 ≤ g.lineBytes) (hc : c.m_cacheStore = g.store t)
    (hcommand : call.trans.command = .write) (line : List UInt8)
    (hline : g.cachedLine t call.trans.address = some line) :
    c.writeByte T call = .ok (a, c') ↔ Outcome T g t c call a c' := by
  have hlt : g.byteOffset call.trans.address < line.length := by
    rw [g.cachedLine_length hl t _ line hline]
    exact g.byteOffset_lt _
  have hset (b : UInt8) := c.setDataLine_lineBuffer g t hc call.trans.address call.trans.address
    rfl (line.set (g.byteOffset call.trans.address) b) call.past
  simp only [writeByte, lookupLine_hit g t c hl hc _ line hline, ok_bind, if_true,
    c.byteIndex_eq g t hc, storeAt, if_pos hlt, bind_eq_ok, Prod.exists]
  constructor
  · intro h
    obtain ⟨b, hb, hit, store, hs, hr⟩ := h
    obtain ⟨rest, hdata⟩ := (elementAt_zero_ok _ _).mp hb
    obtain ⟨rfl, rfl⟩ := ok_inj hr
    rw [(ok_unique hs (hset b)).2]
    exact .writeHit line b rest hcommand hline hdata
  · intro h
    cases h with
    | readHit line b rest hr => simp [hcommand] at hr
    | readMiss r memory b rest hr => simp [hcommand] at hr
    | writeHit line' b rest _ hline' hdata =>
      have heq : line' = line := Option.some.inj (hline'.symm.trans hline)
      exact ⟨b, (elementAt_zero_ok _ _).mpr ⟨rest, hdata⟩, _, _, hset b, by rw [heq]; rfl⟩
    | writeError r memory _ hline' => simp [hline] at hline'
    | writeMiss r f written memory _ hline' => simp [hline] at hline'
    | ignored hi => simp [hcommand] at hi

theorem writeByte_miss_iff (hc : c.m_cacheStore = g.store t)
    (hcommand : call.trans.command = .write) (hline : g.cachedLine t call.trans.address = none) :
    c.writeByte T call = .ok (a, c') ↔ Outcome T g t c call a c' := by
  simp only [writeByte, lookupLine_miss g t c hc _ hline, ok_bind, Bool.false_eq_true,
    if_false, bind_eq_ok, Prod.exists]
  constructor
  · intro h
    obtain ⟨b, r, c₁, ha, hr⟩ := h
    obtain ⟨s, memory, ht, _, rfl, rfl⟩ := (accessDataFromMemory_ok T c call _ _ _ _ _).mp ha
    cases he : s.trans.isResponseError with
    | true =>
      simp only [he, if_true] at hr
      obtain ⟨rfl, rfl⟩ := ok_inj hr
      exact .writeError s memory hcommand hline ht he
    | false =>
      simp only [he, Bool.false_eq_true, if_false, bind_eq_ok, Prod.exists] at hr
      obtain ⟨f, c₂, hf, hr⟩ := hr
      obtain ⟨u, memory', hu, rfl, rfl⟩ :=
        (fillLine_ok T g t { c with memory := memory } call hc _ _ _).mp hf
      obtain ⟨rfl, rfl⟩ := ok_inj hr
      simp only [errorReport, he, Bool.false_eq_true, if_false, List.append_nil]
      exact .writeMiss s u memory memory' hcommand hline ht he hu
  · intro h
    cases h with
    | readHit line b rest hr => simp [hcommand] at hr
    | readMiss r memory b rest hr => simp [hcommand] at hr
    | writeHit line b rest _ hline' => simp [hline] at hline'
    | writeError r memory _ _ hwrite herror =>
      refine ⟨_, _, _, (accessDataFromMemory_ok T c call _ _ _ _ _).mpr
        ⟨r, memory, hwrite, rfl, rfl, rfl⟩, ?_⟩
      simp only [herror, if_true]
      rfl
    | writeMiss r f written memory _ _ hwrite hok hfill =>
      refine ⟨_, _, _, (accessDataFromMemory_ok T c call _ _ _ _ _).mpr
        ⟨r, written, hwrite, rfl, rfl, rfl⟩, ?_⟩
      simp only [hok, Bool.false_eq_true, if_false, bind_eq_ok, Prod.exists]
      refine ⟨_, _, (fillLine_ok T g t { c with memory := written } call hc _ _ _).mpr
        ⟨f, memory, hfill, rfl, rfl⟩, ?_⟩
      simp only [errorReport, hok, Bool.false_eq_true, if_false, List.append_nil]
      rfl
    | ignored hi => simp [hcommand] at hi

/-- A call is answered exactly along one of the outcomes. -/
theorem b_transport_iff (hl : 4 ≤ g.lineBytes) (hc : c.m_cacheStore = g.store t) :
    c.b_transport T call = .ok (a, c') ↔ call.trans.dataLength = 4 ∧ Outcome T g t c call a c' := by
  by_cases hlen : call.trans.dataLength = 4
  · rw [b_transport, if_neg (not_not.mpr hlen)]
    simp only [hlen, true_and]
    cases hcommand : call.trans.command with
    | read =>
      cases hline : g.cachedLine t call.trans.address with
      | some line => exact readByte_hit_iff T g t c c' call a hl hc hcommand line hline
      | none => exact readByte_miss_iff T g t c c' call a hc hcommand hline
    | write =>
      cases hline : g.cachedLine t call.trans.address with
      | some line => exact writeByte_hit_iff T g t c c' call a hl hc hcommand line hline
      | none => exact writeByte_miss_iff T g t c c' call a hc hcommand hline
    | ignore =>
      constructor
      · intro h
        obtain ⟨rfl, rfl⟩ := ok_inj h
        exact .ignored hcommand
      · intro h
        cases h with
        | readHit line b rest hr => simp [hcommand] at hr
        | readMiss r memory b rest hr => simp [hcommand] at hr
        | writeHit line b rest hw => simp [hcommand] at hw
        | writeError r memory hw => simp [hcommand] at hw
        | writeMiss r f written memory hw => simp [hcommand] at hw
        | ignored _ => rfl
  · simp [b_transport, hlen]

end Cases

end RealCache

end FreeSampler
