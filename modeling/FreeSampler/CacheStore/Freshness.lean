import FreeSampler.CacheStore.Insertions
import FreeSampler.CacheStore.Eviction

namespace FreeSampler

open Framework

def StoreOp.accessAddress : StoreOp → Option UInt64
  | .setDataLine a _ => some a
  | .getDataLine a _ => some a
  | .invalidate _ => none

namespace CacheStore

def accesses (h : History) : List UInt64 := h.filterMap (fun x => x.1.accessAddress)

/-- The lines of the block of `b`, other than its own, among those of some addresses. -/
def otherLines (s : CacheStore) (b : UInt64) (as : List UInt64) : Finset UInt64 :=
  (s.linesIn (s.getCacheBlockIndex b) as).erase (s.getLineAddress b)

/-- Every get of the line of `b` hits. -/
def LineHits (s : CacheStore) (b : UInt64) : Prop :=
  ∀ a toBuffer, s.getLineAddress a = s.getLineAddress b →
    (s.p_LineSize / 4).toNat ≤ toBuffer.length →
      ∃ out, s.getDataLine a (some toBuffer) = .ok (true, out)

/-- An inserted line hits until as many other lines of its block as it has ways have been set
or got. -/
def FreshStays (h : History) (s : CacheStore) : Prop :=
  ∀ b after, InsertedBefore h b after →
    (s.otherLines b (accesses after)).card < s.p_NumWays.toNat → s.LineHits b

/-- A set that misses in a block which has missed more often than it has ways comes late: since
the latest of those misses, as many other lines of the block as it has ways have been set or got,
the line now set among them. -/
def MissesLate (h : History) (s : CacheStore) : StoreOp → Prop
  | .setDataLine a _ => ¬ s.IsResident a →
      s.p_NumWays.toNat < (h.filterMap (s.insertedIn (s.getCacheBlockIndex a))).length →
      ∀ b after, InsertedBefore h b after → s.getCacheBlockIndex b = s.getCacheBlockIndex a →
        (∀ x ∈ after, s.insertedIn (s.getCacheBlockIndex a) x = none) →
        s.p_NumWays.toNat ≤ (s.otherLines b (accesses after ++ [a])).card
  | _ => True

theorem accessAddress_of_inserted (x : StoreOp × StoreResult) (b : UInt64)
    (h : inserted x = some b) : x.1.accessAddress = some b := by
  obtain ⟨op, r⟩ := x
  cases op with
  | setDataLine a buf =>
    cases r with
    | set hit =>
      cases hit with
      | true => simp [inserted] at h
      | false => exact h
    | get hit out => simp [inserted] at h
    | invalidated => simp [inserted] at h
  | getDataLine a buf => simp [inserted] at h
  | invalidate a => simp [inserted] at h

end CacheStore

namespace Geometry

open CacheStore

variable (g : Geometry)

theorem lineHits_store (t : Nat → g.Block) (b : UInt64) :
    (g.store t).LineHits b ↔ g.resident t b ≠ none := by
  constructor
  · intro h hr
    obtain ⟨out, hout⟩ := h b (List.replicate ((g.store t).p_LineSize / 4).toNat 0) rfl (by simp)
    rw [g.getDataLine_miss t b _ hr] at hout
    simp at hout
  · intro h a toBuffer hline hfit
    rw [← g.resident_congr t a b ((g.getLineAddress_eq_iff t a b).mp hline)] at h
    obtain ⟨e, he⟩ := Option.ne_none_iff_exists'.mp h
    exact ⟨_, g.getDataLine_hit t a toBuffer e he (by rw [← g.lineWords_toNat t]; exact hfit)⟩

def otherTags (b : UInt64) (as : List UInt64) : Finset Tag :=
  (g.tagsIn (g.block b) as).erase (g.tag b)

theorem otherLines_card (t : Nat → g.Block) (b : UInt64) (as : List UInt64) :
    ((g.store t).otherLines b as).card = (g.otherTags b as).card := by
  have hb := (g.getCacheBlockIndex_toNat t b).symm
  rw [otherLines, otherTags, Finset.card_erase_eq_ite, Finset.card_erase_eq_ite, g.linesIn_card, ← hb]
  simp only [g.mem_linesIn t b as _ hb, ← hb]

theorem mem_otherTags (b : UInt64) (as : List UInt64) (k : Tag) :
    k ∈ g.otherTags b as ↔ k ≠ g.tag b ∧ ∃ a ∈ as, g.block a = g.block b ∧ g.tag a = k := by
  rw [otherTags, Finset.mem_erase, mem_tagsIn]

theorem otherTags_mono (b c : UInt64) (as bs : List UInt64) (hblock : g.block b = g.block c)
    (htag : g.tag b = g.tag c) (hsub : ∀ a ∈ as, a ∈ bs) :
    (g.otherTags b as).card ≤ (g.otherTags c bs).card := by
  apply Finset.card_le_card
  intro k hk
  obtain ⟨hne, a, ha, hka⟩ := (g.mem_otherTags b as k).mp hk
  exact (g.mem_otherTags c bs k).mpr ⟨by rw [← htag]; exact hne, a, hsub a ha, by
    rw [← hblock]
    exact hka⟩

/-- A fresh line after a call was fresh before it, or the call inserted it. -/
theorem freshStays_concat (h : History) (t t' : Nat → g.Block) (x : StoreOp × StoreResult)
    (hp : FreshStays h (g.store t)) (hx : ∀ b, inserted x = some b → g.resident t' b ≠ none)
    (hold : ∀ b after, InsertedBefore h b after →
      (g.otherTags b (accesses (after ++ [x]))).card < g.ways → g.resident t b ≠ none →
        g.resident t' b ≠ none) : FreshStays (h ++ [x]) (g.store t') := by
  intro b after hins hlt
  rw [otherLines_card, store_numWays] at hlt
  rw [lineHits_store]
  rcases (insertedBefore_concat h x b after).mp hins with ⟨_, hb⟩ | ⟨rest, rfl, hrest⟩
  · exact hx b hb
  · apply hold b rest hrest hlt
    apply (g.lineHits_store t b).mp
    apply hp b rest hrest
    rw [otherLines_card, store_numWays]
    apply Nat.lt_of_le_of_lt _ hlt
    apply g.otherTags_mono b b _ _ rfl rfl
    intro a ha
    rw [accesses, filterMap_concat]
    exact List.mem_append_left _ ha

/-- A miss on `a` evicts no line that is still fresh after it. -/
def EvictsOld (h : History) (t : Nat → g.Block) (a : UInt64) : Prop :=
  ∀ b after, InsertedBefore h b after → (g.store t).Evicts a b →
    g.ways ≤ (g.otherTags b (accesses after ++ [a])).card

theorem freshStays_miss (h : History) (t : Nat → g.Block) (a : UInt64) (buf : List UInt32)
    (hp : FreshStays h (g.store t)) :
    FreshStays (h ++ [(.setDataLine a buf, .set false)]) (g.store (g.setLine t a buf)) ↔
      g.EvictsOld h t a := by
  have hnow (after : History) : accesses (after ++ [(.setDataLine a buf, .set false)]) =
      accesses after ++ [a] := filterMap_concat _ after _
  have hself (b : UInt64) (hline : g.lineNumber b = g.lineNumber a) :
      g.resident (g.setLine t a buf) b ≠ none := by
    rw [g.resident_setLine_self t a b buf hline]
    simp
  constructor
  · intro hstay b after hins hev
    by_contra hlt
    have hhit := hstay b _ ((insertedBefore_concat h _ b _).mpr (Or.inr ⟨after, rfl, hins⟩))
    rw [otherLines_card, store_numWays, hnow, lineHits_store] at hhit
    exact hhit (by omega) (g.resident_setLine_evicted t a b buf hev)
  · intro hev
    apply g.freshStays_concat h t _ _ hp
    · intro b hb
      rw [← Option.some.inj hb]
      exact hself a rfl
    · intro b after hins hlt hres
      rw [hnow] at hlt
      by_cases hline : g.lineNumber b = g.lineNumber a
      · exact hself b hline
      · rw [g.resident_setLine_kept t a b buf hline]
        · exact hres
        · intro hb
          have hle := hev b after hins hb
          omega

theorem evicts_iff_key (t : Nat → g.Block) (a b : UInt64) : (g.store t).Evicts a b ↔
    g.resident t a = none ∧ (t (g.block a)).keys.length = g.ways ∧ g.block b = g.block a ∧
      (t (g.block a)).keys[0]? = some (g.tag b) := by
  have hfit := (t (g.block a)).fits
  rw [evicts_store, SlotTable.position_iff_key, SlotTable.keys_length]
  apply and_congr_right
  intro _
  exact and_congr_left' (by omega)

theorem insertedTag_accessed (i : Nat) (h : History) (k : Tag)
    (hk : k ∈ h.filterMap (g.insertedTag i)) : ∃ a ∈ accesses h, g.block a = i ∧ g.tag a = k := by
  obtain ⟨x, hx, hkx⟩ := List.mem_filterMap.mp hk
  obtain ⟨a, ha, hblock, htag⟩ := (g.insertedTag_eq_some i x k).mp hkx
  exact ⟨a, List.mem_filterMap.mpr ⟨x, hx, accessAddress_of_inserted x a ha⟩, hblock, htag⟩

/-- The first eviction of a block drops its oldest line: all its other ways have been filled
since that line was inserted. -/
theorem firstEviction_old (h : History) (a b : UInt64) (after : History)
    (hins : InsertedBefore h b after) (hblock : g.block b = g.block a)
    (hnodup : (h.filterMap (g.insertedTag (g.block a))).Nodup)
    (hlen : (h.filterMap (g.insertedTag (g.block a))).length = g.ways)
    (hfirst : (h.filterMap (g.insertedTag (g.block a)))[0]? = some (g.tag b))
    (hnew : g.tag a ∉ h.filterMap (g.insertedTag (g.block a))) :
    g.ways ≤ (g.otherTags b (accesses after ++ [a])).card := by
  obtain ⟨before, x, rfl, hx⟩ := hins
  have hsplit : (before ++ x :: after).filterMap (g.insertedTag (g.block a)) =
      before.filterMap (g.insertedTag (g.block a)) ++
        g.tag b :: after.filterMap (g.insertedTag (g.block a)) := by
    rw [List.filterMap_append, List.filterMap_cons, g.insertedTag_of_inserted _ x b hx,
      if_pos hblock]
  rw [hsplit] at hnodup hlen hfirst hnew
  have hbefore : before.filterMap (g.insertedTag (g.block a)) = [] := by
    cases hb : before.filterMap (g.insertedTag (g.block a)) with
    | nil => rfl
    | cons k ks =>
      rw [hb] at hnodup hfirst
      have hk : k = g.tag b := by simpa using hfirst
      rw [hk] at hnodup
      simp at hnodup
  rw [hbefore, List.nil_append] at hnodup hlen hnew
  obtain ⟨hnot, hrest⟩ := List.nodup_cons.mp hnodup
  have hnewtag : g.tag a ∉ (after.filterMap (g.insertedTag (g.block a))).toFinset := by
    rw [List.mem_toFinset]
    exact fun hm => hnew (List.mem_cons_of_mem _ hm)
  have hcard : (insert (g.tag a) (after.filterMap (g.insertedTag (g.block a))).toFinset).card =
      g.ways := by
    rw [Finset.card_insert_of_notMem hnewtag, List.toFinset_card_of_nodup hrest]
    simpa using hlen
  rw [← hcard]
  apply Finset.card_le_card
  intro k hk
  rw [mem_otherTags, hblock]
  rcases Finset.mem_insert.mp hk with rfl | hk
  · refine ⟨?_, a, by simp, rfl, rfl⟩
    intro heq
    exact hnew (by simp [heq])
  · rw [List.mem_toFinset] at hk
    obtain ⟨c, hc, hcb, hct⟩ := g.insertedTag_accessed _ after k hk
    refine ⟨?_, c, List.mem_append_left _ hc, hcb, hct⟩
    rintro rfl
    exact hnot hk

/-- Nothing is inserted in the block after its latest insertion, so every earlier insertion is
followed by more. -/
theorem latest_suffix (h : History) (i : Nat) (b c : UInt64) (after last : History)
    (hb : InsertedBefore h b after) (hblock : g.block b = i) (hc : InsertedBefore h c last)
    (hlast : ∀ x ∈ last, g.insertedTag i x = none) : last <:+ after := by
  obtain ⟨before, x, hh, hx⟩ := hb
  obtain ⟨start, y, hh', hy⟩ := hc
  have hnot : x ∉ last := by
    intro hm
    have hnone := hlast x hm
    rw [g.insertedTag_of_inserted i x b hx, if_pos hblock] at hnone
    simp at hnone
  have hs : (x :: after) <:+ h := ⟨before, hh.symm⟩
  have hs' : last <:+ h := ⟨start ++ [y], by rw [hh']; simp⟩
  rcases List.suffix_or_suffix_of_suffix hs' hs with hl | hl
  · rcases List.suffix_cons_iff.mp hl with heq | hl
    · exact absurd (by rw [heq]; simp) hnot
    · exact hl
  · exact absurd (hl.subset (by simp)) hnot

/-- While a block has missed at most as often as it has ways, what a miss evicts is old. -/
theorem evictsOld_room (h : History) (t : Nat → g.Block) (a : UInt64)
    (hfilled : g.FilledInOrder h t) (hmiss : g.resident t a = none)
    (hroom : (h.filterMap (g.insertedTag (g.block a))).length ≤ g.ways) : g.EvictsOld h t a := by
  have hkeys := (hfilled (g.block a)).room hroom
  intro b after hins hev
  obtain ⟨_, hfull, hblock, hkey⟩ := (g.evicts_iff_key t a b).mp hev
  have hnew := ((t (g.block a)).lookup_eq_none _).mp hmiss
  have hnodup := (t (g.block a)).nodup
  rw [hkeys] at hfull hkey hnew
  exact g.firstEviction_old h a b after hins hblock (hkeys ▸ hnodup) hfull hkey hnew

/-- A block that has missed more often than it has ways evicts the line of its latest miss. -/
theorem evictsOld_recycled (h : History) (t : Nat → g.Block) (a : UInt64)
    (hfilled : g.FilledInOrder h t) (hmiss : g.resident t a = none)
    (hover : g.ways < (h.filterMap (g.insertedTag (g.block a))).length) :
    g.EvictsOld h t a ↔ ∀ b after, InsertedBefore h b after → g.block b = g.block a →
      (∀ x ∈ after, g.insertedTag (g.block a) x = none) →
        g.ways ≤ (g.otherTags b (accesses after ++ [a])).card := by
  obtain ⟨hfull, hzero⟩ := (hfilled (g.block a)).recycled hover
  constructor
  · intro hold b after hins hblock hlast
    obtain ⟨before, x, hh, hx⟩ := hins
    have hlatest : latest (g.insertedTag (g.block a)) h = some (g.tag b) := by
      refine (latest_eq_some _ h _).mpr ⟨before, x, after, hh, ?_, hlast⟩
      rw [g.insertedTag_of_inserted _ x b hx, if_pos hblock]
    exact hold b after ⟨before, x, hh, hx⟩
      ((g.evicts_iff_key t a b).mpr ⟨hmiss, hfull, hblock, hzero.trans hlatest⟩)
  · intro hlate b after hins hev
    obtain ⟨_, _, hblock, hkey⟩ := (g.evicts_iff_key t a b).mp hev
    obtain ⟨before, x, last, hh, hx, hlast⟩ := (latest_eq_some _ h _).mp (hzero.symm.trans hkey)
    obtain ⟨c, hc, hcb, hct⟩ := (g.insertedTag_eq_some _ x _).mp hx
    have hsuffix := g.latest_suffix h _ b c after last hins hblock ⟨before, x, hh, hc⟩ hlast
    apply (hlate c last ⟨before, x, hh, hc⟩ hcb hlast).trans
    -- the line may have been inserted before: what came since its latest insertion came since then
    apply g.otherTags_mono c b _ _ (hcb.trans hblock.symm) hct
    intro d hd
    rcases List.mem_append.mp hd with hd | hd
    · obtain ⟨y, hy, hyd⟩ := List.mem_filterMap.mp hd
      exact List.mem_append_left _ (List.mem_filterMap.mpr ⟨y, hsuffix.subset hy, hyd⟩)
    · exact List.mem_append_right _ hd

theorem evictsOld_iff (h : History) (t : Nat → g.Block) (a : UInt64) (buf : List UInt32)
    (hfilled : g.FilledInOrder h t) (hmiss : g.resident t a = none) :
    g.EvictsOld h t a ↔ MissesLate h (g.store t) (.setDataLine a buf) := by
  have hres : ¬ (g.store t).IsResident a := by
    rw [isResident_store, not_not]
    exact hmiss
  simp only [MissesLate, hres, not_false_eq_true, true_imp_iff, store_numWays, g.insertedIn_length,
    g.insertedIn_none, g.getCacheBlockIndex_inj, otherLines_card]
  rcases Nat.lt_or_ge g.ways (h.filterMap (g.insertedTag (g.block a))).length with hover | hroom
  · rw [g.evictsOld_recycled h t a hfilled hmiss hover]
    exact (imp_iff_right hover).symm
  · refine iff_of_true (g.evictsOld_room h t a hfilled hmiss hroom) ?_
    intro hover
    omega

/-- A set of a resident line evicts nothing. -/
theorem freshStays_hit (h : History) (t : Nat → g.Block) (a : UInt64) (buf : List UInt32)
    (hres : g.resident t a ≠ none) (hp : FreshStays h (g.store t)) :
    FreshStays (h ++ [(.setDataLine a buf, .set true)]) (g.store (g.setLine t a buf)) := by
  apply g.freshStays_concat h t _ _ hp
  · intro b hb
    simp [inserted] at hb
  · intro b _ _ _ hb
    by_cases hline : g.lineNumber b = g.lineNumber a
    · rw [g.resident_setLine_self t a b buf hline]
      simp
    · rw [g.resident_setLine_kept t a b buf hline]
      · exact hb
      · intro hev
        exact hres ((g.evicts_store t a b).mp hev).1

/-- One call keeps the fresh lines exactly when it does not miss too early. -/
theorem freshStays_step (h : History) (t : Nat → g.Block) (op : StoreOp) (r : StoreResult)
    (v : CacheStore) (hf : op.Fits g) (hfilled : g.FilledInOrder h t)
    (hp : FreshStays h (g.store t)) (hs : (g.store t).step op = .ok (r, v)) :
    FreshStays (h ++ [(op, r)]) v ↔ MissesLate h (g.store t) op := by
  cases op with
  | setDataLine a buf =>
    rw [CacheStore.step, g.setDataLine_eq t a buf hf, ok_bind] at hs
    obtain ⟨rfl, rfl⟩ := ok_inj hs
    cases hr : g.resident t a with
    | none => exact (g.freshStays_miss h t a buf hp).trans (g.evictsOld_iff h t a buf hfilled hr)
    | some e =>
      have hres : g.resident t a ≠ none := by simp [hr]
      refine iff_of_true (g.freshStays_hit h t a buf hres hp) ?_
      intro hmiss
      exact absurd ((g.isResident_store t a).mpr hres) hmiss
  | getDataLine a buf =>
    simp only [CacheStore.step, bind_eq_ok, Prod.exists] at hs
    obtain ⟨hit, out, _, hr⟩ := hs
    obtain ⟨rfl, rfl⟩ := ok_inj hr
    refine iff_of_true (g.freshStays_concat h t t _ hp ?_ fun _ _ _ _ hres => hres) trivial
    intro b hb
    simp [inserted] at hb
  | invalidate a =>
    rw [CacheStore.step, g.invalidate_eq, ok_bind] at hs
    obtain ⟨rfl, rfl⟩ := ok_inj hs
    refine iff_of_true (g.freshStays_concat h t _ _ hp ?_ ?_) trivial
    · intro b hb
      simp [inserted] at hb
    · intro b _ _ _ hres
      rw [resident_invalidateLine]
      split_ifs
      · simpa using hres
      · exact hres

/-- A run of sets and gets keeps its fresh lines in every state exactly when none of its calls
misses too early. -/
theorem freshStays_iff (ops : List StoreOp) (hf : ∀ op ∈ ops, op.Fits g) :
    ∃ s₀ rs s, CacheStore.construct g.memorySize g.cacheSize g.lineSize g.numWays = .ok s₀ ∧
      run CacheStore.step s₀ ops = .ok (rs, s) ∧
      (EveryState CacheStore.step s₀ FreshStays ops ↔ EveryInput CacheStore.step s₀ MissesLate ops) := by
  obtain ⟨rs, hr⟩ := g.run_tables g.emptyBlocks ops hf
  refine ⟨_, rs, _, g.construct_eq, hr, ?_⟩
  refine everyState_iff_everyInput CacheStore.step
    (fun h s => ∃ t, s = g.store t ∧ g.FilledInOrder h t) FreshStays MissesLate _ _ ops rs ?_ ?_
    ⟨_, rfl, g.filledInOrder_nil⟩ ?_ hr
  · intro op ho h u r v hu hs
    obtain ⟨t, rfl, hfilled⟩ := hu
    exact g.filledInOrder_step h t op r v (hf op ho) hfilled hs
  · intro op ho h u r v hu hp hs
    obtain ⟨t, rfl, hfilled⟩ := hu
    exact g.freshStays_step h t op r v (hf op ho) hfilled hp hs
  · intro b after hins
    obtain ⟨before, x, hh, _⟩ := hins
    simp at hh

/-- Block 0 overflows twice, with another line got between the two evictions. -/
theorem freshStays_iff_overflow :
    let ops : List StoreOp := [.setDataLine 0x0 [1, 2, 3, 4, 5, 6, 7, 8],
      .setDataLine 0x10000 [11, 12, 13, 14, 15, 16, 17, 18],
      .setDataLine 0x20000 [21, 22, 23, 24, 25, 26, 27, 28], .getDataLine 0x10000 [0, 0],
      .setDataLine 0x30000 [31, 32, 33, 34, 35, 36, 37, 38]]
    ∃ s₀ rs s, CacheStore.construct 1024 128 8 2 = .ok s₀ ∧
      run CacheStore.step s₀ ops = .ok (rs, s) ∧
      (EveryState CacheStore.step s₀ FreshStays ops ↔ EveryInput CacheStore.step s₀ MissesLate ops) :=
  topRealCache.freshStays_iff _ (by decide)

/-- Four lines set in a block of two ways: the fourth evicts the third, just inserted. -/
theorem fresh_line_evicted :
    let ops : List StoreOp := [.setDataLine 0x0 [1, 2, 3, 4, 5, 6, 7, 8],
      .setDataLine 0x10000 [11, 12, 13, 14, 15, 16, 17, 18],
      .setDataLine 0x20000 [21, 22, 23, 24, 25, 26, 27, 28],
      .setDataLine 0x30000 [31, 32, 33, 34, 35, 36, 37, 38]]
    ∃ s₀ rs s, CacheStore.construct 1024 128 8 2 = .ok s₀ ∧
      run CacheStore.step s₀ ops = .ok (rs, s) ∧
      s.getDataLine 0x20000 (some [0, 0]) = .ok (false, some [0, 0]) ∧ ¬ FreshStays (ops.zip rs) s := by
  intro ops
  obtain ⟨rs, hr⟩ := topRealCache.run_tables topRealCache.emptyBlocks ops (by decide)
  have hrs : (run CacheStore.step (topRealCache.store topRealCache.emptyBlocks) ops).map Prod.fst =
      .ok [.set false, .set false, .set false, .set false] := by decide +kernel
  rw [hr] at hrs
  have hresults : rs = [.set false, .set false, .set false, .set false] := Except.ok.inj hrs
  have hget : (topRealCache.store (ops.foldl topRealCache.next topRealCache.emptyBlocks)).getDataLine
      0x20000 (some [0, 0]) = .ok (false, some [0, 0]) := by decide +kernel
  refine ⟨_, rs, _, topRealCache.construct_eq, hr, hget, ?_⟩
  intro hstay
  rw [hresults] at hstay
  have hins : InsertedBefore (ops.zip [.set false, .set false, .set false, .set false]) 0x20000
      [(.setDataLine 0x30000 [31, 32, 33, 34, 35, 36, 37, 38], .set false)] :=
    ⟨(ops.take 2).zip [.set false, .set false], _, rfl, rfl⟩
  obtain ⟨out, hout⟩ := hstay 0x20000 _ hins (by decide +kernel) 0x20000 [0, 0] rfl (by decide)
  rw [hget] at hout
  simp at hout

end Geometry

end FreeSampler
