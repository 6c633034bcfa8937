import FreeSampler.Framework.SlotTable

namespace FreeSampler.Framework.SlotTable

variable {κ : Type} [DecidableEq κ] (cap : Nat)

/-- The keys of a table into which a list of keys was written, one after the other. -/
def keysAfter (ks : List κ) : List κ := ks.foldl (putKeys cap) []

/-- The keys that no later write drops: the first `cap` distinct ones, but for the very first. -/
def pinned (ks : List κ) : List κ := (ks.eraseDups.take cap).tail

/-- The key of slot 0: the one written last of those that are not pinned. -/
def recycled (ks : List κ) : Option κ := (ks.filter (fun k => decide (k ∉ pinned cap ks))).getLast?

/-- A key is held when it is pinned or was the last to take slot 0. -/
def Held (ks : List κ) (k : κ) : Prop := k ∈ pinned cap ks ∨ recycled cap ks = some k

instance (ks : List κ) (k : κ) : Decidable (Held cap ks k) := inferInstanceAs (Decidable (_ ∨ _))

theorem keysAfter_concat (ks : List κ) (k : κ) :
    keysAfter cap (ks ++ [k]) = putKeys cap (keysAfter cap ks) k := by
  simp [keysAfter]

theorem eraseDups_concat (ks : List κ) (k : κ) :
    (ks ++ [k]).eraseDups = if k ∈ ks then ks.eraseDups else ks.eraseDups ++ [k] := by
  rw [List.eraseDups_append]
  split_ifs with hk
  · simp [List.removeAll, hk]
  · simp [List.removeAll, hk, List.eraseDups_cons]

theorem eraseDups_length_le (ks : List κ) (k : κ) :
    ks.eraseDups.length ≤ (ks ++ [k]).eraseDups.length := by
  rw [eraseDups_concat]
  split_ifs <;> simp

/-- While they fit, a table holds the distinct keys in the order in which they came. -/
theorem keysAfter_room (ks : List κ) (h : ks.eraseDups.length ≤ cap) :
    keysAfter cap ks = ks.eraseDups := by
  induction ks using List.reverseRecOn with
  | nil => rfl
  | append_singleton ks k ih =>
    have hks := ih ((eraseDups_length_le ks k).trans h)
    rw [keysAfter_concat, hks, putKeys, eraseDups_concat]
    rw [eraseDups_concat] at h
    by_cases hk : k ∈ ks
    · rw [if_pos hk, if_pos (List.mem_eraseDups.mpr hk)]
    · rw [if_neg hk] at h
      have hlt : ks.eraseDups.length < cap := by
        rw [List.length_append, List.length_singleton] at h
        omega
      rw [if_neg hk, if_neg (fun hm => hk (List.mem_eraseDups.mp hm)), if_pos hlt]

theorem first_not_pinned (first : κ) (ks : List κ) : first ∉ pinned cap (first :: ks) := by
  rw [pinned, List.eraseDups_cons]
  intro hm
  have hrest : first ∈ (ks.filter (fun b => !b == first)).eraseDups := by
    cases cap with
    | zero => simp at hm
    | succ n => exact List.mem_of_mem_take hm
  rw [List.mem_eraseDups, List.mem_filter] at hrest
  simp at hrest

theorem recycled_isSome (ks : List κ) (h : ks ≠ []) : ∃ k, recycled cap ks = some k := by
  obtain ⟨first, rest, rfl⟩ := List.exists_cons_of_ne_nil h
  rw [recycled, List.filter_cons_of_pos (by simpa using first_not_pinned cap first rest)]
  exact ⟨_, List.getLast?_cons⟩

/-- Then all but the first are pinned, and the first one has slot 0. -/
theorem recycled_room (ks : List κ) (h : ks.eraseDups.length ≤ cap) :
    (recycled cap ks).toList ++ pinned cap ks = ks.eraseDups := by
  cases ks with
  | nil => simp [recycled, pinned]
  | cons first ks =>
    have hpinned : pinned cap (first :: ks) = (ks.filter (fun b => !b == first)).eraseDups := by
      rw [pinned, List.take_of_length_le h, List.eraseDups_cons, List.tail_cons]
    have hmem (k : κ) : k ∈ pinned cap (first :: ks) ↔ k ∈ ks ∧ k ≠ first := by
      rw [hpinned, List.mem_eraseDups, List.mem_filter]
      simp
    have hfilter : ks.filter (fun k => decide (k ∉ pinned cap (first :: ks))) =
        List.replicate (ks.count first) first := by
      rw [← List.filter_eq]
      apply List.filter_congr
      intro k hk
      apply decide_eq_decide.mpr
      rw [hmem, not_and, not_not]
      exact ⟨fun hall => (hall hk), fun heq _ => heq⟩
    have hlast : recycled cap (first :: ks) = some first := by
      rw [recycled, List.filter_cons_of_pos (by simpa using first_not_pinned cap first ks), hfilter,
        ← List.replicate_succ, List.getLast?_replicate, if_neg (by simp)]
    rw [hlast, hpinned, List.eraseDups_cons]
    rfl

theorem pinned_concat_full (ks : List κ) (k : κ) (h : cap ≤ ks.eraseDups.length) :
    pinned cap (ks ++ [k]) = pinned cap ks := by
  rw [pinned, pinned, eraseDups_concat]
  split_ifs
  · rfl
  · rw [List.take_append_of_le_length h]

theorem recycled_concat_full (ks : List κ) (k : κ) (h : cap ≤ ks.eraseDups.length) :
    recycled cap (ks ++ [k]) = if k ∈ pinned cap ks then recycled cap ks else some k := by
  rw [recycled, pinned_concat_full cap ks k h, List.filter_append]
  split_ifs with hk
  · rw [List.filter_cons_of_neg (by simpa using hk), List.filter_nil, List.append_nil, recycled]
  · rw [List.filter_cons_of_pos (by simpa using hk), List.filter_nil, List.getLast?_concat]

/-- In a full table a key that is not held takes slot 0 from the key that was there. -/
theorem keysAfter_full (hc : 0 < cap) (ks : List κ) (h : cap ≤ ks.eraseDups.length) :
    keysAfter cap ks = (recycled cap ks).toList ++ pinned cap ks := by
  induction ks using List.reverseRecOn with
  | nil =>
    have hnil : ([] : List κ).eraseDups.length = 0 := rfl
    omega
  | append_singleton ks k ih =>
    rcases Nat.lt_or_ge ks.eraseDups.length cap with hlt | hfull
    · have hroom : (ks ++ [k]).eraseDups.length ≤ cap := by
        rw [eraseDups_concat]
        split_ifs
        · omega
        · rw [List.length_append, List.length_singleton]
          omega
      rw [keysAfter_room cap _ hroom, recycled_room cap _ hroom]
    · have hks := ih hfull
      have hlen : (pinned cap ks).length = cap - 1 := by
        rw [pinned, List.length_tail, List.length_take, Nat.min_eq_left hfull]
      have hne : ks ≠ [] := by
        rintro rfl
        have hnil : ([] : List κ).eraseDups.length = 0 := rfl
        omega
      obtain ⟨old, hold⟩ := recycled_isSome cap ks hne
      rw [keysAfter_concat, hks, recycled_concat_full cap ks k hfull,
        pinned_concat_full cap ks k hfull, hold, putKeys]
      by_cases hk : k ∈ pinned cap ks
      · rw [if_pos (by simp [hk]), if_pos hk]
      · rw [if_neg hk]
        by_cases heq : k = old
        · rw [if_pos (by simp [heq]), heq]
        · rw [if_neg (by simp [heq, hk]), if_neg (by simp [hlen]; omega)]
          rfl

/-- What a table holds of the keys written into it, in the order of its slots. -/
theorem keysAfter_eq (hc : 0 < cap) (ks : List κ) :
    keysAfter cap ks = (recycled cap ks).toList ++ pinned cap ks := by
  rcases Nat.le_total ks.eraseDups.length cap with hroom | hfull
  · rw [keysAfter_room cap ks hroom, recycled_room cap ks hroom]
  · exact keysAfter_full cap hc ks hfull

theorem mem_keysAfter (hc : 0 < cap) (ks : List κ) (k : κ) :
    k ∈ keysAfter cap ks ↔ Held cap ks k := by
  rw [keysAfter_eq cap hc, List.mem_append, Option.mem_toList, Held, or_comm]

/-- Once pinned, a key is pinned for good. -/
theorem pinned_append (ks ks' : List κ) (k : κ) (h : k ∈ pinned cap ks) :
    k ∈ pinned cap (ks ++ ks') := by
  have hstart : ks.eraseDups <+: (ks ++ ks').eraseDups := by
    rw [List.eraseDups_append]
    exact List.prefix_append _ _
  exact (hstart.take cap).sublist.tail.subset h

theorem mem_of_held (ks : List κ) (k : κ) (h : Held cap ks k) : k ∈ ks := by
  rcases h with hp | hr
  · exact List.mem_eraseDups.mp (List.mem_of_mem_take (List.mem_of_mem_tail hp))
  · exact (List.mem_filter.mp (List.mem_of_getLast? hr)).1

/-- The slot of a key whenever it is held: the pinned keys have the slots behind slot 0, in the
order in which they came, and all others share slot 0. -/
def slot (ks : List κ) (k : κ) : Nat :=
  if k ∈ pinned cap ks then (pinned cap ks).idxOf k + 1 else 0

theorem keysAfter_slot (hc : 0 < cap) (ks : List κ) (k : κ) (h : Held cap ks k) :
    (keysAfter cap ks)[slot cap ks k]? = some k := by
  have hne : ks ≠ [] := by
    rintro rfl
    simp [Held, pinned, recycled] at h
  obtain ⟨old, hold⟩ := recycled_isSome cap ks hne
  rw [keysAfter_eq cap hc, hold, Option.toList_some, slot]
  by_cases hk : k ∈ pinned cap ks
  · have hlt := List.idxOf_lt_length_of_mem hk
    rw [if_pos hk, List.singleton_append, List.getElem?_cons_succ, List.getElem?_eq_getElem hlt,
      List.getElem_idxOf hlt]
  · have heq : old = k := by
      rw [h.resolve_left hk] at hold
      exact (Option.some.inj hold).symm
    rw [if_neg hk, heq]
    rfl

/-- A key that came without being pinned is never pinned. -/
theorem pinned_of_append (ks ks' : List κ) (k : κ) (hk : k ∈ ks) (h : k ∈ pinned cap (ks ++ ks')) :
    k ∈ pinned cap ks := by
  obtain ⟨first, rest, rfl⟩ := List.exists_cons_of_ne_nil (List.ne_nil_of_mem hk)
  rcases Nat.lt_or_ge (first :: rest).eraseDups.length cap with hroom | hfull
  · have hne : k ≠ first := by
      rintro rfl
      exact first_not_pinned cap k (rest ++ ks') h
    rw [pinned, List.take_of_length_le hroom.le, List.eraseDups_cons, List.tail_cons,
      List.mem_eraseDups, List.mem_filter]
    rcases List.mem_cons.mp hk with heq | hmem
    · exact absurd heq hne
    · exact ⟨hmem, by simpa using hne⟩
  · induction ks' using List.reverseRecOn with
    | nil => rwa [List.append_nil] at h
    | append_singleton ks' x ih =>
      have hmono : (first :: rest).eraseDups.length ≤ (first :: rest ++ ks').eraseDups.length := by
        rw [List.eraseDups_append, List.length_append]
        omega
      rw [← List.append_assoc, pinned_concat_full cap _ x (hfull.trans hmono)] at h
      exact ih h

/-- A key keeps its slot, through the times at which it is not held. -/
theorem slot_append (ks ks' : List κ) (k : κ) (hk : k ∈ ks) :
    slot cap (ks ++ ks') k = slot cap ks k := by
  have hstart : ks.eraseDups <+: (ks ++ ks').eraseDups := by
    rw [List.eraseDups_append]
    exact List.prefix_append _ _
  have hshown : pinned cap ks <+: pinned cap (ks ++ ks') := by
    rw [pinned, pinned, ← List.drop_one, ← List.drop_one]
    exact (hstart.take cap).drop 1
  rw [slot, slot]
  by_cases hp : k ∈ pinned cap ks
  · obtain ⟨more, hmore⟩ := hshown
    rw [if_pos hp, if_pos (pinned_append cap ks ks' k hp), ← hmore, List.idxOf_append_of_mem hp]
  · rw [if_neg hp, if_neg (fun hn => hp (pinned_of_append cap ks ks' k hk hn))]

/-- Under two keys that tell the same elements apart, a table keeps the same elements. -/
theorem keysAfter_map {α β γ : Type} [DecidableEq β] [DecidableEq γ] (as : List α) (f : α → β)
    (h : α → γ) (heq : ∀ a ∈ as, ∀ b ∈ as, f a = f b ↔ h a = h b) :
    ∃ rest : List α, (∀ a ∈ rest, a ∈ as) ∧ keysAfter cap (as.map f) = rest.map f ∧
      keysAfter cap (as.map h) = rest.map h := by
  induction as using List.reverseRecOn with
  | nil => exact ⟨[], by simp, rfl, rfl⟩
  | append_singleton as a ih =>
    obtain ⟨rest, hsub, hf, hh⟩ := ih (fun b hb c hc => heq b (by simp [hb]) c (by simp [hc]))
    have hmem : f a ∈ rest.map f ↔ h a ∈ rest.map h := by
      rw [List.mem_map, List.mem_map]
      apply exists_congr
      intro b
      exact and_congr_right (fun hb => heq b (by simp [hsub b hb]) a (by simp))
    rw [List.map_append, List.map_append, List.map_singleton, List.map_singleton, keysAfter_concat,
      keysAfter_concat, hf, hh, putKeys, putKeys, List.length_map, List.length_map]
    by_cases hm : f a ∈ rest.map f
    · rw [if_pos hm, if_pos (hmem.mp hm)]
      exact ⟨rest, fun b hb => by simp [hsub b hb], rfl, rfl⟩
    · rw [if_neg hm, if_neg (fun hn => hm (hmem.mpr hn))]
      split_ifs with hroom
      · refine ⟨rest ++ [a], ?_, by simp, by simp⟩
        intro b hb
        rcases List.mem_append.mp hb with hold | hnew
        · simp [hsub b hold]
        · simp [List.mem_singleton.mp hnew]
      · refine ⟨rest.set 0 a, ?_, by rw [List.map_set], by rw [List.map_set]⟩
        intro b hb
        rcases List.mem_or_eq_of_mem_set hb with hold | rfl
        · simp [hsub b hold]
        · simp

theorem held_map {α β γ : Type} [DecidableEq β] [DecidableEq γ] (hc : 0 < cap) (as : List α)
    (a : α) (f : α → β) (h : α → γ) (heq : ∀ b ∈ a :: as, ∀ c ∈ a :: as, f b = f c ↔ h b = h c) :
    Held cap (as.map f) (f a) ↔ Held cap (as.map h) (h a) := by
  obtain ⟨rest, hsub, hf, hh⟩ := keysAfter_map cap as f h
    (fun b hb c hc => heq b (by simp [hb]) c (by simp [hc]))
  rw [← mem_keysAfter cap hc, ← mem_keysAfter cap hc, hf, hh, List.mem_map, List.mem_map]
  apply exists_congr
  intro b
  exact and_congr_right (fun hb => heq b (by simp [hsub b hb]) a (by simp))

end FreeSampler.Framework.SlotTable
