import FreeSampler.Framework.Run
import Mathlib.Logic.Function.Basic

namespace FreeSampler.Framework

variable {κ β ι ο ε : Type} [DecidableEq κ] (key : ι → κ) (step : β → ι → Except ε (ο × β))

/-- A family of components of which each input steps the one that its key names. -/
def keyed (s : κ → β) (i : ι) : Except ε (ο × (κ → β)) := do
  let (o, b) ← step (s (key i)) i
  return (o, Function.update s (key i) b)

theorem keyed_ok (s s' : κ → β) (i : ι) (o : ο) : keyed key step s i = .ok (o, s') ↔
    ∃ b, step (s (key i)) i = .ok (o, b) ∧ s' = Function.update s (key i) b := by
  simp only [keyed, bind_eq_ok, Prod.exists]
  constructor
  · intro h
    obtain ⟨o', b, hs, hr⟩ := h
    obtain ⟨rfl, rfl⟩ := ok_inj hr
    exact ⟨b, hs, rfl⟩
  · intro h
    obtain ⟨b, hs, rfl⟩ := h
    exact ⟨o, b, hs, rfl⟩

/-- The inputs of one component. -/
def atKey (k : κ) (is : List ι) : List ι := is.filter (fun i => decide (key i = k))

/-- The inputs of one component, with what they were answered. -/
def answersAtKey (k : κ) (h : List (ι × ο)) : List (ι × ο) :=
  h.filter (fun x => decide (key x.1 = k))

/-- What a run of the family is for one component: a run of that component alone. -/
theorem run_atKey (s t : κ → β) (is : List ι) (os : List ο) (k : κ)
    (h : run (keyed key step) s is = .ok (os, t)) :
    ∃ own, run step (s k) (atKey key k is) = .ok (own, t k) ∧
      answersAtKey key k (is.zip os) = (atKey key k is).zip own := by
  induction is generalizing s os with
  | nil =>
    obtain ⟨rfl, rfl⟩ := ok_inj h
    exact ⟨[], rfl, rfl⟩
  | cons i is ih =>
    obtain ⟨o, u, os', hs, hr, rfl⟩ := (run_cons_ok _ s t i is os).mp h
    obtain ⟨b, hb, rfl⟩ := (keyed_ok key step s u i o).mp hs
    obtain ⟨own, hrun, hanswers⟩ := ih _ os' hr
    rw [answersAtKey] at hanswers
    rw [atKey] at hanswers hrun ⊢
    rw [answersAtKey, List.zip_cons_cons]
    by_cases hk : key i = k
    · subst hk
      rw [Function.update_self] at hrun
      refine ⟨o :: own, ?_, ?_⟩
      · rw [List.filter_cons_of_pos (by simp)]
        exact (run_cons_ok step _ _ i _ _).mpr ⟨o, b, own, hb, hrun, rfl⟩
      · rw [List.filter_cons_of_pos (by simp), List.filter_cons_of_pos (by simp), hanswers]
        rfl
    · rw [Function.update_of_ne (Ne.symm hk)] at hrun
      refine ⟨own, ?_, ?_⟩
      · rw [List.filter_cons_of_neg (by simpa using hk)]
        exact hrun
      · rw [List.filter_cons_of_neg (by simpa using hk), List.filter_cons_of_neg (by simpa using hk)]
        exact hanswers

/-- Two runs with the same inputs for one component answer them alike and leave it alike,
whatever the other components are doing. -/
theorem run_isolated (s s' t t' : κ → β) (is is' : List ι) (os os' : List ο) (k : κ)
    (hs : s k = s' k) (hi : atKey key k is = atKey key k is')
    (h : run (keyed key step) s is = .ok (os, t))
    (h' : run (keyed key step) s' is' = .ok (os', t')) :
    answersAtKey key k (is.zip os) = answersAtKey key k (is'.zip os') ∧ t k = t' k := by
  obtain ⟨own, hrun, hanswers⟩ := run_atKey key step s t is os k h
  obtain ⟨own', hrun', hanswers'⟩ := run_atKey key step s' t' is' os' k h'
  rw [hs, hi] at hrun
  obtain ⟨rfl, ht⟩ := ok_unique hrun hrun'
  exact ⟨by rw [hanswers, hanswers', hi], ht⟩

/-- Inputs of different components commute. -/
theorem keyed_comm (s : κ → β) (i j : ι) (hij : key i ≠ key j) (o p : ο) (b c : β)
    (hi : step (s (key i)) i = .ok (o, b)) (hj : step (s (key j)) j = .ok (p, c)) :
    ∃ t, run (keyed key step) s [i, j] = .ok ([o, p], t) ∧
      run (keyed key step) s [j, i] = .ok ([p, o], t) := by
  have hi' : keyed key step s i = .ok (o, Function.update s (key i) b) :=
    (keyed_ok key step s _ i o).mpr ⟨b, hi, rfl⟩
  have hj' : keyed key step s j = .ok (p, Function.update s (key j) c) :=
    (keyed_ok key step s _ j p).mpr ⟨c, hj, rfl⟩
  have hij' : keyed key step (Function.update s (key i) b) j =
      .ok (p, Function.update (Function.update s (key i) b) (key j) c) := by
    apply (keyed_ok key step _ _ j p).mpr
    rw [Function.update_of_ne (Ne.symm hij)]
    exact ⟨c, hj, rfl⟩
  have hji' : keyed key step (Function.update s (key j) c) i =
      .ok (o, Function.update (Function.update s (key i) b) (key j) c) := by
    apply (keyed_ok key step _ _ i o).mpr
    rw [Function.update_of_ne hij, Function.update_comm hij]
    exact ⟨b, hi, rfl⟩
  exact ⟨_, run_pair_ok _ s _ _ i j o p hi' hij', run_pair_ok _ s _ _ j i p o hj' hji'⟩

end FreeSampler.Framework
