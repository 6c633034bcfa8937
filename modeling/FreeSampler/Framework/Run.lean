import FreeSampler.Framework.Memory
import Mathlib.Data.List.Induction

namespace FreeSampler.Framework

/-- Every element of a history stands in a relation with the history before it. -/
def EveryStep {α : Type} (Q : List α → α → Prop) (h : List α) : Prop :=
  ∀ before x after, h = before ++ x :: after → Q before x

theorem everyStep_nil {α : Type} (Q : List α → α → Prop) : EveryStep Q [] := by
  intro before x after h
  simp at h

theorem everyStep_concat {α : Type} (Q : List α → α → Prop) (h : List α) (x : α) :
    EveryStep Q (h ++ [x]) ↔ EveryStep Q h ∧ Q h x := by
  constructor
  · intro he
    refine ⟨?_, he h x [] rfl⟩
    intro before y after hb
    exact he before y (after ++ [x]) (by simp [hb])
  · intro he before y after hb
    cases after using List.reverseRecOn with
    | nil =>
      obtain ⟨rfl, hx⟩ := List.append_inj' hb rfl
      rw [← List.singleton_inj.mp hx]
      exact he.2
    | append_singleton after z =>
      rw [← List.cons_append, ← List.append_assoc] at hb
      exact he.1 before y after (List.append_inj' hb rfl).1

/-- The elements of a history, each with what is before it. -/
def withPast {α : Type} : List α → List α → List (List α × α)
  | _, [] => []
  | before, x :: after => (before, x) :: withPast (before ++ [x]) after

theorem withPast_append {α : Type} (before h after : List α) :
    withPast before (h ++ after) = withPast before h ++ withPast (before ++ h) after := by
  induction h generalizing before with
  | nil => simp [withPast]
  | cons x h ih =>
    rw [List.cons_append, withPast, withPast, ih, List.cons_append, List.append_assoc,
      List.singleton_append]

theorem withPast_concat {α : Type} (h : List α) (x : α) :
    withPast [] (h ++ [x]) = withPast [] h ++ [(h, x)] := by
  rw [withPast_append]
  rfl

theorem everyStep_iff_withPast {α : Type} (Q : List α → α → Prop) (h : List α) :
    EveryStep Q h ↔ ∀ e ∈ withPast [] h, Q e.1 e.2 := by
  induction h using List.reverseRecOn with
  | nil => exact iff_of_true (everyStep_nil Q) (by simp [withPast])
  | append_singleton h x ih =>
    rw [everyStep_concat, ih, withPast_concat, List.forall_mem_append, List.forall_mem_singleton]

section Run

variable {σ ι ο ε : Type} (step : σ → ι → Except ε (ο × σ))

/-- A whole run of a fallible step function: the outputs in order, and the last state. -/
def run : σ → List ι → Except ε (List ο × σ)
  | s, [] => .ok ([], s)
  | s, i :: is => do
    let (o, s') ← step s i
    let (os, t) ← run s' is
    return (o :: os, t)

theorem run_cons_ok (s t : σ) (i : ι) (is : List ι) (os : List ο) :
    run step s (i :: is) = .ok (os, t) ↔
      ∃ o s' os', step s i = .ok (o, s') ∧ run step s' is = .ok (os', t) ∧ os = o :: os' := by
  simp only [run, bind_eq_ok, Prod.exists]
  constructor
  · intro h
    obtain ⟨o, s', hs, os', t', hr, ht⟩ := h
    obtain ⟨rfl, rfl⟩ := ok_inj ht
    exact ⟨o, s', os', hs, hr, rfl⟩
  · intro h
    obtain ⟨o, s', os', hs, hr, rfl⟩ := h
    exact ⟨o, s', hs, os', t, hr, rfl⟩

/-- A run splits at every point of its input. -/
theorem run_append_ok (s t : σ) (is js : List ι) (os : List ο) :
    run step s (is ++ js) = .ok (os, t) ↔
      ∃ os₁ u os₂, run step s is = .ok (os₁, u) ∧ run step u js = .ok (os₂, t) ∧
        os = os₁ ++ os₂ := by
  induction is generalizing s os with
  | nil => simp [run]
  | cons i is ih =>
    rw [List.cons_append, run_cons_ok]
    constructor
    · intro h
      obtain ⟨o, s', os', hs, hr, rfl⟩ := h
      obtain ⟨os₁, u, os₂, h₁, h₂, rfl⟩ := (ih s' os').mp hr
      exact ⟨o :: os₁, u, os₂, (run_cons_ok step s u i is _).mpr ⟨o, s', os₁, hs, h₁, rfl⟩, h₂, rfl⟩
    · intro h
      obtain ⟨os₁, u, os₂, h₁, h₂, rfl⟩ := h
      obtain ⟨o, s', os', hs, hr, rfl⟩ := (run_cons_ok step s u i is _).mp h₁
      exact ⟨o, s', os' ++ os₂, hs, (ih s' _).mpr ⟨os', u, os₂, hr, h₂, rfl⟩, rfl⟩

theorem run_concat_ok (s u t : σ) (is : List ι) (i : ι) (os : List ο) (o : ο)
    (hr : run step s is = .ok (os, u)) (hs : step u i = .ok (o, t)) :
    run step s (is ++ [i]) = .ok (os ++ [o], t) :=
  (run_append_ok step s t is [i] _).mpr ⟨os, u, [o], hr, by simp [run, hs, pure, Except.pure], rfl⟩

theorem run_pair_ok (s u t : σ) (i j : ι) (o p : ο) (hi : step s i = .ok (o, u))
    (hj : step u j = .ok (p, t)) : run step s [i, j] = .ok ([o, p], t) :=
  run_concat_ok step s u t [i] j [o] p (run_concat_ok step s s u [] i [] o rfl hi) hj

theorem run_length (s t : σ) (is : List ι) (os : List ο) (h : run step s is = .ok (os, t)) :
    os.length = is.length := by
  induction is generalizing s os with
  | nil =>
    obtain ⟨rfl, _⟩ := ok_inj h
    rfl
  | cons i is ih =>
    obtain ⟨o, s', os', _, hr, rfl⟩ := (run_cons_ok step s t i is os).mp h
    simp [ih s' os' hr]

/-- What holds at the start and survives every step, with the inputs and outputs
seen so far, holds of every state a run reaches. -/
theorem run_invariant (P : List (ι × ο) → σ → Prop) (s t : σ) (h : List (ι × ο)) (is : List ι)
    (os : List ο)
    (hstep : ∀ i ∈ is, ∀ h s o s', P h s → step s i = .ok (o, s') → P (h ++ [(i, o)]) s')
    (h0 : P h s) (hr : run step s is = .ok (os, t)) : P (h ++ is.zip os) t := by
  induction is generalizing s h os with
  | nil =>
    obtain ⟨rfl, rfl⟩ := ok_inj hr
    simpa using h0
  | cons i is ih =>
    obtain ⟨o, s', os', hs, hr', rfl⟩ := (run_cons_ok step s t i is os).mp hr
    have hn := ih s' (h ++ [(i, o)]) os' (fun j hj => hstep j (by simp [hj]))
      (hstep i (by simp) h s o s' h0 hs) hr'
    simpa using hn

/-- The same rule, with what every single step owes to the history before it. -/
theorem run_everyStep (P : List (ι × ο) → σ → Prop) (Q : List (ι × ο) → ι × ο → Prop) (s t : σ)
    (is : List ι) (os : List ο)
    (hstep : ∀ i ∈ is, ∀ h s o s', P h s → step s i = .ok (o, s') →
      P (h ++ [(i, o)]) s' ∧ Q h (i, o))
    (h0 : P [] s) (hr : run step s is = .ok (os, t)) :
    P (is.zip os) t ∧ EveryStep Q (is.zip os) := by
  have hboth := run_invariant step (fun h s => P h s ∧ EveryStep Q h) s t [] is os ?_
    ⟨h0, everyStep_nil Q⟩ hr
  · simpa using hboth
  · intro i hi h s o s' hp hs
    obtain ⟨hn, hq⟩ := hstep i hi h s o s' hp.1 hs
    exact ⟨hn, (everyStep_concat Q h (i, o)).mpr ⟨hp.2, hq⟩⟩

/-- The same rule for a step function that answers every input from a state in the invariant. -/
theorem run_answered (P : List (ι × ο) → σ → Prop) (Q : List (ι × ο) → ι × ο → Prop) (s : σ)
    (is : List ι)
    (hstep : ∀ i ∈ is, ∀ h s, P h s → ∃ o s', step s i = .ok (o, s') ∧
      P (h ++ [(i, o)]) s' ∧ Q h (i, o))
    (h0 : P [] s) :
    ∃ os t, run step s is = .ok (os, t) ∧ P (is.zip os) t ∧ EveryStep Q (is.zip os) := by
  induction is using List.reverseRecOn with
  | nil => exact ⟨[], s, rfl, h0, everyStep_nil Q⟩
  | append_singleton is i ih =>
    obtain ⟨os, u, hr, hp, hq⟩ := ih (fun j hj => hstep j (by simp [hj]))
    obtain ⟨o, t, hs, hpt, hqt⟩ := hstep i (by simp) _ u hp
    have hzip : (is ++ [i]).zip (os ++ [o]) = is.zip os ++ [(i, o)] := by
      rw [List.zip_append (run_length step s u is os hr).symm]
      rfl
    refine ⟨os ++ [o], t, run_concat_ok step s u t is i os o hr hs, ?_, ?_⟩
    · rw [hzip]
      exact hpt
    · rw [hzip, everyStep_concat]
      exact ⟨hq, hqt⟩

/-- The rule for a system whose invariant rests on the inputs alone: what shows of the outputs is
what each input, with those before it, foretells. -/
theorem run_foretold {ω : Type} (P : List ι → σ → Prop) (view : ο → ω) (f : List ι → ι → ω) (s : σ)
    (is : List ι)
    (hstep : ∀ i ∈ is, ∀ before s, P before s → ∃ o s', step s i = .ok (o, s') ∧
      P (before ++ [i]) s' ∧ view o = f before i)
    (h0 : P [] s) :
    ∃ os t, run step s is = .ok (os, t) ∧ P is t ∧
      os.map view = (withPast [] is).map (fun e => f e.1 e.2) := by
  induction is using List.reverseRecOn with
  | nil => exact ⟨[], s, rfl, h0, rfl⟩
  | append_singleton is i ih =>
    obtain ⟨os, u, hr, hp, hview⟩ := ih (fun j hj => hstep j (by simp [hj]))
    obtain ⟨o, t, hs, hpt, ho⟩ := hstep i (by simp) is u hp
    refine ⟨os ++ [o], t, run_concat_ok step s u t is i os o hr hs, hpt, ?_⟩
    rw [withPast_concat, List.map_append, List.map_append, hview, List.map_singleton,
      List.map_singleton, ho]

/-- The rule for steps that report: a run is silent exactly when every input meets the condition on
which its step is, where the condition may rest on what the silent steps before have kept. -/
theorem run_silent {β : Type} (step : σ → ι → Except ε (List β × σ)) (J : σ → Prop)
    (P : List ι → σ → Prop) (E : List ι → ι → Prop) (s : σ) (is : List ι)
    (hstep : ∀ i ∈ is, ∀ before s, J s → ∃ reports s', step s i = .ok (reports, s') ∧ J s' ∧
      (P before s → (reports = [] ↔ E before i) ∧ (E before i → P (before ++ [i]) s')))
    (hj : J s) (h0 : P [] s) :
    ∃ reports t, run step s is = .ok (reports, t) ∧ J t ∧
      (reports.flatten = [] ↔ EveryStep E is) ∧ (EveryStep E is → P is t) := by
  induction is using List.reverseRecOn with
  | nil =>
    refine ⟨[], s, rfl, hj, ?_, fun _ => h0⟩
    exact iff_of_true rfl (everyStep_nil E)
  | append_singleton is i ih =>
    obtain ⟨reports, u, hr, hu, hsilent, hp⟩ := ih (fun j hj => hstep j (by simp [hj]))
    obtain ⟨last, t, hs, ht, hlast⟩ := hstep i (by simp) is u hu
    refine ⟨reports ++ [last], t, run_concat_ok step s u t is i reports last hr hs, ht, ?_, ?_⟩
    · rw [List.flatten_concat, List.append_eq_nil_iff, hsilent, everyStep_concat]
      exact and_congr_right (fun hall => (hlast (hp hall)).1)
    · intro hall
      rw [everyStep_concat] at hall
      exact (hlast (hp hall.1)).2 hall.2

/-- A property of the states that a run goes through, each with the history before it. -/
def EveryState (s : σ) (P : List (ι × ο) → σ → Prop) (is : List ι) : Prop :=
  ∀ before after os u, is = before ++ after → run step s before = .ok (os, u) → P (before.zip os) u

/-- A property of the inputs of a run, each with the state that it meets and the history. -/
def EveryInput (s : σ) (Q : List (ι × ο) → σ → ι → Prop) (is : List ι) : Prop :=
  ∀ before i after os u, is = before ++ i :: after → run step s before = .ok (os, u) →
    Q (before.zip os) u i

theorem everyInput_congr (s : σ) (Q Q' : List (ι × ο) → σ → ι → Prop) (is : List ι)
    (h : ∀ before u i, Q before u i ↔ Q' before u i) :
    EveryInput step s Q is ↔ EveryInput step s Q' is := by
  have heq : Q = Q' := by
    funext before u i
    exact propext (h before u i)
  rw [heq]

theorem everyState_nil (s : σ) (P : List (ι × ο) → σ → Prop) (h : P [] s) :
    EveryState step s P [] := by
  intro before after os u hb hr
  obtain ⟨rfl, _⟩ := List.append_eq_nil_iff.mp hb.symm
  obtain ⟨rfl, rfl⟩ := ok_inj hr
  exact h

theorem everyState_concat (s u v : σ) (P : List (ι × ο) → σ → Prop) (is : List ι) (i : ι)
    (os : List ο) (o : ο) (hr : run step s is = .ok (os, u)) (hs : step u i = .ok (o, v)) :
    EveryState step s P (is ++ [i]) ↔ EveryState step s P is ∧ P (is.zip os ++ [(i, o)]) v := by
  have hall := run_concat_ok step s u v is i os o hr hs
  have hlen := run_length step s u is os hr
  have hzip : (is ++ [i]).zip (os ++ [o]) = is.zip os ++ [(i, o)] := by
    rw [List.zip_append hlen.symm]
    rfl
  constructor
  · intro h
    refine ⟨?_, hzip ▸ h (is ++ [i]) [] _ v (by simp) hall⟩
    intro before after os' w hb hw
    exact h before (after ++ [i]) os' w (by simp [hb]) hw
  · intro h before after os' w hb hw
    cases after using List.reverseRecOn with
    | nil =>
      rw [List.append_nil] at hb
      rw [← hb, hall] at hw
      obtain ⟨rfl, rfl⟩ := ok_inj hw
      rw [← hb, hzip]
      exact h.2
    | append_singleton after x =>
      rw [← List.append_assoc] at hb
      exact h.1 before after os' w (List.append_inj' hb rfl).1 hw

theorem everyInput_concat (s u : σ) (Q : List (ι × ο) → σ → ι → Prop) (is : List ι) (i : ι)
    (os : List ο) (hr : run step s is = .ok (os, u)) :
    EveryInput step s Q (is ++ [i]) ↔ EveryInput step s Q is ∧ Q (is.zip os) u i := by
  constructor
  · intro h
    refine ⟨?_, h is i [] os u rfl hr⟩
    intro before x after os' w hb hw
    exact h before x (after ++ [i]) os' w (by simp [hb]) hw
  · intro h before x after os' w hb hw
    cases after using List.reverseRecOn with
    | nil =>
      obtain ⟨rfl, hx⟩ := List.append_inj' hb rfl
      rw [hr] at hw
      obtain ⟨rfl, rfl⟩ := ok_inj hw
      rw [← List.singleton_inj.mp hx]
      exact h.2
    | append_singleton after y =>
      rw [← List.cons_append, ← List.append_assoc] at hb
      exact h.1 before x after os' w (List.append_inj' hb rfl).1 hw

/-- A condition on the inputs alone is one on every input that a completed run takes. -/
theorem everyInput_iff_forall (Q : ι → Prop) (s t : σ) (is : List ι) (os : List ο)
    (hr : run step s is = .ok (os, t)) :
    EveryInput step s (fun _ _ i => Q i) is ↔ ∀ i ∈ is, Q i := by
  constructor
  · intro h i hi
    obtain ⟨before, after, rfl⟩ := List.append_of_mem hi
    obtain ⟨os₁, u, _, hb, _⟩ := (run_append_ok step s t before (i :: after) os).mp hr
    exact h before i after os₁ u rfl hb
  · intro h before i after os' u hb _
    exact h i (by simp [hb])

/-- Where one step keeps a property exactly when its input meets a condition, the property
holds throughout a run exactly when every input of the run meets it. -/
theorem everyState_iff_everyInput (I P : List (ι × ο) → σ → Prop)
    (Q : List (ι × ο) → σ → ι → Prop) (s t : σ) (is : List ι) (os : List ο)
    (hinv : ∀ i ∈ is, ∀ h u o v, I h u → step u i = .ok (o, v) → I (h ++ [(i, o)]) v)
    (hstep : ∀ i ∈ is, ∀ h u o v, I h u → P h u → step u i = .ok (o, v) →
      (P (h ++ [(i, o)]) v ↔ Q h u i))
    (hi : I [] s) (hp : P [] s) (hr : run step s is = .ok (os, t)) :
    EveryState step s P is ↔ EveryInput step s Q is := by
  induction is using List.reverseRecOn generalizing t os with
  | nil =>
    refine iff_of_true (everyState_nil step s P hp) ?_
    intro before i after os' u hb
    simp at hb
  | append_singleton is i ih =>
    obtain ⟨os₁, u, os₂, h₁, h₂, _⟩ := (run_append_ok step s t is [i] os).mp hr
    obtain ⟨o, v, _, hs, _, _⟩ := (run_cons_ok step u t i [] os₂).mp h₂
    have hih := ih u os₁ (fun j hj => hinv j (by simp [hj])) (fun j hj => hstep j (by simp [hj])) h₁
    have hiu : I (is.zip os₁) u :=
      run_invariant step I s u [] is os₁ (fun j hj => hinv j (by simp [hj])) hi h₁
    rw [everyState_concat step s u v P is i os₁ o h₁ hs, everyInput_concat step s u Q is i os₁ h₁,
      hih]
    apply and_congr_right
    intro hq
    exact hstep i (by simp) _ u o v hiu (hih.mpr hq is [] os₁ u (by simp) h₁) hs

/-- The same rule where the condition is on the inputs alone. -/
theorem everyState_iff_forall (P : List (ι × ο) → σ → Prop) (Q : ι → Prop) (s t : σ)
    (is : List ι) (os : List ο)
    (hstep : ∀ i ∈ is, ∀ h u o v, P h u → step u i = .ok (o, v) → (P (h ++ [(i, o)]) v ↔ Q i))
    (hp : P [] s) (hr : run step s is = .ok (os, t)) :
    EveryState step s P is ↔ ∀ i ∈ is, Q i := by
  have hstates : EveryState step s P is ↔ EveryInput step s (fun _ _ i => Q i) is := by
    refine everyState_iff_everyInput step (fun _ _ => True) P _ s t is os
      (fun _ _ _ _ _ _ _ _ => trivial) ?_ trivial hp hr
    intro i hi h u o v _ hu hs
    exact hstep i hi h u o v hu hs
  rw [hstates]
  exact everyInput_iff_forall step Q s t is os hr

/-- A run is answered when every state answers each of its inputs. -/
theorem run_total (is : List ι) (ht : ∀ i ∈ is, ∀ s, ∃ o s', step s i = .ok (o, s')) (s : σ) :
    ∃ os t, run step s is = .ok (os, t) := by
  induction is generalizing s with
  | nil => exact ⟨[], s, rfl⟩
  | cons i is ih =>
    obtain ⟨o, s', hs⟩ := ht i (by simp) s
    obtain ⟨os, t, hr⟩ := ih (fun j hj => ht j (by simp [hj])) s'
    exact ⟨o :: os, t, (run_cons_ok step s t i is _).mpr ⟨o, s', os, hs, hr, rfl⟩⟩

/-- Where every admissible input is answered from an abstract state, the concrete
run is answered too, and it ends in the image of the abstract one. -/
theorem run_refines {τ : Type} (image : τ → σ) (next : τ → ι → τ) (good : ι → Prop)
    (hstep : ∀ a i, good i → ∃ o, step (image a) i = .ok (o, image (next a i)))
    (a : τ) (is : List ι) (hg : ∀ i ∈ is, good i) :
    ∃ os, run step (image a) is = .ok (os, image (is.foldl next a)) := by
  induction is generalizing a with
  | nil => exact ⟨[], rfl⟩
  | cons i is ih =>
    obtain ⟨o, ho⟩ := hstep a i (hg i (by simp))
    obtain ⟨os, hos⟩ := ih (next a i) (fun j hj => hg j (by simp [hj]))
    exact ⟨o :: os, (run_cons_ok step _ _ i is _).mpr ⟨o, _, os, ho, hos, rfl⟩⟩

end Run

section Observed

variable {σ ι ο ω ε : Type} (step : σ → ι → Except ε (ο × σ)) (see : ι → ο → σ → ω)

/-- The same step, with what an observer sees of its input, its output and the state reached. -/
def observed (s : σ) (i : ι) : Except ε (ω × σ) := do
  let (o, s') ← step s i
  return (see i o s', s')

theorem observed_ok (s s' : σ) (i : ι) (o : ο) (h : step s i = .ok (o, s')) :
    observed step see s i = .ok (see i o s', s') := by
  rw [observed, h]
  rfl

end Observed

section Lockstep

variable {σ τ ι κ ω ε : Type} (stepA : σ → ι → Except ε (ω × σ)) (stepB : τ → κ → Except ε (ω × τ))

/-- Two runs whose steps answer related inputs from related states with equal outputs show the
same outputs from beginning to end. -/
theorem run_lockstep (R : σ → τ → Prop) (I : ι → κ → Prop)
    (hstep : ∀ s t i j, R s t → I i j → ∃ o s' t', stepA s i = .ok (o, s') ∧
      stepB t j = .ok (o, t') ∧ R s' t')
    (s : σ) (t : τ) (is : List ι) (js : List κ) (hs : R s t) (hij : List.Forall₂ I is js) :
    ∃ os s' t', run stepA s is = .ok (os, s') ∧ run stepB t js = .ok (os, t') ∧ R s' t' := by
  induction hij generalizing s t with
  | nil => exact ⟨[], s, t, rfl, rfl, hs⟩
  | @cons i j is js hi _ ih =>
    obtain ⟨o, u, v, hA, hB, hR⟩ := hstep s t i j hs hi
    obtain ⟨os, s', t', hrA, hrB, hend⟩ := ih u v hR
    exact ⟨o :: os, s', t', (run_cons_ok stepA s s' i is _).mpr ⟨o, u, os, hA, hrA, rfl⟩,
      (run_cons_ok stepB t t' j js _).mpr ⟨o, v, os, hB, hrB, rfl⟩, hend⟩

end Lockstep

section Simulation

variable {σ τ ι ω ε ε' : Type} (stepA : σ → ι → Except ε (ω × σ)) (stepB : τ → ι → Except ε' (ω × τ))

/-- Where every answer of the first system is an answer of the second one from a related state,
so is every completed run. -/
theorem run_simulates (R : σ → τ → Prop) (s s' : σ) (t : τ) (is : List ι) (os : List ω)
    (hstep : ∀ i ∈ is, ∀ s t o s', R s t → stepA s i = .ok (o, s') →
      ∃ t', stepB t i = .ok (o, t') ∧ R s' t')
    (hs : R s t) (hr : run stepA s is = .ok (os, s')) :
    ∃ t', run stepB t is = .ok (os, t') ∧ R s' t' := by
  induction is generalizing s t os with
  | nil =>
    obtain ⟨rfl, rfl⟩ := ok_inj hr
    exact ⟨t, rfl, hs⟩
  | cons i is ih =>
    obtain ⟨o, u, os', hA, hrest, rfl⟩ := (run_cons_ok stepA s s' i is os).mp hr
    obtain ⟨v, hB, hR⟩ := hstep i (by simp) s t o u hs hA
    obtain ⟨t', hrB, hend⟩ := ih u v os' (fun j hj => hstep j (by simp [hj])) hR hrest
    exact ⟨t', (run_cons_ok stepB t t' i is _).mpr ⟨o, v, os', hB, hrB, rfl⟩, hend⟩

end Simulation

section Latest

variable {ι ν : Type} (p : ι → Option ν)

theorem filterMap_concat (h : List ι) (x : ι) :
    (h ++ [x]).filterMap p = h.filterMap p ++ (p x).toList := by
  cases hx : p x <;> simp [hx]

/-- The value of the last event of a history on which `p` is defined. -/
def latest (h : List ι) : Option ν := (h.filterMap p).getLast?

@[simp] theorem latest_nil : latest p [] = none := rfl

theorem latest_concat (h : List ι) (x : ι) : latest p (h ++ [x]) = (p x).or (latest p h) := by
  cases hx : p x <;> simp [latest, hx]

theorem latest_concat_some (h : List ι) (x : ι) (v : ν) (hx : p x = some v) :
    latest p (h ++ [x]) = some v := by
  rw [latest_concat, hx, Option.some_or]

theorem latest_concat_none (h : List ι) (x : ι) (hx : p x = none) :
    latest p (h ++ [x]) = latest p h := by
  rw [latest_concat, hx, Option.none_or]

theorem latest_eq_none (h : List ι) : latest p h = none ↔ ∀ x ∈ h, p x = none := by
  simp [latest]

theorem latest_append_none (h after : List ι) (hn : ∀ y ∈ after, p y = none) :
    latest p (h ++ after) = latest p h := by
  rw [latest, List.filterMap_append, List.filterMap_eq_nil_iff.mpr hn, List.append_nil, latest]

/-- The latest event is followed by none of its kind. -/
theorem latest_eq_some (h : List ι) (v : ν) : latest p h = some v ↔
    ∃ before x after, h = before ++ x :: after ∧ p x = some v ∧ ∀ y ∈ after, p y = none := by
  constructor
  · intro hv
    induction h using List.reverseRecOn with
    | nil => simp at hv
    | append_singleton h x ih =>
      cases hx : p x with
      | some w =>
        rw [latest_concat_some p h x w hx] at hv
        exact ⟨h, x, [], rfl, hx.trans hv, by simp⟩
      | none =>
        rw [latest_concat_none p h x hx] at hv
        obtain ⟨before, y, after, rfl, hy, hn⟩ := ih hv
        refine ⟨before, y, after ++ [x], by simp, hy, ?_⟩
        intro z hz
        rcases List.mem_append.mp hz with hz | hz
        · exact hn z hz
        · rw [List.mem_singleton.mp hz, hx]
  · intro hlast
    obtain ⟨before, x, after, rfl, hx, hn⟩ := hlast
    rw [← List.singleton_append, ← List.append_assoc, latest_append_none p _ after hn,
      latest_concat_some p before x v hx]

/-- The value of a cell that comes into being with an initial value and is written later. -/
def lazyValue (initial : ι → Option ν) (h : List ι) : Option ν :=
  (h.findSome? initial).map (fun i => (latest p h).getD i)

section LazyValue

variable (initial : ι → Option ν) (h : List ι) (x : ι)

theorem findSome?_concat :
    (h ++ [x]).findSome? initial = (h.findSome? initial).or (initial x) := by
  rw [List.findSome?_append, List.findSome?_singleton]

theorem lazyValue_write (v : ν) (hv : p x = some v)
    (hi : (h ++ [x]).findSome? initial ≠ none) : lazyValue p initial (h ++ [x]) = some v := by
  obtain ⟨i, hi⟩ := Option.ne_none_iff_exists'.mp hi
  rw [lazyValue, hi, latest_concat_some p h x v hv]
  rfl

/-- A cell keeps its value, or comes into being with its initial one. -/
theorem lazyValue_initial (i : ν) (hi : initial x = some i) (hx : p x = none)
    (hlazy : h.findSome? initial = none → latest p h = none) :
    lazyValue p initial (h ++ [x]) = some ((lazyValue p initial h).getD i) := by
  rw [lazyValue, findSome?_concat, hi, latest_concat_none p h x hx, lazyValue]
  cases hh : h.findSome? initial with
  | none =>
    rw [hlazy hh]
    rfl
  | some j => rfl

theorem lazyValue_skip (hi : initial x = none) (hx : p x = none) :
    lazyValue p initial (h ++ [x]) = lazyValue p initial h := by
  rw [lazyValue, findSome?_concat, hi, Option.or_none, latest_concat_none p h x hx, lazyValue]

/-- One event on the cell: a write under `W`, and under `P` its coming into being. -/
theorem lazyValue_concat (W P : Prop) [Decidable W] [Decidable P] (v i : ν)
    (hx : p x = if W then some v else none) (hi : initial x = if P then some i else none)
    (hWP : W → P) (hlazy : h.findSome? initial = none → latest p h = none) :
    lazyValue p initial (h ++ [x]) =
      if W then some v else if P then some ((lazyValue p initial h).getD i)
      else lazyValue p initial h := by
  by_cases hW : W
  · rw [if_pos hW] at hx ⊢
    rw [if_pos (hWP hW)] at hi
    apply lazyValue_write p initial h x v hx
    rw [findSome?_concat, hi]
    simp
  · rw [if_neg hW] at hx ⊢
    by_cases hP : P
    · rw [if_pos hP] at hi ⊢
      exact lazyValue_initial p initial h x i hi hx hlazy
    · rw [if_neg hP] at hi ⊢
      exact lazyValue_skip p initial h x hi hx

end LazyValue

end Latest

end FreeSampler.Framework
