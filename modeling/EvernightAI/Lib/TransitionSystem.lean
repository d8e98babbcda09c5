import Mathlib.Data.List.Induction
import Mathlib.Data.Set.Basic
import Mathlib.Order.Defs.Unbundled

/-!
# Labelled transition systems and their runs

A system is a partial step function `step : σ → α → Option σ`: `step s a = some s'` when the
label `a` is enabled in `s` and leads to `s'`. Everything a system leaves open — the order of
its parties, what an outside party answers, where a crash falls — is carried by the labels, so
a property of *every interleaving* is a property of every list of labels.

* `run` follows a list of labels; `Reachable` is its closure.
* `Along step good s as` says that every step the run takes is *good*, a condition on the state
  before the step and on its label.
* `run_invariant`, `run_invariant_of_along` and `run_rel` are the induction rules: an invariant,
  an invariant kept by good steps only, and a preorder followed by every step.
* `forall_prefix_iff_along_of_run` is the equivalence for an invariant that good steps only keep.
* `exists_last_entry` finds the step since which a property has held.
-/

namespace TransitionSystem

variable {σ α : Type*} {step : σ → α → Option σ}

/-- The state reached from `s` by the labels in order, `none` when one of them is not enabled. -/
def run (step : σ → α → Option σ) : σ → List α → Option σ
  | s, [] => some s
  | s, a :: as => (step s a).bind fun s' => run step s' as

/-- The states a system can reach from `init`. -/
def Reachable (step : σ → α → Option σ) (init s : σ) : Prop :=
  ∃ as, run step init as = some s

/-- **Good runs.** Every step the run from `s` takes satisfies `good`, judged at the state
before the step. -/
def Along (step : σ → α → Option σ) (good : σ → α → Prop) : σ → List α → Prop
  | _, [] => True
  | s, a :: as => good s a ∧
      match step s a with
      | some s' => Along step good s' as
      | none => True

instance Along.instDecidable (step : σ → α → Option σ) (good : σ → α → Prop)
    [∀ s a, Decidable (good s a)] : ∀ s as, Decidable (Along step good s as)
  | _, [] => inferInstanceAs (Decidable True)
  | s, a :: as => by
    unfold Along
    exact match h : step s a with
      | some s' =>
        haveI := instDecidable step good s' as
        inferInstanceAs (Decidable (good s a ∧ Along step good s' as))
      | none => inferInstanceAs (Decidable (good s a ∧ True))

@[simp] theorem run_nil (s : σ) : run step s [] = some s := rfl

theorem run_cons (s : σ) (a : α) (as : List α) :
    run step s (a :: as) = (step s a).bind fun s' => run step s' as := rfl

/-- A run of at least one step is its first step followed by the rest. -/
theorem run_cons_eq_some {s s' : σ} {a : α} {as : List α} :
    run step s (a :: as) = some s' ↔ ∃ m, step s a = some m ∧ run step m as = some s' := by
  rw [run_cons, Option.bind_eq_some_iff]

theorem run_append (s : σ) (as bs : List α) :
    run step s (as ++ bs) = (run step s as).bind fun s' => run step s' bs := by
  induction as generalizing s with
  | nil => rfl
  | cons a as ih =>
    rw [List.cons_append, run_cons, run_cons]
    cases step s a with
    | none => rfl
    | some m => exact ih m

/-- The state a run of enabled labels ends in, for concrete runs. -/
def reached (step : σ → α → Option σ) (s : σ) (as : List α) (h : (run step s as).isSome) : σ :=
  (run step s as).get h

theorem run_reached {s : σ} {as : List α} (h : (run step s as).isSome) :
    run step s as = some (reached step s as h) := (Option.some_get h).symm

theorem run_reached_append {s : σ} {as bs : List α} (h : (run step s as).isSome)
    (h' : (run step s (as ++ bs)).isSome) :
    run step (reached step s as h) bs = some (reached step s (as ++ bs) h') := by
  have happend := @run_append _ _ step s as bs
  rwa [run_reached h, Option.bind_some, run_reached h', eq_comm] at happend

theorem along_cons {good : σ → α → Prop} {s m : σ} {a : α} {as : List α}
    (h : Along step good s (a :: as)) (hm : step s a = some m) : good s a ∧ Along step good m as := by
  simpa only [Along, hm] using h

theorem along_append {good : σ → α → Prop} {s m : σ} {as bs : List α}
    (hrun : run step s as = some m) :
    Along step good s (as ++ bs) ↔ Along step good s as ∧ Along step good m bs := by
  induction as generalizing s with
  | nil => cases hrun; simp only [List.nil_append, Along, true_and]
  | cons a as ih =>
    obtain ⟨t, ht, hrun⟩ := run_cons_eq_some.mp hrun
    simp only [List.cons_append, Along, ht, ih hrun, and_assoc]

/-- A run is good when each of its steps is. -/
theorem along_iff_forall {good : σ → α → Prop} {s t : σ} {as : List α}
    (hrun : run step s as = some t) : Along step good s as ↔
      ∀ before a after m m', as = before ++ a :: after → run step s before = some m →
        step m a = some m' → good m a := by
  constructor
  · rintro hgood before a after m m' rfl hbefore hstep
    exact (along_cons ((along_append hbefore).mp hgood).2 hstep).1
  · intro hgood
    induction as generalizing s with
    | nil => trivial
    | cons a as ih =>
      obtain ⟨m, hm, hrest⟩ := run_cons_eq_some.mp hrun
      simp only [Along, hm]
      refine ⟨hgood [] a as s m rfl rfl hm, ih hrest fun before b after u u' has hbefore => ?_⟩
      refine hgood (a :: before) b after u u' (by rw [has, List.cons_append]) ?_
      rw [run_cons, hm, Option.bind_some, hbefore]

/-- **Invariants.** What every step keeps, every run keeps. -/
theorem run_invariant {I : σ → Prop} (hstep : ∀ s a s', I s → step s a = some s' → I s')
    {s s' : σ} {as : List α} (hs : I s) (hrun : run step s as = some s') : I s' := by
  induction as generalizing s with
  | nil => cases hrun; exact hs
  | cons a as ih =>
    obtain ⟨m, hm, hrun⟩ := run_cons_eq_some.mp hrun
    exact ih (hstep s a m hs hm) hrun

/-- **Conditional invariants.** What every good step keeps, every good run keeps. -/
theorem run_invariant_of_along {I : σ → Prop} {good : σ → α → Prop}
    (hstep : ∀ s a s', I s → good s a → step s a = some s' → I s')
    {s s' : σ} {as : List α} (hs : I s) (hrun : run step s as = some s')
    (hgood : Along step good s as) : I s' := by
  induction as generalizing s with
  | nil => cases hrun; exact hs
  | cons a as ih =>
    obtain ⟨m, hm, hrun⟩ := run_cons_eq_some.mp hrun
    obtain ⟨ha, hgood⟩ := along_cons hgood hm
    exact ih (hstep s a m hs ha hm) hrun hgood

/-- What follows from an invariant and a good step holds of every step of a good run. -/
theorem along_of_invariant {I : σ → Prop} {good good' : σ → α → Prop}
    (hstep : ∀ s a s', I s → good s a → step s a = some s' → I s')
    (hgood' : ∀ s a, I s → good s a → good' s a) {s : σ} {as : List α} (hs : I s)
    (h : Along step good s as) : Along step good' s as := by
  induction as generalizing s with
  | nil => trivial
  | cons a as ih =>
    refine ⟨hgood' s a hs h.1, ?_⟩
    cases hm : step s a with
    | none => trivial
    | some m => exact ih (hstep s a m hs h.1 hm) (along_cons h hm).2

/-- **Exact conditions.** When a step keeps the invariant exactly if it is good, the invariant holds
in every state a run goes through exactly if the run is good. -/
theorem forall_prefix_iff_along_of_run {I : σ → Prop} {good : σ → α → Prop}
    (hstep : ∀ s a s', I s → step s a = some s' → (I s' ↔ good s a))
    {s t : σ} {as : List α} (hs : I s) (hrun : run step s as = some t) :
    (∀ pre t, pre <+: as → run step s pre = some t → I t) ↔ Along step good s as := by
  constructor
  · intro h
    induction as generalizing s with
    | nil => trivial
    | cons a as ih =>
      obtain ⟨m, hm, hrest⟩ := run_cons_eq_some.mp hrun
      have hI : I m := h [a] m (List.prefix_append [a] as) (by rw [run_cons, hm]; rfl)
      simp only [Along, hm]
      refine ⟨(hstep s a m hs hm).mp hI, ih hI hrest fun pre t hpre hrun => ?_⟩
      refine h (a :: pre) t ((List.prefix_cons_inj a).mpr hpre) ?_
      rw [run_cons, hm, Option.bind_some, hrun]
  · rintro h pre t ⟨rest, rfl⟩ hrun
    exact run_invariant_of_along (fun s a s' hI ha hs' => (hstep s a s' hI hs').mpr ha) hs hrun
      ((along_append hrun).mp h).1

theorem exists_run (henabled : ∀ s a, ∃ s', step s a = some s') (s : σ) (as : List α) :
    ∃ t, run step s as = some t := by
  induction as generalizing s with
  | nil => exact ⟨s, rfl⟩
  | cons a as ih =>
    obtain ⟨m, hm⟩ := henabled s a
    obtain ⟨t, ht⟩ := ih m
    exact ⟨t, run_cons_eq_some.mpr ⟨m, hm, ht⟩⟩

/-- Where every label is enabled, every list of labels is a run. -/
theorem forall_prefix_iff_along {I : σ → Prop} {good : σ → α → Prop}
    (henabled : ∀ s a, ∃ s', step s a = some s')
    (hstep : ∀ s a s', I s → step s a = some s' → (I s' ↔ good s a))
    {s : σ} {as : List α} (hs : I s) :
    (∀ pre t, pre <+: as → run step s pre = some t → I t) ↔ Along step good s as := by
  obtain ⟨t, ht⟩ := exists_run henabled s as
  exact forall_prefix_iff_along_of_run hstep hs ht

/-- **Monotone runs.** A preorder every step follows relates the ends of every run. -/
theorem run_rel {R : σ → σ → Prop} (hrefl : ∀ s, R s s)
    (htrans : ∀ {s t u : σ}, R s t → R t u → R s u)
    (hstep : ∀ s a s', step s a = some s' → R s s')
    {s s' : σ} {as : List α} (hrun : run step s as = some s') : R s s' := by
  induction as generalizing s with
  | nil => cases hrun; exact hrefl _
  | cons a as ih =>
    obtain ⟨m, hm, hrun⟩ := run_cons_eq_some.mp hrun
    exact htrans (hstep s a m hm) (ih hrun)

/-- **The last entry.** A property that holds at the end of a run and not at its start was entered
by some step, and has held ever since. -/
theorem exists_last_entry {P : σ → Prop} {s s' : σ} {as : List α} (hs : ¬P s) (hs' : P s')
    (hrun : run step s as = some s') :
    ∃ before a after m m', as = before ++ a :: after ∧ run step s before = some m ∧
      step m a = some m' ∧ ¬P m ∧ ∀ pre u, pre <+: after → run step m' pre = some u → P u := by
  induction as using List.reverseRecOn generalizing s' with
  | nil =>
    obtain rfl : s = s' := Option.some.inj hrun
    exact absurd hs' hs
  | append_singleton as a ih =>
    rw [run_append] at hrun
    obtain ⟨m, hm, hlast⟩ := Option.bind_eq_some_iff.mp hrun
    obtain ⟨m', hstep, hend⟩ := run_cons_eq_some.mp hlast
    obtain rfl : m' = s' := Option.some.inj hend
    by_cases hP : P m
    · obtain ⟨before, b, after, t, t', rfl, hbefore, hb, ht, hafter⟩ := ih hP hm
      have happend : run step s (before ++ b :: after) = run step t' after := by
        rw [run_append, hbefore, Option.bind_some, run_cons, hb, Option.bind_some]
      refine ⟨before, b, after ++ [a], t, t', ?_, hbefore, hb, ht, fun pre u hpre hu => ?_⟩
      · rw [List.append_assoc, List.cons_append]
      · rcases List.prefix_concat_iff.mp hpre with rfl | hpre
        · rw [run_append, ← happend, hm, Option.bind_some, hlast] at hu
          rwa [← Option.some.inj hu]
        · exact hafter pre u hpre hu
    · refine ⟨as, a, [], m, m', rfl, hm, hstep, hP, fun pre u hpre hu => ?_⟩
      obtain rfl := List.prefix_nil.mp hpre
      rwa [← Option.some.inj hu]

/-- **What can only be lost.** When every step keeps exactly the properties it does not hit, a run
keeps all the properties that held at its start if and only if no step of it hits one that
still holds. -/
theorem keeps_run_iff {ι : Sort*} {P : ι → σ → Prop} {hit : ι → σ → α → Prop}
    (hstep : ∀ i s a s', step s a = some s' → (P i s' ↔ P i s ∧ ¬hit i s a))
    {s s' : σ} {as : List α} (hrun : run step s as = some s') :
    (∀ i, P i s → P i s') ↔ Along step (fun s a => ∀ i, P i s → ¬hit i s a) s as := by
  induction as generalizing s with
  | nil => cases hrun; exact ⟨fun _ => trivial, fun _ _ h => h⟩
  | cons a as ih =>
    obtain ⟨m, hm, hrest⟩ := run_cons_eq_some.mp hrun
    have hback : ∀ i, P i s' → P i m := fun i => by
      have hlost : ∀ u as t, ¬P i u → run step u as = some t → ¬P i t := fun u as t hu ht =>
        run_invariant (I := fun u => ¬P i u) (fun s a s' hs hss' h => hs ((hstep i s a s' hss').mp h).1)
          hu ht
      exact fun h => by_contra fun hne => hlost m as s' hne hrest h
    simp only [Along, hm]
    rw [← ih hrest]
    constructor
    · intro hkeep
      exact ⟨fun i hi => ((hstep i s a m hm).mp (hback i (hkeep i hi))).2,
        fun i hi => hkeep i ((hstep i s a m hm).mp hi).1⟩
    · rintro ⟨hgood, hkeep⟩ i hi
      exact hkeep i ((hstep i s a m hm).mpr ⟨hi, hgood i hi⟩)

end TransitionSystem
