/-!
# Runs with labels

A system that takes labelled steps and silent ones.  A run shows the labels of its steps in their
order and hides the silent ones.

Runs are put together and cut at any place (`Run.append`, `Run.cut`), and what the steps keep is
kept by a run (`Run.invariant`); the invariant may speak of the labels so far.
-/

universe u v

namespace LabelledRun

/-- A run from one state to another, with the labels of its steps. -/
inductive Run {σ : Type u} {ε : Type v} (step : σ → ε → σ → Prop) (silent : σ → σ → Prop) :
    σ → List ε → σ → Prop
  | nil (s : σ) : Run step silent s [] s
  | silent {s t u : σ} {es : List ε} (h : silent s t) (rest : Run step silent t es u) :
      Run step silent s es u
  | cons {s t u : σ} {e : ε} {es : List ε} (h : step s e t) (rest : Run step silent t es u) :
      Run step silent s (e :: es) u

namespace Run

variable {σ : Type u} {ε : Type v} {step : σ → ε → σ → Prop} {silent : σ → σ → Prop}
variable {s t u : σ} {es es' : List ε} {e : ε}

theorem append
    (h : Run step silent s es t) (h' : Run step silent t es' u) :
    Run step silent s (es ++ es') u := by
  induction h with
  | nil =>
      exact h'
  | silent hs _ ih =>
      exact .silent hs (ih h')
  | cons hs _ ih =>
      exact .cons hs (ih h')

/-- One step. -/
theorem one
    (h : step s e t) :
    Run step silent s [e] t :=
  .cons h (.nil t)

/-- A run may be cut between any two of its labels. -/
theorem split
    {pre post : List ε} (h : Run step silent s (pre ++ post) u) :
    ∃ t, Run step silent s pre t ∧ Run step silent t post u := by
  generalize hes : pre ++ post = es at h
  induction h generalizing pre with
  | nil s =>
      obtain ⟨rfl, rfl⟩ := List.append_eq_nil_iff.mp hes
      exact ⟨s, .nil s, .nil s⟩
  | silent hs _ ih =>
      obtain ⟨t, hpre, hpost⟩ := ih hes
      exact ⟨t, .silent hs hpre, hpost⟩
  | @cons s t u e es hs rest ih =>
      cases pre with
      | nil =>
          rw [List.nil_append] at hes
          rw [hes]
          exact ⟨s, .nil s, .cons hs rest⟩
      | cons e' pre =>
          rw [List.cons_append, List.cons.injEq] at hes
          obtain ⟨rfl, hes⟩ := hes
          obtain ⟨t', hpre, hpost⟩ := ih hes
          exact ⟨t', .cons hs hpre, hpost⟩

/-- The step behind a label, with the runs before and after it. -/
theorem cut
    {pre post : List ε} (h : Run step silent s (pre ++ e :: post) u) :
    ∃ t t', Run step silent s pre t ∧ step t e t' ∧ Run step silent t' post u := by
  obtain ⟨t, hpre, hrest⟩ := h.split
  clear h
  generalize hes : e :: post = es at hrest
  induction hrest with
  | nil =>
      cases hes
  | silent hs _ ih =>
      have hpre' := hpre.append (.silent hs (.nil _))
      rw [List.append_nil] at hpre'
      exact ih hpre' hes
  | cons hs rest _ =>
      obtain ⟨rfl, rfl⟩ := List.cons.inj hes
      exact ⟨_, _, hpre, hs, rest⟩

/-- What the steps keep, a run keeps. -/
theorem invariant
    {I : List ε → σ → Prop} (h : Run step silent s es t)
    (hstep : ∀ pre s e t, I pre s → step s e t → I (pre ++ [e]) t)
    (hsilent : ∀ pre s t, I pre s → silent s t → I pre t) (pre : List ε) (hI : I pre s) :
    I (pre ++ es) t := by
  induction h generalizing pre with
  | nil =>
      rw [List.append_nil]
      exact hI
  | silent hs _ ih =>
      exact ih pre (hsilent _ _ _ hI hs)
  | cons hs _ ih =>
      rw [List.append_cons]
      exact ih _ (hstep _ _ _ _ hI hs)

end Run

end LabelledRun
