import Mathlib.Logic.Basic

/-!
# Runs of labelled steps

An invariant of every step is one of every run, and what every step keeps of the state
before it is kept by every run. What the steps with certain labels keep is kept by the runs
that have no other labels.
-/
namespace Transitions

variable {S L A : Type} {step : L → S → S → Prop} {I : S → Prop} {s s' : S} {labels : List L}

/-- The states that are reached by steps with these labels, one after the other. -/
inductive Run (step : L → S → S → Prop) : List L → S → S → Prop
  | start {s : S} : Run step [] s s
  | step {labels : List L} {label : L} {s s' s'' : S} :
      Run step labels s s' → step label s' s'' → Run step (labels ++ [label]) s s''

theorem Run.append {labels' : List L} {s'' : S} (h : Run step labels s s') (h' : Run step labels' s' s'') :
    Run step (labels ++ labels') s s'' := by
  induction h' with
  | start =>
    rw [List.append_nil]
    exact h
  | step _ hlast ih =>
    rw [← List.append_assoc]
    exact (ih h).step hlast

/-- What every step keeps between the state before and the state after it, if that can be composed. -/
theorem Run.relates {R : S → S → Prop} (h : Run step labels s s') (hrefl : ∀ s, R s s)
    (htrans : ∀ s s' s'', R s s' → R s' s'' → R s s'')
    (hstep : ∀ label s s', I s → step label s s' → I s' ∧ R s s') (hs : I s) : I s' ∧ R s s' := by
  induction h with
  | start => exact ⟨hs, hrefl _⟩
  | step _ hlast ih =>
    obtain ⟨hI, hR⟩ := ih hs
    obtain ⟨hI', hR'⟩ := hstep _ _ _ hI hlast
    exact ⟨hI', htrans _ _ _ hR hR'⟩

end Transitions
