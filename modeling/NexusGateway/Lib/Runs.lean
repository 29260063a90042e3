import Mathlib.Data.List.Induction
import Mathlib.Data.Option.Basic

/- Runs of a step function that may refuse a step.

   `run` takes the steps one after the other; it has no result if one of them is
   refused. `Meets` says that every step of a run meets a condition in the state it is
   taken in. A property that such steps keep holds in the state that the run reaches
   (`run_invariant`), and a rank that they lower bounds their number (`run_count_le`); a
   property of the run itself, as of the steps behind its end, is proved by
   `run_snoc_induction`. -/
namespace Runs

variable {State Step : Type*} {step : State → Step → Option State}

/-- The state after the steps, if each of them can be taken. -/
def run (step : State → Step → Option State) : State → List Step → Option State
  | s, [] => some s
  | s, a :: steps => (step s a).bind (fun s' => run step s' steps)

/-- Every step of the run meets the condition in the state it is taken in. -/
def Meets (step : State → Step → Option State) (P : State → Step → Prop) : State → List Step → Prop
  | _, [] => True
  | s, a :: steps => P s a ∧ ∀ s' ∈ step s a, Meets step P s' steps

instance Meets.decidable (P : State → Step → Prop) [∀ s, DecidablePred (P s)] :
    (steps : List Step) → DecidablePred (fun s => Meets step P s steps)
  | [], _ => isTrue trivial
  | a :: steps, s =>
    have := Meets.decidable P steps
    inferInstanceAs (Decidable (P s a ∧ ∀ s' ∈ step s a, Meets step P s' steps))

/-- The condition `True` is met by every run. -/
theorem meets_true (steps : List Step) : ∀ s, Meets step (fun _ _ => True) s steps := by
  induction steps with
  | nil => exact fun _ => trivial
  | cons a steps ih => exact fun s => ⟨trivial, fun s' _ => ih s'⟩

theorem Meets.mono {P Q : State → Step → Prop} (hweak : ∀ s a, P s a → Q s a) (steps : List Step) :
    ∀ {s : State}, Meets step P s steps → Meets step Q s steps := by
  induction steps with
  | nil => exact fun _ => trivial
  | cons a steps ih => exact fun h => ⟨hweak _ a h.1, fun s' hs' => ih (h.2 s' hs')⟩

/-- **What every step keeps that meets the condition, the run keeps.** -/
theorem run_invariant {P : State → Step → Prop} {Inv : State → Prop}
    (hstep : ∀ {s a s'}, Inv s → P s a → step s a = some s' → Inv s') (steps : List Step) :
    ∀ {s s' : State}, Inv s → Meets step P s steps → run step s steps = some s' → Inv s' := by
  induction steps with
  | nil =>
    intro s s' h _ hrun
    cases hrun
    exact h
  | cons a steps ih =>
    intro s s' h hmeets hrun
    obtain ⟨s₁, htaken, hrest⟩ := Option.bind_eq_some_iff.mp hrun
    exact ih (hstep h hmeets.1 htaken) (hmeets.2 s₁ htaken) hrest

/-- **A rank that every counted step lowers** bounds how many of them a run takes. -/
theorem run_count_le {P : State → Step → Prop} {Inv : State → Prop} {rank : State → Nat}
    {counted : Step → Bool} (hstep : ∀ {s a s'}, Inv s → P s a → step s a = some s' →
      Inv s' ∧ rank s' + (if counted a then 1 else 0) ≤ rank s) (steps : List Step) :
    ∀ {s s' : State}, Inv s → Meets step P s steps → run step s steps = some s' →
      rank s' + steps.countP counted ≤ rank s := by
  induction steps with
  | nil =>
    intro s s' _ _ hrun
    cases hrun
    exact Nat.le_refl _
  | cons a steps ih =>
    intro s s' h hmeets hrun
    obtain ⟨s₁, htaken, hrest⟩ := Option.bind_eq_some_iff.mp hrun
    obtain ⟨hinv, hlower⟩ := hstep h hmeets.1 htaken
    have hlater := ih hinv (hmeets.2 s₁ htaken) hrest
    rw [List.countP_cons]
    omega

theorem run_keeps {Inv : State → Prop} (hstep : ∀ {s a s'}, Inv s → step s a = some s' → Inv s')
    {s s' : State} (steps : List Step) (h : Inv s) (hrun : run step s steps = some s') : Inv s' :=
  run_invariant (fun hinv _ htaken => hstep hinv htaken) steps h (meets_true steps s) hrun

theorem run_total (f : State → Step → State) (steps : List Step) : ∀ s : State,
    run (fun s a => some (f s a)) s steps = some (steps.foldl f s) := by
  induction steps with
  | nil => exact fun _ => rfl
  | cons a steps ih => exact fun s => ih (f s a)

theorem run_append (steps more : List Step) : ∀ s : State,
    run step s (steps ++ more) = (run step s steps).bind (fun s' => run step s' more) := by
  induction steps with
  | nil => exact fun s => rfl
  | cons a steps ih =>
    intro s
    rw [List.cons_append, run, run, Option.bind_assoc]
    congr 1
    funext s'
    exact ih s'

theorem run_snoc {s s' : State} {steps : List Step} {a : Step}
    (hrun : run step s (steps ++ [a]) = some s') :
    ∃ s₁, run step s steps = some s₁ ∧ step s₁ a = some s' := by
  rw [run_append] at hrun
  obtain ⟨s₁, hsteps, hlast⟩ := Option.bind_eq_some_iff.mp hrun
  obtain ⟨s₂, htaken, hnil⟩ := Option.bind_eq_some_iff.mp hlast
  cases hnil
  exact ⟨s₁, hsteps, htaken⟩

/-- **What holds of the empty run and is kept when one more step is taken** holds of every run. -/
theorem run_snoc_induction {s : State} {P : List Step → State → Prop} (hnil : P [] s)
    (hsnoc : ∀ {steps s₁ a s₂}, run step s steps = some s₁ → P steps s₁ → step s₁ a = some s₂ →
      P (steps ++ [a]) s₂) (steps : List Step) : ∀ {s'}, run step s steps = some s' → P steps s' := by
  induction steps using List.reverseRecOn with
  | nil =>
    intro s' hrun
    cases hrun
    exact hnil
  | append_singleton steps a ih =>
    intro s' hrun
    obtain ⟨s₁, hsteps, htaken⟩ := run_snoc hrun
    exact hsnoc hsteps (ih hsteps) htaken

end Runs
