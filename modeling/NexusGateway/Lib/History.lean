import NexusGateway.Lib.Runs

/- Where what a state holds comes from, and what a run gives out.

   `Since` says of a run that one of its steps was a cause of a value, and that the part of
   the state that holds it has held it from then on. The cause may speak of the run before
   the step, so that causes can be chained. `outputs` collects what the steps give out. -/
namespace Runs

variable {State Step Content : Type*} {step : State → Step → Option State}

/-- A step of the run was a cause of `x`, and `get` has found `x` in every state since. -/
def Since (step : State → Step → Option State) (get : State → Option Content)
    (cause : List Step → State → Step → Prop) (s₀ : State) (steps : List Step) (x : Content) : Prop :=
  ∃ before a after s, steps = before ++ a :: after ∧ run step s₀ before = some s ∧
    cause before s a ∧
    ∀ more, more <+: after → ∀ s', run step s₀ (before ++ a :: more) = some s' → get s' = some x

variable {get : State → Option Content} {cause : List Step → State → Step → Prop} {s₀ : State}
  {steps : List Step} {x : Content}

theorem Since.now {s s' : State} {a : Step} (hrun : run step s₀ steps = some s)
    (hcause : cause steps s a) (htaken : step s a = some s') (hget : get s' = some x) :
    Since step get cause s₀ (steps ++ [a]) x := by
  refine ⟨steps, a, [], s, rfl, hrun, hcause, fun more hmore s₁ hs₁ => ?_⟩
  obtain rfl := List.prefix_nil.mp hmore
  obtain ⟨s₂, hs₂, hlast⟩ := run_snoc hs₁
  cases hrun.symm.trans hs₂
  cases htaken.symm.trans hlast
  exact hget

theorem Since.later {s' : State} {a : Step} (h : Since step get cause s₀ steps x)
    (hrun : run step s₀ (steps ++ [a]) = some s') (hget : get s' = some x) :
    Since step get cause s₀ (steps ++ [a]) x := by
  obtain ⟨before, b, after, s, rfl, hbefore, hcause, hkept⟩ := h
  refine ⟨before, b, after ++ [a], s, by simp, hbefore, hcause, fun more hmore s₁ hs₁ => ?_⟩
  rcases List.prefix_concat_iff.mp hmore with rfl | hmore
  · have hall : before ++ b :: (after ++ [a]) = before ++ b :: after ++ [a] := by simp
    rw [hall] at hs₁
    cases hrun.symm.trans hs₁
    exact hget
  · exact hkept more hmore s₁ hs₁

/-! ## What is given out -/

variable {Output : Type*}

/-- What the steps of a run give out. -/
def outputs (step : State → Step → Option State) (out : State → Step → List Output) :
    State → List Step → List Output
  | _, [] => []
  | s, a :: steps =>
    match step s a with
    | none => []
    | some s' => out s a ++ outputs step out s' steps

theorem outputs_snoc {out : State → Step → List Output} {steps : List Step} {a : Step} {s' : State} :
    ∀ {s s₁ : State}, run step s steps = some s₁ → step s₁ a = some s' →
      outputs step out s (steps ++ [a]) = outputs step out s steps ++ out s₁ a := by
  induction steps with
  | nil =>
    intro s s₁ hrun htaken
    cases hrun
    rw [List.nil_append, outputs, outputs, htaken]
    exact List.append_nil _
  | cons b steps ih =>
    intro s s₁ hrun htaken
    obtain ⟨s₂, hfirst, hrest⟩ := Option.bind_eq_some_iff.mp hrun
    rw [List.cons_append, outputs, outputs, hfirst]
    dsimp only
    rw [ih hrest htaken, List.append_assoc]

theorem mem_outputs {out : State → Step → List Output} {x : Output} (steps : List Step) :
    ∀ {s : State}, x ∈ outputs step out s steps → ∃ before a s₁ s₂,
      before ++ [a] <+: steps ∧ run step s before = some s₁ ∧ step s₁ a = some s₂ ∧ x ∈ out s₁ a := by
  induction steps with
  | nil =>
    intro s hx
    cases hx
  | cons a steps ih =>
    intro s hx
    rw [outputs] at hx
    cases htaken : step s a with
    | none =>
      rw [htaken] at hx
      cases hx
    | some s' =>
      rw [htaken] at hx
      rcases List.mem_append.mp hx with hnow | hlater
      · exact ⟨[], a, s, s', by simp, rfl, htaken, hnow⟩
      · obtain ⟨before, b, s₁, s₂, hprefix, hrun, hstep, hout⟩ := ih hlater
        refine ⟨a :: before, b, s₁, s₂, ?_, ?_, hstep, hout⟩
        · rw [List.cons_append]
          exact List.cons_prefix_cons.mpr ⟨rfl, hprefix⟩
        · rw [run, htaken]
          exact hrun

theorem outputs_front {out : State → Step → List Output} {before : List Step} :
    ∀ {steps : List Step}, before <+: steps → ∀ s : State,
      outputs step out s before <+: outputs step out s steps := by
  induction before with
  | nil => exact fun _ s => List.nil_prefix
  | cons a before ih =>
    intro steps hprefix s
    obtain ⟨more, rfl⟩ := hprefix
    rw [List.cons_append, outputs, outputs]
    cases step s a with
    | none => exact List.nil_prefix
    | some s' => exact (List.prefix_append_right_inj _).mpr (ih (List.prefix_append before more) s')

theorem outputs_map {Output' : Type*} (f : Output → Output') (out : State → Step → List Output)
    (steps : List Step) : ∀ s : State,
      (outputs step out s steps).map f = outputs step (fun s a => (out s a).map f) s steps := by
  induction steps with
  | nil => exact fun _ => rfl
  | cons a steps ih =>
    intro s
    rw [outputs, outputs]
    cases step s a with
    | none => rfl
    | some s' => simp [ih s']

end Runs
