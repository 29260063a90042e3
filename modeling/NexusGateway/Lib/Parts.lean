import NexusGateway.Lib.Runs

/- A part of a system that makes a run of its own.

   A part may begin, take steps of its own beside those of the others, and end. `ownSteps`
   are those it has taken since it last began. If every step of the system either begins the
   part, or moves it by its own step if the part has one and leaves it alone otherwise, then
   what the part is now is what its own steps make of its beginning (`part_run`). So what
   is proved of the part's runs holds in the system, whatever the others do. -/
namespace Runs

variable {State Step Part PartStep : Type*} {step : State → Step → Option State}
  {partStep : Part → PartStep → Option Part}

/-- The steps that a part has taken since it last began. -/
def ownSteps (begins : Step → Bool) (own : Step → Option PartStep) (steps : List Step) :
    List PartStep :=
  steps.foldl (fun taken a => if begins a then [] else taken ++ (own a).toList) []

theorem ownSteps_snoc (begins : Step → Bool) (own : Step → Option PartStep) (steps : List Step)
    (a : Step) : ownSteps begins own (steps ++ [a]) =
      if begins a then [] else ownSteps begins own steps ++ (own a).toList := by
  rw [ownSteps, List.foldl_append, List.foldl_cons, List.foldl_nil, ← ownSteps]

/-- What one step of the system does to a part that is there behind it: the part begins, or
    it has taken its own step, if it has one. -/
structure PartMoves (Shows : State → Part → Prop) (Begun : Part → Prop) (begins : Step → Bool)
    (own : Step → Option PartStep) (partStep : Part → PartStep → Option Part) (s : State) (a : Step)
    (s' : State) : Prop where
  begun : begins a = true → ∀ p', Shows s' p' → Begun p'
  moved : begins a = false → ∀ p', Shows s' p' → ∃ p, Shows s p ∧
    run partStep p (own a).toList = some p'

/-- **The run of a part.** A part that is not there at first, and that each step begins or
    moves by its own, is what its own steps make of its beginning. -/
theorem part_run {Shows : State → Part → Prop} {Begun : Part → Prop} {begins : Step → Bool}
    {own : Step → Option PartStep} {s₀ s : State} (hnone : ∀ p, ¬ Shows s₀ p)
    (hmoves : ∀ {s a s'}, step s a = some s' → PartMoves Shows Begun begins own partStep s a s')
    {steps : List Step} (hrun : run step s₀ steps = some s) {p : Part} (hshows : Shows s p) :
    ∃ p₀, Begun p₀ ∧ run partStep p₀ (ownSteps begins own steps) = some p := by
  revert p
  refine run_snoc_induction (P := fun steps s => ∀ {p}, Shows s p →
    ∃ p₀, Begun p₀ ∧ run partStep p₀ (ownSteps begins own steps) = some p) ?_ ?_ steps hrun
  · intro p hshows
    exact absurd hshows (hnone p)
  · intro steps s a s' _ ih htaken p' hshows
    rw [ownSteps_snoc]
    cases hbegins : begins a with
    | true =>
      rw [if_pos rfl]
      exact ⟨p', (hmoves htaken).begun hbegins p' hshows, rfl⟩
    | false =>
      obtain ⟨p, hbefore, hown⟩ := (hmoves htaken).moved hbegins p' hshows
      obtain ⟨p₀, hbegun, hearlier⟩ := ih hbefore
      refine ⟨p₀, hbegun, ?_⟩
      rw [if_neg Bool.false_ne_true, run_append, hearlier]
      exact hown

end Runs
