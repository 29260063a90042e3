import NexusGateway.Lib.History

/- What a run gives out about a place that has one guest after the other.

   What is given out while a guest is there is his session; it is whole when he leaves.
   `Turn` says what one step may do: nobody is there and nothing is given out, a guest comes,
   stays or leaves, and each time what is given out continues his session. Then what any run
   gives out is whole sessions one after the other, and behind them what has been given out
   for the guest who is there (`outputs_logged`). -/
namespace Sessions
open Runs

variable {State Step Guest Output : Type*} {step : State → Step → Option State}
  {begun : Guest → List Output} {Whole : List Output → Prop}

/-- The part of a session that has been given out, if somebody is there. -/
def present (begun : Guest → List Output) : Option Guest → List Output
  | none => []
  | some g => begun g

/-- Whole sessions, and the one of the guest who is there as far as it has come. -/
def Logged (begun : Guest → List Output) (Whole : List Output → Prop) (here : Option Guest)
    (trace : List Output) : Prop :=
  ∃ sessions : List (List Output), (∀ session ∈ sessions, Whole session) ∧
    trace = sessions.flatten ++ present begun here

/-- How one step continues the sessions. -/
inductive Turn (begun : Guest → List Output) (Whole : List Output → Prop) :
    Option Guest → Option Guest → List Output → Prop
  | nobody : Turn begun Whole none none []
  | comes (g : Guest) : Turn begun Whole none (some g) (begun g)
  | stays {g g' : Guest} {given : List Output} (h : begun g' = begun g ++ given) :
      Turn begun Whole (some g) (some g') given
  | leaves {g : Guest} {given : List Output} (h : Whole (begun g ++ given)) :
      Turn begun Whole (some g) none given

theorem Turn.quiet (here : Option Guest) : Turn begun Whole here here [] := by
  cases here with
  | none => exact .nobody
  | some g => exact .stays (List.append_nil _).symm

theorem Logged.nil : Logged begun Whole none [] :=
  ⟨[], fun _ h => absurd h List.not_mem_nil, rfl⟩

theorem Logged.turn {here there : Option Guest} {trace given : List Output}
    (h : Logged begun Whole here trace) (hturn : Turn begun Whole here there given) :
    Logged begun Whole there (trace ++ given) := by
  obtain ⟨sessions, hwhole, rfl⟩ := h
  cases hturn with
  | nobody => exact ⟨sessions, hwhole, List.append_nil _⟩
  | comes g => exact ⟨sessions, hwhole, by rw [present, List.append_nil, present]⟩
  | stays hmore => exact ⟨sessions, hwhole, by rw [present, present, hmore, List.append_assoc]⟩
  | @leaves g _ hlast =>
    refine ⟨sessions ++ [begun g ++ given], fun session hmem => ?_, ?_⟩
    · obtain hmem | hmem := List.mem_append.mp hmem
      · exact hwhole session hmem
      · rw [List.mem_singleton.mp hmem]
        exact hlast
    · rw [present, present, List.flatten_concat, List.append_assoc, List.append_nil]

/-- **Every run is made of sessions.** -/
theorem outputs_logged {Inv : State → Prop} {here : State → Option Guest}
    {out : State → Step → List Output} {s₀ : State} (hinv : Inv s₀) (hnobody : here s₀ = none)
    (hturn : ∀ {s a s'}, Inv s → step s a = some s' →
      Inv s' ∧ Turn begun Whole (here s) (here s') (out s a))
    (steps : List Step) {s : State} (hrun : run step s₀ steps = some s) :
    Logged begun Whole (here s) (outputs step out s₀ steps) := by
  have hboth : Inv s ∧ Logged begun Whole (here s) (outputs step out s₀ steps) := by
    refine run_snoc_induction (P := fun steps s =>
      Inv s ∧ Logged begun Whole (here s) (outputs step out s₀ steps)) ⟨hinv, ?_⟩ ?_ steps hrun
    · rw [hnobody]
      exact Logged.nil
    · intro steps s a s' hrun ⟨hinv, hlogged⟩ htaken
      obtain ⟨hinv', hcontinues⟩ := hturn hinv htaken
      rw [outputs_snoc hrun htaken]
      exact ⟨hinv', hlogged.turn hcontinues⟩
  exact hboth.2

end Sessions
