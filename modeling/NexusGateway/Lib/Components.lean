import Mathlib.Data.List.Forall2

/- One component of a system, in the runs of the system.

   A system takes steps; some of them are events of a component, which puts something out
   at each. `ownRun` collects these events and outputs while the component is there. The
   component is described by itself: `outputs` is what it puts out, from its own content
   and its own events. `Alone` says that the system lets it be, and then `ownRun_outputs`:
   in every run of the system it puts out what it would alone. So two runs of a system, or
   of two, agree on it as soon as its events do (`ownRun_agree`). -/
namespace Components

variable {State Step Content Event Output : Type*}

/-! ## A component by itself -/

/-- What is put out at each event. -/
def outputs (f : Content → Event → Content × Output) : Content → List Event → List Output
  | _, [] => []
  | c, e :: es => (f c e).2 :: outputs f (f c e).1 es

/-- What one event keeps, all of them keep: contents that agree put out alike. -/
theorem outputs_agree {f : Content → Event → Content × Output} {Agree : Content → Content → Prop}
    {Same : Event → Event → Prop} {Alike : Output → Output → Prop}
    (hstep : ∀ {c c' e e'}, Agree c c' → Same e e' →
      Agree (f c e).1 (f c' e').1 ∧ Alike (f c e).2 (f c' e').2)
    {es es' : List Event} (hes : List.Forall₂ Same es es') :
    ∀ {c c' : Content}, Agree c c' → List.Forall₂ Alike (outputs f c es) (outputs f c' es') := by
  induction hes with
  | nil => exact fun _ => .nil
  | cons he _ ih =>
    intro c c' h
    obtain ⟨hnext, hout⟩ := hstep h he
    exact .cons hout (ih hnext)

/-! ## In a system -/

/-- The events of the component and what it puts out at them, while it is there. -/
def ownRun (step : State → Step → State) (here : State → Bool)
    (own : State → Step → Option (Event × Output)) : State → List Step → List (Event × Output)
  | _, [] => []
  | s, a :: steps =>
    if here s then (own s a).toList ++ ownRun step here own (step s a) steps else []

/-- The system changes the component at its own events only, and there as it would itself. -/
structure Alone (step : State → Step → State) (here : State → Bool)
    (own : State → Step → Option (Event × Output)) (f : Content → Event → Content × Output)
    (Holds : State → Content → Prop) : Prop where
  own_event : ∀ {s c a e o}, Holds s c → here s = true → own s a = some (e, o) →
    Holds (step s a) (f c e).1 ∧ o = (f c e).2
  other : ∀ {s c a}, Holds s c → here s = true → own s a = none → Holds (step s a) c

variable {step : State → Step → State} {here : State → Bool}
  {own : State → Step → Option (Event × Output)} {f : Content → Event → Content × Output}
  {Holds : State → Content → Prop}

/-- **In a run of the system the component puts out what it would alone.** -/
theorem ownRun_outputs (h : Alone step here own f Holds) (steps : List Step) :
    ∀ {s : State} {c : Content}, Holds s c →
      (ownRun step here own s steps).map Prod.snd =
        outputs f c ((ownRun step here own s steps).map Prod.fst) := by
  induction steps with
  | nil => exact fun _ => rfl
  | cons a steps ih =>
    intro s c hc
    rw [ownRun]
    split
    · rename_i hhere
      cases hown : own s a with
      | none => exact ih (h.other hc hhere hown)
      | some event =>
        obtain ⟨e, o⟩ := event
        obtain ⟨hnext, hout⟩ := h.own_event hc hhere hown
        calc ((e, o) :: ownRun step here own (step s a) steps).map Prod.snd
            = o :: outputs f (f c e).1 ((ownRun step here own (step s a) steps).map Prod.fst) :=
              congrArg (o :: ·) (ih hnext)
          _ = outputs f c (((e, o) :: ownRun step here own (step s a) steps).map Prod.fst) := by
              rw [hout]
              rfl
    · rfl

/-- **Two runs agree on the component** when they begin with contents that agree and its own
    events are the same in both. -/
theorem ownRun_agree (h : Alone step here own f Holds) {Agree : Content → Content → Prop}
    {Same : Event → Event → Prop} {Alike : Output → Output → Prop}
    (hstep : ∀ {c c' e e'}, Agree c c' → Same e e' →
      Agree (f c e).1 (f c' e').1 ∧ Alike (f c e).2 (f c' e').2)
    {s s' : State} {c c' : Content} (hc : Holds s c) (hc' : Holds s' c') (hagree : Agree c c')
    {steps steps' : List Step}
    (hown : List.Forall₂ Same ((ownRun step here own s steps).map Prod.fst)
      ((ownRun step here own s' steps').map Prod.fst)) :
    List.Forall₂ Alike ((ownRun step here own s steps).map Prod.snd)
      ((ownRun step here own s' steps').map Prod.snd) := by
  rw [ownRun_outputs h steps hc, ownRun_outputs h steps' hc']
  exact outputs_agree hstep hown hagree

end Components
