import Mathlib.Data.List.Basic

/- Order in a trace: no effect without a cause in front of it.

   A trace is the list of what was done, in order. `EachAfter` says that every element of
   one kind has one of another kind somewhere before it. -/
namespace Traces

variable {α : Type*} {cause effect : α → Prop}

/-- Every effect of the trace has a cause before it. -/
def EachAfter (cause effect : α → Prop) (trace : List α) : Prop :=
  ∀ before x after, trace = before ++ x :: after → effect x → ∃ a ∈ before, cause a

theorem eachAfter_of_none {trace : List α} (h : ∀ x ∈ trace, ¬ effect x) :
    EachAfter cause effect trace := by
  rintro before x after rfl hx
  exact absurd hx (h x (List.mem_append_right before List.mem_cons_self))

theorem eachAfter_cons {a : α} (hcause : cause a) (ha : ¬ effect a) (rest : List α) :
    EachAfter cause effect (a :: rest) := by
  intro before x after htrace hx
  cases before with
  | nil =>
    rw [(List.cons.inj htrace).1] at ha
    exact absurd hx ha
  | cons b before =>
    obtain ⟨rfl, _⟩ := List.cons.inj htrace
    exact ⟨a, List.mem_cons_self, hcause⟩

theorem EachAfter.after {quiet rest : List α} (h : EachAfter cause effect rest)
    (hquiet : ∀ x ∈ quiet, ¬ effect x) : EachAfter cause effect (quiet ++ rest) := by
  intro before x after htrace hx
  obtain ⟨mid, rfl, hrest⟩ | ⟨mid, hbefore, hmid⟩ := List.append_eq_append_iff.mp htrace
  · obtain ⟨a, ha, hcause⟩ := h mid x after hrest hx
    exact ⟨a, List.mem_append_right quiet ha, hcause⟩
  · cases mid with
    | nil =>
      obtain ⟨a, ha, _⟩ := h [] x after hmid.symm hx
      cases ha
    | cons y mid =>
      obtain ⟨rfl, _⟩ := List.cons.inj hmid
      have hin : x ∈ quiet := by
        rw [hbefore]
        exact List.mem_append_right before List.mem_cons_self
      exact absurd hx (hquiet x hin)

theorem eachAfter_append_iff {quiet rest : List α} (hcause : ∀ x ∈ quiet, ¬ cause x)
    (heffect : ∀ x ∈ quiet, ¬ effect x) :
    EachAfter cause effect (quiet ++ rest) ↔ EachAfter cause effect rest := by
  refine ⟨fun h before x after hrest hx => ?_, fun h => h.after heffect⟩
  obtain ⟨a, ha, ha'⟩ := h (quiet ++ before) x after (by rw [hrest, List.append_assoc]) hx
  obtain ha | ha := List.mem_append.mp ha
  · exact absurd ha' (hcause a ha)
  · exact ⟨a, ha, ha'⟩

theorem not_eachAfter {trace : List α} {x : α} (hmem : x ∈ trace) (hx : effect x)
    (hnone : ∀ a ∈ trace, ¬ cause a) : ¬ EachAfter cause effect trace := by
  intro h
  obtain ⟨before, after, rfl⟩ := List.append_of_mem hmem
  obtain ⟨a, ha, hcause⟩ := h before x after rfl hx
  exact hnone a (List.mem_append_left _ ha) hcause

end Traces
