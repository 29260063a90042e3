import NexusGateway.Lib.History
import Mathlib.Data.List.Destutter

/- What a run gives out, and the phases it goes through.

   `Follows` says of a list that without its repetitions it is made of some of the values
   given, in that order. A run whose steps give out nothing or one value follows a list of
   them when every state is in a phase, which allows that list, and every step leads to a
   phase that allows what is left of it (`outputs_follow`). -/
namespace Phases
open Runs

variable {α : Type*} [DecidableEq α]

/-! ## Lists without repetitions -/

/-- Without its repetitions, the list is made of some of `turns` in that order. -/
def Follows (turns l : List α) : Prop := (l.destutter (· ≠ ·)).Sublist turns

theorem Follows.nil (turns : List α) : Follows turns [] := List.nil_sublist turns

theorem Follows.weaken {turns turns' l : List α} (h : Follows turns l) (hle : turns.Sublist turns') :
    Follows turns' l :=
  List.Sublist.trans h hle

theorem destutter'_head (l : List α) : ∀ a : α, ∃ rest, l.destutter' (· ≠ ·) a = a :: rest := by
  induction l with
  | nil => exact fun a => ⟨[], rfl⟩
  | cons x l ih =>
    intro a
    by_cases hx : a = x
    · rw [List.destutter'_cons_neg _ (by simpa using hx)]
      exact ih a
    · exact ⟨_, List.destutter'_cons_pos _ hx⟩

theorem Follows.cons {b : α} {turns l : List α} (h : Follows (b :: turns) l) :
    Follows (b :: turns) (b :: l) := by
  unfold Follows at h ⊢
  cases l with
  | nil => exact List.singleton_sublist.mpr List.mem_cons_self
  | cons x l =>
    obtain ⟨rest, hrest⟩ := destutter'_head l x
    rw [List.destutter_cons', hrest] at h
    rw [List.destutter_cons_cons, hrest]
    split
    · rename_i hne
      cases h with
      | cons _ hskip => exact hskip.cons_cons b
      | cons_cons => exact absurd rfl hne
    · rename_i heq
      obtain rfl : b = x := by simpa using heq
      rw [hrest]
      exact h

/-! ## Runs -/

variable {State Step : Type*} {step : State → Step → Option State}

/-- A step gives out nothing and keeps the phase, or gives out a turn and leads to a phase
    that allows no more than the turns from there on. -/
def Advances (phase : List α → State → Prop) (given turns : List α) (s' : State) : Prop :=
  (given = [] ∧ phase turns s') ∨
    ∃ b rest turns', given = [b] ∧ (b :: rest).Sublist turns ∧ turns'.Sublist (b :: rest) ∧
      phase turns' s'

/-- **What a run gives out follows the turns of its phase.** -/
theorem outputs_follow {phase : List α → State → Prop} {out : State → Step → List α}
    (hadvances : ∀ {turns s a s'}, phase turns s → step s a = some s' →
      Advances phase (out s a) turns s') (steps : List Step) :
    ∀ {turns : List α} {s : State}, phase turns s → Follows turns (outputs step out s steps) := by
  induction steps with
  | nil => exact fun _ => Follows.nil _
  | cons a steps ih =>
    intro turns s hphase
    rw [outputs]
    cases htaken : step s a with
    | none => exact Follows.nil _
    | some s' =>
      obtain ⟨hnothing, hnext⟩ | ⟨b, rest, turns', hgiven, hturn, hrest, hnext⟩ :=
        hadvances hphase htaken
      · rw [hnothing]
        exact ih hnext
      · rw [hgiven]
        exact (((ih hnext).weaken hrest).cons).weaken hturn

end Phases
