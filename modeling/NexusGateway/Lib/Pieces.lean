import Mathlib.Data.List.Nodup
import Mathlib.Data.List.Infix

/- A stream cut into pieces, of each of which the front is kept and the rest dropped.

   What is kept of all of them is a prefix of the stream exactly when nothing is dropped
   in front of something kept (`kept_prefix_iff`). The items of the stream are taken to
   be distinct, as they are when each carries its place. -/
namespace Pieces

variable {α : Type*}

/-- What is kept of the pieces. -/
def kept (ps : List (List α × List α)) : List α := ps.flatMap Prod.fst

/-- The pieces, as they stand in the stream. -/
def whole (ps : List (List α × List α)) : List α := ps.flatMap (fun p => p.1 ++ p.2)

/-- Nothing is dropped in front of something kept. -/
def NoneDropped : List (List α × List α) → Prop
  | [] => True
  | p :: ps => (p.2 = [] ∨ kept ps = []) ∧ NoneDropped ps

instance NoneDropped.decidable [DecidableEq α] :
    DecidablePred (NoneDropped : List (List α × List α) → Prop)
  | [] => isTrue trivial
  | p :: ps =>
    have := NoneDropped.decidable ps
    inferInstanceAs (Decidable ((p.2 = [] ∨ kept ps = []) ∧ NoneDropped ps))

theorem kept_sublist (ps : List (List α × List α)) : (kept ps).Sublist (whole ps) := by
  induction ps with
  | nil => exact List.Sublist.refl _
  | cons p ps ih =>
    show (p.1 ++ kept ps).Sublist (p.1 ++ p.2 ++ whole ps)
    exact (List.sublist_append_left p.1 p.2).append ih

theorem kept_subset (ps : List (List α × List α)) : kept ps ⊆ whole ps := by
  intro x hx
  obtain ⟨p, hp, hxp⟩ := List.mem_flatMap.mp hx
  exact List.mem_flatMap.mpr ⟨p, hp, List.mem_append_left _ hxp⟩

theorem noneDropped_of_kept_nil {ps : List (List α × List α)} (h : kept ps = []) :
    NoneDropped ps := by
  induction ps with
  | nil => trivial
  | cons p ps ih =>
    have hrest : kept ps = [] := (List.append_eq_nil_iff.mp h).2
    exact ⟨.inr hrest, ih hrest⟩

theorem kept_prefix_after_dropped {dropped rest : List α} {ps : List (List α × List α)}
    (hne : dropped ≠ []) (hnodup : (dropped ++ (whole ps ++ rest)).Nodup) :
    kept ps <+: dropped ++ (whole ps ++ rest) ↔ kept ps = [] := by
  constructor
  · intro hprefix
    by_contra hkept
    obtain ⟨x, xs, hxs⟩ := List.exists_cons_of_ne_nil hkept
    obtain ⟨d, ds, rfl⟩ := List.exists_cons_of_ne_nil hne
    rw [hxs, List.cons_append, List.cons_prefix_cons] at hprefix
    -- the first item kept stands behind the first one dropped, so it is not the same
    have hx : x ∈ whole ps := kept_subset ps (by rw [hxs]; exact List.mem_cons_self)
    apply (List.nodup_append.mp hnodup).2.2 d List.mem_cons_self x (List.mem_append_left _ hx)
    exact hprefix.1.symm
  · intro hkept
    rw [hkept]
    exact List.nil_prefix

/-- **What is kept is a prefix** exactly when nothing is dropped in front of it. -/
theorem kept_prefix_iff {ps : List (List α × List α)} {rest : List α}
    (hnodup : (whole ps ++ rest).Nodup) : kept ps <+: whole ps ++ rest ↔ NoneDropped ps := by
  induction ps with
  | nil => exact ⟨fun _ => trivial, fun _ => List.nil_prefix⟩
  | cons p ps ih =>
    have hwhole : whole (p :: ps) ++ rest = p.1 ++ (p.2 ++ (whole ps ++ rest)) := by
      simp [whole, List.append_assoc]
    rw [hwhole] at hnodup ⊢
    have hlater : (p.2 ++ (whole ps ++ rest)).Nodup := hnodup.of_append_right
    have hih := ih hlater.of_append_right
    show p.1 ++ kept ps <+: _ ↔ _
    rw [List.prefix_append_right_inj]
    by_cases hdropped : p.2 = []
    · rw [hdropped, List.nil_append, hih]
      exact ⟨fun h => ⟨.inl hdropped, h⟩, fun h => h.2⟩
    · rw [kept_prefix_after_dropped hdropped hlater]
      exact ⟨fun h => ⟨.inr h, noneDropped_of_kept_nil h⟩, fun h => h.1.resolve_left hdropped⟩

end Pieces
