import Mathlib.Data.List.Infix
import Mathlib.Data.List.Basic

/- Path names and their lexical normal form: the components between separators, without
   those that are empty or a single dot, each pair of dots having taken back the component
   in front of it.

   What is behind a separator leads below what is in front of it, unless a pair of dots
   stands there (`normalForm_append_below`). -/
namespace Paths

variable {α : Type} [DecidableEq α]

/-- A normal form: whether it starts at the top, and the components. -/
structure NormalForm (α : Type) where
  absolute : Bool
  names : List (List α)
  deriving DecidableEq, Repr

/-- The components so far, after one more. -/
def enter (dot : α) (absolute : Bool) (above : List (List α)) (c : List α) : List (List α) :=
  if c = [] ∨ c = [dot] then above
  else if c = [dot, dot] then
    if above = [] then if absolute then [] else [c] -- there is nothing above the top
    else if above.getLast? = some [dot, dot] then above ++ [c]
    else above.dropLast
  else above ++ [c]

/-- The lexical normal form of a path name. -/
def normalForm (sep dot : α) (path : List α) : NormalForm α :=
  let absolute := path.head? == some sep
  ⟨absolute, (path.splitOn sep).foldl (enter dot absolute) []⟩

/-- At or below another path. -/
def NormalForm.Below (a b : NormalForm α) : Prop := a.absolute = b.absolute ∧ b.names <+: a.names

instance (a b : NormalForm α) : Decidable (a.Below b) := inferInstanceAs (Decidable (_ ∧ _))

/-- `/a/./b//../c` is `/a/c`, and `a/../../b` is `../b`. -/
example : normalForm '/' '.' ['/', 'a', '/', '.', '/', 'b', '/', '/', '.', '.', '/', 'c'] =
      ⟨true, [['a'], ['c']]⟩ ∧
    normalForm '/' '.' ['a', '/', '.', '.', '/', '.', '.', '/', 'b'] =
      ⟨false, [['.', '.'], ['b']]⟩ := by
  decide +kernel

theorem infix_of_mem_splitOn {sep : α} {path c : List α} (h : c ∈ path.splitOn sep) : c <:+: path := by
  induction path generalizing c with
  | nil =>
    rw [List.splitOn_nil, List.mem_singleton] at h
    rw [h]
  | cons a path ih =>
    have hhead : (path.splitOn sep).head (List.splitOn_ne_nil sep path) <+: path := by
      clear ih h
      induction path with
      | nil => exact List.nil_prefix
      | cons b path ih =>
        simp only [List.splitOn_cons_eq_if_modifyHead]
        split
        · exact List.nil_prefix
        · rw [List.head_modifyHead]
          exact (List.prefix_cons_inj b).mpr ih
    rw [List.splitOn_cons_eq_if_modifyHead] at h
    split at h
    · obtain rfl | h := List.mem_cons.mp h
      · exact List.nil_infix
      · exact (ih h).trans (List.suffix_cons a path).isInfix
    · obtain ⟨first, rest, hsplit⟩ := List.exists_cons_of_ne_nil (List.splitOn_ne_nil sep path)
      simp only [hsplit, List.head_cons] at hhead
      rw [hsplit, List.modifyHead_cons] at h
      obtain rfl | h := List.mem_cons.mp h
      · exact ((List.prefix_cons_inj a).mpr hhead).isInfix
      · refine (ih ?_).trans (List.suffix_cons a path).isInfix
        rw [hsplit]
        exact List.mem_cons_of_mem first h

theorem prefix_foldl_enter {dot : α} {absolute : Bool} (cs : List (List α))
    (h : [dot, dot] ∉ cs) : ∀ above : List (List α), above <+: cs.foldl (enter dot absolute) above := by
  induction cs with
  | nil => exact fun above => List.prefix_refl above
  | cons c cs ih =>
    intro above
    rw [List.mem_cons, not_or] at h
    refine List.IsPrefix.trans ?_ (ih h.2 _)
    unfold enter
    split
    · exact List.prefix_refl above
    · rw [if_neg (Ne.symm h.1)]
      exact List.prefix_append above [c]

/-- **What is behind a separator leads below what is in front of it**, if no pair of dots
    stands there. -/
theorem normalForm_append_below {sep dot : α} {root rest : List α} (hroot : root ≠ [])
    (h : ¬ [dot, dot] <:+: rest) :
    (normalForm sep dot (root ++ sep :: rest)).Below (normalForm sep dot root) := by
  have hhead : (root ++ sep :: rest).head? = root.head? := by
    cases root with
    | nil => exact absurd rfl hroot
    | cons a root => rfl
  have hsplit : (root ++ sep :: rest).splitOn sep = root.splitOn sep ++ rest.splitOn sep := by
    rw [List.splitOn_eq_splitOnP]
    exact List.splitOnP_append_cons root rest (beq_self_eq_true sep)
  refine ⟨?_, ?_⟩
  · show ((root ++ sep :: rest).head? == some sep) = (root.head? == some sep)
    rw [hhead]
  · show (normalForm sep dot root).names <+: (normalForm sep dot (root ++ sep :: rest)).names
    unfold normalForm
    dsimp only
    rw [hhead, hsplit, List.foldl_append]
    exact prefix_foldl_enter _ (fun hm => h (infix_of_mem_splitOn hm)) _

end Paths
