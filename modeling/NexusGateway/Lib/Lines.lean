import Mathlib.Data.List.Basic
import Mathlib.Data.List.Count
import Mathlib.Algebra.Order.BigOperators.Group.List
import Mathlib.Algebra.Order.Ring.Nat

/- Text cut into lines, by two readers of the line end.

   A strict reader ends a line at a `cr` followed by an `lf` and nowhere else
   (`findEol`, `lines`). A lenient reader ends a line at every `lf` and drops one
   `cr` in front of it (`lfLines`). What is proved:

   1. a line with no `cr lf` in it is what a strict reader gives back of it,
      whatever follows its end (`findEol_line`, `lines_line`);
   2. a first line end stays the first when more text arrives (`findEol_append`);
   3. the two readers agree on a text written as strict lines if and only if no
      line has an `lf` in it (`lfLines_eq_lines_iff`).

   `endedLines` cuts a text behind every `lf` and nowhere else, and drops nothing. -/
namespace Lines

section Text
variable {α : Type}

/-- Put a symbol in front of the first line, if there is one. -/
def consFirst (a : α) : List (List α) → List (List α)
  | [] => []
  | l :: ls => (a :: l) :: ls

theorem consFirst_length (a : α) (ls : List (List α)) : (consFirst a ls).length = ls.length := by
  cases ls <;> rfl

/-- Lines written out, each with its end. -/
def unlines (cr lf : α) (ls : List (List α)) : List α := ls.flatMap (fun l => l ++ [cr, lf])

variable {cr lf : α}

theorem unlines_length_le {ls : List (List α)} {b : Nat} (h : ∀ l ∈ ls, l.length ≤ b) :
    (unlines cr lf ls).length ≤ ls.length * (b + 2) := by
  induction ls with
  | nil => simp [unlines]
  | cons l ls ih =>
    have hl := h l (by simp)
    have ih := ih (fun m hm => h m (by simp [hm]))
    simp only [unlines, List.flatMap_cons, List.length_append, List.length_cons, List.length_nil,
      Nat.add_mul] at ih ⊢
    omega

@[simp] theorem unlines_nil : unlines cr lf [] = [] := rfl

@[simp] theorem unlines_cons (l : List α) (ls : List (List α)) :
    unlines cr lf (l :: ls) = l ++ cr :: lf :: unlines cr lf ls := by
  simp [unlines]

@[simp] theorem unlines_append (ls ms : List (List α)) :
    unlines cr lf (ls ++ ms) = unlines cr lf ls ++ unlines cr lf ms := by
  simp [unlines]

end Text

variable {α : Type} [DecidableEq α] (cr lf : α)

/-- The offset of the first `cr lf`. -/
def findEol : List α → Option Nat
  | a :: b :: t => if a = cr ∧ b = lf then some 0 else (findEol (b :: t)).map (· + 1)
  | _ => none

/-- The lines a strict reader finds, without their ends; a tail that no
    `cr lf` ends is not a line. -/
def lines : List α → List (List α)
  | a :: b :: t => if a = cr ∧ b = lf then [] :: lines t else consFirst a (lines (b :: t))
  | _ => []

/-- The lines a lenient reader finds. -/
def lfLines : List α → List (List α)
  | [] => []
  | a :: t =>
    if a = lf then [] :: lfLines t
    else if a = cr ∧ t.head? = some lf then lfLines t
    else consFirst a (lfLines t)

/-- No `cr lf` inside. -/
def Unbroken (l : List α) : Prop := findEol cr lf l = none

instance (l : List α) : Decidable (Unbroken cr lf l) := inferInstanceAs (Decidable (_ = _))

variable {cr lf}

/-! ## The first line end -/

theorem findEol_cons (a : α) (t : List α) :
    findEol cr lf (a :: t) =
      if a = cr ∧ t.head? = some lf then some 0 else (findEol cr lf t).map (· + 1) := by
  cases t with
  | nil => simp [findEol]
  | cons b t => simp [findEol]

theorem findEol_some {xs : List α} {k : Nat} (h : findEol cr lf xs = some k) :
    xs = xs.take k ++ cr :: lf :: xs.drop (k + 2) ∧ Unbroken cr lf (xs.take k) := by
  induction xs generalizing k with
  | nil => simp [findEol] at h
  | cons a t ih =>
    rw [findEol_cons] at h
    by_cases hc : a = cr ∧ t.head? = some lf
    · rw [if_pos hc] at h
      obtain ⟨rfl, ht⟩ := hc
      cases h
      cases t with
      | nil => simp at ht
      | cons b t =>
        simp at ht
        subst ht
        simp [Unbroken, findEol]
    · rw [if_neg hc] at h
      obtain ⟨j, hj, rfl⟩ := Option.map_eq_some_iff.mp h
      obtain ⟨h1, h2⟩ := ih hj
      refine ⟨?_, ?_⟩
      · conv => lhs; rw [h1]
        simp [Nat.add_right_comm j 1 2]
      · unfold Unbroken at h2 ⊢
        rw [List.take_succ_cons, findEol_cons, h2, if_neg, Option.map_none]
        intro hyp
        obtain ⟨ha, hh⟩ := hyp
        rw [List.head?_take] at hh
        split at hh
        · cases hh
        · exact hc ⟨ha, hh⟩

theorem findEol_le {xs : List α} {k : Nat} (h : findEol cr lf xs = some k) :
    k + 2 ≤ xs.length := by
  have h1 := congrArg List.length (findEol_some h).1
  simp only [List.length_append, List.length_take, List.length_cons, List.length_drop] at h1
  omega

theorem findEol_append {xs : List α} {k : Nat} (h : findEol cr lf xs = some k) (ys : List α) :
    findEol cr lf (xs ++ ys) = some k := by
  induction xs generalizing k with
  | nil => simp [findEol] at h
  | cons a t ih =>
    rw [findEol_cons] at h
    rw [List.cons_append, findEol_cons]
    by_cases hc : a = cr ∧ t.head? = some lf
    · rw [if_pos hc] at h
      have : (t ++ ys).head? = some lf := by rw [List.head?_append, hc.2]; rfl
      rw [if_pos ⟨hc.1, this⟩, h]
    · rw [if_neg hc] at h
      obtain ⟨j, hj, rfl⟩ := Option.map_eq_some_iff.mp h
      have ht : t ≠ [] := by rintro rfl; simp [findEol] at hj
      have hh : (t ++ ys).head? = t.head? := by
        cases t with
        | nil => exact absurd rfl ht
        | cons b t => rfl
      rw [hh, if_neg hc, ih hj, Option.map_some]

theorem findEol_line (hne : cr ≠ lf) {l : List α} (h : Unbroken cr lf l) (r : List α) :
    findEol cr lf (l ++ cr :: lf :: r) = some l.length := by
  induction l with
  | nil => simp [findEol]
  | cons a t ih =>
    unfold Unbroken at h
    rw [findEol_cons] at h
    by_cases hc : a = cr ∧ t.head? = some lf
    · rw [if_pos hc] at h
      cases h
    · rw [if_neg hc, Option.map_eq_none_iff] at h
      rw [List.cons_append, findEol_cons, if_neg, ih h]
      · simp
      · intro hyp
        obtain ⟨ha, hh⟩ := hyp
        cases t with
        | nil => simp at hh; exact hne hh
        | cons b t => exact hc ⟨ha, by simpa using hh⟩

theorem line_unique (hne : cr ≠ lf) {l m : List α} (hl : Unbroken cr lf l)
    (hm : Unbroken cr lf m) {s t : List α} (h : l ++ cr :: lf :: s = m ++ cr :: lf :: t) :
    l = m ∧ s = t := by
  have hlen : l.length = m.length := by
    have h1 := findEol_line hne hl s
    rw [h, findEol_line hne hm t] at h1
    exact (Option.some.inj h1).symm
  obtain ⟨h1, h2⟩ := List.append_inj h hlen
  injection h2 with _ h2
  injection h2 with _ h2
  exact ⟨h1, h2⟩

theorem Unbroken.of_append_left {a b : List α} (h : Unbroken cr lf (a ++ b)) :
    Unbroken cr lf a := by
  cases ha : findEol cr lf a with
  | none => exact ha
  | some k =>
    unfold Unbroken at h
    rw [findEol_append ha b] at h
    cases h

theorem Unbroken.of_append_right {a b : List α} (h : Unbroken cr lf (a ++ b)) :
    Unbroken cr lf b := by
  induction a with
  | nil => exact h
  | cons x a ih =>
    unfold Unbroken at h
    rw [List.cons_append, findEol_cons] at h
    split at h
    · cases h
    · exact ih (Option.map_eq_none_iff.mp h)

/-- Two unbroken texts stay unbroken side by side unless the second begins with `lf`. -/
theorem Unbroken.append {a b : List α} (ha : Unbroken cr lf a) (hb : Unbroken cr lf b)
    (hh : b.head? ≠ some lf) : Unbroken cr lf (a ++ b) := by
  induction a with
  | nil => exact hb
  | cons x a ih =>
    unfold Unbroken at ha ⊢
    rw [findEol_cons] at ha
    rw [List.cons_append, findEol_cons]
    split at ha
    · cases ha
    · rename_i hc
      rw [if_neg, Option.map_eq_none_iff]
      · exact ih (Option.map_eq_none_iff.mp ha)
      · intro hyp
        obtain ⟨hx, hd⟩ := hyp
        cases a with
        | nil => exact hh hd
        | cons y a => exact hc ⟨hx, by simpa using hd⟩

theorem Unbroken.cons {a : α} (ha : a ≠ cr) {t : List α} (h : Unbroken cr lf t) :
    Unbroken cr lf (a :: t) := by
  unfold Unbroken at h ⊢
  rw [findEol_cons, if_neg (fun hc => ha hc.1), h, Option.map_none]

/-- A change of symbols that leaves `cr` and `lf` alone leaves the line ends. -/
theorem findEol_map {f : α → α} (hcr : ∀ a, f a = cr ↔ a = cr) (hlf : ∀ a, f a = lf ↔ a = lf)
    (xs : List α) : findEol cr lf (xs.map f) = findEol cr lf xs := by
  induction xs with
  | nil => rfl
  | cons a t ih =>
    have hhead : (t.map f).head? = some lf ↔ t.head? = some lf := by
      cases t with
      | nil => simp
      | cons b t => simp [hlf]
    rw [List.map_cons, findEol_cons, findEol_cons, ih]
    simp only [hcr, hhead]

/-- A text without `lf` is unbroken. -/
theorem Unbroken.of_not_mem {l : List α} (h : lf ∉ l) : Unbroken cr lf l := by
  cases hl : findEol cr lf l with
  | none => exact hl
  | some k =>
    have := (findEol_some hl).1
    exact absurd (this ▸ by simp) h

/-! ## Lines of a text -/

theorem lines_eq (xs : List α) :
    lines cr lf xs = match findEol cr lf xs with
      | none => []
      | some k => xs.take k :: lines cr lf (xs.drop (k + 2)) := by
  fun_induction lines cr lf xs with
  | case1 a b t hc => simp [findEol, hc]
  | case2 a b t hc ih =>
    rw [ih, findEol, if_neg hc]
    cases findEol cr lf (b :: t) with
    | none => rfl
    | some k => simp [consFirst]
  | case3 xs h =>
    match xs, h with
    | [], _ => simp [findEol]
    | [_], _ => simp [findEol]
    | a :: b :: t, h => exact absurd rfl (h a b t)

theorem lines_line (hne : cr ≠ lf) {l : List α} (h : Unbroken cr lf l) (r : List α) :
    lines cr lf (l ++ cr :: lf :: r) = l :: lines cr lf r := by
  rw [lines_eq, findEol_line hne h]
  simp

theorem lines_unlines (hne : cr ≠ lf) {ls : List (List α)} (h : ∀ l ∈ ls, Unbroken cr lf l) :
    lines cr lf (unlines cr lf ls) = ls := by
  induction ls with
  | nil => simp [lines]
  | cons l ls ih =>
    rw [unlines_cons, lines_line hne (h l (by simp)), ih (fun m hm => h m (by simp [hm]))]

/-! ## The lenient reader -/

/-- A lenient reader finds one line for every `lf`. -/
theorem lfLines_length (hne : cr ≠ lf) (xs : List α) :
    (lfLines cr lf xs).length = xs.count lf := by
  induction xs with
  | nil => rfl
  | cons a t ih =>
    rw [lfLines]
    by_cases ha : a = lf
    · subst ha
      simp [ih]
    · rw [if_neg ha, List.count_cons_of_ne ha]
      split
      · exact ih
      · rw [consFirst_length, ih]

/-- A line without `lf` reads the same under both readers. -/
theorem lfLines_line (hne : cr ≠ lf) {l : List α} (h : lf ∉ l) (r : List α) :
    lfLines cr lf (l ++ cr :: lf :: r) = l :: lfLines cr lf r := by
  induction l with
  | nil => simp [lfLines, hne]
  | cons a t ih =>
    simp only [List.mem_cons, not_or] at h
    have ha : ¬ a = lf := fun e => h.1 e.symm
    rw [List.cons_append, lfLines, if_neg ha, if_neg, ih h.2]
    · rfl
    · intro hyp
      obtain ⟨_, hd⟩ := hyp
      cases t with
      | nil => simp at hd; exact hne hd
      | cons b t =>
        simp at hd
        exact h.2 (by simp [hd])

theorem lfLines_unlines (hne : cr ≠ lf) {ls : List (List α)} (h : ∀ l ∈ ls, lf ∉ l) :
    lfLines cr lf (unlines cr lf ls) = ls := by
  induction ls with
  | nil => rfl
  | cons l ls ih =>
    rw [unlines_cons, lfLines_line hne (h l (by simp)), ih (fun m hm => h m (by simp [hm]))]

theorem count_unlines (hne : cr ≠ lf) (ls : List (List α)) :
    (unlines cr lf ls).count lf = ls.length + (ls.map (List.count lf)).sum := by
  induction ls with
  | nil => rfl
  | cons l ls ih =>
    simp only [unlines_cons, List.count_append, List.count_cons_of_ne hne, List.count_cons_self,
      ih, List.length_cons, List.map_cons, List.sum_cons]
    omega

/-- **The two readers agree on strict lines exactly when no line has an `lf`.** -/
theorem lfLines_eq_lines_iff (hne : cr ≠ lf) {ls : List (List α)}
    (h : ∀ l ∈ ls, Unbroken cr lf l) :
    lfLines cr lf (unlines cr lf ls) = lines cr lf (unlines cr lf ls) ↔ ∀ l ∈ ls, lf ∉ l := by
  rw [lines_unlines hne h]
  refine ⟨fun he l hl => ?_, lfLines_unlines hne⟩
  have hlen := congrArg List.length he
  rw [lfLines_length hne, count_unlines hne] at hlen
  have hle : l.count lf ≤ (ls.map (List.count lf)).sum :=
    List.le_sum_of_mem (List.mem_map_of_mem hl)
  exact List.count_eq_zero.mp (by omega)

/-! ## Lines with their ends -/

/-- The lines of a text, each with its `lf`, but the last, which may have none. -/
def endedLines (lf : α) : List α → List (List α)
  | [] => []
  | a :: t =>
    if a = lf then [a] :: endedLines lf t
    else
      match endedLines lf t with
      | [] => [[a]]
      | l :: ls => (a :: l) :: ls

theorem endedLines_line {l : List α} (h : lf ∉ l) (r : List α) :
    endedLines lf (l ++ lf :: r) = (l ++ [lf]) :: endedLines lf r := by
  induction l with
  | nil => simp [endedLines]
  | cons a t ih =>
    simp only [List.mem_cons, not_or] at h
    rw [List.cons_append, endedLines, if_neg (fun e => h.1 e.symm), ih h.2]
    rfl

/-- A text without an `lf` is one line. -/
theorem endedLines_last {l : List α} (h : lf ∉ l) (hne : l ≠ []) : endedLines lf l = [l] := by
  induction l with
  | nil => exact absurd rfl hne
  | cons a t ih =>
    simp only [List.mem_cons, not_or] at h
    rw [endedLines, if_neg (fun e => h.1 e.symm)]
    cases t with
    | nil => rfl
    | cons b t => rw [ih h.2 (by simp)]

/-- A text is built line by line. What holds of no text, of a last line, and of every
    line in front of a text of which it holds, holds of every text. -/
theorem endedLines_induction {P : List α → Prop} (lf : α) (hnil : P [])
    (hlast : ∀ l, lf ∉ l → l ≠ [] → P l) (hline : ∀ l r, lf ∉ l → P r → P (l ++ lf :: r))
    (text : List α) : P text := by
  induction hn : text.length using Nat.strong_induction_on generalizing text with
  | _ n ih =>
    by_cases hmem : lf ∈ text
    · obtain ⟨l, r, rfl, hl⟩ := List.eq_append_cons_of_mem hmem
      refine hline l r hl (ih r.length ?_ r rfl)
      rw [← hn, List.length_append, List.length_cons]
      omega
    · by_cases hne : text = []
      · rw [hne]
        exact hnil
      · exact hlast text hmem hne

/-- A line has its `lf` at its end only. -/
theorem mem_endedLines {text l : List α} (h : l ∈ endedLines lf text) :
    ∃ body, lf ∉ body ∧ (l = body ++ [lf] ∨ l = body ∧ body ≠ []) := by
  induction text using endedLines_induction lf with
  | hnil => cases h
  | hlast m hm hne =>
    rw [endedLines_last hm hne, List.mem_singleton] at h
    exact ⟨m, hm, .inr ⟨h, hne⟩⟩
  | hline m r hm ih =>
    rw [endedLines_line hm] at h
    obtain rfl | h := List.mem_cons.mp h
    · exact ⟨m, hm, .inl rfl⟩
    · exact ih h

end Lines
