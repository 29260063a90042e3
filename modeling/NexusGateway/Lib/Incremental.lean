import Mathlib.Data.List.Basic

/- Readers that take a stream in pieces.

   A `Reader` looks at a state and the text in front of it and either stops or
   makes a pass: it takes some of the text and goes to another state. `run`
   repeats passes until the reader stops. A driver that receives the stream in
   chunks runs the reader on what earlier runs left and the new chunk (`drive`).
   What is proved:

   1. `run` is the reader's own loop, without fuel (`run_none`, `run_some`), it never
      takes more than there is (`run_le`), and where it stops there is nothing to do
      (`step_rest`);
   2. an invariant kept by every pass is kept by a run (`run_inv`), and holds where
      each pass begins (`trace_inv`);
   3. if every pass can be resumed when more text arrives (`Resumable`), then
      driving a reader by chunks is one run on the whole text, however the text
      is cut (`drive_eq_run`);
   4. a loop that pays for each pass comes to its end on fuel for `rank` passes
      (`walk_enough`), and what every pass keeps holds at each of them (`walk_inv`). -/
namespace Incremental

/-- A resumable reader. `rank` bounds the passes still to come. -/
structure Reader (σ α : Type) where
  step : σ → List α → Option (σ × Nat)
  rank : σ → List α → Nat
  step_le : ∀ {s xs s' n}, step s xs = some (s', n) → n ≤ xs.length
  rank_lt : ∀ {s xs s' n}, step s xs = some (s', n) → rank s' (xs.drop n) < rank s xs

/-- What a run did: the state it ended in, how much it took, and its passes,
    each with the state it began in and the text it took. -/
structure Outcome (σ α : Type) where
  final : σ
  taken : Nat
  passes : List (σ × List α)

namespace Reader
variable {σ α : Type} (m : Reader σ α)

def exec : Nat → σ → List α → Outcome σ α
  | 0, s, _ => ⟨s, 0, []⟩
  | fuel + 1, s, xs =>
    match m.step s xs with
    | none => ⟨s, 0, []⟩
    | some (s', n) =>
      let r := exec fuel s' (xs.drop n)
      ⟨r.final, n + r.taken, (s, xs.take n) :: r.passes⟩

/-- Passes until the reader stops: the state there, and how much was taken. -/
def run (s : σ) (xs : List α) : σ × Nat :=
  ((m.exec (m.rank s xs) s xs).final, (m.exec (m.rank s xs) s xs).taken)

/-- The passes of a run. -/
def trace (s : σ) (xs : List α) : List (σ × List α) := (m.exec (m.rank s xs) s xs).passes

/-- A run for each chunk, on what the runs before left and the chunk. -/
def drive : σ → List α → List (List α) → σ × Nat
  | s, _, [] => (s, 0)
  | s, pending, c :: cs =>
    let r := m.run s (pending ++ c)
    let t := drive r.1 ((pending ++ c).drop r.2) cs
    (t.1, r.2 + t.2)

variable {m}

/-! ## The loop without its fuel -/

theorem exec_none {s : σ} {xs : List α} (h : m.step s xs = none) (fuel : Nat) :
    m.exec fuel s xs = ⟨s, 0, []⟩ := by
  cases fuel <;> simp [exec, h]

theorem exec_enough {fuel : Nat} {s : σ} {xs : List α} (h : m.rank s xs ≤ fuel) :
    m.exec fuel s xs = m.exec (m.rank s xs) s xs := by
  induction fuel using Nat.strongRecOn generalizing s xs with
  | ind fuel ih =>
    cases hs : m.step s xs with
    | none => rw [exec_none hs, exec_none hs]
    | some p =>
      obtain ⟨s', n⟩ := p
      have hlt := m.rank_lt hs
      obtain ⟨r, hr⟩ : ∃ r, m.rank s xs = r + 1 := ⟨m.rank s xs - 1, by omega⟩
      obtain ⟨f, rfl⟩ : ∃ f, fuel = f + 1 := ⟨fuel - 1, by omega⟩
      rw [hr]
      simp only [exec, hs]
      rw [ih f (by omega) (s := s') (by omega)]
      by_cases he : r < f + 1
      · rw [ih r he (s := s') (by omega)]
      · rw [show r = f by omega, ih f (by omega) (s := s') (by omega)]

theorem exec_some {s s' : σ} {xs : List α} {n : Nat} (h : m.step s xs = some (s', n)) :
    m.exec (m.rank s xs) s xs =
      ⟨(m.run s' (xs.drop n)).1, n + (m.run s' (xs.drop n)).2,
        (s, xs.take n) :: m.trace s' (xs.drop n)⟩ := by
  have hlt := m.rank_lt h
  obtain ⟨r, hr⟩ : ∃ r, m.rank s xs = r + 1 := ⟨m.rank s xs - 1, by omega⟩
  rw [hr]
  simp only [exec, h, run, trace]
  rw [exec_enough (s := s') (by omega)]

theorem run_none {s : σ} {xs : List α} (h : m.step s xs = none) : m.run s xs = (s, 0) := by
  simp only [run, exec_none h]

theorem run_some {s s' : σ} {xs : List α} {n : Nat} (h : m.step s xs = some (s', n)) :
    m.run s xs = ((m.run s' (xs.drop n)).1, n + (m.run s' (xs.drop n)).2) := by
  rw [run, exec_some h]

theorem trace_none {s : σ} {xs : List α} (h : m.step s xs = none) : m.trace s xs = [] := by
  simp only [trace, exec_none h]

theorem trace_some {s s' : σ} {xs : List α} {n : Nat} (h : m.step s xs = some (s', n)) :
    m.trace s xs = (s, xs.take n) :: m.trace s' (xs.drop n) := by
  rw [trace, exec_some h]

theorem run_induction {P : σ → List α → Prop}
    (stop : ∀ s xs, m.step s xs = none → P s xs)
    (pass : ∀ s xs s' n, m.step s xs = some (s', n) → P s' (xs.drop n) → P s xs)
    (s : σ) (xs : List α) : P s xs := by
  induction hr : m.rank s xs using Nat.strongRecOn generalizing s xs with
  | ind r ih =>
    subst hr
    cases hs : m.step s xs with
    | none => exact stop s xs hs
    | some p => exact pass s xs p.1 p.2 hs (ih _ (m.rank_lt hs) _ _ rfl)

theorem run_le (s : σ) (xs : List α) : (m.run s xs).2 ≤ xs.length := by
  induction s, xs using run_induction (m := m) with
  | stop s xs h => simp [run_none h]
  | pass s xs s' n h ih =>
    have := m.step_le h
    rw [run_some h]
    simp only [List.length_drop] at ih ⊢
    omega

theorem run_inv {I : σ → Prop} (hstep : ∀ s xs s' n, I s → m.step s xs = some (s', n) → I s')
    (s : σ) (xs : List α) (h : I s) : I (m.run s xs).1 := by
  induction s, xs using run_induction (m := m) with
  | stop s xs hn => rwa [run_none hn]
  | pass s xs s' n hs ih =>
    rw [run_some hs]
    exact ih (hstep s xs s' n h hs)

theorem step_rest (s : σ) (xs : List α) :
    m.step (m.run s xs).1 (xs.drop (m.run s xs).2) = none := by
  induction s, xs using run_induction (m := m) with
  | stop s xs h => simp [run_none h, h]
  | pass s xs s' n h ih =>
    rw [run_some h]
    simpa [List.drop_drop] using ih

/-! ## The passes -/

theorem trace_inv {I : σ → Prop} (hstep : ∀ s xs s' n, I s → m.step s xs = some (s', n) → I s')
    (s : σ) (xs : List α) (h : I s) : ∀ p ∈ m.trace s xs, I p.1 := by
  induction s, xs using run_induction (m := m) with
  | stop s xs hn => simp [trace_none hn]
  | pass s xs s' n hs ih =>
    intro p hp
    rw [trace_some hs, List.mem_cons] at hp
    rcases hp with rfl | hp
    · exact h
    · exact ih (hstep s xs s' n h hs) p hp

/-! ## Chunks -/

/-- A pass made on a text can be resumed: with more text behind, the run from
    the start is the pass and a run from where it ended. -/
def Resumable (m : Reader σ α) (I : σ → Prop) : Prop :=
  ∀ s xs ys s' n, I s → m.step s xs = some (s', n) →
    m.run s (xs ++ ys) =
      ((m.run s' (xs.drop n ++ ys)).1, n + (m.run s' (xs.drop n ++ ys)).2)

theorem resume_of_stable {s s' : σ} {xs : List α} {n : Nat} (h : m.step s xs = some (s', n))
    (ys : List α) (hs : m.step s (xs ++ ys) = some (s', n)) :
    m.run s (xs ++ ys) =
      ((m.run s' (xs.drop n ++ ys)).1, n + (m.run s' (xs.drop n ++ ys)).2) := by
  rw [run_some hs, List.drop_append_of_le_length (m.step_le h)]

theorem run_append {I : σ → Prop} (hm : m.Resumable I)
    (hstep : ∀ s xs s' n, I s → m.step s xs = some (s', n) → I s')
    (s : σ) (xs ys : List α) (h : I s) :
    m.run s (xs ++ ys) =
      ((m.run (m.run s xs).1 (xs.drop (m.run s xs).2 ++ ys)).1,
        (m.run s xs).2 + (m.run (m.run s xs).1 (xs.drop (m.run s xs).2 ++ ys)).2) := by
  induction s, xs using run_induction (m := m) with
  | stop s xs hn => simp [run_none hn]
  | pass s xs s' n hs ih =>
    rw [hm s xs ys s' n h hs, ih (hstep s xs s' n h hs), run_some hs]
    simp only [List.drop_drop, Nat.add_assoc]

/-- **Driving by chunks is one run on the whole text**, from a text already read out. -/
theorem drive_eq_run {I : σ → Prop} (hm : m.Resumable I)
    (hstep : ∀ s xs s' n, I s → m.step s xs = some (s', n) → I s')
    (cs : List (List α)) : ∀ (s : σ) (pending : List α), I s → m.step s pending = none →
    m.drive s pending cs = m.run s (pending ++ cs.flatten) := by
  induction cs with
  | nil => intro s pending _ hn; simp [drive, run_none hn]
  | cons c cs ih =>
    intro s pending h _
    have hr := run_append hm hstep s (pending ++ c) cs.flatten h
    simp only [drive, List.flatten_cons]
    rw [ih _ _ (run_inv hstep s _ h) (step_rest s _), ← List.append_assoc, hr]

/-! ## Passes that are paid for -/

/-- What a loop did that came to its end: the state there, how much it took, and the state and
    the text in front of it at each pass. -/
structure Walk (σ α : Type) where
  final : σ
  taken : Nat
  visits : List (σ × List α)

/-- The loop itself, a unit of fuel for each pass; no result if it needs more. -/
def walk (m : Reader σ α) : Nat → σ → List α → Option (Walk σ α)
  | 0, s, xs => if (m.step s xs).isNone then some ⟨s, 0, []⟩ else none
  | fuel + 1, s, xs =>
    match m.step s xs with
    | none => some ⟨s, 0, []⟩
    | some (s', n) =>
      (m.walk fuel s' (xs.drop n)).map fun w => ⟨w.final, n + w.taken, (s, xs) :: w.visits⟩

theorem walk_none {s : σ} {xs : List α} (h : m.step s xs = none) (fuel : Nat) :
    m.walk fuel s xs = some ⟨s, 0, []⟩ := by
  cases fuel <;> simp [walk, h]

theorem walk_some {s s' : σ} {xs : List α} {n fuel : Nat} {w : Walk σ α}
    (h : m.step s xs = some (s', n)) (hw : m.walk fuel s xs = some w) :
    ∃ f later, fuel = f + 1 ∧ m.walk f s' (xs.drop n) = some later ∧
      w = ⟨later.final, n + later.taken, (s, xs) :: later.visits⟩ := by
  cases fuel with
  | zero => simp [walk, h] at hw
  | succ f =>
    simp only [walk, h, Option.map_eq_some_iff] at hw
    obtain ⟨later, hlater, rfl⟩ := hw
    exact ⟨f, later, rfl, hlater, rfl⟩

/-- **Enough fuel**: the loop comes to its end in at most `rank` passes, and did what the run
    does. -/
theorem walk_enough (fuel : Nat) : ∀ {s : σ} {xs : List α}, m.rank s xs ≤ fuel →
    ∃ w, m.walk fuel s xs = some w ∧ (w.final, w.taken) = m.run s xs ∧
      w.visits.length ≤ m.rank s xs := by
  induction fuel using Nat.strongRecOn with
  | ind fuel ih =>
    intro s xs h
    cases hs : m.step s xs with
    | none => exact ⟨_, walk_none hs fuel, (run_none hs).symm, Nat.zero_le _⟩
    | some p =>
      obtain ⟨s', n⟩ := p
      have hlt := m.rank_lt hs
      obtain ⟨f, rfl⟩ : ∃ f, fuel = f + 1 := ⟨fuel - 1, by omega⟩
      have hless : m.rank s' (xs.drop n) ≤ f := by omega
      obtain ⟨w, hw, hrun, hvisits⟩ := ih f (Nat.lt_succ_self f) hless
      refine ⟨⟨w.final, n + w.taken, (s, xs) :: w.visits⟩, by simp [walk, hs, hw], ?_, ?_⟩
      · rw [run_some hs, ← hrun]
      · rw [List.length_cons]
        omega

theorem walk_inv {I : σ → List α → Prop}
    (hstep : ∀ s xs s' n, I s xs → m.step s xs = some (s', n) → I s' (xs.drop n)) (fuel : Nat) :
    ∀ {s : σ} {xs : List α} {w : Walk σ α}, I s xs → m.walk fuel s xs = some w →
      ∀ v ∈ w.visits, I v.1 v.2 := by
  induction fuel using Nat.strongRecOn with
  | ind fuel ih =>
    intro s xs w h hw
    cases hs : m.step s xs with
    | none =>
      rw [walk_none hs] at hw
      cases hw
      simp
    | some p =>
      obtain ⟨f, later, rfl, hlater, rfl⟩ := walk_some hs hw
      intro v hv
      obtain rfl | hv := List.mem_cons.mp hv
      · exact h
      · exact ih f (Nat.lt_succ_self f) (hstep s xs p.1 p.2 h hs) hlater v hv

end Reader

end Incremental
