import Mathlib.Data.List.Count

/- Descriptor numbers and who holds them.

   Several parties of one process open and close descriptors. The kernel hands out only
   numbers that nobody holds, and a close frees a number whoever holds it. What is
   proved:

   1. a row of closes frees the numbers it names and no others (`run_closes`);
   2. as long as every close is of a number its party holds, each party has closed every
      number as often as it was handed it, less the one it still holds (`Balanced`). -/
namespace Descriptors

/-- A call that changes the table: a number handed out, or closed. -/
inductive Op where
  | opened (fd : Int)
  | closed (fd : Int)
  deriving DecidableEq, Repr

/-- A call, and the party that makes it. -/
structure Call (P : Type) where
  party : P
  op : Op
  deriving DecidableEq, Repr

/-- Who holds each number. -/
structure Table (P : Type) where
  holder : Int → Option P

variable {P : Type}

/-- The table with another holder of one number. -/
def Table.set (t : Table P) (fd : Int) (o : Option P) : Table P :=
  ⟨fun fd' => if fd' = fd then o else t.holder fd'⟩

@[simp] theorem Table.set_self (t : Table P) (fd : Int) (o : Option P) :
    (t.set fd o).holder fd = o :=
  if_pos rfl

theorem Table.set_other (t : Table P) {fd fd' : Int} (h : fd' ≠ fd) (o : Option P) :
    (t.set fd o).holder fd' = t.holder fd' :=
  if_neg h

theorem Table.set_held {t : Table P} {fd fd' : Int} {p : P} (hfree : t.holder fd = none)
    (h : t.holder fd' = some p) (o : Option P) : (t.set fd o).holder fd' = some p := by
  have hne : fd' ≠ fd := by
    rintro rfl
    rw [hfree] at h
    cases h
  rw [t.set_other hne, h]

/-- The table after a call; none, if the kernel would not hand out that number. -/
def Table.step (t : Table P) (c : Call P) : Option (Table P) :=
  match c.op with
  | .opened fd => if (t.holder fd).isNone then some (t.set fd (some c.party)) else none
  | .closed fd => some (t.set fd none)

/-- Calls of one party, one after the other. -/
def Table.run (t : Table P) (p : P) : List Op → Option (Table P)
  | [] => some t
  | op :: ops => (t.step ⟨p, op⟩).bind (fun t' => t'.run p ops)

/-- A close of this call is of a number that its party holds. -/
def Call.Proper (t : Table P) (c : Call P) : Prop :=
  ∀ fd, c.op = .closed fd → t.holder fd = some c.party

/-- A close for each number. -/
def closesOf (fds : List Int) : List Op := fds.map .closed

theorem closesOf_count (fds : List Int) (d : Int) :
    (closesOf fds).count (.closed d) = fds.count d ∧ (closesOf fds).count (.opened d) = 0 := by
  constructor
  · exact List.count_map_of_injective fds Op.closed (fun _ _ h => Op.closed.inj h) d
  · rw [List.count_eq_zero]
    intro hmem
    obtain ⟨fd, _, hfd⟩ := List.mem_map.mp hmem
    cases hfd

theorem opened_count (fd d : Int) :
    [Op.opened fd].count (.closed d) = 0 ∧
      [Op.opened fd].count (.opened d) = if d = fd then 1 else 0 := by
  refine ⟨rfl, ?_⟩
  by_cases h : d = fd
  · simp [h]
  · have h' : ¬ fd = d := fun e => h e.symm
    simp [h, h']

theorem step_opened {t t' : Table P} {p : P} {fd : Int} (h : t.step ⟨p, .opened fd⟩ = some t') :
    t.holder fd = none ∧ t' = t.set fd (some p) := by
  unfold Table.step at h
  dsimp only at h
  split at h
  · rename_i hfree
    exact ⟨Option.isNone_iff_eq_none.mp hfree, (Option.some.inj h).symm⟩
  · cases h

theorem step_closed {t t' : Table P} {p : P} {fd : Int} (h : t.step ⟨p, .closed fd⟩ = some t') :
    t' = t.set fd none :=
  (Option.some.inj h).symm

theorem run_opened {t t' : Table P} {p : P} {fd : Int} (h : t.run p [.opened fd] = some t') :
    t.holder fd = none ∧ t' = t.set fd (some p) := by
  obtain ⟨t₁, hstep, hrun⟩ := Option.bind_eq_some_iff.mp h
  cases hrun
  exact step_opened hstep

/-- **A row of closes** can always be made, and frees no number but its own. -/
theorem run_closes (p : P) {ops : List Op} {fds : List Int}
    (hops : ∀ op ∈ ops, ∃ fd ∈ fds, op = .closed fd) (t : Table P) :
    ∃ t', t.run p ops = some t' ∧ ∀ fd, fd ∉ fds → t'.holder fd = t.holder fd := by
  induction ops generalizing t with
  | nil => exact ⟨t, rfl, fun _ _ => rfl⟩
  | cons op ops ih =>
    obtain ⟨fd, hfd, rfl⟩ := hops op List.mem_cons_self
    obtain ⟨t', hrun, hkeep⟩ := ih (fun op' h => hops op' (List.mem_cons_of_mem _ h)) (t.set fd none)
    refine ⟨t', hrun, fun fd' hfd' => ?_⟩
    have hne : fd' ≠ fd := by
      rintro rfl
      exact hfd' hfd
    rw [hkeep fd' hfd', t.set_other hne]

/-! ## The balance of a history -/

variable [DecidableEq P]

/-- Whether the party holds the number. -/
def Table.holds (t : Table P) (p : P) (fd : Int) : Nat := if t.holder fd = some p then 1 else 0

/-- How often the number was handed to the party. -/
def opens (p : P) (fd : Int) (history : List (Call P)) : Nat := history.count ⟨p, .opened fd⟩

/-- How often the party closed the number. -/
def closes (p : P) (fd : Int) (history : List (Call P)) : Nat := history.count ⟨p, .closed fd⟩

/-- Between these two tables, every party has closed each number as often as it was
    handed it, but for what it held before and what it still holds. -/
def Balanced (t₀ : Table P) (history : List (Call P)) (t : Table P) : Prop :=
  ∀ p fd, t.holds p fd + closes p fd history = t₀.holds p fd + opens p fd history

theorem balanced_nil (t : Table P) : Balanced t [] t := fun _ _ => rfl

theorem opens_snoc (p : P) (fd : Int) (history : List (Call P)) (c : Call P) :
    opens p fd (history ++ [c]) =
      opens p fd history + if c.party = p ∧ c.op = .opened fd then 1 else 0 := by
  obtain ⟨q, op⟩ := c
  rw [opens, opens, List.count_append, List.count_singleton]
  congr 1
  simp

theorem closes_snoc (p : P) (fd : Int) (history : List (Call P)) (c : Call P) :
    closes p fd (history ++ [c]) =
      closes p fd history + if c.party = p ∧ c.op = .closed fd then 1 else 0 := by
  obtain ⟨q, op⟩ := c
  rw [closes, closes, List.count_append, List.count_singleton]
  congr 1
  simp

theorem holds_step {t t' : Table P} {c : Call P} (hstep : t.step c = some t') (hproper : c.Proper t)
    (p : P) (fd : Int) :
    t'.holds p fd + (if c.party = p ∧ c.op = .closed fd then 1 else 0) =
      t.holds p fd + if c.party = p ∧ c.op = .opened fd then 1 else 0 := by
  obtain ⟨q, op⟩ := c
  cases op with
  | opened d =>
    obtain ⟨hfree, rfl⟩ := step_opened hstep
    by_cases hd : fd = d
    · subst hd
      simp [Table.holds, hfree]
    · have hd' : ¬ d = fd := fun h => hd h.symm
      simp [Table.holds, t.set_other hd, hd']
  | closed d =>
    obtain rfl := step_closed hstep
    have howner : t.holder d = some q := hproper d rfl
    by_cases hd : fd = d
    · subst hd
      simp [Table.holds, howner]
    · have hd' : ¬ d = fd := fun h => hd h.symm
      simp [Table.holds, t.set_other hd, hd']

/-- One more call keeps the balance if it closes only what its party holds. -/
theorem Balanced.snoc {t₀ t t' : Table P} {history : List (Call P)} (h : Balanced t₀ history t)
    {c : Call P} (hstep : t.step c = some t') (hproper : c.Proper t) :
    Balanced t₀ (history ++ [c]) t' := by
  intro p fd
  have hbal := h p fd
  have hone := holds_step hstep hproper p fd
  rw [opens_snoc, closes_snoc]
  omega

end Descriptors
