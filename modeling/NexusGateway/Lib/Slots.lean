import Mathlib.Data.List.Basic

/- A table of slots: a list searched from its start, and changed in place at the slot
   that the search finds.

   A search by a test that is weaker than the one meant finds the same slot exactly when
   no slot that passes the weaker test only stands in front (`findIdx?_weaker_iff`). -/
namespace Slots

variable {α : Type} {p : α → Bool} {f : α → α} {l : List α} {i : Nat} {x : α}

theorem findIdx?_some (h : l.findIdx? p = some i) :
    ∃ x, l[i]? = some x ∧ l.find? p = some x ∧ p x = true := by
  induction l generalizing i with
  | nil => cases h
  | cons a l ih =>
    rw [List.findIdx?_cons] at h
    split at h
    · rename_i ha
      cases h
      exact ⟨a, rfl, List.find?_cons_of_pos ha, ha⟩
    · rename_i ha
      obtain ⟨j, hj, rfl⟩ := Option.map_eq_some_iff.mp h
      obtain ⟨x, hx, hfind, hp⟩ := ih hj
      exact ⟨x, hx, by rwa [List.find?_cons_of_neg ha], hp⟩

theorem findIdx?_none (h : l.findIdx? p = none) : l.find? p = none := by
  rw [List.find?_eq_none]
  intro x hx
  rw [List.findIdx?_eq_none_iff] at h
  rw [h x hx]
  decide

theorem find?_of_nodup {β : Type} [BEq β] [LawfulBEq β] {key : α → β} (hkeys : (l.map key).Nodup)
    (hx : x ∈ l) : l.find? (fun y => key y == key x) = some x := by
  induction l with
  | nil => cases hx
  | cons a l ih =>
    rw [List.map_cons, List.nodup_cons] at hkeys
    obtain rfl | hx := List.mem_cons.mp hx
    · exact List.find?_cons_of_pos (beq_self_eq_true _)
    · have hother : key a ≠ key x := fun h => hkeys.1 (h ▸ List.mem_map_of_mem hx)
      rw [List.find?_cons_of_neg (by simpa using hother)]
      exact ih hkeys.2 hx

theorem find?_modify_found (hf : ∀ x, p (f x) = p x) (h : l.findIdx? p = some i) :
    (l.modify i f).find? p = (l.find? p).map f := by
  induction l generalizing i with
  | nil => cases h
  | cons a l ih =>
    rw [List.findIdx?_cons] at h
    split at h
    · rename_i ha
      cases h
      rw [List.modify_zero_cons, List.find?_cons_of_pos (by rwa [hf]), List.find?_cons_of_pos ha]
      rfl
    · rename_i ha
      obtain ⟨j, hj, rfl⟩ := Option.map_eq_some_iff.mp h
      rw [List.modify_succ_cons, List.find?_cons_of_neg ha, List.find?_cons_of_neg ha]
      exact ih hj

theorem find?_modify_other (h : l[i]? = some x) (hx : p x = false) (hf : p (f x) = false) :
    (l.modify i f).find? p = l.find? p := by
  induction l generalizing i with
  | nil => cases h
  | cons a l ih =>
    cases i with
    | zero =>
      cases h
      rw [List.modify_zero_cons, List.find?_cons_of_neg (by rw [hf]; decide),
        List.find?_cons_of_neg (by rw [hx]; decide)]
    | succ i =>
      rw [List.modify_succ_cons, List.find?_cons, List.find?_cons]
      split
      · rfl
      · exact ih h

theorem modify_push (l : List α) (a : α) : (l ++ [a]).modify l.length f = l ++ [f a] := by
  induction l with
  | nil => rfl
  | cons b l ih => rw [List.cons_append, List.length_cons, List.modify_succ_cons, ih, List.cons_append]

theorem countP_modify (h : l[i]? = some x) :
    (l.modify i f).countP p + (if p x then 1 else 0) = l.countP p + if p (f x) then 1 else 0 := by
  induction l generalizing i with
  | nil => cases h
  | cons a l ih =>
    cases i with
    | zero =>
      cases h
      rw [List.modify_zero_cons, List.countP_cons, List.countP_cons]
      omega
    | succ i =>
      have := ih h
      rw [List.modify_succ_cons, List.countP_cons, List.countP_cons]
      omega

theorem modify_eq_set (h : l[i]? = some x) (f : α → α) : l.modify i f = l.set i (f x) := by
  have : Inhabited α := ⟨x⟩
  rw [List.modify_eq_set, h, Option.getD_some]

theorem count_flatMap_set {β : Type} [DecidableEq β] (g : α → List β) (h : l[i]? = some x) (y : α)
    (b : β) :
    ((l.set i y).flatMap g).count b + (g x).count b = (l.flatMap g).count b + (g y).count b := by
  induction l generalizing i with
  | nil => cases h
  | cons a l ih =>
    cases i with
    | zero =>
      cases h
      rw [List.set_cons_zero, List.flatMap_cons, List.flatMap_cons, List.count_append, List.count_append]
      omega
    | succ i =>
      have := ih h
      rw [List.set_cons_succ, List.flatMap_cons, List.flatMap_cons, List.count_append, List.count_append]
      omega

theorem slot_unique {β : Type} [DecidableEq β] {g : α → List β} {b : β}
    (hb : (l.flatMap g).count b ≤ 1) {j : Nat} {y : α} (hx : l[i]? = some x) (hy : l[j]? = some y)
    (hbx : b ∈ g x) (hby : b ∈ g y) : i = j := by
  have hmem {l : List α} {i : Nat} {x : α} (hx : l[i]? = some x) (hbx : b ∈ g x) :
      0 < (l.flatMap g).count b :=
    List.count_pos_iff.mpr (List.mem_flatMap.mpr ⟨x, List.mem_iff_getElem?.mpr ⟨i, hx⟩, hbx⟩)
  induction l generalizing i j with
  | nil => cases hx
  | cons a l ih =>
    rw [List.flatMap_cons, List.count_append] at hb
    cases i with
    | zero =>
      cases hx
      cases j with
      | zero => rfl
      | succ j =>
        have h1 := hmem (List.getElem?_cons_succ.symm.trans hy) hby
        have h2 : 0 < (g x).count b := List.count_pos_iff.mpr hbx
        omega
    | succ i =>
      cases j with
      | zero =>
        cases hy
        have h1 := hmem (List.getElem?_cons_succ.symm.trans hx) hbx
        have h2 : 0 < (g y).count b := List.count_pos_iff.mpr hby
        omega
      | succ j => rw [ih (by omega) hx hy]

/-! ## Searching by a weaker test -/

/-- What passes `q` but not `p` stands behind something that passes `p`. -/
def Unshadowed (p q : α → Bool) (l : List α) : Prop :=
  ∀ pre x post, l = pre ++ x :: post → q x = true → p x = false → ∃ y ∈ pre, p y = true

variable {q : α → Bool}

theorem unshadowed_cons (a : α) (l : List α) :
    Unshadowed p q (a :: l) ↔ p a = true ∨ (q a = false ∧ Unshadowed p q l) := by
  constructor
  · intro h
    cases hp : p a with
    | true => exact .inl rfl
    | false =>
      refine .inr ⟨Bool.eq_false_iff.mpr (fun hq => ?_), fun pre x post hl hq hx => ?_⟩
      · obtain ⟨y, hy, _⟩ := h [] a l rfl hq hp
        cases hy
      · obtain ⟨y, hy, hpy⟩ := h (a :: pre) x post (by rw [hl]; rfl) hq hx
        obtain rfl | hy := List.mem_cons.mp hy
        · rw [hp] at hpy
          cases hpy
        · exact ⟨y, hy, hpy⟩
  · intro h pre x post hl hq hx
    cases pre with
    | nil =>
      cases hl
      obtain hp | ⟨hqa, _⟩ := h
      · rw [hx] at hp
        cases hp
      · rw [hq] at hqa
        cases hqa
    | cons b pre =>
      cases hl
      obtain hp | ⟨_, hrest⟩ := h
      · exact ⟨a, List.mem_cons_self, hp⟩
      · obtain ⟨y, hy, hpy⟩ := hrest pre x post rfl hq hx
        exact ⟨y, List.mem_cons_of_mem a hy, hpy⟩

/-- **A weaker test finds the same slot** exactly when nothing shadows it. -/
theorem findIdx?_weaker_iff (himp : ∀ x, p x = true → q x = true) :
    l.findIdx? q = l.findIdx? p ↔ Unshadowed p q l := by
  induction l with
  | nil => exact ⟨fun _ pre _ _ hl => by simp at hl, fun _ => rfl⟩
  | cons a l ih =>
    rw [unshadowed_cons, List.findIdx?_cons, List.findIdx?_cons, ← ih]
    cases hp : p a with
    | true => simp [himp a hp]
    | false =>
      cases hq : q a with
      | true =>
        -- the weaker test stops here, the other goes on
        simp only [Bool.true_eq_false, false_and, or_false, Bool.false_eq_true, iff_false, if_true,
          if_false]
        intro h
        obtain ⟨j, _, hj⟩ := Option.map_eq_some_iff.mp h.symm
        exact absurd hj (Nat.succ_ne_zero j)
      | false =>
        simp only [Bool.false_eq_true, if_false, false_or, true_and]
        exact ⟨fun h => Option.map_injective (fun _ _ => Nat.succ.inj) h, fun h => by rw [h]⟩

/-- A weaker test finds only what was meant exactly when nothing shadows it. -/
theorem find?_passes_iff (himp : ∀ x, p x = true → q x = true) :
    (∀ x, l.find? q = some x → p x = true) ↔ Unshadowed p q l := by
  induction l with
  | nil => exact ⟨fun _ pre _ _ hl => by simp at hl, fun _ _ h => by cases h⟩
  | cons a l ih =>
    rw [unshadowed_cons, ← ih]
    cases hq : q a with
    | true =>
      rw [List.find?_cons_of_pos hq]
      simp
    | false =>
      have hp : p a = false := Bool.eq_false_iff.mpr fun h => by simp [himp a h] at hq
      rw [List.find?_cons_of_neg (by simp [hq])]
      simp [hp]

theorem find?_of_findIdx? (h : l.findIdx? q = l.findIdx? p) : l.find? q = l.find? p := by
  cases hi : l.findIdx? p with
  | none => rw [findIdx?_none hi, findIdx?_none (h.trans hi)]
  | some i =>
    obtain ⟨x, hx, hfind, _⟩ := findIdx?_some hi
    obtain ⟨y, hy, hfind', _⟩ := findIdx?_some (h.trans hi)
    rw [hx] at hy
    cases hy
    rw [hfind, hfind']

/-! ## Searching for what a slot says -/

theorem findSome?_alone {β : Type} {f : α → Option β} (h : l[i]? = some x)
    (halone : ∀ j z, l[j]? = some z → f z ≠ none → j = i) : l.findSome? f = f x := by
  induction l generalizing i with
  | nil => cases h
  | cons a l ih =>
    cases i with
    | zero =>
      cases h
      cases hx : f x with
      | some b => simp [hx]
      | none =>
        rw [List.findSome?_cons, hx, List.findSome?_eq_none_iff]
        intro z hz
        obtain ⟨j, hj⟩ := List.mem_iff_getElem?.mp hz
        by_contra hne
        exact absurd (halone (j + 1) z hj hne) (Nat.succ_ne_zero j)
    | succ i =>
      have ha : f a = none := by
        by_contra hne
        exact absurd (halone 0 a rfl hne) (Nat.succ_ne_zero i).symm
      rw [List.findSome?_cons, ha]
      exact ih h fun j z hj hz => Nat.succ.inj (halone (j + 1) z hj hz)

theorem findSome?_set {β : Type} {f : α → Option β} {y : α} (h : l[i]? = some x) (hf : f y = f x) :
    (l.set i y).findSome? f = l.findSome? f := by
  induction l generalizing i with
  | nil => cases h
  | cons a l ih =>
    cases i with
    | zero =>
      cases h
      rw [List.set_cons_zero, List.findSome?_cons, List.findSome?_cons, hf]
    | succ i => rw [List.set_cons_succ, List.findSome?_cons, List.findSome?_cons, ih h]

end Slots
