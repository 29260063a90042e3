import Mathlib.Data.List.Induction
import Mathlib.Data.List.Nodup

/- An ordered multimap of bounded capacity: key and value pairs in the order they
   were added, at most `cap` of them, a key any number of times. `add` refuses when
   it is full; `remove` deletes every pair of a key; `set` leaves one pair of a key,
   at the end, and refuses only when there is neither a free place nor a pair of
   that key to make one.

   A sequence of `set`s whose answers are not looked at leaves the pairs of the other
   keys and its own pairs behind them exactly when its keys are distinct and each of its
   pairs has a place when its turn comes (`setAll_exact_iff`). -/
namespace OrderedMultimap

structure Multimap (K V : Type) (cap : Nat) where
  pairs : List (K × V)
  fits : pairs.length ≤ cap

namespace Multimap
variable {K V : Type} [DecidableEq K] {cap : Nat}

def empty : Multimap K V cap := ⟨[], Nat.zero_le _⟩

def keys (m : Multimap K V cap) : List K := m.pairs.map Prod.fst

/-- The pairs of the other keys, in order. -/
def others (m : Multimap K V cap) (k : K) : List (K × V) := m.pairs.filter (fun p => p.1 ≠ k)

theorem others_length_le (m : Multimap K V cap) (k : K) :
    (m.others k).length ≤ m.pairs.length := List.length_filter_le _ _

theorem others_length_lt {m : Multimap K V cap} {k : K} (h : k ∈ m.keys) :
    (m.others k).length < m.pairs.length := by
  obtain ⟨p, hp, rfl⟩ := List.mem_map.mp h
  exact List.length_filter_lt_length_iff_exists.mpr ⟨p, hp, by simp⟩

theorem others_eq_self {m : Multimap K V cap} {k : K} (h : k ∉ m.keys) :
    m.others k = m.pairs := by
  refine List.filter_eq_self.mpr (fun p hp => ?_)
  have : p.1 ≠ k := fun e => h (e ▸ List.mem_map_of_mem hp)
  simpa using this

/-- The first pair of a key. -/
def lookup (m : Multimap K V cap) (k : K) : Option V :=
  (m.pairs.find? (fun p => p.1 = k)).map Prod.snd

omit [DecidableEq K] in
theorem fits_add {m : Multimap K V cap} (h : m.pairs.length < cap) (p : K × V) :
    (m.pairs ++ [p]).length ≤ cap := by
  rw [List.length_append, List.length_singleton]
  exact h

def add (m : Multimap K V cap) (k : K) (v : V) : Multimap K V cap × Bool :=
  if h : m.pairs.length < cap then
    (⟨m.pairs ++ [(k, v)], fits_add h _⟩, true)
  else (m, false)

def remove (m : Multimap K V cap) (k : K) : Multimap K V cap :=
  ⟨m.others k, Nat.le_trans (m.others_length_le k) m.fits⟩

def set (m : Multimap K V cap) (k : K) (v : V) : Multimap K V cap × Bool :=
  if h : m.pairs.length = cap ∧ k ∉ m.keys then (m, false)
  else
    (⟨m.others k ++ [(k, v)], by
      have h1 := m.others_length_le k
      have h2 := m.fits
      rw [not_and_or, not_not] at h
      have h3 := fun hk => others_length_lt (m := m) (k := k) hk
      simp only [List.length_append, List.length_singleton]
      rcases h with h | h
      · omega
      · have := h3 h
        omega⟩, true)

omit [DecidableEq K] in
@[ext] theorem ext {m n : Multimap K V cap} (h : m.pairs = n.pairs) : m = n := by
  cases m; cases n; cases h; rfl

/-- `set` is `remove` and then `add`: an `add` that still finds no place had nothing removed. -/
theorem add_remove (m : Multimap K V cap) (k : K) (v : V) : (m.remove k).add k v = m.set k v := by
  have hfit := m.fits
  by_cases h : m.pairs.length = cap ∧ k ∉ m.keys
  · have he := others_eq_self h.2
    have hr : m.remove k = m := ext he
    rw [set, dif_pos h, hr, add, dif_neg (by omega)]
  · have hlt : (m.others k).length < cap := by
      have h1 := m.others_length_le k
      rw [not_and_or, not_not] at h
      rcases h with h | h
      · omega
      · have := others_length_lt h
        omega
    rw [set, dif_neg h, add]
    exact dif_pos hlt

inductive Op (K V : Type) where
  | add (k : K) (v : V)
  | set (k : K) (v : V)
  | remove (k : K)

/-- One operation, and whether it succeeded. -/
def apply (m : Multimap K V cap) : Op K V → Multimap K V cap × Bool
  | .add k v => m.add k v
  | .set k v => m.set k v
  | .remove k => (m.remove k, true)

/-- A sequence of operations, with the answer to each. -/
def run (m : Multimap K V cap) : List (Op K V) → Multimap K V cap × List Bool
  | [] => (m, [])
  | op :: ops =>
    let r := m.apply op
    let t := run r.1 ops
    (t.1, r.2 :: t.2)

/-! ## Setting a list of pairs -/

/-- The pairs of other keys than these, in order. -/
def without (m : Multimap K V cap) (ks : List K) : List (K × V) :=
  m.pairs.filter (fun p => p.1 ∉ ks)

/-- Pairs set one after the other, whether there is a place for each or not. -/
def setAll (m : Multimap K V cap) (sets : List (K × V)) : Multimap K V cap :=
  sets.foldl (fun m s => (m.set s.1 s.2).1) m

theorem setAll_cons (m : Multimap K V cap) (s : K × V) (sets : List (K × V)) :
    m.setAll (s :: sets) = (m.set s.1 s.2).1.setAll sets := rfl

/-- What a `set` leaves: the other keys' pairs, and its own pair if there is a place. -/
theorem set_pairs (m : Multimap K V cap) (k : K) (v : V) :
    (m.set k v).1.pairs = m.others k ++ if (m.others k).length < cap then [(k, v)] else [] := by
  rw [← m.add_remove k v]
  unfold add
  by_cases h : (m.others k).length < cap
  · have hplace : (m.remove k).pairs.length < cap := h
    rw [if_pos h, dif_pos hplace]
    rfl
  · have hfull : ¬ (m.remove k).pairs.length < cap := h
    rw [if_neg h, dif_neg hfull, List.append_nil]
    rfl

theorem mem_keys_setAll {sets : List (K × V)} {k : K} : ∀ {m : Multimap K V cap},
    k ∈ (m.setAll sets).keys → k ∈ m.keys ∨ k ∈ sets.map Prod.fst := by
  induction sets with
  | nil => exact fun h => .inl h
  | cons s sets ih =>
    intro m h
    obtain h | h := ih h
    · rw [keys, set_pairs, List.map_append, List.mem_append] at h
      obtain h | h := h
      · obtain ⟨p, hp, rfl⟩ := List.mem_map.mp h
        exact .inl (List.mem_map_of_mem (List.mem_filter.mp hp).1)
      · split at h
        · exact .inr (List.mem_cons.mpr (.inl (List.mem_singleton.mp h)))
        · cases h
    · exact .inr (List.mem_cons_of_mem _ h)

theorem count_keys_setAll (m : Multimap K V cap) (sets : List (K × V)) {k : K}
    (hk : k ∈ sets.map Prod.fst) : (m.setAll sets).keys.count k ≤ 1 := by
  induction sets using List.reverseRecOn with
  | nil => cases hk
  | append_singleton sets s ih =>
    have hlast : (m.setAll (sets ++ [s])).pairs = (m.setAll sets).others s.1 ++
        if ((m.setAll sets).others s.1).length < cap then [(s.1, s.2)] else [] := by
      rw [setAll, List.foldl_append]
      exact set_pairs (m.setAll sets) s.1 s.2
    have hothers : ((m.setAll sets).others s.1).map Prod.fst =
        (m.setAll sets).keys.filter (fun x => x ≠ s.1) := by
      rw [keys, List.filter_map]
      rfl
    have hnew : ((if ((m.setAll sets).others s.1).length < cap then [(s.1, s.2)] else []).map
        Prod.fst).count k ≤ if k = s.1 then 1 else 0 := by
      split
      · rw [List.map_singleton, List.count_singleton]
        by_cases hks : k = s.1
        · simp [hks]
        · simp [hks, Ne.symm hks]
      · exact Nat.zero_le _
    rw [keys, hlast, List.map_append, List.count_append, hothers]
    by_cases hks : k = s.1
    · rw [if_pos hks] at hnew
      have hnone : ((m.setAll sets).keys.filter (fun x => x ≠ s.1)).count k = 0 := by
        rw [List.count_eq_zero]
        intro hm
        have hne := (List.mem_filter.mp hm).2
        exact of_decide_eq_true hne hks
      omega
    · rw [if_neg hks] at hnew
      have hle : ((m.setAll sets).keys.filter (fun x => x ≠ s.1)).count k ≤
          (m.setAll sets).keys.count k := (List.filter_sublist).count_le k
      have hin : k ∈ sets.map Prod.fst := by
        rw [List.map_append, List.mem_append] at hk
        exact hk.resolve_right fun hm => hks (List.mem_singleton.mp hm)
      have := ih hin
      omega

/-- Where there is a place, what is left without some keys after a `set`. -/
theorem without_set {m : Multimap K V cap} {k : K} (hroom : (m.others k).length < cap) (v : V)
    {ks : List K} (hk : k ∉ ks) : (m.set k v).1.without ks = m.without (k :: ks) ++ [(k, v)] := by
  have hself : [(k, v)].filter (fun p => decide (p.1 ∉ ks)) = [(k, v)] :=
    List.filter_cons_of_pos (decide_eq_true hk)
  rw [without, set_pairs, if_pos hroom, List.filter_append, hself, without, others,
    List.filter_filter]
  congr 1
  apply List.filter_congr
  intro p _
  by_cases hp : p.1 = k <;> simp [hp]

/-- Each pair has a place when its turn comes. -/
def RoomForEach (m : Multimap K V cap) (sets : List (K × V)) : Prop :=
  ∀ i < sets.length, (m.without ((sets.take (i + 1)).map Prod.fst)).length + i < cap

theorem setAll_room_iff {sets : List (K × V)} : ∀ {m : Multimap K V cap},
    (sets.map Prod.fst).Nodup →
    ((m.setAll sets).pairs = m.without (sets.map Prod.fst) ++ sets ↔ m.RoomForEach sets) := by
  induction sets with
  | nil =>
    intro m _
    exact iff_of_true (by simp [setAll, without]) (fun _ hi => absurd hi (Nat.not_lt_zero _))
  | cons s sets ih =>
    intro m hnodup
    rw [List.map_cons, List.nodup_cons] at hnodup
    obtain ⟨hnew, hnodup⟩ := hnodup
    have hfirst : m.without [s.1] = m.others s.1 := by simp [without, others]
    rw [setAll_cons]
    by_cases hroom : (m.others s.1).length < cap
    · have hleft := without_set hroom s.2 hnew
      have hlater (i : Nat) : (m.set s.1 s.2).1.without ((sets.take (i + 1)).map Prod.fst) =
          m.without (s.1 :: (sets.take (i + 1)).map Prod.fst) ++ [(s.1, s.2)] :=
        without_set hroom s.2 fun hm => hnew (List.map_subset _ (List.take_subset _ _) hm)
      have hsets : m.without (s.1 :: sets.map Prod.fst) ++ s :: sets =
          m.without (s.1 :: sets.map Prod.fst) ++ [(s.1, s.2)] ++ sets := by simp
      rw [List.map_cons, hsets, ← hleft, ih hnodup]
      constructor
      · intro h i hi
        cases i with
        | zero =>
          show (m.without [s.1]).length < cap
          rwa [hfirst]
        | succ i =>
          have hplace := h i (Nat.lt_of_succ_lt_succ hi)
          rw [hlater, List.length_append, List.length_singleton] at hplace
          rw [List.take_succ_cons, List.map_cons]
          omega
      · intro h i hi
        have hplace := h (i + 1) (Nat.succ_lt_succ hi)
        rw [List.take_succ_cons, List.map_cons] at hplace
        rw [hlater, List.length_append, List.length_singleton]
        omega
    · -- the pair is left out, and no later `set` brings its key in
      refine iff_of_false (fun h => ?_) (fun h => ?_)
      · have hin : s.1 ∈ ((m.set s.1 s.2).1.setAll sets).keys := by
          rw [keys, h, List.map_append, List.map_cons]
          simp
        obtain hin | hin := mem_keys_setAll hin
        · rw [keys, set_pairs, if_neg hroom, List.append_nil] at hin
          obtain ⟨p, hp, hps⟩ := List.mem_map.mp hin
          exact of_decide_eq_true (List.mem_filter.mp hp).2 hps
        · exact hnew hin
      · have hplace := h 0 (Nat.succ_pos _)
        have hzero : (m.without [s.1]).length < cap := hplace
        rw [hfirst] at hzero
        exact hroom hzero

/-- **When a list of pairs is set in full**: the pairs of the other keys stay in their
    order with the list behind them, exactly when its keys are distinct and each of its
    pairs has a place when its turn comes. -/
theorem setAll_exact_iff (m : Multimap K V cap) (sets : List (K × V)) :
    (m.setAll sets).pairs = m.without (sets.map Prod.fst) ++ sets ↔
      (sets.map Prod.fst).Nodup ∧ m.RoomForEach sets := by
  constructor
  · intro h
    have hnodup : (sets.map Prod.fst).Nodup := by
      rw [List.nodup_iff_count_le_one]
      intro k
      by_cases hk : k ∈ sets.map Prod.fst
      · have hone := count_keys_setAll m sets hk
        rw [keys, h, List.map_append, List.count_append] at hone
        omega
      · rw [List.count_eq_zero.mpr hk]
        exact Nat.zero_le 1
    exact ⟨hnodup, (setAll_room_iff hnodup).mp h⟩
  · exact fun h => (setAll_room_iff h.1).mpr h.2

theorem RoomForEach.congr {m : Multimap K V cap} {sets sets' : List (K × V)}
    (hkeys : sets'.map Prod.fst = sets.map Prod.fst) (h : m.RoomForEach sets) : m.RoomForEach sets' := by
  have hlen := congrArg List.length hkeys
  rw [List.length_map, List.length_map] at hlen
  intro i hi
  rw [List.map_take, hkeys, ← List.map_take]
  exact h i (hlen ▸ hi)

theorem roomForEach_again {m : Multimap K V cap} {sets : List (K × V)} (ks : List K)
    (hkeys : m.keys.Sublist (ks ++ sets.map Prod.fst)) (hnodup : (sets.map Prod.fst).Nodup)
    (hfits : ks.length + sets.length ≤ cap) : m.RoomForEach sets := by
  intro i hi
  -- the keys that are still to be set, and the others
  have hlater : (sets.map Prod.fst).filter (fun k => decide (k ∉ (sets.map Prod.fst).take (i + 1))) =
      (sets.map Prod.fst).drop (i + 1) := by
    have hsplit := (List.take_append_drop (i + 1) (sets.map Prod.fst)).symm
    rw [hsplit, List.nodup_append] at hnodup
    obtain ⟨_, _, hapart⟩ := hnodup
    conv => lhs; arg 2; rw [hsplit]
    rw [List.filter_append, List.filter_eq_nil_iff.mpr, List.filter_eq_self.mpr, List.nil_append]
    · intro k hk
      exact decide_eq_true fun hmem => hapart k hmem k hk rfl
    · intro k hk
      simp [hk]
  have hwithout : (m.without ((sets.take (i + 1)).map Prod.fst)).length =
      (m.keys.filter (fun k => decide (k ∉ (sets.map Prod.fst).take (i + 1)))).length := by
    rw [keys, List.filter_map, List.length_map, without, List.map_take]
    rfl
  have hle := (hkeys.filter (fun k => decide (k ∉ (sets.map Prod.fst).take (i + 1)))).length_le
  rw [List.filter_append, hlater, List.length_append, List.length_drop, List.length_map] at hle
  have hothers := List.length_filter_le (fun k => decide (k ∉ (sets.map Prod.fst).take (i + 1))) ks
  omega

end Multimap

end OrderedMultimap
