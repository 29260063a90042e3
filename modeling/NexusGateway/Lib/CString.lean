import Mathlib.Algebra.Order.Ring.Int
import Mathlib.Data.List.Basic
import Mathlib.Data.List.TakeWhile

/- C strings over byte lists.

   A `char *` is modelled by the bytes that stand at it; the string C sees there
   is `cstr`, the bytes before the first NUL. A buffer whose end is reached
   without a NUL is taken to be followed by its terminator. The functions below
   are the C library's on that reading (C locale, 32-bit `int`, 64-bit `long`),
   and `CharArray` is a fixed array that holds a terminated string. -/
namespace CString

abbrev Bytes := List UInt8

/-- The bytes of an ASCII string literal. -/
def ascii (s : String) : Bytes := s.toList.map (fun c => c.toNat.toUInt8)

def cr : UInt8 := 13
def lf : UInt8 := 10
def sp : UInt8 := 32
def colon : UInt8 := 58
def comma : UInt8 := 44

theorem cr_ne_lf : cr ≠ lf := by decide

/-- The string C sees at a buffer: everything before the first NUL. -/
def cstr (b : Bytes) : Bytes := b.takeWhile (fun c => c != 0)

/-- No NUL among the bytes. -/
def NulFree (b : Bytes) : Prop := (0 : UInt8) ∉ b

instance (b : Bytes) : Decidable (NulFree b) := inferInstanceAs (Decidable (_ ∉ _))

theorem cstr_nulFree (b : Bytes) : NulFree (cstr b) := by
  intro h
  have := List.mem_takeWhile_imp h
  simp at this

theorem cstr_isPrefix (b : Bytes) : cstr b <+: b := List.takeWhile_prefix _

theorem NulFree.of_sublist {a b : Bytes} (hb : NulFree b) (h : a.Sublist b) : NulFree a :=
  fun ha => hb (h.subset ha)

theorem NulFree.append {a b : Bytes} (ha : NulFree a) (hb : NulFree b) : NulFree (a ++ b) := by
  simp only [NulFree, List.mem_append, not_or]
  exact ⟨ha, hb⟩

@[simp] theorem cstr_of_nulFree {b : Bytes} (h : NulFree b) : cstr b = b := by
  refine List.takeWhile_eq_self_iff.mpr (fun c hc => ?_)
  have : c ≠ 0 := fun e => h (e ▸ hc)
  simpa using this

theorem cstr_eq_self_iff {b : Bytes} : cstr b = b ↔ NulFree b :=
  ⟨fun h => h ▸ cstr_nulFree b, cstr_of_nulFree⟩

@[simp] theorem cstr_nil : cstr [] = [] := rfl

@[simp] theorem cstr_cstr (b : Bytes) : cstr (cstr b) = cstr b := cstr_of_nulFree (cstr_nulFree b)

theorem cstr_length_le (b : Bytes) : (cstr b).length ≤ b.length := (cstr_isPrefix b).length_le

/-- `cstr` of a NUL-free prefix followed by anything keeps the prefix. -/
theorem cstr_append {a : Bytes} (h : NulFree a) (b : Bytes) : cstr (a ++ b) = a ++ cstr b := by
  induction a with
  | nil => rfl
  | cons c a ih =>
    have hc : c ≠ 0 := fun e => h (by simp [e])
    have ha : NulFree a := fun hm => h (List.mem_cons_of_mem _ hm)
    have ih := ih ha
    simp only [cstr] at ih ⊢
    simp [hc, ih]

/-- Text that stands on one line of a file. -/
def LineText (b : Bytes) : Prop := NulFree b ∧ lf ∉ b

instance (b : Bytes) : Decidable (LineText b) := inferInstanceAs (Decidable (_ ∧ _))

theorem LineText.of_sublist {a b : Bytes} (hb : LineText b) (h : a.Sublist b) : LineText a :=
  ⟨hb.1.of_sublist h, fun ha => hb.2 (h.subset ha)⟩

/-! ## Searching and comparing -/

/-- `strchr(s, c)` for `c ≠ 0`: the offset of the first `c` in the string. -/
def strchr (s : Bytes) (c : UInt8) : Option Nat := (cstr s).idxOf? c

def strlen (s : Bytes) : Nat := (cstr s).length

/-- `strrchr(s, c)` for `c ≠ 0`: the offset of the last `c` in the string. -/
def strrchr (s : Bytes) (c : UInt8) : Option Nat :=
  ((cstr s).reverse.idxOf? c).map (fun i => strlen s - 1 - i)

/-- `strtok` called until it returns `NULL`: the pieces between the delimiters. -/
def strtok (s delims : Bytes) : List Bytes :=
  ((cstr s).splitOnP (fun c => c ∈ delims)).filter (fun tok => !tok.isEmpty)

example : strtok (ascii "10.0.0.1, 10.0.0.2,,") (ascii ", ") =
    [ascii "10.0.0.1", ascii "10.0.0.2"] := by decide +kernel

/-- `strcmp(a, b) == 0`. -/
def strEq (a b : Bytes) : Bool := cstr a == cstr b

/-- `strncmp(s, p, strlen(p)) == 0` for a literal `p`. -/
def startsWith (s p : Bytes) : Bool := p.isPrefixOf (cstr s)

theorem idxOf?_some {s : Bytes} {c : UInt8} {i : Nat} (h : s.idxOf? c = some i) :
    s = s.take i ++ c :: s.drop (i + 1) ∧ c ∉ s.take i := by
  induction s generalizing i with
  | nil => simp [List.idxOf?] at h
  | cons a s ih =>
    rw [List.idxOf?_cons] at h
    by_cases ha : a = c
    · subst ha
      simp at h
      subst h
      simp
    · simp [ha] at h
      obtain ⟨j, hj, rfl⟩ := h
      obtain ⟨h1, h2⟩ := ih hj
      refine ⟨?_, ?_⟩
      · simp only [List.take_succ_cons, List.drop_succ_cons, List.cons_append]
        rw [← h1]
      · simp only [List.take_succ_cons, List.mem_cons, not_or]
        exact ⟨fun e => ha e.symm, h2⟩

theorem idxOf?_lt {s : Bytes} {c : UInt8} {i : Nat} (h : s.idxOf? c = some i) : i < s.length := by
  have := congrArg List.length (idxOf?_some h).1
  simp only [List.length_append, List.length_take, List.length_cons, List.length_drop] at this
  omega

theorem idxOf?_append {a : Bytes} {c : UInt8} (h : c ∉ a) (b : Bytes) :
    (a ++ c :: b).idxOf? c = some a.length := by
  induction a with
  | nil => simp [List.idxOf?_cons]
  | cons x a ih =>
    simp only [List.mem_cons, not_or] at h
    have hx : ¬ x = c := fun e => h.1 e.symm
    simp [List.idxOf?_cons, hx, ih h.2]

theorem idxOf?_eq_none {s : Bytes} {c : UInt8} : s.idxOf? c = none ↔ c ∉ s := by
  simp

/-- A prefix of a NUL-free prefix is what `strchr` leaves before its hit. -/
theorem strchr_some {s : Bytes} {c : UInt8} {i : Nat} (h : strchr s c = some i) :
    NulFree (s.take i) ∧ c ∉ s.take i ∧ s = s.take i ++ c :: s.drop (i + 1) := by
  obtain ⟨h1, h2⟩ := idxOf?_some h
  have hlt := idxOf?_lt h
  have hn := cstr_nulFree s
  obtain ⟨t, ht⟩ := cstr_isPrefix s
  generalize cstr s = p at h1 h2 hlt hn ht
  subst ht
  have hl : (p.take i).length = i := by rw [List.length_take]; omega
  have hs : p ++ t = p.take i ++ c :: (p.drop (i + 1) ++ t) := by
    rw [← List.cons_append, ← List.append_assoc, ← h1]
  have htake : (p ++ t).take i = p.take i := by rw [hs]; exact List.take_left' hl
  have hdrop : (p ++ t).drop (i + 1) = p.drop (i + 1) ++ t :=
    List.drop_append_of_le_length (by omega)
  rw [htake, hdrop]
  exact ⟨hn.of_sublist (List.take_sublist _ _), h2, hs⟩

theorem strchr_append {a : Bytes} {c : UInt8} (hn : NulFree a) (h : c ∉ a) (hc : c ≠ 0)
    (b : Bytes) : strchr (a ++ c :: b) c = some a.length := by
  have : cstr (c :: b) = c :: cstr b := cstr_append (a := [c]) (by simp [NulFree, hc.symm]) b
  rw [strchr, cstr_append hn, this, idxOf?_append h]

/-- What is found is a `c`. -/
theorem strrchr_some {s : Bytes} {c : UInt8} {i : Nat} (hn : NulFree s) (h : strrchr s c = some i) :
    s = s.take i ++ c :: s.drop (i + 1) := by
  rw [strrchr, strlen, cstr_of_nulFree hn] at h
  obtain ⟨j, hj, rfl⟩ := Option.map_eq_some_iff.mp h
  have hlt := idxOf?_lt hj
  rw [List.length_reverse] at hlt
  have hget : s[s.length - 1 - j]? = some c := by
    rw [← List.getElem?_reverse hlt, (idxOf?_some hj).1]
    have htake : (s.reverse.take j).length = j := by
      rw [List.length_take, List.length_reverse]
      omega
    rw [List.getElem?_append_right (by omega), htake, Nat.sub_self]
    rfl
  obtain ⟨hbound, hc⟩ := List.getElem?_eq_some_iff.mp hget
  calc s = s.take (s.length - 1 - j) ++ s.drop (s.length - 1 - j) := (List.take_append_drop _ s).symm
    _ = _ := by rw [List.drop_eq_getElem_cons hbound, hc]

/-- The last `c` is found when none stands behind it. -/
theorem strrchr_append {a b : Bytes} {c : UInt8} (hn : NulFree (a ++ c :: b)) (h : c ∉ b) :
    strrchr (a ++ c :: b) c = some a.length := by
  have hback : (a ++ c :: b).reverse.idxOf? c = some b.length := by
    rw [List.reverse_append, List.reverse_cons, List.append_assoc, List.singleton_append,
      idxOf?_append (fun hc => h (List.mem_reverse.mp hc)), List.length_reverse]
  rw [strrchr, strlen, cstr_of_nulFree hn, hback, Option.map_some, List.length_append,
    List.length_cons]
  congr 1
  omega

/-! ## Character classes and numbers -/

/-- `tolower` in the C locale. -/
def toLower (c : UInt8) : UInt8 := if 65 ≤ c ∧ c ≤ 90 then c + 32 else c

/-- `isspace` in the C locale. -/
def isSpace (c : UInt8) : Bool := c == 32 || (9 ≤ c && c ≤ 13)

def isDigit (c : UInt8) : Bool := 48 ≤ c && c ≤ 57

/-- The value of a digit string, most significant digit first. -/
def digitsValue (ds : Bytes) : Nat := ds.foldl (fun n d => 10 * n + (d.toNat - 48)) 0

/-- A decimal numeral: at least one digit and nothing else. -/
def IsNumeral (s : Bytes) : Prop := s ≠ [] ∧ ∀ c ∈ s, isDigit c = true

instance (s : Bytes) : Decidable (IsNumeral s) := inferInstanceAs (Decidable (_ ∧ _))

/-- The sign `strtol` accepts in front of the digits, and what follows it. -/
def signOf : Bytes → Bool × Bytes
  | 45 :: t => (true, t)
  | 43 :: t => (false, t)
  | s => (false, s)

/-- `strtol(s, NULL, 10)` with a 64-bit `long`: clamped, never wrapped. -/
def strtol (s : Bytes) : Int :=
  let p := signOf ((cstr s).dropWhile isSpace)
  let n := digitsValue (p.2.takeWhile isDigit)
  if p.1 then max (-(2 ^ 63)) (-(n : Int)) else min n (2 ^ 63 - 1)

/-- `atoi(s)`: glibc's `strtol` narrowed to `int`. -/
def atoi (s : Bytes) : Int32 := Int32.ofInt (strtol s)

theorem isDigit_spec {c : UInt8} (h : isDigit c = true) : isSpace c = false ∧ c ≠ 45 ∧ c ≠ 43 := by
  simp only [isDigit, Bool.and_eq_true, decide_eq_true_eq, UInt8.le_iff_toNat_le,
    UInt8.reduceToNat] at h
  simp only [isSpace, Bool.or_eq_false_iff, Bool.and_eq_false_iff, beq_eq_false_iff_ne, ne_eq,
    decide_eq_false_iff_not, UInt8.le_iff_toNat_le, ← UInt8.toNat_inj, UInt8.reduceToNat]
  omega

/-- A numeral is read as its value, up to the largest `long`, and what stands behind its
    last digit is not read. -/
theorem strtol_digits {s ds rest : Bytes} (h : IsNumeral ds) (hs : cstr s = ds ++ rest)
    (hrest : rest.takeWhile isDigit = []) : strtol s = min (digitsValue ds : Int) (2 ^ 63 - 1) := by
  obtain ⟨hne, hd⟩ := h
  have hall : (ds ++ rest).takeWhile isDigit = ds := by
    rw [List.takeWhile_append_of_pos hd, hrest, List.append_nil]
  cases ds with
  | nil => exact absurd rfl hne
  | cons c t =>
    obtain ⟨h1, h2, h3⟩ := isDigit_spec (hd c List.mem_cons_self)
    have hsign : signOf (c :: (t ++ rest)) = (false, c :: (t ++ rest)) := by
      unfold signOf
      split
      · rename_i he
        injection he with hc
        exact absurd hc h2
      · rename_i he
        injection he with hc
        exact absurd hc h3
      · rfl
    rw [List.cons_append] at hall hs
    simp only [strtol, hs, List.dropWhile_cons_of_neg (show ¬ isSpace c = true by simp [h1]), hsign,
      hall, Bool.false_eq_true, if_false]

/-- `strtol` of a numeral alone. -/
theorem strtol_numeral {s : Bytes} (h : IsNumeral (cstr s)) :
    strtol s = min (digitsValue (cstr s) : Int) (2 ^ 63 - 1) :=
  strtol_digits h (List.append_nil _).symm rfl

/-- `atoi` of a numeral that an `int` holds. -/
theorem atoi_numeral {s : Bytes} (h : IsNumeral (cstr s)) (hlt : digitsValue (cstr s) < 2 ^ 31) :
    (atoi s).toInt = digitsValue (cstr s) := by
  rw [atoi, strtol_numeral h, Int.min_eq_left (by omega)]
  exact Int32.toInt_ofInt_of_le (by omega) (by omega)

/-! ## Fixed arrays -/

theorem size16_pos : 0 < 16 := by decide
theorem size64_pos : 0 < 64 := by decide
theorem size128_pos : 0 < 128 := by decide
theorem size1024_pos : 0 < 1024 := by decide

theorem push_length_le {α : Type} {l : List α} {cap : Nat} (h : ¬ l.length ≥ cap) (x : α) :
    (l ++ [x]).length ≤ cap := by
  rw [List.length_append, List.length_singleton]
  omega

theorem take_length_lt {l : Bytes} {n cap : Nat} (h : n < cap) : (l.take n).length < cap := by
  rw [List.length_take]
  omega

/-- A `char [cap]` holding a terminated string: the text before its NUL. -/
structure CharArray (cap : Nat) where
  text : Bytes
  nulFree : NulFree text
  fits : text.length < cap
  deriving DecidableEq, Repr

namespace CharArray
variable {cap : Nat}

@[ext] theorem ext {a b : CharArray cap} (h : a.text = b.text) : a = b := by
  cases a; cases b; cases h; rfl

/-- An array of zeros. -/
def zero (h : 0 < cap) : CharArray cap := ⟨[], by simp [NulFree], h⟩

/-- `snprintf(a, sizeof a, "%s", s)`: the string cut to what the array holds. -/
def snprintf (h : 0 < cap) (s : Bytes) : CharArray cap where
  text := (cstr s).take (cap - 1)
  nulFree := (cstr_nulFree s).of_sublist (List.take_sublist _ _)
  fits := by rw [List.length_take]; omega

theorem snprintf_sublist (h : 0 < cap) (s : Bytes) : (snprintf h s).text.Sublist s :=
  (List.take_sublist _ _).trans (cstr_isPrefix s).sublist

end CharArray

/-- A `char [cap]` of any bytes. -/
structure Buffer (cap : Nat) where
  bytes : Bytes
  length_eq : bytes.length = cap
  deriving DecidableEq, Repr

namespace Buffer
variable {cap : Nat}

/-- An array of zeros. -/
def zero (cap : Nat) : Buffer cap := ⟨List.replicate cap 0, List.length_replicate⟩

/-- The array after a copy to its start. -/
def store (b : Buffer cap) (data : Bytes) (h : data.length ≤ cap) : Buffer cap where
  bytes := data ++ b.bytes.drop data.length
  length_eq := by
    have := b.length_eq
    simp only [List.length_append, List.length_drop]
    omega

theorem take_store (b : Buffer cap) {data more : Bytes} (h : (data ++ more).length ≤ cap) :
    (b.store (data ++ more) h).bytes.take data.length = data := by
  show (data ++ more ++ b.bytes.drop (data ++ more).length).take data.length = data
  rw [List.append_assoc, List.take_left]

end Buffer

/-! ## Writing into a buffer -/

/-- `snprintf(out + pos, sizeof out - pos, "%s", text)`: the buffer after it, of the
    same size. What does not fit in front of a terminator is cut off. -/
def snprintfAt (out : Bytes) (pos : Nat) (text : Bytes) : Bytes :=
  if pos < out.length then
    let n := min text.length (out.length - pos - 1)
    out.take pos ++ (text.take n ++ 0 :: out.drop (pos + n + 1))
  else out

/-- A write at the end of what stands in the buffer: the buffer and the new end, which
    counts the text in full whether it fits or not. -/
def emit (w : Bytes × Nat) (text : Bytes) : Bytes × Nat :=
  (snprintfAt w.1 w.2 text, w.2 + text.length)

/-- The buffer `out` holds `text` and its terminator, and is as it was behind them. -/
def Holds (out text : Bytes) (w : Bytes × Nat) : Prop :=
  w = (text ++ 0 :: out.drop (text.length + 1), text.length)

theorem emit_first {out text : Bytes} (h : text.length < out.length) :
    Holds out text (emit (out, 0) text) := by
  have hn : min text.length (out.length - 0 - 1) = text.length := by omega
  have hpos : 0 < out.length := by omega
  simp only [Holds, emit, snprintfAt, if_pos hpos, hn, List.take_length, List.take_zero,
    List.nil_append, Nat.zero_add]

/-- A text that fits is put behind the text that is there, and nothing is cut. -/
theorem emit_next {out text more : Bytes} {w : Bytes × Nat} (hw : Holds out text w)
    (h : (text ++ more).length < out.length) : Holds out (text ++ more) (emit w more) := by
  rw [List.length_append] at h
  have hlen : (text ++ 0 :: out.drop (text.length + 1)).length = out.length := by
    simp only [List.length_append, List.length_cons, List.length_drop]
    omega
  have hn : min more.length (out.length - text.length - 1) = more.length := by omega
  have hdrop : (text ++ 0 :: out.drop (text.length + 1)).drop (text.length + more.length + 1) =
      out.drop (text.length + more.length + 1) := by
    rw [Nat.add_assoc, List.drop_length_add_append, List.drop_succ_cons, List.drop_drop]
    congr 1
    omega
  rw [hw]
  simp only [Holds, emit, snprintfAt, hlen, if_pos (show text.length < out.length by omega), hn,
    List.take_length, List.take_left, hdrop, List.append_assoc, List.length_append]

/-! ## Lower case -/

theorem toLower_toLower : ∀ c, toLower (toLower c) = toLower c := by
  intro c
  simp only [toLower]
  grind

/-- `tolower` gives what is no letter only of itself. -/
theorem toLower_eq_iff {c d : UInt8} (h : d < 65 ∨ (90 < d ∧ d < 97) ∨ 122 < d) :
    toLower c = d ↔ c = d := by
  simp only [toLower, UInt8.le_iff_toNat_le, UInt8.lt_iff_toNat_lt, ← UInt8.toNat_inj] at h ⊢
  have hc := c.toNat_lt
  have hd := d.toNat_lt
  split
  · rename_i hl
    rw [UInt8.toNat_add]
    simp only [UInt8.reduceToNat] at h hl ⊢
    omega
  · exact Iff.rfl

theorem mem_map_toLower {b : Bytes} {d : UInt8} (h : d < 65 ∨ (90 < d ∧ d < 97) ∨ 122 < d) :
    d ∈ b.map toLower ↔ d ∈ b := by
  simp [toLower_eq_iff h]

theorem nulFree_map_toLower {b : Bytes} : NulFree (b.map toLower) ↔ NulFree b := by
  rw [NulFree, mem_map_toLower (by decide)]
  exact Iff.rfl

theorem map_toLower_idem (b : Bytes) : (b.map toLower).map toLower = b.map toLower := by
  simp [Function.comp_def, toLower_toLower]

end CString
