import NexusGateway.HttpHeader
import NexusGateway.Lib.Multimap
import NexusGateway.Lib.Slots

/- The header table as an ordered multimap.

   1. `header_ops_refine_multimap`: every sequence of `nexus_headers_add`,
      `nexus_headers_set` and `nexus_headers_remove` with NUL-free names acts on the
      lower-cased names and the values as the same sequence acts on an ordered
      multimap of capacity 32, with the same successes and failures.
   2. `headersGet_first_iff`: `nexus_headers_get` compares hashes only, so it returns
      the first entry of the name exactly when no entry of another name and the same
      hash stands before it. `headersGet_collision` is a table where one does. -/
namespace NexusGateway
open CString OrderedMultimap

/-- The multimap a table stands for. -/
def Headers.abs (h : Headers) : Multimap Bytes Bytes httpHeaderMax where
  pairs := h.entries.map (fun e => (e.name, e.value))
  fits := by rw [List.length_map]; exact h.count_le

/-- The multimap of an empty table. -/
def emptyTable : Multimap Bytes Bytes httpHeaderMax := Multimap.empty

inductive HeaderOp where
  | add (name value : Bytes)
  | set (name value : Bytes)
  | remove (name : Bytes)

def HeaderOp.name : HeaderOp → Bytes
  | .add n _ => n
  | .set n _ => n
  | .remove n => n

/-- One call, and what it returns (`nexus_headers_remove` returns nothing). -/
def headerStep (h : Headers) : HeaderOp → Headers × Int
  | .add n v => headersAdd h n v
  | .set n v => headersSet h n v
  | .remove n => (headersRemove h n, 0)

/-- A sequence of calls, with what each returns. -/
def runHeaderOps (h : Headers) : List HeaderOp → Headers × List Int
  | [] => (h, [])
  | op :: ops =>
    let r := headerStep h op
    let t := runHeaderOps r.1 ops
    (t.1, r.2 :: t.2)

/-- The multimap operation a call stands for: names in lower case, and of the
    strings of `nexus_headers_set` what C sees. -/
def HeaderOp.abs : HeaderOp → Multimap.Op Bytes Bytes
  | .add n v => .add (normalizeLower n) v
  | .set n v => .set (normalizeLower n) (cstr v)
  | .remove n => .remove (normalizeLower n)

/-- No stored name has a NUL. -/
def Headers.NulFreeNames (h : Headers) : Prop := ∀ e ∈ h.entries, NulFree e.name

/-! ## Names -/

theorem normalizeLowerStrdup_nulFree {n : Bytes} (h : NulFree n) :
    normalizeLowerStrdup n = normalizeLower n := by
  rw [normalizeLowerStrdup, cstr_of_nulFree h]

theorem isNamed_iff {e : Header} {n : Bytes} (he : NulFree e.name) (hn : NulFree n) :
    e.isNamed n = true ↔ e.name = normalizeLower n := by
  have hl := normalizeLower_nulFree.mpr hn
  rw [Header.isNamed, normalizeLowerStrdup_nulFree hn, Bool.and_eq_true, strEq,
    cstr_of_nulFree he, cstr_of_nulFree hl]
  simp only [beq_iff_eq]
  constructor
  · exact fun h => h.2
  · intro h
    exact ⟨by rw [e.hash_eq, h], h⟩

/-! ## The table refines the multimap -/

theorem headersRemove_abs {h : Headers} (hf : h.NulFreeNames) {n : Bytes} (hn : NulFree n) :
    (headersRemove h n).abs = h.abs.remove (normalizeLower n) := by
  apply Multimap.ext
  simp only [Headers.abs, headersRemove_entries, Multimap.remove, Multimap.others,
    List.filter_map]
  congr 1
  apply List.filter_congr
  intro e he
  have := isNamed_iff (hf e he) hn
  by_cases hm : e.name = normalizeLower n
  · simp [hm, this.mpr hm]
  · have hb : e.isNamed n = false := Bool.eq_false_iff.mpr (fun hb => hm (this.mp hb))
    simp [hm, hb]

theorem headersRemove_nulFree {h : Headers} (hf : h.NulFreeNames) (n : Bytes) :
    (headersRemove h n).NulFreeNames := by
  intro e he
  rw [headersRemove_entries] at he
  exact hf e (List.mem_filter.mp he).1

theorem headersAdd_abs (h : Headers) (n v : Bytes) :
    (headersAdd h n v).1.abs = (h.abs.add (normalizeLower n) v).1 ∧
    ((headersAdd h n v).2 = 0 ↔ (h.abs.add (normalizeLower n) v).2 = true) := by
  have hlen : h.abs.pairs.length = h.entries.length := by simp [Headers.abs]
  by_cases hc : h.entries.length < httpHeaderMax
  · obtain ⟨h1, h2⟩ := headersAdd_room hc n v
    have he : h.abs.add (normalizeLower n) v = (⟨h.abs.pairs ++ [(normalizeLower n, v)], _⟩, true) :=
      dif_pos (by omega)
    rw [he, h2]
    refine ⟨?_, by simp⟩
    apply Multimap.ext
    simp [Headers.abs, h1]
  · -- both are full, and refuse
    have hfull : h.entries.length = httpHeaderMax := Nat.le_antisymm h.count_le (by omega)
    have he : h.abs.add (normalizeLower n) v = (h.abs, false) := dif_neg (by omega)
    rw [headersAdd_full hfull, he]
    simp

theorem headersAdd_nulFree {h : Headers} (hf : h.NulFreeNames) {n : Bytes} (hn : NulFree n)
    (v : Bytes) : (headersAdd h n v).1.NulFreeNames := by
  intro e he
  by_cases hc : h.entries.length < httpHeaderMax
  · rw [(headersAdd_room hc n v).1, List.mem_append, List.mem_singleton] at he
    rcases he with he | rfl
    · exact hf e he
    · exact normalizeLower_nulFree.mpr hn
  · have hfull : h.entries.length = httpHeaderMax := Nat.le_antisymm h.count_le (by omega)
    rw [headersAdd_full hfull] at he
    exact hf e he

theorem headerStep_refines {h : Headers} (hf : h.NulFreeNames) {op : HeaderOp}
    (hn : NulFree op.name) :
    (headerStep h op).1.abs = (h.abs.apply op.abs).1 ∧
    ((headerStep h op).2 = 0 ↔ (h.abs.apply op.abs).2 = true) ∧
    (headerStep h op).1.NulFreeNames := by
  cases op with
  | add n v => exact ⟨(headersAdd_abs h n v).1, (headersAdd_abs h n v).2, headersAdd_nulFree hf hn v⟩
  | remove n => exact ⟨headersRemove_abs hf hn, by simp [headerStep, Multimap.apply, HeaderOp.abs],
      headersRemove_nulFree hf n⟩
  | set n v =>
    have hn : NulFree n := hn
    have hr := headersRemove_abs hf hn
    obtain ⟨h1, h2⟩ := headersAdd_abs (headersRemove h n) n (cstr v)
    rw [hr, Multimap.add_remove] at h1 h2
    simp only [headerStep, headersSet, cstr_of_nulFree hn]
    exact ⟨h1, h2, headersAdd_nulFree (headersRemove_nulFree hf n) hn _⟩

theorem runHeaderOps_refines {h : Headers} (hf : h.NulFreeNames) {ops : List HeaderOp}
    (hn : ∀ op ∈ ops, NulFree op.name) :
    (runHeaderOps h ops).1.abs = (h.abs.run (ops.map HeaderOp.abs)).1 ∧
    (runHeaderOps h ops).2.map (fun rc => decide (rc = 0)) =
      (h.abs.run (ops.map HeaderOp.abs)).2 ∧
    (runHeaderOps h ops).1.NulFreeNames := by
  induction ops generalizing h with
  | nil => exact ⟨rfl, rfl, hf⟩
  | cons op ops ih =>
    obtain ⟨h1, h2, h3⟩ := headerStep_refines hf (hn op (by simp))
    obtain ⟨i1, i2, i3⟩ := ih h3 (fun o ho => hn o (by simp [ho]))
    simp only [runHeaderOps, List.map_cons, Multimap.run]
    rw [h1] at i1 i2
    refine ⟨i1, ?_, i3⟩
    rw [i2]
    congr 1
    exact Bool.eq_iff_iff.mpr (by simpa using h2)

theorem headersInit_nulFree : headersInit.NulFreeNames := by
  intro e he
  simp at he

/-- **The table is an ordered multimap of capacity 32.** After any sequence of
    calls with NUL-free names from an empty table, its names and values are what
    the operations leave of an empty multimap, and each call returned 0 exactly
    when its operation succeeded. -/
theorem header_ops_refine_multimap (ops : List HeaderOp) (hn : ∀ op ∈ ops, NulFree op.name) :
    (runHeaderOps headersInit ops).1.abs = (emptyTable.run (ops.map HeaderOp.abs)).1 ∧
    (runHeaderOps headersInit ops).2.map (fun rc => decide (rc = 0)) =
      (emptyTable.run (ops.map HeaderOp.abs)).2 :=
  have h := runHeaderOps_refines headersInit_nulFree hn
  ⟨h.1, h.2.1⟩

/-- Forged address headers in two spellings, then removed and set again. -/
def sampleHeaderOps : List HeaderOp :=
  [.add (ascii "X-Real-IP") (ascii "fake"), .add (ascii "Host") (ascii "example.com"),
   .add (ascii "x-real-ip") (ascii "another_fake"), .remove (ascii "X-REAL-IP"),
   .set (ascii "HOST") (ascii "a.example"), .set (ascii "X-Real-IP") (ascii "10.0.0.1")]

theorem header_ops_refine_multimap_sample :
    (runHeaderOps headersInit sampleHeaderOps).1.abs.pairs =
      [(ascii "host", ascii "a.example"), (ascii "x-real-ip", ascii "10.0.0.1")] ∧
    (runHeaderOps headersInit sampleHeaderOps).1.abs =
      (emptyTable.run (sampleHeaderOps.map HeaderOp.abs)).1 ∧
    (runHeaderOps headersInit sampleHeaderOps).2.map (fun rc => decide (rc = 0)) =
      (emptyTable.run (sampleHeaderOps.map HeaderOp.abs)).2 :=
  ⟨by decide +kernel, header_ops_refine_multimap sampleHeaderOps (by decide)⟩

/-! ## Lookup -/

/-- The entry whose value `nexus_headers_get` returns is the first of the name, and
    the value is the multimap's. -/
def LookupIsFirst (h : Headers) (n : Bytes) : Prop :=
  headersGet h n = h.abs.lookup (normalizeLower n) ∧
  ∀ e, headersFind h n = some e → e.name = normalizeLower n

/-- No entry of another name and the same hash stands before the first entry of
    the name (or anywhere, when the name has none). -/
def NotShadowed (h : Headers) (n : Bytes) : Prop :=
  ∀ pre e post, h.entries = pre ++ e :: post → e.hash = hashFnv1a (normalizeLower n) →
    e.name ≠ normalizeLower n → ∃ e' ∈ pre, e'.name = normalizeLower n

theorem abs_lookup (h : Headers) (k : Bytes) :
    h.abs.lookup k = (h.entries.find? (fun e => decide (e.name = k))).map Header.value := by
  rw [Multimap.lookup, Headers.abs, List.find?_map]
  simp only [Option.map_map]
  rfl

theorem hash_of_name {e : Header} {k : Bytes} (h : e.name = k) : e.hash = hashFnv1a k := by
  rw [e.hash_eq, h]

theorem named_hash (k : Bytes) (e : Header) (h : decide (e.name = k) = true) :
    (e.hash == hashFnv1a k) = true :=
  beq_iff_eq.mpr (hash_of_name (of_decide_eq_true h))

theorem notShadowed_iff (h : Headers) (n : Bytes) :
    NotShadowed h n ↔ Slots.Unshadowed (fun e => decide (e.name = normalizeLower n))
      (fun e => e.hash == hashFnv1a (normalizeLower n)) h.entries := by
  simp only [NotShadowed, Slots.Unshadowed, beq_iff_eq, decide_eq_true_eq, decide_eq_false_iff_not,
    ne_eq]

theorem lookupIsFirst_iff {h : Headers} {n : Bytes} (hn : NulFree n) :
    LookupIsFirst h n ↔ NotShadowed h n := by
  have hfind : headersFind h n =
      h.entries.find? (fun e => e.hash == hashFnv1a (normalizeLower n)) := by
    rw [headersFind, normalizeLowerStrdup_nulFree hn]
  rw [notShadowed_iff, LookupIsFirst, headersGet, abs_lookup, hfind]
  constructor
  · intro hyp
    refine (Slots.find?_passes_iff (named_hash _)).mp fun e he => ?_
    exact decide_eq_true (hyp.2 e he)
  · intro hns
    have hsame := Slots.find?_of_findIdx? ((Slots.findIdx?_weaker_iff (named_hash _)).mpr hns)
    refine ⟨by rw [hsame], fun e he => ?_⟩
    exact of_decide_eq_true ((Slots.find?_passes_iff (named_hash _)).mpr hns e he)

/-- **Lookup is right exactly where no collision shadows the name.** For every table
    the calls can build, also with other names than NUL-free ones, and every
    NUL-free name asked for. -/
theorem headersGet_first_iff (ops : List HeaderOp) (n : Bytes) (hn : NulFree n) :
    LookupIsFirst (runHeaderOps headersInit ops).1 n ↔
      NotShadowed (runHeaderOps headersInit ops).1 n :=
  lookupIsFirst_iff hn

theorem headersGet_first_iff_sample :
    LookupIsFirst (runHeaderOps headersInit sampleHeaderOps).1 (ascii "Host") ↔
      NotShadowed (runHeaderOps headersInit sampleHeaderOps).1 (ascii "Host") :=
  headersGet_first_iff sampleHeaderOps (ascii "Host") (by decide)

/-- `czbexhl` has the hash of `host`: asked for `Host`, the table gives its value. -/
theorem headersGet_collision :
    headersGet (runHeaderOps headersInit
        [.add (ascii "czbexhl") (ascii "evil"), .add (ascii "Host") (ascii "example.com")]).1
      (ascii "Host") = some (ascii "evil") ∧
    ¬ LookupIsFirst (runHeaderOps headersInit
        [.add (ascii "czbexhl") (ascii "evil"), .add (ascii "Host") (ascii "example.com")]).1
      (ascii "Host") := by
  refine ⟨by decide +kernel, fun h => ?_⟩
  have h1 := h.1
  revert h1
  decide +kernel

end NexusGateway
