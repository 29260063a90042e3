import NexusGateway.Lib.CString

/- The header table (`http_header.c`, and `nexus_hash_fnv1a` of `util.c`).

   An entry holds the lower-cased name, the value and the FNV-1a hash of the name;
   the two strings are heap buffers written with explicit lengths, so they may
   contain NULs that `strcmp` and `%s` do not see past. The table has 32 places.
   A `Header` is only built by `mk'`, which is what `nexus_headers_add` stores, and
   carries that its hash is its name's and that its name is in lower case. -/
namespace NexusGateway
open CString

/-- `nexus_hash_fnv1a`. -/
def hashFnv1a (s : Bytes) : UInt32 :=
  s.foldl (fun h c => (h ^^^ c.toUInt32) * 16777619) 2166136261

/-- `NEXUS_HTTP_HEADER_MAX`. -/
def httpHeaderMax : Nat := 32

/-- `normalize_lower`, on the bytes of a given length. -/
def normalizeLower (s : Bytes) : Bytes := s.map toLower

/-- `normalize_lower_strdup`. -/
def normalizeLowerStrdup (s : Bytes) : Bytes := normalizeLower (cstr s)

/-- `nexus_header_t`: the buffers without their final NUL. -/
structure Header where
  hash : UInt32
  name : Bytes
  value : Bytes
  hash_eq : hash = hashFnv1a name
  lower_eq : normalizeLower name = name
  deriving DecidableEq, Repr

/-- The name `%s` and `strcmp` see. -/
def Header.cname (e : Header) : Bytes := cstr e.name

/-- The entry `nexus_headers_add` writes. -/
def Header.mk' (name value : Bytes) : Header where
  hash := hashFnv1a (normalizeLower name)
  name := normalizeLower name
  value := value
  hash_eq := rfl
  lower_eq := map_toLower_idem name

/-- `nexus_headers_t`: the first `count` entries of the array. -/
structure Headers where
  entries : List Header
  count_le : entries.length ≤ httpHeaderMax
  deriving DecidableEq, Repr

/-- `nexus_headers_init`. -/
def headersInit : Headers := ⟨[], Nat.zero_le _⟩

/-- `nexus_headers_add`, and what it returns. -/
def headersAdd (h : Headers) (name value : Bytes) : Headers × Int :=
  if hc : h.entries.length ≥ httpHeaderMax then (h, -1)
  else (⟨h.entries ++ [Header.mk' name value], push_length_le hc _⟩, 0)

/-- `nexus_headers_get`: the entry its loop stops at, by hash alone. -/
def headersFind (h : Headers) (name : Bytes) : Option Header :=
  h.entries.find? (fun e => e.hash == hashFnv1a (normalizeLowerStrdup name))

/-- `nexus_headers_get`: the value at the pointer it returns, `none` for `NULL`. -/
def headersGet (h : Headers) (name : Bytes) : Option Bytes :=
  (headersFind h name).map Header.value

/-- The test of `nexus_headers_remove`: the hash, and then `strcmp`. -/
def Header.isNamed (name : Bytes) (e : Header) : Bool :=
  e.hash == hashFnv1a (normalizeLowerStrdup name) && strEq e.name (normalizeLowerStrdup name)

/-- The scan of `nexus_headers_remove` from index `i`: a hit is shifted out and
    the same index looked at again. Each pass shortens what is left of the array
    by one, so its length bounds the passes. -/
def removeFrom (name : Bytes) : Nat → Nat → List Header → List Header
  | 0, _, es => es
  | fuel + 1, i, es =>
    match es[i]? with
    | none => es
    | some e =>
      if e.isNamed name then removeFrom name fuel i (es.eraseIdx i)
      else removeFrom name fuel (i + 1) es

theorem removeFrom_length_le (name : Bytes) (fuel i : Nat) (es : List Header) :
    (removeFrom name fuel i es).length ≤ es.length := by
  induction fuel generalizing i es with
  | zero => exact Nat.le_refl _
  | succ fuel ih =>
    rw [removeFrom]
    split
    · exact Nat.le_refl _
    · split
      · exact Nat.le_trans (ih _ _) (List.length_eraseIdx_le _ _)
      · exact ih _ _

/-- `nexus_headers_remove`. -/
def headersRemove (h : Headers) (name : Bytes) : Headers where
  entries := removeFrom name h.entries.length 0 h.entries
  count_le := Nat.le_trans (removeFrom_length_le _ _ _ _) h.count_le

/-- `nexus_headers_set`: the removal stays also when the addition then fails. -/
def headersSet (h : Headers) (name value : Bytes) : Headers × Int :=
  headersAdd (headersRemove h name) (cstr name) (cstr value)

/-! ## What the operations do -/

@[ext] theorem Header.ext' {a b : Header} (hn : a.name = b.name) (hv : a.value = b.value) :
    a = b := by
  obtain ⟨_, _, _, ha, _⟩ := a
  obtain ⟨_, _, _, hb, _⟩ := b
  cases hn; cases hv; cases ha; cases hb
  rfl

@[ext] theorem Headers.ext {a b : Headers} (h : a.entries = b.entries) : a = b := by
  cases a; cases b; cases h; rfl

@[simp] theorem Header.mk'_name (n v : Bytes) : (Header.mk' n v).name = normalizeLower n := rfl
@[simp] theorem Header.mk'_value (n v : Bytes) : (Header.mk' n v).value = v := rfl
@[simp] theorem headersInit_entries : headersInit.entries = [] := rfl

/-- The scan deletes every hit behind it and keeps the rest in order: what it
    has passed stays, and no adjacent hit is skipped. -/
theorem removeFrom_eq (name : Bytes) (fuel i : Nat) (es : List Header)
    (h : es.length ≤ fuel + i) :
    removeFrom name fuel i es = es.take i ++ (es.drop i).filter (fun e => !e.isNamed name) := by
  induction fuel generalizing i es with
  | zero =>
    rw [removeFrom, List.take_of_length_le (by omega), List.drop_eq_nil_of_le (by omega)]
    simp
  | succ fuel ih =>
    rw [removeFrom]
    split
    · rename_i hn
      have hle : es.length ≤ i := List.getElem?_eq_none_iff.mp hn
      rw [List.take_of_length_le hle, List.drop_eq_nil_of_le hle]
      simp
    · rename_i e he
      obtain ⟨hi, hei⟩ := List.getElem?_eq_some_iff.mp he
      have hd : es.drop i = e :: es.drop (i + 1) := by
        rw [List.drop_eq_getElem_cons hi, hei]
      split
      · rename_i hm
        have hl : (es.eraseIdx i).length = es.length - 1 := List.length_eraseIdx_of_lt hi
        have htl : (es.take i).length = i := by rw [List.length_take]; omega
        rw [ih i _ (by omega), List.eraseIdx_eq_take_drop_succ, List.take_left' htl,
          List.drop_left' htl, hd, List.filter_cons_of_neg (by simpa using hm)]
      · rename_i hm
        rw [ih (i + 1) _ (by omega), hd, List.filter_cons_of_pos (by simpa using hm),
          ← List.take_append_getElem hi, hei]
        simp

@[simp] theorem headersRemove_entries (h : Headers) (name : Bytes) :
    (headersRemove h name).entries = h.entries.filter (fun e => !e.isNamed name) := by
  have := removeFrom_eq name h.entries.length 0 h.entries (by omega)
  simpa [headersRemove] using this

theorem normalizeLower_nulFree {n : Bytes} : NulFree (normalizeLower n) ↔ NulFree n :=
  nulFree_map_toLower

@[simp] theorem cstr_normalizeLowerStrdup (n : Bytes) :
    cstr (normalizeLowerStrdup n) = normalizeLowerStrdup n :=
  cstr_of_nulFree (normalizeLower_nulFree.mpr (cstr_nulFree n))

theorem headersAdd_room {h : Headers} (hc : h.entries.length < httpHeaderMax) (n v : Bytes) :
    (headersAdd h n v).1.entries = h.entries ++ [Header.mk' n v] ∧ (headersAdd h n v).2 = 0 := by
  rw [headersAdd, dif_neg (by omega)]
  exact ⟨rfl, rfl⟩

theorem headersAdd_full {h : Headers} (hc : h.entries.length = httpHeaderMax) (n v : Bytes) :
    headersAdd h n v = (h, -1) := by
  rw [headersAdd, dif_pos (by omega)]

end NexusGateway
