import NexusGateway.Lib.CString
import NexusGateway.Lib.Lines
import Mathlib.Data.List.DropRight

/- The configuration (`config.c`).

   `nexus_config_load` reads the file by `fgets` into a 1024-byte line, keeps the
   section, and stores a `section.key` and a value for each line with an equals
   sign; then it cuts the value of `http_rewrite.add_header` at commas, and each
   piece at its first colon, into the custom headers.

   A stored string is text that stood on one line: `Kv` and `CustomHeader` carry
   that, so no value of a loaded configuration has a line feed, and no custom
   header's name has a colon. -/
namespace NexusGateway
open CString

/-- `MAX_KV`. -/
def maxKv : Nat := 256

/-- `MAX_CUSTOM_HEADERS`. -/
def maxCustomHeaders : Nat := 32

/-- `kv_t`. -/
structure Kv where
  key : Bytes
  value : Bytes
  key_line : LineText key
  value_line : LineText value
  deriving DecidableEq, Repr

/-- A row of `custom_headers`. -/
structure CustomHeader where
  name : CharArray 128
  value : CharArray 128
  name_line : LineText name.text ∧ colon ∉ name.text
  value_line : LineText value.text
  deriving DecidableEq, Repr

/-- `nexus_config_t` once it is loaded. -/
structure Config where
  kvs : List Kv
  customHeaders : List CustomHeader
  kvs_le : kvs.length ≤ maxKv
  customHeaders_le : customHeaders.length ≤ maxCustomHeaders
  deriving DecidableEq, Repr

/-! ## Reading lines -/

/-- At most the last byte is a line feed. -/
def LfLast (x : Bytes) : Prop := ∀ p q, x = p ++ lf :: q → q = []

theorem LfLast.of_infix {x s : Bytes} (hs : LfLast s) (h : x <:+: s) : LfLast x := by
  obtain ⟨a, c, rfl⟩ := h
  rintro p q rfl
  have := hs (a ++ p) (q ++ c) (by simp)
  exact (List.append_eq_nil_iff.mp this).1

theorem lfLast_of_not_mem {x : Bytes} (h : lf ∉ x) : LfLast x := by
  rintro p q rfl
  exact absurd (by simp) h

theorem lfLast_of_idxOf? {x : Bytes} {k : Nat} (h : x.idxOf? lf = some k) :
    LfLast (x.take (k + 1)) := by
  obtain ⟨_, hn⟩ := idxOf?_some h
  intro p q he
  apply Classical.byContradiction
  intro hq
  have hpos := List.length_pos_of_ne_nil hq
  have hlen := congrArg List.length he
  simp only [List.length_take, List.length_append, List.length_cons] at hlen
  obtain ⟨j, hj⟩ : ∃ j, k - p.length = j + 1 := ⟨k - p.length - 1, by omega⟩
  -- a line feed in front of the last byte would stand in front of the first one
  have htk := congrArg (List.take k) he
  rw [List.take_take, Nat.min_eq_left (by omega), List.take_append, hj, List.take_succ_cons] at htk
  exact hn (htk ▸ by simp)

/-- What a call of `fgets` stores. -/
structure FileLine where
  text : Bytes
  lf_last : LfLast text

/-- `fgets(line, size, f)` where `file` is what is left to read: the bytes stored,
    and what is left after them. -/
def fgets (size : Nat) (file : Bytes) : FileLine × Bytes :=
  match h : (file.take (size - 1)).idxOf? lf with
  | some k => (⟨(file.take (size - 1)).take (k + 1), lfLast_of_idxOf? h⟩, file.drop (k + 1))
  | none => (⟨file.take (size - 1), lfLast_of_not_mem (idxOf?_eq_none.mp h)⟩, file.drop (size - 1))

/-- What the calls of a loop store, in order. Each call reads a byte, so the length
    of the file bounds the calls. -/
def fgetsAll (size : Nat) : Nat → Bytes → List FileLine
  | 0, _ => []
  | fuel + 1, file =>
    if file.isEmpty then []
    else (fgets size file).1 :: fgetsAll size fuel (fgets size file).2

theorem fgets_cut {size : Nat} (file : Bytes) (hs : 2 ≤ size) :
    (fgets size file).1.text ++ (fgets size file).2 = file ∧
    (fgets size file).2.length ≤ file.length - 1 := by
  unfold fgets
  split
  · rename_i k hk
    have hlt := idxOf?_lt hk
    rw [List.length_take] at hlt
    constructor
    · show (file.take (size - 1)).take (k + 1) ++ file.drop (k + 1) = file
      rw [List.take_take, Nat.min_eq_left (by omega), List.take_append_drop]
    · show (file.drop (k + 1)).length ≤ _
      rw [List.length_drop]
      omega
  · constructor
    · exact List.take_append_drop _ _
    · show (file.drop (size - 1)).length ≤ _
      rw [List.length_drop]
      omega

/-- The calls store the whole file, in order. -/
theorem fgetsAll_flatten {size : Nat} (hs : 2 ≤ size) {fuel : Nat} {file : Bytes}
    (h : file.length ≤ fuel) : ((fgetsAll size fuel file).map FileLine.text).flatten = file := by
  induction fuel generalizing file with
  | zero =>
    have h0 : file = [] := List.eq_nil_of_length_eq_zero (Nat.le_zero.mp h)
    rw [h0]
    rfl
  | succ fuel ih =>
    obtain ⟨hcut, hrest⟩ := fgets_cut file hs
    rw [fgetsAll]
    split
    · rename_i he
      rw [List.isEmpty_iff.mp he]
      rfl
    · rw [List.map_cons, List.flatten_cons, ih (by omega), hcut]

/-- `trim`. -/
def trim (s : Bytes) : Bytes := ((cstr s).dropWhile isSpace).rdropWhile isSpace

theorem trim_sublist_cstr (s : Bytes) : (trim s).Sublist (cstr s) :=
  (List.rdropWhile_prefix _ _).sublist.trans (List.dropWhile_sublist _)

theorem trim_sublist (s : Bytes) : (trim s).Sublist s :=
  (trim_sublist_cstr s).trans (cstr_isPrefix s).sublist

theorem trim_nulFree (s : Bytes) : NulFree (trim s) :=
  (cstr_nulFree s).of_sublist (trim_sublist_cstr s)

theorem trim_lineText {s : Bytes} (h : LfLast s) : LineText (trim s) := by
  have hpre : trim s <+: (cstr s).dropWhile isSpace := List.rdropWhile_prefix _ _
  have hsuf : (cstr s).dropWhile isSpace <:+ cstr s := List.dropWhile_suffix _
  refine ⟨trim_nulFree s, fun hm => ?_⟩
  have hin : trim s <:+: s :=
    (hpre.isInfix.trans hsuf.isInfix).trans (cstr_isPrefix s).isInfix
  obtain ⟨p, q, he⟩ := List.append_of_mem hm
  have hq : q = [] := h.of_infix hin p q he
  subst hq
  -- the last byte left is no space, and a line feed is one
  have hne : trim s ≠ [] := by rw [he]; simp
  have hlast := List.rdropWhile_last_not isSpace ((cstr s).dropWhile isSpace) hne
  have hget : (trim s).getLast hne = lf := by simp [he]
  simp only [trim] at hget
  rw [hget] at hlast
  exact hlast (by decide)

/-! ## Loading -/

/-- The state of the loop of `nexus_config_load`. -/
structure ConfigState where
  currentSection : Bytes
  section_line : LineText currentSection
  kvs : List Kv
  kvs_le : kvs.length ≤ maxKv

/-- `snprintf(compound, 256, "%s.%s", section, key)`. -/
def compoundKey (sec key : Bytes) : Bytes := (cstr sec ++ ascii "." ++ cstr key).take 255

theorem compoundKey_lineText {sec key : Bytes} (hs : LineText sec) (hk : LineText key) :
    LineText (compoundKey sec key) := by
  refine LineText.of_sublist (b := sec ++ ascii "." ++ key) ?_ ?_
  · constructor
    · exact (hs.1.append (by decide)).append hk.1
    · simp only [List.mem_append, not_or]
      exact ⟨⟨hs.2, by decide⟩, hk.2⟩
  · rw [compoundKey, cstr_of_nulFree hs.1, cstr_of_nulFree hk.1]
    exact List.take_sublist _ _

/-- The loop's body on one line. -/
def configLine (st : ConfigState) (line : FileLine) : ConfigState :=
  let p := trim line.text
  have hp : LineText p := trim_lineText line.lf_last
  match p.head? with
  | none => st
  | some c =>
    if c = 35 ∨ c = 59 then st -- `#` and `;`
    else if c = 91 then -- `[`
      match strchr p 93 with
      | none => st
      | some e =>
        { st with
          currentSection := (p.take e).drop 1
          section_line := hp.of_sublist ((List.drop_sublist _ _).trans (List.take_sublist _ _)) }
    else
      match strchr p 61 with
      | none => st
      | some eq =>
        if hc : st.kvs.length ≥ maxKv then st
        else
          let k := trim (p.take eq)
          let v := trim (p.drop (eq + 1))
          have hk : LineText k := (hp.of_sublist (List.take_sublist _ _)).of_sublist (trim_sublist _)
          have hv : LineText v := (hp.of_sublist (List.drop_sublist _ _)).of_sublist (trim_sublist _)
          { st with
            kvs := st.kvs ++ [⟨compoundKey st.currentSection k, v,
              compoundKey_lineText st.section_line hk, hv⟩]
            kvs_le := push_length_le hc _ }

/-- The state in front of the first line. -/
def configStart : ConfigState where
  currentSection := ascii "default"
  section_line := by decide
  kvs := []
  kvs_le := Nat.zero_le _

/-- The lookup of `nexus_config_get` among the pairs stored. -/
def kvsGet (kvs : List Kv) (sec key : Bytes) : Option Kv :=
  kvs.find? (fun kv => strEq kv.key (compoundKey sec key))

/-- The pieces between commas. -/
def splitComma : Bytes → List Bytes
  | [] => [[]]
  | c :: t => if c = comma then [] :: splitComma t else Lines.consFirst c (splitComma t)

theorem mem_splitComma {s p : Bytes} (h : p ∈ splitComma s) : p.Sublist s := by
  induction s generalizing p with
  | nil =>
    rw [List.mem_singleton.mp h]
  | cons c t ih =>
    rw [splitComma] at h
    split at h
    · rcases List.mem_cons.mp h with rfl | h
      · exact List.nil_sublist _
      · exact (ih h).cons c
    · cases hs : splitComma t with
      | nil =>
        rw [hs] at h
        cases h
      | cons q qs =>
        rw [hs] at h ih
        rcases List.mem_cons.mp h with rfl | h
        · exact (ih (by simp)).cons_cons c
        · exact (ih (by simp [h])).cons c

/-- What one piece gives: the text before its first colon and the text after it,
    each cut to 127 bytes. -/
def customHeader (token : Bytes) (ht : LineText token) : Option CustomHeader :=
  match h : strchr token colon with
  | none => none
  | some i =>
    have hn : LineText (token.take i) := ht.of_sublist (List.take_sublist _ _)
    have hv : LineText (token.drop (i + 1)) := ht.of_sublist (List.drop_sublist _ _)
    some {
      name := .snprintf size128_pos (token.take i)
      value := .snprintf size128_pos (token.drop (i + 1))
      name_line := by
        have hsub := CharArray.snprintf_sublist size128_pos (token.take i)
        exact ⟨hn.of_sublist hsub, fun hc => (strchr_some h).2.1 (hsub.subset hc)⟩
      value_line := hv.of_sublist (CharArray.snprintf_sublist _ _) }

/-- The loop over the pieces: it stops when the table is full. -/
def addCustomHeaders (acc : List CustomHeader) :
    (tokens : List Bytes) → (∀ t ∈ tokens, LineText t) → List CustomHeader
  | [], _ => acc
  | token :: rest, h =>
    if acc.length < maxCustomHeaders then
      addCustomHeaders (acc ++ (customHeader token (h token (by simp))).toList) rest
        (fun t ht => h t (by simp [ht]))
    else acc

theorem addCustomHeaders_le {acc : List CustomHeader} (hacc : acc.length ≤ maxCustomHeaders)
    (tokens : List Bytes) (h : ∀ t ∈ tokens, LineText t) :
    (addCustomHeaders acc tokens h).length ≤ maxCustomHeaders := by
  induction tokens generalizing acc with
  | nil => exact hacc
  | cons token rest ih =>
    rw [addCustomHeaders]
    split
    · apply ih
      rw [List.length_append]
      have : (customHeader token (h token (by simp))).toList.length ≤ 1 := by
        cases customHeader token (h token (by simp)) <;> simp
      omega
    · exact hacc

/-- `nexus_config_load` of a file with this text. -/
def configLoad (file : Bytes) : Config :=
  let st := (fgetsAll 1024 file.length file).foldl configLine configStart
  match kvsGet st.kvs (ascii "http_rewrite") (ascii "add_header") with
  | none => ⟨st.kvs, [], st.kvs_le, Nat.zero_le _⟩
  | some kv =>
    have ht : ∀ t ∈ splitComma kv.value, LineText t := fun _ ht =>
      kv.value_line.of_sublist (mem_splitComma ht)
    ⟨st.kvs, addCustomHeaders [] (splitComma kv.value) ht, st.kvs_le,
      addCustomHeaders_le (Nat.zero_le _) _ ht⟩

/-- `nexus_config_get`. -/
def configGet (cfg : Config) (sec key : Bytes) : Option Bytes :=
  (kvsGet cfg.kvs sec key).map Kv.value

/-- `nexus_config_get_custom_headers`. The strings are shorter than the 127 bytes
    copied, so the copies are whole. -/
def configGetCustomHeaders (cfg : Config) (maxCount : Nat) : List CustomHeader :=
  cfg.customHeaders.take maxCount

/-- Both custom headers of a line, trimmed at its ends only. -/
example : ((configLoad (ascii "[http_rewrite]\n add_header = X-A:1, B:2 \n")).customHeaders.map
    fun h => (h.name.text, h.value.text)) = [(ascii "X-A", ascii "1"), (ascii " B", ascii "2")] := by
  decide +kernel

end NexusGateway
