import NexusGateway.Config
import NexusGateway.Lib.Slots

/- What the configuration file says, line by line (`nexus_config_load` of `config.c`).

   The loop reads the file with `fgets` into a buffer of 1024 bytes and takes each piece
   for a line. A line of more than 1023 bytes comes in several pieces, and a later piece
   is read as if it stood on a line of its own. -/
namespace NexusGateway
open CString Lines

/-- What a line says. -/
inductive ConfigItem where
  | header (name : Bytes)
  | setting (key value : Bytes)
  deriving DecidableEq, Repr

/-- What a trimmed line says: nothing if it is blank, a comment, a header that is not closed
    or has no equals sign. -/
def itemOf (p : Bytes) : Option ConfigItem :=
  match p.head? with
  | none => none
  | some c =>
    if c = 35 ∨ c = 59 then none -- `#` and `;`
    else if c = 91 then (strchr p 93).map fun e => .header ((p.take e).drop 1) -- `[` and `]`
    else (strchr p 61).map fun eq => .setting (trim (p.take eq)) (trim (p.drop (eq + 1))) -- `=`

/-- What a line says when it is read as a whole; its text ends at its first NUL. -/
def lineItem (line : Bytes) : Option ConfigItem := itemOf (trim line)

/-- A key and its value in their section. -/
structure Setting where
  sec : Bytes
  key : Bytes
  value : Bytes
  deriving DecidableEq, Repr

/-- The settings that lines make which say this, the first of them in the section `sec`. -/
def settingsFrom : Bytes → List ConfigItem → List Setting
  | _, [] => []
  | _, .header name :: items => settingsFrom name items
  | sec, .setting key value :: items => ⟨sec, key, value⟩ :: settingsFrom sec items

/-- The settings of a file whose lines end at newlines only. -/
def fileSettings (file : Bytes) : List Setting :=
  settingsFrom (ascii "default") ((endedLines lf file).filterMap lineItem)

/-- What the calls of `fgets` store of a text. -/
def pieces (text : Bytes) : List Bytes := (fgetsAll 1024 text.length text).map FileLine.text

/-- The settings that the loop finds in the pieces. -/
def loopSettings (file : Bytes) : List Setting :=
  settingsFrom (ascii "default") ((pieces file).filterMap lineItem)

/-! ## The loop -/

/-- What is stored of a setting. -/
def Setting.stored (t : Setting) : Bytes × Bytes := (compoundKey t.sec t.key, t.value)

def Kv.stored (kv : Kv) : Bytes × Bytes := (kv.key, kv.value)

theorem configLine_cases (st : ConfigState) (line : FileLine) :
    (lineItem line.text = none ∧ configLine st line = st) ∨
    (∃ name, lineItem line.text = some (.header name) ∧
      (configLine st line).currentSection = name ∧ (configLine st line).kvs = st.kvs) ∨
    ∃ key value, lineItem line.text = some (.setting key value) ∧
      (configLine st line).currentSection = st.currentSection ∧
      (configLine st line).kvs.map Kv.stored =
        (st.kvs.map Kv.stored ++ [Setting.stored ⟨st.currentSection, key, value⟩]).take maxKv := by
  unfold configLine lineItem itemOf
  dsimp only
  cases (trim line.text).head? with
  | none => exact .inl ⟨rfl, rfl⟩
  | some c =>
    dsimp only
    by_cases hcomment : c = 35 ∨ c = 59
    · simp only [if_pos hcomment, and_self, true_or]
    by_cases hheader : c = 91
    · simp only [if_neg hcomment, if_pos hheader]
      cases strchr (trim line.text) 93 with
      | none => exact .inl ⟨rfl, rfl⟩
      | some e => exact .inr (.inl ⟨_, rfl, rfl, rfl⟩)
    simp only [if_neg hcomment, if_neg hheader]
    cases strchr (trim line.text) 61 with
    | none => exact .inl ⟨rfl, rfl⟩
    | some eq =>
      refine .inr (.inr ⟨_, _, rfl, ?_⟩)
      have hle := st.kvs_le
      dsimp only
      split
      · rename_i hfull
        refine ⟨rfl, ?_⟩
        rw [List.take_append_of_le_length (by rw [List.length_map]; exact hfull),
          List.take_of_length_le (by rw [List.length_map]; exact hle)]
      · rename_i hroom
        refine ⟨rfl, ?_⟩
        have hlen : (st.kvs.map Kv.stored).length + 1 ≤ maxKv := by
          rw [List.length_map]
          omega
        rw [List.map_append]
        exact (List.take_of_length_le (by rwa [List.length_append])).symm

theorem take_take_append {α : Type} (n : Nat) (a b : List α) :
    (a.take n ++ b).take n = (a ++ b).take n := by
  by_cases h : a.length ≤ n
  · rw [List.take_of_length_le h]
  · rw [List.take_append_of_le_length (by rw [List.length_take]; omega), List.take_take,
      Nat.min_self, List.take_append_of_le_length (by omega)]

/-- What the loop stores of lines that say this: the settings, up to the table's end. -/
theorem configLine_foldl (lines : List FileLine) : ∀ st : ConfigState,
    (lines.foldl configLine st).kvs.map Kv.stored =
      (st.kvs.map Kv.stored ++ (settingsFrom st.currentSection
        ((lines.map FileLine.text).filterMap lineItem)).map Setting.stored).take maxKv := by
  induction lines with
  | nil =>
    intro st
    simp [settingsFrom, List.take_of_length_le, st.kvs_le]
  | cons line lines ih =>
    intro st
    rw [List.foldl_cons, ih, List.map_cons, List.filterMap_cons]
    obtain ⟨hitem, hst⟩ | ⟨name, hitem, hsec, hkvs⟩ | ⟨key, value, hitem, hsec, hkvs⟩ :=
      configLine_cases st line
    · rw [hitem, hst]
    · rw [hitem, hsec, hkvs]
      rfl
    · rw [hitem, hsec, hkvs, take_take_append, List.append_assoc]
      rfl

theorem configLoad_kvs (file : Bytes) :
    (configLoad file).kvs.map Kv.stored = ((loopSettings file).take maxKv).map Setting.stored := by
  have hload : (configLoad file).kvs =
      ((fgetsAll 1024 file.length file).foldl configLine configStart).kvs := by
    unfold configLoad
    dsimp only
    split <;> rfl
  rw [hload, configLine_foldl, List.map_take]
  rfl

/-! ## The pieces of a file -/

theorem fgetsAll_enough {size : Nat} (hs : 2 ≤ size) (fuel : Nat) : ∀ {more : Nat} {file : Bytes},
    file.length ≤ fuel → file.length ≤ more → fgetsAll size fuel file = fgetsAll size more file := by
  induction fuel with
  | zero =>
    intro more file h _
    rw [List.eq_nil_of_length_eq_zero (Nat.le_zero.mp h)]
    cases more <;> rfl
  | succ fuel ih =>
    intro more file h hmore
    cases more with
    | zero =>
      rw [List.eq_nil_of_length_eq_zero (Nat.le_zero.mp hmore)]
      rfl
    | succ more =>
      have hrest := (fgets_cut file hs).2
      have hsame : fgetsAll size fuel (fgets size file).2 = fgetsAll size more (fgets size file).2 :=
        ih (Nat.le_trans hrest (by omega)) (by omega)
      rw [fgetsAll, fgetsAll, hsame]

@[simp] theorem pieces_nil : pieces [] = [] := rfl

theorem pieces_cons {text : Bytes} (h : text ≠ []) :
    pieces text = (fgets 1024 text).1.text :: pieces (fgets 1024 text).2 := by
  obtain ⟨n, hn⟩ : ∃ n, text.length = n + 1 :=
    Nat.exists_eq_succ_of_ne_zero (List.length_pos_of_ne_nil h).ne'
  have hrest : (fgets 1024 text).2.length ≤ text.length - 1 := (fgets_cut text (by decide)).2
  rw [pieces, hn, fgetsAll, if_neg (by rwa [List.isEmpty_iff]), List.map_cons, pieces]
  congr 2
  exact fgetsAll_enough (by decide) n (by omega) (Nat.le_refl _)

theorem pieces_flatten (text : Bytes) : (pieces text).flatten = text :=
  fgetsAll_flatten (by decide) (Nat.le_refl _)

theorem fgets_line {body : Bytes} (h : lf ∉ body) (hlen : body.length < 1023) (rest : Bytes) :
    (fgets 1024 (body ++ lf :: rest)).1.text = body ++ [lf] ∧
    (fgets 1024 (body ++ lf :: rest)).2 = rest := by
  have htake : (body ++ lf :: rest).take 1023 = body ++ lf :: rest.take (1022 - body.length) := by
    rw [List.take_append, List.take_of_length_le (by omega)]
    obtain ⟨n, hn⟩ : ∃ n, 1023 - body.length = n + 1 := ⟨1022 - body.length, by omega⟩
    rw [hn, List.take_succ_cons]
    congr 3
    omega
  have hdrop : (body ++ lf :: rest).drop (body.length + 1) = rest := by
    rw [List.drop_append, List.drop_eq_nil_of_le (by omega)]
    simp
  unfold fgets
  split
  · rename_i k hk
    rw [htake, idxOf?_append h] at hk
    cases hk
    refine ⟨?_, hdrop⟩
    dsimp only
    rw [htake, List.take_append]
    simp
  · rename_i hnone
    rw [htake, idxOf?_append h] at hnone
    cases hnone

theorem fgets_full {text : Bytes} (h : lf ∉ text.take 1023) :
    (fgets 1024 text).1.text = text.take 1023 ∧ (fgets 1024 text).2 = text.drop 1023 := by
  unfold fgets
  split
  · rename_i k hk
    refine absurd ?_ h
    show lf ∈ text.take (1024 - 1)
    rw [(idxOf?_some hk).1]
    simp
  · exact ⟨rfl, rfl⟩

theorem pieces_line (rest : Bytes) (n : Nat) : ∀ {body : Bytes}, body.length = n → lf ∉ body →
    pieces (body ++ lf :: rest) = pieces (body ++ [lf]) ++ pieces rest := by
  induction n using Nat.strong_induction_on with
  | _ n ih =>
    intro body hn h
    have hne : body ++ [lf] ≠ [] := by simp
    rw [pieces_cons (by simp), pieces_cons hne]
    by_cases hlen : body.length < 1023
    · rw [(fgets_line h hlen rest).1, (fgets_line h hlen rest).2, (fgets_line h hlen []).1,
        (fgets_line h hlen []).2]
      rfl
    · have hlen : 1023 ≤ body.length := Nat.le_of_not_lt hlen
      have hfull (more : Bytes) : (fgets 1024 (body ++ more)).1.text = body.take 1023 ∧
          (fgets 1024 (body ++ more)).2 = body.drop 1023 ++ more := by
        have htake : (body ++ more).take 1023 = body.take 1023 :=
          List.take_append_of_le_length hlen
        have hno : lf ∉ (body ++ more).take 1023 := by
          rw [htake]
          exact fun hm => h ((List.take_sublist _ _).subset hm)
        rw [(fgets_full hno).1, (fgets_full hno).2, htake, List.drop_append_of_le_length hlen]
        exact ⟨rfl, rfl⟩
      have hdrop : (body.drop 1023).length < n := by
        rw [List.length_drop]
        omega
      rw [(hfull _).1, (hfull _).2, (hfull _).1, (hfull _).2, List.cons_append,
        ih _ hdrop rfl (fun hm => h ((List.drop_sublist _ _).subset hm))]

theorem pieces_short {file line : Bytes} (hline : line ∈ endedLines lf file)
    (hlen : line.length ≤ 1023) : pieces line = [line] := by
  obtain ⟨body, h, rfl | ⟨rfl, hne⟩⟩ := mem_endedLines hline
  · have hbody : body.length < 1023 := by
      rw [List.length_append, List.length_singleton] at hlen
      omega
    rw [pieces_cons (by simp), (fgets_line h hbody []).1, (fgets_line h hbody []).2, pieces_nil]
  · have htake : line.take 1023 = line := List.take_of_length_le hlen
    have hno : lf ∉ line.take 1023 := by rwa [htake]
    rw [pieces_cons hne, (fgets_full hno).1, (fgets_full hno).2, htake,
      List.drop_eq_nil_of_le hlen, pieces_nil]

/-- The loop reads a file line by line, each line in its pieces. -/
theorem pieces_lines (file : Bytes) : pieces file = (endedLines lf file).flatMap pieces := by
  induction file using endedLines_induction lf with
  | hnil => rfl
  | hlast l h hne => rw [endedLines_last h hne, List.flatMap_singleton]
  | hline l r h ih => rw [endedLines_line h, List.flatMap_cons, ← ih, pieces_line r _ rfl h]

/-! ## Trimming -/

/-- What is dropped at the end of a text stands in its last part, if that part has
    anything to keep. -/
theorem rdropWhile_append {α : Type} (p : α → Bool) (a b : List α) :
    (a ++ b).rdropWhile p =
      if ∀ x ∈ b, p x = true then a.rdropWhile p else a ++ b.rdropWhile p := by
  have hb : (b.reverse.dropWhile p).isEmpty = true ↔ ∀ x ∈ b, p x = true := by
    rw [List.isEmpty_iff, List.dropWhile_eq_nil_iff]
    simp
  unfold List.rdropWhile
  rw [List.reverse_append, List.dropWhile_append]
  by_cases h : ∀ x ∈ b, p x = true
  · rw [if_pos (hb.mpr h), if_pos h]
  · rw [if_neg (fun he => h (hb.mp he)), if_neg h, List.reverse_append, List.reverse_reverse]

theorem nulFree_of_space {a : Bytes} (h : ∀ c ∈ a, isSpace c = true) : NulFree a :=
  fun hm => absurd (h 0 hm) (by decide)

theorem cstr_append_of_nul {a : Bytes} (h : ¬ NulFree a) (b : Bytes) : cstr (a ++ b) = cstr a := by
  have hlen : ¬ (a.takeWhile (fun c => c != 0)).length = a.length := fun hlen =>
    h (cstr_eq_self_iff.mp ((cstr_isPrefix a).eq_of_length hlen))
  unfold cstr
  rw [List.takeWhile_append, if_neg hlen]

theorem trim_eq_nil {p : Bytes} : trim p = [] ↔ ∀ c ∈ cstr p, isSpace c = true := by
  rw [trim, List.rdropWhile_eq_nil_iff]
  constructor
  · intro h c hc
    rw [← List.takeWhile_append_dropWhile (p := isSpace) (l := cstr p), List.mem_append] at hc
    exact hc.elim (fun hc => List.mem_takeWhile_imp hc) (h c)
  · exact fun h c hc => h c ((List.dropWhile_suffix _).subset hc)

theorem mem_trim {p : Bytes} {c : UInt8} (hc : isSpace c = false) : c ∈ trim p ↔ c ∈ cstr p := by
  have hdrop : ∀ l : Bytes, c ∈ l.dropWhile isSpace ↔ c ∈ l := by
    intro l
    constructor
    · exact fun h => (List.dropWhile_suffix _).subset h
    · intro h
      rw [← List.takeWhile_append_dropWhile (p := isSpace) (l := l), List.mem_append] at h
      refine h.resolve_left (fun ht => ?_)
      rw [List.mem_takeWhile_imp ht] at hc
      cases hc
  rw [trim, List.rdropWhile, List.mem_reverse, hdrop, List.mem_reverse, hdrop]

theorem trim_append_space {a : Bytes} (h : ∀ c ∈ a, isSpace c = true) (b : Bytes) :
    trim (a ++ b) = trim b := by
  rw [trim, cstr_append (nulFree_of_space h), List.dropWhile_append_of_pos h, trim]

/-- What more text adds to a trimmed line: nothing if all of it that the line's string
    reaches is space, else something that does not end in a space. -/
theorem trim_append {a : Bytes} (ha : trim a ≠ []) (b : Bytes) :
    ∃ s, trim (a ++ b) = trim a ++ s ∧
      (s = [] ↔ ∀ c ∈ (cstr (a ++ b)).drop a.length, isSpace c = true) ∧
      ((∀ c ∈ s, isSpace c = true) → s = []) := by
  by_cases hn : NulFree a
  · have hfront : (a.dropWhile isSpace).isEmpty = false := by
      rw [Bool.eq_false_iff, ne_eq, List.isEmpty_iff]
      intro hnil
      rw [trim, cstr_of_nulFree hn, hnil] at ha
      exact ha (List.rdropWhile_nil _)
    have htrim : trim (a ++ b) = (a.dropWhile isSpace ++ cstr b).rdropWhile isSpace := by
      rw [trim, cstr_append hn, List.dropWhile_append, hfront]
      rfl
    rw [htrim, rdropWhile_append, trim, cstr_append hn, cstr_of_nulFree hn, List.drop_left]
    by_cases hb : ∀ c ∈ cstr b, isSpace c = true
    · rw [if_pos hb]
      exact ⟨[], (List.append_nil _).symm, iff_of_true rfl hb, fun _ => rfl⟩
    · rw [if_neg hb]
      have hmem : ¬ ∀ c ∈ (a.dropWhile isSpace).rtakeWhile isSpace ++
          (cstr b).rdropWhile isSpace, isSpace c = true := by
        intro hall
        have hnil : (cstr b).rdropWhile isSpace = [] := by
          rw [← List.rdropWhile_idempotent, List.rdropWhile_eq_nil_iff]
          exact fun c hc => hall c (List.mem_append_right _ hc)
        exact hb (List.rdropWhile_eq_nil_iff.mp hnil)
      refine ⟨(a.dropWhile isSpace).rtakeWhile isSpace ++ (cstr b).rdropWhile isSpace, ?_,
        iff_of_false (fun hnil => ?_) hb, fun hall => absurd hall hmem⟩
      · rw [← List.append_assoc, List.rdropWhile_append_rtakeWhile]
      · rw [hnil] at hmem
        exact hmem (fun _ hc => by cases hc)
  · have hcut := cstr_append_of_nul hn b
    have htrim : trim (a ++ b) = trim a := by
      rw [trim, hcut, trim]
    refine ⟨[], by rw [htrim, List.append_nil], iff_of_true rfl ?_, fun _ => rfl⟩
    rw [hcut, List.drop_eq_nil_of_le (cstr_length_le a)]
    exact fun _ hc => by cases hc

/-! ## What a piece says of its line -/

theorem trim_append_eq_iff {x s : Bytes} (hn : NulFree (x ++ s))
    (hs : (∀ c ∈ s, isSpace c = true) → s = []) : trim x = trim (x ++ s) ↔ s = [] := by
  constructor
  · intro h
    apply hs
    by_cases hx : trim x = []
    · rw [hx] at h
      have hall := trim_eq_nil.mp h.symm
      rw [cstr_of_nulFree hn] at hall
      exact fun c hc => hall c (List.mem_append_right _ hc)
    · obtain ⟨s', htrim, hspace, _⟩ := trim_append hx s
      have hnil : s' = [] := by
        rw [htrim] at h
        exact List.self_eq_append_right.mp h
      have hall := hspace.mp hnil
      rwa [cstr_of_nulFree hn, List.drop_left] at hall
  · rintro rfl
    rw [List.append_nil]

theorem strchr_append_left {p s : Bytes} {c : UInt8} (hn : NulFree (p ++ s)) (hc : c ∈ p) :
    ∃ e < p.length, strchr p c = some e ∧ strchr (p ++ s) c = some e := by
  obtain ⟨a, b, rfl, ha⟩ := List.eq_append_cons_of_mem hc
  have hp : NulFree (a ++ c :: b) := hn.of_sublist (List.sublist_append_left _ _)
  refine ⟨a.length, by simp, ?_, ?_⟩
  · rw [strchr, cstr_of_nulFree hp, idxOf?_append ha]
  · rw [strchr, cstr_of_nulFree hn, List.append_assoc, List.cons_append, idxOf?_append ha]

theorem strchr_eq_none {p : Bytes} {c : UInt8} (hc : c ∉ p) : strchr p c = none :=
  idxOf?_eq_none.mpr (fun h => hc ((cstr_isPrefix p).subset h))

/-- When the front of a line says what the line says: a header is closed in it; a
    setting's equals sign stands in it and there is no more text behind it. -/
theorem itemOf_append_iff {p s : Bytes} (hp : p ≠ []) (hn : NulFree (p ++ s))
    (hs : (∀ c ∈ s, isSpace c = true) → s = []) :
    itemOf p = itemOf (p ++ s) ↔
      match itemOf (p ++ s) with
      | none => itemOf p = none
      | some (.header _) => 93 ∈ p
      | some (.setting _ _) => 61 ∈ p ∧ s = [] := by
  obtain ⟨c, t, hct⟩ := List.exists_cons_of_ne_nil hp
  have hhead : p.head? = some c := by rw [hct]; rfl
  have hhead' : (p ++ s).head? = some c := by rw [hct]; rfl
  unfold itemOf
  rw [hhead, hhead']
  dsimp only
  by_cases hcomment : c = 35 ∨ c = 59
  · rw [if_pos hcomment, if_pos hcomment]
  by_cases hheader : c = 91
  · rw [if_neg hcomment, if_pos hheader, if_neg hcomment, if_pos hheader]
    by_cases hm : (93 : UInt8) ∈ p
    · obtain ⟨e, hlt, he, he'⟩ := strchr_append_left hn hm
      rw [he, he', Option.map_some, Option.map_some, List.take_append_of_le_length (Nat.le_of_lt hlt)]
      exact iff_of_true rfl hm
    · rw [strchr_eq_none hm]
      cases strchr (p ++ s) 93 with
      | none => exact iff_of_true rfl rfl
      | some e => exact iff_of_false (fun h => by cases h) hm
  · rw [if_neg hcomment, if_neg hheader, if_neg hcomment, if_neg hheader]
    by_cases hm : (61 : UInt8) ∈ p
    · obtain ⟨e, hlt, he, he'⟩ := strchr_append_left hn hm
      have hvalue : NulFree (p.drop (e + 1) ++ s) :=
        hn.of_sublist ((List.drop_sublist _ _).append (List.Sublist.refl s))
      rw [he, he', Option.map_some, Option.map_some,
        List.take_append_of_le_length (Nat.le_of_lt hlt), List.drop_append_of_le_length hlt]
      rw [Option.some_inj, ConfigItem.setting.injEq, eq_self, true_and,
        trim_append_eq_iff hvalue hs]
      exact ⟨fun h => ⟨hm, h⟩, fun h => h.2⟩
    · rw [strchr_eq_none hm]
      cases strchr (p ++ s) 61 with
      | none => exact iff_of_true rfl rfl
      | some e => exact iff_of_false (fun h => by cases h) (fun h => hm h.1)

/-- The bytes of a line that decide what it says, where `front` is its first piece with text
    and `behind` what follows: the bracket that closes a header, and the equals sign and
    the end of the text of a setting. -/
def Decides (item : Option ConfigItem) (front behind : Bytes) : Prop :=
  match item with
  | none => lineItem front = none
  | some (.header _) => 93 ∈ cstr front
  | some (.setting _ _) =>
    61 ∈ cstr front ∧ ∀ c ∈ (cstr (front ++ behind)).drop front.length, isSpace c = true

theorem lineItem_append_iff {a : Bytes} (ha : trim a ≠ []) (b : Bytes) :
    lineItem a = lineItem (a ++ b) ↔ Decides (lineItem (a ++ b)) a b := by
  obtain ⟨s, htrim, hspace, hs⟩ := trim_append ha b
  have hn : NulFree (trim a ++ s) := by
    rw [← htrim]
    exact trim_nulFree (a ++ b)
  have hiff := itemOf_append_iff ha hn hs
  rw [mem_trim (by decide), mem_trim (by decide), hspace] at hiff
  unfold Decides lineItem
  rw [htrim]
  exact hiff

/-- A line's pieces from the first one with text on. -/
def front (line : Bytes) : List Bytes := (pieces line).dropWhile (fun p => (trim p).isEmpty)

theorem blank_flatten {ps : List Bytes} (h : ∀ p ∈ ps, trim p = []) :
    (∀ c ∈ ps.flatten, isSpace c = true) ∨ ∀ x, trim (ps.flatten ++ x) = [] := by
  induction ps with
  | nil => exact .inl (fun _ hc => by cases hc)
  | cons p ps ih =>
    have hp := h p List.mem_cons_self
    rw [List.flatten_cons]
    by_cases hn : NulFree p
    · have hspace : ∀ c ∈ p, isSpace c = true := by
        have := trim_eq_nil.mp hp
        rwa [cstr_of_nulFree hn] at this
      obtain hall | hnil := ih (fun q hq => h q (List.mem_cons_of_mem p hq))
      · exact .inl (fun c hc => (List.mem_append.mp hc).elim (hspace c) (hall c))
      · refine .inr (fun x => ?_)
        rw [List.append_assoc, trim_append_space hspace]
        exact hnil x
    · refine .inr (fun x => ?_)
      rw [List.append_assoc, trim_eq_nil, cstr_append_of_nul hn]
      exact trim_eq_nil.mp hp

/-- The line is treated as one unit: the piece in which its text begins says what the whole
    line says, and no later piece says anything. -/
def ReadAsUnit (line : Bytes) : Prop :=
  match front line with
  | [] => lineItem line = none
  | first :: later => lineItem first = lineItem line ∧ ∀ p ∈ later, lineItem p = none

/-- What decides on the line stands in the piece in which its text begins, and no later
    piece looks like a header or a setting. -/
def DecidedInFront (line : Bytes) : Prop :=
  match front line with
  | [] => True
  | first :: later =>
    Decides (lineItem line) first later.flatten ∧ ∀ p ∈ later, lineItem p = none

theorem lineItem_of_trim {p : Bytes} (h : trim p = []) : lineItem p = none := by
  rw [lineItem, h]
  rfl

theorem front_split (line : Bytes) : ∃ blanks, (∀ p ∈ blanks, trim p = []) ∧
    pieces line = blanks ++ front line ∧ line = blanks.flatten ++ (front line).flatten := by
  refine ⟨(pieces line).takeWhile (fun p => (trim p).isEmpty), fun p hp => ?_,
    List.takeWhile_append_dropWhile.symm, ?_⟩
  · have hblank := List.mem_takeWhile_imp hp
    exact List.isEmpty_iff.mp hblank
  · rw [front, ← List.flatten_append, List.takeWhile_append_dropWhile, pieces_flatten]

theorem readAsUnit_iff (line : Bytes) : ReadAsUnit line ↔ DecidedInFront line := by
  obtain ⟨blanks, hblank, _, hline⟩ := front_split line
  unfold ReadAsUnit DecidedInFront
  cases hfront : front line with
  | nil =>
    rw [hfront, List.flatten_nil] at hline
    refine iff_of_true ?_ trivial
    obtain hspace | hnil := blank_flatten hblank
    · apply lineItem_of_trim
      rw [hline, trim_append_space hspace]
      rfl
    · apply lineItem_of_trim
      rw [hline, hnil]
  | cons first later =>
    have hfirst : trim first ≠ [] := by
      have hne : front line ≠ [] := by
        rw [hfront]
        exact List.cons_ne_nil first later
      have htext : (trim ((front line).head hne)).isEmpty = false := List.head_dropWhile_not _ hne
      simp only [hfront, List.head_cons] at htext
      intro hnil
      rw [hnil] at htext
      cases htext
    rw [hfront, List.flatten_cons] at hline
    apply and_congr_left
    intro _
    obtain hspace | hnil := blank_flatten hblank
    · have hitem : lineItem line = lineItem (first ++ later.flatten) := by
        rw [hline, lineItem, trim_append_space hspace, lineItem]
      rw [hitem]
      exact lineItem_append_iff hfirst later.flatten
    · have hitem : lineItem line = none := by
        apply lineItem_of_trim
        rw [hline, hnil]
      rw [hitem]
      exact Iff.rfl

theorem ReadAsUnit.items {line : Bytes} (h : ReadAsUnit line) :
    (pieces line).filterMap lineItem = (lineItem line).toList := by
  obtain ⟨blanks, hblank, hpieces, _⟩ := front_split line
  have hnone {ps : List Bytes} (hps : ∀ p ∈ ps, lineItem p = none) : ps.filterMap lineItem = [] :=
    List.filterMap_eq_nil_iff.mpr hps
  rw [hpieces, List.filterMap_append, hnone (fun p hp => lineItem_of_trim (hblank p hp))]
  unfold ReadAsUnit at h
  cases hfront : front line with
  | nil =>
    rw [hfront] at h
    rw [show lineItem line = none from h]
    rfl
  | cons first later =>
    rw [hfront] at h
    rw [List.filterMap_cons, hnone h.2, h.1]
    cases lineItem line <;> rfl

theorem loopSettings_eq {file : Bytes} (h : ∀ line ∈ endedLines lf file, ReadAsUnit line) :
    loopSettings file = fileSettings file := by
  rw [loopSettings, fileSettings, pieces_lines]
  congr 1
  generalize endedLines lf file = lines at h
  induction lines with
  | nil => rfl
  | cons line lines ih =>
    have hline := (h line List.mem_cons_self).items
    rw [List.flatMap_cons, List.filterMap_append, hline, List.filterMap_cons,
      ih (fun l hl => h l (List.mem_cons_of_mem line hl))]
    cases lineItem line <;> rfl

theorem readAsUnit_short {file line : Bytes} (hline : line ∈ endedLines lf file)
    (hlen : line.length ≤ 1023) : ReadAsUnit line := by
  unfold ReadAsUnit front
  rw [pieces_short hline hlen, List.dropWhile_cons]
  by_cases hblank : trim line = []
  · rw [if_pos (List.isEmpty_iff.mpr hblank)]
    exact lineItem_of_trim hblank
  · rw [if_neg (fun h => hblank (List.isEmpty_iff.mp h))]
    exact ⟨rfl, fun _ hp => by cases hp⟩

/-- The file is read line by line, and the pairs stored are those of its lines. -/
def ReadsLines (file : Bytes) : Prop :=
  (∀ line ∈ endedLines lf file, ReadAsUnit line) ∧
  (configLoad file).kvs.map Kv.stored = ((fileSettings file).take maxKv).map Setting.stored

/-- **When a file is read line by line.** For every file, whatever the length of its lines:
    each line is treated as one unit, and the pairs stored are those of a reader that cuts
    the file at newlines only, exactly when what decides on each line stands in the piece
    in which its text begins and no later piece of it looks like a header or a setting. -/
theorem reads_lines_iff (file : Bytes) :
    ReadsLines file ↔ ∀ line ∈ endedLines lf file, DecidedInFront line := by
  constructor
  · exact fun h line hline => (readAsUnit_iff line).mp (h.1 line hline)
  · intro h
    have hunits : ∀ line ∈ endedLines lf file, ReadAsUnit line :=
      fun line hline => (readAsUnit_iff line).mpr (h line hline)
    refine ⟨hunits, ?_⟩
    rw [configLoad_kvs, loopSettings_eq hunits]

/-- A comment of more than 1023 bytes; what stands in its second piece is a setting. -/
def longComment : Bytes :=
  ascii "#" ++ List.replicate 1022 120 ++ ascii "rate_limit_per_ip = 1\n"

/-- The comment becomes a setting. -/
theorem comment_sets :
    (configLoad longComment).kvs.map Kv.stored =
      [(ascii "default.rate_limit_per_ip", ascii "1")] ∧
    fileSettings longComment = [] ∧ ¬ ReadsLines longComment := by
  have hstored : (configLoad longComment).kvs.map Kv.stored =
      [(ascii "default.rate_limit_per_ip", ascii "1")] := by decide +kernel
  have hnone : fileSettings longComment = [] := by decide +kernel
  refine ⟨hstored, hnone, fun h => ?_⟩
  have hsame := h.2
  rw [hstored, hnone] at hsame
  cases hsame

/-! ## Looking up -/

/-- The test of `nexus_config_get` on a setting: the joined names, cut to 255 bytes. -/
def Setting.joinsTo (sec key : Bytes) (t : Setting) : Bool :=
  compoundKey t.sec t.key == compoundKey sec key

/-- The setting is of this section and this key. -/
def Setting.isFor (sec key : Bytes) (t : Setting) : Bool := t.sec == cstr sec && t.key == cstr key

theorem Setting.joinsTo_of_isFor {sec key : Bytes} (t : Setting) (h : t.isFor sec key = true) :
    t.joinsTo sec key = true := by
  rw [Setting.isFor, Bool.and_eq_true] at h
  rw [Setting.joinsTo, eq_of_beq h.1, eq_of_beq h.2, compoundKey, compoundKey, cstr_cstr, cstr_cstr]
  exact beq_self_eq_true _

/-- The index at which the loop of `nexus_config_get` stops. -/
def configIndex (cfg : Config) (sec key : Bytes) : Option Nat :=
  cfg.kvs.findIdx? (fun kv => strEq kv.key (compoundKey sec key))

theorem compoundKey_nulFree (sec key : Bytes) : NulFree (compoundKey sec key) := by
  refine NulFree.of_sublist ?_ (List.take_sublist _ _)
  exact ((cstr_nulFree sec).append (by decide)).append (cstr_nulFree key)

theorem strEq_stored (kv : Kv) (sec key : Bytes) :
    strEq kv.key (compoundKey sec key) = (kv.stored.1 == compoundKey sec key) := by
  rw [strEq, cstr_of_nulFree kv.key_line.1, cstr_of_nulFree (compoundKey_nulFree sec key)]
  rfl

/-- A lookup searches the settings that the loop has found, by their joined names. -/
theorem configIndex_eq (file sec key : Bytes) :
    configIndex (configLoad file) sec key =
      ((loopSettings file).take maxKv).findIdx? (Setting.joinsTo sec key) := by
  have hkv : (configLoad file).kvs.findIdx? (fun kv => strEq kv.key (compoundKey sec key)) =
      ((configLoad file).kvs.map Kv.stored).findIdx? (fun x => x.1 == compoundKey sec key) := by
    rw [List.findIdx?_map]
    exact congrFun (congrArg List.findIdx? (funext fun kv => strEq_stored kv sec key)) _
  rw [configIndex, hkv, configLoad_kvs, List.findIdx?_map]
  rfl

theorem configGet_eq (file sec key : Bytes) :
    configGet (configLoad file) sec key =
      (((loopSettings file).take maxKv).find? (Setting.joinsTo sec key)).map Setting.value := by
  have hkv : ((configLoad file).kvs.find? (fun kv => strEq kv.key (compoundKey sec key))).map
      Kv.value = (((configLoad file).kvs.map Kv.stored).find?
        (fun x => x.1 == compoundKey sec key)).map Prod.snd := by
    rw [List.find?_map, Option.map_map]
    congr 2
    funext kv
    exact strEq_stored kv sec key
  rw [configGet, kvsGet, hkv, configLoad_kvs, List.find?_map, Option.map_map]
  rfl

/-- The lookup gives the value of the first line of this section and key among the first 256
    settings of the file, and stops at that line. -/
def AnswersLine (file sec key : Bytes) : Prop :=
  configGet (configLoad file) sec key =
    (((fileSettings file).take maxKv).find? (Setting.isFor sec key)).map Setting.value ∧
  configIndex (configLoad file) sec key =
    ((fileSettings file).take maxKv).findIdx? (Setting.isFor sec key)

/-- **When a lookup gives the value of its own line.** For every file whose lines fit the
    buffer, every section and every key: the value of the first line of that section and
    key among the first 256 settings, or `NULL` when there is none, exactly when no other
    setting with the same joined name stands in front of that line. -/
theorem config_get_iff (file sec key : Bytes)
    (hfits : ∀ line ∈ endedLines lf file, line.length ≤ 1023) :
    AnswersLine file sec key ↔
      Slots.Unshadowed (Setting.isFor sec key) (Setting.joinsTo sec key)
        ((fileSettings file).take maxKv) := by
  have hsame : loopSettings file = fileSettings file :=
    loopSettings_eq (fun line hline => readAsUnit_short hline (hfits line hline))
  rw [AnswersLine, configGet_eq, configIndex_eq, hsame,
    ← Slots.findIdx?_weaker_iff (fun t => t.joinsTo_of_isFor)]
  constructor
  · exact fun h => h.2
  · intro h
    rw [Slots.find?_of_findIdx? h]
    exact ⟨rfl, h⟩

def dottedFile : Bytes :=
  ascii "[upstream]\napi.server = 10.0.0.9:1\n[upstream.api]\nserver = 127.0.0.1:9001\n"

theorem config_get_iff_dotted :
    AnswersLine dottedFile (ascii "upstream.api") (ascii "server") ↔
      Slots.Unshadowed (Setting.isFor (ascii "upstream.api") (ascii "server"))
        (Setting.joinsTo (ascii "upstream.api") (ascii "server"))
        ((fileSettings dottedFile).take maxKv) :=
  config_get_iff dottedFile _ _ (by decide +kernel)

/-- A line of another section answers. -/
theorem other_section_answers :
    configGet (configLoad dottedFile) (ascii "upstream.api") (ascii "server") =
      some (ascii "10.0.0.9:1") ∧
    (((fileSettings dottedFile).take maxKv).find? (Setting.isFor (ascii "upstream.api")
      (ascii "server"))).map Setting.value = some (ascii "127.0.0.1:9001") ∧
    ¬ AnswersLine dottedFile (ascii "upstream.api") (ascii "server") := by
  have hother : configGet (configLoad dottedFile) (ascii "upstream.api") (ascii "server") =
      some (ascii "10.0.0.9:1") := by decide +kernel
  have hown : (((fileSettings dottedFile).take maxKv).find? (Setting.isFor (ascii "upstream.api")
      (ascii "server"))).map Setting.value = some (ascii "127.0.0.1:9001") := by decide +kernel
  refine ⟨hother, hown, fun h => ?_⟩
  have hsame := h.1
  rw [hother, hown] at hsame
  revert hsame
  decide

/-! ## How long a value is -/

theorem fgets_length (size : Nat) (file : Bytes) : (fgets size file).1.text.length ≤ size - 1 := by
  unfold fgets
  split
  · exact (List.length_take_le' _ _).trans (List.length_take_le _ _)
  · exact List.length_take_le _ _

theorem mem_pieces_length {text p : Bytes} (h : p ∈ pieces text) : p.length ≤ 1023 := by
  have hall (fuel : Nat) : ∀ file : Bytes, ∀ l ∈ fgetsAll 1024 fuel file, l.text.length ≤ 1023 := by
    induction fuel with
    | zero => exact fun _ _ hl => by cases hl
    | succ fuel ih =>
      intro file l hl
      rw [fgetsAll] at hl
      split at hl
      · cases hl
      · obtain rfl | hl := List.mem_cons.mp hl
        · exact fgets_length 1024 file
        · exact ih _ l hl
  obtain ⟨l, hl, rfl⟩ := List.mem_map.mp h
  exact hall _ _ l hl

theorem mem_settingsFrom {items : List ConfigItem} {t : Setting} : ∀ {sec : Bytes},
    t ∈ settingsFrom sec items → .setting t.key t.value ∈ items := by
  induction items with
  | nil => exact fun h => by cases h
  | cons item items ih =>
    intro sec h
    cases item with
    | header name => exact List.mem_cons_of_mem _ (ih h)
    | setting key value =>
      obtain rfl | h := List.mem_cons.mp h
      · exact List.mem_cons_self
      · exact List.mem_cons_of_mem _ (ih h)

theorem lineItem_setting {line key value : Bytes} (h : lineItem line = some (.setting key value)) :
    value.length < line.length ∧ NulFree value := by
  unfold lineItem itemOf at h
  split at h
  · cases h
  split at h
  · cases h
  split at h
  · obtain ⟨_, _, he⟩ := Option.map_eq_some_iff.mp h
    cases he
  · obtain ⟨eq, heq, he⟩ := Option.map_eq_some_iff.mp h
    cases he
    have hlt := idxOf?_lt heq
    have hcstr := cstr_length_le (trim line)
    have htrim := (trim_sublist line).length_le
    have hvalue := (trim_sublist ((trim line).drop (eq + 1))).length_le
    rw [List.length_drop] at hvalue
    exact ⟨by omega, trim_nulFree _⟩

/-- A value of a loaded configuration fits the line buffer with its equals sign. -/
theorem configGet_value {file sec key v : Bytes} (h : configGet (configLoad file) sec key = some v) :
    v.length ≤ 1022 ∧ NulFree v := by
  rw [configGet_eq] at h
  obtain ⟨t, ht, rfl⟩ := Option.map_eq_some_iff.mp h
  have hloop : t ∈ loopSettings file := (List.take_sublist _ _).subset (List.mem_of_find?_eq_some ht)
  obtain ⟨p, hp, hitem⟩ := List.mem_filterMap.mp (mem_settingsFrom hloop)
  obtain ⟨hlt, hnul⟩ := lineItem_setting hitem
  have hle := mem_pieces_length hp
  exact ⟨by omega, hnul⟩

end NexusGateway
