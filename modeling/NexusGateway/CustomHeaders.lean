import NexusGateway.ConfigLines
import Mathlib.Tactic.MkIffOfInductiveProp

/- The custom headers of a configuration (`nexus_config_load` and
   `nexus_config_get_custom_headers` of `config.c`).

   The value of `add_header` in `[http_rewrite]` is cut at its commas, and each piece at
   its first colon. A list of names and values that is written down so is read back as it was
   (`customHeaders_spell`): from the value, from a line that has it with any blanks
   around (`lineItem_settingLine`), and from a file in which this line is the first of its
   kind (`custom_headers_read_back`). -/
namespace NexusGateway
open CString Lines

/-! ## From the value -/

/-- `name:value`. -/
def pairText (p : Bytes × Bytes) : Bytes := p.1 ++ colon :: p.2

/-- `name1:value1,name2:value2,...`. -/
def headerText (pairs : List (Bytes × Bytes)) : Bytes := [comma].intercalate (pairs.map pairText)

/-- No blanks at either end. -/
@[mk_iff] structure Trimmed (b : Bytes) : Prop where
  head : ∀ c ∈ b.head?, isSpace c = false
  last : ∀ c ∈ b.getLast?, isSpace c = false

instance (b : Bytes) : Decidable (Trimmed b) :=
  have : ∀ c : Option UInt8, Decidable (∀ a ∈ c, isSpace a = false) := Option.decidableForallMem
  decidable_of_iff _ (trimmed_iff b).symm

/-- A name and a value that can be written down. -/
@[mk_iff] structure HeaderPair (p : Bytes × Bytes) : Prop where
  name_fits : p.1.length ≤ 127
  value_fits : p.2.length ≤ 127
  name_comma : comma ∉ p.1
  value_comma : comma ∉ p.2
  name_colon : colon ∉ p.1
  name_line : LineText p.1
  value_line : LineText p.2
  name_trimmed : Trimmed p.1
  value_trimmed : Trimmed p.2

instance (p : Bytes × Bytes) : Decidable (HeaderPair p) := decidable_of_iff _ (headerPair_iff p).symm

/-- What a row of the table holds. -/
def CustomHeader.pair (h : CustomHeader) : Bytes × Bytes := (h.name.text, h.value.text)

theorem splitComma_eq (s : Bytes) : splitComma s = s.splitOn comma := by
  rw [List.splitOn_eq_splitOnP]
  induction s with
  | nil => rfl
  | cons c t ih =>
    rw [splitComma, List.splitOnP_cons_eq_if_modifyHead, ih]
    by_cases hc : c = comma
    · simp [hc]
    · rw [if_neg hc, if_neg (by simpa using hc)]
      cases List.splitOnP (· == comma) t <;> rfl

/-- The text is cut into its pairs. -/
theorem splitComma_headerText {pairs : List (Bytes × Bytes)} (hne : pairs ≠ [])
    (h : ∀ p ∈ pairs, HeaderPair p) : splitComma (headerText pairs) = pairs.map pairText := by
  have hcomma : ∀ t ∈ pairs.map pairText, comma ∉ t := by
    intro t ht
    obtain ⟨p, hp, rfl⟩ := List.mem_map.mp ht
    have hpair := h p hp
    simp [pairText, hpair.name_comma, hpair.value_comma, show comma ≠ colon by decide]
  rw [splitComma_eq]
  exact List.splitOn_intercalate comma hcomma (by simpa using hne)

/-- A pair is read back from its text. -/
theorem customHeader_pairText {p : Bytes × Bytes} (h : HeaderPair p) (ht : LineText (pairText p)) :
    (customHeader (pairText p) ht).map CustomHeader.pair = some p := by
  have hchr : strchr (pairText p) colon = some p.1.length :=
    strchr_append h.name_line.1 h.name_colon (by decide) p.2
  have hfull {s : Bytes} (hs : NulFree s) (hlen : s.length ≤ 127) :
      (CharArray.snprintf size128_pos s).text = s := by
    calc (CharArray.snprintf size128_pos s).text = s.take 127 :=
          congrArg (List.take 127) (cstr_of_nulFree hs)
      _ = s := List.take_of_length_le hlen
  unfold customHeader
  split
  · rename_i hnone
    rw [hchr] at hnone
    cases hnone
  · rename_i i hi
    obtain rfl : p.1.length = i := by
      rw [hchr] at hi
      exact Option.some.inj hi
    have hname : (pairText p).take p.1.length = p.1 := List.take_left ..
    have hvalue : (pairText p).drop (p.1.length + 1) = p.2 := by
      rw [pairText, ← List.drop_drop, List.drop_left]
      rfl
    simp [CustomHeader.pair, hname, hvalue, hfull h.name_line.1 h.name_fits,
      hfull h.value_line.1 h.value_fits]

theorem addCustomHeaders_pairs {pairs : List (Bytes × Bytes)} (h : ∀ p ∈ pairs, HeaderPair p) :
    ∀ (acc : List CustomHeader) (ht : ∀ t ∈ pairs.map pairText, LineText t),
      acc.length + pairs.length ≤ maxCustomHeaders →
      (addCustomHeaders acc (pairs.map pairText) ht).map CustomHeader.pair =
        acc.map CustomHeader.pair ++ pairs := by
  induction pairs with
  | nil => simp [addCustomHeaders]
  | cons p pairs ih =>
    intro acc ht hroom
    rw [List.length_cons] at hroom
    have hline := ht (pairText p) (by simp)
    obtain ⟨row, hrow, hpair⟩ := Option.map_eq_some_iff.mp (customHeader_pairText (h p (by simp)) hline)
    have hlater := ih (fun q hq => h q (by simp [hq])) (acc ++ [row])
      (fun t ht' => ht t (by simp [ht'])) (by simp; omega)
    simp only [List.map_cons, addCustomHeaders]
    rw [if_pos (by omega), hrow]
    simpa [hpair] using hlater

theorem addCustomHeaders_text {pairs : List (Bytes × Bytes)} (hroom : pairs.length ≤ maxCustomHeaders)
    (h : ∀ p ∈ pairs, HeaderPair p) {value : Bytes} (hvalue : value = headerText pairs)
    (ht : ∀ t ∈ splitComma value, LineText t) :
    (addCustomHeaders [] (splitComma value) ht).map CustomHeader.pair = pairs := by
  subst hvalue
  by_cases hne : pairs = []
  · -- an empty text is one piece without a colon
    subst hne
    rfl
  · have hcut := splitComma_headerText hne h
    simp only [hcut] at ht ⊢
    exact addCustomHeaders_pairs h [] ht (by simpa using hroom)

/-- **What the value spells is read back**, whatever else the file says. -/
theorem customHeaders_spell {file : Bytes} {pairs : List (Bytes × Bytes)} (hroom : pairs.length ≤ 32)
    (h : ∀ p ∈ pairs, HeaderPair p)
    (hget : configGet (configLoad file) (ascii "http_rewrite") (ascii "add_header") =
      some (headerText pairs)) :
    (configGetCustomHeaders (configLoad file) 32).map CustomHeader.pair = pairs := by
  have htable : (configLoad file).customHeaders.map CustomHeader.pair = pairs := by
    unfold configLoad at hget ⊢
    dsimp only at hget ⊢
    split
    · rename_i hnone
      simp [configGet, hnone] at hget
    · rename_i kv hkv
      have hvalue : kv.value = headerText pairs := by simpa [configGet, hkv] using hget
      exact addCustomHeaders_text hroom h hvalue _
  have hall : (configLoad file).customHeaders.length ≤ 32 := (configLoad file).customHeaders_le
  rw [configGetCustomHeaders, List.take_of_length_le hall, htable]

/-! ## From the line -/

theorem Trimmed.dropWhile {b : Bytes} (h : Trimmed b) : b.dropWhile isSpace = b := by
  cases b with
  | nil => rfl
  | cons c t => exact List.dropWhile_cons_of_neg (by simp [h.head c rfl])

theorem Trimmed.rdropWhile {b : Bytes} (h : Trimmed b) : b.rdropWhile isSpace = b := by
  rw [List.rdropWhile_eq_self_iff]
  intro hne
  simp [h.last _ (List.getLast?_eq_getLast_of_ne_nil hne)]

theorem Trimmed.rdropWhile_append {b d : Bytes} (h : Trimmed b) (hd : ∀ c ∈ d, isSpace c = true) :
    (b ++ d).rdropWhile isSpace = b := by
  rw [NexusGateway.rdropWhile_append, if_pos hd, h.rdropWhile]

/-- Blanks around a text are trimmed off. -/
theorem trim_padded {a b d : Bytes} (ha : ∀ c ∈ a, isSpace c = true) (hd : ∀ c ∈ d, isSpace c = true)
    (hb : Trimmed b) (hn : NulFree b) : trim (a ++ (b ++ d)) = b := by
  rw [trim_append_space ha]
  cases b with
  | nil => exact trim_eq_nil.mpr fun c hc => hd c ((cstr_isPrefix d).subset hc)
  | cons c t =>
    have hfront : (c :: t ++ d).dropWhile isSpace = c :: t ++ d :=
      List.dropWhile_cons_of_neg (by simp [hb.head c rfl])
    rw [trim, cstr_of_nulFree (hn.append (nulFree_of_space hd)), hfront, hb.rdropWhile_append hd]

/-- A key that a setting can have: no blanks around it, no equals sign, and no comment or
    header begins so. -/
@[mk_iff] structure KeyText (key : Bytes) : Prop where
  trimmed : Trimmed key
  nulFree : NulFree key
  equals : (61 : UInt8) ∉ key
  start : ∀ c ∈ key.head?, c ≠ 35 ∧ c ≠ 59 ∧ c ≠ 91
  nonempty : key ≠ []

instance (key : Bytes) : Decidable (KeyText key) :=
  have : Decidable (∀ c ∈ key.head?, c ≠ 35 ∧ c ≠ 59 ∧ c ≠ 91) := Option.decidableForallMem key.head?
  decidable_of_iff _ (keyText_iff key).symm

/-- The line sets the key to the value, with any blanks around them. -/
def SettingLine (key value line : Bytes) : Prop :=
  ∃ a b c d : Bytes, (∀ x ∈ a ++ b ++ c ++ d, isSpace x = true) ∧
    line = a ++ (key ++ (b ++ 61 :: (c ++ (value ++ d))))

/-- The line trimmed: what is left of it behind the equals sign is the value with blanks at
    most in front. -/
theorem trim_settingLine {key value a b c d : Bytes} (hkey : KeyText key)
    (ha : ∀ x ∈ a, isSpace x = true) (hb : ∀ x ∈ b, isSpace x = true)
    (hc : ∀ x ∈ c, isSpace x = true) (hd : ∀ x ∈ d, isSpace x = true) (hvalue : Trimmed value)
    (hnul : NulFree value) :
    ∃ rest, trim (a ++ (key ++ (b ++ 61 :: (c ++ (value ++ d))))) = (key ++ b) ++ 61 :: rest ∧
      trim rest = value := by
  have hnulLine : NulFree ((key ++ b ++ [61]) ++ (c ++ (value ++ d))) :=
    ((hkey.nulFree.append (nulFree_of_space hb)).append (by decide)).append
      ((nulFree_of_space hc).append (hnul.append (nulFree_of_space hd)))
  obtain ⟨k, key', hstartsWith⟩ := List.exists_cons_of_ne_nil hkey.nonempty
  have hk : isSpace k = false := hkey.trimmed.head k (by rw [hstartsWith]; rfl)
  have hfront : ((key ++ b ++ [61]) ++ (c ++ (value ++ d))).dropWhile isSpace =
      (key ++ b ++ [61]) ++ (c ++ (value ++ d)) := by
    rw [hstartsWith]
    exact List.dropWhile_cons_of_neg (by simp [hk])
  have htrim : trim (a ++ (key ++ (b ++ 61 :: (c ++ (value ++ d))))) =
      ((key ++ b ++ [61]) ++ (c ++ (value ++ d))).rdropWhile isSpace := by
    rw [trim_append_space ha, trim, ← hfront, ← cstr_of_nulFree hnulLine]
    simp
  rw [htrim, NexusGateway.rdropWhile_append]
  cases hv : value with
  | nil =>
    -- nothing but blanks: the line ends with its equals sign
    refine ⟨[], ?_, rfl⟩
    have hblank : ∀ x ∈ c ++ ([] ++ d), isSpace x = true := by
      simpa [or_imp, forall_and] using ⟨hc, hd⟩
    rw [if_pos hblank, List.rdropWhile_concat_neg _ _ _ (by decide)]
  | cons v vs =>
    rw [← hv]
    have hmem : v ∈ value := by rw [hv]; exact List.mem_cons_self
    have hvspace : isSpace v = false := hvalue.head v (by rw [hv]; rfl)
    have hsome : ¬ ∀ x ∈ value ++ d, isSpace x = true := fun h => by
      have hvtrue := h v (List.mem_append_left _ hmem)
      rw [hvspace] at hvtrue
      cases hvtrue
    have hmore : ¬ ∀ x ∈ c ++ (value ++ d), isSpace x = true := fun h =>
      hsome fun x hx => h x (List.mem_append_right _ hx)
    refine ⟨c ++ value, ?_, ?_⟩
    · rw [if_neg hmore, NexusGateway.rdropWhile_append, if_neg hsome, hvalue.rdropWhile_append hd]
      simp
    · have hpadded := trim_padded (d := []) hc (by simp) hvalue hnul
      rwa [List.append_nil] at hpadded

/-- **What such a line says.** -/
theorem lineItem_settingLine {key value line : Bytes} (hkey : KeyText key) (hvalue : Trimmed value)
    (hnul : NulFree value) (hline : SettingLine key value line) :
    lineItem line = some (.setting key value) := by
  obtain ⟨a, b, c, d, hspace, rfl⟩ := hline
  simp only [List.mem_append, or_imp, forall_and] at hspace
  obtain ⟨⟨⟨ha, hb⟩, hc⟩, hd⟩ := hspace
  have hnulFront : NulFree (key ++ b) := hkey.nulFree.append (nulFree_of_space hb)
  have hequals : (61 : UInt8) ∉ key ++ b := by
    rw [List.mem_append, not_or]
    exact ⟨hkey.equals, fun h => absurd (hb 61 h) (by decide)⟩
  obtain ⟨k, key', hstartsWith⟩ := List.exists_cons_of_ne_nil hkey.nonempty
  obtain ⟨rest, htrim, hrest⟩ := trim_settingLine hkey ha hb hc hd hvalue hnul
  have hchr : strchr ((key ++ b) ++ 61 :: rest) 61 = some (key ++ b).length :=
    strchr_append hnulFront hequals (by decide) rest
  have hname : trim (key ++ b) = key := by
    have hpadded := trim_padded (a := []) (by simp) hb hkey.trimmed hkey.nulFree
    simpa using hpadded
  have hback : ((key ++ b) ++ 61 :: rest).drop ((key ++ b).length + 1) = rest := by
    rw [← List.drop_drop, List.drop_left]
    rfl
  have hhead : ((key ++ b) ++ 61 :: rest).head? = some k := by simp [hstartsWith]
  have hstart := hkey.start k (by rw [hstartsWith]; rfl)
  rw [lineItem, htrim, itemOf, hhead]
  simp only [hstart.1, hstart.2.1, hstart.2.2, or_false, if_false]
  rw [hchr, Option.map_some, List.take_left, hback, hname, hrest]

/-! ## From the file -/

/-- The section that the loop is in behind lines that say this. -/
def sectionAfter : Bytes → List ConfigItem → Bytes
  | sec, [] => sec
  | _, .header name :: items => sectionAfter name items
  | sec, .setting _ _ :: items => sectionAfter sec items

theorem settingsFrom_append (items more : List ConfigItem) : ∀ sec : Bytes,
    settingsFrom sec (items ++ more) =
      settingsFrom sec items ++ settingsFrom (sectionAfter sec items) more := by
  induction items with
  | nil => exact fun _ => rfl
  | cons item items ih =>
    intro sec
    cases item with
    | header name => exact ih name
    | setting key value => exact congrArg (List.cons _) (ih sec)

/-- The names in what a line says. -/
def ConfigItem.names : ConfigItem → List Bytes
  | .header name => [name]
  | .setting key _ => [key]

theorem lineItem_nulFree {line : Bytes} {item : ConfigItem} (h : lineItem line = some item) :
    ∀ name ∈ item.names, NulFree name := by
  have hline : NulFree (trim line) := trim_nulFree line
  unfold lineItem itemOf at h
  split at h
  · cases h
  split at h
  · cases h
  split at h
  · obtain ⟨e, _, rfl⟩ := Option.map_eq_some_iff.mp h
    simpa [ConfigItem.names] using
      hline.of_sublist ((List.drop_sublist 1 _).trans (List.take_sublist e _))
  · obtain ⟨e, _, rfl⟩ := Option.map_eq_some_iff.mp h
    simpa [ConfigItem.names] using
      hline.of_sublist ((trim_sublist _).trans (List.take_sublist e _))

theorem settingsFrom_nulFree {items : List ConfigItem}
    (h : ∀ item ∈ items, ∀ name ∈ item.names, NulFree name) : ∀ {sec : Bytes}, NulFree sec →
      ∀ t ∈ settingsFrom sec items, NulFree t.sec ∧ NulFree t.key := by
  induction items with
  | nil => simp [settingsFrom]
  | cons item items ih =>
    intro sec hsec t ht
    have hlater := fun item' hitem' => h item' (List.mem_cons_of_mem item hitem')
    have hitem := h item List.mem_cons_self
    cases item with
    | header name => exact ih hlater (hitem name (by simp [ConfigItem.names])) t ht
    | setting key value =>
      obtain rfl | ht := List.mem_cons.mp ht
      · exact ⟨hsec, hitem key (by simp [ConfigItem.names])⟩
      · exact ih hlater hsec t ht

theorem Setting.isFor_of_joinsTo {sec key : Bytes} (hsec : NulFree sec ∧ (46 : UInt8) ∉ sec)
    (hkey : NulFree key ∧ (46 : UInt8) ∉ key) (hlen : (sec ++ 46 :: key).length < 255) {t : Setting}
    (ht : NulFree t.sec ∧ NulFree t.key) (h : t.joinsTo sec key = true) : t.isFor sec key = true := by
  have hjoin (s k : Bytes) (hs : NulFree s) (hk : NulFree k) :
      compoundKey s k = (s ++ 46 :: k).take 255 := by
    rw [compoundKey, cstr_of_nulFree hs, cstr_of_nulFree hk, List.append_assoc]
    rfl
  have hown : (sec ++ 46 :: key).take 255 = sec ++ 46 :: key := List.take_of_length_le (by omega)
  have hsame := eq_of_beq h
  rw [hjoin _ _ ht.1 ht.2, hjoin _ _ hsec.1 hkey.1, hown] at hsame
  have hshort : (t.sec ++ 46 :: t.key).length ≤ 255 := by
    have hcut := congrArg List.length hsame
    rw [List.length_take] at hcut
    omega
  rw [List.take_of_length_le hshort] at hsame
  obtain ⟨rfl, _, rfl⟩ := (List.append_cons_inj_of_notMem hsec.2 hkey.2).mp hsame.symm
  rw [Setting.isFor, cstr_of_nulFree hsec.1, cstr_of_nulFree hkey.1]
  simp

/-- Behind these lines of a file a line for this section and key is the first one, and the
    loop gets to it: every line in front is read as a unit, and the table has room. -/
structure GetsThere (sec key : Bytes) (before : List Bytes) : Prop where
  units : ∀ line ∈ before, DecidedInFront line
  inSection : sectionAfter (ascii "default") (before.filterMap lineItem) = sec
  first : ∀ t ∈ settingsFrom (ascii "default") (before.filterMap lineItem), t.isFor sec key = false
  room : (settingsFrom (ascii "default") (before.filterMap lineItem)).length < maxKv

theorem pieces_items {lines : List Bytes} (h : ∀ line ∈ lines, DecidedInFront line) :
    (lines.flatMap pieces).filterMap lineItem = lines.filterMap lineItem := by
  induction lines with
  | nil => rfl
  | cons line lines ih =>
    have hunit := ((readAsUnit_iff line).mpr (h line List.mem_cons_self)).items
    have hlater := ih fun l hl => h l (List.mem_cons_of_mem line hl)
    rw [List.flatMap_cons, List.filterMap_append, hunit, hlater, List.filterMap_cons]
    cases lineItem line <;> rfl

/-- The first line of a section and key answers a lookup, where no dot joins other names
    to the same ones. -/
theorem configGet_firstLine {file sec key value line : Bytes} {before after : List Bytes}
    (hsec : NulFree sec ∧ (46 : UInt8) ∉ sec) (hkey : NulFree key ∧ (46 : UInt8) ∉ key)
    (hlen : (sec ++ 46 :: key).length < 255) (hlines : endedLines lf file = before ++ line :: after)
    (hline : lineItem line = some (.setting key value)) (hfits : line.length ≤ 1023)
    (h : GetsThere sec key before) : configGet (configLoad file) sec key = some value := by
  have hmem : line ∈ endedLines lf file := by simp [hlines]
  have hpiece : pieces line = [line] := pieces_short hmem hfits
  -- the settings in front, this one, and the others
  obtain ⟨others, hothers⟩ : ∃ others, loopSettings file =
      settingsFrom (ascii "default") (before.filterMap lineItem) ++ ⟨sec, key, value⟩ :: others := by
    rw [loopSettings, pieces_lines, hlines, List.flatMap_append, List.flatMap_cons,
      List.filterMap_append, List.filterMap_append, pieces_items h.units, hpiece,
      settingsFrom_append, h.inSection, List.filterMap_cons, hline]
    exact ⟨_, rfl⟩
  have hitems : ∀ item ∈ before.filterMap lineItem, ∀ name ∈ item.names, NulFree name := by
    intro item hitem
    obtain ⟨l, _, hl⟩ := List.mem_filterMap.mp hitem
    exact lineItem_nulFree hl
  have hnames := settingsFrom_nulFree hitems (show NulFree (ascii "default") by decide)
  have hfront : ∀ t ∈ settingsFrom (ascii "default") (before.filterMap lineItem),
      ¬ t.joinsTo sec key = true := by
    intro t ht hjoins
    have hfor := Setting.isFor_of_joinsTo hsec hkey hlen (hnames t ht) hjoins
    rw [h.first t ht] at hfor
    cases hfor
  have hroom := h.room
  obtain ⟨n, hn⟩ : ∃ n, maxKv - (settingsFrom (ascii "default")
      (before.filterMap lineItem)).length = n + 1 := ⟨_, (Nat.succ_pred (by omega)).symm⟩
  have hown : Setting.joinsTo sec key ⟨sec, key, value⟩ = true := beq_self_eq_true _
  rw [configGet_eq, hothers, List.take_append, List.take_of_length_le (by omega), hn,
    List.take_succ_cons, List.find?_append, List.find?_eq_none.mpr hfront, Option.none_or,
    List.find?_cons_of_pos hown]
  rfl

/-! ## The whole way -/

/-- A text that a value can be: it has no NUL, and no blanks at its ends. -/
structure ValueText (b : Bytes) : Prop where
  trimmed : Trimmed b
  nulFree : NulFree b

theorem ValueText.join {a b : Bytes} {c : UInt8} (ha : ValueText a) (hc : isSpace c = false ∧ c ≠ 0)
    (hb : ValueText b) : ValueText (a ++ c :: b) := by
  refine ⟨⟨?_, ?_⟩, ?_⟩
  · cases ha' : a with
    | nil => simp [hc.1]
    | cons x t => simpa [ha'] using ha.trimmed.head
  · cases hb' : b with
    | nil => simp [hc.1]
    | cons x t => simpa [hb', List.getLast?_append] using hb.trimmed.last
  · have hsep : NulFree [c] := by simp [NulFree, Ne.symm hc.2]
    exact ha.nulFree.append (hsep.append hb.nulFree)

theorem headerText_valueText {pairs : List (Bytes × Bytes)} (h : ∀ p ∈ pairs, HeaderPair p) :
    ValueText (headerText pairs) := by
  have hpair : ∀ p ∈ pairs, ValueText (pairText p) := fun p hp =>
    ValueText.join ⟨(h p hp).name_trimmed, (h p hp).name_line.1⟩ (by decide)
      ⟨(h p hp).value_trimmed, (h p hp).value_line.1⟩
  clear h
  induction pairs with
  | nil => exact ⟨⟨by simp [headerText], by simp [headerText]⟩, by simp [headerText, NulFree]⟩
  | cons p pairs ih =>
    have hlater := ih fun q hq => hpair q (List.mem_cons_of_mem p hq)
    cases pairs with
    | nil => simpa [headerText] using hpair p List.mem_cons_self
    | cons q pairs =>
      have hjoin := ValueText.join (hpair p List.mem_cons_self)
        (show isSpace comma = false ∧ comma ≠ 0 by decide) hlater
      simpa [headerText, List.intercalate_cons_cons] using hjoin

/-- **The custom headers are read back.** For every list of at most 32 names and values that
    can be written down, and every file with a line of at most 1023 bytes that sets
    `add_header` to its text, with any blanks around, the first one in `[http_rewrite]` and
    one that the loop gets to: the headers given out are those of the list, in its order. -/
theorem custom_headers_read_back {pairs : List (Bytes × Bytes)} (hroom : pairs.length ≤ 32)
    (h : ∀ p ∈ pairs, HeaderPair p) {file line : Bytes} {before after : List Bytes}
    (hlines : endedLines lf file = before ++ line :: after)
    (hline : SettingLine (ascii "add_header") (headerText pairs) line) (hfits : line.length ≤ 1023)
    (hthere : GetsThere (ascii "http_rewrite") (ascii "add_header") before) :
    (configGetCustomHeaders (configLoad file) 32).map CustomHeader.pair = pairs := by
  have hkey : KeyText (ascii "add_header") := by decide +kernel
  have htext := headerText_valueText h
  have hitem := lineItem_settingLine hkey htext.trimmed htext.nulFree hline
  apply customHeaders_spell hroom h
  exact configGet_firstLine (by decide +kernel) (by decide +kernel) (by decide +kernel) hlines hitem
    hfits hthere

/-- Two headers, the second with a colon and an equals sign in its value. -/
def twoPairs : List (Bytes × Bytes) :=
  [(ascii "X-A", ascii "1"), (ascii "X-B", ascii "http://b:80/?q=2")]

theorem custom_headers_read_back_two :
    (configGetCustomHeaders (configLoad (ascii "[http_rewrite]\n" ++ (ascii " add_header = " ++
      (headerText twoPairs ++ ascii " \n")))) 32).map CustomHeader.pair = twoPairs := by
  have hpair : ∀ p ∈ twoPairs, HeaderPair p := by decide +kernel
  refine @custom_headers_read_back twoPairs (by decide) hpair _
    (ascii " add_header = " ++ (headerText twoPairs ++ ascii " \n")) [ascii "[http_rewrite]\n"] []
    (by decide +kernel)
    ⟨ascii " ", ascii " ", ascii " ", ascii " \n", by decide +kernel, by decide +kernel⟩
    (by decide +kernel) ⟨?_, by decide +kernel, by decide +kernel, by decide +kernel⟩
  intro line hline
  rw [List.mem_singleton.mp hline, ← readAsUnit_iff]
  have hmem : ascii "[http_rewrite]\n" ∈ endedLines lf (ascii "[http_rewrite]\n") := by decide +kernel
  exact readAsUnit_short hmem (by decide)

/-- As many settings as the table holds, and then a custom header. -/
def fullFile : Bytes :=
  (List.replicate maxKv (ascii "a=1\n")).flatten ++ ascii "[http_rewrite]\nadd_header=X:1\n"

/-- It is the first one of its section, and is lost. -/
theorem full_table_loses_headers :
    ((fileSettings fullFile).find? (Setting.isFor (ascii "http_rewrite") (ascii "add_header"))).map
      Setting.value = some (headerText [(ascii "X", ascii "1")]) ∧
    (configGetCustomHeaders (configLoad fullFile) 32).map CustomHeader.pair = [] :=
  ⟨by decide +kernel, by decide +kernel⟩

end NexusGateway
