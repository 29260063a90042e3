import NexusGateway.CustomHeaders
import Mathlib.Data.List.Find

/- The configuration file as a format (`nexus_config_load` and `nexus_config_get` of `config.c`).

   `IniLine` is a line that a file is written with: blank, a comment, the header of a section,
   or a setting, with any blanks around them. Of every file made of such lines the loader
   stores the settings in order, each under the header above it, as far as its table has
   places; and a lookup by a name that is not cut finds the first setting of its section and
   its key among them (`config_file_read_back`). The names of sections may have dots, as those of `upstream.api`
   and `upstream.static` do; only keys may not. -/
namespace NexusGateway
open CString Lines

/-! ## The format -/

/-- Blanks in a line. -/
def Blanks (b : Bytes) : Prop := ∀ c ∈ b, isSpace c = true ∧ c ≠ lf

instance (b : Bytes) : Decidable (Blanks b) := List.decidableBAll _ b

/-- A line that a configuration file is written with. -/
inductive IniLine where
  | blank (blanks : Bytes) (h : Blanks blanks)
  | comment (blanks : Bytes) (mark : UInt8) (text : Bytes) (h : Blanks blanks)
      (hmark : mark = 35 ∨ mark = 59) (htext : LineText text)
  | header (blanks name behind : Bytes) (h : Blanks blanks) (hname : LineText name)
      (hopen : (93 : UInt8) ∉ name) (hbehind : LineText behind)
  | setting (a key b c value d : Bytes) (h : Blanks (a ++ b ++ c ++ d)) (hkey : KeyText key)
      (hvalue : ValueText value) (hlines : lf ∉ key ++ value)

/-- The text of a line, without its newline. -/
def IniLine.text : IniLine → Bytes
  | .blank blanks _ => blanks
  | .comment blanks mark text _ _ _ => blanks ++ mark :: text
  | .header blanks name behind _ _ _ _ => blanks ++ 91 :: (name ++ 93 :: behind)
  | .setting a key b c value d _ _ _ _ => a ++ (key ++ (b ++ 61 :: (c ++ (value ++ d))))

/-- What a line is written for. -/
def IniLine.item : IniLine → Option ConfigItem
  | .blank _ _ => none
  | .comment _ _ _ _ _ _ => none
  | .header _ name _ _ _ _ _ => some (.header name)
  | .setting _ key _ _ value _ _ _ _ _ => some (.setting key value)

/-- The text of a file. -/
def fileText (lines : List IniLine) : Bytes := lines.flatMap fun l => l.text ++ [lf]

/-- The settings that a file is written for. -/
def settingsOf (lines : List IniLine) : List Setting :=
  settingsFrom (ascii "default") (lines.filterMap IniLine.item)

/-! ## One line -/

theorem Blanks.space {b : Bytes} (h : Blanks b) : ∀ c ∈ b, isSpace c = true := fun c hc => (h c hc).1

theorem Blanks.oneLine {b : Bytes} (h : Blanks b) : lf ∉ b := fun hmem => (h lf hmem).2 rfl

theorem Blanks.ended {b : Bytes} (h : Blanks b) : ∀ c ∈ b ++ [lf], isSpace c = true := by
  intro c hc
  rcases List.mem_append.mp hc with hc | hc
  · exact h.space c hc
  · rw [List.mem_singleton.mp hc]
    decide

theorem blanks_append {a b : Bytes} : Blanks (a ++ b) ↔ Blanks a ∧ Blanks b := by
  simp only [Blanks, List.mem_append, or_imp, forall_and]
  exact and_and_and_comm

theorem IniLine.oneLine (l : IniLine) : lf ∉ l.text := by
  cases l with
  | blank blanks h => exact h.oneLine
  | comment blanks mark text h hmark htext =>
    simp only [IniLine.text, List.mem_append, List.mem_cons, not_or]
    refine ⟨h.oneLine, ?_, htext.2⟩
    rcases hmark with rfl | rfl <;> decide
  | header blanks name behind h hname hopen hbehind =>
    simp only [IniLine.text, List.mem_append, List.mem_cons, not_or]
    exact ⟨h.oneLine, by decide, hname.2, by decide, hbehind.2⟩
  | setting a key b c value d h hkey hvalue hlines =>
    simp only [blanks_append] at h
    obtain ⟨⟨⟨ha, hb⟩, hc⟩, hd⟩ := h
    rw [List.mem_append, not_or] at hlines
    simp only [IniLine.text, List.mem_append, List.mem_cons, not_or]
    exact ⟨ha.oneLine, hlines.1, hb.oneLine, by decide, hc.oneLine, hlines.2, hd.oneLine⟩

theorem trim_begins {b : Bytes} (hb : NulFree b) (hne : b ≠ []) (hfirst : ∀ c ∈ b.head?, isSpace c = false)
    (hlast : ∀ c ∈ b.getLast?, isSpace c = false) {s : Bytes} (hs : NulFree s) :
    ∃ rest, trim (b ++ s) = b ++ rest := by
  have htrimmed : Trimmed b := ⟨hfirst, hlast⟩
  obtain ⟨c, t, rfl⟩ := List.exists_cons_of_ne_nil hne
  have hfront : (c :: t ++ s).dropWhile isSpace = c :: t ++ s :=
    List.dropWhile_cons_of_neg (by simp [hfirst c rfl])
  rw [trim, cstr_of_nulFree (hb.append hs), hfront, NexusGateway.rdropWhile_append]
  split
  · exact ⟨[], by rw [htrimmed.rdropWhile, List.append_nil]⟩
  · exact ⟨_, rfl⟩

theorem lineItem_comment {blanks text : Bytes} {mark : UInt8} (h : Blanks blanks)
    (hmark : mark = 35 ∨ mark = 59) (htext : LineText text) :
    lineItem (blanks ++ mark :: text ++ [lf]) = none := by
  have hvisible : isSpace mark = false ∧ NulFree [mark] := by
    rcases hmark with rfl | rfl <;> decide
  have hnul : NulFree (text ++ [lf]) := htext.1.append (by decide)
  obtain ⟨rest, hrest⟩ := trim_begins hvisible.2 (by simp) (by simp [hvisible.1])
    (by simp [hvisible.1]) hnul
  have htrim : trim (blanks ++ mark :: text ++ [lf]) = mark :: rest := by
    calc trim (blanks ++ mark :: text ++ [lf])
        = trim (blanks ++ ([mark] ++ (text ++ [lf]))) := by simp
      _ = mark :: rest := by rw [trim_append_space h.space, hrest]; rfl
  rw [lineItem, htrim, itemOf, List.head?_cons]
  exact if_pos hmark

theorem lineItem_header {blanks name behind : Bytes} (h : Blanks blanks) (hname : LineText name)
    (hopen : (93 : UInt8) ∉ name) (hbehind : LineText behind) :
    lineItem (blanks ++ 91 :: (name ++ 93 :: behind) ++ [lf]) = some (.header name) := by
  have hnulFront : NulFree (91 :: name) := (show NulFree [91] by decide).append hname.1
  have hnul : NulFree (91 :: name ++ [93]) := hnulFront.append (by decide)
  have hnulBehind : NulFree (behind ++ [lf]) := hbehind.1.append (by decide)
  have hlast : (91 :: name ++ [93]).getLast? = some 93 := List.getLast?_concat
  obtain ⟨rest, hrest⟩ := trim_begins hnul (by simp) (by simp; decide) (by rw [hlast]; simp; decide)
    hnulBehind
  have htrim : trim (blanks ++ 91 :: (name ++ 93 :: behind) ++ [lf]) = 91 :: name ++ 93 :: rest := by
    calc trim (blanks ++ 91 :: (name ++ 93 :: behind) ++ [lf])
        = trim (blanks ++ (91 :: name ++ [93] ++ (behind ++ [lf]))) := by simp
      _ = 91 :: name ++ 93 :: rest := by rw [trim_append_space h.space, hrest]; simp
  have hclosed : (93 : UInt8) ∉ 91 :: name := by
    rw [List.mem_cons, not_or]
    exact ⟨by decide, hopen⟩
  have hchr : strchr (91 :: name ++ 93 :: rest) 93 = some (91 :: name).length :=
    strchr_append hnulFront hclosed (by decide) rest
  rw [lineItem, htrim, itemOf, List.cons_append, List.head?_cons]
  dsimp only
  rw [if_neg (by decide), if_pos rfl, ← List.cons_append, hchr, Option.map_some, List.take_left]
  rfl

/-- A line is read as what it is written for. -/
theorem IniLine.read (l : IniLine) : lineItem (l.text ++ [lf]) = l.item := by
  cases l with
  | blank blanks h =>
    have hnothing : trim (blanks ++ [lf]) = [] :=
      trim_eq_nil.mpr fun c hc => h.ended c ((cstr_isPrefix _).subset hc)
    rw [IniLine.text, lineItem, hnothing]
    rfl
  | comment blanks mark text h hmark htext => exact lineItem_comment h hmark htext
  | header blanks name behind h hname hopen hbehind => exact lineItem_header h hname hopen hbehind
  | setting a key b c value d h hkey hvalue hlines =>
    refine lineItem_settingLine hkey hvalue.trimmed hvalue.nulFree ⟨a, b, c, d ++ [lf], ?_, ?_⟩
    · rw [← List.append_assoc]
      exact h.ended
    · simp [IniLine.text]

/-! ## The file -/

theorem endedLines_fileText (lines : List IniLine) :
    endedLines lf (fileText lines) = lines.map fun l => l.text ++ [lf] := by
  induction lines with
  | nil => rfl
  | cons l lines ih =>
    rw [fileText, List.flatMap_cons, List.append_assoc, List.singleton_append,
      endedLines_line l.oneLine, ← fileText, ih, List.map_cons]

theorem fileSettings_fileText (lines : List IniLine) :
    fileSettings (fileText lines) = settingsOf lines := by
  have hread : lineItem ∘ (fun l : IniLine => l.text ++ [lf]) = IniLine.item := funext IniLine.read
  rw [fileSettings, endedLines_fileText, List.filterMap_map, hread, settingsOf]

theorem loopSettings_fileText {lines : List IniLine} (hfits : ∀ l ∈ lines, l.text.length ≤ 1022) :
    loopSettings (fileText lines) = settingsOf lines := by
  rw [← fileSettings_fileText]
  apply loopSettings_eq
  intro line hline
  apply readAsUnit_short hline
  rw [endedLines_fileText] at hline
  obtain ⟨l, hl, rfl⟩ := List.mem_map.mp hline
  rw [List.length_append]
  exact Nat.succ_le_succ (hfits l hl)

theorem settingsOf_nulFree (lines : List IniLine) :
    ∀ t ∈ settingsOf lines, NulFree t.sec ∧ NulFree t.key := by
  refine settingsFrom_nulFree (fun item hitem name hname => ?_) (by decide)
  obtain ⟨l, _, hl⟩ := List.mem_filterMap.mp hitem
  rw [← l.read] at hl
  exact lineItem_nulFree hl name hname

theorem joined_inj {sec sec' key key' : Bytes} (hkey : (46 : UInt8) ∉ key) (hkey' : (46 : UInt8) ∉ key')
    (h : sec ++ 46 :: key = sec' ++ 46 :: key') : sec = sec' ∧ key = key' := by
  have hfront {k : Bytes} (hk : (46 : UInt8) ∉ k) (s : Bytes) :
      ((s ++ 46 :: k).reverse.takeWhile (· ≠ 46)).reverse = k := by
    have hvisible : ∀ c ∈ k.reverse, decide (c ≠ 46) = true := fun c hc =>
      decide_eq_true fun hdot => hk (hdot ▸ List.mem_reverse.mp hc)
    rw [List.reverse_append, List.reverse_cons, List.append_assoc,
      List.takeWhile_append_of_pos hvisible]
    simp
  obtain rfl : key = key' := by rw [← hfront hkey sec, h, hfront hkey' sec']
  exact ⟨List.append_cancel_right h, rfl⟩

/-- In a file of which no key has a dot, a lookup for a key without one meets the settings of its
    own section and key only. -/
theorem joinsTo_iff_isFor {sec key : Bytes} (hsec : NulFree sec) (hkey : NulFree key)
    (hdot : (46 : UInt8) ∉ key) (hlen : (sec ++ 46 :: key).length < 255) {t : Setting}
    (hnames : NulFree t.sec ∧ NulFree t.key) (hown : (46 : UInt8) ∉ t.key) :
    t.joinsTo sec key = t.isFor sec key := by
  have hjoin {s k : Bytes} (hs : NulFree s) (hk : NulFree k) :
      compoundKey s k = (s ++ 46 :: k).take 255 := by
    rw [compoundKey, cstr_of_nulFree hs, cstr_of_nulFree hk, List.append_assoc]
    rfl
  rw [Bool.eq_iff_iff]
  refine ⟨fun hsame => ?_, t.joinsTo_of_isFor⟩
  -- the joined name that is looked up is not cut, so neither is the one it equals
  have hwhole : (sec ++ 46 :: key).take 255 = sec ++ 46 :: key := List.take_of_length_le hlen.le
  rw [Setting.joinsTo, beq_iff_eq, hjoin hnames.1 hnames.2, hjoin hsec hkey, hwhole] at hsame
  have hshort : (t.sec ++ 46 :: t.key).length ≤ 255 := by
    have hcut := congrArg List.length hsame
    rw [List.length_take] at hcut
    omega
  rw [List.take_of_length_le hshort] at hsame
  obtain ⟨heqSec, heqKey⟩ := joined_inj hown hdot hsame
  rw [Setting.isFor, heqSec, heqKey, cstr_of_nulFree hsec, cstr_of_nulFree hkey]
  simp

/-- What is loaded of a file that was written for these settings. -/
structure ReadBack (settings : List Setting) (cfg : Config) : Prop where
  stored : cfg.kvs.map Kv.stored = (settings.take maxKv).map Setting.stored
  found : (∀ t ∈ settings, (46 : UInt8) ∉ t.key) → ∀ sec key : Bytes, NulFree sec → NulFree key →
    (46 : UInt8) ∉ key → (sec ++ 46 :: key).length < 255 →
    configGet cfg sec key = ((settings.take maxKv).find? (Setting.isFor sec key)).map Setting.value

/-- **A configuration file is read back.** Of every file of blank lines, comments, headers and
    settings of at most 1022 bytes each, with any blanks around them: the settings are stored in
    order under the headers above them, the first 256 of them; and if no key has a dot, a lookup
    for a section and a key without one, whose joined name `section.key` has fewer than 255
    bytes, finds the first setting of that section and key among these, or nothing when there is
    none. A longer name is cut, and may be found under another. -/
theorem config_file_read_back {lines : List IniLine} (hfits : ∀ l ∈ lines, l.text.length ≤ 1022) :
    ReadBack (settingsOf lines) (configLoad (fileText lines)) := by
  refine ⟨?_, fun hdots sec key hsec hkey hdot hlen => ?_⟩
  · rw [configLoad_kvs, loopSettings_fileText hfits]
  · have hsame : ∀ t ∈ (settingsOf lines).take maxKv, t.joinsTo sec key = t.isFor sec key := by
      intro t ht
      have hmem := List.mem_of_mem_take ht
      exact joinsTo_iff_isFor hsec hkey hdot hlen (settingsOf_nulFree lines t hmem) (hdots t hmem)
    rw [configGet_eq, loopSettings_fileText hfits, List.find?_congr hsame]

/-- Two sections with dots in their names, a comment that looks like a setting, and a setting that
    comes twice. -/
def sampleLines : List IniLine := [
  .comment [] 35 (ascii " port = 1") (by decide) (.inl rfl) (by decide +kernel),
  .header [] (ascii "upstream.api") [] (by decide) (by decide +kernel) (by decide +kernel) (by decide),
  .setting (ascii "  ") (ascii "server") (ascii " ") (ascii " ") (ascii "127.0.0.1:9001") []
    (by decide +kernel) (by decide +kernel) ⟨by decide +kernel, by decide +kernel⟩ (by decide +kernel),
  .blank (ascii "  ") (by decide +kernel),
  .header [] (ascii "upstream.static") [] (by decide) (by decide +kernel) (by decide +kernel) (by decide),
  .setting [] (ascii "root") [] [] (ascii "/srv") [] (by decide) (by decide +kernel)
    ⟨by decide +kernel, by decide +kernel⟩ (by decide +kernel),
  .setting [] (ascii "root") [] [] (ascii "/tmp") [] (by decide) (by decide +kernel)
    ⟨by decide +kernel, by decide +kernel⟩ (by decide +kernel)]

theorem config_file_read_back_sample :
    ReadBack (settingsOf sampleLines) (configLoad (fileText sampleLines)) ∧
    configGet (configLoad (fileText sampleLines)) (ascii "upstream.static") (ascii "root") =
      some (ascii "/srv") := by
  have hread := @config_file_read_back sampleLines (by decide +kernel)
  refine ⟨hread, ?_⟩
  rw [hread.found (by decide +kernel) _ _ (by decide +kernel) (by decide +kernel) (by decide +kernel)
    (by decide +kernel)]
  decide +kernel

end NexusGateway
