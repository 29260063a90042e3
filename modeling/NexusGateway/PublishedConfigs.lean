import NexusGateway.ConfigFile
import NexusGateway.SerializedConfig
import NexusGateway.ShadowVersions
import NexusGateway.ForkedConfig
import NexusGateway.Lib.History

/- The configurations that the master publishes (`serialize_config` and `reload_config` of
   `master.c`).

   The text in a slot is itself a configuration file: `nexus_config_load` reads its lines back
   as they were printed (`configDump_read`). A reload writes the slot that is not in use and
   then makes it the one in use, so in every run the two slots hold the two configurations that
   were published last, each of them whole, and the latest is in use
   (`snapshots_read_back`). -/
namespace NexusGateway
open CString Lines Prints Runs

/-! ## Reading a text back -/

/-- A setting that is read back from the line printed of it. -/
structure PlainSetting (kv : Bytes × Bytes) : Prop where
  key : KeyText kv.1
  value : ValueText kv.2
  oneLine : lf ∉ kv.1 ++ kv.2

theorem printed_lines (kvs : List (Bytes × Bytes)) (h : ∀ kv ∈ kvs, PlainSetting kv) :
    ∃ lines : List IniLine, fileText lines = (kvs.map fun kv => configText kv.1 kv.2).flatten ∧
      settingsOf lines = kvs.map (fun kv => ⟨ascii "default", kv.1, kv.2⟩) ∧
      ∀ l ∈ lines, ∃ kv ∈ kvs, l.text.length = kv.1.length + kv.2.length + 1 := by
  induction kvs with
  | nil => exact ⟨[], rfl, rfl, fun _ hl => by cases hl⟩
  | cons kv kvs ih =>
    obtain ⟨lines, htext, hsettings, hlength⟩ := ih fun kv' hmem => h kv' (List.mem_cons_of_mem _ hmem)
    obtain ⟨hkey, hvalue, hline⟩ := h kv List.mem_cons_self
    have hblank : Blanks ([] ++ [] ++ [] ++ []) := fun c hc => by cases hc
    refine ⟨.setting [] kv.1 [] [] kv.2 [] hblank hkey hvalue hline :: lines, ?_, ?_, ?_⟩
    · rw [fileText, List.flatMap_cons, ← fileText, htext, List.map_cons, List.flatten_cons, configText,
        cstr_of_nulFree hvalue.nulFree, IniLine.text]
      simp [ascii]
    · have hitem : (IniLine.setting [] kv.1 [] [] kv.2 [] hblank hkey hvalue hline).item =
          some (.setting kv.1 kv.2) := rfl
      rw [settingsOf, List.filterMap_cons_some hitem, settingsFrom, ← settingsOf, hsettings, List.map_cons]
    · intro l hl
      obtain rfl | hl := List.mem_cons.mp hl
      · refine ⟨kv, List.mem_cons_self, ?_⟩
        simp only [IniLine.text, List.length_append, List.length_cons, List.length_nil]
        omega
      · obtain ⟨kv', hmem, hlen⟩ := hlength l hl
        exact ⟨kv', List.mem_cons_of_mem _ hmem, hlen⟩

theorem trim_trimmed (p : Bytes) : Trimmed (trim p) := by
  constructor
  · intro c hc
    obtain ⟨rest, hrest⟩ := List.rdropWhile_prefix isSpace (l := (cstr p).dropWhile isSpace)
    have hhead : ((cstr p).dropWhile isSpace).head? = some c := by
      rw [← hrest, List.head?_append, ← trim, Option.mem_def.mp hc]
      rfl
    have hfirst := List.head?_dropWhile_not isSpace (cstr p)
    rw [hhead] at hfirst
    exact hfirst
  · intro c hc
    obtain ⟨hne, rfl⟩ := List.mem_getLast?_eq_getLast hc
    exact Bool.eq_false_iff.mpr (List.rdropWhile_last_not isSpace _ hne)

theorem configGet_plain {file sec key v : Bytes} (h : configGet (configLoad file) sec key = some v) :
    ValueText v ∧ lf ∉ v := by
  have hline : lf ∉ v := by
    rw [configGet, kvsGet] at h
    obtain ⟨kv, _, rfl⟩ := Option.map_eq_some_iff.mp h
    exact kv.value_line.2
  rw [configGet_eq] at h
  obtain ⟨t, ht, rfl⟩ := Option.map_eq_some_iff.mp h
  have hloop : t ∈ loopSettings file := (List.take_sublist _ _).subset (List.mem_of_find?_eq_some ht)
  obtain ⟨p, _, hitem⟩ := List.mem_filterMap.mp (mem_settingsFrom hloop)
  obtain ⟨_, hnul⟩ := lineItem_setting hitem
  refine ⟨⟨?_, hnul⟩, hline⟩
  unfold lineItem itemOf at hitem
  split at hitem
  · cases hitem
  split at hitem
  · cases hitem
  split at hitem
  · obtain ⟨_, _, he⟩ := Option.map_eq_some_iff.mp hitem
    cases he
  · obtain ⟨_, _, he⟩ := Option.map_eq_some_iff.mp hitem
    rw [ConfigItem.setting.injEq] at he
    rw [← he.2]
    exact trim_trimmed _

theorem configSettings_plain (file : Bytes) :
    ∀ kv ∈ configSettings (configLoad file), PlainSetting kv := by
  have hplain {key value : Bytes} (hkey : KeyText key ∧ lf ∉ key) (hvalue : ValueText value ∧ lf ∉ value) :
      PlainSetting (key, value) :=
    ⟨hkey.1, hvalue.1, fun hmem => (List.mem_append.mp hmem).elim hkey.2 hvalue.2⟩
  have hgetD {sec key default : Bytes} (hd : ValueText default ∧ lf ∉ default) :
      ValueText ((configGet (configLoad file) sec key).getD default) ∧
        lf ∉ (configGet (configLoad file) sec key).getD default := by
    cases hv : configGet (configLoad file) sec key with
    | none => exact hd
    | some v => exact configGet_plain hv
  intro kv hkv
  simp only [configSettings, List.cons_append, List.nil_append, List.mem_cons, List.mem_map,
    Option.mem_toList] at hkv
  obtain rfl | rfl | rfl | rfl | ⟨v, hv, rfl⟩ := hkv
  · exact hplain (by decide +kernel) (hgetD ⟨⟨by decide +kernel, by decide +kernel⟩, by decide +kernel⟩)
  · exact hplain (by decide +kernel) ⟨⟨by decide +kernel, by decide +kernel⟩, by decide +kernel⟩
  · exact hplain (by decide +kernel) (hgetD ⟨⟨by decide +kernel, by decide +kernel⟩, by decide +kernel⟩)
  · exact hplain (by decide +kernel) (hgetD ⟨⟨by decide +kernel, by decide +kernel⟩, by decide +kernel⟩)
  · exact hplain (by decide +kernel) (configGet_plain hv)

/-- The lines printed fit the line buffer of the loader. -/
def SnapshotFits (cfg : Config) : Prop := ∀ kv ∈ configSettings cfg, kv.1.length + kv.2.length ≤ 1021

instance (cfg : Config) : Decidable (SnapshotFits cfg) := List.decidableBAll _ (configSettings cfg)

theorem configSettings_keys (cfg : Config) :
    ((configSettings cfg).map fun kv => compoundKey (ascii "default") kv.1).Nodup := by
  unfold configSettings
  cases configGet cfg (ascii "upstream.api") (ascii "server") with
  | none => exact (by decide +kernel : ([ascii "listen", ascii "log_dir", ascii "log_level",
      ascii "worker_num"].map (compoundKey (ascii "default"))).Nodup)
  | some server => exact (by decide +kernel : ([ascii "listen", ascii "log_dir", ascii "log_level",
      ascii "worker_num", ascii "upstream.api.server"].map (compoundKey (ascii "default"))).Nodup)

/-- What is loaded of a text printed of a configuration: its settings, in the section that a file
    begins with, and each of them is found. -/
structure SnapshotRead (cfg snapshot : Config) : Prop where
  stored : snapshot.kvs.map Kv.stored =
    (configSettings cfg).map fun kv => (compoundKey (ascii "default") kv.1, kv.2)
  found : ∀ kv ∈ configSettings cfg, configGet snapshot (ascii "default") kv.1 = some kv.2

/-- **The text printed of a loaded configuration is read back.** -/
theorem configDump_read {file : Bytes} (hfits : SnapshotFits (configLoad file)) :
    SnapshotRead (configLoad file) (configLoad (configDump (configLoad file))) := by
  have hplain := configSettings_plain file
  have hfew := configSettings_length (configLoad file)
  have hkeys := configSettings_keys (configLoad file)
  generalize configLoad file = cfg at hfits hplain hfew hkeys ⊢
  obtain ⟨lines, htext, hsettings, hlength⟩ := printed_lines _ hplain
  have hdump : configDump cfg = fileText lines := htext.symm
  have hloop : loopSettings (configDump cfg) =
      (configSettings cfg).map (fun kv => ⟨ascii "default", kv.1, kv.2⟩) := by
    rw [hdump, loopSettings_fileText, hsettings]
    intro l hl
    obtain ⟨kv, hkv, hlen⟩ := hlength l hl
    have := hfits kv hkv
    omega
  have hall : (loopSettings (configDump cfg)).take maxKv = loopSettings (configDump cfg) := by
    apply List.take_of_length_le
    rw [hloop, List.length_map]
    exact hfew.trans (by decide)
  constructor
  · rw [configLoad_kvs, hall, hloop, List.map_map]
    rfl
  · intro kv hkv
    have hsearch : (Setting.joinsTo (ascii "default") kv.1) ∘
        (fun x : Bytes × Bytes => (⟨ascii "default", x.1, x.2⟩ : Setting)) =
          fun x => compoundKey (ascii "default") x.1 == compoundKey (ascii "default") kv.1 := rfl
    rw [configGet_eq, hall, hloop, List.find?_map, hsearch, Slots.find?_of_nodup hkeys hkv]
    rfl

/-! ## The slots -/

/-- The slot holds the whole text of the configuration. -/
structure ConfigShadow.Shows (slot : ConfigShadow) (cfg : Config) : Prop where
  text : cstr slot.data = configDump cfg
  totalSize : slot.totalSize.toNat = strlen slot.data

/-- What `serialize_config` leaves in a slot, whatever was in it. -/
theorem serializeConfig_shows (file : Bytes) {data : Bytes} (hdata : data.length = configMax)
    (version : UInt64) :
    (⟨version, (serializeConfig (configLoad file) data).2, (serializeConfig (configLoad file) data).1⟩ :
      ConfigShadow).Shows (configLoad file) ∧
    (serializeConfig (configLoad file) data).1.length = configMax := by
  have hshort := configDump_length file
  have hnul := configDump_nulFree file
  generalize configLoad file = cfg at hshort hnul ⊢
  have hmax : configMax = 65536 := rfl
  have hfits : (configDump cfg).length < (data.take (configMax - 1)).length := by
    rw [List.length_take]
    omega
  have hholds : (configPieces cfg).foldl emit (data.take (configMax - 1), 0) =
      (configDump cfg ++ 0 :: (data.take (configMax - 1)).drop ((configDump cfg).length + 1),
        (configDump cfg).length) := emits_hold _ _ hfits
  rw [serializeConfig_eq, hholds]
  have htext : cstr (configDump cfg ++ 0 ::
      (data.take (configMax - 1)).drop ((configDump cfg).length + 1) ++ data.drop (configMax - 1)) =
      configDump cfg := by
    rw [List.append_assoc, cstr_append hnul]
    simp [cstr]
  refine ⟨⟨htext, ?_⟩, ?_⟩
  · rw [strlen, htext]
    exact Nat.mod_eq_of_lt (by omega)
  · simp only [List.length_append, List.length_cons, List.length_drop, List.length_take]
    omega

/-- The slot of the `n`th configuration published. -/
def slotOf (n : Nat) : Fin 2 := ⟨n % 2, Nat.mod_lt n (by decide)⟩

/-- The slots hold the configurations published last, the latest in the slot in use. -/
structure Published (cfgs : List Config) (sh : Shared) : Prop where
  room : ∀ i, (sh.shadow i).data.length = configMax
  active : ∃ n, cfgs.length = n + 1 ∧ sh.activeSlot = slotOf n
  shows : ∀ n cfg, cfgs[n]? = some cfg → cfgs.length ≤ n + 2 → (sh.shadow (slotOf n)).Shows cfg
  files : ∀ cfg ∈ cfgs, ∃ file, cfg = configLoad file

theorem published_init (file : Bytes) : Published [configLoad file] (sharedInit (configLoad file)) := by
  have hzero : (List.replicate configMax (0 : UInt8)).length = configMax := List.length_replicate
  obtain ⟨hshows, hlength⟩ := serializeConfig_shows file hzero 1
  refine ⟨fun i => ?_, ⟨0, rfl, rfl⟩, fun n cfg hget _ => ?_,
    fun cfg hmem => ⟨file, List.mem_singleton.mp hmem⟩⟩
  · obtain rfl | rfl := slot_cases i
    · exact hlength
    · exact hzero
  · cases n with
    | zero =>
      cases hget
      exact hshows
    | succ n => cases hget

theorem slotOf_succ (n : Nat) : slotOf (n + 1) = 1 - slotOf n ∧ slotOf (n + 1) ≠ slotOf n := by
  have hval : (slotOf (n + 1)).val = (n + 1) % 2 := rfl
  have hval' : (slotOf n).val = n % 2 := rfl
  obtain h | h := slot_cases (slotOf n) <;> obtain h' | h' := slot_cases (slotOf (n + 1)) <;>
    rw [h'] at hval ⊢ <;> rw [h] at hval' ⊢ <;> simp at hval hval' ⊢ <;> omega

theorem reloadConfig_slots {sh : Shared} {i : Fin 2} (hi : 1 - sh.activeSlot = i) (cfg : Config) :
    (reloadConfig sh cfg).activeSlot = i ∧
    (reloadConfig sh cfg).shadow i = ⟨(sh.shadow i).version + 1,
      (serializeConfig cfg (sh.shadow i).data).2, (serializeConfig cfg (sh.shadow i).data).1⟩ ∧
    ∀ j, j ≠ i → (reloadConfig sh cfg).shadow j = sh.shadow j := by
  unfold reloadConfig
  dsimp only
  rw [hi]
  exact ⟨rfl, Function.update_self .., fun j hj => Function.update_of_ne hj ..⟩

/-- A reload keeps the configuration in use whole beside the new one. -/
theorem published_reload {cfgs : List Config} {sh : Shared} (h : Published cfgs sh) (file : Bytes) :
    Published (cfgs ++ [configLoad file]) (reloadConfig sh (configLoad file)) := by
  obtain ⟨n, hlength, hactive⟩ := h.active
  obtain ⟨hother, hne⟩ := slotOf_succ n
  obtain ⟨hslot, hwritten, hkept⟩ := reloadConfig_slots (i := slotOf (n + 1)) (by rw [hactive, hother])
    (configLoad file)
  obtain ⟨hshows, hsize⟩ := serializeConfig_shows file (h.room (slotOf (n + 1)))
    ((sh.shadow (slotOf (n + 1))).version + 1)
  have hmore : (cfgs ++ [configLoad file]).length = n + 2 := by rw [List.length_append, hlength]; rfl
  refine ⟨fun i => ?_, ⟨n + 1, hmore, hslot⟩, fun m cfg hget hlast => ?_, fun cfg hmem => ?_⟩
  · by_cases hi : i = slotOf (n + 1)
    · rw [hi, hwritten]
      exact hsize
    · rw [hkept i hi]
      exact h.room i
  · rw [hmore] at hlast
    have hm := (List.getElem?_eq_some_iff.mp hget).1
    rw [hmore] at hm
    obtain rfl | rfl : m = n + 1 ∨ m = n := by omega
    · rw [← hlength, List.getElem?_concat_length] at hget
      cases hget
      rw [hwritten]
      exact hshows
    · rw [List.getElem?_append_left (by omega)] at hget
      rw [hkept _ hne.symm]
      exact h.shows m cfg hget (by omega)
  · obtain hmem | hmem := List.mem_append.mp hmem
    · exact h.files cfg hmem
    · exact ⟨file, List.mem_singleton.mp hmem⟩

/-! ## Runs -/

/-- What `nexus_config_load` returns is loaded from a file. -/
def SystemStep.LoadsFile : SystemStep → Prop
  | .master k => ∀ cfg ∈ k.loaded, ∃ file, cfg = configLoad file
  | _ => True

/-- The configuration that a step publishes. -/
def System.publishes (s : System) : SystemStep → List Config
  | .master _ => if s.master.pc = .reloading then [s.master.newCfg] else []
  | _ => []

/-- The configurations that a run of the master publishes, with the one it starts with. -/
def publishedBy (cfg : Config) (online : Int32) (steps : List SystemStep) : List Config :=
  cfg :: outputs System.step System.publishes (systemInit cfg online) steps

theorem published_step {cfgs : List Config} {s s' : System} {a : SystemStep}
    (h : Published cfgs s.shared) (hfile : ∃ file, s.master.newCfg = configLoad file)
    (hstep : s.step a = some s') : Published (cfgs ++ s.publishes a) s'.shared := by
  have hsame {sh : Shared} (hshadow : sh.shadow = s.shared.shadow)
      (hslot : sh.activeSlot = s.shared.activeSlot) : Published (cfgs ++ []) sh := by
    rw [List.append_nil]
    exact ⟨by rw [hshadow]; exact h.room, by rw [hslot]; exact h.active, by rw [hshadow]; exact h.shows,
      h.files⟩
  cases a with
  | sighup =>
    cases hstep
    exact hsame rfl rfl
  | worker pid a =>
    obtain ⟨_, _, _, _, _, rfl⟩ := worker_step hstep
    exact hsame rfl rfl
  | master k =>
    have hmoves := master_step hstep
    rw [System.publishes]
    split
    · rename_i hpc
      obtain ⟨file, hload⟩ := hfile
      rw [masterStep_reloading hmoves hpc, hload]
      exact published_reload h file
    · rename_i hpc
      obtain ⟨hreloading, _⟩ | ⟨hshadow, hslot⟩ := masterStep_slots hmoves
      · exact absurd hreloading hpc
      · exact hsame hshadow hslot

theorem loaded_step {s s' : System} {a : SystemStep} (h : ∃ file, LatestInv (configLoad file) s)
    (hfile : a.LoadsFile) (hstep : s.step a = some s') : ∃ file, LatestInv (configLoad file) s' := by
  obtain ⟨file, hlatest⟩ := h
  have hnext := step_latest hlatest hstep
  cases hload : s.loads a with
  | none =>
    rw [hload] at hnext
    exact ⟨file, hnext⟩
  | some cfg =>
    rw [hload] at hnext
    cases a with
    | sighup => cases hload
    | worker pid a => cases hload
    | master k =>
      rw [System.loads] at hload
      split at hload
      · obtain ⟨file', rfl⟩ := hfile cfg hload
        exact ⟨file', hnext⟩
      · cases hload

theorem published_run (file : Bytes) (online : Int32) {steps : List SystemStep} {s : System}
    (hfiles : ∀ a ∈ steps, a.LoadsFile)
    (hrun : (systemInit (configLoad file) online).run steps = some s) :
    Published (publishedBy (configLoad file) online steps) s.shared ∧
      ∃ file, LatestInv (configLoad file) s := by
  revert hfiles
  refine run_snoc_induction (P := fun steps s => (∀ a ∈ steps, a.LoadsFile) →
    Published (publishedBy (configLoad file) online steps) s.shared ∧
      ∃ file, LatestInv (configLoad file) s) ?_ ?_ steps hrun
  · exact fun _ => ⟨published_init file, file, latestInv_init _ online⟩
  · intro steps s a s' hrun ih hstep hfiles
    obtain ⟨hpublished, hloaded⟩ := ih fun b hb => hfiles b (List.mem_append_left _ hb)
    have hnew : ∃ file, s.master.newCfg = configLoad file := hloaded.imp fun _ h => h.newCfg
    have hlast : a.LoadsFile := hfiles a (List.mem_append_right _ List.mem_cons_self)
    rw [publishedBy, outputs_snoc hrun hstep, ← List.cons_append]
    exact ⟨published_step hpublished hnew hstep, loaded_step hloaded hlast hstep⟩

/-- **The published configurations.** For every run of the master, its workers and the signals
    sent to it, with any reloads of files: the slot in use is the one of the configuration
    published last; it holds the whole text of it and the other slot still that of the one
    before, each with its length; and if its lines fit the loader's buffer, loading that text
    gives back its settings. -/
theorem snapshots_read_back (file : Bytes) (online : Int32) {steps : List SystemStep} {s : System}
    (hfiles : ∀ a ∈ steps, a.LoadsFile)
    (hrun : (systemInit (configLoad file) online).run steps = some s) {n : Nat} {cfg : Config}
    (hget : (publishedBy (configLoad file) online steps)[n]? = some cfg)
    (hlast : (publishedBy (configLoad file) online steps).length ≤ n + 2) :
    ((publishedBy (configLoad file) online steps).length = n + 1 → s.shared.activeSlot = slotOf n) ∧
    (s.shared.shadow (slotOf n)).Shows cfg ∧
    (SnapshotFits cfg → SnapshotRead cfg (configLoad (cstr (s.shared.shadow (slotOf n)).data))) := by
  obtain ⟨hpublished, _⟩ := published_run file online hfiles hrun
  have hshows := hpublished.shows n cfg hget hlast
  refine ⟨fun hlength => ?_, hshows, fun hfits => ?_⟩
  · obtain ⟨m, hm, hactive⟩ := hpublished.active
    obtain rfl : n = m := by omega
    exact hactive
  · obtain ⟨file', rfl⟩ := hpublished.files cfg (List.mem_of_getElem? hget)
    rw [hshows.text]
    exact configDump_read hfits

/-- The file that the master starts with, and the one that it reloads. -/
def firstFile : Bytes := ascii "[server]\nlisten = 127.0.0.1:8080\n"

def secondFile : Bytes := ascii "[server]\nlisten = 127.0.0.1:80\n[upstream.api]\nserver = 127.0.0.1:9001\n"

/-- A worker is started, and a reload publishes the second file. -/
def publishedSteps : List SystemStep :=
  [.master ⟨none, 100, 0⟩, .master noCalls, .sighup, .master noCalls, .master noCalls,
    .master ⟨some (configLoad secondFile), 0, 0⟩, .master noCalls]

theorem publishedSteps_files : ∀ a ∈ publishedSteps, a.LoadsFile := by
  have hloads (loaded : Option Config) (h : loaded = none ∨ loaded = some (configLoad secondFile))
      (forked waited : Int) : (SystemStep.master ⟨loaded, forked, waited⟩).LoadsFile := by
    intro cfg hcfg
    obtain rfl | rfl := h
    · cases hcfg
    · exact ⟨secondFile, (Option.some.inj hcfg).symm⟩
  intro a ha
  simp only [publishedSteps, List.mem_cons, List.not_mem_nil, or_false] at ha
  obtain rfl | rfl | rfl | rfl | rfl | rfl | rfl := ha
  · exact hloads none (.inl rfl) _ _
  · exact hloads none (.inl rfl) _ _
  · trivial
  · exact hloads none (.inl rfl) _ _
  · exact hloads none (.inl rfl) _ _
  · exact hloads _ (.inr rfl) _ _
  · exact hloads none (.inl rfl) _ _

theorem snapshots_read_back_second : ∃ s,
    (systemInit (configLoad firstFile) 1).run publishedSteps = some s ∧ s.shared.activeSlot = 1 ∧
      SnapshotRead (configLoad secondFile) (configLoad (cstr (s.shared.shadow 1).data)) := by
  have hruns : ((systemInit (configLoad firstFile) 1).run publishedSteps).isSome = true := by
    decide +kernel
  have hpublished : publishedBy (configLoad firstFile) 1 publishedSteps =
      [configLoad firstFile, configLoad secondFile] := by decide +kernel
  obtain ⟨s, hs⟩ := Option.isSome_iff_exists.mp hruns
  obtain ⟨hactive, _, hread⟩ := @snapshots_read_back firstFile 1 publishedSteps s publishedSteps_files
    hs 1 (configLoad secondFile) (by rw [hpublished]; rfl) (by rw [hpublished]; decide)
  exact ⟨s, hs, hactive (by rw [hpublished]; rfl), hread (by decide +kernel)⟩

end NexusGateway
