import NexusGateway.Master
import NexusGateway.ConfigLines
import NexusGateway.Lib.Prints

/- The prints of `serialize_config` (`master.c`).

   Each line is printed at `p + n` with `end - p - n` for the room, and `n` is raised by what
   `snprintf` reports: a line cut off would raise it past the end, and the next size would be
   huge. No line of a loaded configuration is: its values come from lines of the file of at
   most 1023 bytes, so the five lines together are shorter than 6000 (`configDump_length`).
   So `n` stays below `CONFIG_MAX - 1` and the slot holds all the lines
   (`serialize_config_whole`), which is what `serializeConfig` says. -/
namespace NexusGateway
open CString Prints

/-- The lines of `serialize_config`: each key with its value or default. -/
def configSettings (cfg : Config) : List (Bytes × Bytes) :=
  [(ascii "listen", (configGet cfg (ascii "server") (ascii "listen")).getD (ascii "0.0.0.0:8080")),
    (ascii "log_dir", ascii "logs"),
    (ascii "log_level", (configGet cfg (ascii "server") (ascii "log_level")).getD (ascii "info")),
    (ascii "worker_num", (configGet cfg (ascii "server") (ascii "worker_num")).getD (ascii "auto"))] ++
  (configGet cfg (ascii "upstream.api") (ascii "server")).toList.map (ascii "upstream.api.server", ·)

/-- The texts printed, one for each call. -/
def configPieces (cfg : Config) : List Bytes :=
  (configSettings cfg).map fun kv => configText kv.1 kv.2

/-- The complete text. -/
def configDump (cfg : Config) : Bytes := (configPieces cfg).flatten

/-- A number as an `int`. -/
def intT (n : Int) : Int := n.bmod (2 ^ 32)

/-- What `serialize_config` does: its prints into the slot's data, the data after them, and
    the size that is stored. -/
structure ConfigPrinting where
  calls : List PrintCall
  data : Option Bytes
  totalSize : UInt32

/-- `serialize_config`. The room ends in front of the slot's last byte. -/
def serializeConfigRun (cfg : Config) (data : Bytes) : ConfigPrinting :=
  let calls := printCalls intT (configMax - 1) 0 (configPieces cfg)
  ⟨calls, applyCalls data calls, UInt32.ofInt (printEnd intT 0 (configPieces cfg))⟩

/-- `n` after the call. -/
def sumAfter (c : PrintCall) : Int := intT (c.offset + reported c.text)

theorem keepsSmall_intT : KeepsSmall intT := fun _ _ _ =>
  Int.bmod_eq_of_le (by omega) (by omega)

/-- What is printed of one setting fits a line of the file and the longest key. -/
structure ShortSetting (kv : Bytes × Bytes) : Prop where
  key : kv.1.length ≤ 19
  key_nulFree : NulFree kv.1
  value : kv.2.length ≤ 1022

theorem shortSetting {key value : Bytes} (hkey : key.length ≤ 19 ∧ NulFree key)
    (hvalue : value.length ≤ 1022) : ShortSetting (key, value) := ⟨hkey.1, hkey.2, hvalue⟩

theorem configSettings_short (file : Bytes) :
    ∀ kv ∈ configSettings (configLoad file), ShortSetting kv := by
  have hget {sec key : Bytes} : ∀ v ∈ configGet (configLoad file) sec key, v.length ≤ 1022 :=
    fun v hv => (configGet_value hv).1
  have hgetD {sec key default : Bytes} (hd : default.length ≤ 1022) :
      ((configGet (configLoad file) sec key).getD default).length ≤ 1022 := by
    cases hv : configGet (configLoad file) sec key with
    | none => exact hd
    | some v => exact hget v hv
  intro kv hkv
  simp only [configSettings, List.cons_append, List.nil_append, List.mem_cons, List.mem_map,
    Option.mem_toList] at hkv
  obtain rfl | rfl | rfl | rfl | ⟨v, hv, rfl⟩ := hkv
  · exact shortSetting (by decide) (hgetD (by decide))
  · exact shortSetting (by decide) (by decide)
  · exact shortSetting (by decide) (hgetD (by decide))
  · exact shortSetting (by decide) (hgetD (by decide))
  · exact shortSetting (by decide) (hget v hv)

theorem configSettings_length (cfg : Config) : (configSettings cfg).length ≤ 5 := by
  unfold configSettings
  cases configGet cfg (ascii "upstream.api") (ascii "server") <;> simp

theorem ShortSetting.text_length {kv : Bytes × Bytes} (h : ShortSetting kv) :
    (configText kv.1 kv.2).length ≤ 1043 := by
  have hkey := h.key
  have hvalue := (cstr_length_le kv.2).trans h.value
  simp only [configText, List.length_append, List.length_cons, List.length_nil,
    show (ascii "=").length = 1 from rfl]
  omega

/-- **The text of a loaded configuration is short.** -/
theorem configDump_length (file : Bytes) : (configDump (configLoad file)).length < 6000 := by
  have hsum : (configDump (configLoad file)).length ≤
      ((configPieces (configLoad file)).map List.length).length * 1043 := by
    rw [configDump, List.length_flatten]
    apply List.sum_le_card_nsmul
    intro n hn
    obtain ⟨text, htext, rfl⟩ := List.mem_map.mp hn
    obtain ⟨kv, hkv, rfl⟩ := List.mem_map.mp htext
    exact (configSettings_short file kv hkv).text_length
  have hfive := configSettings_length (configLoad file)
  rw [List.length_map, configPieces, List.length_map] at hsum
  omega

theorem configDump_nulFree (file : Bytes) : NulFree (configDump (configLoad file)) := by
  intro h
  obtain ⟨text, htext, hnul⟩ := List.mem_flatten.mp h
  obtain ⟨kv, hkv, rfl⟩ := List.mem_map.mp htext
  have hkey := (configSettings_short file kv hkv).key_nulFree
  have heq : NulFree (ascii "=") := by decide
  have hend : NulFree (cstr kv.2 ++ [lf]) := (cstr_nulFree kv.2).append (by decide)
  exact (hkey.append (heq.append hend)) hnul

/-- The writes of `serializeConfig` are those of the pieces. -/
theorem serializeConfig_eq (cfg : Config) (data : Bytes) :
    serializeConfig cfg data =
      (((configPieces cfg).foldl emit (data.take (configMax - 1), 0)).1 ++ data.drop (configMax - 1),
        ((configPieces cfg).foldl emit (data.take (configMax - 1), 0)).2.toUInt32) := by
  unfold serializeConfig configPieces configSettings
  cases configGet cfg (ascii "upstream.api") (ascii "server") <;> rfl

/-- **The slot holds the whole configuration.** For every file and whatever is in the slot: no
    print of `serialize_config` is cut or outside, each is given what is left of the room,
    `n` is at most `CONFIG_MAX - 2` after each, the data holds the text of all the lines with
    a NUL behind it, and the size stored is its length. -/
theorem serialize_config_whole (file : Bytes) (data : Buffer configMax) :
    (∀ c ∈ (serializeConfigRun (configLoad file) data.bytes).calls,
      c.Inside (configMax - 1) ∧ 0 ≤ sumAfter c ∧ sumAfter c ≤ configMax - 2) ∧
    ∃ out, (serializeConfigRun (configLoad file) data.bytes).data = some out ∧
      out.length = configMax ∧ cstr out = configDump (configLoad file) ∧
      (serializeConfigRun (configLoad file) data.bytes).totalSize.toNat = strlen out ∧
      serializeConfig (configLoad file) data.bytes =
        (out, (serializeConfigRun (configLoad file) data.bytes).totalSize) := by
  have hdata := data.length_eq
  have hshort := configDump_length file
  have hnul := configDump_nulFree file
  generalize configLoad file = cfg at hshort hnul ⊢
  have hmax : configMax = 65536 := rfl
  have hpieces : (configPieces cfg).flatten = configDump cfg := rfl
  have hroom : configMax - 1 < 2 ^ 64 := by omega
  have hinside := printCalls_inside keepsSmall_intT hroom (configPieces cfg) 0
    (by rw [hpieces]; omega) (by rw [hpieces]; omega)
  have hwrites := applyCalls_eq_emit keepsSmall_intT hroom (configPieces cfg) 0 data.bytes
    (by rw [hpieces]; omega) (by rw [hpieces]; omega) (by omega)
  have hend := printEnd_eq keepsSmall_intT (configPieces cfg) 0 (by rw [hpieces]; omega)
  rw [hpieces, Nat.zero_add] at hend
  have hholds {out : Bytes} (hout : (configDump cfg).length < out.length) :
      (configPieces cfg).foldl emit (out, 0) =
        (configDump cfg ++ 0 :: out.drop ((configDump cfg).length + 1), (configDump cfg).length) :=
    emits_hold _ _ hout
  have htext : cstr (configDump cfg ++ 0 :: data.bytes.drop ((configDump cfg).length + 1)) =
      configDump cfg := by
    rw [cstr_append hnul]
    simp [cstr]
  have hsize : (serializeConfigRun cfg data.bytes).totalSize = (configDump cfg).length.toUInt32 := by
    calc UInt32.ofInt (printEnd intT 0 (configPieces cfg))
        = UInt32.ofInt ((configDump cfg).length : Int) := congrArg _ hend
      _ = UInt32.ofNat (configDump cfg).length := congrArg UInt32.ofNat (by omega)
  refine ⟨fun c hc => ?_, _, hwrites.trans (by rw [hholds (by omega)]), ?_, htext, ?_, ?_⟩
  · obtain ⟨hoffset, hcsize, hwhole⟩ := hinside c hc
    rw [PrintCall.Whole] at hwhole
    have hafter : sumAfter c = c.offset + c.text.length := by
      rw [sumAfter, reported_small (by omega), keepsSmall_intT _ (by omega) (by omega)]
    exact ⟨⟨hoffset, hcsize, hwhole⟩, by omega, by omega⟩
  · simp only [List.length_append, List.length_cons, List.length_drop]
    omega
  · rw [hsize, strlen, htext]
    exact Nat.mod_eq_of_lt (by omega)
  · -- the last byte, which is no part of the room, is as it was
    have htake : (configDump cfg).length < (data.bytes.take (configMax - 1)).length := by
      rw [List.length_take]
      omega
    have hlast : (data.bytes.take (configMax - 1)).drop ((configDump cfg).length + 1) ++
        data.bytes.drop (configMax - 1) = data.bytes.drop ((configDump cfg).length + 1) := by
      rw [← List.drop_append_of_le_length (by omega), List.take_append_drop]
    rw [serializeConfig_eq, hholds htake, hsize]
    simp [hlast]

end NexusGateway
