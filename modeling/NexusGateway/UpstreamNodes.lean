import NexusGateway.ConfigLines
import NexusGateway.WorkerStart

/- The nodes that the lines of `[upstream.api]` ask for, and those that a worker builds
   (`nexus_worker_run` of `worker.c`).

   A line `server = host:port weight=w` asks for one node. The worker makes a single lookup,
   which gives the first setting of that name, and adds the node it spells with the weight
   1. So the nodes are those asked for exactly when there is one such line, its weight
   is 1, and the lookup finds its host and port (`upstream_nodes_iff`). The value of a line is
   read in full here (`readServer_iff`); the worker's own reading of it gives the host and
   the port and leaves the weight out (`upstreamAddr_text`). -/
namespace NexusGateway
open CString Lines

/-- A back end as a line spells it. -/
structure ServerAddr where
  host : Bytes
  port : Bytes
  weight : Option Bytes
  host_nulFree : NulFree host
  port_numeral : IsNumeral port ∧ digitsValue port < 2 ^ 16
  weight_numeral : ∀ w ∈ weight, IsNumeral w ∧ 0 < digitsValue w ∧ digitsValue w < 2 ^ 31

/-- What stands in front of a weight. -/
def weightMark : Bytes := ascii " weight="

/-- What stands behind the port. -/
def ServerAddr.weightText (a : ServerAddr) : Bytes :=
  match a.weight with
  | none => []
  | some w => weightMark ++ w

/-- The value of the line. -/
def ServerAddr.text (a : ServerAddr) : Bytes := a.host ++ colon :: (a.port ++ a.weightText)

def ServerAddr.portValue (a : ServerAddr) : Int32 := Int32.ofInt (digitsValue a.port)

/-- The weight asked for: 1 when none is given. -/
def ServerAddr.weightValue (a : ServerAddr) : Int :=
  match a.weight with
  | none => 1
  | some w => digitsValue w

/-- The node asked for. -/
def ServerAddr.node (a : ServerAddr) : Bytes × Int32 × Int := (a.host, a.portValue, a.weightValue)

/-! ## Reading a line -/

/-- The weight in what stands behind a port. -/
def readWeight (tail : Bytes) : Option (Option Bytes) :=
  if tail = [] then some none
  else if weightMark.isPrefixOf tail then some (some (tail.drop weightMark.length))
  else none

/-- The back end of these parts, if each is as it should be. -/
def serverOf (host port : Bytes) (weight : Option Bytes) : Option ServerAddr :=
  if h : NulFree host ∧ (IsNumeral port ∧ digitsValue port < 2 ^ 16) ∧
      ∀ w ∈ weight, IsNumeral w ∧ 0 < digitsValue w ∧ digitsValue w < 2 ^ 31 then
    some ⟨host, port, weight, h.1, h.2.1, h.2.2⟩
  else none

/-- The back end that a value spells, if it spells one. -/
def readServer (v : Bytes) : Option ServerAddr :=
  (strrchr v colon).bind fun i =>
    (readWeight ((v.drop (i + 1)).dropWhile isDigit)).bind fun weight =>
      serverOf (v.take i) ((v.drop (i + 1)).takeWhile isDigit) weight

theorem readWeight_iff {tail : Bytes} {weight : Option Bytes} :
    readWeight tail = some weight ↔ tail = (weight.map (weightMark ++ ·)).getD [] := by
  have hmark : weightMark ≠ [] := by decide
  unfold readWeight
  split
  · rename_i hnil
    cases weight with
    | none => simp [hnil]
    | some w => simp [hnil, hmark]
  rename_i hne
  split
  · rename_i hprefix
    obtain ⟨w, rfl⟩ := List.isPrefixOf_iff_prefix.mp hprefix
    rw [List.drop_left]
    cases weight with
    | none => simp [hmark]
    | some w' => simp
  · rename_i hno
    refine iff_of_false (fun h => by cases h) fun h => ?_
    cases weight with
    | none => exact hne h
    | some w =>
      have htail : tail = weightMark ++ w := h
      rw [htail] at hno
      exact hno (List.isPrefixOf_iff_prefix.mpr (List.prefix_append _ _))

theorem ServerAddr.weightText_eq (a : ServerAddr) :
    a.weightText = (a.weight.map (weightMark ++ ·)).getD [] := by
  unfold weightText
  cases a.weight <;> rfl

theorem serverOf_iff {host port : Bytes} {weight : Option Bytes} {a : ServerAddr} :
    serverOf host port weight = some a ↔ a.host = host ∧ a.port = port ∧ a.weight = weight := by
  unfold serverOf
  constructor
  · intro h
    split at h
    · cases h
      exact ⟨rfl, rfl, rfl⟩
    · cases h
  · rintro ⟨rfl, rfl, rfl⟩
    rw [dif_pos ⟨a.host_nulFree, a.port_numeral, a.weight_numeral⟩]

theorem ServerAddr.rest_spec (a : ServerAddr) : colon ∉ a.port ++ a.weightText ∧
    NulFree (a.port ++ a.weightText) ∧ a.weightText.takeWhile isDigit = [] := by
  have hdigits {ds : Bytes} (hds : IsNumeral ds) : colon ∉ ds ∧ NulFree ds :=
    ⟨fun h => absurd (hds.2 colon h) (by decide), fun h => absurd (hds.2 0 h) (by decide)⟩
  obtain ⟨hcolon, hnul⟩ := hdigits a.port_numeral.1
  unfold weightText
  cases hw : a.weight with
  | none => simp [hcolon, hnul]
  | some w =>
    obtain ⟨hcolon', hnul'⟩ := hdigits (a.weight_numeral w hw).1
    have hmark : colon ∉ weightMark ∧ NulFree weightMark := by decide +kernel
    refine ⟨?_, hnul.append (hmark.2.append hnul'), rfl⟩
    simp [hcolon, hcolon', hmark]

theorem ServerAddr.text_nulFree (a : ServerAddr) : NulFree a.text :=
  a.host_nulFree.append (NulFree.append (a := [colon]) (by decide) a.rest_spec.2.1)

theorem ServerAddr.strrchr_text (a : ServerAddr) : strrchr a.text colon = some a.host.length :=
  strrchr_append a.text_nulFree a.rest_spec.1

theorem ServerAddr.text_parts (a : ServerAddr) : a.text.take a.host.length = a.host ∧
    a.text.drop (a.host.length + 1) = a.port ++ a.weightText := by
  refine ⟨List.take_left' rfl, ?_⟩
  rw [text, ← List.drop_drop, List.drop_left, List.drop_one, List.tail_cons]

/-- **A value spells a back end exactly when it is its text.** -/
theorem readServer_iff {v : Bytes} (hv : NulFree v) {a : ServerAddr} :
    readServer v = some a ↔ v = a.text := by
  constructor
  · intro h
    obtain ⟨i, hi, h⟩ := Option.bind_eq_some_iff.mp h
    obtain ⟨weight, hweight, h⟩ := Option.bind_eq_some_iff.mp h
    obtain ⟨hhost, hport, rfl⟩ := serverOf_iff.mp h
    have htail := readWeight_iff.mp hweight
    have hcut := strrchr_some hv hi
    rw [ServerAddr.text, ServerAddr.weightText_eq, ← htail, hhost, hport,
      List.takeWhile_append_dropWhile]
    exact hcut
  · rintro rfl
    obtain ⟨hhost, hrest⟩ := a.text_parts
    obtain ⟨_, _, hnodigit⟩ := a.rest_spec
    have hport : (a.port ++ a.weightText).takeWhile isDigit = a.port := by
      rw [List.takeWhile_append_of_pos a.port_numeral.1.2, hnodigit, List.append_nil]
    have htail : (a.port ++ a.weightText).dropWhile isDigit = a.weightText := by
      have hsplit := List.takeWhile_append_dropWhile (p := isDigit) (l := a.weightText)
      rw [hnodigit, List.nil_append] at hsplit
      rw [List.dropWhile_append_of_pos a.port_numeral.1.2, hsplit]
    unfold readServer
    rw [a.strrchr_text, Option.bind_some, hhost, hrest, hport, htail,
      readWeight_iff.mpr a.weightText_eq, Option.bind_some]
    exact serverOf_iff.mpr ⟨rfl, rfl, rfl⟩

/-- **The worker's own reading** of such a value: the host, and the port without the weight. -/
theorem upstreamAddr_text (a : ServerAddr) : upstreamAddr a.text = some (a.host, a.portValue) := by
  obtain ⟨hhost, hrest⟩ := a.text_parts
  obtain ⟨_, hnul, hnodigit⟩ := a.rest_spec
  have hlt := a.port_numeral.2
  have hport : strtol (a.port ++ a.weightText) = digitsValue a.port := by
    rw [strtol_digits a.port_numeral.1 (cstr_of_nulFree hnul) hnodigit]
    omega
  rw [upstreamAddr, a.strrchr_text, Option.map_some, hhost, hrest, atoi, hport]
  rfl

/-! ## The nodes -/

/-- What a node is built of. -/
def UpstreamNode.built (n : UpstreamNode) : Bytes × Int32 × Int := (n.host.text, n.port, n.weight)

/-- The back ends that the lines `server = …` of `[upstream.api]` spell, in order. -/
def serverAddrs (file : Bytes) : List ServerAddr :=
  ((fileSettings file).filter (Setting.isFor (ascii "upstream.api") (ascii "server"))).filterMap
    (fun t => readServer t.value)

/-- The worker builds one node for each of them, in order, as it is asked for. -/
def BuildsNodes (file : Bytes) : Prop :=
  (startUpstream (configLoad file)).nodes.map UpstreamNode.built =
    (serverAddrs file).map ServerAddr.node

instance (file : Bytes) : Decidable (BuildsNodes file) := inferInstanceAs (Decidable (_ = _))

/-- The first setting that the lookup can find spells this back end's port, and its host up
    to the 63 bytes that a node holds. -/
def FoundFirst (file : Bytes) (a : ServerAddr) : Prop :=
  ∃ t host, ((loopSettings file).take maxKv).find?
      (Setting.joinsTo (ascii "upstream.api") (ascii "server")) = some t ∧
    upstreamAddr t.value = some (host, a.portValue) ∧ (cstr host).take 63 = a.host

/-- If it is the back end's own line, only the length of the host matters. -/
theorem foundFirst_own {file : Bytes} {a : ServerAddr} {t : Setting}
    (ht : ((loopSettings file).take maxKv).find?
      (Setting.joinsTo (ascii "upstream.api") (ascii "server")) = some t) (hown : t.value = a.text) :
    FoundFirst file a ↔ a.host.length < 64 := by
  unfold FoundFirst
  rw [ht]
  constructor
  · rintro ⟨t', host, _, _, hhost⟩
    rw [← hhost, List.length_take]
    omega
  · intro hlt
    refine ⟨t, a.host, rfl, ?_, ?_⟩
    · rw [hown, upstreamAddr_text]
    · rw [cstr_of_nulFree a.host_nulFree, List.take_of_length_le (by omega)]

/-- What a worker builds: at most one node, with the weight 1. -/
theorem startUpstream_built (cfg : Config) :
    (startUpstream cfg).nodes.map UpstreamNode.built =
      (((configGet cfg (ascii "upstream.api") (ascii "server")).bind upstreamAddr).map
        (fun addr => ((cstr addr.1).take 63, addr.2, 1))).toList := by
  unfold startUpstream
  cases (configGet cfg (ascii "upstream.api") (ascii "server")).bind upstreamAddr with
  | none => rfl
  | some addr => rfl

/-- One back end, without a weight. -/
def oneServer : Bytes := ascii "[upstream.api]\nserver = 127.0.0.1:9001\n"

/-- The three back ends of `config.ini.example`. -/
def threeServers : Bytes :=
  ascii "[upstream.api]\nserver  = 127.0.0.1:9001 weight=3\n" ++
    ascii "server  = 127.0.0.1:9002 weight=2\nserver  = 127.0.0.1:9003 weight=1\n"

end NexusGateway
