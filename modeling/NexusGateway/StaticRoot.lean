import NexusGateway.ConfigLines
import NexusGateway.ForwardedRequest
import NexusGateway.Lib.Paths
import NexusGateway.RequestRouting
import NexusGateway.StaticFile

/- Where the static files lie (`nexus_static_serve` and the static route of
   `handle_client_read`).

   The name opened is the root and behind it the request's path from its second slash on,
   cut to 1023 bytes. A configured root is at most 1022 bytes long, so the slash behind it
   is never cut off, and no two dots stand behind that slash: the name lies at or below
   the root (`static_below_root`). -/
namespace NexusGateway
open CString Paths

def slash : UInt8 := 47
def dot : UInt8 := 46

/-- The lexical normal form of a file name. -/
def fileNormalForm (name : Bytes) : NormalForm UInt8 := normalForm slash dot name

theorem strstr_iff {s sub : Bytes} : strstr s sub = true ↔ sub <:+: cstr s := by
  rw [strstr, List.any_eq_true, List.infix_iff_prefix_suffix]
  simp only [List.mem_tails, List.isPrefixOf_iff_prefix, and_comm]

theorem staticServe_opened {root path : Bytes} {k : StaticCalls} {name : CharArray 1024}
    (h : (staticServe root path k).opened = some name) :
    name.text = (cstr root ++ cstr path).take 1023 ∧ ¬ [dot, dot] <:+: cstr path := by
  have hname : strstr path (ascii "..") = false ∧
      name = CharArray.snprintf size1024_pos (cstr root ++ cstr path) := by
    unfold staticServe at h
    split at h
    · cases h
    · rename_i hdots
      dsimp only at h
      refine ⟨Bool.eq_false_iff.mpr hdots, ?_⟩
      split at h
      · exact (Option.some.inj h).symm
      · exact (Option.some.inj h).symm
  obtain ⟨hdots, rfl⟩ := hname
  refine ⟨?_, fun hin => ?_⟩
  · have hn : NulFree (cstr root ++ cstr path) := (cstr_nulFree root).append (cstr_nulFree path)
    show (cstr (cstr root ++ cstr path)).take 1023 = _
    rw [cstr_of_nulFree hn]
  · have hfound : strstr path (ascii "..") = true := strstr_iff.mpr hin
    rw [hfound] at hdots
    cases hdots

/-- What is opened lies below the root, if the root fits in front of a slash. -/
theorem opened_below {root rest : Bytes} {k : StaticCalls} {name : CharArray 1024}
    (hne : cstr root ≠ []) (hfits : (cstr root).length ≤ 1022)
    (h : (staticServe root (slash :: rest) k).opened = some name) :
    (fileNormalForm name.text).Below (fileNormalForm (cstr root)) := by
  obtain ⟨hname, hdots⟩ := staticServe_opened h
  have hpath : cstr (slash :: rest) = slash :: cstr rest :=
    cstr_append (a := [slash]) (by decide) rest
  rw [hpath] at hname hdots
  have hcut : name.text = cstr root ++ slash :: (cstr rest).take (1022 - (cstr root).length) := by
    obtain ⟨n, hn⟩ : ∃ n, 1023 - (cstr root).length = n + 1 :=
      ⟨1022 - (cstr root).length, by omega⟩
    rw [hname, List.take_append, List.take_of_length_le (by omega), hn, List.take_succ_cons]
    congr 3
    omega
  rw [hcut]
  refine normalForm_append_below hne (fun hin => hdots ?_)
  exact (hin.trans (List.take_prefix _ _).isInfix).trans (List.suffix_cons slash _).isInfix

theorem staticServe_action {w : Worker} {c : ProxyConn} {k : ClientReadCalls} {fd : Int}
    {root path : Bytes} (h : .staticServe fd root path ∈ (handleClientRead w c k).actions) :
    root = staticRoot w.cfg ∧ ∃ rest, path = slash :: rest := by
  have hclose (w' : Worker) (c' : ProxyConn) :
      .staticServe fd root path ∉ (closeClientConn w' c').actions := by
    unfold closeClientConn
    dsimp only
    split <;> split <;> simp
  obtain ⟨c', _, _, he⟩ | ⟨bytes, hfits, _, hend⟩ := handleClientRead_ends w c k
  · rw [he] at h
    exact absurd h (hclose w c')
  generalize handleClientRead w c k = handled at h hend
  cases hend with
  | blocked hlisted => simp [Handled.after, hclose] at h
  | limited hactive hunlisted hrefused => simp [Handled.after, hclose] at h
  | dropped hactive hdynamic hstopped hconn hbefore =>
    obtain rfl | ⟨_, host, port, rfl⟩ := hbefore
    · simp [Handled.after, hclose] at h
    · simp [Handled.after, hclose] at h
  | forwarded hactive hforwarded hconn => simp at h
  | static hactive hunlisted hadmitted hstatic =>
    simp only [Handled.after, List.cons_append, List.nil_append, List.mem_cons, hclose, or_false,
      Action.staticServe.injEq, reduceCtorEq] at h
    obtain ⟨_, rfl, rfl⟩ := h
    refine ⟨rfl, ?_⟩
    obtain ⟨rest, hrest⟩ := List.isPrefixOf_iff_prefix.mp hstatic
    rw [cstr_of_nulFree (feed httpReqInit bytes).1.path.nulFree] at hrest
    exact ⟨rest, by rw [← hrest]; rfl⟩

/-- **Static files lie at or below their root.** For every configuration file, every worker
    that runs with it, every connection and every request: whatever name is opened for
    a file under a root that is not empty, its lexical normal form is that of the root or
    lies below it, also when the name is cut to its buffer. -/
theorem static_below_root {file : Bytes} {w : Worker} {c : ProxyConn} {k : ClientReadCalls} {fd : Int}
    {root path : Bytes} (hcfg : w.cfg = configLoad file) (hroot : root ≠ [])
    (hserve : .staticServe fd root path ∈ (handleClientRead w c k).actions) {calls : StaticCalls}
    {name : CharArray 1024} (hopen : (staticServe root path calls).opened = some name) :
    (fileNormalForm name.text).Below (fileNormalForm root) := by
  obtain ⟨hconfigured, rest, rfl⟩ := staticServe_action hserve
  have hvalue : root.length ≤ 1022 ∧ NulFree root := by
    rw [hconfigured, staticRoot, hcfg]
    cases hget : configGet (configLoad file) (ascii "upstream.static") (ascii "root") with
    | none => decide
    | some value => exact configGet_value hget
  have hcstr : cstr root = root := cstr_of_nulFree hvalue.2
  have hbelow := opened_below (by rwa [hcstr]) (by rw [hcstr]; exact hvalue.1) hopen
  rwa [hcstr] at hbelow

/-- A relative root with dots of its own. -/
def staticFile : Bytes := ascii "[upstream.static]\nroot = ../www/./static/\n"

def staticRead : ClientReadCalls :=
  sampleRead (ascii "GET /static/./a//b.txt HTTP/1.1\r\n\r\n") (by decide +kernel)

/-- A worker with that configuration. -/
def staticWorker : Worker := { sampleWorker with cfg := configLoad staticFile }

theorem staticWorker_cfg : staticWorker.cfg = configLoad staticFile := rfl

theorem static_served : .staticServe 7 (ascii "../www/./static/") (ascii "/./a//b.txt") ∈
    (handleClientRead staticWorker sampleConn staticRead).actions := by
  decide +kernel

theorem static_opened :
    (staticServe (ascii "../www/./static/") (ascii "/./a//b.txt") ⟨none, []⟩).opened =
      some (.snprintf size1024_pos (ascii "../www/./static//./a//b.txt")) := by
  decide +kernel

theorem static_below_root_sample :
    ∃ name, (staticServe (ascii "../www/./static/") (ascii "/./a//b.txt") ⟨none, []⟩).opened =
        some name ∧
      (fileNormalForm name.text).Below (fileNormalForm (ascii "../www/./static/")) :=
  ⟨_, static_opened, static_below_root staticWorker_cfg (by decide) static_served static_opened⟩

end NexusGateway
