import NexusGateway.WorkerStart
import NexusGateway.ConfigLines

/- The copies into fixed arrays (`nexus_worker_run`, `nexus_config_load`, the parser, the
   rewriter and `handle_client_read`).

   Every copy is listed as the code makes it, guards included: which array, at what offset
   and how many bytes, whatever the array then holds. All copies of a request and of the
   loading lie inside their arrays (`clientReadCopies_inside`, `loadCopies_inside`); of those
   of a start-up one does not look how long its text is, that of the upstream's host, and
   it is inside exactly when the host fits (`copies_inside_iff`). -/
namespace NexusGateway
open CString Lines Incremental

/-- The arrays: those of `nexus_worker_run`, of the parser, of `nexus_config_load`, of the
    rewriter and of the connection. A cell is that of a name or of a value, by its row. -/
inductive FixedArray where
  | ip
  | host
  | lineBuf
  | method
  | path
  | version
  | configCell (row : Nat) (value : Bool)
  | via
  | reqId
  | rewriteCell (row : Nat) (value : Bool)
  | reqBuf
  deriving DecidableEq, Repr

/-- Its `sizeof`; there is no cell in a row past the table. -/
def FixedArray.size : FixedArray → Nat
  | .ip => 64
  | .host => 64
  | .lineBuf => lineBufSize
  | .method => 16
  | .path => 1024
  | .version => 16
  | .configCell row _ => if row < maxCustomHeaders then 128 else 0
  | .via => 64
  | .reqId => 16
  | .rewriteCell row _ => if row < maxCustomHeaders then 128 else 0
  | .reqBuf => 4096

/-- A write of bytes into an array. -/
structure Copy where
  array : FixedArray
  offset : Nat
  length : Nat
  deriving DecidableEq, Repr

/-- It stays within the array. -/
def Copy.Inside (c : Copy) : Prop := c.offset + c.length ≤ c.array.size

instance (c : Copy) : Decidable c.Inside := inferInstanceAs (Decidable (_ ≤ _))

def AllInside (copies : List Copy) : Prop := ∀ c ∈ copies, c.Inside

/-- A `memcpy` to the start, and the NUL behind it. -/
def terminatedCopy (a : FixedArray) (n : Nat) : List Copy := [⟨a, 0, n⟩, ⟨a, n, 1⟩]

/-- `snprintf` with this size: what of the text it has room for, and the NUL. -/
def printedCopy (a : FixedArray) (size : Nat) (text : Bytes) : Copy :=
  ⟨a, 0, min (cstr text).length (size - 1) + 1⟩

/-- `strncpy` of 127 bytes, which pads what is shorter, and the NUL behind them: of a name
    and of a value. -/
def cellCopies (cell : Nat → Bool → FixedArray) (row : Nat) : List Copy :=
  terminatedCopy (cell row false) 127 ++ terminatedCopy (cell row true) 127

/-! ## The copies -/

/-- `nexus_worker_run`, up to its loop. -/
def startCopies (cfg : Config) : List Copy :=
  match configGet cfg (ascii "server") (ascii "listen") with
  | none => []
  | some listen =>
    match strrchr listen colon with
    | none => []
    | some iplen =>
      printedCopy .ip 64 (listen.take iplen) ::
        match configGet cfg (ascii "upstream.api") (ascii "server") with
        | none => []
        | some srv =>
          match strrchr srv colon with
          | none => []
          | some hl => terminatedCopy .host hl

/-- The loop of `nexus_config_load` over the pieces of `add_header`. -/
def tokenCopies : Nat → List Bytes → List Copy
  | _, [] => []
  | count, token :: rest =>
    if count < maxCustomHeaders then
      match strchr token colon with
      | none => tokenCopies count rest
      | some _ => cellCopies .configCell count ++ tokenCopies (count + 1) rest
    else []

/-- `nexus_config_load`, behind its loop over the lines. -/
def loadCopies (cfg : Config) : List Copy :=
  match configGet cfg (ascii "http_rewrite") (ascii "add_header") with
  | none => []
  | some value => tokenCopies 0 (splitComma value)

/-- `parse_request_line`. -/
def requestLineCopies (line : Bytes) : List Copy :=
  match strchr line sp with
  | none => []
  | some sp1 =>
    if sp1 < 16 then
      let p := line.drop (sp1 + 1)
      terminatedCopy .method sp1 ++
        match strchr p sp with
        | none => []
        | some sp2 =>
          if sp2 < 1024 then
            let v := p.drop (sp2 + 1)
            terminatedCopy .path sp2 ++
              if startsWith v (ascii "HTTP/") ∧ strlen v < 16 ∧
                (strEq v (ascii "HTTP/1.0") ∨ strEq v (ascii "HTTP/1.1"))
              then [⟨.version, 0, strlen v + 1⟩]
              else []
          else []
    else []

/-- One pass of the loop of `nexus_http_req_feed`. -/
def passCopies (r : HttpReq) (rest : Bytes) : List Copy :=
  if r.state.inHead then
    match findEol cr lf rest with
    | none => []
    | some eol =>
      terminatedCopy .lineBuf (lineLen eol) ++
        if r.state = .reqLine then requestLineCopies (rest.take (lineLen eol)) else []
  else []

/-- `nexus_http_req_feed`: all its passes. -/
def feedCopies (r : HttpReq) (data : Bytes) : List Copy :=
  match feedReader.walk (feedReader.rank r data) r data with
  | none => []
  | some w => w.visits.flatMap fun v => passCopies v.1 v.2

/-- The loop of `generate_req_id`, with the pointer at the last of `places` bytes. -/
def reqIdLoopCopies : (places : Nat) → UInt64 → List Copy
  | 0, _ => [] -- never so: the loop is left before the pointer is in front of the buffer
  | p + 1, id => ⟨.reqId, p, 1⟩ :: if id / 36 > 0 ∧ p > 0 then reqIdLoopCopies p (id / 36) else []

/-- `generate_req_id` into `req_id`. -/
def reqIdCopies (draw : IdDraw) : List Copy := ⟨.reqId, 15, 1⟩ :: reqIdLoopCopies 15 draw.id

/-- `nexus_http_rewrite_request`, with `nexus_config_get_custom_headers`. -/
def rewriteCopies (cfg : Config) (gatewayVersion : Bytes) (draw : IdDraw) : List Copy :=
  printedCopy .via 64 (ascii "1.1 nexus-gateway/" ++ gatewayVersion) :: reqIdCopies draw ++
    (List.range (min cfg.customHeaders.length maxCustomHeaders)).flatMap (cellCopies .rewriteCell)

/-- The forwarding: the rewriting, and what was serialised copied back. -/
def forwardCopies (w : Worker) (c : ProxyConn) (req : HttpReq) (k : ClientReadCalls) : List Copy :=
  rewriteCopies w.cfg (ascii "1.0.0") k.draw ++
    match serialized (workerRewrite w c req k.draw) k.serializedReq.bytes with
    | none => []
    | some text => [⟨.reqBuf, 0, text.length⟩]

/-- The routing, up to the forwarding. -/
def routeCopies (w : Worker) (c : ProxyConn) (req : HttpReq) (k : ClientReadCalls) : List Copy :=
  let c := c.saveRequest req
  if blCheck w.bl c.clientIp.text then []
  else
    let admitted := rlCheck w.rl c.clientIp.text k.rlCreatedMs k.rlCheckMs
    let w := { w with rl := admitted.1 }
    if !admitted.2 then []
    else if startsWith req.path.text (ascii "/static/") then []
    else
      let picked := upstreamPick w.upstream
      let w := { w with upstream := picked.1 }
      match picked.2 with
      | none => []
      | some _ => forwardCopies w c req k

/-- `handle_client_read`, behind its read. -/
def clientReadCopies (w : Worker) (c : ProxyConn) (k : ClientReadCalls) : List Copy :=
  match k.read with
  | .eof => []
  | .failed _ => []
  | .data bytes _ hfits =>
    let c := c.receive bytes hfits k.startMs
    let data := c.reqBuf.bytes.take c.reqLen
    let req := (feed httpReqInit data).1
    feedCopies httpReqInit data ++ if req.state ≠ .done then [] else routeCopies w c req k

/-! ## Inside -/

@[simp] theorem allInside_nil : AllInside [] := by simp [AllInside]

@[simp] theorem allInside_cons (c : Copy) (copies : List Copy) :
    AllInside (c :: copies) ↔ c.Inside ∧ AllInside copies := by simp [AllInside]

@[simp] theorem allInside_append (copies more : List Copy) :
    AllInside (copies ++ more) ↔ AllInside copies ∧ AllInside more := by
  simp [AllInside, or_imp, forall_and]

theorem allInside_flatMap {α : Type} {l : List α} {f : α → List Copy} :
    AllInside (l.flatMap f) ↔ ∀ a ∈ l, AllInside (f a) := by
  simp only [AllInside, List.mem_flatMap, forall_exists_index, and_imp]
  exact ⟨fun h a ha c => h c a ha, fun h c a ha => h a ha c⟩

@[simp] theorem allInside_terminatedCopy (a : FixedArray) (n : Nat) :
    AllInside (terminatedCopy a n) ↔ n < a.size := by
  simp only [terminatedCopy, allInside_cons, allInside_nil, and_true, Copy.Inside]
  omega

theorem printedCopy_inside (a : FixedArray) (text : Bytes) (h : 0 < a.size) :
    (printedCopy a a.size text).Inside := by
  simp only [printedCopy, Copy.Inside]
  omega

theorem cellCopies_inside {cell : Nat → Bool → FixedArray} {row : Nat}
    (h : ∀ value, (cell row value).size = 128) : AllInside (cellCopies cell row) := by
  simp [cellCopies, h]

theorem configCell_size {row : Nat} (h : row < maxCustomHeaders) (value : Bool) :
    (FixedArray.configCell row value).size = 128 := if_pos h

theorem rewriteCell_size {row : Nat} (h : row < maxCustomHeaders) (value : Bool) :
    (FixedArray.rewriteCell row value).size = 128 := if_pos h

theorem tokenCopies_inside (tokens : List Bytes) : ∀ count, AllInside (tokenCopies count tokens) := by
  induction tokens with
  | nil => exact fun _ => allInside_nil
  | cons token rest ih =>
    intro count
    rw [tokenCopies]
    split
    · rename_i hroom
      cases strchr token colon with
      | none => exact ih count
      | some i =>
        exact (allInside_append _ _).mpr ⟨cellCopies_inside (configCell_size hroom), ih (count + 1)⟩
    · exact allInside_nil

/-- **The loading** stays inside the cells. -/
theorem loadCopies_inside (cfg : Config) : AllInside (loadCopies cfg) := by
  unfold loadCopies
  split
  · exact allInside_nil
  · exact tokenCopies_inside _ 0

theorem requestLineCopies_inside (line : Bytes) : AllInside (requestLineCopies line) := by
  unfold requestLineCopies
  split
  · exact allInside_nil
  split
  · rename_i hmethod
    refine (allInside_append _ _).mpr ⟨(allInside_terminatedCopy ..).mpr hmethod, ?_⟩
    split
    · exact allInside_nil
    split
    · rename_i hpath
      refine (allInside_append _ _).mpr ⟨(allInside_terminatedCopy ..).mpr hpath, ?_⟩
      split
      · rename_i hversion
        have hlen := hversion.2.1
        simp only [allInside_cons, allInside_nil, and_true, Copy.Inside, FixedArray.size]
        omega
      · exact allInside_nil
    · exact allInside_nil
  · exact allInside_nil

theorem lineLen_lt (eol : Nat) : lineLen eol < lineBufSize := by
  unfold lineLen lineBufSize
  split <;> omega

theorem passCopies_inside (r : HttpReq) (rest : Bytes) : AllInside (passCopies r rest) := by
  unfold passCopies
  split
  · split
    · exact allInside_nil
    · rename_i eol _
      refine (allInside_append _ _).mpr ⟨(allInside_terminatedCopy ..).mpr (lineLen_lt eol), ?_⟩
      split
      · exact requestLineCopies_inside _
      · exact allInside_nil
  · exact allInside_nil

theorem feedCopies_eq (r : HttpReq) (data : Bytes) :
    ∃ w : Reader.Walk HttpReq UInt8,
      feedCopies r data = w.visits.flatMap (fun v => passCopies v.1 v.2) ∧
      (w.final, w.taken) = feed r data := by
  obtain ⟨w, hw, hrun, _⟩ := Reader.walk_enough _ (Nat.le_refl (feedReader.rank r data))
  refine ⟨w, ?_, hrun⟩
  rw [feedCopies, hw]

/-- The parser stays inside its arrays, in every pass. -/
theorem feedCopies_inside (r : HttpReq) (data : Bytes) : AllInside (feedCopies r data) := by
  obtain ⟨w, hcopies, _⟩ := feedCopies_eq r data
  rw [hcopies]
  exact allInside_flatMap.mpr fun v _ => passCopies_inside v.1 v.2

theorem reqIdLoopCopies_inside (places : Nat) : ∀ id, places ≤ 15 →
    AllInside (reqIdLoopCopies places id) := by
  induction places with
  | zero => exact fun _ _ => allInside_nil
  | succ p ih =>
    intro id hp
    rw [reqIdLoopCopies, allInside_cons]
    refine ⟨by simp only [Copy.Inside, FixedArray.size]; omega, ?_⟩
    split
    · exact ih _ (by omega)
    · exact allInside_nil

/-- The rewriting stays inside its arrays. -/
theorem rewriteCopies_inside (cfg : Config) (gatewayVersion : Bytes) (draw : IdDraw) :
    AllInside (rewriteCopies cfg gatewayVersion draw) := by
  have hvia : (printedCopy .via 64 (ascii "1.1 nexus-gateway/" ++ gatewayVersion)).Inside :=
    printedCopy_inside .via _ (by decide)
  have hid : AllInside (reqIdCopies draw) :=
    (allInside_cons _ _).mpr ⟨by decide, reqIdLoopCopies_inside 15 draw.id (Nat.le_refl _)⟩
  refine (allInside_append _ _).mpr ⟨(allInside_cons _ _).mpr ⟨hvia, hid⟩, ?_⟩
  refine allInside_flatMap.mpr fun row hrow => cellCopies_inside (rewriteCell_size ?_)
  have hlt := List.mem_range.mp hrow
  omega

theorem forwardCopies_inside (w : Worker) (c : ProxyConn) (req : HttpReq) (k : ClientReadCalls) :
    AllInside (forwardCopies w c req k) := by
  refine (allInside_append _ _).mpr ⟨rewriteCopies_inside _ _ _, ?_⟩
  split
  · exact allInside_nil
  · rename_i text htext
    have hfits := serialized_fits htext
    simp only [allInside_cons, allInside_nil, and_true, Copy.Inside, FixedArray.size]
    omega

theorem routeCopies_inside (w : Worker) (c : ProxyConn) (req : HttpReq) (k : ClientReadCalls) :
    AllInside (routeCopies w c req k) := by
  unfold routeCopies
  dsimp only
  split
  · exact allInside_nil
  split
  · exact allInside_nil
  split
  · exact allInside_nil
  split
  · exact allInside_nil
  · exact forwardCopies_inside _ _ _ _

/-- **A request's copies** are all inside, for every worker, every connection and whatever is
    read. -/
theorem clientReadCopies_inside (w : Worker) (c : ProxyConn) (k : ClientReadCalls) :
    AllInside (clientReadCopies w c k) := by
  unfold clientReadCopies
  split
  · exact allInside_nil
  · exact allInside_nil
  · refine (allInside_append _ _).mpr ⟨feedCopies_inside _ _, ?_⟩
    split
    · exact allInside_nil
    · exact routeCopies_inside _ _ _ _

/-! ## The host -/

/-- The host of the upstream's address fits its array, if the start-up gets to it: there is an
    address to listen on, with a colon, and in front of the last colon of the upstream's
    there are at most 63 bytes. -/
def HostFits (cfg : Config) : Prop :=
  ∀ listen, configGet cfg (ascii "server") (ascii "listen") = some listen → colon ∈ listen →
    ∀ host port, configGet cfg (ascii "upstream.api") (ascii "server") = some (host ++ colon :: port) →
      colon ∉ port → host.length ≤ 63

/-- What stands in front of the last `c` and behind it. -/
theorem exists_last {s : Bytes} {c : UInt8} (h : c ∈ s) : ∃ a b, s = a ++ c :: b ∧ c ∉ b := by
  obtain ⟨b, a, hs, hb⟩ := List.eq_append_cons_of_mem (List.mem_reverse.mpr h)
  refine ⟨a.reverse, b.reverse, ?_, by simpa using hb⟩
  rw [← List.reverse_reverse s, hs]
  simp

theorem strrchr_eq_none {s : Bytes} {c : UInt8} (hn : NulFree s) : strrchr s c = none ↔ c ∉ s := by
  simp [strrchr, cstr_of_nulFree hn]

theorem hostCopies_inside_iff {srv : Bytes} (hn : NulFree srv) :
    AllInside (match strrchr srv colon with
      | none => []
      | some hl => terminatedCopy .host hl) ↔
    ∀ host port, srv = host ++ colon :: port → colon ∉ port → host.length ≤ 63 := by
  by_cases hcolon : colon ∈ srv
  · obtain ⟨host, port, rfl, hport⟩ := exists_last hcolon
    rw [strrchr_append hn hport]
    simp only [allInside_terminatedCopy, FixedArray.size]
    constructor
    · intro hfits host' port' hsame hport'
      -- the last colon is where it is found
      have hfound := strrchr_append (hsame ▸ hn) hport'
      rw [← hsame, strrchr_append hn hport] at hfound
      have hlen := Option.some.inj hfound
      omega
    · intro hfits
      have hlen := hfits host port rfl hport
      omega
  · rw [(strrchr_eq_none hn).mpr hcolon]
    refine iff_of_true allInside_nil fun host port hsrv _ => absurd ?_ hcolon
    simp [hsrv]

/-- The start-up stays inside exactly when the host fits. -/
theorem startCopies_inside_iff (file : Bytes) :
    AllInside (startCopies (configLoad file)) ↔ HostFits (configLoad file) := by
  unfold startCopies HostFits
  cases hlisten : configGet (configLoad file) (ascii "server") (ascii "listen") with
  | none => simp
  | some listen =>
    have hlistenNul := (configGet_value hlisten).2
    simp only [Option.some.injEq, forall_eq']
    by_cases hcolon : colon ∈ listen
    · obtain ⟨host, port, rfl, hport⟩ := exists_last hcolon
      rw [strrchr_append hlistenNul hport]
      simp only [hcolon, forall_const]
      rw [allInside_cons]
      have hip (text : Bytes) : (printedCopy .ip 64 text).Inside :=
        printedCopy_inside .ip text (by decide)
      rw [and_iff_right (hip _)]
      cases hsrv : configGet (configLoad file) (ascii "upstream.api") (ascii "server") with
      | none => simp
      | some srv =>
        simp only [Option.some.injEq]
        exact hostCopies_inside_iff (configGet_value hsrv).2
    · rw [(strrchr_eq_none hlistenNul).mpr hcolon]
      simp [hcolon]

/-- Every copy that the code makes for this configuration file is inside its array: when the
    file is loaded, when a worker starts with it, and in every request that a worker with it
    handles. -/
def CopiesInside (file : Bytes) : Prop :=
  AllInside (loadCopies (configLoad file)) ∧ AllInside (startCopies (configLoad file)) ∧
  ∀ w c k, w.cfg = configLoad file → AllInside (clientReadCopies w c k)

/-- **When every copy stays within its array.** For every configuration file: the copies into
    fixed arrays, when it is loaded, when a worker starts with it and in every request, are
    all inside if and only if the upstream's host has at most 63 bytes, where the start-up
    gets to it. -/
theorem copies_inside_iff (file : Bytes) : CopiesInside file ↔ HostFits (configLoad file) := by
  rw [← startCopies_inside_iff]
  constructor
  · exact fun h => h.2.1
  · intro h
    exact ⟨loadCopies_inside _, h, fun w c k _ => clientReadCopies_inside w c k⟩

/-- An upstream with a name of 64 letters. -/
def longHostFile : Bytes :=
  ascii "[server]\nlisten = 0.0.0.0:80\n[upstream.api]\nserver = " ++
    (List.replicate 64 97 ++ ascii ":80\n")

/-- The start-up writes the NUL behind the end of `host`. -/
theorem long_host_outside :
    ⟨.host, 64, 1⟩ ∈ startCopies (configLoad longHostFile) ∧ ¬ CopiesInside longHostFile := by
  have hcopy : ⟨.host, 64, 1⟩ ∈ startCopies (configLoad longHostFile) := by decide +kernel
  exact ⟨hcopy, fun h => absurd (h.2.1 _ hcopy) (by decide)⟩

end NexusGateway
