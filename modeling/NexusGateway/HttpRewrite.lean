import NexusGateway.Config
import NexusGateway.HttpParser

/- Rewriting the request (`http_rewrite.c`).

   The gateway removes the forged address headers, sets its own, and sets the
   configured ones; no result of `nexus_headers_set` is looked at, so a header that
   finds the table full is left out. What is proved of every rewritten table:

   1. an entry of it is the client's and is matched by no name removed or set, or
      it is one of those set (`mem_setAll`);
   2. the client's entries that no name matches are all kept (`setAll_keeps`);
   3. how many places the table has when each of the gateway's headers is set, from
      the client's table alone (`gateway_room`). -/
namespace NexusGateway
open CString

/-! ## The request id -/

def base36 : Bytes := ascii "0123456789abcdefghijklmnopqrstuvwxyz"

/-- The loop of `generate_req_id`, with `places` bytes left in front of the digits
    written. -/
def reqIdDigits : Nat → UInt64 → Bytes → Bytes
  | 0, _, digits => digits
  | places + 1, id, digits =>
    let digits := base36.getD (id % 36).toNat 0 :: digits
    -- the loop is left when the id is used up, or no place is left in front
    if id / 36 > 0 then reqIdDigits places (id / 36) digits else digits

/-- What `generate_req_id` reads: the clock, and `rand` twice. -/
structure IdDraw where
  timestamp : UInt64
  high : UInt32
  low : UInt32
  deriving DecidableEq, Repr

def IdDraw.id (d : IdDraw) : UInt64 :=
  (d.timestamp <<< 32) ||| ((d.high <<< 16) ||| d.low).toUInt64

/-- `generate_req_id` into a buffer of `len` bytes, the last of which is the NUL. -/
def generateReqId (d : IdDraw) (len : Nat) : Bytes := reqIdDigits (len - 1) d.id []

theorem reqIdDigits_spec (places : Nat) (id : UInt64) {digits : Bytes}
    (h : ∀ c ∈ digits, c ∈ base36) :
    (∀ c ∈ reqIdDigits places id digits, c ∈ base36) ∧
    (reqIdDigits places id digits).length ≤ places + digits.length := by
  induction places generalizing id digits with
  | zero => exact ⟨h, Nat.le_add_left _ _⟩
  | succ places ih =>
    have hd : ∀ c ∈ base36.getD (id % 36).toNat 0 :: digits, c ∈ base36 := by
      intro c hc
      rcases List.mem_cons.mp hc with rfl | hc
      · have hlt : (id % 36).toNat < base36.length := by
          rw [UInt64.toNat_mod]
          exact Nat.mod_lt _ (by decide)
        rw [List.getD_eq_getElem?_getD, List.getElem?_eq_getElem hlt, Option.getD_some]
        exact List.getElem_mem hlt
      · exact h c hc
    rw [reqIdDigits]
    split
    · obtain ⟨h1, h2⟩ := ih (id / 36) hd
      refine ⟨h1, ?_⟩
      simp only [List.length_cons] at h2
      omega
    · refine ⟨hd, ?_⟩
      simp only [List.length_cons]
      omega

theorem generateReqId_spec (d : IdDraw) :
    (∀ c ∈ generateReqId d 16, c ∈ base36) ∧ (generateReqId d 16).length ≤ 15 :=
  reqIdDigits_spec 15 d.id (by simp)

/-- A client address as `inet_ntop` writes an IPv4 one into `client_ip`. -/
structure IpText where
  text : Bytes
  chars : ∀ c ∈ text, isDigit c = true ∨ c = 46
  fits : text.length < 64
  deriving DecidableEq, Repr

def IpText.empty : IpText := ⟨[], by simp, size64_pos⟩

/-! ## The rewriting -/

def xRealIp : Bytes := ascii "X-Real-IP"
def xForwardedFor : Bytes := ascii "X-Forwarded-For"
def xForwardedHost : Bytes := ascii "X-Forwarded-Host"
def xForwardedProto : Bytes := ascii "X-Forwarded-Proto"
def via : Bytes := ascii "Via"
def xGatewayReqId : Bytes := ascii "X-Gateway-Req-Id"
def hostName : Bytes := ascii "Host"

/-- The removal of the forged headers. -/
def cleanHeaders (h : Headers) : Headers :=
  let h := headersRemove h xRealIp
  let h := headersRemove h xForwardedFor
  let h := headersRemove h xForwardedHost
  headersRemove h xForwardedProto

/-- `nexus_headers_set` with its result ignored. -/
def setHeader (h : Headers) (name value : Bytes) : Headers := (headersSet h name value).1

/-- `via`. -/
def viaText (gatewayVersion : Option Bytes) : Bytes :=
  (ascii "1.1 nexus-gateway/" ++ cstr (gatewayVersion.getD (ascii "1.0.0"))).take 63

/-- The forwarded host: the value found, if any, is set as it stands. -/
def setForwardedHost (h : Headers) : Headers :=
  match headersGet h hostName with
  | none => h
  | some host => setHeader h xForwardedHost host

/-- The custom headers, in order. -/
def setCustomHeaders (h : Headers) (custom : List CustomHeader) : Headers :=
  custom.foldl (fun h c => setHeader h c.name.text c.value.text) h

/-- The custom headers `nexus_http_rewrite_request` reads. -/
def customOf (cfg : Option Config) : List CustomHeader :=
  match cfg with
  | none => []
  | some cfg => configGetCustomHeaders cfg maxCustomHeaders

/-- `nexus_http_rewrite_request`. -/
def httpRewriteRequest (req : HttpReq) (clientIp gatewayVersion : Option Bytes)
    (cfg : Option Config) (draw : IdDraw) : HttpReq :=
  let realIp := clientIp.getD (ascii "unknown")
  -- the client's `Via` and `X-Gateway-Req-Id` are not removed here, but replaced below
  let h := cleanHeaders req.headers
  let h := setHeader h xRealIp realIp
  let h := setHeader h xForwardedFor realIp
  -- the host is looked up in the table as it is now, not in the client's
  let h := setForwardedHost h
  let h := setHeader h xForwardedProto (ascii "http")
  let h := setHeader h via (viaText gatewayVersion)
  let h := setHeader h xGatewayReqId (generateReqId draw 16)
  { req with headers := setCustomHeaders h (customOf cfg) }

/-! ## What one step does to the table -/

/-- The entry `nexus_headers_set` appends. -/
def newHeader (name value : Bytes) : Header := Header.mk' (cstr name) (cstr value)

@[simp] theorem newHeader_cname (n v : Bytes) : (newHeader n v).cname = normalizeLowerStrdup n :=
  cstr_normalizeLowerStrdup n

@[simp] theorem newHeader_name (n v : Bytes) : (newHeader n v).name = normalizeLowerStrdup n := rfl
@[simp] theorem newHeader_value (n v : Bytes) : (newHeader n v).value = cstr v := rfl

theorem cname_of_isNamed {e : Header} {n : Bytes} (h : e.isNamed n = true) :
    e.cname = normalizeLowerStrdup n := by
  rw [Header.isNamed, Bool.and_eq_true, strEq] at h
  have h2 := eq_of_beq h.2
  rwa [cstr_normalizeLowerStrdup] at h2

theorem hash_of_isNamed {e : Header} {n : Bytes} (h : e.isNamed n = true) :
    e.hash = hashFnv1a (normalizeLowerStrdup n) := by
  rw [Header.isNamed, Bool.and_eq_true] at h
  exact eq_of_beq h.1

theorem newHeader_isNamed (n v : Bytes) : (newHeader n v).isNamed n = true := by
  rw [Header.isNamed, Bool.and_eq_true, strEq]
  exact ⟨by rw [(newHeader n v).hash_eq]; exact beq_self_eq_true _, beq_self_eq_true _⟩

/-- What a removal leaves. -/
def kept (name : Bytes) (es : List Header) : List Header := es.filter (fun e => !e.isNamed name)

theorem mem_kept {name : Bytes} {es : List Header} {e : Header} :
    e ∈ kept name es ↔ e ∈ es ∧ e.isNamed name = false := by
  simp [kept]

theorem setHeader_entries (h : Headers) (n v : Bytes) :
    (setHeader h n v).entries = kept n h.entries ++
      if (kept n h.entries).length < httpHeaderMax then [newHeader n v] else [] := by
  have hr : (headersRemove h n).entries = kept n h.entries := headersRemove_entries h n
  rw [setHeader, headersSet]
  split
  · rename_i hc
    rw [← hr] at hc ⊢
    exact (headersAdd_room hc (cstr n) (cstr v)).1
  · rename_i hc
    rw [← hr] at hc
    have hfull := Nat.le_antisymm (headersRemove h n).count_le (Nat.le_of_not_lt hc)
    rw [headersAdd_full hfull, List.append_nil, hr]

theorem mem_setHeader {h : Headers} {n v : Bytes} {e : Header} :
    e ∈ (setHeader h n v).entries ↔ e ∈ kept n h.entries ∨
      ((kept n h.entries).length < httpHeaderMax ∧ e = newHeader n v) := by
  rw [setHeader_entries, List.mem_append]
  split <;> simp [*]

/-- The entries an entry of another name is not touched by: a set of `n` neither
    removes nor adds an entry with `p`. -/
theorem countP_setHeader {p : Header → Bool} {h : Headers} {n v : Bytes}
    (hp : ∀ e, p e = true → e.isNamed n = false) :
    (setHeader h n v).entries.countP p = h.entries.countP p := by
  have hnew : p (newHeader n v) = false := by
    cases hn : p (newHeader n v) with
    | false => rfl
    | true => exact absurd (hp _ hn) (by rw [newHeader_isNamed]; decide)
  have hk : (kept n h.entries).countP p = h.entries.countP p := by
    rw [kept, List.countP_filter]
    apply List.countP_congr
    intro e _
    constructor
    · intro he
      exact (Bool.and_eq_true _ _ ▸ he).1
    · intro he
      rw [he, hp e he]
      rfl
  rw [setHeader_entries, List.countP_append, hk]
  split <;> simp [hnew]

theorem kept_length (n : Bytes) (es : List Header) :
    (kept n es).length + es.countP (Header.isNamed n) = es.length := by
  rw [kept, ← List.countP_eq_length_filter, List.length_eq_countP_add_countP (Header.isNamed n),
    Nat.add_comm]
  congr 1
  apply List.countP_congr
  intro e _
  simp

theorem setHeader_length (h : Headers) (n v : Bytes) :
    (setHeader h n v).entries.length =
      min httpHeaderMax (h.entries.length - h.entries.countP (Header.isNamed n) + 1) := by
  have hk := kept_length n h.entries
  have hle := h.count_le
  rw [setHeader_entries, List.length_append]
  split <;> simp only [List.length_singleton, List.length_nil] <;> omega

/-- A set of one name leaves the count of another: what `p` holds of is not matched. -/
theorem not_isNamed {m n : Bytes} {e : Header}
    (hne : normalizeLowerStrdup m ≠ normalizeLowerStrdup n) (h : e.isNamed m = true) :
    e.isNamed n = false := by
  cases hn : e.isNamed n with
  | false => rfl
  | true => exact absurd ((cname_of_isNamed h).symm.trans (cname_of_isNamed hn)) hne

/-! ## The host that is found -/

theorem headersFind_remove {m n : Bytes} (h : Headers)
    (hne : hashFnv1a (normalizeLowerStrdup n) ≠ hashFnv1a (normalizeLowerStrdup m)) :
    headersFind (headersRemove h n) m = headersFind h m := by
  rw [headersFind, headersRemove_entries, List.find?_filter, headersFind]
  congr 1
  funext e
  cases hp : e.hash == hashFnv1a (normalizeLowerStrdup m) with
  | false => simp
  | true =>
    have hn : e.isNamed n = false := by
      cases hn : e.isNamed n with
      | false => rfl
      | true => exact absurd ((hash_of_isNamed hn).symm.trans (eq_of_beq hp)) hne
    simp [hn]

theorem headersFind_setHeader {m n : Bytes} (h : Headers) (v : Bytes)
    (hne : hashFnv1a (normalizeLowerStrdup n) ≠ hashFnv1a (normalizeLowerStrdup m)) :
    headersFind (setHeader h n v) m = headersFind h m := by
  rw [← headersFind_remove h hne, headersFind, setHeader_entries, List.find?_append, headersFind,
    headersRemove_entries]
  have hnew : (if (kept n h.entries).length < httpHeaderMax then [newHeader n v] else []).find?
      (fun e => e.hash == hashFnv1a (normalizeLowerStrdup m)) = none := by
    rw [List.find?_eq_none]
    intro e he
    split at he
    · rw [List.mem_singleton.mp he, (newHeader n v).hash_eq]
      simpa using hne
    · cases he
  rw [hnew, Option.or_none]
  rfl

/-- The names the gateway removes. -/
def removedNames : List Bytes := [xRealIp, xForwardedFor, xForwardedHost, xForwardedProto]

/-- The names the gateway removes or sets. -/
def gatewayNames : List Bytes := removedNames ++ [via, xGatewayReqId]

theorem removed_hash_ne_host : ∀ n ∈ removedNames,
    hashFnv1a (normalizeLowerStrdup n) ≠ hashFnv1a (normalizeLowerStrdup hostName) := by
  decide +kernel

theorem cleanHeaders_find_host (h : Headers) :
    headersFind (cleanHeaders h) hostName = headersFind h hostName := by
  have hne := removed_hash_ne_host
  simp only [removedNames, List.mem_cons, List.not_mem_nil, or_false, forall_eq_or_imp,
    forall_eq] at hne
  obtain ⟨h1, h2, h3, h4⟩ := hne
  rw [cleanHeaders, headersFind_remove _ h4, headersFind_remove _ h3, headersFind_remove _ h2,
    headersFind_remove _ h1]

/-! ## The removal -/

theorem cleanHeaders_entries (h : Headers) :
    (cleanHeaders h).entries =
      h.entries.filter (fun e => removedNames.all (fun n => !e.isNamed n)) := by
  simp only [cleanHeaders, headersRemove_entries, List.filter_filter]
  apply List.filter_congr
  intro e _
  simp only [removedNames, List.all_cons, List.all_nil, Bool.and_true]
  cases e.isNamed xRealIp <;> cases e.isNamed xForwardedFor <;> cases e.isNamed xForwardedHost <;>
    cases e.isNamed xForwardedProto <;> rfl

theorem mem_cleanHeaders {h : Headers} {e : Header} :
    e ∈ (cleanHeaders h).entries ↔ e ∈ h.entries ∧ ∀ n ∈ removedNames, e.isNamed n = false := by
  simp only [cleanHeaders_entries, List.mem_filter, List.all_eq_true, Bool.not_eq_true']

/-! ## The rewriting as one list of sets -/

/-- Sets in order. -/
def setAll (h : Headers) (sets : List (Bytes × Bytes)) : Headers :=
  sets.foldl (fun h s => setHeader h s.1 s.2) h

/-- The sets of the gateway for a request. -/
def gatewaySets (req : HttpReq) (clientIp gatewayVersion : Option Bytes) (draw : IdDraw) :
    List (Bytes × Bytes) :=
  [(xRealIp, clientIp.getD (ascii "unknown")), (xForwardedFor, clientIp.getD (ascii "unknown"))] ++
  ((headersGet req.headers hostName).map (fun host => (xForwardedHost, host))).toList ++
  [(xForwardedProto, ascii "http"), (via, viaText gatewayVersion),
    (xGatewayReqId, generateReqId draw 16)]

theorem mem_gatewaySets {req : HttpReq} {ip version : Option Bytes} {draw : IdDraw}
    {s : Bytes × Bytes} :
    s ∈ gatewaySets req ip version draw ↔
      s = (xRealIp, ip.getD (ascii "unknown")) ∨ s = (xForwardedFor, ip.getD (ascii "unknown")) ∨
      (∃ host, headersGet req.headers hostName = some host ∧ (xForwardedHost, host) = s) ∨
      s = (xForwardedProto, ascii "http") ∨ s = (via, viaText version) ∨
      s = (xGatewayReqId, generateReqId draw 16) := by
  simp only [gatewaySets, List.cons_append, List.nil_append, List.mem_cons, List.mem_append,
    Option.mem_toList, Option.map_eq_some_iff, List.not_mem_nil, or_false]

def customSets (cfg : Option Config) : List (Bytes × Bytes) :=
  (customOf cfg).map (fun c => (c.name.text, c.value.text))

/-- The rewriting is a list of sets on the cleaned table. -/
theorem rewrite_eq (req : HttpReq) (clientIp gatewayVersion : Option Bytes) (cfg : Option Config)
    (draw : IdDraw) :
    httpRewriteRequest req clientIp gatewayVersion cfg draw =
      { req with
        headers := setAll (cleanHeaders req.headers)
          (gatewaySets req clientIp gatewayVersion draw ++ customSets cfg) } := by
  have h1 := removed_hash_ne_host xRealIp (by simp [removedNames])
  have h2 := removed_hash_ne_host xForwardedFor (by simp [removedNames])
  -- no name removed or set in front of the lookup has the hash of `host`
  have hget (ip : Bytes) : headersGet (setHeader (setHeader (cleanHeaders req.headers) xRealIp ip)
      xForwardedFor ip) hostName = headersGet req.headers hostName := by
    rw [headersGet, headersFind_setHeader _ _ h2, headersFind_setHeader _ _ h1,
      cleanHeaders_find_host, headersGet]
  have hcustom (h : Headers) : setCustomHeaders h (customOf cfg) = setAll h (customSets cfg) := by
    rw [setAll, customSets, List.foldl_map, setCustomHeaders]
  simp only [httpRewriteRequest, setForwardedHost, hget, hcustom]
  rw [setAll, setAll, List.foldl_append, gatewaySets]
  cases headersGet req.headers hostName <;> rfl

theorem setAll_nil (h : Headers) : setAll h [] = h := rfl

theorem setAll_cons (h : Headers) (s : Bytes × Bytes) (sets : List (Bytes × Bytes)) :
    setAll h (s :: sets) = setAll (setHeader h s.1 s.2) sets := rfl

theorem setAll_append (h : Headers) (s t : List (Bytes × Bytes)) :
    setAll h (s ++ t) = setAll (setAll h s) t := List.foldl_append

/-- The table after the sets: the entries that no set matches, in their order, and
    behind them entries of the sets. -/
theorem setAll_split (sets : List (Bytes × Bytes)) : ∀ h : Headers, ∃ added : List Header,
    (setAll h sets).entries =
      h.entries.filter (fun e => sets.all (fun s => !e.isNamed s.1)) ++ added ∧
    ∀ e ∈ added, ∃ s ∈ sets, e = newHeader s.1 s.2 := by
  induction sets with
  | nil => exact fun h => ⟨[], by simp [setAll_nil], fun _ he => by cases he⟩
  | cons s sets ih =>
    intro h
    obtain ⟨added, hentries, hadded⟩ := ih (setHeader h s.1 s.2)
    have hkept : (kept s.1 h.entries).filter (fun e => sets.all (fun t => !e.isNamed t.1)) =
        h.entries.filter (fun e => (s :: sets).all (fun t => !e.isNamed t.1)) := by
      rw [kept, List.filter_filter]
      apply List.filter_congr
      intro e _
      rw [List.all_cons, Bool.and_comm]
    rw [setHeader_entries, List.filter_append, hkept, List.append_assoc] at hentries
    refine ⟨_, hentries, fun e he => ?_⟩
    obtain he | he := List.mem_append.mp he
    · have hnew := (List.mem_filter.mp he).1
      split at hnew
      · exact ⟨s, List.mem_cons_self, List.mem_singleton.mp hnew⟩
      · cases hnew
    · obtain ⟨t, ht, hnew⟩ := hadded e he
      exact ⟨t, List.mem_cons_of_mem s ht, hnew⟩

theorem mem_setAll {h : Headers} {sets : List (Bytes × Bytes)} {e : Header}
    (he : e ∈ (setAll h sets).entries) :
    (e ∈ h.entries ∧ ∀ s ∈ sets, e.isNamed s.1 = false) ∨ ∃ s ∈ sets, e = newHeader s.1 s.2 := by
  obtain ⟨added, hentries, hadded⟩ := setAll_split sets h
  rw [hentries, List.mem_append, List.mem_filter, List.all_eq_true] at he
  simp only [Bool.not_eq_true'] at he
  exact he.imp_right (hadded e)

/-- **No set drops an entry it does not match**, whatever the room. -/
theorem setAll_keeps {h : Headers} {sets : List (Bytes × Bytes)} {e : Header} (he : e ∈ h.entries)
    (hs : ∀ s ∈ sets, e.isNamed s.1 = false) : e ∈ (setAll h sets).entries := by
  obtain ⟨added, hentries, _⟩ := setAll_split sets h
  have hnone : sets.all (fun s => !e.isNamed s.1) = true := by
    rw [List.all_eq_true]
    intro s hmem
    rw [hs s hmem]
    rfl
  rw [hentries]
  exact List.mem_append_left _ (List.mem_filter.mpr ⟨he, hnone⟩)

theorem countP_setAll {p : Header → Bool} {h : Headers} {sets : List (Bytes × Bytes)}
    (hp : ∀ s ∈ sets, ∀ e, p e = true → e.isNamed s.1 = false) :
    (setAll h sets).entries.countP p = h.entries.countP p := by
  induction sets generalizing h with
  | nil => rfl
  | cons s sets ih =>
    rw [setAll_cons, ih (fun t ht => hp t (by simp [ht])), countP_setHeader (hp s (by simp))]

/-! ## The room in the table -/

/-- The entries that the removal of the forged headers leaves. -/
def unremoved (h : Headers) : Nat :=
  h.entries.countP (fun e => removedNames.all (fun n => !e.isNamed n))

theorem cleanHeaders_length (h : Headers) : (cleanHeaders h).entries.length = unremoved h := by
  rw [cleanHeaders_entries, unremoved, List.countP_eq_length_filter]

theorem cleanHeaders_none {h : Headers} {n : Bytes} (hn : n ∈ removedNames) :
    (cleanHeaders h).entries.countP (Header.isNamed n) = 0 := by
  rw [List.countP_eq_zero]
  intro e he
  rw [(mem_cleanHeaders.mp he).2 n hn]
  decide

theorem newHeader_isNamed_iff {m n v : Bytes} :
    (newHeader n v).isNamed m = true ↔ normalizeLowerStrdup m = normalizeLowerStrdup n := by
  constructor
  · intro h
    exact (cname_of_isNamed h).symm.trans (newHeader_cname n v)
  · intro h
    have := newHeader_isNamed n v
    rwa [Header.isNamed, ← h, ← Header.isNamed] at this

theorem gatewayNames_inj : ∀ n ∈ gatewayNames, ∀ m ∈ gatewayNames,
    normalizeLowerStrdup n = normalizeLowerStrdup m → n = m := by
  decide +kernel

theorem matched_cleanHeaders {h : Headers} {m : Bytes} (hm : m ∈ gatewayNames)
    (hn : m ∉ removedNames) :
    (cleanHeaders h).entries.countP (Header.isNamed m) = h.entries.countP (Header.isNamed m) := by
  rw [cleanHeaders_entries, List.countP_filter]
  apply List.countP_congr
  intro e _
  have hall (he : e.isNamed m = true) : removedNames.all (fun n => !e.isNamed n) = true := by
    rw [List.all_eq_true]
    intro n hr
    rw [not_isNamed (fun heq => ?_) he]
    · rfl
    · exact hn (gatewayNames_inj m hm n (List.mem_append_left _ hr) heq ▸ hr)
  constructor
  · exact fun h => (Bool.and_eq_true _ _ ▸ h).1
  · exact fun he => by rw [he, hall he]; rfl

/-- A table on the way: how full it is, the names still to be set that match nothing
    in it, and how often the two names set last are matched. -/
structure Stage (t : Headers) (free : List Bytes) (len v q : Nat) : Prop where
  length : t.entries.length = len
  unmatched : ∀ n ∈ free, t.entries.countP (Header.isNamed n) = 0
  vias : t.entries.countP (Header.isNamed via) = v
  reqIds : t.entries.countP (Header.isNamed xGatewayReqId) = q

theorem stage_clean (h : Headers) :
    Stage (cleanHeaders h) removedNames (unremoved h)
      (h.entries.countP (Header.isNamed via)) (h.entries.countP (Header.isNamed xGatewayReqId)) where
  length := cleanHeaders_length h
  unmatched := fun _ => cleanHeaders_none
  vias := matched_cleanHeaders (by simp [gatewayNames]) (by decide +kernel)
  reqIds := matched_cleanHeaders (by simp [gatewayNames]) (by decide +kernel)

/-- A set of a name that matches nothing: all entries stay, and one is appended if
    there is a place. -/
theorem Stage.set {t : Headers} {n : Bytes} {free : List Bytes} {len v q : Nat}
    (h : Stage t (n :: free) len v q) (hn : n ∈ removedNames)
    (hfree : ∀ m ∈ free, m ∈ gatewayNames ∧ m ≠ n) (val : Bytes) :
    (kept n t.entries).length = len ∧
    Stage (setHeader t n val) free (min httpHeaderMax (len + 1)) v q := by
  have h0 := h.unmatched n (by simp)
  have hgate : n ∈ gatewayNames := List.mem_append_left _ hn
  have other (m : Bytes) (hm : m ∈ gatewayNames) (hne : m ≠ n) :
      (setHeader t n val).entries.countP (Header.isNamed m) = t.entries.countP (Header.isNamed m) :=
    countP_setHeader (fun e he => not_isNamed (fun heq => hne (gatewayNames_inj m hm n hgate heq)) he)
  refine ⟨?_, ?_, ?_, ?_, ?_⟩
  · have := kept_length n t.entries
    rw [h0, h.length] at this
    omega
  · rw [setHeader_length, h0, h.length, Nat.sub_zero]
  · intro m hm
    obtain ⟨h1, h2⟩ := hfree m hm
    rw [other m h1 h2]
    exact h.unmatched m (by simp [hm])
  · rw [other via (by simp [gatewayNames]) (fun he => ?_), h.vias]
    subst he
    revert hn
    decide +kernel
  · rw [other xGatewayReqId (by simp [gatewayNames]) (fun he => ?_), h.reqIds]
    subst he
    revert hn
    decide +kernel

theorem fill_fill (n k : Nat) :
    min httpHeaderMax (min httpHeaderMax n + k) = min httpHeaderMax (n + k) := by
  omega

theorem Stage.rest {t : Headers} {n : Bytes} {free : List Bytes} {len v q : Nat}
    (h : Stage t (n :: free) len v q) : Stage t free len v q :=
  ⟨h.length, fun m hm => h.unmatched m (by simp [hm]), h.vias, h.reqIds⟩

theorem Stage.of_eq {t : Headers} {free : List Bytes} {len len' v q : Nat}
    (h : Stage t free len v q) (he : len = len') : Stage t free len' v q := he ▸ h

/-- The set of the host found, if any. -/
def hostSet (req : HttpReq) : List (Bytes × Bytes) :=
  ((headersGet req.headers hostName).map (fun host => (xForwardedHost, host))).toList

section
variable (req : HttpReq) (ip : Bytes) (version : Option Bytes)

/-! The tables in front of each set. -/

def tableRealIp : Headers := setHeader (cleanHeaders req.headers) xRealIp ip
def tableFor : Headers := setHeader (tableRealIp req ip) xForwardedFor ip
def tableHost : Headers := setAll (tableFor req ip) (hostSet req)
def tableProto : Headers := setHeader (tableHost req ip) xForwardedProto (ascii "http")
def tableVia : Headers := setHeader (tableProto req ip) via (viaText version)

/-- **How many entries are kept in front of each set of the gateway**, from the
    client's table: `u` entries that are not removed, `v` that `Via` and `q` that the
    request id replaces, and a place for the host if one is found. -/
theorem gateway_room {u x v q : Nat} (hu : unremoved req.headers = u)
    (hx : (hostSet req).length = x)
    (hv : req.headers.entries.countP (Header.isNamed via) = v)
    (hq : req.headers.entries.countP (Header.isNamed xGatewayReqId) = q) :
    (kept xRealIp (cleanHeaders req.headers).entries).length = u ∧
    (kept xForwardedFor (tableRealIp req ip).entries).length = min httpHeaderMax (u + 1) ∧
    (kept xForwardedHost (tableFor req ip).entries).length = min httpHeaderMax (u + 2) ∧
    (kept xForwardedProto (tableHost req ip).entries).length = min httpHeaderMax (u + 2 + x) ∧
    (kept via (tableProto req ip).entries).length = min httpHeaderMax (u + 3 + x) - v ∧
    (kept xGatewayReqId (tableVia req ip version).entries).length =
      min httpHeaderMax (min httpHeaderMax (u + 3 + x) - v + 1) - q := by
  subst hu hx hv hq
  obtain ⟨k1, s1⟩ := (stage_clean req.headers).set (by simp [removedNames]) (by decide +kernel) ip
  obtain ⟨k2, s2⟩ := s1.set (by simp [removedNames]) (by decide +kernel) ip
  replace s2 := s2.of_eq (fill_fill _ 1)
  have s3 : Stage (tableHost req ip) [xForwardedProto]
      (min httpHeaderMax (unremoved req.headers + 2 + (hostSet req).length))
      (req.headers.entries.countP (Header.isNamed via))
      (req.headers.entries.countP (Header.isNamed xGatewayReqId)) := by
    rw [tableHost, hostSet]
    cases headersGet req.headers hostName with
    | none => exact s2.rest
    | some host =>
      obtain ⟨_, s⟩ := s2.set (by simp [removedNames]) (by decide +kernel) host
      exact s.of_eq (fill_fill _ 1)
  -- the places in front of the host's set are the same when no host is found
  obtain ⟨k3, _⟩ := s2.set (by simp [removedNames]) (by decide +kernel) []
  obtain ⟨k4, s4⟩ := s3.set (by simp [removedNames]) (by simp) (ascii "http")
  -- the last two names may be matched, so what they replace is counted off
  have k5 := kept_length via (tableProto req ip).entries
  have l5 := setHeader_length (tableProto req ip) via (viaText version)
  have k6 := kept_length xGatewayReqId (tableVia req ip version).entries
  have q5 : (tableVia req ip version).entries.countP (Header.isNamed xGatewayReqId) =
      req.headers.entries.countP (Header.isNamed xGatewayReqId) := by
    rw [tableVia, countP_setHeader (fun e he => not_isNamed (by decide +kernel) he)]
    exact s4.reqIds
  have h5 : (tableProto req ip).entries.length = _ := s4.length
  have v5 : (tableProto req ip).entries.countP (Header.isNamed via) = _ := s4.vias
  have h6 : (tableVia req ip version).entries.length = _ := l5
  rw [h5, v5, fill_fill, Nat.add_right_comm _ _ 1] at k5
  rw [h5, v5, fill_fill, Nat.add_right_comm _ _ 1] at h6
  rw [h6, q5] at k6
  refine ⟨k1, k2, ?_, k4, Nat.eq_sub_of_add_eq k5, Nat.eq_sub_of_add_eq k6⟩
  exact k3

end

end NexusGateway
