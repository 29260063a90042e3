import NexusGateway.Lib.CString
import NexusGateway.Lib.Pieces
import Mathlib.Data.List.Enum

/- Static files (`static_file.c`, `zerocopy.c`).

   `nexus_static_serve` writes the head and then has the file moved to the socket by
   `nexus_zc_sendfile`, again and again until all is sent or nothing was moved. One such
   call opens a pipe and moves bytes from the file into it and from it into the socket;
   what is still in the pipe when one of the two moves fails is closed with it, although
   the file has been read that far.

   So what reaches the client is a prefix of the file exactly when no call that left
   bytes in its pipe is followed by one that delivers (`static_body_iff`). Each call
   returns what it has delivered in any case. The bytes carry their offsets, so that a
   byte in the place of an equal one counts as a gap. -/
namespace NexusGateway
open CString

/-! ## Moving bytes -/

/-- `splice`: what it returns for `len` bytes where `avail` are there, `r` being what it
    would return were there no such bounds. -/
def splice (r : Int) (len avail : Nat) : Int := min r (min len avail)

/-- What a call of `nexus_zc_splice` does: the bytes delivered, those left in the pipe, what
    is left to read of the file, and what it returns. -/
structure Transfer (α : Type) where
  sent : List α
  lost : List α
  file : List α
  total : Int
  deriving DecidableEq, Repr

variable {α : Type}

/-- The loop of `nexus_zc_splice`. Each pair is the results of its two calls of `splice`;
    after the last pair there is no more to read. -/
def zcLoop : List (Int × Int) → Nat → List α → List α → Transfer α
  | [], _, pipe, file => ⟨[], pipe, file, 0⟩
  | (r, w) :: results, len, pipe, file =>
    if len > 0 then
      let n := splice r len file.length
      if n ≤ 0 then ⟨[], pipe, file, 0⟩
      else
        let pipe := pipe ++ file.take n.toNat
        let file := file.drop n.toNat
        let m := splice w n.toNat pipe.length
        if m ≤ 0 then ⟨[], pipe, file, 0⟩
        else
          let t := zcLoop results (len - m.toNat) (pipe.drop m.toNat) file
          { t with sent := pipe.take m.toNat ++ t.sent, total := m + t.total }
    else ⟨[], pipe, file, 0⟩

/-- What the calls of `nexus_zc_splice` return: `pipe`, and `splice` for each pass. -/
structure SpliceCalls where
  pipe : Int
  results : List (Int × Int)

/-- `nexus_zc_splice`. -/
def zcSplice (k : SpliceCalls) (file : List α) (len : Nat) : Transfer α :=
  if k.pipe < 0 then ⟨[], [], file, -1⟩ else zcLoop k.results len [] file

/-- `nexus_zc_sendfile`: it does not look at the offset. -/
def zcSendfile (k : SpliceCalls) (file : List α) (count : Nat) : Transfer α := zcSplice k file count

/-! ## Serving a file -/

/-- The loop of `nexus_static_serve`: the calls that it makes. -/
def serveBody : List SpliceCalls → Int → List α → List (Transfer α)
  | [], _, _ => []
  | k :: ks, remaining, file =>
    if remaining > 0 then
      let t := zcSendfile k file remaining.toNat
      if t.total ≤ 0 then [t] else t :: serveBody ks (remaining - t.total) t.file
    else []

/-- `strstr(s, sub) != NULL`. -/
def strstr (s sub : Bytes) : Bool := (cstr s).tails.any (fun t => sub.isPrefixOf t)

/-- `content_type`. -/
def contentType (path : Bytes) : Bytes :=
  match strrchr path 46 with
  | none => ascii "application/octet-stream"
  | some i =>
    let dot := path.drop i
    if strEq dot (ascii ".html") then ascii "text/html"
    else if strEq dot (ascii ".txt") then ascii "text/plain"
    else if strEq dot (ascii ".css") then ascii "text/css"
    else if strEq dot (ascii ".js") then ascii "application/javascript"
    else if strEq dot (ascii ".png") then ascii "image/png"
    else if strEq dot (ascii ".jpg") then ascii "image/jpeg"
    else ascii "application/octet-stream"

/-- The head of the response with a file of this size. -/
def staticHead (path : Bytes) (size : Nat) : Bytes :=
  ascii "HTTP/1.1 200 OK\r\nContent-Type: " ++ contentType path ++
    ascii "\r\nContent-Length: " ++ ascii (toString size) ++ ascii "\r\nConnection: close\r\n\r\n"

def notFoundResponse : Bytes := ascii "HTTP/1.1 404 Not Found\r\nContent-Length: 0\r\n\r\n"

/-- What the calls of `nexus_static_serve` return: the content of the file, if it can be
    opened, and those of each transfer. -/
structure StaticCalls where
  file : Option Bytes
  splices : List SpliceCalls

/-- What `nexus_static_serve` does: the name it opens, the text it writes, the transfers, of
    bytes with their offsets, and what it returns. -/
structure StaticServed where
  opened : Option (CharArray 1024)
  head : Bytes
  transfers : List (Transfer (UInt8 × Nat))
  ret : Int

/-- `nexus_static_serve`. -/
def staticServe (root path : Bytes) (k : StaticCalls) : StaticServed :=
  if strstr path (ascii "..") then ⟨none, [], [], -1⟩
  else
    let full := CharArray.snprintf size1024_pos (cstr root ++ cstr path)
    match k.file with
    | none => ⟨some full, notFoundResponse, [], -1⟩
    | some data =>
      ⟨some full, staticHead path data.length, serveBody k.splices data.length data.zipIdx, 0⟩

/-- The body that the client is sent. -/
def StaticServed.body (s : StaticServed) : List (UInt8 × Nat) := s.transfers.flatMap Transfer.sent

/-- What is sent of each transfer, and what is lost. -/
def StaticServed.pieces (s : StaticServed) : List (List (UInt8 × Nat) × List (UInt8 × Nat)) :=
  s.transfers.map (fun t => (t.sent, t.lost))

/-- A transfer returns the number of bytes that it has delivered, or −1 if it had no pipe. -/
def Transfer.Counted (t : Transfer α) : Prop :=
  t.total = t.sent.length ∨ t.total = -1 ∧ t.sent = []

/-! ## What a transfer does -/

theorem zcLoop_split (results : List (Int × Int)) : ∀ (len : Nat) (pipe file : List α),
    pipe ++ file = (zcLoop results len pipe file).sent ++
      ((zcLoop results len pipe file).lost ++ (zcLoop results len pipe file).file) := by
  induction results with
  | nil => exact fun _ _ _ => rfl
  | cons rw results ih =>
    intro len pipe file
    obtain ⟨r, w⟩ := rw
    rw [zcLoop]
    split
    · dsimp only
      split
      · rfl
      · generalize (splice r len file.length).toNat = n
        have hread : pipe ++ file = (pipe ++ file.take n) ++ file.drop n := by
          rw [List.append_assoc, List.take_append_drop]
        rw [hread]
        generalize pipe ++ file.take n = full
        split
        · rfl
        · generalize (splice w n full.length).toNat = m
          calc full ++ file.drop n
              = full.take m ++ (full.drop m ++ file.drop n) := by
                rw [← List.append_assoc, List.take_append_drop]
            _ = _ := by rw [ih (len - m) (full.drop m) (file.drop n), ← List.append_assoc]
    · rfl

theorem splice_le (r : Int) (len avail : Nat) : splice r len avail ≤ avail := by
  unfold splice
  omega

theorem zcLoop_total (results : List (Int × Int)) : ∀ (len : Nat) (pipe file : List α),
    (zcLoop results len pipe file).total = (zcLoop results len pipe file).sent.length := by
  induction results with
  | nil => exact fun _ _ _ => rfl
  | cons rw results ih =>
    intro len pipe file
    obtain ⟨r, w⟩ := rw
    rw [zcLoop]
    split
    · dsimp only
      split
      · rfl
      · generalize pipe ++ file.take (splice r len file.length).toNat = full
        generalize (splice r len file.length).toNat = n
        have hle := splice_le w n full.length
        split
        · rfl
        · dsimp only
          rw [ih, List.length_append, List.length_take]
          omega
    · rfl

theorem zcSendfile_split (k : SpliceCalls) (file : List α) (count : Nat) :
    file = (zcSendfile k file count).sent ++
      ((zcSendfile k file count).lost ++ (zcSendfile k file count).file) := by
  unfold zcSendfile zcSplice
  split
  · rfl
  · exact zcLoop_split k.results count [] file

/-- A transfer returns what it has delivered. -/
theorem zcSendfile_counted (k : SpliceCalls) (file : List α) (count : Nat) :
    (zcSendfile k file count).Counted := by
  unfold zcSendfile zcSplice
  split
  · exact .inr ⟨rfl, rfl⟩
  · exact .inl (zcLoop_total k.results count [] file)

/-! ## The whole body -/

theorem serveBody_counted (ks : List SpliceCalls) : ∀ (remaining : Int) (file : List α),
    ∀ t ∈ serveBody ks remaining file, t.Counted := by
  induction ks with
  | nil => exact fun _ _ _ ht => by cases ht
  | cons k ks ih =>
    intro remaining file t ht
    rw [serveBody] at ht
    split at ht
    · dsimp only at ht
      split at ht
      · rw [List.mem_singleton.mp ht]
        exact zcSendfile_counted k file _
      · obtain rfl | hrest := List.mem_cons.mp ht
        · exact zcSendfile_counted k file _
        · exact ih _ _ t hrest
    · cases ht

theorem serveBody_whole (ks : List SpliceCalls) : ∀ (remaining : Int) (file : List α),
    ∃ rest, file =
      Pieces.whole ((serveBody ks remaining file).map (fun t => (t.sent, t.lost))) ++ rest := by
  induction ks with
  | nil => exact fun _ file => ⟨file, rfl⟩
  | cons k ks ih =>
    intro remaining file
    rw [serveBody]
    split
    · dsimp only
      have hsplit := zcSendfile_split k file remaining.toNat
      split
      · refine ⟨(zcSendfile k file remaining.toNat).file, ?_⟩
        simpa [Pieces.whole] using hsplit
      · obtain ⟨rest, hrest⟩ := ih (remaining - (zcSendfile k file remaining.toNat).total)
          (zcSendfile k file remaining.toNat).file
        refine ⟨rest, ?_⟩
        rw [List.map_cons, Pieces.whole, List.flatMap_cons, ← Pieces.whole, List.append_assoc,
          ← hrest, List.append_assoc]
        exact hsplit
    · exact ⟨file, rfl⟩

theorem StaticServed.body_eq_kept (s : StaticServed) : s.body = Pieces.kept s.pieces := by
  unfold StaticServed.body StaticServed.pieces Pieces.kept
  rw [List.flatMap_map]

theorem zipIdx_nodup (data : Bytes) : data.zipIdx.Nodup := by
  apply List.Nodup.of_map Prod.snd
  rw [List.zipIdx_map_snd]
  exact List.nodup_range'

theorem staticServe_whole (root path : Bytes) (k : StaticCalls) :
    ∃ rest, (k.file.getD []).zipIdx = Pieces.whole (staticServe root path k).pieces ++ rest := by
  unfold staticServe
  split
  · exact ⟨_, rfl⟩
  · dsimp only
    split
    · exact ⟨_, rfl⟩
    · rename_i data hfile
      rw [hfile]
      exact serveBody_whole k.splices data.length data.zipIdx

/-- **What the client is sent of a file.** For every path, every content of the file and
    every sequence of results of the two calls of `splice`: each transfer returns the
    number of bytes that it has delivered, and all of them together have delivered a
    prefix of the file, every byte at its place, exactly when no transfer left bytes in
    its pipe before another delivered some. -/
theorem static_body_iff (root path : Bytes) (k : StaticCalls) :
    ((staticServe root path k).body <+: (k.file.getD []).zipIdx ∧
      ∀ t ∈ (staticServe root path k).transfers, t.Counted) ↔
    Pieces.NoneDropped (staticServe root path k).pieces := by
  have hcounted : ∀ t ∈ (staticServe root path k).transfers, t.Counted := by
    unfold staticServe
    split
    · exact fun _ ht => by cases ht
    · dsimp only
      split
      · exact fun _ ht => by cases ht
      · exact serveBody_counted k.splices _ _
  obtain ⟨rest, hrest⟩ := staticServe_whole root path k
  have hnodup := zipIdx_nodup (k.file.getD [])
  rw [hrest] at hnodup
  rw [StaticServed.body_eq_kept, hrest, Pieces.kept_prefix_iff hnodup]
  exact ⟨fun h => h.1, fun h => ⟨h, hcounted⟩⟩

/-- A file of ten bytes, and a client that takes two of the first four and then, for once,
    none. -/
def slowClient : StaticCalls := ⟨some (ascii "0123456789"), [⟨3, [(4, 2), (4, -1)]⟩, ⟨3, [(2, 2)]⟩]⟩

/-- The last two bytes follow the first two. -/
theorem body_with_gap :
    (staticServe (ascii "./static") (ascii "/a.txt") slowClient).body.map Prod.fst = ascii "0189" ∧
    ¬ (staticServe (ascii "./static") (ascii "/a.txt") slowClient).body <+:
      (slowClient.file.getD []).zipIdx := by
  decide +kernel

end NexusGateway
