import NexusGateway.StaticFile
import NexusGateway.ContentLength
import NexusGateway.AccessLog

/- What a client reads of a response with a static file (`nexus_static_serve` of
   `static_file.c`).

   `readMessage` is the client's side: the lines up to the empty one, the first of them the
   status, the others cut at their colons, and the bytes behind. Whatever the name of the file
   and however its transfer goes, the head is read as it was meant, its Content-Length is the
   size of the file, and no more bytes follow than that; and as many follow exactly when they
   are the whole file in order (`static_response_framed`). So a client that counts can tell. -/
namespace NexusGateway
open CString Lines

/-! ## The client's side -/

/-- The head of a message, and the bytes behind it. -/
structure Message where
  status : Bytes
  fields : List (Bytes × Bytes)
  rest : Bytes
  deriving DecidableEq, Repr

/-- A message as a client reads it, if its head is complete. -/
def readMessage (wire : Bytes) : Option Message :=
  let head := (lines cr lf wire).takeWhile (· ≠ [])
  if head.length < (lines cr lf wire).length then
    match head with
    | [] => none
    | status :: fields =>
      some ⟨status, fields.filterMap splitHeader, wire.drop ((unlines cr lf head).length + 2)⟩
  else none

/-- The number of bytes that a message announces. -/
def Message.announced (m : Message) : Option Nat :=
  (m.fields.find? (fun field => field.1.map toLower == contentLength)).bind
    (fun field => if IsNumeral field.2 then some (digitsValue field.2) else none)

/-! ## Heads -/

/-- A line of a head. -/
structure HeadLine (line : Bytes) : Prop where
  nonempty : line ≠ []
  unbroken : lf ∉ line

theorem lines_unlines_append {ls : List Bytes} (h : ∀ l ∈ ls, HeadLine l) (rest : Bytes) :
    lines cr lf (unlines cr lf ls ++ rest) = ls ++ lines cr lf rest := by
  induction ls with
  | nil => rfl
  | cons l ls ih =>
    rw [unlines_cons, List.append_assoc, List.cons_append, List.cons_append,
      lines_line cr_ne_lf (.of_not_mem (h l List.mem_cons_self).unbroken),
      ih fun l' hl' => h l' (List.mem_cons_of_mem _ hl')]
    rfl

/-- A head is read as it was written, and what stands behind it is left. -/
theorem readMessage_head {status : Bytes} {fields : List Bytes} (h : ∀ l ∈ status :: fields, HeadLine l)
    (rest : Bytes) :
    readMessage (unlines cr lf (status :: fields) ++ cr :: lf :: rest) =
      some ⟨status, fields.filterMap splitHeader, rest⟩ := by
  have hlines : lines cr lf (unlines cr lf (status :: fields) ++ cr :: lf :: rest) =
      status :: fields ++ [] :: lines cr lf rest := by
    have hempty : lines cr lf ([] ++ cr :: lf :: rest) = [] :: lines cr lf rest :=
      lines_line cr_ne_lf (.of_not_mem List.not_mem_nil) rest
    rw [lines_unlines_append h, ← hempty]
    rfl
  have hhead : (status :: fields ++ [] :: lines cr lf rest).takeWhile (· ≠ []) = status :: fields := by
    rw [List.takeWhile_append_of_pos fun l hl => decide_eq_true (h l hl).nonempty,
      List.takeWhile_cons_of_neg (by simp), List.append_nil]
  have hmore : (status :: fields).length < (status :: fields ++ [] :: lines cr lf rest).length := by
    simp only [List.length_append, List.length_cons]
    omega
  unfold readMessage
  rw [hlines, hhead, if_pos hmore]
  have hrest : (unlines cr lf (status :: fields) ++ cr :: lf :: rest).drop
      ((unlines cr lf (status :: fields)).length + 2) = rest := by
    rw [← List.drop_drop, List.drop_left]
    rfl
  rw [hrest]

/-! ## Numbers -/

/-- `%ld` writes a numeral. -/
theorem repr_numeral (n : Nat) : IsNumeral (ascii n.repr) ∧ digitsValue (ascii n.repr) = n := by
  rw [ascii, Nat.toList_repr]
  induction n using Nat.strong_induction_on with
  | _ n ih =>
    have hdigit : ∀ d < 10, isDigit (Nat.digitChar d).toNat.toUInt8 = true ∧
        (Nat.digitChar d).toNat.toUInt8.toNat - 48 = d := by decide
    by_cases hlt : n < 10
    · obtain ⟨his, hval⟩ := hdigit n hlt
      rw [Nat.toDigits_of_lt_base hlt, List.map_singleton]
      refine ⟨⟨List.cons_ne_nil _ _, fun c hc => ?_⟩, ?_⟩
      · rw [List.mem_singleton.mp hc]
        exact his
      · rw [digitsValue, List.foldl_cons, List.foldl_nil, hval]
        omega
    · obtain ⟨his, hval⟩ := hdigit (n % 10) (Nat.mod_lt n (by decide))
      obtain ⟨⟨_, hall⟩, hfront⟩ := ih (n / 10) (by omega)
      rw [Nat.toDigits_of_base_le (by decide) (Nat.le_of_not_lt hlt), List.map_append,
        List.map_singleton]
      refine ⟨⟨by simp, fun c hc => ?_⟩, ?_⟩
      · obtain hc | hc := List.mem_append.mp hc
        · exact hall c hc
        · rw [List.mem_singleton.mp hc]
          exact his
      · rw [digitsValue, List.foldl_append, ← digitsValue, hfront, List.foldl_cons, List.foldl_nil, hval]
        omega

/-! ## The responses -/

/-- What `content_type` gives has no line end in it. -/
theorem contentType_oneLine (path : Bytes) : lf ∉ contentType path := by
  unfold contentType
  split
  · decide +kernel
  · dsimp only
    repeat (split; · decide +kernel)
    decide +kernel

/-- The fields of the head of a file of this size. -/
def staticFields (path : Bytes) (size : Nat) : List Bytes :=
  [ascii "Content-Type: " ++ contentType path, ascii "Content-Length: " ++ ascii (toString size),
    ascii "Connection: close"]

theorem staticHead_lines (path : Bytes) (size : Nat) :
    staticHead path size =
      unlines cr lf (ascii "HTTP/1.1 200 OK" :: staticFields path size) ++ [cr, lf] := by
  have hfirst : ascii "HTTP/1.1 200 OK\r\nContent-Type: " =
      ascii "HTTP/1.1 200 OK" ++ cr :: lf :: ascii "Content-Type: " := by decide +kernel
  have hsecond : ascii "\r\nContent-Length: " = cr :: lf :: ascii "Content-Length: " := by decide +kernel
  have hlast : ascii "\r\nConnection: close\r\n\r\n" =
      cr :: lf :: (ascii "Connection: close" ++ [cr, lf, cr, lf]) := by decide +kernel
  rw [staticHead, hfirst, hsecond, hlast]
  simp [staticFields, unlines]

/-- What a client is sent. -/
def StaticServed.wire (s : StaticServed) : Bytes := s.head ++ s.body.map Prod.fst

theorem body_sublist (root path : Bytes) (k : StaticCalls) :
    (staticServe root path k).body.Sublist (k.file.getD []).zipIdx := by
  obtain ⟨rest, hrest⟩ := staticServe_whole root path k
  rw [StaticServed.body_eq_kept, hrest]
  exact (Pieces.kept_sublist _).trans (List.sublist_append_left _ rest)

theorem splitHeader_length (size : Nat) :
    splitHeader (ascii "Content-Length: " ++ ascii (toString size)) =
      some (ascii "Content-Length", ascii (toString size)) := by
  obtain ⟨⟨hne, hdigits⟩, _⟩ := repr_numeral size
  have hsplit : ascii "Content-Length: " = ascii "Content-Length" ++ [colon, sp] := by decide +kernel
  have hvisible {c : UInt8} (hc : isDigit c = true) : ¬ isBlank c = true := by
    intro hblank
    simp only [isBlank, Bool.or_eq_true, beq_iff_eq] at hblank
    obtain rfl | rfl := hblank <;> exact absurd hc (by decide)
  rw [hsplit, List.append_assoc]
  show splitHeader (ascii "Content-Length" ++ colon :: sp :: ascii size.repr) =
    some (ascii "Content-Length", ascii size.repr)
  obtain ⟨c, t, ht⟩ := List.exists_cons_of_ne_nil hne
  rw [splitHeader_append (by decide +kernel), List.dropWhile_cons_of_pos (by decide), ht,
    List.dropWhile_cons_of_neg (hvisible (hdigits c (by rw [ht]; exact List.mem_cons_self)))]

/-- The head with a file is read as it was meant. -/
theorem readMessage_static (path : Bytes) (size : Nat) (rest : Bytes) :
    ∃ m, readMessage (staticHead path size ++ rest) = some m ∧ m.status = ascii "HTTP/1.1 200 OK" ∧
      m.announced = some size ∧ m.rest = rest := by
  have hlines : ∀ l ∈ ascii "HTTP/1.1 200 OK" :: staticFields path size, HeadLine l := by
    have hbehind {name value : Bytes} (hname : HeadLine name) (hvalue : lf ∉ value) :
        HeadLine (name ++ value) := by
      refine ⟨fun h => hname.nonempty (List.append_eq_nil_iff.mp h).1, fun h => ?_⟩
      exact (List.mem_append.mp h).elim hname.unbroken hvalue
    intro l hl
    simp only [staticFields, List.mem_cons, List.not_mem_nil, or_false] at hl
    obtain rfl | rfl | rfl | rfl := hl
    · exact ⟨by decide +kernel, by decide +kernel⟩
    · exact hbehind ⟨by decide +kernel, by decide +kernel⟩ (contentType_oneLine path)
    · exact hbehind ⟨by decide +kernel, by decide +kernel⟩ (lf_not_mem_nat size)
    · exact ⟨by decide +kernel, by decide +kernel⟩
  refine ⟨⟨ascii "HTTP/1.1 200 OK", (staticFields path size).filterMap splitHeader, rest⟩, ?_, rfl, ?_,
    rfl⟩
  · rw [staticHead_lines, List.append_assoc]
    exact readMessage_head hlines rest
  · obtain ⟨hnumeral, hvalue⟩ := repr_numeral size
    have hsplit : ascii "Content-Type: " = ascii "Content-Type" ++ [colon, sp] := by decide +kernel
    have htype : splitHeader (ascii "Content-Type: " ++ contentType path) =
        some (ascii "Content-Type", (sp :: contentType path).dropWhile isBlank) := by
      rw [hsplit, List.append_assoc]
      exact splitHeader_append (by decide +kernel) (sp :: contentType path)
    have hother : ((ascii "Content-Type").map toLower == contentLength) = false := by decide +kernel
    have hfound : ((ascii "Content-Length").map toLower == contentLength) = true := by decide +kernel
    rw [Message.announced, staticFields, List.filterMap_cons_some htype,
      List.filterMap_cons_some (splitHeader_length size)]
    simp only [List.find?_cons, hother, hfound, Option.bind_some]
    show (if IsNumeral (ascii size.repr) then some (digitsValue (ascii size.repr)) else none) = some size
    rw [if_pos hnumeral, hvalue]

/-- A client has been answered with this content, as far as it reads. -/
structure Framed (m : Message) (content : Bytes) : Prop where
  announced : m.announced = some content.length
  bounded : m.rest.length ≤ content.length
  whole : m.rest.length = content.length ↔ m.rest = content

/-- **What a client reads of a static file.** For every root, every path without `..`, every
    content of the file, whether it can be opened, and every sequence of results of the calls of
    `pipe` and `splice`: what is sent is a complete head that announces the size of the content,
    and behind it no more bytes than that; and that many exactly when they are the content. For
    a path with `..` nothing is sent. -/
theorem static_response_framed (root path : Bytes) (k : StaticCalls) :
    if strstr path (ascii "..") then (staticServe root path k).wire = []
    else ∃ m, readMessage (staticServe root path k).wire = some m ∧
      m.status = (if k.file.isSome then ascii "HTTP/1.1 200 OK" else ascii "HTTP/1.1 404 Not Found") ∧
      m.rest = (staticServe root path k).body.map Prod.fst ∧ Framed m (k.file.getD []) := by
  have hsublist := body_sublist root path k
  have hbytes : ((staticServe root path k).body.map Prod.fst).Sublist (k.file.getD []) := by
    have hmap := hsublist.map Prod.fst
    rwa [List.zipIdx_map_fst] at hmap
  have hframed {m : Message} (hannounced : m.announced = some (k.file.getD []).length)
      (hrest : m.rest = (staticServe root path k).body.map Prod.fst) : Framed m (k.file.getD []) := by
    rw [← hrest] at hbytes
    exact ⟨hannounced, hbytes.length_le, hbytes.eq_of_length, fun h => by rw [h]⟩
  split
  · rename_i hdots
    rw [StaticServed.wire, StaticServed.body, staticServe, if_pos hdots]
    rfl
  rename_i hplain
  have hdots : strstr path (ascii "..") = false := Bool.eq_false_iff.mpr hplain
  cases hfile : k.file with
  | none =>
    have hserved : (staticServe root path k).wire = notFoundResponse := by
      rw [StaticServed.wire, StaticServed.body, staticServe, hdots, hfile]
      rfl
    have hbody : (staticServe root path k).body = [] := by
      rw [StaticServed.body, staticServe, hdots, hfile]
      rfl
    rw [hfile, hbody] at hframed
    rw [hserved, hbody]
    exact ⟨⟨ascii "HTTP/1.1 404 Not Found", [(ascii "Content-Length", ascii "0")], []⟩,
      by decide +kernel, rfl, rfl, hframed (by decide +kernel) rfl⟩
  | some data =>
    have hhead : (staticServe root path k).head = staticHead path data.length := by
      rw [staticServe, hdots, hfile]
      rfl
    obtain ⟨m, hread, hstatus, hannounced, hrest⟩ := readMessage_static path data.length
      ((staticServe root path k).body.map Prod.fst)
    rw [hfile] at hframed
    refine ⟨m, ?_, hstatus, hrest, hframed hannounced hrest⟩
    rw [StaticServed.wire, hhead]
    exact hread

end NexusGateway
