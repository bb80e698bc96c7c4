import FastCgiCdn.ClientModel
import FastCgiCdn.TerminatedBlocks
import Mathlib.Data.List.DropRight

/-! The request that a download sends, and how a server reads it: lines that end
in CR LF, with no other CR, LF or NUL, and a blank line behind each message. A
request with a GET line and the fields that are sent has no body. -/

namespace FastCgiCdn.BackendRequest

open HttpModel FastCgiRecords ClientModel TerminatedBlocks

def tryConnect (host uri etag : Bytes) (h : Http) : Http :=
  { h with host := host, uri := uri, etagBackend := etag }

/-- The backend ETag that `dnsRight` reads from a cache file. -/
def storedETag (file : Bytes) : Bytes :=
  match file[24]? with
  | none => []
  | some etagBackendSize =>
    if ((file.drop 25).take etagBackendSize.toNat).length = etagBackendSize.toNat then
      (file.drop 25).take etagBackendSize.toNat
    else []

/-- The download that `dnsRight` makes, with the old cache file if there is one. -/
def startDownload (r : Request) (path : Bytes) (cachefd : Option Bytes) : Http :=
  tryConnect r.host r.uri (cachefd.elim [] storedETag) (.new cachefd.isSome path)

def sendRequest (h : Http) : Bytes :=
  if h.etagBackend = [] then
    ascii "GET " ++ h.uri ++ ascii " HTTP/1.1\r\nHost: " ++ h.host ++
      ascii "\r\nEPNOERFT: ysff43Uy\r\n\r\n"
  else
    ascii "GET " ++ h.uri ++ ascii " HTTP/1.1\r\nHost: " ++ h.host ++
      ascii "\r\nEPNOERFT: ysff43Uy\r\nIf-None-Match: " ++ h.etagBackend ++ ascii "\r\n\r\n"

structure Message where
  method : Bytes
  target : Bytes
  fields : List (Bytes × Bytes)
  deriving DecidableEq, Repr

def plain (c : Byte) : Bool := c ≠ CR && c ≠ LF && c ≠ 0

def blank (c : Byte) : Bool := c = 32 || c = 9

def line (l : Bytes) : Option Bytes :=
  if l.getLast? = some CR ∧ l.dropLast.all plain then some l.dropLast else none

/-- What stands in front of the first separator, and what stands behind it. -/
def partAt (c : Byte) (s : Bytes) : Bytes × Bytes :=
  (s.takeWhile (· ≠ c), (s.dropWhile (· ≠ c)).drop 1)

def trim (s : Bytes) : Bytes := (s.dropWhile blank).rdropWhile blank

def requestLine (l : Bytes) : Option (Bytes × Bytes) :=
  let method := (partAt 32 l).1
  let target := (partAt 32 (partAt 32 l).2).1
  let version := (partAt 32 (partAt 32 l).2).2
  if method ≠ [] ∧ target ≠ [] ∧ version = ascii "HTTP/1.1" then some (method, target) else none

def field (l : Bytes) : Option (Bytes × Bytes) :=
  if 58 ∈ l ∧ (partAt 58 l).1 ≠ [] ∧ ¬(partAt 58 l).1.any blank then
    some ((partAt 58 l).1, trim (partAt 58 l).2)
  else none

def message : List Bytes → Option Message
  | [] => none
  | first :: rest =>
    (requestLine first).bind fun (method, target) =>
      (rest.mapM field).map fun fields => ⟨method, target, fields⟩

def messages (s : Bytes) : Option (List Message) :=
  (chop LF s).bind fun lines =>
    (lines.mapM line).bind fun lines =>
      (chop [] lines).bind fun blocks => blocks.mapM message

/-- The message that a download is to send. -/
def intended (h : Http) : Message where
  method := ascii "GET"
  target := h.uri
  fields := [(ascii "Host", h.host), (ascii "EPNOERFT", ascii "ysff43Uy")] ++
    if h.etagBackend = [] then [] else [(ascii "If-None-Match", h.etagBackend)]

/-- A string that fits behind the colon of a field. -/
structure IsValue (s : Bytes) : Prop where
  plain : ∀ c ∈ s, plain c
  trimmed : trim s = s

structure IsTarget (s : Bytes) : Prop where
  nonempty : s ≠ []
  plain : ∀ c ∈ s, plain c
  unbroken : 32 ∉ s

structure Message.WellFormed (m : Message) : Prop where
  target : IsTarget m.target
  fields : ∀ f ∈ m.fields, IsValue f.2

section Parts

theorem partAt_append {c : Byte} {s : Bytes} (absent : c ∉ s) (t : Bytes) :
    partAt c (s ++ c :: t) = (s, t) := by
  have others : ∀ d ∈ s, decide (d ≠ c) = true := by
    intro d member
    simpa using fun same : d = c => absent (same ▸ member)
  rw [partAt, List.takeWhile_append_of_pos others, List.dropWhile_append_of_pos others]
  simp

theorem mem_partAt {c : Byte} {s : Bytes} : (∀ d ∈ (partAt c s).1, d ∈ s ∧ d ≠ c) ∧
    ∀ d ∈ (partAt c s).2, d ∈ s := by
  refine ⟨fun d member => ⟨(List.takeWhile_prefix _).subset member, ?_⟩, fun d member => ?_⟩
  · simpa using List.mem_takeWhile_imp member
  · exact (List.dropWhile_suffix _).subset (List.mem_of_mem_drop member)

theorem mem_trim {s : Bytes} {c : Byte} (member : c ∈ trim s) : c ∈ s :=
  (List.dropWhile_suffix _).subset ((List.rdropWhile_prefix _ _).subset member)

theorem trim_trim (s : Bytes) : trim (trim s) = trim s := by
  have front : (trim s).dropWhile blank = trim s := by
    have inside : trim s <+: s.dropWhile blank := List.rdropWhile_prefix _ _
    cases trimmed : trim s with
    | nil => rfl
    | cons c t =>
      obtain ⟨rest, whole⟩ := inside
      have stops := List.dropWhile_idempotent blank s
      rw [← whole, trimmed, List.cons_append] at stops
      have solid : ¬blank c := by
        intro space
        have shorter := congrArg List.length stops
        rw [List.dropWhile_cons_of_pos space] at shorter
        have bound := (List.dropWhile_suffix (l := t ++ rest) blank).length_le
        rw [shorter, List.length_cons] at bound
        omega
      rw [List.dropWhile_cons_of_neg solid]
  rw [trim, front]
  exact List.rdropWhile_idempotent ..

end Parts

section Lists

variable {α β : Type} {f : α → Option β}

theorem mapM_cons_some {a : α} {l : List α} {b : β} {r : List β} (here : f a = some b)
    (rest : l.mapM f = some r) : (a :: l).mapM f = some (b :: r) := by
  rw [List.mapM_cons, here, rest]
  rfl

theorem mapM_sound {l : List α} : ∀ {r : List β}, l.mapM f = some r →
    ∀ b ∈ r, ∃ a ∈ l, f a = some b := by
  induction l with
  | nil =>
    intro r mapped b member
    obtain rfl := Option.some.inj mapped
    cases member
  | cons a l ih =>
    intro r mapped b member
    rw [List.mapM_cons] at mapped
    obtain ⟨c, here, later⟩ := Option.bind_eq_some_iff.mp mapped
    obtain ⟨t, rest, same⟩ := Option.bind_eq_some_iff.mp later
    obtain rfl : c :: t = r := Option.some.inj same
    rcases List.mem_cons.mp member with rfl | there
    · exact ⟨a, List.mem_cons_self .., here⟩
    · obtain ⟨d, inside, result⟩ := ih rest b there
      exact ⟨d, List.mem_cons_of_mem _ inside, result⟩

end Lists

section Sound

theorem line_sound {l t : Bytes} (read : line l = some t) : l = t ++ [CR] ∧ ∀ c ∈ t, plain c := by
  unfold line at read
  split at read
  · rename_i ended
    obtain rfl := Option.some.inj read
    exact ⟨(List.dropLast_append_getLast? _ ended.1).symm, List.all_eq_true.mp ended.2⟩
  · cases read

theorem requestLine_sound {l method target : Bytes} (plain_line : ∀ c ∈ l, plain c)
    (read : requestLine l = some (method, target)) : IsTarget target := by
  simp only [requestLine] at read
  split at read
  · rename_i parts
    obtain ⟨-, rfl⟩ := Prod.mk.inj (Option.some.inj read)
    have first := mem_partAt (c := 32) (s := l)
    have second := mem_partAt (c := 32) (s := (partAt 32 l).2)
    refine ⟨parts.2.1, fun c member => plain_line c (first.2 c (second.1 c member).1), ?_⟩
    exact fun member => (second.1 32 member).2 rfl
  · cases read

theorem field_sound {l : Bytes} {f : Bytes × Bytes} (plain_line : ∀ c ∈ l, plain c)
    (read : field l = some f) : IsValue f.2 := by
  unfold field at read
  split at read
  · obtain rfl := Option.some.inj read
    exact ⟨fun c member => plain_line c (mem_partAt.2 c (mem_trim member)), trim_trim _⟩
  · cases read

theorem message_sound {lines : List Bytes} {m : Message} (plain_lines : ∀ l ∈ lines, ∀ c ∈ l, plain c)
    (read : message lines = some m) : m.WellFormed := by
  cases lines with
  | nil => cases read
  | cons first rest =>
    obtain ⟨⟨method, target⟩, started, ended⟩ := Option.bind_eq_some_iff.mp read
    obtain ⟨fields, values, rfl⟩ := Option.map_eq_some_iff.mp ended
    refine ⟨requestLine_sound (plain_lines first (List.mem_cons_self ..)) started, fun f member => ?_⟩
    obtain ⟨l, inside, value⟩ := mapM_sound values f member
    exact field_sound (plain_lines l (List.mem_cons_of_mem _ inside)) value

theorem messages_sound {s : Bytes} {ms : List Message} (read : messages s = some ms) :
    ∀ m ∈ ms, m.WellFormed := by
  intro m member
  obtain ⟨raw, chopped, read⟩ := Option.bind_eq_some_iff.mp read
  obtain ⟨lines, ended, read⟩ := Option.bind_eq_some_iff.mp read
  obtain ⟨blocks, grouped, parsed⟩ := Option.bind_eq_some_iff.mp read
  obtain ⟨block, inside, result⟩ := mapM_sound parsed m member
  refine message_sound (fun l there => ?_) result
  have among : l ∈ lines := by
    rw [(joined_chop lines grouped).1]
    exact List.mem_flatMap.mpr ⟨block, inside, List.mem_append_left _ there⟩
  obtain ⟨r, -, read⟩ := mapM_sound ended l among
  exact (line_sound read).2

end Sound

section Complete

theorem line_complete {t : Bytes} (plain_line : ∀ c ∈ t, plain c) : line (t ++ [CR]) = some t := by
  have all_plain : t.all plain = true := List.all_eq_true.mpr plain_line
  simp [line, all_plain]

theorem messages_complete {lines : List Bytes} {m : Message} (filled : [] ∉ lines)
    (plain_lines : ∀ l ∈ lines, ∀ c ∈ l, plain c) (parsed : message lines = some m) :
    messages (joined LF ((lines ++ [[]]).map (· ++ [CR]))) = some [m] := by
  have every : ∀ l ∈ lines ++ [[]], ∀ c ∈ l, plain c := by
    intro l member
    rcases List.mem_append.mp member with inside | last
    · exact plain_lines l inside
    · rw [List.mem_singleton.mp last]
      simp
  have unbroken : ∀ raw ∈ (lines ++ [[]]).map (· ++ [CR]), LF ∉ raw := by
    intro raw member found
    obtain ⟨l, inside, rfl⟩ := List.mem_map.mp member
    rcases List.mem_append.mp found with here | last
    · have solid := every l inside LF here
      simp [plain] at solid
    · cases List.mem_singleton.mp last
  have chopped := chop_joined _ unbroken
  have ended : ∀ ls : List Bytes, (∀ l ∈ ls, ∀ c ∈ l, plain c) →
      (ls.map (· ++ [CR])).mapM line = some ls := by
    intro ls
    induction ls with
    | nil => exact fun _ => rfl
    | cons l ls ih =>
      intro solid
      exact mapM_cons_some (line_complete (solid l (List.mem_cons_self ..)))
        (ih fun k member => solid k (List.mem_cons_of_mem _ member))
  have grouped : chop [] (lines ++ [[]]) = some [lines] := by
    have blocks := chop_joined [lines] (show ∀ block ∈ [lines], ([] : Bytes) ∉ block by simpa using filled)
    rwa [joined_cons] at blocks
  rw [messages, chopped, Option.bind_some, ended _ every, Option.bind_some, grouped, Option.bind_some]
  exact mapM_cons_some parsed rfl

set_option maxRecDepth 2048 in
theorem requestLine_complete {uri : Bytes} (target : IsTarget uri) :
    requestLine (ascii "GET " ++ uri ++ ascii " HTTP/1.1") = some (ascii "GET", uri) := by
  have whole : ascii "GET " ++ uri ++ ascii " HTTP/1.1" =
      ascii "GET" ++ 32 :: (uri ++ 32 :: ascii "HTTP/1.1") := by
    simp [ascii]
  have method := partAt_append (c := 32) (s := ascii "GET") (by decide) (uri ++ 32 :: ascii "HTTP/1.1")
  have rest := partAt_append target.unbroken (ascii "HTTP/1.1")
  simp only [requestLine, whole, method, rest]
  rw [if_pos ⟨by decide, target.nonempty, trivial⟩]

theorem trim_blank (s : Bytes) : trim (32 :: s) = trim s := by
  rw [trim, List.dropWhile_cons_of_pos rfl]
  rfl

theorem field_complete {name value : Bytes} (named : name ≠ []) (solid : ¬name.any blank)
    (absent : 58 ∉ name) (fits : IsValue value) :
    field (name ++ 58 :: 32 :: value) = some (name, value) := by
  have parts := partAt_append absent (32 :: value)
  rw [field, parts, if_pos ⟨by simp, named, solid⟩, trim_blank, fits.trimmed]

end Complete

section Requests

variable {h : Http}

def requestLines (h : Http) : List Bytes :=
  [ascii "GET " ++ h.uri ++ ascii " HTTP/1.1", ascii "Host" ++ 58 :: 32 :: h.host,
    ascii "EPNOERFT" ++ 58 :: 32 :: ascii "ysff43Uy"] ++
    if h.etagBackend = [] then [] else [ascii "If-None-Match" ++ 58 :: 32 :: h.etagBackend]

theorem sendRequest_joined (h : Http) :
    sendRequest h = joined LF ((requestLines h ++ [[]]).map (· ++ [CR])) := by
  unfold sendRequest requestLines
  split
  · simp [joined, ascii]
  · simp [joined, ascii]

/-- The strings of the request bring nothing into it but themselves. -/
structure Harmless (h : Http) : Prop where
  uri : IsTarget h.uri
  host : IsValue h.host
  etagBackend : IsValue h.etagBackend

set_option maxRecDepth 2048 in
theorem message_requestLines (harmless : Harmless h) : message (requestLines h) = some (intended h) := by
  have start := requestLine_complete harmless.uri
  have host : field (ascii "Host" ++ 58 :: 32 :: h.host) = some (ascii "Host", h.host) :=
    field_complete (by decide) (by decide) (by decide) harmless.host
  have mark : field (ascii "EPNOERFT" ++ 58 :: 32 :: ascii "ysff43Uy") =
      some (ascii "EPNOERFT", ascii "ysff43Uy") :=
    field_complete (by decide) (by decide) (by decide) ⟨by decide, by decide⟩
  have etag : field (ascii "If-None-Match" ++ 58 :: 32 :: h.etagBackend) =
      some (ascii "If-None-Match", h.etagBackend) :=
    field_complete (by decide) (by decide) (by decide) harmless.etagBackend
  unfold requestLines intended
  split
  · have fields := mapM_cons_some host (mapM_cons_some mark (rfl : [].mapM field = some []))
    rw [List.append_nil, message, start, Option.bind_some, fields]
    rfl
  · have fields := mapM_cons_some host
      (mapM_cons_some mark (mapM_cons_some etag (rfl : [].mapM field = some [])))
    simp only [List.cons_append, List.nil_append, message, start, Option.bind_some, fields,
      Option.map_some]
    rfl

set_option maxRecDepth 2048 in
theorem requestLines_plain (harmless : Harmless h) :
    [] ∉ requestLines h ∧ ∀ l ∈ requestLines h, ∀ c ∈ l, plain c := by
  have glued (a s b : Bytes) (front : ∀ c ∈ a, plain c) (inner : ∀ c ∈ s, plain c)
      (back : ∀ c ∈ b, plain c) : ∀ c ∈ a ++ s ++ b, plain c := by
    intro c member
    rcases List.mem_append.mp member with first | last
    · exact (List.mem_append.mp first).elim (front c) (inner c)
    · exact back c last
  have start := glued (ascii "GET ") h.uri (ascii " HTTP/1.1") (by decide) harmless.uri.plain (by decide)
  have host := glued (ascii "Host: ") h.host [] (by decide) harmless.host.plain (by decide)
  have etag := glued (ascii "If-None-Match: ") h.etagBackend [] (by decide) harmless.etagBackend.plain
    (by decide)
  have mark : ∀ c ∈ ascii "EPNOERFT: ysff43Uy", plain c := by decide
  rw [List.append_nil] at host etag
  unfold requestLines
  split
  · refine ⟨by simp [ascii], ?_⟩
    intro l member
    simp only [List.append_nil, List.mem_cons, List.not_mem_nil, or_false] at member
    rcases member with rfl | rfl | rfl
    · exact start
    · exact host
    · exact mark
  · refine ⟨by simp [ascii], ?_⟩
    intro l member
    simp only [List.cons_append, List.nil_append, List.mem_cons, List.not_mem_nil, or_false] at member
    rcases member with rfl | rfl | rfl | rfl
    · exact start
    · exact host
    · exact mark
    · exact etag

theorem harmless_of_wellFormed (wellFormed : (intended h).WellFormed) : Harmless h := by
  refine ⟨wellFormed.target, wellFormed.fields (ascii "Host", h.host) (by simp [intended]), ?_⟩
  by_cases none_stored : h.etagBackend = []
  · rw [none_stored]
    exact ⟨by simp, rfl⟩
  · exact wellFormed.fields (ascii "If-None-Match", h.etagBackend) (by simp [intended, none_stored])

theorem sendRequest_read_iff (h : Http) : messages (sendRequest h) = some [intended h] ↔ Harmless h := by
  constructor
  · intro read
    exact harmless_of_wellFormed (messages_sound read _ (List.mem_singleton_self _))
  · intro harmless
    obtain ⟨filled, plain_lines⟩ := requestLines_plain harmless
    rw [sendRequest_joined]
    exact messages_complete filled plain_lines (message_requestLines harmless)

end Requests

/-- The request of a download has a host, and is read as the one message intended
exactly if its path, its host and the stored ETag can stand where they are put. -/
theorem one_request_per_download {c : Client} {read : Read} {r : Request}
    (leads : (readyToRead c read).2 = .download r) (path : Bytes) (cachefd : Option Bytes) :
    r.host ≠ [] ∧ (messages (sendRequest (startDownload r path cachefd)) =
        some [intended (startDownload r path cachefd)] ↔
      Harmless (startDownload r path cachefd)) :=
  ⟨download_host leads, sendRequest_read_iff _⟩

def asked (host : String) : Read :=
  ⟨requestOf [(ascii "HTTP_HOST", ascii host), (ascii "REQUEST_URI", ascii "/x")], fun _ => 0⟩

set_option maxRecDepth 8192 in
/-- The host "ab" in hexadecimal digits. -/
theorem plain_host_is_one_request : ∃ r, (readyToRead .new (asked "6162.cdn.confiared.com")).2 =
    .download r ∧ messages (sendRequest (startDownload r (ascii "cache/0") none)) =
      some [intended (startDownload r (ascii "cache/0") none)] := by
  have leads : (readyToRead .new (asked "6162.cdn.confiared.com")).2 =
      .download ⟨false, ascii "ab", ascii "/x", []⟩ := by
    decide
  refine ⟨_, leads, (one_request_per_download leads (ascii "cache/0") none).2.mpr ?_⟩
  exact ⟨⟨by decide, by decide, by decide⟩, ⟨by decide, by decide⟩, ⟨by decide, by decide⟩⟩

set_option maxRecDepth 8192 in
/-- A host in hexadecimal digits that brings line ends and a whole request. -/
theorem hexadecimal_host_brings_second_request : ∃ r, (readyToRead .new (asked
      "610d0a0d0a474554202f7920485454502f312e310d0a486f73743a2062.cdn.confiared.com")).2 =
    .download r ∧ (messages (sendRequest (startDownload r (ascii "cache/0") none))).map
      (·.map Message.target) = some [ascii "/x", ascii "/y"] := by
  refine ⟨⟨false, ascii "a\r\n\r\nGET /y HTTP/1.1\r\nHost: b", ascii "/x", []⟩, ?_, ?_⟩
  · decide
  · decide

end FastCgiCdn.BackendRequest
