import FastCgiCdn.HttpModel

/-! `Http::readyToRead` and `Http::flushRead`. A call is given the results of its
successive `socketRead` calls; it may leave some of them unread, and it says
which bytes it handed to `write`. The position in the receive buffer is a
`uint16_t`, so a head that fills 65536 bytes sends the parser round for ever:
its loops run for a number of rounds, and `none` means that they were not
enough. -/

namespace FastCgiCdn.HttpModel

open MeasuredLoop

/-- One result of `socketRead`, and what the receive buffer holds behind it. -/
structure Read where
  data : Bytes
  stale : ℕ → Byte

structure Surroundings where
  created : Bool
  /-- The fixed fields of the cache file could be written. -/
  fieldsStored : Bool
  /-- The old cache file of a 304 answer could be updated. -/
  touched : Bool
  disk : ℕ → ℕ
  randomIndex : List ℕ
  date : Bytes
  expire : Bytes
  uninitialised : ℕ

abbrev Buffer := ℕ → Byte

def span (buffer : Buffer) (start stop : ℕ) : Bytes :=
  (List.range' start (stop - start)).map buffer

/-- `headerBuff` as it was when the call began, then the bytes of a read. -/
def Read.buffer (kept : Bytes) (r : Read) : Buffer := fun i =>
  (kept ++ r.data)[i]?.getD (r.stale i)

/-- `pos++` on a `uint16_t`. -/
def bump (pos : ℕ) : ℕ := (pos + 1) % 65536

def skipLineEnd (buffer : Buffer) (pos : ℕ) : ℕ :=
  if buffer pos = CR ∧ buffer (bump pos) = LF then bump (bump pos) else bump pos

def rChar : Bytes := ascii "ABCDEFGHIJKLMNOPQRSTUVWXYZabcdefghijklmnopqrstuvwxyz0123456789+/="

namespace Http

def randomETagChar (r : ℕ) : Byte := rChar.getD (r % rChar.length) 0

/-- Whether the answer is taken over, which only the code 200 is. -/
def HttpReturnCode (env : Surroundings) (h : Http) : Http × Bool :=
  if h.http_code = 200 then (h, true)
  else if h.http_code = 304 ∧ h.finalCache ∧ env.touched then (h, false)
  else ({ h with clientsList := [] }, false)

structure StatusScan where
  http : Http
  buffer : Buffer
  pos : ℕ
  fh : Option ℕ

inductive StatusEnd
  | refused (h : Http)
  | line (s : StatusScan)

/-- The loop over the status line. The code stands between its first two blanks
and is read when the second one is met. -/
def statusBody (env : Surroundings) (size : ℕ) (s : StatusScan) : Outcome StatusScan StatusEnd :=
  if s.pos < size ∧ s.buffer s.pos ≠ LF then
    if s.http.http_code = 0 ∧ s.buffer s.pos = 32 then
      match s.fh with
      | none => .again { s with pos := bump s.pos, fh := some (bump s.pos) }
      | some fh =>
        let buffer := Function.update s.buffer s.pos 0
        let h := { s.http with
          http_code := Common.atoi16 (span buffer fh (fh + size))
          backend := s.http.backend.map ({ · with wasTCPConnected := true }) }
        if (h.HttpReturnCode env).2 then .again ⟨h, buffer, bump s.pos, some fh⟩
        else .stop (.refused (h.HttpReturnCode env).1)
    else .again { s with pos := bump s.pos }
  else .stop (.line s)

structure HeadScan where
  http : Http
  pos : ℕ
  pos2 : ℕ

inductive HeadEnd
  | parsed (s : HeadScan)
  | returned (h : Http)

/-- The parser state behind the colon of a field name. -/
def fieldParsing (name : Bytes) : Parsing :=
  if name.map Common.tolower = ascii "etag" then .etag
  else if name.map Common.tolower = ascii "content-length" then .contentLength
  else if name.map Common.tolower = ascii "content-type" then .contentType
  else .headerVal

def takeValue (env : Surroundings) (value : Bytes) (h : Http) : Http :=
  match h.parsing with
  | .contentLength =>
    { h with
      contentsize := Common.toInt64 ((Common.streamToUInt64 value).getD env.uninitialised) }
  | .contentType => { h with contenttype := value }
  | .etag => { h with etagBackend := value }
  | _ => h

def statusHeader (http_code : ℕ) : Bytes :=
  if http_code = 200 then []
  else if http_code = 404 then ascii "Status: 404 NOT FOUND\n"
  else ascii "Status: 500 Internal Server Error\n"

/-- The header generated for the clients. -/
def header (env : Surroundings) (h : Http) : Bytes :=
  statusHeader h.http_code ++
    (if 0 ≤ h.contentsize then
      ascii "Content-Length: " ++ Common.toDecimal h.contentsize.toNat ++ ascii "\n" else []) ++
    (if h.contenttype = [] then ascii "Content-Type: text/html\n"
      else ascii "Content-Type: " ++ h.contenttype ++ ascii "\n") ++
    (if h.http_code = 200 then
      ascii "Date: " ++ env.date ++ ascii "\nExpires: " ++ env.expire ++
        ascii "\nCache-Control: public\nETag: \"" ++ env.randomIndex.map randomETagChar ++
        ascii "\"\nAccess-Control-Allow-Origin: *\n" else []) ++
    ascii "\n"

/-- An ETag of more than 255 bytes is not kept. -/
def contentPos (h : Http) : ℕ :=
  25 + (if h.etagBackend.length ≤ 255 then h.etagBackend.length else 0)

/-- What the end of the head does: the temporary file is created and given its
header. -/
def openCache (env : Surroundings) (h : Http) (pos pos2 : ℕ) : HeadEnd :=
  if !env.created then .returned { h with tempCache := none }.disconnectFrontend
  else if !env.fieldsStored then
    .returned { h with tempCache := none }.disconnectFrontend.disconnectBackend
  else if h.headerWriten then .returned { h with aborted := true }
  else if env.disk 0 < (h.header env).length then
    .parsed ⟨{ h with headerWriten := true, tempCache := none }.disconnectFrontend.disconnectBackend,
      pos, pos2⟩
  else
    .parsed ⟨{ h with
      headerWriten := true
      tempCache := some ⟨true, h.contentPos, env.disk, [h.header env]⟩ }, pos, pos2⟩

def lineEnd (c : Byte) : Bool := c = LF || c = CR

/-- Whether the string up to a position would have a negative length, which
`std::string` answers with an exception. -/
def throws (s : HeadScan) : Bool :=
  s.pos < s.pos2 && (s.http.parsing = .contentLength || s.http.parsing = .contentType ||
    s.http.parsing = .etag)

/-- The loop over the header lines. Behind a colon two bytes are passed over. -/
def headBody (env : Surroundings) (buffer : Buffer) (size : ℕ) (s : HeadScan) :
    Outcome HeadScan HeadEnd :=
  if s.pos < size then
    if buffer s.pos = 58 ∧ s.http.parsing = .headerVar then
      .again {
        http := { s.http with parsing := fieldParsing (span buffer s.pos2 s.pos) }
        pos := bump (bump s.pos), pos2 := bump (bump s.pos) }
    else if lineEnd (buffer s.pos) then
      if s.pos = s.pos2 ∧ s.http.parsing = .headerVar then
        .stop (openCache env { s.http with parsing := .content } (skipLineEnd buffer s.pos) s.pos2)
      else if throws s then .stop (.returned { s.http with aborted := true })
      else .again {
        http := { takeValue env (span buffer s.pos2 s.pos) s.http with parsing := .headerVar }
        pos := skipLineEnd buffer s.pos, pos2 := skipLineEnd buffer s.pos }
    else .again { s with pos := bump s.pos }
  else .stop (.parsed s)

/-- How one round of the reading loop ends; `flushes` goes through `flushRead`,
`recurses` through a nested call. -/
inductive ReadEnd
  | returns (h : Http) (passed : Bytes)
  | goesOn (h : Http) (passed : Bytes)
  | flushes (h : Http)
  | recurses (h : Http)

/-- Behind the header lines of a read: the rest is body, or it is kept for the
next call. -/
def afterHead (buffer : Buffer) (size : ℕ) (s : HeadScan) : ReadEnd :=
  match s.http.parsing with
  | .content =>
    if size ≤ s.pos then .returns s.http []
    else
      let body := span buffer s.pos size
      let done := s.http.write ⟨body, buffer size⟩
      if done.1.endDetected ∨ done.2 ≠ (size : ℤ) - s.pos then .returns done.1 body
      else .goesOn done.1 body
  | .headerVar =>
    if s.http.headerBuff = [] ∧ 0 < s.pos2 then
      .goesOn { s.http with headerBuff := span buffer s.pos2 s.pos } []
    else .goesOn s.http []
  | .contentType | .contentLength =>
    if s.http.headerBuff = [] ∧ 0 < s.pos2 then
      .goesOn { s.http with headerBuff := span buffer s.pos2 s.pos } []
    else .recurses { s.http with parsing := .headerVar }
  | _ => .goesOn s.http []

def readOne (env : Surroundings) (fuel : ℕ) (kept : Bytes) (h : Http) (r : Read) : Option ReadEnd :=
  let size := r.data.length
  if h.parsing = .content then
    let body := span (r.buffer kept) 0 size
    let done := (h.write ⟨body, r.buffer kept size⟩).1
    some (if done.endDetected then .returns done body else .goesOn done body)
  else
    let start : StatusScan := ⟨h, r.buffer kept, 0, none⟩
    let status := if h.http_code = 0 then rounds (statusBody env size) fuel start
      else some (.line start)
    status.bind fun
      | .refused h => some (.flushes h)
      | .line s =>
        if s.http.http_code ≠ 200 then some (.flushes s.http)
        else
          (rounds (headBody env s.buffer size) fuel
            ⟨{ s.http with parsing := .headerVar }, bump s.pos, bump s.pos⟩).map fun
          | .parsed t => afterHead s.buffer size t
          | .returned h => .returns h []

structure Progress where
  http : Http
  unread : List Read
  passed : Bytes

/-- A loop over `socketRead` that throws the bytes away. -/
def drain (h : Http) (reads : List Read) : List Read :=
  if h.backend.isSome then [] else reads

def flushRead (h : Http) (reads : List Read) : Progress :=
  let h := h.disconnectBackend.disconnectFrontend
  ⟨h, h.drain reads, []⟩

/-- The loop of `readyToRead`; without a backend `socketRead` fails. Every round
takes a read, so a budget of one more than their number is enough. -/
def readLoop (env : Surroundings) (fuel : ℕ) : ℕ → Bytes → Http → List Read → Option Progress
  | 0, _, _, _ => none
  | _ + 1, _, h, [] => some ⟨h, [], []⟩
  | budget + 1, kept, h, r :: reads =>
    if h.backend.isNone then some ⟨h, r :: reads, []⟩
    else (readOne env fuel kept h r).bind fun
      | .returns h passed => some ⟨h, reads, passed⟩
      | .flushes h => some (h.flushRead reads)
      | .goesOn h passed =>
        (readLoop env fuel budget kept h reads).map fun p => { p with passed := passed ++ p.passed }
      | .recurses h =>
        (if h.backend.isSome && h.endDetected then some ⟨h, [], []⟩
          else readLoop env fuel budget h.headerBuff h reads).bind fun inner =>
        (readLoop env fuel budget kept inner.http inner.unread).map fun p =>
          { p with passed := inner.passed ++ p.passed }

def readyToRead (env : Surroundings) (fuel : ℕ) (h : Http) (reads : List Read) : Option Progress :=
  if h.backend.isSome && h.endDetected then some ⟨h, h.drain reads, []⟩
  else readLoop env fuel (reads.length + 1) h.headerBuff h reads

section Rounds

variable {env : Surroundings} {n m : ℕ}

theorem readOne_mono (le : n ≤ m) {kept : Bytes} {h : Http} {r : Read} {e : ReadEnd}
    (returned : h.readOne env n kept r = some e) : h.readOne env m kept r = some e := by
  unfold readOne at returned ⊢
  split at returned
  · rename_i body
    rwa [if_pos body]
  · rename_i head
    rw [if_neg head]
    obtain ⟨line, status, rest⟩ := Option.bind_eq_some_iff.mp returned
    have status' : (if h.http_code = 0 then rounds (statusBody env r.data.length) m
        ⟨h, r.buffer kept, 0, none⟩ else some (.line ⟨h, r.buffer kept, 0, none⟩)) = some line := by
      split at status
      · rename_i unread
        rw [if_pos unread]
        exact rounds_mono le status
      · rename_i answered
        rw [if_neg answered]
        exact status
    simp only at status' ⊢
    rw [status', Option.bind_some]
    cases line with
    | refused h => exact rest
    | line s =>
      simp only at rest ⊢
      split at rest
      · rename_i other
        rwa [if_pos other]
      · rename_i accepted
        rw [if_neg accepted]
        obtain ⟨fields, parsed, result⟩ := Option.map_eq_some_iff.mp rest
        rw [rounds_mono le parsed, Option.map_some, ← result]

theorem readLoop_mono (le : n ≤ m) (budget : ℕ) : ∀ {kept : Bytes} {h : Http} {reads : List Read}
    {p : Progress}, readLoop env n budget kept h reads = some p →
    readLoop env m budget kept h reads = some p := by
  induction budget with
  | zero =>
    intro kept h reads p returned
    cases returned
  | succ budget ih =>
    intro kept h reads p returned
    cases reads with
    | nil => exact returned
    | cons r reads =>
      rw [readLoop] at returned ⊢
      split at returned
      · rename_i alone
        rwa [if_pos alone]
      · rename_i linked
        rw [if_neg linked]
        obtain ⟨e, round, rest⟩ := Option.bind_eq_some_iff.mp returned
        rw [readOne_mono le round, Option.bind_some]
        cases e with
        | returns h passed => exact rest
        | flushes h => exact rest
        | goesOn h passed =>
          obtain ⟨q, later, result⟩ := Option.map_eq_some_iff.mp rest
          simp only
          rw [ih later, ← result, Option.map_some]
        | recurses h =>
          obtain ⟨inner, nested, after⟩ := Option.bind_eq_some_iff.mp rest
          obtain ⟨q, later, result⟩ := Option.map_eq_some_iff.mp after
          have nested' : (if h.backend.isSome && h.endDetected then some ⟨h, [], []⟩
              else readLoop env m budget h.headerBuff h reads) = some inner := by
            split at nested
            · rename_i atEnd
              rwa [if_pos atEnd]
            · rename_i going
              rw [if_neg going]
              exact ih nested
          simp only
          rw [nested', Option.bind_some, ih later, ← result, Option.map_some]

theorem readyToRead_mono (le : n ≤ m) {h : Http} {reads : List Read} {p : Progress}
    (returned : h.readyToRead env n reads = some p) : h.readyToRead env m reads = some p := by
  unfold readyToRead at returned ⊢
  split at returned
  · rename_i atEnd
    rwa [if_pos atEnd]
  · rename_i going
    rw [if_neg going]
    exact readLoop_mono le _ returned

theorem drain_le (h : Http) (reads : List Read) : (h.drain reads).length ≤ reads.length := by
  unfold drain
  split
  · exact Nat.zero_le _
  · exact le_rfl

theorem unread_le (budget : ℕ) : ∀ {kept : Bytes} {h : Http} {reads : List Read} {p : Progress},
    readLoop env n budget kept h reads = some p → p.unread.length ≤ reads.length ∧
      (h.backend.isSome → p.unread.length ≤ reads.length - 1) := by
  induction budget with
  | zero =>
    intro kept h reads p returned
    cases returned
  | succ budget ih =>
    intro kept h reads p returned
    cases reads with
    | nil =>
      obtain rfl := Option.some.inj returned
      exact ⟨le_rfl, fun _ => le_rfl⟩
    | cons r reads =>
      rw [readLoop] at returned
      split at returned
      · rename_i alone
        obtain rfl := Option.some.inj returned
        exact ⟨le_rfl, fun linked => absurd alone (by simp [Option.isSome_iff_ne_none.mp linked])⟩
      · suffices taken : p.unread.length ≤ reads.length from ⟨Nat.le_succ_of_le taken, fun _ => taken⟩
        obtain ⟨e, round, rest⟩ := Option.bind_eq_some_iff.mp returned
        cases e with
        | returns h passed =>
          obtain rfl := Option.some.inj rest
          exact le_rfl
        | flushes h =>
          obtain rfl := Option.some.inj rest
          exact drain_le h.disconnectBackend.disconnectFrontend reads
        | goesOn h passed =>
          obtain ⟨q, later, rfl⟩ := Option.map_eq_some_iff.mp rest
          have bound := ih later
          exact bound.1
        | recurses h =>
          obtain ⟨inner, nested, after⟩ := Option.bind_eq_some_iff.mp rest
          obtain ⟨q, later, rfl⟩ := Option.map_eq_some_iff.mp after
          have inside : inner.unread.length ≤ reads.length := by
            split at nested
            · obtain rfl := Option.some.inj nested
              exact Nat.zero_le _
            · have bound := ih nested
              exact bound.1
          have bound := ih later
          exact Nat.le_trans bound.1 inside

theorem unread_single {h : Http} (linked : h.backend.isSome) {r : Read} {p : Progress}
    (returned : h.readyToRead env n [r] = some p) : p.unread = [] := by
  unfold readyToRead at returned
  split at returned
  · obtain rfl := Option.some.inj returned
    simp [drain, linked]
  · exact List.eq_nil_of_length_eq_zero (Nat.le_zero.mp ((unread_le _ returned).2 linked))

end Rounds

end Http

end FastCgiCdn.HttpModel
