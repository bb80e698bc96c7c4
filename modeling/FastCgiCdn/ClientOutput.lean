import FastCgiCdn.HttpModel

/-! What a client sends: `Client::write` and the output buffer behind it, the
records of `writeOutput` and `writeEnd`, the reading of a cache file, and the
pages. Of a cache file only the content region counts here, the bytes that
follow `seekToContentPos`. Every `::write` takes its result from a schedule that
is read once per call, so a run is a function of the schedule. `disconnect` also
takes the client out of the queries of `Dns`, which `WaitingClients` models. -/

namespace FastCgiCdn.ClientOutput

open HttpModel MeasuredLoop

inductive Errno
  | EAGAIN
  | other (code : ℕ)
  deriving DecidableEq, Repr

inductive Sent
  | whole
  /-- So many bytes, but never all of them. -/
  | short (n : ℕ)
  | failed (e : Errno)
  deriving DecidableEq, Repr

/-- A `::write` with what surrounds it: `errno` as earlier calls have left it, and
the byte that lies in memory in front of the data. -/
structure Moment where
  sent : Sent
  left : Option Errno
  before : UInt8
  deriving DecidableEq, Repr

namespace Moment

variable (m : Moment)

def writedSize (size : ℕ) : ℤ :=
  match m.sent with
  | .whole => size
  | .short n => (min n (size - 1) : ℕ)
  | .failed _ => -1

/-- `errno` after the call. Only a call that fails sets it. -/
def errno (start : Option Errno) : Option Errno :=
  match m.sent with
  | .failed e => some e
  | _ => start

end Moment

abbrev Schedule := ℕ → Moment

/-- A handle of a cache file, and how far into the content it has read. -/
structure Reader (ι : Type) where
  file : ι
  pos : ℕ
  deriving DecidableEq, Repr

inductive Record
  | stdout (data : Bytes)
  | endRequest
  deriving DecidableEq, Repr

inductive Status
  | idle
  | waitDns
  | waitTheContent
  deriving DecidableEq, Repr

structure Client (ι : Type) where
  opened : Bool
  fastcgiid : Option ℕ
  readCache : Option (Reader ι)
  http : Bool
  dataToWrite : Bytes
  endTriggered : Bool
  status : Status
  isPartial : Bool
  partialEndOfFileTrigged : Bool
  outputWrited : Bool
  /-- The number of calls of `::write` so far. -/
  asked : ℕ
  accepted : Bytes
  /-- The bytes handed to the open client. -/
  passed : Bytes
  /-- The records whose data was handed to the open client. -/
  emitted : List Record
  deriving DecidableEq, Repr

namespace Client

variable {ι : Type} (socket : Schedule) (disk : ι → Bytes)

def new : Client ι where
  opened := true
  fastcgiid := none
  readCache := none
  http := false
  dataToWrite := []
  endTriggered := false
  status := .idle
  isPartial := false
  partialEndOfFileTrigged := false
  outputWrited := false
  asked := 0
  accepted := []
  passed := []
  emitted := []

def disconnectFromHttp (c : Client ι) : Client ι := { c with http := false }

def disconnect (c : Client ι) : Client ι :=
  { c.disconnectFromHttp with opened := false, dataToWrite := [], fastcgiid := none }

def ask (data : Bytes) (c : Client ι) : Client ι :=
  { c with
    asked := c.asked + 1
    accepted := c.accepted ++ data.take ((socket c.asked).writedSize data.length).toNat }

/-- `Client::write` with an empty buffer. At `EAGAIN` the result is -1, which is
added to the address of the data and taken from its size. -/
def direct (data : Bytes) (c : Client ι) : Client ι :=
  let m := socket c.asked
  let c := c.ask socket data
  if m.writedSize data.length = data.length then c
  else
    match m.errno none with
    | some (.other _) => c.disconnect
    | some .EAGAIN => { c with dataToWrite := c.dataToWrite ++ m.before :: data }
    | none => c.disconnect

def write (data : Bytes) (c : Client ι) : Client ι :=
  if c.opened then
    let c := { c with passed := c.passed ++ data }
    if c.dataToWrite = [] then c.direct socket data
    else { c with dataToWrite := c.dataToWrite ++ data }
  else c

section Writes

variable {socket} {c : Client ι} {data : Bytes}

theorem write_closed (closed : c.opened = false) : c.write socket data = c := by
  simp [write, closed]

theorem write_whole (opened : c.opened = true) (empty : c.dataToWrite = [])
    (whole : (socket c.asked).sent = .whole) :
    c.write socket data =
      { c with
        passed := c.passed ++ data
        asked := c.asked + 1
        accepted := c.accepted ++ data } := by
  simp [write, direct, ask, Moment.writedSize, opened, empty, whole]

theorem write_failed {code : ℕ} (opened : c.opened = true) (empty : c.dataToWrite = [])
    (failed : (socket c.asked).sent = .failed (.other code)) :
    c.write socket data =
      ({ c with passed := c.passed ++ data, asked := c.asked + 1 } : Client ι).disconnect := by
  have differ : (-1 : ℤ) ≠ data.length := by omega
  simp [write, direct, ask, Moment.writedSize, Moment.errno, opened, empty, failed, differ]

theorem direct_frame (data : Bytes) (c : Client ι) :
    (c.direct socket data).readCache = c.readCache ∧
      (c.direct socket data).isPartial = c.isPartial ∧
      (c.direct socket data).outputWrited = c.outputWrited ∧
      (c.direct socket data).endTriggered = c.endTriggered ∧
      (c.direct socket data).emitted = c.emitted ∧
      (c.direct socket data).passed = c.passed ∧
      (c.direct socket data).asked = c.asked + 1 := by
  simp only [direct]
  split
  · simp [ask]
  · split <;> simp [ask, disconnect, disconnectFromHttp]

theorem write_frame (data : Bytes) (c : Client ι) :
    (c.write socket data).readCache = c.readCache ∧
      (c.write socket data).isPartial = c.isPartial ∧
      (c.write socket data).outputWrited = c.outputWrited ∧
      (c.write socket data).endTriggered = c.endTriggered ∧
      (c.write socket data).emitted = c.emitted := by
  simp only [write]
  split
  · split
    · simp [direct_frame]
    · simp
  · simp

theorem write_asked (data : Bytes) (c : Client ι) : c.asked ≤ (c.write socket data).asked := by
  simp only [write]
  split
  · split
    · simp [direct_frame]
    · simp
  · exact Nat.le_refl _

end Writes

/-- Two bytes, the high one first. `fastcgiid` is -1 when there is none. -/
def be16 (n : ℕ) : Bytes := [UInt8.ofNat (n / 256), UInt8.ofNat n]

def header (kind : UInt8) (size : ℕ) (c : Client ι) : Bytes :=
  [1, kind] ++ be16 (c.fastcgiid.getD 65535) ++ be16 size ++ be16 0

def writeOutput (data : Bytes) (c : Client ι) : Client ι :=
  let c := { c with outputWrited := true }
  let c := c.write socket (c.header 6 data.length)
  let emitted := if c.opened then c.emitted ++ [.stdout data] else c.emitted
  { c.write socket data with emitted := emitted }

def closeCache (c : Client ι) : Client ι := { c with readCache := none }

def endRecord (c : Client ι) : Bytes := c.header 3 8 ++ List.replicate 8 0

/-- The records so far, and the END_REQUEST record of an open client. -/
def ended (c : Client ι) : List Record :=
  if c.opened then c.emitted ++ [.endRequest] else c.emitted

def sendEnd (c : Client ι) : Client ι :=
  if c.dataToWrite = [] then
    let d := c.closeCache.write socket c.endRecord
    let d := { d with fastcgiid := none, emitted := c.ended }
    if d.dataToWrite = [] then d.disconnect else { d with endTriggered := true }
  else
    { c with
      dataToWrite := c.dataToWrite ++ c.endRecord
      passed := c.passed ++ c.endRecord
      emitted := c.ended
      endTriggered := true }

section Records

variable {socket} {c : Client ι} {data : Bytes}

@[simp]
theorem writeOutput_readCache : (c.writeOutput socket data).readCache = c.readCache := by
  simp [writeOutput, write_frame]

@[simp]
theorem writeOutput_isPartial : (c.writeOutput socket data).isPartial = c.isPartial := by
  simp [writeOutput, write_frame]

@[simp]
theorem writeOutput_outputWrited : (c.writeOutput socket data).outputWrited = true := by
  simp [writeOutput, write_frame]

@[simp]
theorem writeOutput_endTriggered : (c.writeOutput socket data).endTriggered = c.endTriggered := by
  simp [writeOutput, write_frame]

theorem writeOutput_closed (closed : c.opened = false) :
    c.writeOutput socket data = { c with outputWrited := true } := by
  simp [writeOutput, write, closed]

theorem writeOutput_whole (whole : ∀ k, (socket k).sent = .whole) (opened : c.opened = true)
    (empty : c.dataToWrite = []) :
    c.writeOutput socket data =
      { c with
        outputWrited := true
        asked := c.asked + 2
        accepted := c.accepted ++ c.header 6 data.length ++ data
        passed := c.passed ++ c.header 6 data.length ++ data
        emitted := c.emitted ++ [.stdout data] } := by
  simp [writeOutput, write_whole, header, opened, empty, whole]

theorem sendEnd_whole (whole : ∀ k, (socket k).sent = .whole) (opened : c.opened = true)
    (empty : c.dataToWrite = []) :
    c.sendEnd socket =
      ({ c with
        readCache := none
        fastcgiid := none
        asked := c.asked + 1
        accepted := c.accepted ++ c.endRecord
        passed := c.passed ++ c.endRecord
        emitted := c.emitted ++ [.endRequest] } : Client ι).disconnect := by
  have sent : c.closeCache.write socket c.endRecord =
      { c with
        readCache := none
        asked := c.asked + 1
        accepted := c.accepted ++ c.endRecord
        passed := c.passed ++ c.endRecord } :=
    write_whole opened empty (whole _)
  unfold sendEnd
  rw [if_pos empty]
  simp only [sent, ended, opened, empty, if_true]

@[simp]
theorem sendEnd_emitted : (c.sendEnd socket).emitted = c.ended := by
  unfold sendEnd
  split
  · simp only
    split <;> rfl
  · rfl

theorem sendEnd_closed (closed : c.opened = false) : (c.sendEnd socket).opened = false := by
  unfold sendEnd
  split
  · have same : c.closeCache.write socket c.endRecord = c.closeCache := write_closed closed
    simp only [same]
    split
    · rfl
    · exact closed
  · exact closed

end Records

theorem writeOutput_cases (data : Bytes) (c : Client ι) :
    ((c.writeOutput socket data).opened = false ∧
        (c.writeOutput socket data).emitted = c.emitted) ∨
      (c.writeOutput socket data).emitted = c.emitted ++ [.stdout data] := by
  let d := ({ c with outputWrited := true } : Client ι).write socket (c.header 6 data.length)
  cases still : d.opened with
  | false =>
    have shut : (d.write socket data).opened = false := by
      rw [write_closed still]
      exact still
    refine .inl ⟨shut, ?_⟩
    change (if d.opened then d.emitted ++ [Record.stdout data] else d.emitted) = c.emitted
    simp [still, d, write_frame]
  | true =>
    refine .inr ?_
    change (if d.opened then d.emitted ++ [Record.stdout data] else d.emitted) = _
    simp [still, d, write_frame]

def bufferSize : ℕ := 65536 - 1000

/-- What a read returns at a position in the content. -/
def piece (content : Bytes) (pos : ℕ) : Bytes := (content.drop pos).take bufferSize

theorem piece_length (content : Bytes) (pos : ℕ) :
    (piece content pos).length = min bufferSize (content.length - pos) := by
  simp [piece]

theorem piece_eq_nil {content : Bytes} {pos : ℕ} :
    piece content pos = [] ↔ content.length ≤ pos := by
  rw [← List.length_eq_zero_iff, piece_length]
  unfold bufferSize
  omega

theorem take_piece (content : Bytes) (pos : ℕ) :
    content.take pos ++ piece content pos = content.take (pos + (piece content pos).length) := by
  rw [List.take_add, piece_length, piece]
  congr 1
  rw [List.take_eq_take_iff]
  simp

def readPiece (file : ι) (content : Bytes) (pos : ℕ) (c : Client ι) : Client ι :=
  let buffer := piece content pos
  let c : Client ι := { c with
    readCache := some ⟨file, pos + buffer.length⟩, partialEndOfFileTrigged := false }
  c.writeOutput socket buffer

/-- A round of `continueRead` with a file and the position in it. It stops at the
end of the file, or with bytes left in the buffer. -/
def readBody (file : ι) (content : Bytes) (s : ℕ × Client ι) :
    Outcome (ℕ × Client ι) (Client ι × Bool) :=
  if piece content s.1 = [] then .stop (s.2, true)
  else
    let c := s.2.readPiece socket file content s.1
    if c.dataToWrite = [] then .again (s.1 + (piece content s.1).length, c) else .stop (c, false)

theorem readBody_advances (file : ι) (content : Bytes) (s t : ℕ × Client ι)
    (taken : readBody socket file content s = .again t) :
    content.length - t.1 < content.length - s.1 := by
  unfold readBody at taken
  simp only at taken
  split at taken
  · cases taken
  · rename_i more
    split at taken
    · obtain rfl := Outcome.again.inj taken
      have some := List.length_pos_iff.mpr more
      rw [piece_length] at some
      simp only [piece_length]
      omega
    · cases taken

def readLoop (file : ι) (content : Bytes) : Loop (ℕ × Client ι) (Client ι × Bool) where
  body := readBody socket file content
  measure s := content.length - s.1
  decreases := readBody_advances socket file content

/-- What every piece keeps, the loop keeps. It ends at the end of the file, or
with bytes in the buffer. -/
theorem readLoop_rule (file : ι) (content : Bytes) (P : ℕ → Client ι → Prop)
    (step : ∀ pos c, P pos c → pos < content.length →
      P (pos + (piece content pos).length) (c.readPiece socket file content pos))
    (s : ℕ × Client ι) (start : P s.1 s.2) :
    ∃ pos, P pos ((readLoop socket file content).run s).1 ∧
      (((readLoop socket file content).run s).2 = true → content.length ≤ pos) ∧
      (((readLoop socket file content).run s).2 = false →
        ((readLoop socket file content).run s).1.dataToWrite ≠ []) := by
  revert start
  apply (readLoop socket file content).run_induct (P := fun s r => P s.1 s.2 →
    ∃ pos, P pos r.1 ∧ (r.2 = true → content.length ≤ pos) ∧ (r.2 = false → r.1.dataToWrite ≠ []))
  · intro s r taken start
    change readBody socket file content s = .stop r at taken
    unfold readBody at taken
    split at taken
    · rename_i nothing
      obtain rfl := Outcome.stop.inj taken
      refine ⟨s.1, start, ?_, ?_⟩
      · intro _
        exact piece_eq_nil.mp nothing
      · intro wrong
        cases wrong
    · rename_i more
      simp only at taken
      split at taken
      · cases taken
      · rename_i waiting
        obtain rfl := Outcome.stop.inj taken
        have inside : s.1 < content.length := Nat.lt_of_not_le fun le => more (piece_eq_nil.mpr le)
        refine ⟨_, step s.1 s.2 start inside, ?_, ?_⟩
        · intro wrong
          cases wrong
        · intro _
          exact waiting
  · intro s t taken ih start
    change readBody socket file content s = .again t at taken
    unfold readBody at taken
    split at taken
    · cases taken
    · rename_i more
      simp only at taken
      split at taken
      · obtain rfl := Outcome.again.inj taken
        have inside : s.1 < content.length := Nat.lt_of_not_le fun le => more (piece_eq_nil.mpr le)
        exact ih (step s.1 s.2 start inside)
      · cases taken

def readOn (c : Client ι) : Client ι × Bool :=
  match c.readCache with
  | none => (c, false)
  | some r =>
    if c.dataToWrite = [] then (readLoop socket r.file (disk r.file)).run (r.pos, c)
    else (c, false)

theorem readOn_rule (P : ℕ → Client ι → Prop) {c : Client ι} {r : Reader ι}
    (reading : c.readCache = some r) (empty : c.dataToWrite = []) (start : P r.pos c)
    (step : ∀ pos d, P pos d → pos < (disk r.file).length →
      P (pos + (piece (disk r.file) pos).length) (d.readPiece socket r.file (disk r.file) pos)) :
    ∃ pos, P pos (c.readOn socket disk).1 ∧
      ((c.readOn socket disk).2 = true → (disk r.file).length ≤ pos) ∧
      ((c.readOn socket disk).2 = false → (c.readOn socket disk).1.dataToWrite ≠ []) := by
  have looped : c.readOn socket disk = (readLoop socket r.file (disk r.file)).run (r.pos, c) := by
    simp only [readOn, reading, empty, if_true]
  rw [looped]
  exact readLoop_rule socket r.file (disk r.file) P step (r.pos, c) start

theorem readOn_idle {c : Client ι} (idle : c.readCache = none ∨ c.dataToWrite ≠ []) :
    c.readOn socket disk = (c, false) := by
  rcases idle with none | waiting
  · simp only [readOn, none]
  · unfold readOn
    split
    · rfl
    · simp only [waiting, if_false]

section Reading

variable {socket} {disk} {c : Client ι}

theorem readOn_invariant (P : Client ι → Prop) (start : P c)
    (step : ∀ file pos d, P d → d.readCache = some ⟨file, pos⟩ → pos < (disk file).length →
      P (d.readPiece socket file (disk file) pos)) : P (c.readOn socket disk).1 := by
  by_cases idle : c.readCache = none ∨ c.dataToWrite ≠ []
  · rw [readOn_idle socket disk idle]
    exact start
  · obtain ⟨present, empty⟩ := not_or.mp idle
    obtain ⟨r, reading⟩ := Option.ne_none_iff_exists'.mp present
    obtain ⟨_, ⟨kept, -⟩, -⟩ := readOn_rule socket disk
      (fun pos d => P d ∧ d.readCache = some ⟨r.file, pos⟩) reading (not_not.mp empty)
      ⟨start, reading⟩
      (by
        rintro pos d ⟨before, reading⟩ inside
        refine ⟨step r.file pos d before reading inside, ?_⟩
        simp [readPiece])
    exact kept

theorem readOn_isPartial : (c.readOn socket disk).1.isPartial = c.isPartial := by
  apply readOn_invariant (fun d => d.isPartial = c.isPartial) rfl
  intro file pos d before _ _
  simpa [readPiece] using before

theorem readOn_end (ended : (c.readOn socket disk).2 = true) : c.readCache.isSome = true := by
  by_contra none
  rw [readOn_idle socket disk (.inl (by simpa using none))] at ended
  cases ended

def unread (disk : ι → Bytes) (c : Client ι) : Bytes :=
  match c.readCache with
  | none => []
  | some r => (disk r.file).drop r.pos

theorem readOn_at_end (nothing : c.unread disk = []) : (c.readOn socket disk).1 = c := by
  by_cases idle : c.readCache = none ∨ c.dataToWrite ≠ []
  · rw [readOn_idle socket disk idle]
  · obtain ⟨present, empty⟩ := not_or.mp idle
    obtain ⟨r, reading⟩ := Option.ne_none_iff_exists'.mp present
    have done : piece (disk r.file) r.pos = [] := by
      simp only [unread, reading] at nothing
      rw [piece, nothing, List.take_nil]
    have stopped : (readLoop socket r.file (disk r.file)).body (r.pos, c) = .stop (c, true) := by
      simp [readLoop, readBody, done]
    simp only [readOn, reading, not_not.mp empty, if_true]
    rw [Loop.run_stop _ stopped]

end Reading

/-- `writeEnd` of a client that does not read a growing file. -/
def finish (c : Client ι) : Client ι :=
  if c.outputWrited then c.disconnectFromHttp.sendEnd socket else c.disconnectFromHttp

def continueRead (c : Client ι) : Client ι :=
  let r := c.readOn socket disk
  if r.2 then
    if r.1.isPartial then { r.1 with partialEndOfFileTrigged := true }
    else (r.1.finish socket).disconnect
  else r.1

/-- Both branches of the source read on. -/
def tryResumeReadAfterEndOfFile (c : Client ι) : Client ι := c.continueRead socket disk

def writeEnd (c : Client ι) : Client ι :=
  let c := c.disconnectFromHttp
  if c.outputWrited then
    if c.isPartial && c.readCache.isSome then (c.continueRead socket disk).sendEnd socket
    else c.sendEnd socket
  else c

/-- `continueRead` may stand for its `writeEnd` by the branch it takes. -/
theorem writeEnd_eq_finish (c : Client ι) (whole : c.isPartial = false) :
    c.writeEnd socket disk = c.finish socket := by
  simp [writeEnd, finish, disconnectFromHttp, whole]

/-- `errno` is not reset here, a buffer written at once is not erased, and an
erasure by -1 bytes is one of all. -/
def readyToWrite (c : Client ι) : Client ι :=
  if c.dataToWrite = [] then c.continueRead socket disk
  else
    let m := socket c.asked
    let data := c.dataToWrite
    let c := c.ask socket data
    match m.errno m.left with
    | some (.other _) => c.disconnect
    | _ =>
      if m.writedSize data.length = data.length then c
      else
        let rest := if m.writedSize data.length < 0 then []
          else data.drop (m.writedSize data.length).toNat
        if c.endTriggered then
          { c with dataToWrite := rest, endTriggered := false, readCache := none }.disconnect
        else { c with dataToWrite := rest }

def answer (text : Bytes) (c : Client ι) : Client ι :=
  ((c.writeOutput socket text).writeEnd socket disk).disconnect

end Client

def plainHead : Bytes := ascii "X-Robots-Tag: noindex, nofollow\r\nContent-type: text/plain\r\n\r\n"

def errorHead : Bytes := ascii "Status: 500 Internal Server Error\r\n" ++ plainHead

inductive Page
  | dnsError
  | dnsWrong
  | cacheError
  /-- "Unable to read cache", with the number in brackets. -/
  | unreadable (place : UInt8)
  | unseekable
  | noContent
  | httpError (errorString : Bytes)
  | antiLoop
  | robots
  | favicon
  | badUsage
  | overloaded
  | notModified
  | statistics (report : Bytes)
  deriving DecidableEq, Repr

namespace Page

def text : Page → Bytes
  | dnsError => errorHead ++ ascii "Dns Error"
  | dnsWrong =>
    ascii "Status: 403 Forbidden\r\n" ++ plainHead ++
      ascii "This site DNS (AAAA entry) is not into Confiared IPv6 range"
  | cacheError => errorHead ++ ascii "Cache file error"
  | unreadable place => errorHead ++ ascii "Unable to read cache (" ++ place :: ascii ")"
  | unseekable => errorHead ++ ascii "Unable to seek"
  | noContent => errorHead ++ ascii "Unable to seek to content"
  | httpError errorString => errorHead ++ ascii "Error: " ++ errorString
  | antiLoop => plainHead ++ ascii "Anti loop protection"
  | robots => plainHead ++ ascii "User-agent: *\r\nDisallow: /"
  | favicon => plainHead ++ ascii "Dropped for now"
  | badUsage => plainHead ++ ascii "CDN bad usage: contact@confiared.com"
  | overloaded => errorHead ++ ascii "Overloaded CDN Dns"
  | notModified => ascii "Status: 304 Not Modified\r\n\r\n"
  | statistics report => plainHead ++ ascii "Current time: " ++ report

def idles : Page → Bool
  | dnsError | dnsWrong | cacheError | unreadable _ | unseekable | noContent => true
  | _ => false

end Page

inductive Opening (ι : Type)
  | refused
  | unseekable
  /-- With the number of the three seeks to the content that succeed. A file that
  holds no length of its ETag has nothing to read. -/
  | opened (file : ι) (seeks : ℕ)
  deriving DecidableEq, Repr

namespace Client

variable {ι : Type} (socket : Schedule) (disk : ι → Bytes)

def page (p : Page) (c : Client ι) : Client ι :=
  { c with status := if p.idles then .idle else c.status }.answer socket disk p.text

def httpError (errorString : Bytes) (c : Client ι) : Client ι :=
  c.page socket disk (.httpError errorString)

/-- `startRead()`, with the number of its two seeks that succeed. -/
def startReadCache (seeks : ℕ) (c : Client ι) : Client ι :=
  match seeks with
  | 0 => c.page socket disk (.unreadable 49)
  | 1 => c
  | _ => c.continueRead socket disk

/-- The handle of a file after its seeks. -/
def opening (file : ι) (seeks needed : ℕ) (c : Client ι) : Client ι :=
  { c with readCache := some ⟨file, if seeks < needed then (disk file).length else 0⟩ }

def startRead (o : Opening ι) (isPartial : Bool) (c : Client ι) : Client ι :=
  let c := { c with isPartial := isPartial }
  match o with
  | .refused => c.page socket disk (.unreadable 50)
  | .unseekable => c.page socket disk .unseekable
  | .opened file 0 => (c.opening disk file 0 3).page socket disk .noContent
  | .opened file (seeks + 1) => (c.opening disk file (seeks + 1) 3).startReadCache socket disk seeks

/-- `loadUrl` and `dnsRight` with a cache file that is still fresh. -/
def startCached (file : ι) (seeks : ℕ) (c : Client ι) : Client ι :=
  ({ c with isPartial := false, status := .waitTheContent }.opening disk file seeks 2).startReadCache
    socket disk seeks

end Client

end FastCgiCdn.ClientOutput
