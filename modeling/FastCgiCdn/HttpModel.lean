import FastCgiCdn.Common
import FastCgiCdn.MeasuredLoop

/-! The download object of Http.cpp as the bytes of a response reach it: the
head parser of `readyToRead`, the body decoder of `write`, and what ending a
download does to the object and to its cache file. The receive buffer is shared
by all downloads, so whatever lies behind the bytes of a read is arbitrary, and
so is what the file system answers. Positions of the head parser are `uint16_t`.
Time stamps, standard error and the `DEBUGFASTCGI` checks are left out. -/

namespace FastCgiCdn.HttpModel

open MeasuredLoop

inductive Parsing
  | none
  | headerVar
  | headerVal
  | contentLength
  | contentType
  | etag
  | content
  deriving DecidableEq, Repr

/-- The temporary cache file. The disk decides how much of each write it stores,
and the result of a write is never looked at after the header. -/
structure Cache where
  isOpen : Bool
  /-- Size of the fixed fields and of the backend ETag in front of the content. -/
  contentPos : ℕ
  disk : ℕ → ℕ
  writes : List Bytes

namespace Cache

def write (data : Bytes) (c : Cache) : Cache := { c with writes := c.writes ++ [data] }

/-- The bytes handed to `Cache::write`. -/
def asked (c : Cache) : Bytes := c.writes.flatten

/-- The bytes stored behind the content position. -/
def content (c : Cache) : Bytes := (c.writes.mapIdx fun i data => data.take (c.disk i)).flatten

def size (c : Cache) : ℕ := c.contentPos + c.content.length

/-- A file that is closed already has size -1. -/
def corrupted (c : Cache) : Bool := !c.isOpen || c.size < 25

def close (c : Cache) : Cache := { c with isOpen := false }

end Cache

/-- The part of a backend that a download looks at. -/
structure Backend where
  wasTCPConnected : Bool
  deriving DecidableEq, Repr

abbrev ClientId := ℕ

structure Http where
  cachePath : Bytes
  host : Bytes
  uri : Bytes
  clientsList : List ClientId
  tempCache : Option Cache
  finalCache : Bool
  contenttype : Bytes
  contentsize : ℤ
  contentwritten : ℤ
  headerBuff : Bytes
  http_code : ℕ
  parsing : Parsing
  etagBackend : Bytes
  requestSended : Bool
  headerWriten : Bool
  endDetected : Bool
  backend : Option Backend
  chunkLength : ℤ
  chunkHeader : Bytes
  /-- The backend given back through `downloadFinished`. -/
  finished : Option Backend
  /-- The renames of `cachePath.tmp` to `cachePath`, with the file. -/
  renamed : List (Bytes × Cache)
  aborted : Bool

/-- A stretch of received bytes and the byte that lies behind it. -/
structure Piece where
  data : Bytes
  behind : Byte
  deriving DecidableEq, Repr

namespace Piece

variable (p : Piece)

def size : ℕ := p.data.length

def byte (pos : ℕ) : Byte := p.data.getD pos p.behind

def slice (start stop : ℕ) : Bytes := (p.data.take stop).drop start

/-- Past the CR, CR LF or LF at a position. -/
def skipEnd (pos : ℕ) : ℕ :=
  if p.byte pos = CR then if p.byte (pos + 1) = LF then pos + 2 else pos + 1 else pos + 1

end Piece

namespace Http

def new (cachefd : Bool) (cachePath : Bytes) : Http where
  cachePath := cachePath
  host := []
  uri := []
  clientsList := []
  tempCache := none
  finalCache := cachefd
  contenttype := []
  contentsize := -1
  contentwritten := 0
  headerBuff := []
  http_code := 0
  parsing := .none
  etagBackend := []
  requestSended := false
  headerWriten := false
  endDetected := false
  backend := none
  chunkLength := -1
  chunkHeader := []
  finished := none
  renamed := []
  aborted := false

def isAlive (h : Http) : Bool := !h.host.isEmpty && !h.uri.isEmpty

def haveUrlAndFrontendConnected (h : Http) : Bool :=
  !h.host.isEmpty && !h.uri.isEmpty && !h.clientsList.isEmpty

def disconnectFrontend (h : Http) : Http :=
  { h with clientsList := [], headerBuff := [], contenttype := [] }

def backendError (h : Http) : Http := { h with clientsList := [], cachePath := [] }

def resetRequestSended (h : Http) : Http :=
  if h.http_code ≠ 0 then h
  else { h with
    contentsize := -1, contentwritten := 0, parsing := .none, requestSended := false
    chunkLength := -1 }

/-- A name emptied by `backendError` leads to no file. -/
def savable (h : Http) (c : Cache) : Bool :=
  !c.corrupted && !h.cachePath.isEmpty && c.size < 100000000 && 25 < c.size

/-- The cache file is closed and renamed into place, whatever it holds. -/
def commit (h : Http) : Http :=
  { h with
    tempCache := h.tempCache.map Cache.close
    renamed := h.renamed ++ (h.tempCache.filter h.savable).toList.map (h.cachePath, ·)
    aborted := h.aborted || h.tempCache.any Cache.corrupted }

/-- A backend that never had an answer makes `downloadFinished` report an error
to the clients. -/
def release (h : Http) : Http :=
  { h with
    clientsList := if h.backend.all Backend.wasTCPConnected then h.clientsList else []
    finished := h.backend.or h.finished
    backend := none }

def disconnectBackend (h : Http) : Http :=
  { h.commit.release with
    cachePath := [], host := [], uri := [], etagBackend := []
    requestSended := false, endDetected := false }

def store (data : Bytes) (h : Http) : Http :=
  { h with tempCache := h.tempCache.map (Cache.write data) }

/-- What every end of a body does. -/
def endDownload (h : Http) : Http :=
  { h.disconnectFrontend.disconnectBackend with endDetected := true }

theorem endDownload_asked (h : Http) :
    h.endDownload.tempCache.map Cache.asked = h.tempCache.map Cache.asked := by
  change (h.tempCache.map Cache.close).map Cache.asked = _
  rw [Option.map_map]
  rfl

/-- A complete size line stands between two positions. What an earlier piece
left of one is never forgotten, and the bytes added to it start at the piece. -/
def readSize (p : Piece) (pos2 pos : ℕ) (h : Http) : Http :=
  if h.chunkHeader = [] then
    { h with chunkLength := Common.toInt64 (Common.hexaTo64Bits (p.slice pos2 pos)) }
  else
    { h with
      chunkHeader := h.chunkHeader ++ p.data.take (pos - 1)
      chunkLength := Common.toInt64 (Common.hexaTo64Bits (h.chunkHeader ++ p.data.take (pos - 1))) }

structure Scan where
  http : Http
  pos : ℕ
  pos2 : ℕ

def sizeLineBody (p : Piece) (s : Scan) : Outcome Scan Scan :=
  if s.pos < p.size then
    if p.byte s.pos = LF ∨ p.byte s.pos = CR then
      if s.pos2 = s.pos then
        .again { s with pos := p.skipEnd s.pos, pos2 := p.skipEnd s.pos }
      else
        .stop ⟨s.http.readSize p s.pos2 s.pos, p.skipEnd s.pos, p.skipEnd s.pos⟩
    else .again { s with pos := s.pos + 1 }
  else .stop s

theorem lt_skipEnd (p : Piece) (pos : ℕ) : pos < p.skipEnd pos := by
  unfold Piece.skipEnd
  split
  · split <;> omega
  · omega

/-- The inner loop of `write`: it stops behind a complete size line or at the
end of the piece. -/
def sizeLine (p : Piece) : Loop Scan Scan where
  body := sizeLineBody p
  measure s := p.size - s.pos
  decreases s t taken := by
    have skipped := lt_skipEnd p s.pos
    unfold sizeLineBody at taken
    split at taken
    · split at taken
      · split at taken
        · obtain rfl := Outcome.again.inj taken
          simp only
          omega
        · cases taken
      · obtain rfl := Outcome.again.inj taken
        simp only
        omega
    · cases taken

/-- The data of a chunk, as far as the piece goes. The length is dropped in
either case. -/
def takeChunk (p : Piece) (s : Scan) : Scan :=
  if (p.size - s.pos : ℕ) < s.http.chunkLength then
    { http := { s.http.store (p.slice s.pos p.size) with
        contentwritten := s.http.contentwritten + p.size, chunkLength := -1 }
      pos := p.size, pos2 := p.size }
  else
    { http := { s.http.store (p.slice s.pos (s.pos + s.http.chunkLength.toNat)) with
        contentwritten := s.http.contentwritten + s.http.chunkLength, chunkLength := -1 }
      pos := s.pos + s.http.chunkLength.toNat, pos2 := s.pos + s.http.chunkLength.toNat }

/-- A size line that the piece breaks off is kept, unless one is kept already. -/
def keepHeader (p : Piece) (s : Scan) : Scan :=
  if p.size ≤ s.pos ∧ s.http.chunkLength < 0 ∧ s.pos2 < s.pos then
    if s.http.chunkHeader = [] then
      { s with http := { s.http with chunkHeader := p.slice s.pos2 p.size } }
    else s
  else s

def chunksBody (p : Piece) (s : Scan) : Outcome Scan Http :=
  if s.pos < p.size then
    if 0 < s.http.chunkLength then .again (takeChunk p s)
    else if ((sizeLine p).run s).http.chunkLength = 0 then
      .stop ((sizeLine p).run s).http.endDownload
    else .again (keepHeader p ((sizeLine p).run s))
  else .stop s.http

theorem sizeLine_body (p : Piece) (s : Scan) : (sizeLine p).body s = sizeLineBody p s := rfl

theorem sizeLine_advances (p : Piece) {s t : Scan}
    (taken : (sizeLine p).body s = .again t ∨ ((sizeLine p).body s = .stop t ∧ s.pos < p.size)) :
    s.pos < t.pos := by
  have skipped := lt_skipEnd p s.pos
  rcases taken with taken | ⟨taken, inside⟩
  · have falls := (sizeLine p).decreases s t taken
    simp only [sizeLine] at falls
    omega
  · change sizeLineBody p s = _ at taken
    unfold sizeLineBody at taken
    rw [if_pos inside] at taken
    split at taken
    · split at taken
      · cases taken
      · obtain rfl := Outcome.stop.inj taken
        exact skipped
    · cases taken

theorem le_sizeLine_pos (p : Piece) (s : Scan) : s.pos ≤ ((sizeLine p).run s).pos := by
  apply (sizeLine p).run_induct (P := fun s t => s.pos ≤ t.pos)
  · intro s t taken
    by_cases inside : s.pos < p.size
    · exact Nat.le_of_lt (sizeLine_advances p (.inr ⟨taken, inside⟩))
    · rw [sizeLine_body, sizeLineBody, if_neg inside] at taken
      rw [Outcome.stop.inj taken]
  · intro s t taken later
    exact Nat.le_trans (Nat.le_of_lt (sizeLine_advances p (.inl taken))) later

theorem lt_sizeLine_pos (p : Piece) (s : Scan) (inside : s.pos < p.size) :
    s.pos < ((sizeLine p).run s).pos := by
  cases taken : (sizeLine p).body s with
  | again t =>
    rw [(sizeLine p).run_again taken]
    exact Nat.lt_of_lt_of_le (sizeLine_advances p (.inl taken)) (le_sizeLine_pos p t)
  | stop t =>
    rw [(sizeLine p).run_stop taken]
    exact sizeLine_advances p (.inr ⟨taken, inside⟩)

@[simp] theorem keepHeader_pos (p : Piece) (s : Scan) : (keepHeader p s).pos = s.pos := by
  unfold keepHeader
  split
  · split <;> rfl
  · rfl

def chunks (p : Piece) : Loop Scan Http where
  body := chunksBody p
  measure s := p.size - s.pos
  decreases s t taken := by
    unfold chunksBody at taken
    split at taken
    · rename_i inside
      split at taken
      · rename_i chunk
        obtain rfl := Outcome.again.inj taken
        unfold takeChunk
        split <;> simp only <;> omega
      · split at taken
        · cases taken
        · obtain rfl := Outcome.again.inj taken
          have moved := lt_sizeLine_pos p s inside
          rw [keepHeader_pos]
          omega
    · cases taken

theorem chunks_body (p : Piece) (s : Scan) : (chunks p).body s = chunksBody p s := rfl

theorem sizeLine_rule (p : Piece) {P : Scan → Scan → Prop}
    (outside : ∀ s, ¬s.pos < p.size → P s s)
    (complete : ∀ s, s.pos < p.size → p.byte s.pos = LF ∨ p.byte s.pos = CR → s.pos2 ≠ s.pos →
      P s ⟨s.http.readSize p s.pos2 s.pos, p.skipEnd s.pos, p.skipEnd s.pos⟩)
    (blank : ∀ s t, s.pos < p.size → p.byte s.pos = LF ∨ p.byte s.pos = CR → s.pos2 = s.pos →
      P { s with pos := p.skipEnd s.pos, pos2 := p.skipEnd s.pos } t → P s t)
    (char : ∀ s t, s.pos < p.size → ¬(p.byte s.pos = LF ∨ p.byte s.pos = CR) →
      P { s with pos := s.pos + 1 } t → P s t) (s : Scan) : P s ((sizeLine p).run s) := by
  apply (sizeLine p).run_induct
  case stops =>
    intro s t taken
    rw [sizeLine_body, sizeLineBody] at taken
    split at taken
    · rename_i inside
      split at taken
      · rename_i lineEnd
        split at taken
        · cases taken
        · rename_i apart
          obtain rfl := Outcome.stop.inj taken
          exact complete s inside lineEnd apart
      · cases taken
    · rename_i behind
      obtain rfl := Outcome.stop.inj taken
      exact outside s behind
  case goes =>
    intro s t taken later
    rw [sizeLine_body, sizeLineBody] at taken
    split at taken
    · rename_i inside
      split at taken
      · rename_i lineEnd
        split at taken
        · rename_i together
          obtain rfl := Outcome.again.inj taken
          exact blank s _ inside lineEnd together later
        · cases taken
      · rename_i plain
        obtain rfl := Outcome.again.inj taken
        exact char s _ inside plain later
    · cases taken

theorem chunks_rule (p : Piece) {P : Scan → Http → Prop}
    (outside : ∀ s, ¬s.pos < p.size → P s s.http)
    (last : ∀ s, s.pos < p.size → ((sizeLine p).run s).http.chunkLength = 0 →
      P s ((sizeLine p).run s).http.endDownload)
    (chunk : ∀ s r, s.pos < p.size → 0 < s.http.chunkLength → P (takeChunk p s) r → P s r)
    (line : ∀ s r, s.pos < p.size → ((sizeLine p).run s).http.chunkLength ≠ 0 →
      P (keepHeader p ((sizeLine p).run s)) r → P s r) (s : Scan) : P s ((chunks p).run s) := by
  apply (chunks p).run_induct
  case stops =>
    intro s r taken
    rw [chunks_body, chunksBody] at taken
    split at taken
    · rename_i inside
      split at taken
      · cases taken
      · split at taken
        · rename_i zero
          obtain rfl := Outcome.stop.inj taken
          exact last s inside zero
        · cases taken
    · rename_i behind
      obtain rfl := Outcome.stop.inj taken
      exact outside s behind
  case goes =>
    intro s t taken later
    rw [chunks_body, chunksBody] at taken
    split at taken
    · rename_i inside
      split at taken
      · rename_i positive
        obtain rfl := Outcome.again.inj taken
        exact chunk s _ inside positive later
      · split at taken
        · cases taken
        · rename_i nonzero
          obtain rfl := Outcome.again.inj taken
          exact line s _ inside nonzero later
    · cases taken

/-- Everything received is stored and counted, also what exceeds the declared
length. -/
def count (p : Piece) (h : Http) : Http :=
  { h.store p.data with contentwritten := h.contentwritten + p.size }

def writeSized (p : Piece) (h : Http) : Http :=
  if h.contentsize ≤ h.contentwritten + p.size then (h.count p).endDownload else h.count p

/-- The object after `write` and the value it returns. -/
def write (h : Http) (p : Piece) : Http × ℤ :=
  if h.endDetected then (h, -1)
  else match h.tempCache with
    | none => (h, p.size)
    | some _ =>
      if 0 ≤ h.contentsize then (h.writeSized p, p.size)
      else if h.http_code ≠ 0 then ((chunks p).run ⟨h, 0, 0⟩, p.size)
      else (h, p.size)

end Http

end FastCgiCdn.HttpModel
