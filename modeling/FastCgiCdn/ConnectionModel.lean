import FastCgiCdn.GuardedRuns
import FastCgiCdn.ResponseReading

/-! One connection to a backend over its life: the download it belongs to, the
queue of its address, and what its server has sent and nobody has read. The
server answers the requests in their order with any responses; each byte on its
way carries the number of the request that it answers. The other connections of
the address show only as requests that come and go. -/

namespace FastCgiCdn.ConnectionModel

open HttpModel HeadReading ResponseReading

structure Connection where
  http : Option Http
  /-- The backend when no download has it. -/
  backend : Backend
  pending : List Http
  isValid : Bool
  sent : ℕ
  unread : List (ℕ × Byte)
  /-- The reads of the last request's download. -/
  seen : List Bytes
  /-- For each byte that `readyToRead` took, the request it was taken for and the
  request it answers. -/
  parsed : List (ℕ × ℕ)
  /-- What nobody had read each time the connection was made idle or given to
  the next request. -/
  handedOver : List (List (ℕ × Byte))

def tagged (k : ℕ) (bytes : Bytes) : List (ℕ × Byte) := bytes.map (k, ·)

inductive Event
  /-- A new request for the address, or one whose own connection was closed. -/
  | arrive (h : Http)
  | clients (left : List ClientId)
  | queuedClients (index : ℕ) (left : List ClientId)
  /-- A queued request times out, or another connection takes it. -/
  | leaves (index : ℕ)
  | readyToRead (env : Surroundings) (fuel : ℕ) (reads : List Read)
  /-- `Http::detectTimeout` of the download that has the connection. -/
  | httpTimeout
  | backendTimeout
  /-- `loadUrl` or `dnsRight` finds the download registered but not alive. -/
  | notAlive
  | closed

namespace Connection

variable (answer : ℕ → Response) (c : Connection)

def readyToWrite (h : Http) : Connection :=
  if h.requestSended then { c with http := some h }
  else { c with
    http := some { h with requestSended := true }
    sent := c.sent + 1
    unread := c.unread ++ tagged c.sent (answer c.sent).bytes
    seen := [] }

def attach (h : Http) : Connection := c.readyToWrite answer { h with backend := some c.backend }

def arrive (h : Http) : Option Connection :=
  match c.http with
  | some _ => some { c with pending := c.pending ++ [h] }
  | none => if c.isValid then some (c.attach answer h) else none

/-- What `downloadFinished` does with a connection that has had an answer. A
closed one is given to the next request all the same, but never made idle. -/
def serveNext : Connection :=
  match c.pending.dropWhile (!·.haveUrlAndFrontendConnected) with
  | h :: rest =>
    attach answer { c with pending := rest, handedOver := c.handedOver ++ [c.unread] } h
  | [] => { c with
    http := none
    pending := []
    handedOver := if c.isValid then c.handedOver ++ [c.unread] else c.handedOver }

/-- A connection that never had an answer is closed; its queue is left to the
other connections of the address. -/
def downloadFinished (b : Backend) : Connection :=
  if b.wasTCPConnected then serveNext answer { c with backend := b }
  else { c with http := none, backend := b, isValid := false }

/-- The download behind a call that may have given the connection back. -/
def settle (h : Http) : Connection :=
  if h.backend.isSome then { c with http := some h }
  else c.downloadFinished answer (h.finished.getD c.backend)

def consume (taken : List Read) : Connection :=
  let n := (taken.flatMap Read.data).length
  { c with
    unread := c.unread.drop n
    seen := c.seen ++ taken.map Read.data
    parsed := c.parsed ++ (c.unread.take n).map fun q => (c.sent - 1, q.1) }

/-- What `socketRead` can return on the connection. -/
def Offers (reads : List Read) : Prop :=
  c.isValid ∧ (∀ r ∈ reads, r.data ≠ []) ∧ reads.flatMap Read.data <+: c.unread.map Prod.snd

instance (reads : List Read) : Decidable (c.Offers reads) :=
  inferInstanceAs (Decidable (_ ∧ _ ∧ _))

/-- Without a download the backend itself reads everything away. -/
def read (env : Surroundings) (fuel : ℕ) (reads : List Read) : Option Connection :=
  if c.Offers reads then
    match c.http with
    | none => some { c with unread := c.unread.drop (reads.flatMap Read.data).length }
    | some h =>
      (h.readyToRead env fuel reads).map fun p =>
        (c.consume (reads.take (reads.length - p.unread.length))).settle answer p.http
  else none

def next : Event → Option Connection
  | .arrive h => c.arrive answer h
  | .clients left => some { c with http := c.http.map ({ · with clientsList := left }) }
  | .queuedClients index left =>
    some { c with pending := c.pending.modify index ({ · with clientsList := left }) }
  | .leaves index => some { c with pending := c.pending.eraseIdx index }
  | .readyToRead env fuel reads => c.read answer env fuel reads
  | .httpTimeout =>
    c.http.map fun h => { c with http := some h.disconnectFrontend, isValid := false }
  | .backendTimeout =>
    c.http.map fun h =>
      { c.settle answer h.backendError.disconnectFrontend.disconnectBackend with
        http := none, isValid := false }
  | .notAlive =>
    (c.http.filter (!·.isAlive)).map fun h =>
      c.settle answer h.disconnectFrontend.disconnectBackend
  | .closed => some { c with http := none, isValid := false }

def Step (answer : ℕ → Response) (e : Event) (c d : Connection) : Prop := c.next answer e = some d

def opened : Connection where
  http := none
  backend := ⟨false⟩
  pending := []
  isValid := true
  sent := 0
  unread := []
  seen := []
  parsed := []
  handedOver := []

end Connection

end FastCgiCdn.ConnectionModel
