import FastCgiCdn.GuardedRuns
import FastCgiCdn.ResponseReading

/-! One download over its life: connections are given to it and closed under it,
its request is sent and sent again, and timeouts end it. Each time the request
is sent the server starts a response or any other string of bytes, and any part
of it may arrive. -/

namespace FastCgiCdn.DownloadModel

open HttpModel HeadReading ResponseReading ChunkDecoder

inductive Served
  | response (r : Response)
  | other (bytes : Bytes)

def Served.bytes : Served → Bytes
  | .response r => r.bytes
  | .other bytes => bytes

structure Download where
  http : Http
  queued : Bool
  /-- The socket of its backend is open. -/
  isValid : Bool
  /-- What its requests were answered with, the last one first. -/
  served : List Served
  seen : List Bytes

inductive Event
  | clients (left : List ClientId)
  /-- `downloadFinished` of another download gives the queued one a backend. -/
  | serve (b : Backend) (answer : Served)
  | readyToRead (env : Surroundings) (fuel : ℕ) (reads : List Read)
  /-- With the backend that the download is moved to, unless it cannot be
  connected. -/
  | remoteSocketClosed (next : Option (Backend × Served))
  | httpTimeout
  | backendTimeout
  /-- The last connection of the address has failed: `backendError` for the whole
  queue, which `remoteSocketClosed` then empties and `downloadFinished` does not. -/
  | connectProblem (dismissed : Bool)
  /-- `loadUrl` or `dnsRight` finds the download registered but not alive. -/
  | notAlive
  | deleted

namespace Download

variable (d : Download)

/-- A backend is given to the download, and `readyToWrite` sends the request if
it has not been sent. -/
def connect (b : Backend) (answer : Served) : Download :=
  if d.http.requestSended then
    { d with http := { d.http with backend := some b }, queued := false, isValid := true }
  else
    { http := { d.http with backend := some b, requestSended := true }
      queued := false
      isValid := true
      served := answer :: d.served
      seen := [] }

/-- What `socketRead` can return to the download. -/
def Offers (reads : List Read) : Prop :=
  d.http.backend.isSome ∧ d.isValid ∧ (∀ r ∈ reads, r.data ≠ []) ∧
    d.seen.flatten ++ reads.flatMap Read.data <+: (d.served.head?.map Served.bytes).getD []

instance (reads : List Read) : Decidable (d.Offers reads) :=
  inferInstanceAs (Decidable (_ ∧ _ ∧ _ ∧ _))

def read (env : Surroundings) (fuel : ℕ) (reads : List Read) : Option Download :=
  if d.Offers reads then
    (d.http.readyToRead env fuel reads).map fun p => { d with
      http := p.http
      seen := d.seen ++ (reads.take (reads.length - p.unread.length)).map Read.data }
  else none

def remoteSocketClosed (b : Backend) (next : Option (Backend × Served)) : Download :=
  if b.wasTCPConnected then
    let sendsAgain := { d with http := { d.http.resetRequestSended with requestSended := false } }
    match next with
    | some (b', answer) => sendsAgain.connect b' answer
    | none => { sendsAgain with isValid := false }
  else { d with http := { d.http.resetRequestSended with backend := none }, isValid := false }

/-- `Http::disconnectBackend`, which also takes the download out of its queue. -/
def disconnectBackend (h : Http) : Download := { d with http := h.disconnectBackend, queued := false }

def httpTimeout : Download :=
  if d.http.backend.isSome then { d with http := d.http.disconnectFrontend, isValid := false }
  else d.disconnectBackend d.http.disconnectFrontend

def next : Event → Option Download
  | .clients left => some { d with http := { d.http with clientsList := left } }
  | .serve b answer =>
    if d.queued && d.http.haveUrlAndFrontendConnected then some (d.connect b answer) else none
  | .readyToRead env fuel reads => d.read env fuel reads
  | .remoteSocketClosed next => d.http.backend.map (d.remoteSocketClosed · next)
  | .httpTimeout => some d.httpTimeout
  | .backendTimeout =>
    d.http.backend.map fun _ => d.disconnectBackend d.http.backendError.disconnectFrontend
  | .connectProblem dismissed =>
    if d.queued then
      some (if dismissed then d.disconnectBackend d.http.backendError.disconnectFrontend
        else { d with http := d.http.backendError.disconnectFrontend })
    else none
  | .notAlive =>
    if d.http.isAlive then none else some (d.disconnectBackend d.http.disconnectFrontend)
  | .deleted => some (d.disconnectBackend { d.http with tempCache := none }.disconnectFrontend)

def Step (e : Event) (d d' : Download) : Prop := d.next e = some d'

section Inversion

variable {d d' : Download}

theorem next_serve {b : Backend} {answer : Served} (step : d.next (.serve b answer) = some d') :
    (d.queued && d.http.haveUrlAndFrontendConnected) = true ∧ d' = d.connect b answer := by
  simp only [next] at step
  split at step
  case isTrue waits => exact ⟨waits, (Option.some.inj step).symm⟩
  case isFalse => cases step

theorem next_readyToRead {env : Surroundings} {fuel : ℕ} {reads : List Read}
    (step : d.next (.readyToRead env fuel reads) = some d') :
    d.Offers reads ∧ ∃ p, d.http.readyToRead env fuel reads = some p ∧ d' = { d with
      http := p.http
      seen := d.seen ++ (reads.take (reads.length - p.unread.length)).map Read.data } := by
  simp only [next, read] at step
  split at step
  case isTrue offers =>
    obtain ⟨p, returned, rfl⟩ := Option.map_eq_some_iff.mp step
    exact ⟨offers, p, returned, rfl⟩
  case isFalse => cases step

theorem next_connectProblem {dismissed : Bool}
    (step : d.next (.connectProblem dismissed) = some d') : d.queued = true ∧
      d' = if dismissed then d.disconnectBackend d.http.backendError.disconnectFrontend
        else { d with http := d.http.backendError.disconnectFrontend } := by
  simp only [next] at step
  split at step
  case isTrue waits => exact ⟨waits, (Option.some.inj step).symm⟩
  case isFalse => cases step

theorem next_notAlive (step : d.next .notAlive = some d') :
    ¬d.http.isAlive = true ∧ d' = d.disconnectBackend d.http.disconnectFrontend := by
  simp only [next] at step
  split at step
  case isTrue => cases step
  case isFalse gone => exact ⟨gone, (Option.some.inj step).symm⟩

end Inversion

/-- A download as `dnsRight` makes it. -/
def created (cachefd : Bool) (cachePath host uri etag : Bytes) : Download where
  http := { Http.new cachefd cachePath with host := host, uri := uri, etagBackend := etag }
  queued := false
  isValid := false
  served := []
  seen := []

def Initial (d : Download) : Prop :=
  ∃ cachefd cachePath host uri etag, d = created cachefd cachePath host uri etag ∨
    d = { created cachefd cachePath host uri etag with queued := true } ∨
    ∃ b answer, d = (created cachefd cachePath host uri etag).connect b answer

end Download

/-- The data that a response announces. -/
def Data (r : Response) (payload : Bytes) : Prop :=
  if r.contentLength = none then Chunked r.body payload else payload = r.body

/-- The file holds the header generated for a response, then its whole body. -/
def Complete (c : Cache) (answer : Served) : Prop :=
  ∃ r payload env h, answer = .response r ∧ r.ok ∧ Data r payload ∧ h.contentsize = -1 ∧
    c.writes.head? = some (Http.header env (headed env h r.head)) ∧
    c.content = Http.header env (headed env h r.head) ++ payload

end FastCgiCdn.DownloadModel
