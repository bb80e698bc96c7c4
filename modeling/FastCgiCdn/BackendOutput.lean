import FastCgiCdn.BackendRequest
import FastCgiCdn.GuardedRuns

/-! The output buffer of a connection to a backend. `socketWrite` loses what a
failed write was given, the flush erases as many bytes as it has not sent, and an
`EPOLLOUT` event never reaches the flush. -/

namespace FastCgiCdn.BackendOutput

open HttpModel (Http)
open BackendRequest (sendRequest)
open GuardedRuns

structure Call where
  ssl : Bool
  offered : Bytes
  result : ℤ

def Call.accepted (c : Call) : Bytes := c.offered.take c.result.toNat

structure Backend where
  fd : Option ℕ
  https : Bool
  ssl : Bool
  bufferSocket : Bytes
  http : Option Http
  calls : List Call
  /-- The data of all calls of `socketWrite`. -/
  passed : Bytes

inductive Handshake
  /-- There is no context or no `ssl`, and the connection is left as it is. -/
  | unavailable
  | connected
  | refused

namespace Backend

variable (b : Backend)

def new (fd : ℕ) (https : Bool) : Backend := ⟨some fd, https, false, [], none, [], []⟩

def accepted : Bytes := b.calls.flatMap Call.accepted

def call (ssl : Bool) (offered : Bytes) (result : ℤ) : Backend :=
  { b with calls := b.calls ++ [⟨ssl, offered, result⟩] }

def pass (data : Bytes) : Backend := { b with passed := b.passed ++ data }

/-- `socketWrite` of an open connection with an empty buffer. -/
def direct (data : Bytes) (result : ℤ) : Bool × Backend :=
  if b.ssl && result ≤ 0 then (false, b.call true data result)
  else if 0 ≤ result then
    if result < data.length then
      (true, { b.call b.ssl data result with
        bufferSocket := b.bufferSocket ++ data.drop result.toNat })
    else (true, b.call b.ssl data result)
  else (false, b.call b.ssl data result)

def socketWrite (data : Bytes) (result : ℤ) : Bool × Backend :=
  if b.fd = none then (false, b.pass data)
  else if b.bufferSocket ≠ [] then
    (true, { b.pass data with bufferSocket := b.bufferSocket ++ data })
  else (b.pass data).direct data result

/-- A plain `::write`, over TLS as well. -/
def readyToWrite (result : ℤ) : Backend :=
  if b.bufferSocket = [] then b
  else if 0 ≤ result then
    if result < b.bufferSocket.length then
      { b.call false b.bufferSocket result with
        bufferSocket := b.bufferSocket.drop (b.bufferSocket.length - result.toNat) }
    else { b.call false b.bufferSocket result with bufferSocket := [] }
  else b.call false b.bufferSocket result

def startHttps (outcome : Handshake) : Backend :=
  if b.ssl then b
  else match outcome with
    | .unavailable => b
    | .connected => { b with ssl := true }
    | .refused => { b with fd := none }

def httpReadyToWrite (result : ℤ) : Backend :=
  match b.http with
  | none => b
  | some h =>
    if h.requestSended then b
    else
      let b := { b with http := some { h with requestSended := true } }
      if h.backend.isNone || b.fd.isNone then b
      else (b.socketWrite (sendRequest h) result).2

/-- What `parseEvent` does before the download is asked to write. -/
def secured (outcome : Handshake) : Backend :=
  if !b.ssl && b.https then b.startHttps outcome else b

def parseEvent (outcome : Handshake) (result : ℤ) : Backend :=
  (b.secured outcome).httpReadyToWrite result

def close : Backend := { b with fd := none, ssl := false }

end Backend

inductive Event
  | socketWrite (data : Bytes) (result : ℤ)
  | readyToWrite (result : ℤ)
  | EPOLLOUT (outcome : Handshake) (result : ℤ)
  /-- The connection gets a download, or gives its own back. -/
  | attach (http : Option Http)
  | close

def perform : Event → Backend → Backend
  | .socketWrite data result, b => (b.socketWrite data result).2
  | .readyToWrite result, b => b.readyToWrite result
  | .EPOLLOUT outcome result, b => b.parseEvent outcome result
  | .attach http, b => { b with http := http }
  | .close, b => b.close

/-- The result is a count of at most the bytes offered, or below 0. A closed
socket takes nothing, and has no events. -/
def Possible : Event → Backend → Prop
  | .socketWrite data result, _ => result ≤ data.length
  | .readyToWrite result, b => result ≤ b.bufferSocket.length ∧ (b.fd = none → result < 0)
  | .EPOLLOUT _ result, b =>
    b.fd ≠ none ∧ ∀ h, b.http = some h → result ≤ (sendRequest h).length
  | _, _ => True

def Step (e : Event) (b b' : Backend) : Prop := Possible e b ∧ perform e b = b'

/-- What the socket has accepted and what is buffered is what was passed on. -/
def Exact (b : Backend) : Prop := b.accepted ++ b.bufferSocket = b.passed

instance (b : Backend) : Decidable (Exact b) := inferInstanceAs (Decidable (_ = _))

/-- A call of the event offers the buffer to the socket. -/
def Resumes (b b' : Backend) : Prop :=
  ∃ c ∈ b'.calls.drop b.calls.length, b.bufferSocket <+: c.offered

def Takes (b : Backend) (result : ℤ) : Prop :=
  b.fd ≠ none ∧ (b.bufferSocket ≠ [] ∨ 0 < result ∨ (b.ssl = false ∧ result = 0))

def WriteKeeps (b : Backend) (data : Bytes) (result : ℤ) : Prop := data = [] ∨ Takes b result

def FlushKeeps (b : Backend) (result : ℤ) : Prop :=
  b.bufferSocket = [] ∨ result < 0 ∨ result = b.bufferSocket.length ∨
    2 * result = b.bufferSocket.length

/-- The request that the download still has to send is kept. -/
def RequestKeeps (b : Backend) (result : ℤ) : Prop :=
  ∀ h, b.http = some h → h.requestSended = false → h.backend.isSome → b.fd ≠ none →
    WriteKeeps b (sendRequest h) result

def Keeps : Event → Backend → Prop
  | .socketWrite data result, b => WriteKeeps b data result
  | .readyToWrite result, b => FlushKeeps b result
  | .EPOLLOUT outcome result, b =>
    (b.bufferSocket = [] ∨ (b.secured outcome).fd = none) ∧
      RequestKeeps (b.secured outcome) result
  | _, _ => True

variable {b b' : Backend} {data : Bytes} {result : ℤ} {outcome : Handshake}

end FastCgiCdn.BackendOutput
