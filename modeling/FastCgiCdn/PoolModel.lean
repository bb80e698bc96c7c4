import Mathlib.Logic.Function.Basic
import FastCgiCdn.DnsModel

/-! The connection pool of Backend.cpp with the parts of Http.cpp and Client.cpp
that edit it. Objects are named by their allocation number, which is never
reused; a record keeps its last contents after its object is deleted. A null
dereference, an `abort()` and a loop that runs out of its bound are `none`.
What the sockets carry, the cache files and the clients' own state are left out:
here a client is only an element of `clientsList`. -/

namespace FastCgiCdn.PoolModel

open DnsModel

abbrev BackendId := ℕ
abbrev HttpId := ℕ
abbrev ListId := ℕ

structure BackendList where
  busy : List BackendId
  idle : List BackendId
  pending : List HttpId
  s : SockAddr

structure Backend where
  http : Option HttpId
  /-- `fd != -1`. -/
  isValid : Bool
  wasTCPConnected : Bool
  lastReceivedBytesTimestamps : ℕ
  backendList : Option ListId

structure Http where
  https : Bool
  cachePath : Bytes
  clientsList : List ClientId
  lastReceivedBytesTimestamps : ℕ
  http_code : ℕ
  host : Bytes
  uri : Bytes
  etagBackend : Bytes
  pending : Bool
  requestSended : Bool
  backend : Option BackendId
  backendList : Option ListId

namespace Http

def isAlive (h : Http) : Bool := !h.host.isEmpty && !h.uri.isEmpty

def haveUrlAndFrontendConnected (h : Http) : Bool := h.isAlive && !h.clientsList.isEmpty

end Http

/-- `addressTo` is `addressToHttp` at `false` and `addressToHttps` at `true`, and
`pathTo` is `pathToHttp` and `pathToHttps`. An Http stays in `toDelete` until it
is deleted. -/
structure Pool where
  maxBackend : ℕ
  backend : BackendId → Backend
  http : HttpId → Http
  list : ListId → BackendList
  newBackend : BackendId
  newHttp : HttpId
  newList : ListId
  addressTo : Bool → In6Addr → Option ListId
  pathTo : Bool → Bytes → Option HttpId
  toDelete : List HttpId

/-- How `tryConnectInternal` ends: a connection on its way, no socket left, or a
refused `connect` whose socket stays open. -/
inductive Connect
  | started
  | closed
  | refused
  deriving DecidableEq, Repr

/-- What the system answers during one event. -/
structure System where
  connect : BackendId → Connect
  currentTime : ℕ

namespace Pool

def initial (maxBackend : ℕ) : Pool where
  maxBackend := maxBackend
  backend _ := ⟨none, false, false, 0, none⟩
  http _ := ⟨false, [], [], 0, 0, [], [], [], false, false, none, none⟩
  list _ := ⟨[], [], [], ⟨.zero, 0⟩⟩
  newBackend := 0
  newHttp := 0
  newList := 0
  addressTo _ _ := none
  pathTo _ _ := none
  toDelete := []

def setBackend (b : BackendId) (f : Backend → Backend) (p : Pool) : Pool :=
  { p with backend := Function.update p.backend b (f (p.backend b)) }

def setHttp (h : HttpId) (f : Http → Http) (p : Pool) : Pool :=
  { p with http := Function.update p.http h (f (p.http h)) }

def setList (l : ListId) (f : BackendList → BackendList) (p : Pool) : Pool :=
  { p with list := Function.update p.list l (f (p.list l)) }

def setPath (https : Bool) (path : Bytes) (h : Option HttpId) (p : Pool) : Pool :=
  { p with pathTo := Function.update p.pathTo https (Function.update (p.pathTo https) path h) }

def setAddress (https : Bool) (addr : In6Addr) (l : Option ListId) (p : Pool) : Pool :=
  { p with
    addressTo := Function.update p.addressTo https (Function.update (p.addressTo https) addr l) }

def tmp : Bytes := [46, 116, 109, 112]

def unregister (h : HttpId) (p : Pool) : Pool :=
  if (p.http h).cachePath.isEmpty then p
  else
    setPath (p.http h).https ((p.http h).cachePath ++ tmp) none
      (setPath (p.http h).https (p.http h).cachePath none p)

def backendError (h : HttpId) (p : Pool) : Pool :=
  setHttp h ({ · with cachePath := [] }) (unregister h (setHttp h ({ · with clientsList := [] }) p))

def disconnectFrontend (h : HttpId) (p : Pool) : Pool :=
  setHttp h ({ · with clientsList := [] }) p

def resetRequestSended (h : HttpId) (p : Pool) : Pool :=
  if (p.http h).http_code ≠ 0 then p else setHttp h ({ · with requestSended := false }) p

def readyToWrite (system : System) (h : HttpId) (p : Pool) : Pool :=
  if (p.http h).requestSended then p
  else setHttp h ({ · with
    requestSended := true, lastReceivedBytesTimestamps := system.currentTime }) p

/-- `addClient`; a dead object answers the client with an error instead. -/
def addClient (h : HttpId) (client : ClientId) (p : Pool) : Pool :=
  if !(p.http h).isAlive || (p.http h).clientsList.contains client then p
  else setHttp h (fun x => { x with clientsList := x.clientsList ++ [client] }) p

def removeClient (h : HttpId) (client : ClientId) (p : Pool) : Pool :=
  setHttp h (fun x => { x with clientsList := x.clientsList.filter (· ≠ client) }) p

def close (b : BackendId) (p : Pool) : Pool := setBackend b ({ · with isValid := false }) p

/-- What `remoteSocketClosed` begins with. -/
def shut (b : BackendId) (p : Pool) : Pool :=
  match (p.backend b).http with
  | none => close b p
  | some h => resetRequestSended h (close b p)

def leaveBusy (l : ListId) (b : BackendId) (p : Pool) : Pool :=
  setList l (fun x => { x with busy := x.busy.erase b }) p

def leaveIdle (l : ListId) (b : BackendId) (p : Pool) : Pool :=
  setList l (fun x => { x with idle := x.idle.erase b }) p

def park (l : ListId) (b : BackendId) (p : Pool) : Pool :=
  if (p.backend b).isValid then setList l (fun x => { x with idle := x.idle ++ [b] }) p else p

def link (b : BackendId) (h : HttpId) (p : Pool) : Pool :=
  setHttp h ({ · with backend := some b }) (setBackend b ({ · with http := some h }) p)

def enterBusy (l : ListId) (b : BackendId) (p : Pool) : Pool :=
  setList l (fun x => { x with busy := x.busy ++ [b] }) p

/-- `new Backend(list)` followed by `tryConnectInternal`. -/
def allocBackend (system : System) (l : ListId) (p : Pool) : Pool :=
  { setBackend p.newBackend (fun _ => ⟨none, system.connect p.newBackend ≠ .closed, false,
      system.currentTime, some l⟩) p with newBackend := p.newBackend + 1 }

/-- The removal from `pending` made by `disconnectBackend`. -/
def leavePending (h : HttpId) (p : Pool) : Pool :=
  match (p.http h).backendList with
  | none => p
  | some l => setList l (fun x => { x with pending := x.pending.erase h }) p

/-- The rest of `disconnectBackend`, after the backend and `pending` are settled. -/
def retire (fromDestructor : Bool) (h : HttpId) (p : Pool) : Pool :=
  let p := setHttp h ({ · with backend := none, backendList := none }) p
  let p := if (p.http h).isAlive && !fromDestructor then
    { p with toDelete := p.toDelete.insert h } else p
  setHttp h ({ · with
    cachePath := [], host := [], uri := [], etagBackend := [],
    lastReceivedBytesTimestamps := 0, requestSended := false }) (unregister h p)

section

variable (disconnectBackend : HttpId → Pool → Option Pool)

/-- The loop of `remoteSocketClosed` over `pending`. The index moves on although
the object it stood at has just left the vector. -/
def failPending (l : ListId) : ℕ → ℕ → Pool → Option Pool
  | 0, _, _ => none
  | fuel + 1, index, p =>
    match (p.list l).pending[index]? with
    | none => some p
    | some h => (disconnectBackend h (disconnectFrontend h (backendError h p))).bind
        (failPending l fuel (index + 1))

/-- The loop of `downloadFinished` over `pending` when the backend was never
connected: no object leaves the vector. -/
def errorPending (l : ListId) (p : Pool) : Pool :=
  (p.list l).pending.foldl (fun p h => disconnectFrontend h (backendError h p)) p

/-- The address map entry goes when nothing is left in the list. -/
def dropEmptyList (l : ListId) (p : Pool) : Pool :=
  if (p.list l).busy.isEmpty && (p.list l).idle.isEmpty && (p.list l).pending.isEmpty then
    setAddress ((p.list l).s.sin6_port ≠ 80) (p.list l).s.sin6_addr none p
  else p

/-- The request of a closed busy backend goes to an idle or a new one. When no
new socket opens, the closed backend and its Http stay linked. -/
def reassign (system : System) (l : ListId) (b : BackendId) (h : HttpId) (p : Pool) : Pool :=
  let p := setHttp h ({ · with requestSended := false }) p
  match (p.list l).idle.getLast? with
  | some backend =>
    let p := setList l (fun x => { x with idle := x.idle.dropLast, busy := x.busy ++ [backend] }) p
    setBackend b ({ · with http := none }) (readyToWrite system h (link backend h p))
  | none =>
    let new := p.newBackend
    let p := allocBackend system l p
    if system.connect new = .started then
      setBackend b ({ · with http := none }) (enterBusy l new (link new h p))
    else p

def remoteSocketClosed (system : System) (b : BackendId) (p : Pool) : Option Pool :=
  let p := shut b p
  match (p.backend b).backendList with
  | none => some p
  | some l =>
    if !(p.backend b).wasTCPConnected then
      let p := leaveBusy l b p
      (if !(p.list l).pending.isEmpty && (p.list l).busy.isEmpty then
          failPending disconnectBackend l ((p.list l).pending.length + 1) 0 p
        else some p).map fun p =>
      match (p.backend b).http with
      | none => p
      | some h => setHttp h ({ · with backend := none }) p
    else if b ∈ (p.list l).busy then
      let p := leaveBusy l b p
      match (p.backend b).http with
      | some h => some (reassign system l b h p)
      | none => some (setBackend b ({ · with backendList := none }) (dropEmptyList l p))
    else some (leaveIdle l b p)

/-- The loop of `downloadFinished` that looks for a pending object to serve. The
flag tells whether one was found. -/
def serveNext (system : System) (b : BackendId) (l : ListId) : ℕ → Pool → Option (Bool × Pool)
  | 0, _ => none
  | fuel + 1, p =>
    match (p.list l).pending with
    | [] => none
    | h :: rest =>
      let p := setHttp h ({ · with pending := true }) (setList l ({ · with pending := rest }) p)
      if (p.http h).haveUrlAndFrontendConnected then
        some (true, readyToWrite system h (link b h p))
      else
        (disconnectBackend h (disconnectFrontend h (backendError h p))).bind fun p =>
          if (p.list l).pending.isEmpty then some (false, p) else serveNext system b l fuel p

def downloadFinished (system : System) (b : BackendId) (p : Pool) : Option Pool :=
  match (p.backend b).backendList with
  | none => some (setBackend b ({ · with http := none }) p)
  | some l =>
    if !(p.backend b).wasTCPConnected then
      let p := leaveBusy l b p
      let p := if !(p.list l).pending.isEmpty && (p.list l).busy.isEmpty then errorPending l p else p
      match (p.backend b).http with
      | none => none
      | some h =>
        let p := backendError h (setHttp h ({ · with backend := none }) p)
        remoteSocketClosed disconnectBackend system b
          (close b (setBackend b ({ · with http := none }) p))
    else
      match (p.backend b).http with
      | none => none
      | some h =>
        if (p.list l).pending.isEmpty then
          let p := park l b (leaveBusy l b p)
          some (setBackend b ({ · with http := none }) (setHttp h ({ · with backend := none }) p))
        else
          let p := setBackend b ({ · with http := none }) (setHttp h ({ · with backend := none }) p)
          (serveNext disconnectBackend system b l ((p.list l).pending.length + 1) p).map
            fun (haveFound, p) => if haveFound then p else park l b (leaveBusy l b p)

end

/-- `Http::disconnectBackend`; the number bounds how deep it re-enters itself. -/
def disconnectBackend (system : System) : ℕ → Bool → HttpId → Pool → Option Pool
  | 0, _, _, _ => none
  | depth + 1, fromDestructor, h, p =>
    (match (p.http h).backend with
      | some b => downloadFinished (disconnectBackend system depth false) system b p
      | none => some (leavePending h p)).map (retire fromDestructor h)

/-- `Backend::tryConnectInternalList`, with the backend it returns. -/
def tryConnectInternalList (system : System) (https : Bool) (s : SockAddr) (h : HttpId) (p : Pool) :
    Pool × Option BackendId :=
  match p.addressTo https s.sin6_addr with
  | some l =>
    let p := setHttp h ({ · with backendList := some l }) p
    match (p.list l).idle.getLast? with
    | some backend =>
      let p := setList l (fun x => { x with
        idle := x.idle.dropLast, busy := x.busy ++ [backend] }) p
      (readyToWrite system h (link backend h p), some backend)
    | none =>
      if (p.list l).busy.length < p.maxBackend then
        let new := p.newBackend
        let p := allocBackend system l p
        if system.connect new = .started then (enterBusy l new (link new h p), some new)
        else (p, none)
      else
        (setList l (fun x => { x with pending := x.pending ++ [h] })
          (setHttp h ({ · with pending := true }) p), none)
  | none =>
    let l := p.newList
    let p := { setList l (fun _ => ⟨[], [], [], s⟩) p with newList := l + 1 }
    let p := setHttp h ({ · with backendList := some l }) p
    let new := p.newBackend
    let p := allocBackend system l p
    if system.connect new = .started then
      (setAddress https s.sin6_addr (some l) (enterBusy l new (link new h p)), some new)
    else (p, none)

def allocHttp (system : System) (https : Bool) (cachePath : Bytes) (p : Pool) : Pool :=
  { setHttp p.newHttp (fun _ => ⟨https, cachePath, [], system.currentTime, 0, [], [], [], false,
      false, none, none⟩) p with newHttp := p.newHttp + 1 }

def tryConnect (system : System) (s : SockAddr) (host uri etag : Bytes) (h : HttpId) (p : Pool) :
    Pool :=
  let p := setHttp h ({ · with host := host, uri := uri, etagBackend := etag }) p
  let r := tryConnectInternalList system (p.http h).https s h p
  setHttp h ({ · with backend := r.2 }) r.1

structure Request where
  https : Bool
  path : Bytes
  host : Bytes
  uri : Bytes
  etag : Bytes
  client : ClientId
  deriving DecidableEq

/-- The end of `Client::dnsRight`, for a path with no live download. -/
def startDownload (system : System) (r : Request) (s : SockAddr) (p : Pool) : Option Pool :=
  let h := p.newHttp
  let p := tryConnect system s r.host r.uri r.etag h (allocHttp system r.https r.path p)
  if (p.pathTo r.https r.path).isSome then none
  else some (addClient h r.client (setPath r.https r.path (some h) p))

/-- The look-up that `Client::loadUrl` and `Client::dnsRight` begin with. The flag
tells whether the client has joined a live download. -/
def joinDownload (system : System) (depth : ℕ) (r : Request) (p : Pool) : Option (Bool × Pool) :=
  match p.pathTo r.https r.path with
  | none => some (false, p)
  | some h =>
    if (p.http h).isAlive then some (true, addClient h r.client p)
    else (disconnectBackend system depth false h
      (disconnectFrontend h (setPath r.https r.path none p))).map (false, ·)

/-- `Client::dnsRight`, when no cached answer is fresh enough. -/
def dnsRight (system : System) (depth : ℕ) (r : Request) (s : SockAddr) (p : Pool) : Option Pool :=
  (joinDownload system depth r p).bind fun (httpBackendFound, p) =>
    if httpBackendFound then some p else startDownload system r s p

def sub64 (a b : ℕ) : ℕ := (a + 2 ^ 64 - b) % 2 ^ 64

def backendTimeout (system : System) (depth : ℕ) (b : BackendId) (p : Pool) : Option Pool :=
  match (p.backend b).http with
  | none => some p
  | some h =>
    let last := (p.backend b).lastReceivedBytesTimestamps
    if last > sub64 system.currentTime 5000 then
      some (setBackend b ({ · with
        lastReceivedBytesTimestamps := min last system.currentTime }) p)
    else
      (disconnectBackend system depth false h (disconnectFrontend h (backendError h p))).bind
        fun p => remoteSocketClosed (disconnectBackend system depth false) system b (close b p)

/-- The time-out of `Backend::detectTimeout` has passed. -/
def Overdue (system : System) (b : BackendId) (p : Pool) : Prop :=
  (p.backend b).lastReceivedBytesTimestamps ≤ sub64 system.currentTime 5000

def httpTimeout (system : System) (depth : ℕ) (h : HttpId) (p : Pool) : Option Pool :=
  let last := (p.http h).lastReceivedBytesTimestamps
  let secondForTimeout := if (p.http h).pending then 30 else 5
  if last > sub64 system.currentTime (secondForTimeout * 1000) then
    some (setHttp h ({ · with lastReceivedBytesTimestamps := min last system.currentTime }) p)
  else
    let p := disconnectFrontend h p
    match (p.http h).backend with
    | some b => some (close b p)
    | none => disconnectBackend system depth false h p

/-- The time-out of `Http::detectTimeout` has passed. -/
def HttpOverdue (system : System) (h : HttpId) (p : Pool) : Prop :=
  (p.http h).lastReceivedBytesTimestamps ≤
    sub64 system.currentTime ((if (p.http h).pending then 30 else 5) * 1000)

def deleteBackend (b : BackendId) (p : Pool) : Pool :=
  let p := close b p
  let p := match (p.backend b).http with
    | none => p
    | some h => setBackend b ({ · with http := none }) (setHttp h ({ · with backend := none }) p)
  match (p.backend b).backendList with
  | none => p
  | some l => leaveIdle l b (leaveBusy l b p)

def deleteHttp (system : System) (depth : ℕ) (h : HttpId) (p : Pool) : Option Pool :=
  (disconnectBackend system depth true h (disconnectFrontend h p)).map
    fun p => { p with toDelete := p.toDelete.erase h }

/-- The calls that reach the pool. A backend event may make several of them, and
`remoteSocketClosed` up to four times. `endOfBody` stands for every place where
`disconnectFrontend` is followed by `disconnectBackend`. -/
inductive Event
  | dnsRight (r : Request) (s : SockAddr)
  | loadUrl (r : Request)
  | removeClient (h : HttpId) (client : ClientId)
  | statusLine (h : HttpId) (http_code : ℕ)
  | readyToWrite (h : HttpId)
  | disconnectFrontend (h : HttpId)
  | flushRead (h : HttpId)
  | endOfBody (h : HttpId)
  | remoteSocketClosed (b : BackendId)
  | startHttpsFails (b : BackendId)
  | backendTimeout (b : BackendId)
  | httpTimeout (h : HttpId)
  | deleteBackend (b : BackendId)
  | deleteHttp (h : HttpId)

/-- When the call can be made: its object exists, data can be read only from an
open socket, and main deletes closed backends and scheduled Http objects only. -/
def Enabled (p : Pool) : Event → Prop
  | .dnsRight .. | .loadUrl _ => True
  | .statusLine h _ => h < p.newHttp ∧ ∃ b, (p.http h).backend = some b ∧ (p.backend b).isValid
  | .removeClient h _ | .readyToWrite h | .disconnectFrontend h | .flushRead h | .endOfBody h
  | .httpTimeout h => h < p.newHttp
  | .remoteSocketClosed b | .startHttpsFails b | .backendTimeout b => b < p.newBackend
  | .deleteBackend b => b < p.newBackend ∧ (p.backend b).isValid = false
  | .deleteHttp h => h ∈ p.toDelete

def statusLine (h : HttpId) (http_code : ℕ) (p : Pool) : Pool :=
  let p := setHttp h ({ · with http_code := http_code }) p
  match (p.http h).backend with
  | none => p
  | some b => setBackend b ({ · with wasTCPConnected := true }) p

def perform (system : System) (depth : ℕ) : Event → Pool → Option Pool
  | .dnsRight r s, p => dnsRight system depth r s p
  | .loadUrl r, p => (joinDownload system depth r p).map (·.2)
  | .removeClient h client, p => some (removeClient h client p)
  | .statusLine h http_code, p => some (statusLine h http_code p)
  | .readyToWrite h, p => some (readyToWrite system h p)
  | .disconnectFrontend h, p => some (disconnectFrontend h p)
  | .flushRead h, p => (disconnectBackend system depth false h p).map (disconnectFrontend h)
  | .endOfBody h, p => disconnectBackend system depth false h (disconnectFrontend h p)
  | .remoteSocketClosed b, p =>
    remoteSocketClosed (disconnectBackend system depth false) system b p
  | .startHttpsFails b, p => some (close b p)
  | .backendTimeout b, p => backendTimeout system depth b p
  | .httpTimeout h, p => httpTimeout system depth h p
  | .deleteBackend b, p => some (deleteBackend b p)
  | .deleteHttp h, p => deleteHttp system depth h p

/-- One event, with what the system answers during it: it ends in `p'` under every
large enough bound on the re-entrance of `disconnectBackend`. -/
def Step (e : System × Event) (p p' : Pool) : Prop :=
  Enabled p e.2 ∧ ∃ depth, ∀ more, perform e.1 (depth + more) e.2 p = some p'

end Pool

end FastCgiCdn.PoolModel
