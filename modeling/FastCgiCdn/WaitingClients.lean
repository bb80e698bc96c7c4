import FastCgiCdn.DnsVerdict
import FastCgiCdn.GuardedRuns

/-! The resolver together with the clients it calls back. A callback runs in the
middle of a loop over a list of the query, and may disconnect its own client and
any client that was added to a download, each of which may cancel a waiting
client; so the loops are modelled on the live lists. What sockets, caches and
downloads do in the course of a callback is arbitrary. Clients keep their
identity: an address is not used again, and the work-around of `Cache::newFD`
for colliding descriptors is left out. -/

namespace FastCgiCdn.WaitingClients

open DnsModel Dns DnsVerdict

inductive Status
  | idle
  | waitDns
  | waitTheContent
  deriving DecidableEq, Repr

structure Client where
  host : Bytes
  https : Bool
  status : Status
  fullyParsed : Bool
  /-- `fd` is not -1. -/
  isValid : Bool
  /-- `addClient` put it into the list of a download, which may still hold it. -/
  added : Bool
  deriving DecidableEq, Repr

def Client.initial : Client := ⟨[], false, .idle, false, true, false⟩

inductive Happening
  /-- `get` put the client into a list of a query. -/
  | joined (client : ClientId)
  | called (client : ClientId)
  | disconnected (client : ClientId)
  deriving DecidableEq, Repr

structure World where
  dns : Dns
  client : ClientId → Client
  log : List Happening

inductive Fault
  | halt (halt : Halt)
  /-- The vector under a range-for was changed. -/
  | invalidated

/-- What the rest of the program does to a client. -/
inductive Act
  /-- `Client::disconnect`, after a failed write or at the end of an answer. -/
  | disconnect (client : ClientId)
  /-- `startRead` and `cacheError` give up. -/
  | idle (client : ClientId)
  | add
  deriving DecidableEq, Repr

namespace World

def initial : World := ⟨.initial, fun _ => .initial, []⟩

def setClient (c : ClientId) (f : Client → Client) (w : World) : World :=
  { w with client := Function.update w.client c (f (w.client c)) }

def note (h : Happening) (w : World) : World := { w with log := w.log ++ [h] }

def disconnect (c : ClientId) (w : World) : World :=
  let w := note (.disconnected c) (setClient c ({ · with isValid := false }) w)
  if (w.client c).status = .waitDns then
    { w with dns := w.dns.cancelClient c (w.client c).host (w.client c).https }
  else w

/-- An act reaches the client that is being answered, or one that a download may hold. -/
def act (self : Option ClientId) (a : Act) (w : World) : World :=
  match a with
  | .disconnect c => if self = some c ∨ (w.client c).added then disconnect c w else w
  | .idle c =>
    if self = some c ∨ (w.client c).added then setClient c ({ · with status := .idle }) w else w
  | .add =>
    match self with
    | some c => setClient c ({ · with added := true }) w
    | none => w

def actAll (self : Option ClientId) (acts : List Act) (w : World) : World :=
  acts.foldl (fun w a => act self a w) w

/-- The call is made: `Client::dnsRight`, `Client::dnsWrong` and `Client::dnsError`
change the status before anything else. -/
def enter (call : Call) (status : Status) (w : World) : World :=
  let w := setClient (calledClient call) ({ · with status := status }) w
  note (.called (calledClient call)) { w with dns := { w.dns with calls := w.dns.calls ++ [call] } }

def callBack (call : Call) (acts : List Act) (w : World) : World :=
  match call with
  | .dnsRight c _ => actAll (some c) acts (enter call .waitTheContent w)
  | .dnsWrong c => disconnect c (actAll (some c) acts (enter call .idle w))
  | .dnsError c => disconnect c (actAll (some c) acts (enter call .idle w))

/-- `for(Client * const c : list)`, on the clients left. The list of the query
must be the same after each callback. -/
def callRest (id : ℕ) (list : Query → List ClientId) (call : ClientId → Call)
    (acts : ClientId → List Act) : List ClientId → World → Except Fault World
  | [], w => .ok w
  | c :: rest, w =>
    let w' := callBack (call c) (acts c) w
    if (w'.dns.queryList.lookup id).map list = (w.dns.queryList.lookup id).map list then
      callRest id list call acts rest w'
    else .error .invalidated

/-- The loop over one list of a query. -/
def callList (id : ℕ) (list : Query → List ClientId) (call : ClientId → Call)
    (acts : ClientId → List Act) (w : World) : Except Fault World :=
  match w.dns.queryList.lookup id with
  | none => .error .invalidated
  | some q => callRest id list call acts (list q) w

def lift (f : Dns → Except Halt Dns) (w : World) : Except Fault World :=
  match f w.dns with
  | .error halt => .error (.halt halt)
  | .ok dns => .ok { w with dns := dns }

def flush (id : ℕ) (call : ClientId → Call) (acts : ClientId → List Act) (w : World) :
    Except Fault World := do
  let w ← callList id Query.http call acts w
  let w ← callList id Query.https call acts w
  lift (removeQuery id) w

/-- A shared target is set just before the loop over its clients. -/
def aim (https : Bool) (id : ℕ) (sin6_addr : In6Addr) (d : Dns) : Dns :=
  match d.queryList.lookup id with
  | none => d
  | some q =>
    if https then
      if q.https.isEmpty then d else { d with targetHttps := ⟨sin6_addr, d.targetHttps.sin6_port⟩ }
    else if q.http.isEmpty then d else { d with targetHttp := ⟨sin6_addr, d.targetHttp.sin6_port⟩ }

def flushRight (id : ℕ) (sin6_addr : In6Addr) (acts : ClientId → List Act) (w : World) :
    Except Fault World := do
  let w := { w with dns := aim false id sin6_addr w.dns }
  let w ← callList id Query.http (.dnsRight · w.dns.targetHttp) acts w
  let w := { w with dns := aim true id sin6_addr w.dns }
  let w ← callList id Query.https (.dnsRight · w.dns.targetHttps) acts w
  lift (removeQuery id) w

def conclude (o : Outcome) (now id : ℕ) (q : Query) (acts : ClientId → List Act) (w : World) :
    Except Fault World :=
  match o with
  | .refused => flush id .dnsError acts w
  | .failed =>
    flush id .dnsError acts { w with dns := addCacheEntryFailed now .wrong 0 q.host w.dns }
  | .unanswered =>
    flush id .dnsError acts { w with dns := addCacheEntryFailed now .error 3600 q.host w.dns }
  | .address ttl sin6_addr =>
    if allowed sin6_addr then
      flushRight id sin6_addr acts
        { w with dns := addCacheEntry now .right ttl q.host sin6_addr w.dns }
    else
      flush id .dnsWrong acts { w with dns := addCacheEntry now .wrong ttl q.host sin6_addr w.dns }

/-- One datagram of `Dns::parseEvent`. -/
def parseEvent (fromServer : Bool) (buffer : Memory) (size : ℕ) (time : Readings)
    (acts : ClientId → List Act) (w : World) : Except Fault World :=
  if !fromServer then .ok w
  else
    match parseHeader buffer size with
    | .error halt => .error (.halt halt)
    | .ok _ =>
      match settled buffer size w.dns with
      | none => .ok { w with dns := uncount w.dns }
      | some (id, q, o) => conclude o (time 0) id q acts { w with dns := uncount w.dns }

def checkList (time : Readings) (acts : ClientId → List Act) :
    ℕ → List ℕ → World → Except Fault (ℕ × World)
  | k, [], w => .ok (k, w)
  | k, id :: ids, w =>
    match w.dns.queryList.lookup id with
    | none => .error (.halt .outOfRange)
    | some query =>
      if query.retryTime < 2 then
        checkList time acts (k + 1) ids { w with dns := resend (time k) id query w.dns }
      else
        match flush id .dnsError acts w with
        | .error fault => .error fault
        | .ok w => checkList time acts k ids w

def checkBuckets (time : Readings) (acts : ClientId → List Act) :
    ℕ → List (ℕ × List ℕ) → World → Except Fault World
  | _, [], w => .ok w
  | k, (t, list) :: rest, w =>
    if t > time k then .ok w
    else
      match checkList time acts (k + 1) list w with
      | .error fault => .error fault
      | .ok (k, w) =>
        checkBuckets time acts k rest
          { w with dns := { w.dns with queryByNextDueTime := w.dns.queryByNextDueTime.erase t } }

def checkQueries (time : Readings) (acts : ClientId → List Act) (w : World) :
    Except Fault World :=
  checkBuckets time acts 0 (BucketIndex.inOrder w.dns.queryByNextDueTime) w

/-- Once the request is read, `main` and the server disconnect a client that is
no longer valid. -/
def leave (c : ClientId) (w : World) : World :=
  if (w.client c).isValid then w else disconnect c w

def askDns (c : ClientId) (time : Readings) (acts : List Act) (w : World) : World :=
  let (dns, found) := w.dns.get c (w.client c).host (w.client c).https time
  if !found then disconnect c { w with dns := dns }
  else
    -- `get` itself makes at most one callback, as its last action
    let w := match dns.calls.drop w.dns.calls.length with
      | [] => note (.joined c) { w with dns := dns }
      | call :: _ => callBack call acts { w with dns := { dns with calls := w.dns.calls } }
    setClient c ({ · with status := .waitDns }) w

/-- The request of a client is read, and no download and no cache file answers it.
A cache file whose content cannot be found is answered with an error page, and
the host is looked up all the same. -/
def request (c : ClientId) (host : Bytes) (https corrupted : Bool) (time : Readings)
    (acts : List Act) (w : World) : World :=
  if !(w.client c).isValid || (w.client c).fullyParsed then w
  else
    let w := setClient c ({ · with
      host := host, https := https, fullyParsed := true, status := .waitTheContent }) w
    let w := if corrupted then disconnect c (setClient c ({ · with status := .idle }) w) else w
    leave c (askDns c time acts w)

def serve (c : ClientId) (acts : List Act) (w : World) : World :=
  if !(w.client c).isValid || (w.client c).fullyParsed then w
  else
    leave c (actAll (some c) acts
      (setClient c ({ · with fullyParsed := true, status := .waitTheContent }) w))

inductive Event
  | request (client : ClientId) (host : Bytes) (https corrupted : Bool) (time : Readings)
      (acts : List Act)
  | serve (client : ClientId) (acts : List Act)
  /-- A hang-up, a protocol error, a timeout or the sweep of `CheckTimeout`. -/
  | disconnect (client : ClientId)
  /-- A backend or a timer works on a download. -/
  | download (acts : List Act)
  | datagram (fromServer : Bool) (buffer : Memory) (size : ℕ) (time : Readings)
      (acts : ClientId → List Act)
  | cleanCache (time : Readings)
  | checkQueries (time : Readings) (acts : ClientId → List Act)

def perform : Event → World → Except Fault World
  | .request c host https corrupted time acts, w => .ok (request c host https corrupted time acts w)
  | .serve c acts, w => .ok (serve c acts w)
  | .disconnect c, w => .ok (disconnect c w)
  | .download acts, w => .ok (actAll none acts w)
  | .datagram fromServer buffer size time acts, w => parseEvent fromServer buffer size time acts w
  | .cleanCache time, w => .ok { w with dns := w.dns.cleanCache time }
  | .checkQueries time acts, w => checkQueries time acts w

def Step (e : Event) (w w' : World) : Prop := perform e w = .ok w'

end World
end FastCgiCdn.WaitingClients
