import FastCgiCdn.ScheduledFrame
import FastCgiCdn.LastReferences

/-! The loop of main.cpp over the pool. A batch of events is taken, what the last
round left in the old lists is deleted, the new lists become the old ones, and each
event of the batch is handled. A closed backend is collected after its own event, a
download that has ended at the end of the round. The lists of the clients are left
out: a client that is deleted leaves the download it follows. `Client::http` is left out
as well: it may outlive the list of its Http, when the list is cleared under a client that
the loop over it has passed by. -/

namespace FastCgiCdn.MainLoop

open GuardedRuns DnsModel PoolModel Pool

/-- What an event points to. -/
inductive Item
  | server
  | client (client : ClientId)
  | backend (b : BackendId)
  | dns
  | timer
  deriving DecidableEq

/-- Where main stands, with the events of the batch that are still to be handled. -/
inductive Phase
  | waiting
  | deleting (events : List Item)
  | dispatching (events : List Item)
  | running (item : Item) (events : List Item)

namespace Phase

def items : Phase → List Item
  | waiting => []
  | deleting events => events
  | dispatching events => events
  | running item events => item :: events

def quiet : Phase → Bool
  | waiting => true
  | deleting _ => true
  | dispatching _ => false
  | running _ _ => false

end Phase

/-- `toDelete` of the pool is `Http::toDelete`. The last three fields record what has
happened: the states since the deletions of this round, and what has been deleted. -/
structure Main where
  pool : Pool
  newDeleteBackend : List BackendId
  oldDeleteBackend : List BackendId
  newDeleteHttp : List HttpId
  oldDeleteHttp : List HttpId
  phase : Phase
  seen : List Pool
  deletedBackend : List BackendId
  deletedHttp : List HttpId

namespace Main

def initial (maxBackend : ℕ) : Main where
  pool := Pool.initial maxBackend
  newDeleteBackend := []
  oldDeleteBackend := []
  newDeleteHttp := []
  oldDeleteHttp := []
  phase := .waiting
  seen := []
  deletedBackend := []
  deletedHttp := []

end Main

/-- A pointer to the Http is at hand while the event is handled: in a map of paths, in a
queue, with a client in its list, or at a backend that is in use or has the event. What
`Client::http` of a client outside the list points to does not count. -/
def Leads (item : Item) (h : HttpId) (p : Pool) : Prop :=
  (∃ https path, p.pathTo https path = some h) ∨ (∃ l, h ∈ (p.list l).pending) ∨
  (p.http h).clientsList ≠ [] ∨ (∃ l, ∃ b ∈ (p.list l).busy, (p.backend b).http = some h) ∨
  ∃ b, item = .backend b ∧ (p.backend b).http = some h

/-- A pointer to the backend is at hand: it has the event, it is in a list, or an Http
at hand has it. -/
def LeadsBackend (item : Item) (b : BackendId) (p : Pool) : Prop :=
  item = .backend b ∨ (∃ l, b ∈ (p.list l).busy ++ (p.list l).idle) ∨
  ∃ h, Leads item h p ∧ (p.http h).backend = some b

/-- What the code behind an event can call. A pointer may have been read in any state
since the deletions of this round, and be used although it is no longer there. -/
def Callable (m : Main) (item : Item) : Event → Prop
  | .dnsRight .. | .loadUrl _ => True
  | .statusLine h _ => (∃ p ∈ m.seen, Leads item h p) ∧
    ∃ b, (m.pool.http h).backend = some b ∧ (m.pool.backend b).isValid
  | .removeClient h _ | .readyToWrite h | .disconnectFrontend h | .flushRead h | .endOfBody h
  | .httpTimeout h => ∃ p ∈ m.seen, Leads item h p
  | .remoteSocketClosed b | .startHttpsFails b | .backendTimeout b =>
    ∃ p ∈ m.seen, LeadsBackend item b p
  | .deleteBackend _ | .deleteHttp _ => False

/-- The call ends in `p'` under every large enough bound on its re-entrance. -/
def Returns (e : System × Event) (p p' : Pool) : Prop :=
  ∃ depth, ∀ more, perform e.1 (depth + more) e.2 p = some p'

/-- `Http::~Http`, which leaves `Http::toDelete` alone. -/
def Destroys (system : System) (h : HttpId) (p p' : Pool) : Prop :=
  ∃ depth, ∀ more, disconnectBackend system (depth + more) true h (disconnectFrontend h p) = some p'

def collected (item : Item) (m : Main) : List BackendId :=
  match item with
  | .backend b =>
    if (m.pool.backend b).isValid then m.newDeleteBackend else m.newDeleteBackend ++ [b]
  | _ => m.newDeleteBackend

inductive Label
  | wait (events : List Item)
  | deleteClient (client : ClientId) (h : HttpId)
  | deleteBackend (b : BackendId)
  | deleteHttp (system : System) (h : HttpId)
  | rotate
  | next
  | call (e : System × Event)
  | finish
  | turn

/-- One step of main. `epoll_wait` reports an open socket once at most, in any order,
and main runs through the set of old Https in any order. -/
inductive Step : Label → Main → Main → Prop
  | wait {m : Main} {events : List Item} (phase : m.phase = .waiting) (once : events.Nodup)
      (opened : ∀ b, .backend b ∈ events →
        b < m.pool.newBackend ∧ (m.pool.backend b).isValid = true) :
      Step (.wait events) m { m with phase := .deleting events }
  | deleteClient {m : Main} {events : List Item} {client : ClientId} {h : HttpId}
      (phase : m.phase = .deleting events) (follows : client ∈ (m.pool.http h).clientsList) :
      Step (.deleteClient client h) m { m with pool := removeClient h client m.pool }
  | deleteBackend {m : Main} {events : List Item} {b : BackendId} {rest : List BackendId}
      (phase : m.phase = .deleting events) (first : m.oldDeleteBackend = b :: rest) :
      Step (.deleteBackend b) m { m with
        pool := deleteBackend b m.pool
        oldDeleteBackend := rest
        deletedBackend := m.deletedBackend ++ [b] }
  | deleteHttp {m : Main} {events : List Item} {system : System} {h : HttpId} {pool : Pool}
      (phase : m.phase = .deleting events) (backends : m.oldDeleteBackend = [])
      (member : h ∈ m.oldDeleteHttp) (destroyed : Destroys system h m.pool pool) :
      Step (.deleteHttp system h) m { m with
        pool := pool
        oldDeleteHttp := m.oldDeleteHttp.erase h
        deletedHttp := m.deletedHttp ++ [h] }
  | rotate {m : Main} {events : List Item} (phase : m.phase = .deleting events)
      (backends : m.oldDeleteBackend = []) (https : m.oldDeleteHttp = []) :
      Step .rotate m { m with
        oldDeleteBackend := m.newDeleteBackend
        newDeleteBackend := []
        oldDeleteHttp := m.newDeleteHttp
        newDeleteHttp := []
        phase := .dispatching events
        seen := [m.pool] }
  | next {m : Main} {item : Item} {events : List Item}
      (phase : m.phase = .dispatching (item :: events)) :
      Step .next m { m with phase := .running item events }
  | call {m : Main} {item : Item} {events : List Item} {e : System × Event} {pool : Pool}
      (phase : m.phase = .running item events) (callable : Callable m item e.2)
      (returns : Returns e m.pool pool) :
      Step (.call e) m { m with pool := pool, seen := m.seen ++ [pool] }
  | finish {m : Main} {item : Item} {events : List Item} (phase : m.phase = .running item events) :
      Step .finish m { m with
        newDeleteBackend := collected item m, phase := .dispatching events }
  | turn {m : Main} (phase : m.phase = .dispatching []) :
      Step .turn m { m with
        newDeleteHttp := m.newDeleteHttp ∪ m.pool.toDelete
        pool := { m.pool with toDelete := [] }
        phase := .waiting }

def Asked (hostsubfolder : Bool) (XXH3_64bits : Bytes → UInt64) : Label → Main → Prop
  | .call e, m => SingleFlight.Asked hostsubfolder XXH3_64bits e m.pool
  | _, _ => True

end FastCgiCdn.MainLoop
