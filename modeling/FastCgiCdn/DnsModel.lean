import FastCgiCdn.BucketIndex
import FastCgiCdn.Common

/-! The resolver of Dns.cpp: the query table, the cache and its expiry index,
and the walk over a reply. Client callbacks and emitted datagrams are logged in
order; a client never calls back into the resolver while it is being answered.
Every reading of `time(NULL)` is a separate value: an operation receives the
stream of its readings and may see the clock stand still, jump or run backwards.
Socket set-up, standard error and the `DEBUGFASTCGI` checks are left out; the
branch of such a build that answers two hosts without asking is in `getIn`. -/

namespace FastCgiCdn.DnsModel

open BucketIndex

/-- How an operation can fail to return: an uncaught `std::out_of_range`, or a
loop that never ends. -/
inductive Halt
  | outOfRange
  | endlessLoop
  deriving DecidableEq, Repr

abbrev ClientId := ℕ
abbrev Readings := ℕ → ℕ

/-- The memory from the start of a receive buffer on. A datagram fills its first
bytes; what follows is whatever the stack holds. -/
abbrev Memory := ℕ → UInt8

structure In6Addr where
  s6_addr : Bytes
  size : s6_addr.length = 16
  deriving DecidableEq, Repr

def In6Addr.zero : In6Addr := ⟨List.replicate 16 0, rfl⟩

def In6Addr.ofMemory (buffer : Memory) (pos : ℕ) : In6Addr :=
  ⟨(List.range 16).map fun i => buffer (pos + i), by simp⟩

structure SockAddr where
  sin6_addr : In6Addr
  sin6_port : ℕ
  deriving DecidableEq, Repr

inductive StatusEntry
  | right
  | wrong
  | error
  deriving DecidableEq, Repr

structure CacheEntry where
  sin6_addr : In6Addr
  outdated_date : ℕ
  status : StatusEntry
  deriving DecidableEq, Repr

structure Query where
  host : Bytes
  http : List ClientId
  https : List ClientId
  retryTime : ℕ
  nextRetry : ℕ
  query : Bytes
  deriving DecidableEq, Repr

inductive Call
  | dnsRight (client : ClientId) (sIPv6 : SockAddr)
  | dnsWrong (client : ClientId)
  | dnsError (client : ClientId)
  deriving DecidableEq, Repr

structure Dns where
  cache : AList fun _ : Bytes => CacheEntry
  cacheByOutdatedDate : Index ℕ Bytes
  increment : ℕ
  clientInProgress : ℤ
  queryByNextDueTime : Index ℕ ℕ
  queryList : AList fun _ : ℕ => Query
  queryListByHost : AList fun _ : Bytes => ℕ
  targetHttp : SockAddr
  targetHttps : SockAddr
  calls : List Call
  sent : List Bytes

namespace Dns

def includePrefix : Bytes := [0x28, 0x03, 0x19, 0x20]

def excludePrefix : Bytes :=
  [0x28, 0x03, 0x19, 0x20, 0x00, 0x00, 0x00, 0x00, 0xb4, 0xb2, 0x5f, 0x61, 0xd3, 0x7f]

def initial : Dns where
  cache := ∅
  cacheByOutdatedDate := ∅
  increment := 1
  clientInProgress := 0
  queryByNextDueTime := ∅
  queryList := ∅
  queryListByHost := ∅
  targetHttp := ⟨.zero, 80⟩
  targetHttps := ⟨.zero, 443⟩
  calls := []
  sent := []

def canAddToPos (i size pos : ℕ) : Option ℕ :=
  if pos + i > size then none else some (pos + i)

def read16BitsRaw (data : Memory) (size pos : ℕ) : Option (ℕ × ℕ) :=
  if pos + 2 > size then none
  else some ((data pos).toNat + 256 * (data (pos + 1)).toNat, pos + 2)

/-- The value doubles as the success flag: a field that reads as 0 counts as
unreadable, and the position moves past it all the same. -/
def read16Bits (data : Memory) (size pos : ℕ) : ℕ × ℕ :=
  if pos + 2 > size then (0, pos)
  else (256 * (data pos).toNat + (data (pos + 1)).toNat, pos + 2)

def read32Bits (data : Memory) (size pos : ℕ) : Option (ℕ × ℕ) :=
  if pos + 4 > size then none
  else some (((data pos).toNat * 256 + (data (pos + 1)).toNat) * 65536 +
    (data (pos + 2)).toNat * 256 + (data (pos + 3)).toNat, pos + 4)

def addQuery (id : ℕ) (query : Query) (d : Dns) : Dns :=
  { d with
    queryList := d.queryList.insert id query
    queryListByHost := d.queryListByHost.insert query.host id
    queryByNextDueTime := push d.queryByNextDueTime query.nextRetry id }

/-- Erases the whole bucket of the query's due time. -/
def removeQuery (id : ℕ) (d : Dns) : Except Halt Dns :=
  match d.queryList.lookup id with
  | none => .error .outOfRange
  | some query => .ok { d with
      queryByNextDueTime := d.queryByNextDueTime.erase query.nextRetry
      queryListByHost := d.queryListByHost.erase query.host
      queryList := d.queryList.erase id }

/-- The lifetime given to an entry, with `CACHETIMEDIVIDER` 1. -/
def outdatedDate (s : StatusEntry) (ttl now : ℕ) : ℕ :=
  if ttl < 24 * 3600 then
    if ttl < 5 * 60 then
      if s = .right then now + 5 * 60 else now + 3600
    else now + ttl
  else now + 24 * 3600

/-- The first step of storing an entry: drop the host from the bucket of its old
date (the bucket is created when it is missing). -/
def unindex (host : Bytes) (d : Dns) : Dns :=
  match d.cache.lookup host with
  | none => d
  | some e => { d with
      cacheByOutdatedDate := d.cacheByOutdatedDate.insert e.outdated_date
        ((bucket d.cacheByOutdatedDate e.outdated_date).erase host) }

def addCacheEntry (now : ℕ) (s : StatusEntry) (ttl : ℕ) (host : Bytes) (sin6_addr : In6Addr)
    (d : Dns) : Dns :=
  if d.cache.entries.length > 5000 then d
  else
    let d := unindex host d
    let date := outdatedDate s ttl now
    { d with
      cache := d.cache.insert host ⟨sin6_addr, date, s⟩
      cacheByOutdatedDate := push d.cacheByOutdatedDate date host }

/-- `Dns::sin6_addr` is all zero. -/
def addCacheEntryFailed (now : ℕ) (s : StatusEntry) (ttl : ℕ) (host : Bytes) (d : Dns) : Dns :=
  addCacheEntry now s ttl host .zero d

def callEach (q : Query) (call : ClientId → Call) : List Call :=
  q.http.map call ++ q.https.map call

/-- Every client of the query is called back and the query removed. -/
def flushQuery (id : ℕ) (calls : List Call) (d : Dns) : Except Halt Dns :=
  removeQuery id { d with calls := d.calls ++ calls }

/-- `StatusEntry_Error` is cached for an hour. -/
def flushFailed (now id : ℕ) (q : Query) (d : Dns) : Except Halt Dns :=
  flushQuery id (callEach q .dnsError) (addCacheEntryFailed now .error 3600 q.host d)

def allowed (address : In6Addr) : Bool :=
  includePrefix.isPrefixOf address.s6_addr && !excludePrefix.isPrefixOf address.s6_addr

/-- The calls of an accepted address. A shared target is overwritten only when
its list has a client. -/
def rightCalls (q : Query) (address : In6Addr) (d : Dns) : Dns :=
  let targetHttp := if q.http.isEmpty then d.targetHttp else ⟨address, d.targetHttp.sin6_port⟩
  let targetHttps := if q.https.isEmpty then d.targetHttps else ⟨address, d.targetHttps.sin6_port⟩
  { d with
    targetHttp := targetHttp
    targetHttps := targetHttps
    calls := d.calls ++ q.http.map (.dnsRight · targetHttp) ++ q.https.map (.dnsRight · targetHttps) }

def flushAddress (now id ttl : ℕ) (q : Query) (address : In6Addr) (d : Dns) : Except Halt Dns :=
  if allowed address then
    removeQuery id (rightCalls q address (addCacheEntry now .right ttl q.host address d))
  else
    flushQuery id (callEach q .dnsWrong) (addCacheEntry now .wrong ttl q.host address d)

/-- The loop over the answer records, on the number of records left. `flushed`
is `clientsFlushed`: once set, no branch has an effect. -/
def parseAnswers (buffer : Memory) (size now id : ℕ) (q : Query) :
    ℕ → ℕ → Bool → Dns → Except Halt Dns
  | 0, _, flushed, d => if flushed then .ok d else flushFailed now id q d
  | left + 1, pos, flushed, d =>
    let (AName, pos) := read16Bits buffer size pos
    if AName = 0 then .ok d
    else
      let (type, pos) := read16Bits buffer size pos
      -- an unreadable type settles the query and the walk goes on with type 0
      match (if type = 0 ∧ flushed = false then flushFailed now id q d else .ok d) with
      | .error halt => .error halt
      | .ok d =>
        let flushed := flushed || decide (type = 0)
        if type = 0x001c then
          let (classIn, pos) := read16Bits buffer size pos
          if classIn = 0 then .ok d
          else if classIn ≠ 0x0001 then parseAnswers buffer size now id q left pos flushed d
          else
            match read32Bits buffer size pos with
            | none => .ok d
            | some (ttl, pos) =>
              let (datasize, pos) := read16Bits buffer size pos
              if datasize ≠ 16 then .ok d
              else if flushed then parseAnswers buffer size now id q left pos true d
              else
                -- the 16 bytes are not checked against the datagram's end
                match flushAddress now id ttl q (.ofMemory buffer pos) d with
                | .error halt => .error halt
                | .ok d => parseAnswers buffer size now id q left pos true d
        else
          let pos := (canAddToPos (2 + 4) size pos).getD pos
          let (datasize, pos) := read16Bits buffer size pos
          if datasize = 0 then .ok d
          else
            let pos := (canAddToPos datasize size pos).getD pos
            parseAnswers buffer size now id q left pos flushed d

/-- The loop over the labels of the question name, on the 8-bit offset. It has
256 states, so a walk that has not stopped after 256 steps never stops. -/
def skipName (buffer : Memory) (size pos : ℕ) : ℕ → ℕ → Option ℕ
  | 0, _ => none
  | fuel + 1, offs =>
    if offs < size - pos ∧ buffer (pos + offs) ≠ 0 then
      skipName buffer size pos fuel ((offs + ((buffer (pos + offs)).toNat + 1)) % 256)
    else some offs

structure Header where
  transactionId : ℕ
  flags : ℕ
  answers : ℕ
  pos : ℕ

/-- The header and the question; `none` is a return before the query is looked up. -/
def parseHeader (buffer : Memory) (size : ℕ) : Except Halt (Option Header) :=
  match read16BitsRaw buffer size 0 with
  | none => .ok none
  | some (transactionId, pos) =>
    let (flags, pos) := read16Bits buffer size pos
    if flags = 0 then .ok none
    else
      let (questions, pos) := read16Bits buffer size pos
      if questions = 0 then .ok none
      else
        let (answers, pos) := read16Bits buffer size pos
        if answers = 0 then .ok none
        else
          match canAddToPos (2 + 2) size pos with
          | none => .ok none
          | some pos =>
            match skipName buffer size pos 256 0 with
            | none => .error .endlessLoop
            | some offs =>
              let (type, pos) := read16Bits buffer size (pos + offs + 1)
              if type ≠ 0x001c then .ok none
              else
                let (classIn, pos) := read16Bits buffer size pos
                if classIn ≠ 0x0001 then .ok none
                else .ok (some ⟨transactionId, flags, answers, pos⟩)

def settle (buffer : Memory) (size now : ℕ) (h : Header) (q : Query) (d : Dns) :
    Except Halt Dns :=
  if h.flags &&& 0x000F = 0x0001 then flushQuery h.transactionId (callEach q .dnsError) d
  else if h.flags &&& 0xFA0F ≠ 0x8000 then
    flushQuery h.transactionId (callEach q .dnsError) (addCacheEntryFailed now .wrong 0 q.host d)
  else parseAnswers buffer size now h.transactionId q h.answers h.pos false d

/-- One datagram of `parseEvent`. A datagram from any other address than the
configured server is dropped before it is counted. -/
def parseEvent (fromServer : Bool) (buffer : Memory) (size : ℕ) (time : Readings) (d : Dns) :
    Except Halt Dns :=
  if !fromServer then .ok d
  else
    let d := { d with clientInProgress := d.clientInProgress - 1 }
    match parseHeader buffer size with
    | .error halt => .error halt
    | .ok none => .ok d
    | .ok (some h) =>
      match d.queryList.lookup h.transactionId with
      | none => .ok d
      | some q =>
        if q.http.isEmpty && q.https.isEmpty then .ok d
        else settle buffer size (time 0) h q d

def cleanBuckets (time : Readings) : ℕ → List (ℕ × List Bytes) → Dns → Dns
  | _, [], d => d
  | k, (t, list) :: rest, d =>
    if t > time k then d
    else cleanBuckets time (k + 1) rest { d with
      cache := list.foldl (fun cache host => cache.erase host) d.cache
      cacheByOutdatedDate := d.cacheByOutdatedDate.erase t }

/-- Walks a copy of the expiry index in the order of the dates. -/
def cleanCache (time : Readings) (d : Dns) : Dns :=
  cleanBuckets time 0 (inOrder d.cacheByOutdatedDate) d

/-- The label encoding of a host, as `get` writes it. Lengths are cut to a byte. -/
def encodeHost (host : Bytes) : Bytes :=
  (host.splitOn 46).flatMap (fun part => UInt8.ofNat part.length :: part) ++ [0]

/-- The datagram of a query. The id is stored as the host machine stores it. -/
def encodeQuery (id : ℕ) (host : Bytes) : Bytes :=
  [UInt8.ofNat id, UInt8.ofNat (id / 256), 0x01, 0x20, 0, 1, 0, 0, 0, 0, 0, 0] ++
    encodeHost host ++ [0x00, 0x1c, 0x00, 0x01]

def joinQuery (client : ClientId) (https : Bool) (q : Query) : Query :=
  if https then { q with https := q.https ++ [client] } else { q with http := q.http ++ [client] }

/-- The answer of a cache entry that is not outdated. -/
def answerFromCache (client : ClientId) (https : Bool) (entry : CacheEntry) (d : Dns) : Dns :=
  match entry.status with
  | .right =>
    if https then
      let target := ⟨entry.sin6_addr, d.targetHttps.sin6_port⟩
      { d with targetHttps := target, calls := d.calls ++ [.dnsRight client target] }
    else
      let target := ⟨entry.sin6_addr, d.targetHttp.sin6_port⟩
      { d with targetHttp := target, calls := d.calls ++ [.dnsRight client target] }
  | .error => { d with calls := d.calls ++ [.dnsError client] }
  | .wrong => { d with calls := d.calls ++ [.dnsWrong client] }

def sendQuery (client : ClientId) (host : Bytes) (https : Bool) (now : ℕ) (d : Dns) : Dns :=
  let id := d.increment
  let increment := if d.increment + 1 > 65534 then 1 else d.increment + 1
  let datagram := encodeQuery id host
  addQuery id ⟨host, if https then [] else [client], if https then [client] else [], 0, now + 5, datagram⟩
    { d with
      increment := increment
      clientInProgress := d.clientInProgress + 1
      sent := d.sent ++ [datagram] }

/-- `get` once no outstanding query can be joined: answer from the cache, refuse
or ask. The second component is what `get` returns. -/
def resolve (client : ClientId) (host : Bytes) (https : Bool) (time : Readings) (d : Dns) :
    Dns × Bool :=
  let ask (now : ℕ) : Dns × Bool :=
    if d.clientInProgress > 1000 then (d, false) else (sendQuery client host https now d, true)
  match d.cache.lookup host with
  | none => ask (time 0)
  | some entry =>
    if entry.outdated_date > time 0 then
      -- a clock that stepped back must not keep an entry for more than a day
      let entry := { entry with outdated_date := min entry.outdated_date (time 0 + 24 * 3600) }
      (answerFromCache client https entry { d with cache := d.cache.insert host entry }, true)
    else ask (time 1)

/-- `Dns::get` behind its branch for a build with `DEBUGFASTCGI`, which is `getIn`. -/
def get (client : ClientId) (host : Bytes) (https : Bool) (time : Readings) (d : Dns) : Dns × Bool :=
  match d.queryListByHost.lookup host with
  | none => resolve client host https time d
  | some queryId =>
    match d.queryList.lookup queryId with
    | some q => ({ d with queryList := d.queryList.insert queryId (joinQuery client https q) }, true)
    | none => resolve client host https time { d with queryListByHost := d.queryListByHost.erase host }

/-- The hosts that a build with `DEBUGFASTCGI` answers without asking. -/
def debugHosts : List Bytes := [ascii "www.bolivia-online.com", ascii "bolivia-online.com"]

def debugAddress : In6Addr :=
  ⟨[0x28, 0x03, 0x19, 0x20, 0x00, 0x00, 0x00, 0x00, 0x00, 0x00, 0x00, 0x00, 0x00, 0x02, 0x00, 0x10],
    rfl⟩

/-- Clients of both protocols are given the target of http. -/
def getIn (debug : Bool) (client : ClientId) (host : Bytes) (https : Bool) (time : Readings)
    (d : Dns) : Dns × Bool :=
  if debug ∧ host ∈ debugHosts then
    let target := ⟨debugAddress, d.targetHttp.sin6_port⟩
    ({ d with targetHttp := target, calls := d.calls ++ [.dnsRight client target] }, true)
  else d.get client host https time

def leaveQuery (client : ClientId) (https : Bool) (q : Query) : Query :=
  if https then { q with https := q.https.erase client } else { q with http := q.http.erase client }

def cancelClient (client : ClientId) (host : Bytes) (https : Bool) (d : Dns) : Dns :=
  match d.queryListByHost.lookup host with
  | none => d
  | some queryId =>
    match d.queryList.lookup queryId with
    | some q => { d with queryList := d.queryList.insert queryId (leaveQuery client https q) }
    | none => { d with queryListByHost := d.queryListByHost.erase host }

def resend (now id : ℕ) (query : Query) (d : Dns) : Dns :=
  { d with
    queryList := d.queryList.insert id
      { query with retryTime := query.retryTime + 1, nextRetry := now + 5 }
    queryByNextDueTime := push d.queryByNextDueTime (now + 5) id
    sent := d.sent ++ [query.query] }

/-- The ids of one due bucket. The first component counts the clock readings. -/
def checkList (time : Readings) : ℕ → List ℕ → Dns → Except Halt (ℕ × Dns)
  | k, [], d => .ok (k, d)
  | k, id :: ids, d =>
    match d.queryList.lookup id with
    | none => .error .outOfRange
    | some query =>
      if query.retryTime < 2 then checkList time (k + 1) ids (resend (time k) id query d)
      else
        match flushQuery id (callEach query .dnsError) d with
        | .error halt => .error halt
        | .ok d => checkList time k ids d

def checkBuckets (time : Readings) : ℕ → List (ℕ × List ℕ) → Dns → Except Halt Dns
  | _, [], d => .ok d
  | k, (t, list) :: rest, d =>
    if t > time k then .ok d
    else
      match checkList time (k + 1) list d with
      | .error halt => .error halt
      | .ok (k, d) =>
        checkBuckets time k rest { d with queryByNextDueTime := d.queryByNextDueTime.erase t }

def checkQueries (time : Readings) (d : Dns) : Except Halt Dns :=
  checkBuckets time 0 (inOrder d.queryByNextDueTime) d

inductive Event
  | get (client : ClientId) (host : Bytes) (https : Bool) (time : Readings)
  | cancelClient (client : ClientId) (host : Bytes) (https : Bool)
  | datagram (fromServer : Bool) (buffer : Memory) (size : ℕ) (time : Readings)
  | cleanCache (time : Readings)
  | checkQueries (time : Readings)

def perform : Event → Dns → Except Halt Dns
  | .get client host https time, d => .ok (d.get client host https time).1
  | .cancelClient client host https, d => .ok (d.cancelClient client host https)
  | .datagram fromServer buffer size time, d => d.parseEvent fromServer buffer size time
  | .cleanCache time, d => .ok (d.cleanCache time)
  | .checkQueries time, d => d.checkQueries time

def performIn (debug : Bool) : Event → Dns → Except Halt Dns
  | .get client host https time, d => .ok (d.getIn debug client host https time).1
  | e, d => perform e d

def Step (e : Event) (d d' : Dns) : Prop := perform e d = .ok d'

end Dns
end FastCgiCdn.DnsModel
