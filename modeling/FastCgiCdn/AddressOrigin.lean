import FastCgiCdn.DnsAddressGuard
import FastCgiCdn.TransactionIds

/-! Where the addresses come from. A reply that settles a query tells an address for
the host of the query; the cache keeps it, and later clients are given it without a
query of their own. Whoever is given an address has asked for a host that a reply
told the address for, or in a build with `DEBUGFASTCGI` for one of the two hosts that
are answered without asking. -/

namespace FastCgiCdn.AddressOrigin

open CallbackOnce DnsCounter DnsModel Dns DnsVerdict GuardedRuns
open DnsAddressGuard (addCacheEntry_calls addCacheEntry_lookup callEach_dnsError
  callEach_dnsWrong insideAddress insideReply)
open TransactionIds (Kept Recent)

structure Run where
  queries : TransactionIds.Run
  /-- The replies that told an address: the host of the query, and the address. -/
  told : List (Bytes × In6Addr)

def tells : Event → Dns → List (Bytes × In6Addr)
  | .datagram true buffer size _, d =>
    match settled buffer size d with
    | some (_, q, .address _ sin6_addr) => [(q.host, sin6_addr)]
    | _ => []
  | _, _ => []

namespace Run

def initial : Run := ⟨.initial, []⟩

def after (e : Event) (d : Dns) (r : Run) : Run where
  queries := r.queries.after e d
  told := r.told ++ tells e r.queries.dns

end Run

def Step (debug : Bool) (e : Event) (r r' : Run) : Prop :=
  ∃ d, Dns.performIn debug e r.queries.dns = .ok d ∧ r' = r.after e d

/-- The call is answered by the branch of a build with `DEBUGFASTCGI`. -/
def Fixed (debug : Bool) : Event → Prop
  | .get _ host _ _ => debug ∧ host ∈ debugHosts
  | _ => False

/-- When a query is sent, each outstanding one is among the last 65533. -/
def Timely (debug : Bool) (e : Event) (r : Run) : Prop := ¬Fixed debug e → Recent e r.queries

def portOf (https : Bool) : ℕ := if https then 443 else 80

def Given (debug : Bool) (told : List (Bytes × In6Addr)) (host : Bytes) (https : Bool)
    (target : SockAddr) : Prop :=
  (debug ∧ host ∈ debugHosts ∧ target = ⟨debugAddress, portOf false⟩) ∨
    ((host, target.sin6_addr) ∈ told ∧ target.sin6_port = portOf https)

/-- The addresses cached and passed on were told for the hosts asked for. -/
structure Known (debug : Bool) (asked : List (ClientId × Bytes × Bool))
    (told : List (Bytes × In6Addr)) (d : Dns) : Prop where
  cached : ∀ host entry, d.cache.lookup host = some entry → entry.status = .right →
    (host, entry.sin6_addr) ∈ told
  called : ∀ client target, Call.dnsRight client target ∈ d.calls → ∃ host https,
    (client, host, https) ∈ asked ∧ Given debug told host https target
  http : d.targetHttp.sin6_port = portOf false
  https : d.targetHttps.sin6_port = portOf true

variable {debug : Bool} {asked asked' : List (ClientId × Bytes × Bool)} {told told' : List (Bytes × In6Addr)}
  {d d' d'' : Dns} {id : ℕ} {q : Query} {client : ClientId} {host : Bytes} {https : Bool}
  {time : Readings}

theorem getIn_hosted (here : debug ∧ host ∈ debugHosts) :
    (d.getIn debug client host https time).1 = { d with
      targetHttp := ⟨debugAddress, d.targetHttp.sin6_port⟩
      calls := d.calls ++ [.dnsRight client ⟨debugAddress, d.targetHttp.sin6_port⟩] } := by
  rw [getIn, if_pos here]

structure Silent (d d' : Dns) : Prop where
  cached : ∀ host entry, d'.cache.lookup host = some entry → entry.status = .right →
    d.cache.lookup host = some entry
  called : ∀ client target, Call.dnsRight client target ∈ d'.calls →
    Call.dnsRight client target ∈ d.calls
  http : d'.targetHttp = d.targetHttp
  https : d'.targetHttps = d.targetHttps

namespace Silent

theorem same (cache : d'.cache = d.cache) (calls : d'.calls = d.calls)
    (http : d'.targetHttp = d.targetHttp) (https : d'.targetHttps = d.targetHttps) :
    Silent d d' where
  cached _ _ found _ := cache ▸ found
  called _ _ made := calls ▸ made
  http := http
  https := https

theorem trans (first : Silent d d') (second : Silent d' d'') : Silent d d'' where
  cached host entry found right :=
    first.cached host entry (second.cached host entry found right) right
  called client target made := first.called client target (second.called client target made)
  http := second.http.trans first.http
  https := second.https.trans first.https

theorem addCacheEntry {s : StatusEntry} (bad : s ≠ .right) (now ttl : ℕ) (host : Bytes)
    (sin6_addr : In6Addr) (d : Dns) : Silent d (Dns.addCacheEntry now s ttl host sin6_addr d) := by
  obtain ⟨cache, index, stored⟩ := addCacheEntry_unchanged now s ttl host sin6_addr d
  have kept := addCacheEntry_lookup now s ttl host
  constructor
  case cached =>
    intro other entry found right
    rcases kept other sin6_addr d found with old | ⟨-, status⟩
    · exact old
    · exact absurd (status.symm.trans right) bad
  case called =>
    intro client target made
    rwa [addCacheEntry_calls] at made
  case http => rw [stored]
  case https => rw [stored]

theorem flushQuery {calls : List Call}
    (refusal : ∀ client target, Call.dnsRight client target ∉ calls)
    (done : Dns.flushQuery id calls d = .ok d') : Silent d d' := by
  simp only [Dns.flushQuery, removeQuery] at done
  split at done
  · cases done
  · cases done
    constructor
    case cached => exact fun _ _ found _ => found
    case called =>
      intro client target made
      rcases List.mem_append.mp made with old | new
      · exact old
      · exact absurd new (refusal client target)
    all_goals rfl

theorem cancelClient (client : ClientId) (host : Bytes) (https : Bool) (d : Dns) :
    Silent d (d.cancelClient client host https) := by
  unfold Dns.cancelClient
  split
  · exact same rfl rfl rfl rfl
  · split <;> exact same rfl rfl rfl rfl

theorem cleanCache (time : Readings) (d : Dns) : Silent d (d.cleanCache time) := by
  obtain ⟨cache, index, cleaned, older⟩ := cleanCache_unchanged time d
  rw [cleaned]
  exact ⟨fun host entry found _ => older host entry found, fun _ _ made => made, rfl, rfl⟩

theorem retry (act : Retry d d') : Silent d d' := by
  cases act with
  | resend now found young => exact same rfl rfl rfl rfl
  | refuse found done => exact flushQuery (callEach_dnsError _) done
  | empty t => exact same rfl rfl rfl rfl

theorem retries (acts : Relation.ReflTransGen Retry d d') : Silent d d' := by
  induction acts with
  | refl => exact same rfl rfl rfl rfl
  | tail _ act ih => exact ih.trans (retry act)

end Silent

namespace Known

theorem initial : Known debug [] [] Dns.initial where
  cached host entry found := by cases found
  called client target made := by cases made
  http := rfl
  https := rfl

theorem mono (k : Known debug asked told d) (more : asked ⊆ asked') (further : told ⊆ told') :
    Known debug asked' told' d where
  cached host entry found right := further (k.cached host entry found right)
  called client target made := by
    obtain ⟨host, https, asks, given⟩ := k.called client target made
    exact ⟨host, https, more asks, given.imp id fun told => ⟨further told.1, told.2⟩⟩
  http := k.http
  https := k.https

theorem silent (k : Known debug asked told d) (s : Silent d d') : Known debug asked told d' where
  cached host entry found right := k.cached host entry (s.cached host entry found right) right
  called client target made := k.called client target (s.called client target made)
  http := s.http ▸ k.http
  https := s.https ▸ k.https

theorem addCacheEntry (k : Known debug asked told d) (now ttl : ℕ) {sin6_addr : In6Addr}
    (tells : (host, sin6_addr) ∈ told) :
    Known debug asked told (Dns.addCacheEntry now .right ttl host sin6_addr d) := by
  obtain ⟨cache, index, stored⟩ := addCacheEntry_unchanged now .right ttl host sin6_addr d
  constructor
  case cached =>
    intro other entry found right
    rw [Dns.addCacheEntry] at found
    split at found
    · exact k.cached other entry found right
    · have same : (unindex host d).cache = d.cache := by
        unfold unindex
        split <;> rfl
      obtain ⟨rfl, rfl⟩ | ⟨-, old⟩ := BucketIndex.lookup_insert_cases found
      · exact tells
      · rw [same] at old
        exact k.cached other entry old right
  case called =>
    intro client target made
    rw [addCacheEntry_calls] at made
    exact k.called client target made
  case http =>
    rw [stored]
    exact k.http
  case https =>
    rw [stored]
    exact k.https

theorem rightCalls (k : Known debug asked told d) {sin6_addr : In6Addr}
    (tells : (q.host, sin6_addr) ∈ told)
    (clients : ∀ own c, c ∈ waiters own q → (c, q.host, own) ∈ asked) :
    Known debug asked told (Dns.rightCalls q sin6_addr d) := by
  constructor
  case cached => exact k.cached
  case called =>
    intro client target made
    simp only [Dns.rightCalls, List.mem_append, List.mem_map] at made
    rcases made with (old | ⟨waiting, member, eq⟩) | ⟨waiting, member, eq⟩
    · exact k.called client target old
    · obtain ⟨rfl, rfl⟩ := Call.dnsRight.inj eq
      rw [if_neg (by simpa using List.ne_nil_of_mem member)]
      exact ⟨q.host, false, clients false waiting member, .inr ⟨tells, k.http⟩⟩
    · obtain ⟨rfl, rfl⟩ := Call.dnsRight.inj eq
      rw [if_neg (by simpa using List.ne_nil_of_mem member)]
      exact ⟨q.host, true, clients true waiting member, .inr ⟨tells, k.https⟩⟩
  case http =>
    simp only [Dns.rightCalls]
    split <;> exact k.http
  case https =>
    simp only [Dns.rightCalls]
    split <;> exact k.https

theorem conclude (k : Known debug asked told d) {o : Outcome} {now : ℕ}
    (tells : ∀ ttl sin6_addr, o = .address ttl sin6_addr → (q.host, sin6_addr) ∈ told)
    (clients : ∀ own c, c ∈ waiters own q → (c, q.host, own) ∈ asked)
    (done : DnsVerdict.conclude o now id q d = .ok d') : Known debug asked told d' := by
  cases o with
  | refused => exact k.silent (.flushQuery (callEach_dnsError q) done)
  | failed =>
    have stored := Silent.addCacheEntry (s := .wrong) (by decide) now 0 q.host .zero d
    exact k.silent (stored.trans (.flushQuery (callEach_dnsError q) done))
  | unanswered =>
    have stored := Silent.addCacheEntry (s := .error) (by decide) now 3600 q.host .zero d
    exact k.silent (stored.trans (.flushQuery (callEach_dnsError q) done))
  | address ttl sin6_addr =>
    have known := tells ttl sin6_addr rfl
    rw [DnsVerdict.conclude, flushAddress] at done
    split at done
    · rw [removeQuery] at done
      split at done
      · cases done
      · cases done
        have stored := k.addCacheEntry now ttl known
        exact (stored.rightCalls known clients).silent (.same rfl rfl rfl rfl)
    · have stored := Silent.addCacheEntry (s := .wrong) (by decide) now ttl q.host sin6_addr d
      exact k.silent (stored.trans (.flushQuery (callEach_dnsWrong q) done))

theorem answerFromCache (k : Known debug asked told d) {entry : CacheEntry}
    (asks : (client, host, https) ∈ asked)
    (tells : entry.status = .right → (host, entry.sin6_addr) ∈ told) :
    Known debug asked told (Dns.answerFromCache client https entry d) := by
  have others (call : Call) (bad : ∀ target, call ≠ .dnsRight client target)
      (own : calledClient call = client) : Silent d { d with calls := d.calls ++ [call] } := by
    refine ⟨fun _ _ found _ => found, fun c target made => ?_, rfl, rfl⟩
    rcases List.mem_append.mp made with old | new
    · exact old
    · obtain rfl := List.mem_singleton.mp new
      exact absurd (congrArg (Call.dnsRight · target) own) (bad target)
  cases status : entry.status with
  | right =>
    cases https
    all_goals
      simp only [Dns.answerFromCache, status]
      refine ⟨k.cached, fun c target made => ?_, k.http, k.https⟩
      rcases List.mem_append.mp made with old | new
      · exact k.called c target old
      · obtain ⟨rfl, rfl⟩ := Call.dnsRight.inj (List.mem_singleton.mp new)
        exact ⟨host, _, asks, .inr ⟨tells status, by first | exact k.http | exact k.https⟩⟩
  | wrong =>
    simp only [Dns.answerFromCache, status]
    exact k.silent (others _ (fun _ => by simp) rfl)
  | error =>
    simp only [Dns.answerFromCache, status]
    exact k.silent (others _ (fun _ => by simp) rfl)

theorem resolve (k : Known debug asked told d) (asks : (client, host, https) ∈ asked) :
    Known debug asked told (Dns.resolve client host https time d).1 := by
  have sent (now : ℕ) : Known debug asked told (if d.clientInProgress > 1000 then (d, false)
      else (sendQuery client host https now d, true)).1 := by
    split
    · exact k
    · exact k.silent (.same rfl rfl rfl rfl)
  simp only [Dns.resolve]
  split
  · exact sent _
  rename_i entry found
  split
  · refine answerFromCache ?_ asks fun right => k.cached host entry found right
    refine ⟨fun other stored looked right => ?_, k.called, k.http, k.https⟩
    obtain ⟨rfl, rfl⟩ | ⟨-, old⟩ := BucketIndex.lookup_insert_cases looked
    · exact k.cached other entry found right
    · exact k.cached other stored old right
  · exact sent _

theorem get (k : Known debug asked told d) (asks : (client, host, https) ∈ asked) :
    Known debug asked told (Dns.get client host https time d).1 := by
  simp only [Dns.get]
  split
  · exact k.resolve asks
  split
  · exact k.silent (.same rfl rfl rfl rfl)
  · have forgotten : Known debug asked told { d with
        queryListByHost := d.queryListByHost.erase host } := k.silent (.same rfl rfl rfl rfl)
    exact forgotten.resolve asks

theorem fixed (k : Known debug asked told d) (asks : (client, host, https) ∈ asked)
    (here : debug ∧ host ∈ debugHosts) :
    Known debug asked told (d.getIn debug client host https time).1 := by
  rw [getIn_hosted here]
  refine ⟨k.cached, fun c target made => ?_, k.http, k.https⟩
  rcases List.mem_append.mp made with old | new
  · exact k.called c target old
  · obtain ⟨rfl, rfl⟩ := Call.dnsRight.inj (List.mem_singleton.mp new)
    refine ⟨host, https, asks, .inl ⟨here.1, here.2, ?_⟩⟩
    rw [k.http]

theorem getIn (k : Known debug asked told d) (asks : (client, host, https) ∈ asked) :
    Known debug asked told (d.getIn debug client host https time).1 := by
  by_cases here : debug ∧ host ∈ debugHosts
  · exact k.fixed asks here
  · rw [Dns.getIn, if_neg here]
    exact k.get asks

end Known

structure Traced (debug : Bool) (r : Run) : Prop where
  kept : Kept r.queries
  known : Known debug r.queries.asked r.told r.queries.dns

variable {r r' : Run}

theorem Traced.initial : Traced debug Run.initial := ⟨Kept.initial, Known.initial⟩

theorem Traced.datagram (t : Traced debug r) {buffer : Memory} {size : ℕ}
    (done : parseEvent true buffer size time r.queries.dns = .ok d) :
    Known debug r.queries.asked (r.told ++ tells (.datagram true buffer size time) r.queries.dns) d := by
  have more := t.known.mono (List.Subset.refl _)
    (List.subset_append_left r.told (tells (.datagram true buffer size time) r.queries.dns))
  have uncounted : Silent r.queries.dns (uncount r.queries.dns) := .same rfl rfl rfl rfl
  have counted := more.silent uncounted
  have concluded := parseEvent_returns done
  cases decided : settled buffer size r.queries.dns with
  | none =>
    rw [decided] at concluded
    obtain rfl := Except.ok.inj concluded
    exact counted
  | some settling =>
    obtain ⟨id, q, o⟩ := settling
    rw [decided] at concluded
    have found := (settled_found decided).1
    refine counted.conclude ?_ ?_ concluded
    · rintro ttl sin6_addr rfl
      apply List.mem_append_right
      simp only [tells, decided]
      exact List.mem_singleton_self _
    · intro own c waits
      have once := List.count_pos_iff.mpr waits
      exact List.count_pos_iff.mp (Nat.lt_of_lt_of_le once (t.kept.clients id q own c found))

theorem Traced.kept_step {e : Event} (t : Traced debug r) (timely : Timely debug e r)
    (taken : performIn debug e r.queries.dns = .ok d) : Kept (r.queries.after e d) := by
  by_cases here : Fixed debug e
  · cases e with
    | get client host https time =>
      obtain rfl := Except.ok.inj taken
      have hosted : debug ∧ host ∈ debugHosts := here
      refine t.kept.lesser _ ?_
      rw [getIn_hosted hosted]
      exact .same rfl rfl rfl
    | _ => exact here.elim
  · refine t.kept.step (timely here) ⟨d, ?_, rfl⟩
    cases e with
    | get client host https time =>
      have asks : ¬(debug ∧ host ∈ debugHosts) := here
      rw [Dns.Step, perform, ← taken, performIn, getIn, if_neg asks]
    | _ => exact taken

theorem Traced.step {e : Event} (t : Traced debug r) (timely : Timely debug e r)
    (taken : Step debug e r r') : Traced debug r' := by
  obtain ⟨d, taken, rfl⟩ := taken
  refine ⟨t.kept_step timely taken, ?_⟩
  change Known debug (r.queries.asked ++ TransactionIds.asks e) (r.told ++ tells e r.queries.dns) d
  cases e with
  | get client host https time =>
    cases taken
    have more := t.known.mono (List.subset_append_left _ [(client, host, https)])
      (List.subset_append_left r.told [])
    exact more.getIn (List.mem_append_right _ (List.mem_singleton_self _))
  | cancelClient client host https =>
    cases taken
    simp only [TransactionIds.asks, tells, List.append_nil]
    exact t.known.silent (.cancelClient client host https _)
  | datagram fromServer buffer size time =>
    simp only [TransactionIds.asks, List.append_nil]
    cases fromServer with
    | true => exact t.datagram taken
    | false =>
      cases taken
      simp only [tells, List.append_nil]
      exact t.known
  | cleanCache time =>
    cases taken
    simp only [TransactionIds.asks, tells, List.append_nil]
    exact t.known.silent (.cleanCache time _)
  | checkQueries time =>
    simp only [TransactionIds.asks, tells, List.append_nil]
    exact t.known.silent (.retries (checkQueries_retries taken))

end FastCgiCdn.AddressOrigin
