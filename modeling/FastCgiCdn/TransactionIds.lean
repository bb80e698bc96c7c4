import FastCgiCdn.CallbackOnce
import FastCgiCdn.DnsReplies

/-! The ids of the queries. They are numbered by a counter that starts again behind
65534, and nothing compares the next id with the queries outstanding. As long as no
query is outstanding for 65534 others, an id is free when it is given out, the
table of the queries and its index by host say the same, and every client stands in
the list of a query of its host. -/

namespace FastCgiCdn.TransactionIds

open CallbackOnce DnsCounter DnsModel Dns DnsReplies DnsSchedule DnsVerdict GuardedRuns

structure Run where
  dns : Dns
  numbered : ℕ
  number : ℕ → ℕ
  asked : List (ClientId × Bytes × Bool)

def asks : Event → List (ClientId × Bytes × Bool)
  | .get client host https _ => [(client, host, https)]
  | _ => []

namespace Run

def initial : Run := ⟨.initial, 0, fun _ => 0, []⟩

/-- A query is numbered when the counter moves. -/
def after (e : Event) (d : Dns) (r : Run) : Run where
  dns := d
  numbered := if d.increment = r.dns.increment then r.numbered else r.numbered + 1
  number :=
    if d.increment = r.dns.increment then r.number
    else Function.update r.number r.dns.increment r.numbered
  asked := r.asked ++ asks e

end Run

def Step (e : Event) (r r' : Run) : Prop := ∃ d, Dns.Step e r.dns d ∧ r' = r.after e d

/-- When a query is sent, each outstanding one is among the last 65533. -/
def Recent : Event → Run → Prop
  | .get _ host _ time, r =>
    Asks host (time 0) r.dns → ∀ id ∈ r.dns.queryList, r.numbered < r.number id + 65534
  | _, _ => True

def hostOf (d : Dns) (id : ℕ) : Option Bytes := (d.queryList.lookup id).map Query.host

/-- The table of the queries and its index by host. -/
def Agree (d : Dns) : Prop :=
  ∀ host id, d.queryListByHost.lookup host = some id ↔ hostOf d id = some host

variable {r r' : Run} {d d' d'' : Dns} {id : ℕ} {q q' : Query} {host : Bytes} {client : ClientId}
  {https : Bool}

theorem hostOf_of_lookup (found : d.queryList.lookup id = some q) : hostOf d id = some q.host := by
  rw [hostOf, found]
  rfl

theorem lookup_of_hostOf (own : hostOf d id = some host) :
    ∃ q, d.queryList.lookup id = some q ∧ q.host = host := Option.map_eq_some_iff.mp own

theorem hostOf_insert (queries : d'.queryList = d.queryList.insert id q') (other : ℕ) :
    hostOf d' other = if other = id then some q'.host else hostOf d other := by
  by_cases here : other = id
  · subst here
    rw [if_pos rfl, hostOf, queries, AList.lookup_insert]
    rfl
  · rw [if_neg here, hostOf, queries, AList.lookup_insert_ne here]
    rfl

namespace Agree

theorem initial : Agree Dns.initial := by
  intro host id
  constructor <;> intro wrong <;> cases wrong

theorem congr (a : Agree d) (same : ∀ id, hostOf d' id = hostOf d id)
    (hosts : d'.queryListByHost = d.queryListByHost) : Agree d' := by
  intro host id
  rw [hosts, same]
  exact a host id

theorem replace (a : Agree d) (found : d.queryList.lookup id = some q) (kept : q'.host = q.host)
    (queries : d'.queryList = d.queryList.insert id q')
    (hosts : d'.queryListByHost = d.queryListByHost) : Agree d' := by
  refine a.congr (fun other => ?_) hosts
  rw [hostOf_insert queries]
  split
  case isTrue here => rw [here, kept, hostOf_of_lookup found]
  case isFalse => rfl

theorem remove (a : Agree d) (found : d.queryList.lookup id = some q)
    (queries : d'.queryList = d.queryList.erase id)
    (hosts : d'.queryListByHost = d.queryListByHost.erase q.host) : Agree d' := by
  intro host other
  have own := (a q.host id).mpr (hostOf_of_lookup found)
  rw [hosts, hostOf, queries]
  by_cases here : other = id
  · subst here
    rw [AList.lookup_erase]
    constructor
    · intro known
      by_cases same : host = q.host
      · rw [same, AList.lookup_erase] at known
        cases known
      · rw [AList.lookup_erase_ne same, a, hostOf_of_lookup found] at known
        exact absurd (Option.some_inj.mp known).symm same
    · intro wrong
      cases wrong
  · rw [AList.lookup_erase_ne here]
    by_cases same : host = q.host
    · rw [same, AList.lookup_erase]
      constructor
      · intro wrong
        cases wrong
      · intro known
        have another := (a q.host other).mpr known
        exact absurd (Option.some_inj.mp (another.symm.trans own)) here
    · rw [AList.lookup_erase_ne same]
      exact a host other

theorem add (a : Agree d) (free : id ∉ d.queryList) (unknown : d.queryListByHost.lookup host = none)
    (own : q.host = host) (queries : d'.queryList = d.queryList.insert id q)
    (hosts : d'.queryListByHost = d.queryListByHost.insert host id) : Agree d' := by
  intro other id'
  rw [hosts, hostOf_insert queries]
  by_cases here : other = host
  · subst here
    rw [AList.lookup_insert]
    split
    case isTrue same => exact iff_of_true (congrArg some same.symm) (congrArg some own)
    case isFalse different =>
      constructor
      · intro same
        exact absurd (Option.some_inj.mp same).symm different
      · intro known
        rw [← a, unknown] at known
        cases known
  · rw [AList.lookup_insert_ne here]
    split
    case isTrue same =>
      subst same
      constructor
      · intro known
        rw [a, hostOf, AList.lookup_eq_none.mpr free] at known
        cases known
      · intro same
        exact absurd (own.symm.trans (Option.some_inj.mp same)).symm here
    case isFalse => exact a other id'

theorem forget (a : Agree d) (alone : ∀ id ∈ d.queryListByHost.lookup host, id ∉ d.queryList) :
    d.queryListByHost.lookup host = none ∧ DnsCounter.forget host d = d := by
  have unknown : d.queryListByHost.lookup host = none := by
    rw [Option.eq_none_iff_forall_ne_some]
    intro id known
    obtain ⟨q, found, -⟩ := lookup_of_hostOf ((a host id).mp known)
    exact alone id known (mem_of_lookup found)
  exact ⟨unknown, forget_unknown unknown⟩

end Agree

/-- Queries are answered, given up or left by clients, and none is sent. -/
structure Lesser (d d' : Dns) : Prop where
  increment : d'.increment = d.increment
  queries : ∀ id q', d'.queryList.lookup id = some q' → ∃ q, d.queryList.lookup id = some q ∧
    q'.host = q.host ∧ ∀ https, (waiters https q').Sublist (waiters https q)
  agree : Agree d → Agree d'

namespace Lesser

theorem same (increment : d'.increment = d.increment) (queries : d'.queryList = d.queryList)
    (hosts : d'.queryListByHost = d.queryListByHost) : Lesser d d' where
  increment := increment
  queries id q' found := ⟨q', queries ▸ found, rfl, fun _ => List.Sublist.refl _⟩
  agree a := a.congr (fun id => by rw [hostOf, queries, ← hostOf]) hosts

theorem trans (first : Lesser d d') (second : Lesser d' d'') : Lesser d d'' where
  increment := second.increment.trans first.increment
  queries id q'' found := by
    obtain ⟨q', between, host', sub'⟩ := second.queries id q'' found
    obtain ⟨q, before, host, sub⟩ := first.queries id q' between
    exact ⟨q, before, host'.trans host, fun https => (sub' https).trans (sub https)⟩
  agree a := second.agree (first.agree a)

theorem replace (found : d.queryList.lookup id = some q) (kept : q'.host = q.host)
    (sub : ∀ https, (waiters https q').Sublist (waiters https q))
    (increment : d'.increment = d.increment) (queries : d'.queryList = d.queryList.insert id q')
    (hosts : d'.queryListByHost = d.queryListByHost) : Lesser d d' where
  increment := increment
  queries other p found' := by
    rw [queries] at found'
    obtain ⟨rfl, rfl⟩ | ⟨-, before⟩ := BucketIndex.lookup_insert_cases found'
    · exact ⟨q, found, kept, sub⟩
    · exact ⟨p, before, rfl, fun _ => List.Sublist.refl _⟩
  agree a := a.replace found kept queries hosts

theorem remove (found : d.queryList.lookup id = some q) (increment : d'.increment = d.increment)
    (queries : d'.queryList = d.queryList.erase id)
    (hosts : d'.queryListByHost = d.queryListByHost.erase q.host) : Lesser d d' where
  increment := increment
  queries other p found' := by
    rw [queries] at found'
    by_cases here : other = id
    · subst here
      rw [AList.lookup_erase] at found'
      cases found'
    · rw [AList.lookup_erase_ne here] at found'
      exact ⟨p, found', rfl, fun _ => List.Sublist.refl _⟩
  agree a := a.remove found queries hosts

theorem conclude {o : Outcome} {now : ℕ} (found : d.queryList.lookup id = some q)
    (done : DnsVerdict.conclude o now id q d = .ok d') : Lesser d d' := by
  have c := conclude_concluded found done
  exact remove found c.increment c.queryList c.queryListByHost

theorem cancelClient (client : ClientId) (host : Bytes) (https : Bool) (d : Dns) :
    Lesser d (d.cancelClient client host https) where
  increment := by
    unfold Dns.cancelClient
    split
    · rfl
    · split <;> rfl
  queries id q' found := by
    rw [cancelClient_lookup] at found
    split at found
    · obtain ⟨q, before, rfl⟩ := Option.map_eq_some_iff.mp found
      refine ⟨q, before, leaveQuery_host _ _ _, fun own => ?_⟩
      rw [waiters_leaveQuery]
      split
      · exact List.erase_sublist
      · exact List.Sublist.refl _
    · exact ⟨q', found, rfl, fun _ => List.Sublist.refl _⟩
  agree a := by
    unfold Dns.cancelClient
    split
    case h_1 => exact a
    case h_2 id known =>
      obtain ⟨q, found, -⟩ := lookup_of_hostOf ((a host id).mp known)
      rw [found]
      exact a.replace found (leaveQuery_host _ _ _) rfl rfl

theorem resend {now : ℕ} (found : d.queryList.lookup id = some q) :
    Lesser d (Dns.resend now id q d) :=
  let later : Query := { q with retryTime := q.retryTime + 1, nextRetry := now + 5 }
  have kept : later.host = q.host := rfl
  replace found kept (fun _ => List.Sublist.refl _) rfl rfl rfl

theorem cleanCache (time : Readings) (d : Dns) : Lesser d (d.cleanCache time) := by
  obtain ⟨cache, index, cleaned, -⟩ := cleanCache_unchanged time d
  rw [cleaned]
  exact same rfl rfl rfl

theorem retry (act : Retry d d') : Lesser d d' := by
  cases act with
  | resend now found young => exact resend found
  | refuse found done => exact conclude found done
  | empty t => exact same rfl rfl rfl

theorem retries (acts : Relation.ReflTransGen Retry d d') : Lesser d d' := by
  induction acts with
  | refl => exact same rfl rfl rfl
  | tail _ act ih => exact ih.trans (retry act)

theorem step {e : Event} (other : asks e = []) (taken : Dns.Step e d d') : Lesser d d' := by
  cases e with
  | get => cases other
  | cancelClient client host https =>
    cases taken
    exact cancelClient client host https d
  | datagram fromServer buffer size time =>
    obtain rfl | rfl | ⟨h, q, o, -, found, concluded⟩ := parseEvent_settles taken
    · exact same rfl rfl rfl
    · exact same rfl rfl rfl
    · have uncounted : Lesser d (uncount d) := same rfl rfl rfl
      exact uncounted.trans (conclude found concluded)
  | cleanCache time =>
    cases taken
    exact cleanCache time d
  | checkQueries time => exact retries (checkQueries_retries taken)

end Lesser

/-- What is kept while every outstanding query is recent. -/
structure Kept (r : Run) : Prop where
  next : r.dns.increment = r.numbered % 65534 + 1
  given : ∀ id ∈ r.dns.queryList, r.number id < r.numbered ∧ id = r.number id % 65534 + 1
  agree : Agree r.dns
  clients : ∀ id q https c, r.dns.queryList.lookup id = some q →
    (waiters https q).count c ≤ r.asked.count (c, q.host, https)

namespace Kept

theorem initial : Kept Run.initial where
  next := rfl
  given id member := absurd member (AList.notMem_empty id)
  agree := Agree.initial
  clients id q https c found := by cases found

/-- Two queries of one id are 65534 queries apart. -/
theorem free (k : Kept r) (recent : ∀ id ∈ r.dns.queryList, r.numbered < r.number id + 65534) :
    r.dns.increment ∉ r.dns.queryList := by
  intro taken
  obtain ⟨before, own⟩ := k.given _ taken
  have young := recent _ taken
  have next := k.next
  omega

theorem lesser (k : Kept r) (e : Event) (less : Lesser r.dns d) : Kept (r.after e d) where
  next := by
    simp only [Run.after, less.increment, if_true]
    exact k.next
  given id member := by
    simp only [Run.after, less.increment, if_true] at member ⊢
    obtain ⟨q', found⟩ := Option.isSome_iff_exists.mp (AList.lookup_isSome.mpr member)
    obtain ⟨q, before, -⟩ := less.queries id q' found
    exact k.given id (mem_of_lookup before)
  agree := less.agree k.agree
  clients id q' https c found := by
    obtain ⟨q, before, host, sub⟩ := less.queries id q' found
    have old := k.clients id q https c before
    have fewer := (sub https).count_le c
    rw [← host] at old
    simp only [Run.after, List.count_append]
    omega

theorem joined (k : Kept r) (time : Readings) (known : r.dns.queryListByHost.lookup host = some id)
    (found : r.dns.queryList.lookup id = some q) :
    Kept (r.after (.get client host https time)
      { r.dns with queryList := r.dns.queryList.insert id (joinQuery client https q) }) where
  next := by
    simp only [Run.after, if_true]
    exact k.next
  given other member := by
    simp only [Run.after, if_true] at member ⊢
    rw [AList.mem_insert] at member
    rcases member with rfl | old
    · exact k.given other (mem_of_lookup found)
    · exact k.given other old
  agree := k.agree.replace found (joinQuery_host _ _ _) rfl rfl
  clients other q' own c found' := by
    obtain ⟨rfl, rfl⟩ | ⟨-, before⟩ := BucketIndex.lookup_insert_cases found'
    · have here : q.host = host := by
        have same := (k.agree host other).mp known
        rw [hostOf_of_lookup found] at same
        exact Option.some_inj.mp same
      have old := k.clients other q own c found
      rw [joinQuery_host, waiters_joinQuery]
      simp only [Run.after, asks, List.count_append]
      split
      case isTrue same =>
        subst same
        rw [List.count_append, List.count_singleton, List.count_singleton, here]
        rw [here] at old
        by_cases me : client = c
        · simp only [me, beq_self_eq_true, if_true]
          omega
        · have other : (client == c) = false := beq_false_of_ne me
          simp only [other, Bool.false_eq_true, if_false]
          omega
      case isFalse => exact Nat.le_add_right_of_le old
    · have old := k.clients other q' own c before
      simp only [Run.after, List.count_append]
      omega

theorem moves (k : Kept r) (client : ClientId) (host : Bytes) (https : Bool) (now : ℕ) :
    (sendQuery client host https now r.dns).increment = (r.numbered + 1) % 65534 + 1 ∧
      (sendQuery client host https now r.dns).increment ≠ r.dns.increment := by
  have next := k.next
  have counted : (sendQuery client host https now r.dns).increment =
      if r.dns.increment + 1 > 65534 then 1 else r.dns.increment + 1 := rfl
  rw [counted]
  split <;> omega

theorem sent (k : Kept r) (time : Readings) (now : ℕ) (free : r.dns.increment ∉ r.dns.queryList)
    (unknown : r.dns.queryListByHost.lookup host = none) :
    Kept (r.after (.get client host https time) (sendQuery client host https now r.dns)) := by
  obtain ⟨next, moved⟩ := k.moves client host https now
  constructor
  case next =>
    simp only [Run.after, if_neg moved]
    exact next
  case given =>
    intro id member
    simp only [Run.after, if_neg moved] at member ⊢
    change id ∈ r.dns.queryList.insert r.dns.increment _ at member
    rw [AList.mem_insert] at member
    by_cases here : id = r.dns.increment
    · subst here
      rw [Function.update_self]
      exact ⟨Nat.lt_succ_self _, k.next⟩
    · obtain ⟨before, own⟩ := k.given id (member.resolve_left here)
      rw [Function.update_of_ne here]
      exact ⟨Nat.lt_succ_of_lt before, own⟩
  case agree => exact k.agree.add free unknown rfl rfl rfl
  case clients =>
    intro id q own c found
    simp only [Run.after, asks, List.count_append, List.count_singleton]
    obtain ⟨-, rfl⟩ | ⟨-, before⟩ := BucketIndex.lookup_insert_cases found
    · by_cases me : client = c
      · subst me
        cases own <;> cases https <;> simp [waiters]
      · cases own <;> cases https <;> simp [waiters, me]
    · exact Nat.le_add_right_of_le (k.clients id q own c before)

theorem get (k : Kept r) (time : Readings) (recent : Recent (.get client host https time) r) :
    Kept (r.after (.get client host https time) (r.dns.get client host https time).1) := by
  have got := get_got client host https time r.dns
  generalize r.dns.get client host https time = result at got
  cases got with
  | joined known found => exact k.joined time known found
  | refused full alone =>
    rw [(k.agree.forget alone).2]
    exact k.lesser _ (.same rfl rfl rfl)
  | answered cache entry alone =>
    obtain ⟨call, http, secure, -, eq⟩ := answerFromCache_call client https entry
      { DnsCounter.forget host r.dns with cache := cache }
    rw [eq, (k.agree.forget alone).2]
    exact k.lesser _ (.same rfl rfl rfl)
  | asked now asks =>
    obtain ⟨unknown, forgot⟩ := k.agree.forget asks.1
    rw [forgot]
    exact k.sent time now (k.free (recent asks)) unknown

theorem step {e : Event} (k : Kept r) (recent : Recent e r) (taken : Step e r r') : Kept r' := by
  obtain ⟨d, taken, rfl⟩ := taken
  cases e with
  | get client host https time =>
    cases taken
    exact k.get time recent
  | cancelClient | datagram | cleanCache | checkQueries => exact k.lesser _ (.step rfl taken)

end Kept

theorem get_numbers (time : Readings) (a : Agree d)
    (moved : (d.get client host https time).1.increment ≠ d.increment) :
    Asks host (time 0) d ∧ ∃ q, q.host = host ∧
      (d.get client host https time).1.queryList = d.queryList.insert d.increment q := by
  have got := get_got client host https time d
  generalize d.get client host https time = result at got moved
  cases got with
  | joined known found => exact absurd rfl moved
  | refused full alone => exact absurd rfl moved
  | answered cache entry alone =>
    obtain ⟨call, http, secure, -, eq⟩ := answerFromCache_call client https entry
      { DnsCounter.forget host d with cache := cache }
    rw [eq] at moved
    exact absurd rfl moved
  | asked now asks =>
    rw [(a.forget asks.1).2]
    exact ⟨asks, _, rfl, rfl⟩

theorem Kept.answered (k : Kept r) {fromServer : Bool} {buffer : Memory} {size : ℕ}
    {time : Readings} (done : parseEvent fromServer buffer size time r.dns = .ok d) :
    ∃ made, d.calls = r.dns.calls ++ made ∧ ∀ call ∈ made, ∃ h q https,
      parseHeader buffer size = .ok (some h) ∧
        r.dns.queryList.lookup h.transactionId = some q ∧
          (calledClient call, q.host, https) ∈ r.asked := by
  have nobody (call : Call) (wrong : call ∈ []) : ∃ h q https,
      parseHeader buffer size = .ok (some h) ∧
        r.dns.queryList.lookup h.transactionId = some q ∧
          (calledClient call, q.host, https) ∈ r.asked := absurd wrong List.not_mem_nil
  obtain rfl | rfl | ⟨h, q, o, parsed, found, concluded⟩ := parseEvent_settles done
  · exact ⟨[], (List.append_nil _).symm, nobody⟩
  · exact ⟨[], (List.append_nil _).symm, nobody⟩
  · obtain ⟨d₁, returned, c⟩ := conclude_ok o (time 0) h.transactionId (d := uncount r.dns) found
    obtain rfl : d₁ = d := Except.ok.inj (returned.symm.trans concluded)
    refine ⟨answerCalls o q (uncount r.dns), c.calls, fun call member => ?_⟩
    have asked (own : Bool) (waits : calledClient call ∈ waiters own q) :
        (calledClient call, q.host, own) ∈ r.asked := by
      have once := List.count_pos_iff.mpr waits
      exact List.count_pos_iff.mp (Nat.lt_of_lt_of_le once (k.clients _ q own _ found))
    have called : calledClient call ∈ q.http ++ q.https := by
      rw [← answerCalls_clients o q (uncount r.dns)]
      exact List.mem_map_of_mem member
    rcases List.mem_append.mp called with http | https
    · exact ⟨h, q, false, parsed, found, asked false http⟩
    · exact ⟨h, q, true, parsed, found, asked true https⟩

/-- In every run in which no query is outstanding for 65534 others, `get` gives a
query an id that no other has. The table and the index by host are inverse to each
other, so that a host has one query. No client stands in the list of a query more
often than it has asked for the host, and a reply calls nobody who has not. -/
theorem transaction_ids_are_not_shared (reached : Reach Step Recent (· = Run.initial) r) :
    (∀ client host https time, Recent (.get client host https time) r →
      (r.dns.get client host https time).1.increment ≠ r.dns.increment →
        r.dns.increment ∉ r.dns.queryList ∧ ∃ q, q.host = host ∧
          (r.dns.get client host https time).1.queryList =
            r.dns.queryList.insert r.dns.increment q) ∧
      (∀ host id, r.dns.queryListByHost.lookup host = some id ↔
        ∃ q, r.dns.queryList.lookup id = some q ∧ q.host = host) ∧
      (∀ id id' q q', r.dns.queryList.lookup id = some q →
        r.dns.queryList.lookup id' = some q' → q.host = q'.host → id = id') ∧
      (∀ id q https client, r.dns.queryList.lookup id = some q →
        (waiters https q).count client ≤ r.asked.count (client, q.host, https)) ∧
      ∀ fromServer buffer size time d, parseEvent fromServer buffer size time r.dns = .ok d →
        ∃ made, d.calls = r.dns.calls ++ made ∧ ∀ call ∈ made, ∃ h q https,
          parseHeader buffer size = .ok (some h) ∧
            r.dns.queryList.lookup h.transactionId = some q ∧
              (calledClient call, q.host, https) ∈ r.asked := by
  have kept : Kept r := reached.invariant (fun _ first => first ▸ Kept.initial)
    fun _ _ _ k recent taken => k.step recent taken
  refine ⟨?_, ?_, ?_, kept.clients, fun _ _ _ _ _ done => kept.answered done⟩
  · intro client host https time recent moved
    obtain ⟨asks, sends⟩ := get_numbers time kept.agree moved
    exact ⟨kept.free (recent asks), sends⟩
  · intro host id
    exact (kept.agree host id).trans Option.map_eq_some_iff
  · intro id id' q q' found found' same
    have own := (kept.agree q.host id).mpr (hostOf_of_lookup found)
    have other := (kept.agree q'.host id').mpr (hostOf_of_lookup found')
    rw [← same] at other
    exact Option.some_inj.mp (own.symm.trans other)

theorem first_query_is_found : ∃ r, Reach Step Recent (· = Run.initial) r ∧
    r.asked = [(0, [97], false)] ∧ ∃ q, r.dns.queryList.lookup 1 = some q ∧ q.host = [97] := by
  let d : Dns := (Dns.get 0 [97] false (fun _ => 0) .initial).1
  have reached : Reach Step Recent (· = Run.initial)
      (Run.initial.after (.get 0 [97] false fun _ => 0) d) :=
    .next (e := .get 0 [97] false fun _ => 0) (.start rfl)
      (fun _ id member => absurd member (AList.notMem_empty id)) ⟨d, rfl, rfl⟩
  exact ⟨_, reached, rfl, ((transaction_ids_are_not_shared reached).2.1 [97] 1).mp rfl⟩

section Collision

def refusalOf (id : ℕ) : Bytes :=
  [UInt8.ofNat id, UInt8.ofNat (id / 256), 0x81, 0x81, 0, 1, 0, 1, 0, 0, 0, 0, 1, 98, 0, 0x00, 0x1c,
    0x00, 0x01]

theorem refusal_parsed (small : id < 65536) :
    parseHeader (received (refusalOf id)) 19 = .ok (some ⟨id, 0x8181, 1, 19⟩) := by
  have value : (UInt8.ofNat id).toNat + 256 * (UInt8.ofNat (id / 256)).toNat = id := by
    rw [UInt8.toNat_ofNat', UInt8.toNat_ofNat']
    omega
  have read : parseHeader (received (refusalOf id)) 19 = .ok (some
      ⟨(UInt8.ofNat id).toNat + 256 * (UInt8.ofNat (id / 256)).toNat, 0x8181, 1, 19⟩) := rfl
  rw [read, value]

structure Lonely (next : ℕ) (d : Dns) : Prop where
  increment : d.increment = next
  first : hostOf d 1 = some [97]
  others : ∀ id, id ≠ 1 → d.queryList.lookup id = none
  hosts : ∀ host, d.queryListByHost.lookup host = if host = [97] then some 1 else none
  cache : d.cache.lookup [98] = none
  room : d.clientInProgress = 1

theorem Lonely.asks {next : ℕ} (l : Lonely next d) (client : ClientId) :
    (d.get client [98] false fun _ => 0).1 = sendQuery client [98] false 0 d := by
  have unknown : d.queryListByHost.lookup [98] = none := (l.hosts [98]).trans (if_neg (by decide))
  have room : ¬1000 < d.clientInProgress := by
    rw [l.room]
    decide
  simp only [Dns.get, unknown, resolve, l.cache, gt_iff_lt, if_neg room]

def refused (id : ℕ) (q : Query) (d : Dns) : Dns :=
  { d with
    calls := d.calls ++ callEach q .dnsError
    queryByNextDueTime := d.queryByNextDueTime.erase q.nextRetry
    queryListByHost := d.queryListByHost.erase q.host
    queryList := d.queryList.erase id }

def second (id : ℕ) : Query := ⟨[98], [1], [], 0, 5, encodeQuery id [98]⟩

theorem refusal_settles (found : d.queryList.lookup id = some (second id)) (small : id < 65536) :
    parseEvent true (received (refusalOf id)) 19 (fun _ => 0) d =
      .ok (refused id (second id) (uncount d)) := by
  have settles : settled (received (refusalOf id)) 19 d = some (id, second id, .refused) := by
    have waits : ((second id).http.isEmpty && (second id).https.isEmpty) = false := rfl
    have decided : outcome (received (refusalOf id)) 19 ⟨id, 0x8181, 1, 19⟩ = some .refused :=
      if_pos (show 0x8181 &&& 0x000F = 0x0001 by decide)
    simp only [settled, refusal_parsed small, found, waits, decided, Bool.false_eq_true, if_false,
      Option.map_some]
  have still : (uncount d).queryList.lookup id = some (second id) := found
  rw [parseEvent_server _ _ (refusal_parsed small), settles]
  simp only [concludeSettled, conclude, flushQuery, removeQuery, still, refused]

theorem Lonely.round {next : ℕ} (l : Lonely next r.dns) (low : 1 < next) (high : next ≤ 65534) :
    ∃ r₁ r₂, Step (.get 1 [98] false fun _ => 0) r r₁ ∧
      Step (.datagram true (received (refusalOf next)) 19 fun _ => 0) r₁ r₂ ∧
      Lonely (if next + 1 > 65534 then 1 else next + 1) r₂.dns := by
  let d₁ := sendQuery 1 [98] false 0 r.dns
  have queries : d₁.queryList = r.dns.queryList.insert next (second next) := by
    change r.dns.queryList.insert r.dns.increment (second r.dns.increment) = _
    rw [l.increment]
  have hosts : d₁.queryListByHost = r.dns.queryListByHost.insert [98] next := by
    change r.dns.queryListByHost.insert [98] r.dns.increment = _
    rw [l.increment]
  have found : d₁.queryList.lookup next = some (second next) := by
    rw [queries, AList.lookup_insert]
  have settles := refusal_settles found (show next < 65536 by omega)
  refine ⟨r.after _ d₁, Run.after _ _ (r.after _ d₁), ⟨d₁, congrArg Except.ok (l.asks 1), rfl⟩,
    ⟨_, settles, rfl⟩, ?_⟩
  have lookup₂ (id : ℕ) : (d₁.queryList.erase next).lookup id =
      if id = next then none else r.dns.queryList.lookup id := by
    rw [queries]
    split
    case isTrue same => rw [same, AList.lookup_erase]
    case isFalse different =>
      rw [AList.lookup_erase_ne different, AList.lookup_insert_ne different]
  constructor
  case increment =>
    change (if r.dns.increment + 1 > 65534 then 1 else r.dns.increment + 1) = _
    rw [l.increment]
  case first =>
    change ((d₁.queryList.erase next).lookup 1).map Query.host = _
    rw [lookup₂, if_neg (by omega)]
    exact l.first
  case others =>
    intro id different
    change (d₁.queryList.erase next).lookup id = none
    rw [lookup₂, l.others id different, ite_self]
  case hosts =>
    intro host
    change (d₁.queryListByHost.erase [98]).lookup host = _
    rw [hosts]
    by_cases here : host = [98]
    · rw [here, AList.lookup_erase]
      rfl
    · rw [AList.lookup_erase_ne here, AList.lookup_insert_ne here]
      exact l.hosts host
  case cache => exact l.cache
  case room =>
    change r.dns.clientInProgress + 1 - 1 = 1
    rw [l.room]
    rfl

theorem lonely_run (n : ℕ) (inside : n ≤ 65533) :
    ∃ r, Reach Step anyStep (· = Run.initial) r ∧ Lonely ((n + 1) % 65534 + 1) r.dns := by
  induction n with
  | zero =>
    let d : Dns := (Dns.get 0 [97] false (fun _ => 0) .initial).1
    have sent : Reach Step anyStep (· = Run.initial)
        (Run.initial.after (.get 0 [97] false fun _ => 0) d) :=
      .next (e := .get 0 [97] false fun _ => 0) (.start rfl) trivial ⟨d, rfl, rfl⟩
    refine ⟨_, sent, rfl, rfl, ?_, ?_, rfl, rfl⟩
    · intro id different
      change (AList.lookup id (AList.insert 1 _ ∅)) = none
      rw [AList.lookup_insert_ne different]
      rfl
    · intro host
      change (AList.lookup host (AList.insert [97] 1 ∅)) = _
      split
      case isTrue same => rw [same, AList.lookup_insert]
      case isFalse different =>
        rw [AList.lookup_insert_ne different]
        rfl
  | succ n ih =>
    obtain ⟨r, reached, l⟩ := ih (by omega)
    obtain ⟨r₁, r₂, asked, answered, l₂⟩ := l.round (by omega) (by omega)
    refine ⟨r₂, (reached.next trivial asked).next trivial answered, ?_⟩
    have next : (if (n + 1) % 65534 + 1 + 1 > 65534 then 1 else (n + 1) % 65534 + 1 + 1) =
        (n + 1 + 1) % 65534 + 1 := by
      split <;> omega
    exact next ▸ l₂

/-- A query that stays outstanding while 65533 others are sent and refused loses its id
to the next, and a client that asks for its host is put into the list of the other. -/
theorem ids_collide : ∃ r r', Reach Step anyStep (· = Run.initial) r ∧
    Step (.get 2 [98] false fun _ => 0) r r' ∧ r'.dns.increment ≠ r.dns.increment ∧
      r.dns.increment ∈ r.dns.queryList ∧
      r'.dns.queryListByHost.lookup [97] = some 1 ∧ hostOf r'.dns 1 = some [98] ∧
      ∃ q, (r'.dns.get 3 [97] false fun _ => 0).1.queryList.lookup 1 = some q ∧
        q.host = [98] ∧ q.http = [2, 3] := by
  obtain ⟨r, reached, l⟩ := lonely_run 65533 (Nat.le_refl _)
  have first : r.dns.increment = 1 := l.increment
  let d := sendQuery 2 [98] false 0 r.dns
  let q : Query := ⟨[98], [2], [], 0, 5, encodeQuery r.dns.increment [98]⟩
  have found : d.queryList.lookup 1 = some q := by
    change (r.dns.queryList.insert r.dns.increment q).lookup 1 = _
    rw [first, AList.lookup_insert]
  have known : d.queryListByHost.lookup [97] = some 1 := by
    change (r.dns.queryListByHost.insert [98] r.dns.increment).lookup [97] = _
    rw [AList.lookup_insert_ne (by decide), l.hosts]
    rfl
  refine ⟨r, r.after _ d, reached, ⟨d, congrArg Except.ok (l.asks 2), rfl⟩, ?_, ?_, known, ?_, ?_⟩
  · change (if r.dns.increment + 1 > 65534 then 1 else r.dns.increment + 1) ≠ r.dns.increment
    rw [first]
    decide
  · rw [first, ← AList.lookup_isSome]
    obtain ⟨old, outstanding, -⟩ := lookup_of_hostOf l.first
    rw [outstanding]
    rfl
  · change (d.queryList.lookup 1).map Query.host = _
    rw [found]
    rfl
  · refine ⟨joinQuery 3 false q, ?_, rfl, rfl⟩
    change (Dns.get 3 [97] false (fun _ => 0) d).1.queryList.lookup 1 = _
    simp only [Dns.get, known, found, AList.lookup_insert]

end Collision

end FastCgiCdn.TransactionIds
