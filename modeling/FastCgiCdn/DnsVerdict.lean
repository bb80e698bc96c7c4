import FastCgiCdn.DnsModel

/-! What a datagram decides. The walk over a reply touches the resolver in one
place at most, because nothing after the first flush has an effect; so a reply
is a function of its bytes to an outcome, and `settle` applies that outcome to
the query. Later modules reason about outcomes and not about the walk, and of a tick
about the retries it is made up of. -/

namespace FastCgiCdn.DnsVerdict

open DnsModel Dns

inductive Outcome
  /-- Response code 1: every client gets an error and nothing is cached. -/
  | refused
  /-- Any other header that is not one of an answer. -/
  | failed
  /-- The records ended, or could not be read, before an address. -/
  | unanswered
  | address (ttl : ℕ) (sin6_addr : In6Addr)
  deriving DecidableEq

/-- The outcome of the walk over the records; `none` is a return that leaves the
query as it is. -/
def answersOutcome (buffer : Memory) (size : ℕ) : ℕ → ℕ → Option Outcome
  | 0, _ => some .unanswered
  | left + 1, pos =>
    let (AName, pos) := read16Bits buffer size pos
    if AName = 0 then none
    else
      let (type, pos) := read16Bits buffer size pos
      if type = 0 then some .unanswered
      else if type = 0x001c then
        let (classIn, pos) := read16Bits buffer size pos
        if classIn = 0 then none
        else if classIn ≠ 0x0001 then answersOutcome buffer size left pos
        else
          match read32Bits buffer size pos with
          | none => none
          | some (ttl, pos) =>
            let (datasize, pos) := read16Bits buffer size pos
            if datasize ≠ 16 then none else some (.address ttl (.ofMemory buffer pos))
      else
        let pos := (canAddToPos (2 + 4) size pos).getD pos
        let (datasize, pos) := read16Bits buffer size pos
        if datasize = 0 then none
        else answersOutcome buffer size left ((canAddToPos datasize size pos).getD pos)

def outcome (buffer : Memory) (size : ℕ) (h : Header) : Option Outcome :=
  if h.flags &&& 0x000F = 0x0001 then some .refused
  else if h.flags &&& 0xFA0F ≠ 0x8000 then some .failed
  else answersOutcome buffer size h.answers h.pos

def conclude (o : Outcome) (now id : ℕ) (q : Query) (d : Dns) : Except Halt Dns :=
  match o with
  | .refused => flushQuery id (callEach q .dnsError) d
  | .failed => flushQuery id (callEach q .dnsError) (addCacheEntryFailed now .wrong 0 q.host d)
  | .unanswered => flushFailed now id q d
  | .address ttl sin6_addr => flushAddress now id ttl q sin6_addr d

def concludeSome (o : Option Outcome) (now id : ℕ) (q : Query) (d : Dns) : Except Halt Dns :=
  match o with
  | none => .ok d
  | some o => conclude o now id q d

/-- Once the clients are flushed, no branch of the walk has an effect. -/
theorem parseAnswers_settled (buffer : Memory) (size now id : ℕ) (q : Query) (d : Dns) (left : ℕ) :
    ∀ pos, parseAnswers buffer size now id q left pos true d = .ok d := by
  induction left with
  | zero => exact fun _ => rfl
  | succ left ih =>
    intro pos
    simp only [parseAnswers, Bool.true_eq_false, and_false, if_false, Bool.true_or, if_true]
    split
    · rfl
    split
    · split
      · rfl
      split
      · exact ih _
      split
      · rfl
      split
      · rfl
      · exact ih _
    · split
      · rfl
      · exact ih _

/-- The walk from an unsettled position applies the outcome it decides. -/
theorem parseAnswers_eq (buffer : Memory) (size now id : ℕ) (q : Query) (d : Dns) (left : ℕ) :
    ∀ pos, parseAnswers buffer size now id q left pos false d =
      concludeSome (answersOutcome buffer size left pos) now id q d := by
  induction left with
  | zero => exact fun _ => rfl
  | succ left ih =>
    intro pos
    simp only [parseAnswers, answersOutcome, and_true, Bool.false_or]
    by_cases unnamed : (read16Bits buffer size pos).1 = 0
    · simp only [unnamed, if_true, concludeSome]
    simp only [unnamed, if_false]
    generalize read16Bits buffer size (read16Bits buffer size pos).2 = type
    by_cases unreadable : type.1 = 0
    · -- the query is settled here, and the walk goes on with type 0
      simp only [unreadable, if_true, concludeSome, conclude, decide_true]
      cases flushFailed now id q d with
      | error halt => rfl
      | ok d' =>
        simp only [parseAnswers_settled]
        simp
    simp only [unreadable, if_false, decide_false]
    by_cases aaaa : type.1 = 0x001c
    · simp only [aaaa, if_true]
      generalize read16Bits buffer size type.2 = classIn
      by_cases truncated : classIn.1 = 0
      · simp only [truncated, if_true, concludeSome]
      simp only [truncated, if_false]
      by_cases internet : classIn.1 = 0x0001
      · simp only [internet, ne_eq, not_true, if_false]
        cases read32Bits buffer size classIn.2 with
        | none => rfl
        | some ttl =>
          by_cases sized : (read16Bits buffer size ttl.2).1 = 16
          · simp only [sized, not_true, if_false, Bool.false_eq_true, concludeSome, conclude]
            cases flushAddress now id ttl.1 q _ d with
            | error halt => rfl
            | ok d' => exact parseAnswers_settled ..
          · simp only [sized, not_false_eq_true, if_true, concludeSome]
      · simp only [internet, ne_eq, not_false_eq_true, if_true]
        exact ih _
    · simp only [aaaa, if_false]
      generalize read16Bits buffer size _ = datasize
      by_cases empty : datasize.1 = 0
      · simp only [empty, if_true, concludeSome]
      · simp only [empty, if_false]
        exact ih _

theorem settle_eq (buffer : Memory) (size now : ℕ) (h : Header) (q : Query) (d : Dns) :
    settle buffer size now h q d =
      concludeSome (outcome buffer size h) now h.transactionId q d := by
  simp only [settle, outcome]
  split
  · rfl
  split
  · rfl
  · exact parseAnswers_eq ..

def calledClient : Call → ClientId
  | .dnsRight client _ => client
  | .dnsWrong client => client
  | .dnsError client => client

def answerCalls (o : Outcome) (q : Query) (d : Dns) : List Call :=
  match o with
  | .address _ sin6_addr =>
    if allowed sin6_addr then
      q.http.map (.dnsRight · ⟨sin6_addr, d.targetHttp.sin6_port⟩) ++
        q.https.map (.dnsRight · ⟨sin6_addr, d.targetHttps.sin6_port⟩)
    else callEach q .dnsWrong
  | _ => callEach q .dnsError

theorem callEach_clients (q : Query) (call : ClientId → Call)
    (own : ∀ client, calledClient (call client) = client) :
    (callEach q call).map calledClient = q.http ++ q.https := by
  simp [callEach, Function.comp_def, own]

theorem answerCalls_clients (o : Outcome) (q : Query) (d : Dns) :
    (answerCalls o q d).map calledClient = q.http ++ q.https := by
  cases o with
  | refused => exact callEach_clients q .dnsError fun _ => rfl
  | failed => exact callEach_clients q .dnsError fun _ => rfl
  | unanswered => exact callEach_clients q .dnsError fun _ => rfl
  | address ttl sin6_addr =>
    simp only [answerCalls]
    split
    · simp [Function.comp_def, calledClient]
    · exact callEach_clients q .dnsWrong fun _ => rfl

structure Concluded (o : Outcome) (id : ℕ) (q : Query) (d d' : Dns) : Prop where
  queryList : d'.queryList = d.queryList.erase id
  queryListByHost : d'.queryListByHost = d.queryListByHost.erase q.host
  queryByNextDueTime : d'.queryByNextDueTime = d.queryByNextDueTime.erase q.nextRetry
  calls : d'.calls = d.calls ++ answerCalls o q d
  clientInProgress : d'.clientInProgress = d.clientInProgress
  increment : d'.increment = d.increment
  sent : d'.sent = d.sent

theorem addCacheEntry_unchanged (now : ℕ) (s : StatusEntry) (ttl : ℕ) (host : Bytes)
    (sin6_addr : In6Addr) (d : Dns) : ∃ cache index,
    addCacheEntry now s ttl host sin6_addr d =
      { d with cache := cache, cacheByOutdatedDate := index } := by
  simp only [addCacheEntry, unindex]
  split
  · exact ⟨_, _, rfl⟩
  · split <;> exact ⟨_, _, rfl⟩

theorem conclude_ok (o : Outcome) (now id : ℕ) {q : Query} {d : Dns}
    (found : d.queryList.lookup id = some q) :
    ∃ d', conclude o now id q d = .ok d' ∧ Concluded o id q d d' := by
  have removed : ∀ {d₁ : Dns}, d₁.queryList = d.queryList → removeQuery id d₁ = .ok { d₁ with
      queryByNextDueTime := d₁.queryByNextDueTime.erase q.nextRetry
      queryListByHost := d₁.queryListByHost.erase q.host
      queryList := d₁.queryList.erase id } := by
    intro d₁ same
    rw [removeQuery, same, found]
  cases o with
  | refused =>
    refine ⟨_, removed rfl, ?_⟩
    constructor <;> rfl
  | failed =>
    simp only [conclude, addCacheEntryFailed]
    obtain ⟨cache, index, stored⟩ := addCacheEntry_unchanged now .wrong 0 q.host .zero d
    rw [stored]
    refine ⟨_, removed rfl, ?_⟩
    constructor <;> rfl
  | unanswered =>
    simp only [conclude, flushFailed, addCacheEntryFailed]
    obtain ⟨cache, index, stored⟩ := addCacheEntry_unchanged now .error 3600 q.host .zero d
    rw [stored]
    refine ⟨_, removed rfl, ?_⟩
    constructor <;> rfl
  | address ttl sin6_addr =>
    simp only [conclude, flushAddress]
    split
    · rename_i inside
      obtain ⟨cache, index, stored⟩ := addCacheEntry_unchanged now .right ttl q.host sin6_addr d
      rw [stored]
      refine ⟨_, removed rfl, ?_⟩
      constructor
      case calls =>
        simp only [rightCalls, answerCalls, inside, if_true, List.append_assoc]
        cases q.http <;> cases q.https <;> simp
      all_goals rfl
    · rename_i outside
      obtain ⟨cache, index, stored⟩ := addCacheEntry_unchanged now .wrong ttl q.host sin6_addr d
      rw [stored]
      refine ⟨_, removed rfl, ?_⟩
      constructor
      case calls =>
        simp only [answerCalls, outside, if_false, Bool.false_eq_true]
      all_goals rfl

theorem conclude_concluded {o : Outcome} {now id : ℕ} {q : Query} {d d' : Dns}
    (found : d.queryList.lookup id = some q) (done : conclude o now id q d = .ok d') :
    Concluded o id q d d' := by
  obtain ⟨d₁, returned, concluded⟩ := conclude_ok o now id found
  obtain rfl : d₁ = d' := Except.ok.inj (returned.symm.trans done)
  exact concluded

/-- The query that a datagram from the server settles, and how. -/
def settled (buffer : Memory) (size : ℕ) (d : Dns) : Option (ℕ × Query × Outcome) :=
  match parseHeader buffer size with
  | .ok (some h) =>
    match d.queryList.lookup h.transactionId with
    | some q =>
      if q.http.isEmpty && q.https.isEmpty then none
      else (outcome buffer size h).map (h.transactionId, q, ·)
    | none => none
  | _ => none

theorem settled_found {buffer : Memory} {size : ℕ} {d : Dns} {id : ℕ} {q : Query} {o : Outcome}
    (settles : settled buffer size d = some (id, q, o)) :
    d.queryList.lookup id = some q ∧ q.http ++ q.https ≠ [] := by
  simp only [settled] at settles
  split at settles
  · split at settles
    · rename_i h _ query found
      split at settles
      · cases settles
      · rename_i waiting
        obtain ⟨o', -, same⟩ := Option.map_eq_some_iff.mp settles
        cases same
        exact ⟨found, by simpa [List.append_eq_nil_iff] using waiting⟩
    · cases settles
  · cases settles

def concludeSettled (now : ℕ) (s : Option (ℕ × Query × Outcome)) (d : Dns) : Except Halt Dns :=
  match s with
  | none => .ok d
  | some (id, q, o) => conclude o now id q d

/-- The counter goes down for every datagram from the server. -/
def uncount (d : Dns) : Dns := { d with clientInProgress := d.clientInProgress - 1 }

theorem parseEvent_server {buffer : Memory} {size : ℕ} {header : Option Header} (time : Readings)
    (d : Dns) (parsed : parseHeader buffer size = .ok header) :
    parseEvent true buffer size time d =
      concludeSettled (time 0) (settled buffer size d) (uncount d) := by
  simp only [parseEvent, settled, parsed, Bool.not_true, Bool.false_eq_true, if_false]
  cases header with
  | none => rfl
  | some h =>
    dsimp only
    cases d.queryList.lookup h.transactionId with
    | none => rfl
    | some q =>
      dsimp only
      split
      · rfl
      · rw [settle_eq]
        cases outcome buffer size h <;> rfl

theorem parseEvent_returns {buffer : Memory} {size : ℕ} {time : Readings} {d d' : Dns}
    (done : parseEvent true buffer size time d = .ok d') :
    concludeSettled (time 0) (settled buffer size d) (uncount d) = .ok d' := by
  cases parsed : parseHeader buffer size with
  | error halt =>
    rw [parseEvent, parsed] at done
    cases done
  | ok header => rw [← parseEvent_server time d parsed, done]

/-- What an event of the socket can do: nothing, count, or also settle a query that
is outstanding. -/
theorem parseEvent_settles {fromServer : Bool} {buffer : Memory} {size : ℕ} {time : Readings}
    {d d' : Dns} (done : parseEvent fromServer buffer size time d = .ok d') :
    d' = d ∨ d' = uncount d ∨ ∃ h q o, parseHeader buffer size = .ok (some h) ∧
      d.queryList.lookup h.transactionId = some q ∧
      conclude o (time 0) h.transactionId q (uncount d) = .ok d' := by
  simp only [parseEvent] at done
  split at done
  · cases done
    exact .inl rfl
  split at done
  · cases done
  · cases done
    exact .inr (.inl rfl)
  rename_i h parsed
  split at done
  · cases done
    exact .inr (.inl rfl)
  rename_i q found
  split at done
  · cases done
    exact .inr (.inl rfl)
  rw [settle_eq] at done
  cases decided : outcome buffer size h with
  | none =>
    rw [decided] at done
    cases done
    exact .inr (.inl rfl)
  | some o =>
    rw [decided] at done
    exact .inr (.inr ⟨h, q, o, parsed, found, done⟩)

section Ticks

open Relation (ReflTransGen)

variable {time : Readings} {d d' : Dns}

/-- What a tick does to the resolver, one act at a time. -/
inductive Retry : Dns → Dns → Prop
  | resend {d : Dns} {id : ℕ} {q : Query} (now : ℕ) (found : d.queryList.lookup id = some q)
      (young : q.retryTime < 2) : Retry d (Dns.resend now id q d)
  | refuse {d d' : Dns} {id : ℕ} {q : Query} (found : d.queryList.lookup id = some q)
      (done : conclude .refused 0 id q d = .ok d') : Retry d d'
  | empty (t : ℕ) (d : Dns) : Retry d { d with
      queryByNextDueTime := d.queryByNextDueTime.erase t }

theorem checkList_retries (ids : List ℕ) : ∀ k d k' d',
    checkList time k ids d = .ok (k', d') → ReflTransGen Retry d d' := by
  induction ids with
  | nil =>
    intro k d k' d' done
    cases done
    exact .refl
  | cons id ids ih =>
    intro k d k' d' done
    simp only [checkList] at done
    split at done
    · cases done
    rename_i query found
    split at done
    · rename_i young
      exact .head (.resend (time k) found young) (ih _ _ _ _ done)
    · split at done
      · cases done
      rename_i d₁ flushed
      exact .head (.refuse found flushed) (ih _ _ _ _ done)

theorem checkBuckets_retries (buckets : List (ℕ × List ℕ)) : ∀ k d d',
    checkBuckets time k buckets d = .ok d' → ReflTransGen Retry d d' := by
  induction buckets with
  | nil =>
    intro k d d' done
    cases done
    exact .refl
  | cons entry rest ih =>
    intro k d d' done
    obtain ⟨t, list⟩ := entry
    simp only [checkBuckets] at done
    split at done
    · cases done
      exact .refl
    split at done
    · cases done
    rename_i k₁ d₁ checked
    have emptied := (checkList_retries list _ _ _ _ checked).tail (.empty t d₁)
    exact emptied.trans (ih _ _ _ done)

theorem checkQueries_retries (done : checkQueries time d = .ok d') : ReflTransGen Retry d d' :=
  checkBuckets_retries _ 0 d d' done

theorem cleanBuckets_unchanged (buckets : List (ℕ × List Bytes)) : ∀ k d, ∃ cache index,
    cleanBuckets time k buckets d = { d with cache := cache, cacheByOutdatedDate := index } ∧
      ∀ host entry, cache.lookup host = some entry → d.cache.lookup host = some entry := by
  induction buckets with
  | nil => exact fun _ d => ⟨_, _, rfl, fun _ _ found => found⟩
  | cons entry rest ih =>
    intro k d
    obtain ⟨t, list⟩ := entry
    simp only [cleanBuckets]
    split
    · exact ⟨_, _, rfl, fun _ _ found => found⟩
    · obtain ⟨cache, index, cleaned, older⟩ := ih (k + 1) { d with
        cache := list.foldl (fun cache host => cache.erase host) d.cache
        cacheByOutdatedDate := d.cacheByOutdatedDate.erase t }
      refine ⟨cache, index, cleaned, fun host entry found => ?_⟩
      have before := older host entry found
      rw [BucketIndex.lookup_foldl_erase] at before
      split at before
      · cases before
      · exact before

theorem cleanCache_unchanged (time : Readings) (d : Dns) : ∃ cache index,
    cleanCache time d = { d with cache := cache, cacheByOutdatedDate := index } ∧
      ∀ host entry, cache.lookup host = some entry → d.cache.lookup host = some entry :=
  cleanBuckets_unchanged _ 0 d

end Ticks

end FastCgiCdn.DnsVerdict
