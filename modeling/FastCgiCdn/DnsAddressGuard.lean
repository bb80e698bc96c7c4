import FastCgiCdn.DnsVerdict
import FastCgiCdn.GuardedRuns

/-! The address guard of the resolver. Every address handed to a client, at once
or later out of the cache, was checked when it was read: this is an invariant of
the cache and of the callbacks made, kept by every event for any datagram bytes
and any clock. -/

namespace FastCgiCdn.DnsAddressGuard

open DnsModel Dns DnsVerdict GuardedRuns

def Inside (address : In6Addr) : Prop :=
  includePrefix <+: address.s6_addr ∧ ¬ excludePrefix <+: address.s6_addr

structure Guarded (d : Dns) : Prop where
  cached : ∀ host entry, d.cache.lookup host = some entry → entry.status = .right →
    Inside entry.sin6_addr
  called : ∀ client target, Call.dnsRight client target ∈ d.calls → Inside target.sin6_addr

theorem allowed_iff (address : In6Addr) : allowed address = true ↔ Inside address := by
  simp only [allowed, Inside, Bool.and_eq_true, Bool.not_eq_true', ← Bool.not_eq_true,
    List.isPrefixOf_iff_prefix]

theorem initial_guarded : Guarded Dns.initial where
  cached host entry found := by simp [Dns.initial] at found
  called client target made := by simp [Dns.initial] at made

theorem Guarded.congr {d d' : Dns} (g : Guarded d) (cache : d'.cache = d.cache)
    (calls : d'.calls = d.calls) : Guarded d' where
  cached host entry found := g.cached host entry (cache ▸ found)
  called client target made := g.called client target (calls ▸ made)

theorem Guarded.call {d : Dns} (g : Guarded d) (more : List Call)
    (inside : ∀ client target, Call.dnsRight client target ∈ more → Inside target.sin6_addr) :
    Guarded { d with calls := d.calls ++ more } where
  cached := g.cached
  called client target made := by
    rcases List.mem_append.mp made with old | new
    · exact g.called client target old
    · exact inside client target new

theorem addCacheEntry_calls (now : ℕ) (s : StatusEntry) (ttl : ℕ) (host : Bytes)
    (address : In6Addr) (d : Dns) :
    (addCacheEntry now s ttl host address d).calls = d.calls := by
  simp only [addCacheEntry, unindex]
  split
  · rfl
  · split <;> rfl

theorem addCacheEntry_lookup (now : ℕ) (s : StatusEntry) (ttl : ℕ) (host other : Bytes)
    (address : In6Addr) (d : Dns) {entry : CacheEntry}
    (found : (addCacheEntry now s ttl host address d).cache.lookup other = some entry) :
    d.cache.lookup other = some entry ∨ entry.sin6_addr = address ∧ entry.status = s := by
  simp only [addCacheEntry] at found
  split at found
  · exact .inl found
  · have same : (unindex host d).cache = d.cache := by
      simp only [unindex]
      split <;> rfl
    obtain ⟨rfl, rfl⟩ | ⟨-, old⟩ := BucketIndex.lookup_insert_cases found
    · exact .inr ⟨rfl, rfl⟩
    · rw [same] at old
      exact .inl old

theorem addCacheEntry_guarded {d : Dns} (g : Guarded d) (now : ℕ) (s : StatusEntry) (ttl : ℕ)
    (host : Bytes) (address : In6Addr) (inside : s = .right → Inside address) :
    Guarded (addCacheEntry now s ttl host address d) where
  cached other entry found right := by
    rcases addCacheEntry_lookup now s ttl host other address d found with old | ⟨rfl, rfl⟩
    · exact g.cached other entry old right
    · exact inside right
  called client target made :=
    g.called client target (addCacheEntry_calls now s ttl host address d ▸ made)

theorem removeQuery_guarded {d d' : Dns} (g : Guarded d) {id : ℕ}
    (done : removeQuery id d = .ok d') : Guarded d' := by
  simp only [removeQuery] at done
  split at done
  · cases done
  · cases done
    exact g.congr rfl rfl

theorem callEach_dnsError (q : Query) (client : ClientId) (target : SockAddr) :
    Call.dnsRight client target ∉ callEach q .dnsError := by
  simp [callEach]

theorem callEach_dnsWrong (q : Query) (client : ClientId) (target : SockAddr) :
    Call.dnsRight client target ∉ callEach q .dnsWrong := by
  simp [callEach]

theorem flushQuery_guarded {d d' : Dns} (g : Guarded d) {id : ℕ} {calls : List Call}
    (refusal : ∀ client target, Call.dnsRight client target ∉ calls)
    (done : flushQuery id calls d = .ok d') : Guarded d' :=
  removeQuery_guarded (g.call calls fun client target made => absurd made (refusal client target))
    done

theorem flushFailed_guarded {d d' : Dns} (g : Guarded d) {now id : ℕ} {q : Query}
    (done : flushFailed now id q d = .ok d') : Guarded d' :=
  flushQuery_guarded (addCacheEntry_guarded g now .error 3600 q.host .zero (by simp))
    (callEach_dnsError q) done

theorem rightCalls_guarded {d : Dns} (g : Guarded d) (q : Query) {address : In6Addr}
    (inside : Inside address) : Guarded (rightCalls q address d) where
  cached := g.cached
  called client target made := by
    simp only [rightCalls, List.mem_append, List.mem_map] at made
    rcases made with (old | ⟨waiting, member, eq⟩) | ⟨waiting, member, eq⟩
    · exact g.called client target old
    all_goals
      obtain ⟨-, rfl⟩ := Call.dnsRight.inj eq
      rw [if_neg (by simpa using List.ne_nil_of_mem member)]
      exact inside

theorem flushAddress_guarded {d d' : Dns} (g : Guarded d) {now id ttl : ℕ} {q : Query}
    {address : In6Addr} (done : flushAddress now id ttl q address d = .ok d') : Guarded d' := by
  simp only [flushAddress] at done
  split at done
  · rename_i accepted
    have inside := (allowed_iff address).mp accepted
    exact removeQuery_guarded (rightCalls_guarded
      (addCacheEntry_guarded g now .right ttl q.host address fun _ => inside) q inside) done
  · exact flushQuery_guarded (addCacheEntry_guarded g now .wrong ttl q.host address (by simp))
      (callEach_dnsWrong q) done

theorem conclude_guarded {o : Outcome} {now id : ℕ} {q : Query} {d d' : Dns} (g : Guarded d)
    (done : conclude o now id q d = .ok d') : Guarded d' := by
  cases o with
  | refused => exact flushQuery_guarded g (callEach_dnsError q) done
  | failed =>
    exact flushQuery_guarded (addCacheEntry_guarded g now .wrong 0 q.host .zero (by simp))
      (callEach_dnsError q) done
  | unanswered => exact flushFailed_guarded g done
  | address ttl sin6_addr => exact flushAddress_guarded g done

theorem parseEvent_guarded {d d' : Dns} (g : Guarded d) {fromServer : Bool} {buffer : Memory}
    {size : ℕ} {time : Readings} (done : parseEvent fromServer buffer size time d = .ok d') :
    Guarded d' := by
  have counted : Guarded (uncount d) := g.congr rfl rfl
  obtain rfl | rfl | ⟨h, q, o, -, -, concluded⟩ := parseEvent_settles done
  · exact g
  · exact counted
  · exact conclude_guarded counted concluded

theorem answerFromCache_guarded {d : Dns} (g : Guarded d) (client : ClientId) (https : Bool)
    {entry : CacheEntry} (inside : entry.status = .right → Inside entry.sin6_addr) :
    Guarded (answerFromCache client https entry d) := by
  cases status : entry.status with
  | right =>
    cases https
    all_goals
      simp only [answerFromCache, status]
      refine ⟨g.cached, fun other target made => ?_⟩
      rcases List.mem_append.mp made with old | new
      · exact g.called other target old
      · obtain ⟨-, rfl⟩ := Call.dnsRight.inj (List.mem_singleton.mp new)
        exact inside status
  | wrong =>
    simpa only [answerFromCache, status] using g.call [.dnsWrong client] (by simp)
  | error =>
    simpa only [answerFromCache, status] using g.call [.dnsError client] (by simp)

theorem redate_guarded {d : Dns} (g : Guarded d) {host : Bytes} {entry : CacheEntry} (date : ℕ)
    (found : d.cache.lookup host = some entry) :
    Guarded { d with cache := d.cache.insert host { entry with outdated_date := date } } where
  cached other stored looked right := by
    obtain ⟨rfl, rfl⟩ | ⟨-, old⟩ := BucketIndex.lookup_insert_cases looked
    · exact g.cached other entry found right
    · exact g.cached other stored old right
  called := g.called

theorem resolve_guarded {d : Dns} (g : Guarded d) (client : ClientId) (host : Bytes) (https : Bool)
    (time : Readings) : Guarded (resolve client host https time d).1 := by
  have asked : ∀ now, Guarded (if d.clientInProgress > 1000 then (d, false)
      else (sendQuery client host https now d, true)).1 := by
    intro now
    split
    · exact g
    · exact g.congr rfl rfl
  simp only [resolve]
  split
  · exact asked _
  rename_i entry found
  split
  · exact answerFromCache_guarded (redate_guarded g _ found) client https
      fun right => g.cached host entry found right
  · exact asked _

theorem get_guarded {d : Dns} (g : Guarded d) (client : ClientId) (host : Bytes) (https : Bool)
    (time : Readings) : Guarded (Dns.get client host https time d).1 := by
  simp only [Dns.get]
  split
  · exact resolve_guarded g client host https time
  split
  · exact g.congr rfl rfl
  · refine resolve_guarded ?_ client host https time
    exact g.congr rfl rfl

theorem cancelClient_guarded {d : Dns} (g : Guarded d) (client : ClientId) (host : Bytes)
    (https : Bool) : Guarded (Dns.cancelClient client host https d) := by
  simp only [Dns.cancelClient]
  split
  · exact g
  split <;> exact g.congr rfl rfl

theorem cleanCache_guarded {d : Dns} (g : Guarded d) (time : Readings) :
    Guarded (cleanCache time d) := by
  obtain ⟨cache, index, cleaned, older⟩ := cleanCache_unchanged time d
  rw [cleaned]
  exact ⟨fun host entry found right => g.cached host entry (older host entry found) right,
    g.called⟩

theorem retry_guarded {d d' : Dns} (g : Guarded d) (act : Retry d d') : Guarded d' := by
  cases act with
  | resend now found young => exact g.congr rfl rfl
  | refuse found done => exact flushQuery_guarded g (callEach_dnsError _) done
  | empty t => exact g.congr rfl rfl

theorem retries_guarded {d d' : Dns} (g : Guarded d) (acts : Relation.ReflTransGen Retry d d') :
    Guarded d' := by
  induction acts with
  | refl => exact g
  | tail _ act ih => exact retry_guarded ih act

theorem step_guarded {e : Event} {d d' : Dns} (g : Guarded d) (taken : Dns.Step e d d') :
    Guarded d' := by
  cases e with
  | get client host https time =>
    cases taken
    exact get_guarded g client host https time
  | cancelClient client host https =>
    cases taken
    exact cancelClient_guarded g client host https
  | datagram fromServer buffer size time => exact parseEvent_guarded g taken
  | cleanCache time =>
    cases taken
    exact cleanCache_guarded g time
  | checkQueries time => exact retries_guarded g (checkQueries_retries taken)

theorem reach_guarded {d : Dns} (reached : Reach Dns.Step anyStep (· = Dns.initial) d) :
    Guarded d :=
  reached.invariant (fun _ start => start ▸ initial_guarded) fun _ _ _ g _ taken => step_guarded g taken

/-- In every state of every run, each address passed to `dnsRight` and each
address cached as right starts with `include` and does not start with `exclude`. -/
theorem address_guard_cannot_be_bypassed {d : Dns}
    (reached : Reach Dns.Step anyStep (· = Dns.initial) d) :
    (∀ client target, Call.dnsRight client target ∈ d.calls →
      target.sin6_addr.s6_addr.length = 16 ∧ includePrefix <+: target.sin6_addr.s6_addr ∧
        ¬ excludePrefix <+: target.sin6_addr.s6_addr) ∧
    ∀ host entry, d.cache.lookup host = some entry → entry.status = .right →
      includePrefix <+: entry.sin6_addr.s6_addr ∧ ¬ excludePrefix <+: entry.sin6_addr.s6_addr := by
  have guarded := reach_guarded reached
  exact ⟨fun client target made => ⟨target.sin6_addr.size, guarded.called client target made⟩,
    guarded.cached⟩

/-- 2803:1920::1 -/
def insideAddress : In6Addr := ⟨[0x28, 0x03, 0x19, 0x20, 0, 0, 0, 0, 0, 0, 0, 0, 0, 0, 0, 1], rfl⟩

def insideReply : Bytes :=
  [1, 0, 0x81, 0x80, 0, 1, 0, 1, 0, 0, 0, 0, 1, 97, 0, 0x00, 0x1c, 0x00, 0x01,
    0xc0, 0x0c, 0x00, 0x1c, 0x00, 0x01, 0, 0, 1, 0x2c, 0, 16] ++ insideAddress.s6_addr

theorem inside_reply_is_passed_on :
    ∃ d, Reach Dns.Step anyStep (· = Dns.initial) d ∧
      Call.dnsRight 7 ⟨insideAddress, 80⟩ ∈ d.calls ∧ Inside insideAddress := by
  obtain ⟨d, reached, made⟩ : ∃ d, Reach Dns.Step anyStep (· = Dns.initial) d ∧
      Call.dnsRight 7 ⟨insideAddress, 80⟩ ∈ d.calls :=
    ⟨_, .next (e := .datagram true (fun i => insideReply.getD i 0) 47 fun _ => 101)
      (.next (e := .get 7 [97] false fun _ => 100) (.start rfl) trivial rfl) trivial rfl, by decide⟩
  exact ⟨d, reached, made, ((address_guard_cannot_be_bypassed reached).1 7 _ made).2⟩

end FastCgiCdn.DnsAddressGuard
