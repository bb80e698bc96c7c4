import FastCgiCdn.DnsReplies

/-! The address that a well-formed reply gives to the waiting clients, and the ports they
are given it with. The records in front of the first address are passed by their lengths;
the records behind it are read out of step and have no effect. -/

namespace FastCgiCdn.FirstAddress

open DnsModel Dns DnsReplies DnsVerdict GuardedRuns HeldValues

section Ports

/-- The ports of the shared targets. -/
structure Aimed (d : Dns) : Prop where
  http : d.targetHttp.sin6_port = 80
  https : d.targetHttps.sin6_port = 443

variable {d d' : Dns} {id : ℕ} {q : Query} {o : Outcome}

theorem Aimed.congr (aimed : Aimed d) (http : d'.targetHttp = d.targetHttp)
    (https : d'.targetHttps = d.targetHttps) : Aimed d' :=
  ⟨http ▸ aimed.http, https ▸ aimed.https⟩

theorem addCacheEntry_aimed (aimed : Aimed d) (now : ℕ) (s : StatusEntry) (ttl : ℕ) (host : Bytes)
    (sin6_addr : In6Addr) : Aimed (addCacheEntry now s ttl host sin6_addr d) := by
  obtain ⟨cache, index, stored⟩ := addCacheEntry_unchanged now s ttl host sin6_addr d
  rw [stored]
  exact aimed.congr rfl rfl

theorem removeQuery_aimed (aimed : Aimed d) (done : removeQuery id d = .ok d') : Aimed d' := by
  unfold removeQuery at done
  split at done
  · cases done
  · cases done
    exact aimed.congr rfl rfl

theorem flushQuery_aimed (aimed : Aimed d) {calls : List Call}
    (done : flushQuery id calls d = .ok d') : Aimed d' := by
  refine removeQuery_aimed ?_ done
  exact aimed.congr rfl rfl

theorem rightCalls_aimed (aimed : Aimed d) (q : Query) (sin6_addr : In6Addr) :
    Aimed (rightCalls q sin6_addr d) := by
  unfold rightCalls
  constructor
  · dsimp only
    split
    · exact aimed.http
    · exact aimed.http
  · dsimp only
    split
    · exact aimed.https
    · exact aimed.https

theorem conclude_aimed (aimed : Aimed d) {now : ℕ} (done : conclude o now id q d = .ok d') :
    Aimed d' := by
  cases o with
  | refused => exact flushQuery_aimed aimed done
  | failed => exact flushQuery_aimed (addCacheEntry_aimed aimed _ _ _ _ _) done
  | unanswered => exact flushQuery_aimed (addCacheEntry_aimed aimed _ _ _ _ _) done
  | address ttl sin6_addr =>
    unfold conclude flushAddress at done
    dsimp only at done
    split at done
    · exact removeQuery_aimed (rightCalls_aimed (addCacheEntry_aimed aimed _ _ _ _ _) _ _) done
    · exact flushQuery_aimed (addCacheEntry_aimed aimed _ _ _ _ _) done

theorem parseEvent_aimed (aimed : Aimed d) {fromServer : Bool} {buffer : Memory} {size : ℕ}
    {time : Readings} (done : parseEvent fromServer buffer size time d = .ok d') : Aimed d' := by
  have counted : Aimed (uncount d) := aimed.congr rfl rfl
  obtain rfl | rfl | ⟨h, q, o, -, -, concluded⟩ := parseEvent_settles done
  · exact aimed
  · exact counted
  · exact conclude_aimed counted concluded

theorem answerFromCache_aimed (aimed : Aimed d) (client : ClientId) (https : Bool)
    (entry : CacheEntry) : Aimed (answerFromCache client https entry d) := by
  unfold answerFromCache
  cases entry.status with
  | right =>
    cases https with
    | true => exact ⟨aimed.http, aimed.https⟩
    | false => exact ⟨aimed.http, aimed.https⟩
  | wrong => exact aimed.congr rfl rfl
  | error => exact aimed.congr rfl rfl

theorem resolve_aimed (aimed : Aimed d) (client : ClientId) (host : Bytes) (https : Bool)
    (time : Readings) : Aimed (resolve client host https time d).1 := by
  have asked (now : ℕ) : Aimed (if d.clientInProgress > 1000 then (d, false)
      else (sendQuery client host https now d, true)).1 := by
    split
    · exact aimed
    · exact aimed.congr rfl rfl
  unfold resolve
  dsimp only
  cases d.cache.lookup host with
  | none => exact asked _
  | some entry =>
    dsimp only
    split
    · refine answerFromCache_aimed ?_ client https _
      exact aimed.congr rfl rfl
    · exact asked _

theorem get_aimed (aimed : Aimed d) (client : ClientId) (host : Bytes) (https : Bool)
    (time : Readings) : Aimed (Dns.get client host https time d).1 := by
  unfold Dns.get
  split
  · exact resolve_aimed aimed client host https time
  · split
    · exact aimed.congr rfl rfl
    · refine resolve_aimed ?_ client host https time
      exact aimed.congr rfl rfl

theorem cancelClient_aimed (aimed : Aimed d) (client : ClientId) (host : Bytes) (https : Bool) :
    Aimed (Dns.cancelClient client host https d) := by
  unfold Dns.cancelClient
  split
  · exact aimed
  · split <;> exact aimed.congr rfl rfl

theorem cleanCache_aimed (aimed : Aimed d) (time : Readings) : Aimed (cleanCache time d) := by
  obtain ⟨cache, index, cleaned, -⟩ := cleanCache_unchanged time d
  rw [cleaned]
  exact aimed.congr rfl rfl

theorem retry_aimed (aimed : Aimed d) (act : DnsVerdict.Retry d d') : Aimed d' := by
  cases act with
  | resend now found young => exact aimed.congr rfl rfl
  | refuse found done => exact flushQuery_aimed aimed done
  | empty t => exact aimed.congr rfl rfl

theorem retries_aimed (aimed : Aimed d) (acts : Relation.ReflTransGen DnsVerdict.Retry d d') :
    Aimed d' := by
  induction acts with
  | refl => exact aimed
  | tail _ act ih => exact retry_aimed ih act

theorem step_aimed {e : Event} (aimed : Aimed d) (taken : Dns.Step e d d') : Aimed d' := by
  cases e with
  | get client host https time =>
    cases taken
    exact get_aimed aimed client host https time
  | cancelClient client host https =>
    cases taken
    exact cancelClient_aimed aimed client host https
  | datagram fromServer buffer size time => exact parseEvent_aimed aimed taken
  | cleanCache time =>
    cases taken
    exact cleanCache_aimed aimed time
  | checkQueries time =>
    exact retries_aimed aimed (DnsVerdict.checkQueries_retries taken)

theorem reach_aimed (reached : Reach Dns.Step anyStep (· = Dns.initial) d) : Aimed d :=
  reached.invariant (fun _ start => start ▸ ⟨rfl, rfl⟩) fun _ _ _ aimed _ taken => step_aimed aimed taken

end Ports

section Records

variable {buffer : Memory} {size pos : ℕ}

theorem ofMemory_held {bytes : Bytes} (holds : Holds buffer pos bytes) :
    (List.range bytes.length).map (fun i => buffer (pos + i)) = bytes := by
  induction bytes generalizing pos with
  | nil => rfl
  | cons b bytes ih =>
    have rest := ih holds.2
    rw [List.length_cons, List.range_succ_eq_map, List.map_cons, List.map_map, Nat.add_zero, holds.1]
    conv_rhs => rw [← rest]
    congr 2
    funext i
    exact congrArg buffer (by rw [Nat.succ_eq_add_one]; omega)

theorem address_held {r : Record} (holds : Holds buffer pos r.bytes) (aaaa : r.type = 0x001c) :
    (In6Addr.ofMemory buffer (pos + 12)).s6_addr = r.data := by
  obtain ⟨-, sixteen⟩ := r.address aaaa
  simp only [Record.bytes, holds_append, bigEndian16_length, bigEndian32_length] at holds
  have data : Holds buffer (pos + 12) r.data := holds.2.2.2.2.2
  have held := ofMemory_held data
  rw [sixteen] at held
  exact held

theorem answersOutcome_passed {before : List Record} (others : ∀ y ∈ before, y.type ≠ 0x001c)
    (filled : ∀ y ∈ before, y.data ≠ []) (holds : Holds buffer pos (before.flatMap Record.bytes))
    (inside : pos + (before.flatMap Record.bytes).length ≤ size) (left : ℕ) :
    answersOutcome buffer size (before.length + left) pos =
      answersOutcome buffer size left (pos + (before.flatMap Record.bytes).length) := by
  induction before generalizing pos with
  | nil => rw [List.length_nil, Nat.zero_add]; rfl
  | cons y before ih =>
    rw [List.flatMap_cons, holds_append] at holds
    rw [List.flatMap_cons, List.length_append] at inside ⊢
    have fits : pos + y.bytes.length ≤ size := by omega
    have skipped := Record.passed holds.1 fits
      (others y List.mem_cons_self) (before.length + left)
    have rest := ih (fun x member => others x (List.mem_cons_of_mem y member))
      (fun x member => filled x (List.mem_cons_of_mem y member)) holds.2 (by omega)
    rw [List.length_cons, Nat.add_right_comm, skipped, if_neg (filled y List.mem_cons_self), rest,
      Nat.add_assoc]

end Records

section Replies

variable {r : Reply} {buffer : Memory} {d : Dns} {q : Query} {o : Outcome}

theorem answerCalls_idle (idle : (q.http.isEmpty && q.https.isEmpty) = true) (o : Outcome) (d : Dns) :
    answerCalls o q d = [] := by
  obtain ⟨http, https⟩ := Bool.and_eq_true_iff.mp idle
  have none : q.http ++ q.https = [] := by
    rw [List.isEmpty_iff.mp http, List.isEmpty_iff.mp https]
    rfl
  have called := answerCalls_clients o q d
  rw [none] at called
  exact List.map_eq_nil_iff.mp called

theorem reply_calls (time : Readings) (holds : Holds buffer 0 r.bytes)
    (found : d.queryList.lookup r.id = some q) (plain : r.flags &&& 0xFA0F = 0x8000)
    (some_records : r.records ≠ []) (made : List Call) (decided : ∀ pos, Holds buffer pos r.answers →
      pos + r.answers.length ≤ r.bytes.length → ∃ o,
      answersOutcome buffer r.bytes.length r.records.length pos = some o ∧ answerCalls o q d = made) :
    ∃ d', parseEvent true buffer r.bytes.length time d = .ok d' ∧ d'.calls = d.calls ++ made := by
  obtain ⟨pos, answers, inside, parsed⟩ := Reply.parsed holds rfl
  obtain ⟨o, walked, rfl⟩ := decided pos answers inside
  have outcome_is : outcome buffer r.bytes.length ⟨r.id, r.flags, r.records.length, pos⟩ = some o := by
    have code : r.flags &&& 0x000F ≠ 0x0001 := by
      rw [no_error_code plain]
      decide
    rw [outcome, if_neg code, if_neg (not_not.mpr plain)]
    exact walked
  rw [if_neg some_records] at parsed
  rw [parseEvent_server time d parsed]
  unfold settled
  rw [parsed]
  dsimp only
  rw [found]
  dsimp only
  by_cases idle : (q.http.isEmpty && q.https.isEmpty) = true
  · rw [if_pos idle, answerCalls_idle idle, List.append_nil]
    exact ⟨uncount d, rfl, rfl⟩
  · obtain ⟨d', concluded, c⟩ := conclude_ok o (time 0) r.id (d := uncount d) found
    rw [if_neg idle, outcome_is]
    exact ⟨d', concluded, c.calls⟩

def addressCalls (q : Query) (sin6_addr : In6Addr) : List Call :=
  if allowed sin6_addr then
    q.http.map (.dnsRight · ⟨sin6_addr, 80⟩) ++ q.https.map (.dnsRight · ⟨sin6_addr, 443⟩)
  else callEach q .dnsWrong

theorem answerCalls_address (aimed : Aimed d) (ttl : ℕ) (sin6_addr : In6Addr) :
    answerCalls (.address ttl sin6_addr) q d = addressCalls q sin6_addr := by
  unfold answerCalls addressCalls
  rw [aimed.http, aimed.https]

def isAddress (x : Record) : Bool := x.type = 0x001c

theorem isAddress_others {before : List Record} :
    (∀ y ∈ before, !isAddress y) ↔ ∀ y ∈ before, y.type ≠ 0x001c := by
  refine forall_congr' fun y => imp_congr_right fun _ => ?_
  rw [isAddress, Bool.not_eq_true', decide_eq_false_iff_not]

theorem answersOutcome_first {before after : List Record} {x : Record} {size pos : ℕ}
    (others : ∀ y ∈ before, y.type ≠ 0x001c) (aaaa : x.type = 0x001c)
    (filled : ∀ y ∈ before, y.data ≠ [])
    (holds : Holds buffer pos ((before ++ x :: after).flatMap Record.bytes))
    (inside : pos + ((before ++ x :: after).flatMap Record.bytes).length ≤ size)
    (sin6_addr : In6Addr) (same : sin6_addr.s6_addr = x.data) :
    ∃ ttl, answersOutcome buffer size (before ++ x :: after).length pos =
      some (.address ttl sin6_addr) := by
  rw [List.flatMap_append, holds_append, List.flatMap_cons, holds_append] at holds
  rw [List.flatMap_append, List.length_append, List.flatMap_cons, List.length_append] at inside
  have front : pos + (before.flatMap Record.bytes).length ≤ size := by omega
  have fits : pos + (before.flatMap Record.bytes).length + x.bytes.length ≤ size := by omega
  have passed := answersOutcome_passed others filled holds.1 front (after.length + 1)
  obtain ⟨ttl, settled⟩ := Record.settles holds.2.1 fits aaaa after.length
  have held : In6Addr.ofMemory buffer (pos + (before.flatMap Record.bytes).length + 12) = sin6_addr := by
    have data := address_held holds.2.1 aaaa
    cases sin6_addr
    unfold In6Addr.ofMemory at data ⊢
    rw [In6Addr.mk.injEq]
    exact data.trans same.symm
  rw [held] at settled
  rw [List.length_append, List.length_cons, passed]
  exact ⟨ttl, settled⟩

/-- Every waiting client is called with the first address of a reply without an error,
when it is allowed, and with an error when there is none. -/
theorem first_address_is_chosen (r : Reply) (buffer : Memory) (time : Readings) (d : Dns) (q : Query)
    (reached : Reach Dns.Step anyStep (· = Dns.initial) d) (holds : Holds buffer 0 r.bytes)
    (found : d.queryList.lookup r.id = some q) (plain : r.flags &&& 0xFA0F = 0x8000)
    (some_records : r.records ≠ []) (filled : ∀ x ∈ r.records, x.data ≠ []) :
    ∃ d' made, parseEvent true buffer r.bytes.length time d = .ok d' ∧ d'.calls = d.calls ++ made ∧
      ((∀ x ∈ r.records, x.type ≠ 0x001c) → made = callEach q .dnsError) ∧
      ∀ before x after sin6_addr, r.records = before ++ x :: after →
        (∀ y ∈ before, y.type ≠ 0x001c) → x.type = 0x001c → sin6_addr.s6_addr = x.data →
        made = addressCalls q sin6_addr := by
  cases first : r.records.find? isAddress with
  | none =>
    have others : ∀ x ∈ r.records, x.type ≠ 0x001c := by
      intro x member aaaa
      exact List.find?_eq_none.mp first x member (decide_eq_true aaaa)
    obtain ⟨d', done, calls⟩ := reply_calls time holds found plain some_records
      (callEach q .dnsError) fun pos answers inside =>
        ⟨.unanswered, answersOutcome_passed others filled answers inside 0, rfl⟩
    refine ⟨d', _, done, calls, fun _ => rfl, ?_⟩
    intro before x after sin6_addr listed _ aaaa
    exact absurd aaaa (others x (by rw [listed]; simp))
  | some x =>
    obtain ⟨aaaa, before, after, listed, others⟩ := List.find?_eq_some_iff_append.mp first
    rw [isAddress_others] at others
    have type := of_decide_eq_true aaaa
    obtain ⟨-, sixteen⟩ := x.address type
    have filled_before : ∀ y ∈ before, y.data ≠ [] :=
      fun y member => filled y (by rw [listed]; exact List.mem_append_left _ member)
    obtain ⟨d', done, calls⟩ := reply_calls time holds found plain some_records
      (addressCalls q ⟨x.data, sixteen⟩) fun pos answers inside => by
        unfold Reply.answers at answers inside
        rw [listed] at answers inside ⊢
        obtain ⟨ttl, walked⟩ := answersOutcome_first others type filled_before answers inside
          ⟨x.data, sixteen⟩ rfl
        exact ⟨_, walked, answerCalls_address (reach_aimed reached) ttl _⟩
    refine ⟨d', _, done, calls, fun none => ?_, ?_⟩
    · exact absurd type (none x (by rw [listed]; simp))
    · intro before' x' after' sin6_addr listed' others' type' same
      have again : r.records.find? isAddress = some x' := List.find?_eq_some_iff_append.mpr
        ⟨decide_eq_true type', before', after', listed', isAddress_others.mpr others'⟩
      obtain rfl := Option.some.inj (first.symm.trans again)
      cases sin6_addr
      cases same
      rfl

end Replies

theorem alias_typed : 0 < 5 ∧ 5 < 65536 := by decide

theorem alias_sized : ([1, 98, 0] : Bytes).length < 65536 := by decide

theorem alias_address : 5 = 0x001c → 0x0001 = 0x0001 ∧ ([1, 98, 0] : Bytes).length = 16 := by decide

def aliasRecord : Record where
  pointer := 0xC00C
  type := 5
  classIn := 0x0001
  ttl := 300
  data := [1, 98, 0]
  compressed := addressRecord.compressed
  typed := alias_typed
  classed := addressRecord.classed
  timed := addressRecord.timed
  sized := alias_sized
  address := alias_address

theorem address_behind_alias_is_chosen : ∃ d',
    parseEvent true (received (replyTo 0x8180 (by decide) [aliasRecord, addressRecord] (by decide)).bytes)
      (replyTo 0x8180 (by decide) [aliasRecord, addressRecord] (by decide)).bytes.length
      (fun _ => 101) waiting = .ok d' ∧
    d'.calls = [.dnsRight 7 ⟨DnsAddressGuard.insideAddress, 80⟩] := by
  have reached : Reach Dns.Step anyStep (· = Dns.initial) waiting :=
    .next (e := .get 7 [97] false fun _ => 100) (.start rfl) trivial rfl
  obtain ⟨d', made, done, calls, -, address⟩ := first_address_is_chosen
    (replyTo 0x8180 (by decide) [aliasRecord, addressRecord] (by decide)) _ (fun _ => 101) waiting
    waitingQuery reached (holds_received _) rfl (by decide) (List.cons_ne_nil _ _) (by decide)
  have chosen := address [aliasRecord] addressRecord [] DnsAddressGuard.insideAddress rfl (by decide)
    rfl rfl
  refine ⟨d', done, ?_⟩
  rw [calls, chosen]
  decide

end FastCgiCdn.FirstAddress
