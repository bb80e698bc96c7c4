import FastCgiCdn.Budgets
import FastCgiCdn.DnsCounter

/-! What a question costs the resolver: a datagram when it is asked and one more for
each of two retries. A query that stays outstanding uses up its retries and is given
up when it is due once more. -/

namespace FastCgiCdn.DnsEffort

open Budgets BucketIndex DnsCounter DnsModel Dns DnsSchedule DnsVerdict GuardedRuns
open Relation (ReflTransGen)

variable {d d' : Dns} {id : ℕ} {q q' : Query} {time : Readings}

section Datagrams

theorem joinQuery_retryTime (client : ClientId) (https : Bool) (q : Query) :
    (joinQuery client https q).retryTime = q.retryTime := by
  unfold joinQuery
  split <;> rfl

theorem leaveQuery_retryTime (client : ClientId) (https : Bool) (q : Query) :
    (leaveQuery client https q).retryTime = q.retryTime := by
  unfold leaveQuery
  split <;> rfl

/-- The datagrams that the outstanding queries may still be sent in. -/
def retries (d : Dns) : ℕ := total (fun q => 2 - q.retryTime) d.queryList

/-- The datagrams that have been sent or may still be. -/
def effort (d : Dns) : ℕ := d.sent.length + retries d

def lookups : Event → Dns → ℕ
  | .get .., _ => 1
  | _, _ => 0

theorem effort_congr (sent : d'.sent = d.sent) (queries : d'.queryList = d.queryList) :
    effort d' = effort d := by
  rw [effort, effort, retries, retries, sent, queries]

theorem effort_replace (found : d.queryList.lookup id = some q) (sent : d'.sent = d.sent)
    (queries : d'.queryList = d.queryList.insert id q') (same : q'.retryTime = q.retryTime) :
    effort d' = effort d := by
  have replaced : total (fun q => 2 - q.retryTime) (d.queryList.insert id q') +
      (2 - q.retryTime) = total (fun q => 2 - q.retryTime) d.queryList + (2 - q'.retryTime) :=
    total_replace found
  rw [effort, effort, retries, retries, sent, queries]
  omega

theorem effort_remove (sent : d'.sent = d.sent) (queries : d'.queryList = d.queryList.erase id) :
    effort d' ≤ effort d := by
  rw [effort, effort, retries, retries, sent, queries]
  exact Nat.add_le_add_left (total_erase_le id) _

theorem effort_resend {now : ℕ} (found : d.queryList.lookup id = some q)
    (young : q.retryTime < 2) : effort (Dns.resend now id q d) = effort d := by
  have replaced : total (fun q => 2 - q.retryTime) (d.queryList.insert id
      { q with retryTime := q.retryTime + 1, nextRetry := now + 5 }) + (2 - q.retryTime) =
      total (fun q => 2 - q.retryTime) d.queryList + (2 - (q.retryTime + 1)) :=
    total_replace found
  simp only [effort, retries, Dns.resend, List.length_append, List.length_singleton]
  omega

theorem effort_sendQuery (client : ClientId) (host : Bytes) (https : Bool) (now : ℕ) (d : Dns) :
    effort (sendQuery client host https now d) ≤ effort d + 3 := by
  have inserted (query : Query) : total (fun q => 2 - q.retryTime)
      (d.queryList.insert d.increment query) ≤ (2 - query.retryTime) + retries d :=
    total_insert_le
  have bound := inserted ⟨host, if https then [] else [client],
    if https then [client] else [], 0, now + 5, encodeQuery d.increment host⟩
  simp only [effort, retries, sendQuery, addQuery, List.length_append, List.length_singleton]
    at bound ⊢
  omega

theorem effort_answerFromCache (client : ClientId) (https : Bool) (entry : CacheEntry) (d : Dns) :
    effort (answerFromCache client https entry d) = effort d := by
  unfold answerFromCache
  split
  · split <;> rfl
  all_goals rfl

theorem effort_get (client : ClientId) (host : Bytes) (https : Bool) (time : Readings) (d : Dns) :
    effort (Dns.get client host https time d).1 ≤ effort d + 3 := by
  have got := get_got client host https time d
  generalize Dns.get client host https time d = result at got
  cases got with
  | @joined id q known found =>
    calc
      effort { d with queryList := d.queryList.insert id (joinQuery client https q) } = effort d :=
        effort_replace found rfl rfl (joinQuery_retryTime client https q)
      _ ≤ effort d + 3 := Nat.le_add_right _ _
  | answered cache entry alone =>
    rw [effort_answerFromCache]
    exact Nat.le_add_right _ _
  | refused full alone => exact Nat.le_add_right _ _
  | asked now asks => exact effort_sendQuery client host https now (forget host d)

theorem effort_cancelClient (client : ClientId) (host : Bytes) (https : Bool) (d : Dns) :
    effort (Dns.cancelClient client host https d) = effort d := by
  unfold Dns.cancelClient
  split
  · rfl
  · split
    · rename_i found
      exact effort_replace found rfl rfl (leaveQuery_retryTime ..)
    · rfl

theorem effort_conclude {o : Outcome} {now : ℕ} (found : d.queryList.lookup id = some q)
    (done : conclude o now id q d = .ok d') : effort d' ≤ effort d := by
  have concluded := conclude_concluded found done
  exact effort_remove concluded.sent concluded.queryList

theorem effort_retry (act : Retry d d') : effort d' ≤ effort d := by
  cases act with
  | resend now found young => exact Nat.le_of_eq (effort_resend found young)
  | refuse found done => exact effort_conclude found done
  | empty t => exact Nat.le_of_eq (effort_congr rfl rfl)

theorem effort_retries (acts : ReflTransGen Retry d d') : effort d' ≤ effort d := by
  induction acts with
  | refl => exact Nat.le_refl _
  | tail _ act ih => exact (effort_retry act).trans ih

theorem effort_cleanCache (time : Readings) (d : Dns) :
    effort (Dns.cleanCache time d) = effort d := by
  obtain ⟨cache, index, cleaned, -⟩ := cleanCache_unchanged time d
  rw [cleaned]
  exact effort_congr rfl rfl

theorem effort_step {e : Event} (taken : Dns.Step e d d') :
    effort d' ≤ effort d + 3 * lookups e d := by
  cases e with
  | get client host https time =>
    cases taken
    exact effort_get client host https time d
  | cancelClient client host https =>
    cases taken
    exact Nat.le_of_eq (effort_cancelClient client host https d)
  | datagram fromServer buffer size time =>
    obtain rfl | rfl | ⟨h, q, o, -, found, concluded⟩ := parseEvent_settles taken
    · exact Nat.le_refl _
    · exact Nat.le_refl _
    · exact effort_conclude (d := uncount d) found concluded
  | cleanCache time =>
    cases taken
    exact Nat.le_of_eq (effort_cleanCache time d)
  | checkQueries time => exact effort_retries (checkQueries_retries taken)

/-- Whatever the server, the clock and the other clients do, a client that asks for a
host makes the resolver send three datagrams at most. -/
theorem three_datagrams_for_each_lookup {n : ℕ}
    (run : Counted Dns.Step lookups anyStep (· = Dns.initial) n d) : d.sent.length ≤ 3 * n := by
  have bound : effort d ≤ 3 * n := by
    apply run.paid 3
    · rintro first rfl
      rfl
    · intro e s t _ taken
      exact effort_step taken
  exact (Nat.le_add_right _ _).trans bound

theorem asked_once_sent_thrice : ∃ d : Dns, d.sent.length = 3 ∧ d.sent.length ≤ 3 * 1 := by
  let d₁ : Dns := (Dns.get 7 [97] false (fun _ => 0) .initial).1
  have asked : Counted Dns.Step lookups anyStep (· = Dns.initial) (0 + 1) d₁ :=
    .next (e := Event.get 7 [97] false fun _ => 0) (.start rfl) trivial rfl
  obtain ⟨d₂, first, d₃, second, sent⟩ : ∃ d₂, checkQueries (fun _ => 5) d₁ = .ok d₂ ∧
      ∃ d₃, checkQueries (fun _ => 10) d₂ = .ok d₃ ∧ d₃.sent.length = 3 := ⟨_, rfl, _, rfl, rfl⟩
  have run : Counted Dns.Step lookups anyStep (· = Dns.initial) (0 + 1 + 0 + 0) d₃ :=
    .next (e := Event.checkQueries fun _ => 10)
      (.next (e := Event.checkQueries fun _ => 5) asked trivial first) trivial second
  exact ⟨d₃, sent, three_datagrams_for_each_lookup run⟩

end Datagrams

section Lifetime

/-- A query is sent again only while it has been sent again less than twice. -/
def Older (q q' : Query) : Prop :=
  q.retryTime ≤ q'.retryTime ∧ (q.retryTime ≤ 2 → q'.retryTime ≤ 2)

theorem Older.refl (q : Query) : Older q q := ⟨Nat.le_refl _, fun young => young⟩

theorem Older.trans (q q' q'' : Query) (first : Older q q') (second : Older q' q'') :
    Older q q'' :=
  ⟨first.1.trans second.1, fun young => second.2 (first.2 young)⟩

theorem Older.same (kept : q'.retryTime = q.retryTime) : Older q q' := by
  rw [Older, kept]
  exact ⟨Nat.le_refl _, fun young => young⟩

theorem carried_cancelClient (client : ClientId) (host : Bytes) (https : Bool) (d : Dns) :
    Carried Older d.queryList (Dns.cancelClient client host https d).queryList := by
  unfold Dns.cancelClient
  split
  · exact .refl Older.refl _
  · split
    · rename_i found
      exact .replace Older.refl found (.same (leaveQuery_retryTime ..))
    · exact .refl Older.refl _

theorem carried_conclude {o : Outcome} {now : ℕ} (found : d.queryList.lookup id = some q)
    (done : conclude o now id q d = .ok d') : Carried Older d.queryList d'.queryList := by
  rw [(conclude_concluded found done).queryList]
  exact .erase Older.refl id

theorem carried_resend {now : ℕ} (found : d.queryList.lookup id = some q)
    (young : q.retryTime < 2) :
    Carried Older d.queryList (Dns.resend now id q d).queryList :=
  .replace Older.refl found ⟨Nat.le_succ _, fun _ => young⟩

theorem carried_retry (act : Retry d d') : Carried Older d.queryList d'.queryList := by
  cases act with
  | resend now found young => exact carried_resend found young
  | refuse found done => exact carried_conclude found done
  | empty t => exact .refl Older.refl _

theorem carried_retries (acts : ReflTransGen Retry d d') :
    Carried Older d.queryList d'.queryList := by
  induction acts with
  | refl => exact .refl Older.refl _
  | tail _ act ih => exact ih.trans Older.trans (carried_retry act)

theorem answerFromCache_queryList (client : ClientId) (https : Bool) (entry : CacheEntry)
    (d : Dns) : (answerFromCache client https entry d).queryList = d.queryList := by
  unfold answerFromCache
  split
  · split <;> rfl
  all_goals rfl

theorem step_origin {e : Event} (taken : Dns.Step e d d')
    (found : d'.queryList.lookup id = some q') :
    (∃ q, d.queryList.lookup id = some q ∧ Older q q') ∨
      q'.retryTime = 0 ∧ (Calm e d → id ∉ d.queryList) := by
  cases e with
  | get client host https time =>
    cases taken
    have got := get_got client host https time d
    generalize Dns.get client host https time d = result at got found
    cases got with
    | joined known outstanding =>
      have carried := Carried.replace Older.refl outstanding
        (.same (joinQuery_retryTime client https _))
      exact .inl (carried id q' found)
    | answered cache entry alone =>
      rw [answerFromCache_queryList] at found
      exact .inl ⟨q', found, .refl q'⟩
    | refused full alone => exact .inl ⟨q', found, .refl q'⟩
    | asked now asks =>
      obtain ⟨here, fresh⟩ | ⟨-, before⟩ := lookup_insert_cases found
      · refine .inr ⟨congrArg Query.retryTime fresh.symm, fun calm => ?_⟩
        rw [here]
        exact calm asks
      · exact .inl ⟨q', before, .refl q'⟩
  | cancelClient client host https =>
    cases taken
    exact .inl (carried_cancelClient client host https d id q' found)
  | datagram fromServer buffer size time =>
    obtain rfl | rfl | ⟨h, p, o, -, outstanding, concluded⟩ := parseEvent_settles taken
    · exact .inl ⟨q', found, .refl q'⟩
    · exact .inl ⟨q', found, .refl q'⟩
    · have carried := carried_conclude (d := uncount d) outstanding concluded
      exact .inl (carried id q' found)
  | cleanCache time =>
    cases taken
    obtain ⟨cache, index, cleaned, -⟩ := cleanCache_unchanged time d
    rw [cleaned] at found
    exact .inl ⟨q', found, .refl q'⟩
  | checkQueries time =>
    exact .inl (carried_retries (checkQueries_retries taken) id q' found)

def Young (d : Dns) : Prop := ∀ id q, d.queryList.lookup id = some q → q.retryTime ≤ 2

theorem step_young {e : Event} (y : Young d) (taken : Dns.Step e d d') : Young d' := by
  intro id q' found
  obtain ⟨q, before, older⟩ | ⟨fresh, -⟩ := step_origin taken found
  · exact older.2 (y id q before)
  · rw [fresh]
    exact Nat.zero_le _

def Outstanding (id : ℕ) (e : Event) (d d' : Dns) : Prop :=
  Dns.Step e d d' ∧ id ∈ d'.queryList

/-- A tick that finds a query due counts. -/
noncomputable def dueTicks (id : ℕ) (e : Event) (d : Dns) : ℕ :=
  open Classical in
  if ∃ time t, e = .checkQueries time ∧ due d id = some t ∧ ∀ j, t ≤ time j then 1 else 0

def sentAgain (id : ℕ) (d : Dns) : ℕ := ((d.queryList.lookup id).map Query.retryTime).getD 0

/-- What holds while a query is outstanding in a calm run. -/
structure Waits (id : ℕ) (d : Dns) : Prop where
  scheduled : Scheduled d
  young : Young d
  outstanding : id ∈ d.queryList

theorem sentAgain_of_lookup (found : d.queryList.lookup id = some q) :
    sentAgain id d = q.retryTime := by
  rw [sentAgain, found]
  rfl

theorem Waits.due (w : Waits id d) (steady : Steady time) {t : ℕ}
    (own : DnsSchedule.due d id = some t) (overdue : ∀ j, t ≤ time j)
    (taken : Dns.Step (.checkQueries time) d d') (found' : d'.queryList.lookup id = some q') :
    ∃ q, d.queryList.lookup id = some q ∧ q'.retryTime = q.retryTime + 1 := by
  obtain ⟨q, found, rfl⟩ := lookup_of_due own
  obtain ⟨d₁, run, -, handled⟩ := checkQueries_handles steady w.scheduled
  obtain rfl : d₁ = d' := Except.ok.inj (run.symm.trans taken)
  have done := handled id q found overdue
  rw [Handled] at done
  split at done
  · obtain ⟨-, k, again⟩ := done
    rw [found'] at again
    exact ⟨q, found, congrArg Query.retryTime (Option.some.inj again)⟩
  · rw [found'] at done
    cases done.1

theorem Waits.step {e : Event} (w : Waits id d) (calm : Calm e d)
    (taken : Outstanding id e d d') :
    Waits id d' ∧ sentAgain id d + dueTicks id e d ≤ sentAgain id d' := by
  obtain ⟨taken, still⟩ := taken
  refine ⟨⟨step_scheduled w.scheduled calm taken, step_young w.young taken, still⟩, ?_⟩
  obtain ⟨q', found'⟩ := Option.isSome_iff_exists.mp (AList.lookup_isSome.mpr still)
  rw [sentAgain_of_lookup found', dueTicks]
  split
  case isTrue tick =>
    obtain ⟨time, t, rfl, own, overdue⟩ := tick
    obtain ⟨q, found, again⟩ := w.due calm own overdue taken found'
    rw [sentAgain_of_lookup found, again]
  case isFalse =>
    obtain ⟨q, found, older⟩ | ⟨-, free⟩ := step_origin taken found'
    · rw [sentAgain_of_lookup found]
      exact older.1
    · exact absurd w.outstanding (free calm)

/-- As long as ids are free when they are given out, replies do not share a due time
and the clock does not jump inside a tick, a query is found due by two ticks at most
while it is outstanding, and the next tick that finds it due tells every client that
still waits for it. -/
theorem outstanding_for_two_ticks {n : ℕ} {d₀ : Dns}
    (reached : Reach Dns.Step Calm (· = Dns.initial) d₀)
    (found : d₀.queryList.lookup id = some q)
    (run : Counted (Outstanding id) (dueTicks id) Calm (· = d₀) n d) :
    n + q.retryTime ≤ 2 ∧ ∃ q', d.queryList.lookup id = some q' ∧
      n + q.retryTime ≤ q'.retryTime ∧
        ∀ time, Steady time → (∀ j, q'.nextRetry ≤ time j) → n + q.retryTime = 2 →
          ∃ d', checkQueries time d = .ok d' ∧ d'.queryList.lookup id = none ∧
            ∀ client ∈ q'.http ++ q'.https, Call.dnsError client ∈ d'.calls := by
  have start : Waits id d₀ := by
    constructor
    case scheduled =>
      exact reached.invariant (fun _ first => first ▸ initial_scheduled)
        fun _ _ _ s calm taken => step_scheduled s calm taken
    case young =>
      refine reached.invariant (P := Young) ?_ fun _ _ _ y _ taken => step_young y taken
      rintro first rfl id q none
      cases none
    case outstanding => exact AList.lookup_isSome.mp (by rw [found]; rfl)
  obtain ⟨w, more⟩ : Waits id d ∧ q.retryTime + n ≤ sentAgain id d := by
    refine run.yields (P := Waits id) ?_ fun _ _ _ w calm taken => w.step calm taken
    rintro first rfl
    exact ⟨start, Nat.le_of_eq (sentAgain_of_lookup found).symm⟩
  obtain ⟨q', found'⟩ := Option.isSome_iff_exists.mp (AList.lookup_isSome.mpr w.outstanding)
  have young := w.young id q' found'
  rw [sentAgain_of_lookup found'] at more
  refine ⟨by omega, q', found', by omega, fun time steady overdue spent => ?_⟩
  obtain ⟨d', run, -, handled⟩ := checkQueries_handles steady w.scheduled
  have done := handled id q' found' overdue
  rw [Handled, if_neg (by omega)] at done
  exact ⟨d', run, done⟩

theorem third_tick_tells : ∃ d d', checkQueries (fun _ => 15) d = .ok d' ∧
    d.queryList.lookup 1 ≠ none ∧ d'.queryList.lookup 1 = none ∧ Call.dnsError 7 ∈ d'.calls := by
  let d₁ : Dns := (Dns.get 7 [97] false (fun _ => 0) .initial).1
  have reached : Reach Dns.Step Calm (· = Dns.initial) d₁ :=
    .next (e := Event.get 7 [97] false fun _ => 0) (.start rfl)
      (fun _ => AList.notMem_empty _) rfl
  obtain ⟨d₂, first, due₂, d₃, second, last⟩ : ∃ d₂, checkQueries (fun _ => 5) d₁ = .ok d₂ ∧
      due d₂ 1 = some 10 ∧ ∃ d₃, checkQueries (fun _ => 10) d₂ = .ok d₃ ∧
        d₃.queryList.lookup 1 = some ⟨[97], [7], [], 2, 15, encodeQuery 1 [97]⟩ :=
    ⟨_, rfl, rfl, _, rfl, rfl⟩
  have steady (now : ℕ) : Steady fun _ => now := fun _ _ => Nat.lt_add_of_pos_right (by decide)
  have counts (now t : ℕ) (d : Dns) (own : due d 1 = some t) (late : t ≤ now) :
      dueTicks 1 (.checkQueries fun _ => now) d = 1 := if_pos ⟨_, t, rfl, own, fun _ => late⟩
  have there₂ : 1 ∈ d₂.queryList := by
    obtain ⟨q, found, -⟩ := lookup_of_due due₂
    exact AList.lookup_isSome.mp (by rw [found]; rfl)
  have there₃ : 1 ∈ d₃.queryList := AList.lookup_isSome.mp (by rw [last]; rfl)
  have run : Counted (Outstanding 1) (dueTicks 1) Calm (· = d₁) 2 d₃ := by
    have once : Counted (Outstanding 1) (dueTicks 1) Calm (· = d₁) (0 + _) d₂ :=
      .next (e := Event.checkQueries fun _ => 5) (.start rfl) (steady 5) ⟨first, there₂⟩
    rw [counts 5 5 d₁ rfl (Nat.le_refl _)] at once
    have twice : Counted (Outstanding 1) (dueTicks 1) Calm (· = d₁) (0 + 1 + _) d₃ :=
      .next (e := Event.checkQueries fun _ => 10) once (steady 10) ⟨second, there₃⟩
    rwa [counts 10 10 d₂ due₂ (Nat.le_refl _)] at twice
  have found : d₁.queryList.lookup 1 = some ⟨[97], [7], [], 0, 5, encodeQuery 1 [97]⟩ := rfl
  obtain ⟨-, q, still, -, tells⟩ := outstanding_for_two_ticks reached found run
  obtain rfl : _ = q := Option.some.inj (last.symm.trans still)
  obtain ⟨d', done, gone, told⟩ := tells (fun _ => 15) (steady 15) (fun _ => Nat.le_refl _) rfl
  refine ⟨d₃, d', done, ?_, gone, told 7 (List.mem_singleton_self _)⟩
  rw [last]
  exact Option.some_ne_none _

end Lifetime

end FastCgiCdn.DnsEffort
