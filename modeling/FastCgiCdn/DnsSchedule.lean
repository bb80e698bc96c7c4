import FastCgiCdn.DnsVerdict
import FastCgiCdn.GuardedRuns

/-! The due-time index of the outstanding queries. `removeQuery` erases the whole
bucket of the query it removes, so a reply takes every other query of the same
second off the schedule, and a new query may be filed under the id of an old one.
In the runs where neither happens the index and the query table agree, and each
tick retries or answers every query that is due. -/

namespace FastCgiCdn.DnsSchedule

open DnsModel Dns DnsVerdict GuardedRuns BucketIndex

def due (d : Dns) (id : ℕ) : Option ℕ := (d.queryList.lookup id).map Query.nextRetry

/-- Each outstanding id stands once in the bucket of its due time, and nothing
else stands in any bucket. -/
def Scheduled (d : Dns) : Prop :=
  ∀ id t, (bucket d.queryByNextDueTime t).count id = if due d id = some t then 1 else 0

theorem due_of_lookup {d : Dns} {id : ℕ} {q : Query} (found : d.queryList.lookup id = some q) :
    due d id = some q.nextRetry := by
  simp [due, found]

theorem Scheduled.filed {d : Dns} (s : Scheduled d) : Filed (due d) d.queryByNextDueTime := s

theorem Scheduled.count_own {d : Dns} (s : Scheduled d) {id : ℕ} {q : Query}
    (found : d.queryList.lookup id = some q) :
    (bucket d.queryByNextDueTime q.nextRetry).count id = 1 :=
  s.filed.count_own (due_of_lookup found)

theorem Scheduled.not_mem_other {d : Dns} (s : Scheduled d) {id t : ℕ} {q : Query}
    (found : d.queryList.lookup id = some q) (other : t ≠ q.nextRetry) :
    id ∉ bucket d.queryByNextDueTime t :=
  s.filed.notMem_other (due_of_lookup found) other

theorem Scheduled.due_of_mem {d : Dns} (s : Scheduled d) {id t : ℕ}
    (member : id ∈ bucket d.queryByNextDueTime t) : due d id = some t :=
  s.filed.mem_iff.mp member

theorem lookup_of_due {d : Dns} {id t : ℕ} (h : due d id = some t) :
    ∃ q, d.queryList.lookup id = some q ∧ q.nextRetry = t := by
  simpa [due] using h

theorem initial_scheduled : Scheduled Dns.initial :=
  filed_empty

theorem Scheduled.congr {d d' : Dns} (s : Scheduled d) (same : ∀ id, due d' id = due d id)
    (index : d'.queryByNextDueTime = d.queryByNextDueTime) : Scheduled d' := by
  intro id t
  rw [index, same, s]

theorem due_insert {d d' : Dns} {id : ℕ} {q q' : Query} (found : d.queryList.lookup id = some q)
    (queries : d'.queryList = d.queryList.insert id q') (kept : q'.nextRetry = q.nextRetry)
    (other : ℕ) : due d' other = due d other := by
  by_cases here : other = id
  · subst here
    simp [due, queries, found, kept]
  · simp [due, queries, AList.lookup_insert_ne here]

theorem addQuery_scheduled {d : Dns} (s : Scheduled d) {id : ℕ} {query : Query}
    (fresh : id ∉ d.queryList) : Scheduled (addQuery id query d) := by
  have free : due d id = none := by
    rw [due, AList.lookup_eq_none.mpr fresh]
    rfl
  have dates : due (addQuery id query d) = Function.update (due d) id (some query.nextRetry) := by
    funext other
    rw [due, addQuery]
    by_cases here : other = id
    · subst here
      simp
    · rw [AList.lookup_insert_ne here, Function.update_of_ne here]
      rfl
  change Filed (due (addQuery id query d)) _
  rw [dates]
  exact s.filed.pushed free query.nextRetry

theorem removeQuery_scheduled {d d' : Dns} (s : Scheduled d) {id : ℕ} {q : Query}
    (found : d.queryList.lookup id = some q)
    (alone : ∀ other, other ≠ id → due d other ≠ some q.nextRetry)
    (done : removeQuery id d = .ok d') : Scheduled d' := by
  simp only [removeQuery, found] at done
  cases done
  intro other t
  by_cases here : other = id
  · subst here
    have gone : due { d with
        queryByNextDueTime := d.queryByNextDueTime.erase q.nextRetry
        queryListByHost := d.queryListByHost.erase q.host
        queryList := d.queryList.erase other } other = none := by
      simp [due]
    rw [gone]
    by_cases now : t = q.nextRetry
    · subst now
      simp
    · simp only [bucket_erase_ne _ now, reduceCtorEq, if_false]
      exact List.count_eq_zero.mpr (s.not_mem_other found now)
  · have same : due { d with
        queryByNextDueTime := d.queryByNextDueTime.erase q.nextRetry
        queryListByHost := d.queryListByHost.erase q.host
        queryList := d.queryList.erase id } other = due d other := by
      simp [due, AList.lookup_erase_ne here]
    rw [same]
    by_cases now : t = q.nextRetry
    · subst now
      simp [alone other here]
    · simp only [bucket_erase_ne _ now]
      exact s other t

/-! The parts of the state that storing a cache entry leaves alone. -/

@[simp] theorem addCacheEntry_queryList (now : ℕ) (s : StatusEntry) (ttl : ℕ) (host : Bytes)
    (address : In6Addr) (d : Dns) :
    (addCacheEntry now s ttl host address d).queryList = d.queryList := by
  simp only [addCacheEntry, unindex]
  split
  · rfl
  · split <;> rfl

@[simp] theorem addCacheEntry_queryByNextDueTime (now : ℕ) (s : StatusEntry) (ttl : ℕ)
    (host : Bytes) (address : In6Addr) (d : Dns) :
    (addCacheEntry now s ttl host address d).queryByNextDueTime = d.queryByNextDueTime := by
  simp only [addCacheEntry, unindex]
  split
  · rfl
  · split <;> rfl

/-- No other outstanding query is due at the same time as `id`. -/
def Alone (d : Dns) (id : ℕ) : Prop :=
  ∀ q, d.queryList.lookup id = some q → ∀ other, other ≠ id → due d other ≠ some q.nextRetry

theorem remove_scheduled {d d₁ d' : Dns} (s : Scheduled d) {id : ℕ} (alone : Alone d id)
    (queries : d₁.queryList = d.queryList) (index : d₁.queryByNextDueTime = d.queryByNextDueTime)
    (done : removeQuery id d₁ = .ok d') : Scheduled d' := by
  have same : ∀ other, due d₁ other = due d other := fun other => by simp [due, queries]
  have s₁ : Scheduled d₁ := s.congr same index
  cases found : d₁.queryList.lookup id with
  | none => simp [removeQuery, found] at done
  | some q =>
    refine removeQuery_scheduled s₁ found (fun other different => ?_) done
    rw [same]
    exact alone q (queries ▸ found) other different

theorem flushFailed_scheduled {d d' : Dns} (s : Scheduled d) {now id : ℕ} {q : Query}
    (alone : Alone d id) (done : flushFailed now id q d = .ok d') : Scheduled d' :=
  remove_scheduled s alone (by simp [addCacheEntryFailed]) (by simp [addCacheEntryFailed]) done

theorem flushAddress_scheduled {d d' : Dns} (s : Scheduled d) {now id ttl : ℕ} {q : Query}
    {address : In6Addr} (alone : Alone d id) (done : flushAddress now id ttl q address d = .ok d') :
    Scheduled d' := by
  simp only [flushAddress] at done
  split at done
  · exact remove_scheduled s alone (by simp [rightCalls]) (by simp [rightCalls]) done
  · exact remove_scheduled s alone (by simp) (by simp) done

theorem conclude_scheduled {o : Outcome} {now id : ℕ} {q : Query} {d d' : Dns} (s : Scheduled d)
    (alone : Alone d id) (done : conclude o now id q d = .ok d') : Scheduled d' := by
  cases o with
  | refused =>
    simp only [conclude, flushQuery] at done
    exact remove_scheduled s alone (by rfl) (by rfl) done
  | failed =>
    exact remove_scheduled s alone (by simp [addCacheEntryFailed]) (by simp [addCacheEntryFailed])
      done
  | unanswered => exact flushFailed_scheduled s alone done
  | address ttl sin6_addr => exact flushAddress_scheduled s alone done

theorem parseEvent_scheduled {d d' : Dns} (s : Scheduled d) {fromServer : Bool} {buffer : Memory}
    {size : ℕ} {time : Readings}
    (alone : fromServer = true → ∀ id q o, settled buffer size d = some (id, q, o) → Alone d id)
    (done : parseEvent fromServer buffer size time d = .ok d') : Scheduled d' := by
  have counted : Scheduled (uncount d) := s.congr (fun _ => rfl) rfl
  cases fromServer with
  | false =>
    cases done
    exact s
  | true =>
    have concluded := parseEvent_returns done
    cases settles : settled buffer size d with
    | none =>
      rw [settles] at concluded
      cases concluded
      exact counted
    | some settling =>
      obtain ⟨id, q, o⟩ := settling
      rw [settles] at concluded
      exact conclude_scheduled counted (alone rfl id q o settles) concluded

/-! The ticks. While the bucket of a due time `t` is worked off, the rest of the
index agrees with the table, and the ids still to come are the queries due at `t`. -/

structure Draining (t : ℕ) (ids : List ℕ) (d : Dns) : Prop where
  rest : ∀ id t', t' ≠ t →
    (bucket d.queryByNextDueTime t').count id = if due d id = some t' then 1 else 0
  coming : ∀ id, id ∈ ids ↔ due d id = some t
  nodup : ids.Nodup

/-- The readings of one tick lie within less than the five seconds of a retry. -/
def Steady (time : Readings) : Prop := ∀ i j, time i < time j + 5

theorem Scheduled.draining {d : Dns} (s : Scheduled d) (t : ℕ) :
    Draining t (bucket d.queryByNextDueTime t) d where
  rest id t' _ := s id t'
  coming id := by
    refine ⟨s.due_of_mem, fun own => ?_⟩
    rw [← List.count_pos_iff, s, if_pos own]
    exact Nat.one_pos
  nodup := s.filed.nodup t

theorem Draining.finish {d : Dns} {t : ℕ} (w : Draining t [] d) :
    Scheduled { d with queryByNextDueTime := d.queryByNextDueTime.erase t } := by
  intro id t'
  by_cases now : t' = t
  · subst now
    have none_due : due d id ≠ some t' := fun own => by simpa using (w.coming id).mpr own
    have same : due { d with queryByNextDueTime := d.queryByNextDueTime.erase t' } id = due d id := rfl
    rw [same, if_neg none_due]
    simp
  · simp only [bucket_erase_ne _ now]
    exact w.rest id t' now

theorem due_resend {now id : ℕ} {query : Query} (d : Dns) (other : ℕ) :
    due (resend now id query d) other = if other = id then some (now + 5) else due d other := by
  by_cases here : other = id
  · subst here
    simp [due, resend]
  · simp [due, resend, here, AList.lookup_insert_ne here]

theorem Draining.resend {d : Dns} {t id now : ℕ} {ids : List ℕ} {query : Query}
    (w : Draining t (id :: ids) d) (later : t ≠ now + 5) :
    Draining t ids (Dns.resend now id query d) where
  rest other t' elsewhere := by
    have own := (w.coming id).mp List.mem_cons_self
    rw [due_resend]
    simp only [Dns.resend, count_bucket_push]
    rw [w.rest other t' elsewhere]
    by_cases here : other = id
    · subst here
      rw [own]
      by_cases target : t' = now + 5
      · simp [target, later]
      · simp [target, Ne.symm target, Ne.symm elsewhere]
    · simp [here]
  coming other := by
    rw [due_resend]
    by_cases here : other = id
    · subst here
      have gone := (List.nodup_cons.mp w.nodup).1
      simp [gone, Ne.symm later]
    · rw [if_neg here, ← w.coming other, List.mem_cons, or_iff_right here]
  nodup := (List.nodup_cons.mp w.nodup).2

theorem due_flushQuery {d d' : Dns} {id : ℕ} {calls : List Call}
    (done : flushQuery id calls d = .ok d') (other : ℕ) :
    due d' other = if other = id then none else due d other := by
  simp only [flushQuery, removeQuery] at done
  split at done
  · cases done
  · cases done
    by_cases here : other = id
    · subst here
      simp [due]
    · simp [due, here, AList.lookup_erase_ne here]

theorem Draining.flush {d d' : Dns} {t id : ℕ} {ids : List ℕ} {calls : List Call}
    (w : Draining t (id :: ids) d) (done : flushQuery id calls d = .ok d') :
    Draining t ids d' where
  rest other t' elsewhere := by
    obtain ⟨q, found, date⟩ := lookup_of_due ((w.coming id).mp List.mem_cons_self)
    have index : d'.queryByNextDueTime = d.queryByNextDueTime.erase t := by
      simp only [flushQuery, removeQuery, found, date] at done
      cases done
      rfl
    rw [due_flushQuery done, index, bucket_erase_ne _ elsewhere, w.rest other t' elsewhere]
    by_cases here : other = id
    · subst here
      simp [due_of_lookup found, date, Ne.symm elsewhere]
    · simp [here]
  coming other := by
    rw [due_flushQuery done]
    by_cases here : other = id
    · subst here
      simp [(List.nodup_cons.mp w.nodup).1]
    · rw [if_neg here, ← w.coming other, List.mem_cons, or_iff_right here]
  nodup := (List.nodup_cons.mp w.nodup).2

def Handled (time : Readings) (id : ℕ) (q : Query) (d' : Dns) : Prop :=
  if q.retryTime < 2 then
    q.query ∈ d'.sent ∧ ∃ k, d'.queryList.lookup id =
      some { q with retryTime := q.retryTime + 1, nextRetry := time k + 5 }
  else
    d'.queryList.lookup id = none ∧ ∀ client ∈ q.http ++ q.https, Call.dnsError client ∈ d'.calls

structure Later (d d' : Dns) : Prop where
  sent : d.sent ⊆ d'.sent
  calls : d.calls ⊆ d'.calls

theorem Later.refl (d : Dns) : Later d d := ⟨fun _ h => h, fun _ h => h⟩

theorem Later.trans {d₁ d₂ d₃ : Dns} (h₁ : Later d₁ d₂) (h₂ : Later d₂ d₃) : Later d₁ d₃ :=
  ⟨fun _ h => h₂.sent (h₁.sent h), fun _ h => h₂.calls (h₁.calls h)⟩

theorem later_resend (now id : ℕ) (query : Query) (d : Dns) : Later d (Dns.resend now id query d) :=
  ⟨List.subset_append_left _ _, fun _ h => h⟩

theorem flushQuery_ok {d : Dns} {id : ℕ} {q : Query} (found : d.queryList.lookup id = some q)
    (calls : List Call) : ∃ d', flushQuery id calls d = .ok d' ∧ Later d d' ∧
      d'.queryList = d.queryList.erase id ∧ d'.calls = d.calls ++ calls ∧
      d'.queryByNextDueTime = d.queryByNextDueTime.erase q.nextRetry := by
  cases done : flushQuery id calls d with
  | error halt => simp [flushQuery, removeQuery, found] at done
  | ok d' =>
    simp only [flushQuery, removeQuery, found] at done
    cases done
    exact ⟨_, rfl, ⟨fun _ h => h, List.subset_append_left _ _⟩, rfl, rfl, rfl⟩

theorem mem_callEach {q : Query} {client : ClientId} (call : ClientId → Call)
    (waiting : client ∈ q.http ++ q.https) : call client ∈ callEach q call := by
  rw [callEach, ← List.map_append]
  exact List.mem_map_of_mem waiting

theorem Handled.later {time : Readings} {id : ℕ} {q : Query} {d d' : Dns}
    (h : Handled time id q d) (log : Later d d')
    (frame : d'.queryList.lookup id = d.queryList.lookup id) : Handled time id q d' := by
  rw [Handled] at h ⊢
  split at h
  · rename_i young
    rw [if_pos young, frame]
    exact ⟨log.sent h.1, h.2⟩
  · rename_i old
    rw [if_neg old, frame]
    exact ⟨h.1, fun client waiting => log.calls (h.2 client waiting)⟩

theorem checkList_visit {time : Readings} {t id : ℕ} {ids : List ℕ} (later : ∀ k, t ≠ time k + 5)
    (k : ℕ) {d : Dns} (w : Draining t (id :: ids) d) :
    ∃ k₁ d₁, checkList time k (id :: ids) d = checkList time k₁ ids d₁ ∧ Draining t ids d₁ ∧
      Later d d₁ ∧
      (∀ t', t' ≠ t → (∀ k, t' ≠ time k + 5) →
        bucket d₁.queryByNextDueTime t' = bucket d.queryByNextDueTime t') ∧
      (∀ other, other ≠ id → d₁.queryList.lookup other = d.queryList.lookup other) ∧
      ∀ q, d.queryList.lookup id = some q → Handled time id q d₁ := by
  obtain ⟨query, found, date⟩ := lookup_of_due ((w.coming id).mp List.mem_cons_self)
  by_cases young : query.retryTime < 2
  · refine ⟨k + 1, Dns.resend (time k) id query d, by simp only [checkList, found, if_pos young],
      w.resend (later k), later_resend (time k) id query d, ?_, ?_, ?_⟩
    · exact fun t' _ early => bucket_push_ne _ _ (early k)
    · intro other different
      simp only [Dns.resend]
      exact AList.lookup_insert_ne different
    · intro q looked
      obtain rfl : query = q := by simpa [found] using looked
      rw [Handled, if_pos young]
      refine ⟨?_, k, ?_⟩
      · simp [Dns.resend]
      · simp [Dns.resend]
  · obtain ⟨d₁, flush, log, queries, calls, index⟩ :=
      flushQuery_ok found (callEach query .dnsError)
    refine ⟨k, d₁, by simp only [checkList, found, if_neg young, flush], w.flush flush, log,
      ?_, ?_, ?_⟩
    · intro t' elsewhere _
      rw [index, date]
      exact bucket_erase_ne _ elsewhere
    · intro other different
      rw [queries]
      exact AList.lookup_erase_ne different
    · intro q looked
      obtain rfl : query = q := by simpa [found] using looked
      rw [Handled, if_neg young]
      refine ⟨?_, fun client waiting => ?_⟩
      · rw [queries]
        simp
      · rw [calls]
        exact List.mem_append_right _ (mem_callEach _ waiting)

/-- Working off a bucket never misses a query, touches only due times that are
not due yet, and handles each of its ids. -/
theorem checkList_drains {time : Readings} {t : ℕ} (later : ∀ k, t ≠ time k + 5) (ids : List ℕ) :
    ∀ (k : ℕ) (d : Dns), Draining t ids d → ∃ k' d', checkList time k ids d = .ok (k', d') ∧
      Draining t [] d' ∧ Later d d' ∧
      (∀ t', t' ≠ t → (∀ k, t' ≠ time k + 5) →
        bucket d'.queryByNextDueTime t' = bucket d.queryByNextDueTime t') ∧
      (∀ id, id ∉ ids → d'.queryList.lookup id = d.queryList.lookup id) ∧
      ∀ id ∈ ids, ∀ q, d.queryList.lookup id = some q → Handled time id q d' := by
  induction ids with
  | nil =>
    intro k d w
    exact ⟨k, d, rfl, w, .refl d, fun _ _ _ => rfl, fun _ _ => rfl, by simp⟩
  | cons id ids ih =>
    intro k d w
    have once : id ∉ ids := (List.nodup_cons.mp w.nodup).1
    obtain ⟨k₁, d₁, visited, w₁, log₁, index₁, frame₁, handled₁⟩ := checkList_visit later k w
    obtain ⟨k', d', run, w', log, index, frame, handled⟩ := ih k₁ d₁ w₁
    refine ⟨k', d', visited.trans run, w', log₁.trans log, ?_, ?_, ?_⟩
    · intro t' elsewhere early
      rw [index t' elsewhere early, index₁ t' elsewhere early]
    · intro other absent
      obtain ⟨different, absent⟩ : other ≠ id ∧ other ∉ ids := by simpa using absent
      rw [frame other absent, frame₁ other different]
    · intro other member q looked
      rcases List.mem_cons.mp member with rfl | member
      · exact (handled₁ q looked).later log (frame other once)
      · have different : other ≠ id := fun same => once (same ▸ member)
        exact handled other member q (by rw [frame₁ other different, looked])

/-- A query whose due time no reading of the tick reaches, or none at all. -/
def NotDue (time : Readings) (d : Dns) (id : ℕ) : Prop := ∀ t, due d id = some t → ∀ k, time k < t

theorem Handled.notDue {time : Readings} {id : ℕ} {q : Query} {d : Dns} (steady : Steady time)
    (h : Handled time id q d) : NotDue time d id := by
  intro t own k
  rw [Handled] at h
  split at h
  · obtain ⟨-, j, found⟩ := h
    have date : time j + 5 = t := by simpa [due, found] using own
    have := steady k j
    omega
  · simp [due, h.1] at own

/-- The due buckets of the copy stay as they were copied until their turn; each
query due at every reading is handled. -/
theorem checkBuckets_drains {time : Readings} (steady : Steady time)
    (buckets : List (ℕ × List ℕ)) :
    ∀ (k : ℕ) (d : Dns), Scheduled d → (buckets.map Prod.fst).Nodup →
      (buckets.map Prod.fst).Pairwise (· ≤ ·) →
      (∀ entry ∈ buckets, (∃ k, entry.1 ≤ time k) →
        bucket d.queryByNextDueTime entry.1 = entry.2) →
      ∃ d', checkBuckets time k buckets d = .ok d' ∧ Scheduled d' ∧ Later d d' ∧
        (∀ id, NotDue time d id → d'.queryList.lookup id = d.queryList.lookup id) ∧
        ∀ id q, d.queryList.lookup id = some q → q.nextRetry ∈ buckets.map Prod.fst →
          (∀ j, q.nextRetry ≤ time j) → Handled time id q d' := by
  induction buckets with
  | nil => exact fun k d s _ _ _ => ⟨d, rfl, s, .refl d, fun _ _ => rfl, by simp⟩
  | cons entry rest ih =>
    intro k d s distinct sorted copied
    obtain ⟨t, list⟩ := entry
    simp only [List.map_cons, List.nodup_cons] at distinct
    simp only [List.map_cons, List.pairwise_cons] at sorted
    by_cases early : t > time k
    · refine ⟨d, by simp only [checkBuckets, if_pos early], s, .refl d, fun _ _ => rfl, ?_⟩
      intro id q found listed overdue
      have reached := overdue k
      rcases List.mem_cons.mp listed with first | second
      · omega
      · have := sorted.1 _ second
        omega
    have never : ∀ j, t ≠ time j + 5 := fun j => by
      have := steady k j
      omega
    have here : bucket d.queryByNextDueTime t = list :=
      copied (t, list) List.mem_cons_self ⟨k, by omega⟩
    have draining : Draining t list d := here ▸ s.draining t
    obtain ⟨k', d₁, run, w, log₁, index, frame₁, handled₁⟩ :=
      checkList_drains never list (k + 1) d draining
    obtain ⟨d', run', s', log', frame', handled'⟩ :=
        ih k' _ w.finish distinct.2 sorted.2 (by
      intro other member dueSoon
      have elsewhere : other.1 ≠ t := fun same =>
        distinct.1 (same ▸ List.mem_map_of_mem member)
      have notYet : ∀ j, other.1 ≠ time j + 5 := fun j => by
        obtain ⟨i, reached⟩ := dueSoon
        have := steady i j
        omega
      rw [bucket_erase_ne _ elsewhere, index other.1 elsewhere notYet]
      exact copied other (List.mem_cons_of_mem _ member) dueSoon)
    refine ⟨d', by simp only [checkBuckets, if_neg early, run, run'], s', log₁.trans ⟨log'.sent, log'.calls⟩, ?_, ?_⟩
    · intro id idle
      have outside : id ∉ list := fun member => by
        have := idle t ((draining.coming id).mp member) k
        omega
      have same := frame₁ id outside
      rw [← same]
      exact frame' id fun t own => idle t (by simpa [due, same] using own)
    · intro id q found listed overdue
      by_cases now : q.nextRetry = t
      · have own : id ∈ list := (draining.coming id).mpr (now ▸ due_of_lookup found)
        have handled := handled₁ id own q found
        exact handled.later ⟨log'.sent, log'.calls⟩ (frame' id (handled.notDue steady))
      · have outside : id ∉ list := fun member => now <| by
          have own := (draining.coming id).mp member
          rw [due_of_lookup found] at own
          exact Option.some_inj.mp own
        refine handled' id q ((frame₁ id outside).trans found) ?_ overdue
        simpa [now] using listed

/-- A steady tick returns, keeps the schedule and handles what is due. -/
theorem checkQueries_handles {time : Readings} (steady : Steady time) {d : Dns} (s : Scheduled d) :
    ∃ d', checkQueries time d = .ok d' ∧ Scheduled d' ∧
      ∀ id q, d.queryList.lookup id = some q → (∀ j, q.nextRetry ≤ time j) →
        Handled time id q d' := by
  obtain ⟨d', run, s', -, -, handled⟩ := checkBuckets_drains steady (inOrder d.queryByNextDueTime)
    0 d s (inOrder_keys_nodup _) (inOrder_keys_sorted _)
    fun entry member _ => (bucket_of_mem_inOrder member).symm
  refine ⟨d', run, s', fun id q found overdue => handled id q found ?_ overdue⟩
  have filed : id ∈ bucket d.queryByNextDueTime q.nextRetry :=
    List.count_pos_iff.mp (by rw [s.count_own found]; exact Nat.one_pos)
  exact List.mem_map_of_mem (mem_inOrder_of_mem_bucket filed)

/-! The runs that keep the schedule. -/

/-- `get` sends a query of its own: it neither joins one nor finds an answer, and
is not refused. -/
def Asks (host : Bytes) (now : ℕ) (d : Dns) : Prop :=
  (∀ id ∈ d.queryListByHost.lookup host, id ∉ d.queryList) ∧
    (∀ entry ∈ d.cache.lookup host, entry.outdated_date ≤ now) ∧ d.clientInProgress ≤ 1000

/-- A query is sent under an id that is free, a query that a reply settles shares
its due time with no other, and the clock does not jump inside a tick. -/
def Calm : Event → Dns → Prop
  | .get _ host _ time, d => Asks host (time 0) d → d.increment ∉ d.queryList
  | .datagram fromServer buffer size _, d =>
    fromServer = true → ∀ id q o, settled buffer size d = some (id, q, o) → Alone d id
  | .checkQueries time, _ => Steady time
  | .cancelClient .., _ => True
  | .cleanCache _, _ => True

theorem sendQuery_scheduled {d : Dns} (s : Scheduled d) (client : ClientId) (host : Bytes)
    (https : Bool) (now : ℕ) (free : d.increment ∉ d.queryList) :
    Scheduled (sendQuery client host https now d) := by
  simp only [sendQuery]
  refine addQuery_scheduled ?_ free
  exact s.congr (fun _ => rfl) rfl

theorem answerFromCache_scheduled {d : Dns} (s : Scheduled d) (client : ClientId) (https : Bool)
    (entry : CacheEntry) : Scheduled (answerFromCache client https entry d) := by
  simp only [answerFromCache]
  split
  · split <;> exact s.congr (fun _ => rfl) rfl
  all_goals exact s.congr (fun _ => rfl) rfl

theorem resolve_scheduled {d : Dns} (s : Scheduled d) (client : ClientId) (host : Bytes)
    (https : Bool) (time : Readings)
    (free : (∀ entry ∈ d.cache.lookup host, entry.outdated_date ≤ time 0) →
      d.clientInProgress ≤ 1000 → d.increment ∉ d.queryList) :
    Scheduled (resolve client host https time d).1 := by
  have asked : ∀ now, (∀ entry ∈ d.cache.lookup host, entry.outdated_date ≤ time 0) →
      Scheduled (if d.clientInProgress > 1000 then (d, false)
        else (sendQuery client host https now d, true)).1 := by
    intro now stale
    split
    · exact s
    · exact sendQuery_scheduled s client host https now (free stale (by omega))
  simp only [resolve]
  split
  · rename_i missing
    exact asked _ (by simp [missing])
  rename_i entry found
  split
  · refine answerFromCache_scheduled ?_ client https _
    exact s.congr (fun _ => rfl) rfl
  · exact asked _ (by simpa [found] using by omega)

theorem get_scheduled {d : Dns} (s : Scheduled d) (client : ClientId) (host : Bytes)
    (https : Bool) (time : Readings) (free : Asks host (time 0) d → d.increment ∉ d.queryList) :
    Scheduled (Dns.get client host https time d).1 := by
  simp only [Dns.get]
  split
  · rename_i missing
    exact resolve_scheduled s client host https time fun stale room =>
      free ⟨by simp [missing], stale, room⟩
  rename_i queryId known
  split
  · rename_i q found
    refine s.congr (due_insert found rfl ?_) rfl
    simp only [joinQuery]
    split <;> rfl
  · rename_i lost
    have forgotten : Scheduled { d with queryListByHost := d.queryListByHost.erase host } :=
      s.congr (fun _ => rfl) rfl
    refine resolve_scheduled forgotten client host https time fun stale room => ?_
    refine free ⟨fun id member => ?_, stale, room⟩
    obtain rfl : queryId = id := by simpa [known] using member
    exact AList.lookup_eq_none.mp lost

theorem cancelClient_scheduled {d : Dns} (s : Scheduled d) (client : ClientId) (host : Bytes)
    (https : Bool) : Scheduled (Dns.cancelClient client host https d) := by
  simp only [Dns.cancelClient]
  split
  · exact s
  split
  · rename_i q found
    refine s.congr (due_insert found rfl ?_) rfl
    simp only [leaveQuery]
    split <;> rfl
  · exact s.congr (fun _ => rfl) rfl

theorem cleanCache_scheduled {d : Dns} (s : Scheduled d) (time : Readings) :
    Scheduled (cleanCache time d) := by
  obtain ⟨cache, index, cleaned, -⟩ := cleanCache_unchanged time d
  rw [cleaned]
  exact s.congr (fun _ => rfl) rfl

theorem step_scheduled {e : Event} {d d' : Dns} (s : Scheduled d) (calm : Calm e d)
    (taken : Dns.Step e d d') : Scheduled d' := by
  cases e with
  | get client host https time =>
    cases taken
    exact get_scheduled s client host https time calm
  | cancelClient client host https =>
    cases taken
    exact cancelClient_scheduled s client host https
  | datagram fromServer buffer size time => exact parseEvent_scheduled s calm taken
  | cleanCache time =>
    cases taken
    exact cleanCache_scheduled s time
  | checkQueries time =>
    obtain ⟨d₁, run, s₁, -⟩ := checkQueries_handles calm s
    have same : d₁ = d' := by
      rw [Dns.Step, perform, run] at taken
      exact Except.ok.inj taken
    exact same ▸ s₁

/-- In every run whose steps are calm, each outstanding id stands exactly once,
in the bucket of its due time, every filed id is outstanding, and a steady tick
never throws and retries or answers each query that is due. -/
theorem queries_stay_scheduled {d : Dns} (reached : Reach Dns.Step Calm (· = Dns.initial) d) :
    (∀ id q, d.queryList.lookup id = some q →
      (bucket d.queryByNextDueTime q.nextRetry).count id = 1 ∧
        ∀ t, t ≠ q.nextRetry → id ∉ bucket d.queryByNextDueTime t) ∧
    (∀ id t, id ∈ bucket d.queryByNextDueTime t → id ∈ d.queryList) ∧
    ∀ time, Steady time → ∃ d', checkQueries time d = .ok d' ∧
      ∀ id q, d.queryList.lookup id = some q → (∀ j, q.nextRetry ≤ time j) →
        Handled time id q d' := by
  have s : Scheduled d := reached.invariant (fun _ start => start ▸ initial_scheduled)
    fun _ _ _ s calm taken => step_scheduled s calm taken
  refine ⟨fun id q found => ⟨s.count_own found, fun t other => s.not_mem_other found other⟩,
    fun id t member => ?_, fun time steady => ?_⟩
  · obtain ⟨q, found, -⟩ := lookup_of_due (s.due_of_mem member)
    exact AList.lookup_isSome.mp (by simp [found])
  · obtain ⟨d', run, -, handled⟩ := checkQueries_handles steady s
    exact ⟨d', run, handled⟩

def formatErrorReply (id : UInt8) : Bytes :=
  [id, 0, 0x81, 0x81, 0, 1, 0, 1, 0, 0, 0, 0, 1, 97, 0, 0x00, 0x1c, 0x00, 0x01]

def twoQueries (first second : ℕ) : Dns :=
  (Dns.get 8 [98] false (fun _ => second) (Dns.get 7 [97] false (fun _ => first) .initial).1).1

theorem twoQueries_due (first second other : ℕ) :
    due (twoQueries first second) other =
      if other = 2 then some (second + 5) else if other = 1 then some (first + 5) else none := by
  have table : due (twoQueries first second) other =
      if 2 = other then some (second + 5) else if 1 = other then some (first + 5) else none := by
    by_cases h2 : 2 = other
    · subst h2
      rfl
    · by_cases h1 : 1 = other
      · subst h1
        rfl
      · rw [if_neg h2, if_neg h1, due, Option.map_eq_none_iff, AList.lookup_eq_none]
        intro member
        have keys : other ∈ [2, 1] := member
        simp [Ne.symm h2, Ne.symm h1] at keys
  simpa only [eq_comm] using table

/-- Two queries of different seconds, the first answered: the second stays filed. -/
theorem other_query_stays_filed :
    ∃ d, (bucket d.queryByNextDueTime 106).count 2 = 1 ∧ Reach Dns.Step Calm (· = Dns.initial) d := by
  have sent : Reach Dns.Step Calm (· = Dns.initial) (twoQueries 100 101) :=
    .next (e := .get 8 [98] false fun _ => 101)
      (.next (e := .get 7 [97] false fun _ => 100) (.start rfl) (fun _ => by decide) rfl)
      (fun _ => by decide) rfl
  obtain ⟨d, answered, second⟩ : ∃ d, Dns.Step (.datagram true (fun i => (formatErrorReply 1).getD i 0)
      19 fun _ => 101) (twoQueries 100 101) d ∧ ∃ q, d.queryList.lookup 2 = some q ∧ q.nextRetry = 106 :=
    ⟨_, rfl, _, rfl, rfl⟩
  obtain ⟨q, found, date⟩ := second
  have reached : Reach Dns.Step Calm (· = Dns.initial) d := by
    refine Reach.next (e := .datagram true (fun i => (formatErrorReply 1).getD i 0) 19 fun _ => 101)
      sent ?_ answered
    intro _ id _ _ settles q own other different
    obtain rfl : 1 = id := congrArg Prod.fst (Option.some_inj.mp settles)
    have first : q.nextRetry = 105 := by
      have := due_of_lookup own
      rw [twoQueries_due] at this
      simpa using this.symm
    rw [twoQueries_due, first]
    split
    · simp
    · simp
  exact ⟨d, date ▸ ((queries_stay_scheduled reached).1 2 q found).1, reached⟩

/-- Two queries of the same second, the first answered: the second is in no bucket. -/
theorem same_second_query_is_lost :
    ∃ d q, Reach Dns.Step anyStep (· = Dns.initial) d ∧ d.queryList.lookup 2 = some q ∧
      (bucket d.queryByNextDueTime q.nextRetry).count 2 = 0 := by
  have sent : Reach Dns.Step anyStep (· = Dns.initial) (twoQueries 100 100) :=
    .next (e := .get 8 [98] false fun _ => 100)
      (.next (e := .get 7 [97] false fun _ => 100) (.start rfl) trivial rfl) trivial rfl
  exact ⟨_, _, sent.next (e := .datagram true (fun i => (formatErrorReply 1).getD i 0) 19 fun _ => 100)
    trivial rfl, rfl, rfl⟩

end FastCgiCdn.DnsSchedule
