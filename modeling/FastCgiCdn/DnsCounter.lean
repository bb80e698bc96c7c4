import FastCgiCdn.DnsAddressGuard
import FastCgiCdn.DnsSchedule
import FastCgiCdn.DnsVerdict

/-! The overload counter of the resolver. It goes up with each query sent and
down with each datagram of the server, before the datagram is read; queries go
when they are settled or given up. The two agree as long as every datagram
settles a query, no id is used twice and no query is given up. -/

namespace FastCgiCdn.DnsCounter

open BucketIndex DnsAddressGuard DnsModel Dns DnsSchedule DnsVerdict GuardedRuns

def forget (host : Bytes) (d : Dns) : Dns :=
  { d with queryListByHost := d.queryListByHost.erase host }

/-- What `get` can do. -/
inductive Got (client : ClientId) (host : Bytes) (https : Bool) (time : Readings) (d : Dns) :
    Dns × Bool → Prop
  | joined {id : ℕ} {q : Query} (known : d.queryListByHost.lookup host = some id)
      (found : d.queryList.lookup id = some q) : Got client host https time d
        ({ d with queryList := d.queryList.insert id (joinQuery client https q) }, true)
  | answered (cache : AList fun _ : Bytes => CacheEntry) (entry : CacheEntry)
      (alone : ∀ id ∈ d.queryListByHost.lookup host, id ∉ d.queryList) :
      Got client host https time d
        (answerFromCache client https entry { forget host d with cache := cache }, true)
  | refused (full : 1000 < d.clientInProgress)
      (alone : ∀ id ∈ d.queryListByHost.lookup host, id ∉ d.queryList) :
      Got client host https time d (forget host d, false)
  | asked (now : ℕ) (asks : Asks host (time 0) d) :
      Got client host https time d (sendQuery client host https now (forget host d), true)

theorem forget_unknown {host : Bytes} {d : Dns} (unknown : d.queryListByHost.lookup host = none) :
    forget host d = d := by
  have same : d.queryListByHost.erase host = d.queryListByHost :=
    AList.ext (List.kerase_of_notMem_keys (AList.lookup_eq_none.mp unknown))
  rw [forget, same]

theorem resolve_got {host : Bytes} {d : Dns} (client : ClientId) (https : Bool) (time : Readings)
    (alone : ∀ id ∈ d.queryListByHost.lookup host, id ∉ d.queryList) :
    Got client host https time d (resolve client host https time (forget host d)) := by
  have ask : ∀ now, (∀ entry ∈ d.cache.lookup host, entry.outdated_date ≤ time 0) →
      Got client host https time d (if (forget host d).clientInProgress > 1000 then
        (forget host d, false) else (sendQuery client host https now (forget host d), true)) := by
    intro now stale
    split
    · rename_i full
      exact .refused full alone
    · rename_i room
      exact .asked now ⟨alone, stale, not_lt.mp room⟩
  simp only [resolve]
  split
  · rename_i missing
    exact ask _ fun entry found => by cases missing.symm.trans found
  · rename_i entry found
    split
    · exact .answered _ _ alone
    · rename_i outdated
      refine ask _ fun other same => ?_
      obtain rfl : entry = other := Option.some_inj.mp (found.symm.trans same)
      exact not_lt.mp outdated

theorem get_got (client : ClientId) (host : Bytes) (https : Bool) (time : Readings) (d : Dns) :
    Got client host https time d (Dns.get client host https time d) := by
  simp only [Dns.get]
  split
  · rename_i unknown
    have alone : ∀ id ∈ d.queryListByHost.lookup host, id ∉ d.queryList := by simp [unknown]
    simpa only [forget_unknown unknown] using resolve_got client https time alone
  · rename_i queryId known
    split
    · rename_i q found
      exact .joined known found
    · rename_i lost
      refine resolve_got client https time fun id member => ?_
      obtain rfl : queryId = id := Option.some_inj.mp (known.symm.trans member)
      exact AList.lookup_eq_none.mp lost

def outstanding (d : Dns) : ℕ := d.queryList.entries.length

def Exact (d : Dns) : Prop := d.clientInProgress = outstanding d

theorem length_keys (d : Dns) : outstanding d = d.queryList.keys.length := by
  simp [outstanding, AList.keys, List.keys]

theorem outstanding_insert {d d' : Dns} {id : ℕ} {q : Query}
    (queries : d'.queryList = d.queryList.insert id q) (old : id ∈ d.queryList) :
    outstanding d' = outstanding d := by
  rw [length_keys, length_keys, queries, AList.keys_insert, List.length_cons,
    List.length_erase_of_mem (AList.mem_keys.mp old)]
  have := List.length_pos_of_mem (AList.mem_keys.mp old)
  omega

theorem outstanding_insert_new {d d' : Dns} {id : ℕ} {q : Query}
    (queries : d'.queryList = d.queryList.insert id q) (new : id ∉ d.queryList) :
    outstanding d' = outstanding d + 1 := by
  rw [length_keys, length_keys, queries, AList.keys_insert, List.length_cons,
    List.erase_of_not_mem (fun old => new (AList.mem_keys.mpr old))]

theorem outstanding_erase {d d' : Dns} {id : ℕ} (queries : d'.queryList = d.queryList.erase id)
    (old : id ∈ d.queryList) : outstanding d' + 1 = outstanding d := by
  rw [length_keys, length_keys, queries, AList.keys_erase,
    List.length_erase_of_mem (AList.mem_keys.mp old)]
  have := List.length_pos_of_mem (AList.mem_keys.mp old)
  omega

theorem mem_of_lookup {d : Dns} {id : ℕ} {q : Query} (found : d.queryList.lookup id = some q) :
    id ∈ d.queryList := by
  rw [← AList.lookup_isSome, found]
  rfl

/-- The ids a tick comes to, when it gives up none of them: each takes one
reading of the clock, after the one of its bucket. -/
def visited (time : Readings) : ℕ → List (ℕ × List ℕ) → List ℕ
  | _, [] => []
  | k, (t, list) :: rest =>
    if t > time k then [] else list ++ visited time (k + 1 + list.length) rest

/-- No query uses up its retries on the ids still to come. -/
def Patient (ids : List ℕ) (d : Dns) : Prop :=
  ∀ id q, d.queryList.lookup id = some q → q.retryTime + ids.count id ≤ 2

/-- A step that keeps the counter exact: a query is sent under an id that is
free, a datagram of the server settles a query, and no query is given up. -/
def Accounted : Event → Dns → Prop
  | .get _ host _ time, d => Asks host (time 0) d → d.increment ∉ d.queryList
  | .datagram fromServer buffer size _, d => fromServer = true → settled buffer size d ≠ none
  | .checkQueries time, d => Patient (visited time 0 (inOrder d.queryByNextDueTime)) d
  | .cancelClient .., _ => True
  | .cleanCache _, _ => True

def Unmoved (d d' : Dns) : Prop :=
  d'.clientInProgress = d.clientInProgress ∧ outstanding d' = outstanding d

theorem Unmoved.refl (d : Dns) : Unmoved d d := ⟨rfl, rfl⟩

theorem Unmoved.trans {d₁ d₂ d₃ : Dns} (h : Unmoved d₁ d₂) (h' : Unmoved d₂ d₃) : Unmoved d₁ d₃ :=
  ⟨h'.1.trans h.1, h'.2.trans h.2⟩

theorem Unmoved.exact {d d' : Dns} (h : Unmoved d d') (e : Exact d) : Exact d' := by
  rw [Exact, h.1, h.2]
  exact e

theorem answerFromCache_unmoved (client : ClientId) (https : Bool) (entry : CacheEntry) (d : Dns) :
    Unmoved d (answerFromCache client https entry d) := by
  simp only [answerFromCache]
  split
  · split <;> exact ⟨rfl, rfl⟩
  all_goals exact ⟨rfl, rfl⟩

theorem get_exact {client : ClientId} {host : Bytes} {https : Bool} {time : Readings} {d : Dns}
    (e : Exact d) (free : Asks host (time 0) d → d.increment ∉ d.queryList) :
    Exact (Dns.get client host https time d).1 := by
  have got := get_got client host https time d
  generalize Dns.get client host https time d = r at got
  cases got with
  | joined known found =>
    refine Unmoved.exact (d := d) ⟨rfl, ?_⟩ e
    exact outstanding_insert (d := d) rfl (mem_of_lookup found)
  | answered cache entry alone =>
    have forgot : Unmoved d { forget host d with cache := cache } := ⟨rfl, rfl⟩
    exact (forgot.trans (answerFromCache_unmoved client https entry _)).exact e
  | refused full alone => exact Unmoved.exact (d := d) ⟨rfl, rfl⟩ e
  | asked now asks =>
    have more : outstanding (sendQuery client host https now (forget host d)) = outstanding d + 1 :=
      outstanding_insert_new rfl (free asks)
    rw [Exact, more]
    have : (d.clientInProgress : ℤ) = outstanding d := e
    change d.clientInProgress + 1 = ((outstanding d + 1 : ℕ) : ℤ)
    omega

theorem get_refused {client : ClientId} {host : Bytes} {https : Bool} {time : Readings} {d : Dns}
    (refused : (Dns.get client host https time d).2 = false) : 1000 < d.clientInProgress := by
  have got := get_got client host https time d
  generalize Dns.get client host https time d = r at got refused
  cases got with
  | joined known found => cases refused
  | answered cache entry alone => cases refused
  | refused full alone => exact full
  | asked now asks => cases refused

theorem cancelClient_unmoved (client : ClientId) (host : Bytes) (https : Bool) (d : Dns) :
    Unmoved d (Dns.cancelClient client host https d) := by
  simp only [Dns.cancelClient]
  split
  · exact .refl d
  · split
    · rename_i q found
      exact ⟨rfl, outstanding_insert rfl (mem_of_lookup found)⟩
    · exact ⟨rfl, rfl⟩

theorem cleanCache_unmoved (time : Readings) (d : Dns) : Unmoved d (cleanCache time d) := by
  obtain ⟨cache, index, cleaned, -⟩ := cleanCache_unchanged time d
  rw [cleaned]
  exact ⟨rfl, rfl⟩

theorem parseEvent_exact {fromServer : Bool} {buffer : Memory} {size : ℕ} {time : Readings}
    {d d' : Dns} (e : Exact d) (settles : fromServer = true → settled buffer size d ≠ none)
    (done : parseEvent fromServer buffer size time d = .ok d') : Exact d' := by
  cases fromServer with
  | false =>
    rw [parseEvent, Bool.not_false, if_pos rfl] at done
    cases done
    exact e
  | true =>
    have concluded := parseEvent_returns done
    cases decided : settled buffer size d with
    | none => exact absurd decided (settles rfl)
    | some answer =>
      obtain ⟨id, q, o⟩ := answer
      obtain ⟨found, -⟩ := settled_found decided
      rw [decided] at concluded
      have c := conclude_concluded (d := uncount d) found concluded
      have fewer : outstanding d' + 1 = outstanding d :=
        outstanding_erase (d := d) c.queryList (mem_of_lookup found)
      have counted : d'.clientInProgress = d.clientInProgress - 1 := c.clientInProgress
      have : (d.clientInProgress : ℤ) = outstanding d := e
      rw [Exact, counted]
      omega

theorem checkList_unmoved {time : Readings} {more : List ℕ} {k' : ℕ} {d' : Dns} (ids : List ℕ) :
    ∀ (k : ℕ) (d : Dns), Patient (ids ++ more) d → checkList time k ids d = .ok (k', d') →
      k' = k + ids.length ∧ Patient more d' ∧ Unmoved d d' := by
  induction ids with
  | nil =>
    intro k d patient done
    cases done
    exact ⟨rfl, patient, .refl _⟩
  | cons id ids ih =>
    intro k d patient done
    simp only [checkList] at done
    split at done
    · cases done
    rename_i query found
    have left := patient id query found
    rw [List.cons_append, List.count_cons_self] at left
    rw [if_pos (by omega)] at done
    have sent : Patient (ids ++ more) (resend (time k) id query d) := by
      intro other q looked
      obtain ⟨rfl, rfl⟩ | ⟨here, old⟩ := lookup_insert_cases looked
      · dsimp only
        omega
      · have := patient other q old
        rw [List.cons_append, List.count_cons_of_ne (Ne.symm here)] at this
        exact this
    obtain ⟨reading, patient', unmoved⟩ := ih _ _ sent done
    have resent : Unmoved d (resend (time k) id query d) :=
      ⟨rfl, outstanding_insert rfl (mem_of_lookup found)⟩
    refine ⟨?_, patient', resent.trans unmoved⟩
    rw [reading, List.length_cons]
    omega

theorem checkBuckets_unmoved {time : Readings} {d' : Dns} (buckets : List (ℕ × List ℕ)) :
    ∀ (k : ℕ) (d : Dns), Patient (visited time k buckets) d →
      checkBuckets time k buckets d = .ok d' → Unmoved d d' := by
  induction buckets with
  | nil =>
    intro k d patient done
    cases done
    exact .refl _
  | cons entry rest ih =>
    intro k d patient done
    obtain ⟨t, list⟩ := entry
    simp only [checkBuckets] at done
    simp only [visited] at patient
    split at done
    · cases done
      exact .refl _
    rename_i due
    rw [if_neg due] at patient
    split at done
    · cases done
    rename_i k₁ d₁ checked
    obtain ⟨reading, patient', unmoved⟩ := checkList_unmoved list _ _ patient checked
    subst reading
    have rest_unmoved := ih _ { d₁ with queryByNextDueTime := d₁.queryByNextDueTime.erase t }
      patient' done
    exact unmoved.trans (Unmoved.trans ⟨rfl, rfl⟩ rest_unmoved)

theorem step_exact {e : Event} {d d' : Dns} (counted : Exact d) (accounted : Accounted e d)
    (taken : Dns.Step e d d') : Exact d' := by
  cases e with
  | get client host https time =>
    cases taken
    exact get_exact counted accounted
  | cancelClient client host https =>
    cases taken
    exact (cancelClient_unmoved client host https d).exact counted
  | datagram fromServer buffer size time => exact parseEvent_exact counted accounted taken
  | cleanCache time =>
    cases taken
    exact (cleanCache_unmoved time d).exact counted
  | checkQueries time => exact (checkBuckets_unmoved _ 0 d accounted taken).exact counted

/-- In a run whose steps are all accounted for, the counter is the number of
outstanding queries, and a request is refused only above 1000 of them. -/
theorem counter_counts_outstanding_queries {d : Dns}
    (reached : Reach Dns.Step Accounted (· = Dns.initial) d) :
    d.clientInProgress = (d.queryList.entries.length : ℤ) ∧
    ∀ client host https time, (Dns.get client host https time d).2 = false →
      1000 < d.queryList.entries.length := by
  have counted : Exact d := reached.invariant (fun _ start => start ▸ rfl)
    fun _ _ _ e accounted taken => step_exact e accounted taken
  refine ⟨counted, fun client host https time refused => ?_⟩
  have full := get_refused refused
  rw [counted] at full
  exact_mod_cast full

def asked : Dns := (Dns.get 7 [97] false (fun _ => 100) .initial).1

def reply : Event := .datagram true (fun i => insideReply.getD i 0) 47 fun _ => 101

theorem answered_query_is_counted_down :
    ∃ d, Reach Dns.Step Accounted (· = Dns.initial) d ∧ d.calls ≠ [] ∧
      d.clientInProgress = (d.queryList.entries.length : ℤ) := by
  have sent : Reach Dns.Step Accounted (· = Dns.initial) asked :=
    .next (e := .get 7 [97] false fun _ => 100) (.start rfl) (fun _ => by simp [Dns.initial]) rfl
  obtain ⟨d, replied, called⟩ : ∃ d, perform reply asked = .ok d ∧ d.calls ≠ [] :=
    ⟨_, rfl, by decide⟩
  have settles : settled (fun i => insideReply.getD i 0) 47 asked ≠ none :=
    Option.isSome_iff_ne_none.mp (by decide)
  have reached : Reach Dns.Step Accounted (· = Dns.initial) d :=
    .next (e := reply) sent (fun _ => settles) replied
  exact ⟨d, reached, called, (counter_counts_outstanding_queries reached).1⟩

/-- The reply arrives twice: the counter ends one below the truth. -/
theorem duplicated_reply_is_counted_twice :
    ∃ d, Reach Dns.Step anyStep (· = Dns.initial) d ∧
      d.clientInProgress ≠ (d.queryList.entries.length : ℤ) := by
  have sent : Reach Dns.Step anyStep (· = Dns.initial) asked :=
    .next (e := .get 7 [97] false fun _ => 100) (.start rfl) trivial rfl
  obtain ⟨d, replied, again⟩ : ∃ d, perform reply asked = .ok d ∧
      ∃ d', perform reply d = .ok d' ∧ d'.clientInProgress ≠ (d'.queryList.entries.length : ℤ) :=
    ⟨_, rfl, _, rfl, by decide⟩
  obtain ⟨d', repeated, inexact⟩ := again
  exact ⟨d', .next (e := reply) (.next (e := reply) sent trivial replied) trivial repeated, inexact⟩

end FastCgiCdn.DnsCounter
