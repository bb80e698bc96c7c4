import FastCgiCdn.DnsAddressGuard
import FastCgiCdn.DnsVerdict
import FastCgiCdn.GuardedRuns

/-! The expiry index of the resolver against its cache. Storing and cleaning keep
the two together; `get` brings a date forward in place when the clock has stepped
back by more than the entry may live, and the index keeps the old one. -/

namespace FastCgiCdn.CacheExpiry

open BucketIndex DnsModel Dns DnsVerdict GuardedRuns
open DnsAddressGuard (insideAddress insideReply)

variable {d d' : Dns} {host : Bytes} {entry : CacheEntry}

/-- Each cached host stands once in the bucket of its date and in no other, and no
bucket names a host that is not cached. -/
structure Agree (d : Dns) : Prop where
  once : ∀ host entry, d.cache.lookup host = some entry →
    (bucket d.cacheByOutdatedDate entry.outdated_date).count host = 1
  only : ∀ host entry t, d.cache.lookup host = some entry →
    t ≠ entry.outdated_date → host ∉ bucket d.cacheByOutdatedDate t
  known : ∀ host t, host ∈ bucket d.cacheByOutdatedDate t → host ∈ d.cache

def expiry (d : Dns) (host : Bytes) : Option ℕ :=
  (d.cache.lookup host).map CacheEntry.outdated_date

theorem expiry_of_lookup (found : d.cache.lookup host = some entry) :
    expiry d host = some entry.outdated_date := by
  rw [expiry, found]
  rfl

theorem agree_iff_filed : Agree d ↔ Filed (expiry d) d.cacheByOutdatedDate := by
  constructor
  · intro agree host t
    cases found : d.cache.lookup host with
    | none =>
      have absent : host ∉ bucket d.cacheByOutdatedDate t := by
        intro listed
        exact AList.lookup_eq_none.mp found (agree.known host t listed)
      rw [List.count_eq_zero.mpr absent, expiry, found]
      rfl
    | some entry =>
      rw [expiry_of_lookup found]
      by_cases own : t = entry.outdated_date
      · subst own
        rw [agree.once host entry found]
        simp
      · rw [List.count_eq_zero.mpr (agree.only host entry t found own)]
        simp [Ne.symm own]
  · intro filed
    refine ⟨?_, ?_, ?_⟩
    · intro host entry found
      exact filed.count_own (expiry_of_lookup found)
    · intro host entry t found other
      exact filed.notMem_other (expiry_of_lookup found) other
    · intro host t listed
      have own := filed.mem_iff.mp listed
      by_contra absent
      rw [expiry, AList.lookup_eq_none.mpr absent] at own
      cases own

theorem initial_agree : Agree Dns.initial :=
  agree_iff_filed.mpr filed_empty

structure Unstored (d d' : Dns) : Prop where
  cache : d'.cache = d.cache
  index : d'.cacheByOutdatedDate = d.cacheByOutdatedDate

theorem Unstored.agree_iff (same : Unstored d d') : Agree d' ↔ Agree d := by
  rw [agree_iff_filed, agree_iff_filed, same.index]
  have dates : expiry d' = expiry d := by
    funext host
    rw [expiry, expiry, same.cache]
  rw [dates]

theorem Unstored.trans {middle : Dns} (first : Unstored d middle) (second : Unstored middle d') :
    Unstored d d' :=
  ⟨second.cache.trans first.cache, second.index.trans first.index⟩

section stored

theorem expiry_insert (cache : d'.cache = d.cache.insert host entry) :
    expiry d' = Function.update (expiry d) host (some entry.outdated_date) := by
  funext other
  rw [expiry, cache]
  by_cases self : other = host
  · subst self
    simp
  · rw [AList.lookup_insert_ne self, Function.update_of_ne self]
    rfl

theorem unindex_filed (filed : Filed (expiry d) d.cacheByOutdatedDate) (host : Bytes) :
    Filed (Function.update (expiry d) host none) (unindex host d).cacheByOutdatedDate := by
  rw [unindex]
  split
  · rename_i absent
    have free : expiry d host = none := by
      rw [expiry, absent]
      rfl
    rw [← free, Function.update_eq_self]
    exact filed
  · rename_i entry found
    exact filed.dropped (expiry_of_lookup found)

theorem unindex_cache (host : Bytes) (d : Dns) : (unindex host d).cache = d.cache := by
  rw [unindex]
  split <;> rfl

theorem stored_agree (agree : Agree d) (cache : d'.cache = d.cache.insert host entry)
    (index : d'.cacheByOutdatedDate =
      push (unindex host d).cacheByOutdatedDate entry.outdated_date host) : Agree d' := by
  have unfiled := unindex_filed (agree_iff_filed.mp agree) host
  have filed := unfiled.pushed (Function.update_self ..) entry.outdated_date
  rw [Function.update_idem] at filed
  apply agree_iff_filed.mpr
  rw [expiry_insert cache, index]
  exact filed

theorem addCacheEntry_agree (agree : Agree d) (now : ℕ) (s : StatusEntry) (ttl : ℕ)
    (host : Bytes) (sin6_addr : In6Addr) :
    Agree (addCacheEntry now s ttl host sin6_addr d) := by
  rw [addCacheEntry]
  split
  · exact agree
  · have cache := congrArg (AList.insert host ⟨sin6_addr, outdatedDate s ttl now, s⟩)
      (unindex_cache host d)
    exact stored_agree agree cache rfl

theorem removeQuery_unstored {id : ℕ} (done : removeQuery id d = .ok d') : Unstored d d' := by
  rw [removeQuery] at done
  split at done
  · cases done
  · cases done
    exact ⟨rfl, rfl⟩

theorem flushQuery_unstored {id : ℕ} {calls : List Call} (done : flushQuery id calls d = .ok d') :
    Unstored d d' := by
  have removed := removeQuery_unstored done
  exact ⟨removed.cache, removed.index⟩

theorem conclude_agree {o : Outcome} {now id : ℕ} {q : Query} (agree : Agree d)
    (done : conclude o now id q d = .ok d') : Agree d' := by
  cases o with
  | refused => exact (flushQuery_unstored done).agree_iff.mpr agree
  | failed =>
    exact (flushQuery_unstored done).agree_iff.mpr (addCacheEntry_agree agree now .wrong 0 q.host .zero)
  | unanswered =>
    exact (flushQuery_unstored done).agree_iff.mpr
      (addCacheEntry_agree agree now .error 3600 q.host .zero)
  | address ttl sin6_addr =>
    rw [conclude, flushAddress] at done
    split at done
    · have stored := addCacheEntry_agree agree now .right ttl q.host sin6_addr
      have called : Unstored (addCacheEntry now .right ttl q.host sin6_addr d) d' := by
        have removed := removeQuery_unstored done
        exact ⟨removed.cache, removed.index⟩
      exact called.agree_iff.mpr stored
    · have stored := addCacheEntry_agree agree now .wrong ttl q.host sin6_addr
      exact (flushQuery_unstored done).agree_iff.mpr stored

theorem parseEvent_agree {fromServer : Bool} {buffer : Memory} {size : ℕ} {time : Readings}
    (agree : Agree d) (done : parseEvent fromServer buffer size time d = .ok d') : Agree d' := by
  have counted : Agree (uncount d) := by
    have same : Unstored d (uncount d) := ⟨rfl, rfl⟩
    exact same.agree_iff.mpr agree
  rcases parseEvent_settles done with rfl | rfl | ⟨h, q, o, -, -, concluded⟩
  · exact agree
  · exact counted
  · exact conclude_agree counted concluded

end stored

section answered

theorem answerFromCache_unstored (client : ClientId) (https : Bool) (entry : CacheEntry) (d : Dns) :
    Unstored d (answerFromCache client https entry d) := by
  rw [answerFromCache]
  split
  · split <;> exact ⟨rfl, rfl⟩
  · exact ⟨rfl, rfl⟩
  · exact ⟨rfl, rfl⟩

def shortened (now : ℕ) (entry : CacheEntry) : CacheEntry :=
  { entry with outdated_date := min entry.outdated_date (now + 24 * 3600) }

/-- No date that `get` meets lies more than a day after its clock. -/
def Near (host : Bytes) (now : ℕ) (d : Dns) : Prop :=
  ∀ t ∈ expiry d host, t ≤ now + 24 * 3600

/-- The cache after a lookup: the date of the host is cut, its bucket stays. -/
structure Cut (host : Bytes) (now : ℕ) (d d' : Dns) : Prop where
  dates : expiry d' = Function.update (expiry d) host
    ((expiry d host).map (min · (now + 24 * 3600)))
  index : d'.cacheByOutdatedDate = d.cacheByOutdatedDate

variable {now : ℕ}

theorem Cut.agree_iff (cut : Cut host now d d') (agree : Agree d) :
    Agree d' ↔ Near host now d := by
  rw [agree_iff_filed, cut.index, (agree_iff_filed.mp agree).iff_eq, cut.dates]
  constructor
  · intro same t own
    have here := congrFun same host
    rw [Function.update_self, Option.mem_def.mp own, Option.map_some, Option.some_inj] at here
    omega
  · intro near
    have kept : (expiry d host).map (min · (now + 24 * 3600)) = expiry d host := by
      cases own : expiry d host with
      | none => rfl
      | some t =>
        have late := near t own
        rw [Option.map_some, Nat.min_eq_left late]
    rw [kept, Function.update_eq_self]

theorem Unstored.cut (same : Unstored d d') (early : ∀ t ∈ expiry d host, t ≤ now) :
    Cut host now d d' where
  dates := by
    have kept : (expiry d host).map (min · (now + 24 * 3600)) = expiry d host := by
      cases own : expiry d host with
      | none => rfl
      | some t =>
        have late := early t own
        rw [Option.map_some, Nat.min_eq_left (by omega)]
    rw [kept, Function.update_eq_self]
    funext other
    rw [expiry, expiry, same.cache]
  index := same.index

theorem answered_cut (found : d.cache.lookup host = some entry) (client : ClientId)
    (https : Bool) : Cut host now d (answerFromCache client https (shortened now entry)
      { d with cache := d.cache.insert host (shortened now entry) }) := by
  have answered := answerFromCache_unstored client https (shortened now entry)
    { d with cache := d.cache.insert host (shortened now entry) }
  refine ⟨?_, answered.index⟩
  rw [expiry_insert answered.cache, expiry_of_lookup found]
  rfl

theorem resolve_cut (client : ClientId) (host : Bytes) (https : Bool) (time : Readings) (d : Dns) :
    Cut host (time 0) d (resolve client host https time d).1 := by
  have asked : ∀ now, Unstored d (if d.clientInProgress > 1000 then (d, false)
      else (sendQuery client host https now d, true)).1 := by
    intro now
    split <;> exact ⟨rfl, rfl⟩
  rw [resolve]
  dsimp only
  split
  · rename_i absent
    apply (asked (time 0)).cut
    intro t own
    rw [expiry, absent] at own
    cases own
  · rename_i entry found
    split
    · exact answered_cut found client https
    · rename_i outdated
      apply (asked (time 1)).cut
      intro t own
      rw [expiry_of_lookup found] at own
      cases own
      omega

theorem get_agree_iff (agree : Agree d) (client : ClientId) (host : Bytes) (https : Bool)
    (time : Readings) : Agree (Dns.get client host https time d).1 ↔
      ((∀ id ∈ d.queryListByHost.lookup host, id ∉ d.queryList) → Near host (time 0) d) := by
  rw [Dns.get]
  split
  · rename_i unknown
    rw [(resolve_cut client host https time d).agree_iff agree, unknown]
    simp
  · rename_i queryId known
    rw [known]
    split
    · rename_i q found
      have same : Unstored d { d with
        queryList := d.queryList.insert queryId (joinQuery client https q) } := ⟨rfl, rfl⟩
      have present : queryId ∈ d.queryList := AList.lookup_isSome.mp (by rw [found]; rfl)
      rw [same.agree_iff]
      simp [agree, present]
    · rename_i lost
      have same : Unstored d { d with queryListByHost := d.queryListByHost.erase host } := ⟨rfl, rfl⟩
      have cut := resolve_cut client host https time
        { d with queryListByHost := d.queryListByHost.erase host }
      rw [cut.agree_iff (same.agree_iff.mpr agree)]
      simp [Near, expiry, AList.lookup_eq_none.mp lost]

theorem cancelClient_unstored (client : ClientId) (host : Bytes) (https : Bool) (d : Dns) :
    Unstored d (cancelClient client host https d) := by
  rw [cancelClient]
  split
  · exact ⟨rfl, rfl⟩
  · split <;> exact ⟨rfl, rfl⟩

theorem checkList_unstored {time : Readings} {k k' : ℕ} {ids : List ℕ}
    (done : checkList time k ids d = .ok (k', d')) : Unstored d d' := by
  induction ids generalizing k d with
  | nil =>
    cases done
    exact ⟨rfl, rfl⟩
  | cons id ids ih =>
    rw [checkList] at done
    split at done
    · cases done
    · split at done
      · have rest := ih done
        exact ⟨rest.cache, rest.index⟩
      · split at done
        · cases done
        · rename_i d₁ flushed
          exact (flushQuery_unstored flushed).trans (ih done)

theorem checkBuckets_unstored {time : Readings} {k : ℕ} {buckets : List (ℕ × List ℕ)}
    (done : checkBuckets time k buckets d = .ok d') : Unstored d d' := by
  induction buckets generalizing k d with
  | nil =>
    cases done
    exact ⟨rfl, rfl⟩
  | cons entry rest ih =>
    rw [checkBuckets] at done
    split at done
    · cases done
      exact ⟨rfl, rfl⟩
    · split at done
      · cases done
      · rename_i k₁ d₁ checked
        have later := ih done
        exact (checkList_unstored checked).trans ⟨later.cache, later.index⟩

end answered

section cleaned

/-- A round of `cleanCache`: the hosts of a bucket and the bucket. -/
def dropBucket (t : ℕ) (list : List Bytes) (d : Dns) : Dns :=
  { d with
    cache := list.foldl (fun cache host => cache.erase host) d.cache
    cacheByOutdatedDate := d.cacheByOutdatedDate.erase t }

/-- The rest of the copy that `cleanCache` walks still matches the index. -/
structure Listed (buckets : List (ℕ × List Bytes)) (d : Dns) : Prop where
  own : ∀ e ∈ buckets, e.2 = bucket d.cacheByOutdatedDate e.1
  distinct : (buckets.map Prod.fst).Nodup

variable {t : ℕ} {list : List Bytes} {rest : List (ℕ × List Bytes)}

theorem Listed.next (listed : Listed ((t, list) :: rest) d) : Listed rest (dropBucket t list d) where
  own e member := by
    have other : e.1 ≠ t := by
      intro same
      have named := List.mem_map_of_mem (f := Prod.fst) member
      rw [same] at named
      exact (List.nodup_cons.mp listed.distinct).1 named
    rw [dropBucket, bucket_erase_ne _ other]
    exact listed.own e (List.mem_cons_of_mem _ member)
  distinct := (List.nodup_cons.mp listed.distinct).2

theorem Listed.lookup_drop (listed : Listed ((t, list) :: rest) d) (agree : Agree d)
    (host : Bytes) : (dropBucket t list d).cache.lookup host =
      if expiry d host = some t then none else d.cache.lookup host := by
  have first : list = bucket d.cacheByOutdatedDate t := listed.own (t, list) List.mem_cons_self
  rw [dropBucket, lookup_foldl_erase, first]
  have filed : host ∈ bucket d.cacheByOutdatedDate t ↔ expiry d host = some t :=
    (agree_iff_filed.mp agree).mem_iff
  simp only [filed]

theorem Listed.agree_drop (listed : Listed ((t, list) :: rest) d) (agree : Agree d) :
    Agree (dropBucket t list d) := by
  have filed := (agree_iff_filed.mp agree).erased t
  have dates : expiry (dropBucket t list d) =
      fun host => if expiry d host = some t then none else expiry d host := by
    funext host
    rw [expiry, listed.lookup_drop agree]
    split
    · rfl
    · rfl
  rw [agree_iff_filed, dates]
  exact filed

theorem expiry_drop (listed : Listed ((t, list) :: rest) d) (agree : Agree d) {other : ℕ}
    (own : expiry d host = some other) (different : other ≠ t) :
    (dropBucket t list d).cache.lookup host = d.cache.lookup host := by
  rw [listed.lookup_drop agree, own, if_neg]
  rw [Option.some_inj]
  exact different

theorem cleanBuckets_cons (time : Readings) (k : ℕ) :
    cleanBuckets time k ((t, list) :: rest) d =
      if t > time k then d else cleanBuckets time (k + 1) rest (dropBucket t list d) := rfl

variable {time : Readings} {k : ℕ} {buckets : List (ℕ × List Bytes)}

theorem cleanBuckets_agree (listed : Listed buckets d) (agree : Agree d) :
    Agree (cleanBuckets time k buckets d) := by
  induction buckets generalizing k d with
  | nil => exact agree
  | cons e rest ih =>
    rw [cleanBuckets_cons]
    split
    · exact agree
    · exact ih listed.next (listed.agree_drop agree)

theorem cleanBuckets_old
    (left : (cleanBuckets time k buckets d).cache.lookup host = some entry) :
    d.cache.lookup host = some entry := by
  induction buckets generalizing k d with
  | nil => exact left
  | cons e rest ih =>
    rw [cleanBuckets_cons] at left
    split at left
    · exact left
    · have before := ih left
      rw [dropBucket, lookup_foldl_erase] at before
      split at before
      · cases before
      · exact before

theorem cleanBuckets_kept (listed : Listed buckets d) (agree : Agree d)
    (found : d.cache.lookup host = some entry) (late : ∀ k, time k < entry.outdated_date) :
    (cleanBuckets time k buckets d).cache.lookup host = some entry := by
  induction buckets generalizing k d with
  | nil => exact found
  | cons e rest ih =>
    rw [cleanBuckets_cons]
    split
    · exact found
    · rename_i due
      have different : entry.outdated_date ≠ e.1 := by
        have later := late k
        omega
      apply ih listed.next (listed.agree_drop agree)
      rw [expiry_drop listed agree (expiry_of_lookup found) different, found]

/-- The buckets come in the order of their dates, so none that is due is left out. -/
theorem cleanBuckets_gone (listed : Listed buckets d) (agree : Agree d)
    (sorted : (buckets.map Prod.fst).Pairwise (· ≤ ·)) (own : expiry d host = some t)
    (ahead : t ∈ buckets.map Prod.fst) (due : ∀ k, t ≤ time k) :
    (cleanBuckets time k buckets d).cache.lookup host = none := by
  induction buckets generalizing k d with
  | nil => cases ahead
  | cons e rest ih =>
    obtain ⟨lowest, later⟩ := List.pairwise_cons.mp sorted
    have first : e.1 ≤ t := by
      rcases List.mem_cons.mp ahead with here | behind
      · exact Nat.le_of_eq here.symm
      · exact lowest t behind
    have round : ¬e.1 > time k := by
      have now := due k
      omega
    rw [cleanBuckets_cons, if_neg round]
    by_cases here : t = e.1
    · have dropped : (dropBucket e.1 e.2 d).cache.lookup host = none := by
        rw [listed.lookup_drop agree, own, if_pos (congrArg some here)]
      cases after : (cleanBuckets time (k + 1) rest (dropBucket e.1 e.2 d)).cache.lookup host with
      | none => rfl
      | some entry => cases dropped.symm.trans (cleanBuckets_old after)
    · have same := expiry_drop listed agree own here
      apply ih listed.next (listed.agree_drop agree) later
      · rw [expiry, same]
        exact own
      · exact (List.mem_cons.mp ahead).resolve_left here

end cleaned

theorem listed_inOrder (d : Dns) : Listed (inOrder d.cacheByOutdatedDate) d where
  own _ member := bucket_of_mem_inOrder member
  distinct := inOrder_keys_nodup _

structure Cleaned (first last : ℕ) (d d' : Dns) : Prop where
  left : ∀ host entry, d'.cache.lookup host = some entry → first < entry.outdated_date
  kept : ∀ host entry, d.cache.lookup host = some entry → last < entry.outdated_date →
    d'.cache.lookup host = some entry

/-- Every cleaning with a clock between two times clears the cache by them. -/
def Cleans (d : Dns) : Prop :=
  ∀ time first last, (∀ k, first ≤ time k ∧ time k ≤ last) →
    Cleaned first last d (cleanCache time d)

theorem Agree.cleans (agree : Agree d) : Cleans d := by
  intro time first last clock
  have listed := listed_inOrder d
  refine ⟨?_, ?_⟩
  · intro host entry left
    have found := cleanBuckets_old left
    have own := expiry_of_lookup found
    have member := mem_inOrder_of_mem_bucket ((agree_iff_filed.mp agree).mem_iff.mpr own)
    by_contra due
    have gone : (cleanCache time d).cache.lookup host = none := by
      apply cleanBuckets_gone listed agree (inOrder_keys_sorted _) own
      · exact List.mem_map_of_mem (f := Prod.fst) member
      · intro k
        have reading := (clock k).1
        omega
    cases left.symm.trans gone
  · intro host entry found late
    apply cleanBuckets_kept listed agree found
    intro k
    have reading := (clock k).2
    omega

/-- The private `addCacheEntry` with any arguments, and the events of the resolver. -/
inductive Operation
  | addCacheEntry (now : ℕ) (s : StatusEntry) (ttl : ℕ) (host : Bytes) (sin6_addr : In6Addr)
  | event (e : Event)

def Performs : Operation → Dns → Dns → Prop
  | .addCacheEntry now s ttl host sin6_addr, d, d' =>
    d' = Dns.addCacheEntry now s ttl host sin6_addr d
  | .event e, d, d' => Dns.Step e d d'

/-- A lookup that reaches the cache finds no date more than a day after its clock. -/
def Timely : Operation → Dns → Prop
  | .event (.get _ host _ time), d =>
    (∀ id ∈ d.queryListByHost.lookup host, id ∉ d.queryList) → Near host (time 0) d
  | _, _ => True

theorem performs_agree_iff {op : Operation} (agree : Agree d) (taken : Performs op d d') :
    Agree d' ↔ Timely op d := by
  cases op with
  | addCacheEntry now s ttl host sin6_addr =>
    cases taken
    simp only [Timely, iff_true]
    exact addCacheEntry_agree agree now s ttl host sin6_addr
  | event e =>
    cases e with
    | get client host https time =>
      cases taken
      exact get_agree_iff agree client host https time
    | cancelClient client host https =>
      cases taken
      simp only [Timely, iff_true]
      exact (cancelClient_unstored client host https d).agree_iff.mpr agree
    | datagram fromServer buffer size time =>
      simp only [Timely, iff_true]
      exact parseEvent_agree agree taken
    | cleanCache time =>
      cases taken
      simp only [Timely, iff_true]
      exact cleanBuckets_agree (listed_inOrder d) agree
    | checkQueries time =>
      simp only [Timely, iff_true]
      exact (checkBuckets_unstored taken).agree_iff.mpr agree

/-- The cache and its index agree all along a run, and so any cleaning in it is exact,
if and only if no lookup meets a date more than a day ahead. -/
theorem expiry_index_agrees_iff (ops : List Operation) :
    Along Performs (fun _ _ d => Agree d ∧ Cleans d) ops Dns.initial ↔
      Along Performs (fun op d _ => Timely op d) ops Dns.initial := by
  have both : (fun (_ : Operation) (_ d : Dns) => Agree d ∧ Cleans d) = fun _ _ d => Agree d := by
    funext op d d'
    exact propext ⟨And.left, fun agree => ⟨agree, agree.cleans⟩⟩
  rw [both]
  apply along_iff_of_invariant (I := fun _ => True)
  · intro op d d' _ _
    trivial
  · intro op d d' _ agree taken
    exact performs_agree_iff agree taken
  · trivial
  · exact initial_agree

/-- An address is learnt with the clock ahead and asked for again once the clock is
right: it outlives its date, and its old bucket takes the next answer with it. -/
theorem stepped_back_clock_splits_index : ∃ d, Reach Performs anyStep (· = Dns.initial) d ∧
    ¬Agree d ∧
    (∃ entry, (cleanCache (fun _ => 90000) d).cache.lookup [97] = some entry ∧
      entry.outdated_date ≤ 90000) ∧
    ∃ d', Performs (.addCacheEntry 200100 .right 300 [97] insideAddress) d d' ∧
      (∃ entry, d'.cache.lookup [97] = some entry ∧ 200300 < entry.outdated_date) ∧
      (cleanCache (fun _ => 200300) d').cache.lookup [97] = none := by
  have reached : Reach Performs anyStep (· = Dns.initial) _ :=
    .next (e := .event (.get 8 [97] false fun _ => 100))
      (.next (e := .event (.datagram true (fun i => insideReply.getD i 0) 47 fun _ => 200000))
        (.next (e := .event (.get 7 [97] false fun _ => 100)) (.start rfl) trivial rfl)
        trivial rfl)
      trivial rfl
  refine ⟨_, reached, ?_, ⟨⟨insideAddress, 86500, .right⟩, by decide +kernel, by decide⟩,
    _, rfl, ⟨⟨insideAddress, 200400, .right⟩, by decide +kernel, by decide⟩, by decide +kernel⟩
  intro agree
  have once := agree.once [97] ⟨insideAddress, 86500, .right⟩ (by decide +kernel)
  exact absurd once (by decide +kernel)

end FastCgiCdn.CacheExpiry
