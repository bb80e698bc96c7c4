import FastCgiCdn.DnsCounter
import FastCgiCdn.WaitingClients

/-! A waiting client is called back once. A client in a list of a query has the
status that makes `disconnect` cancel it, under the host and protocol of that
list, and no download holds it. So while one list is being called back, nothing
that happens takes a client out of it, or out of any other list. -/

namespace FastCgiCdn.CallbackOnce

open DnsAddressGuard DnsModel Dns DnsCounter DnsVerdict GuardedRuns WaitingClients World

def waiters (https : Bool) (q : Query) : List ClientId := if https then q.https else q.http

/-- The client stands in the list of a query where `cancelClient` would find it. -/
structure Held (w : World) (id : ℕ) (https : Bool) (c : ClientId) : Prop where
  status : (w.client c).status = .waitDns
  protocol : (w.client c).https = https
  host : w.dns.queryListByHost.lookup (w.client c).host = some id

structure Waiting (w : World) (id : ℕ) (https : Bool) (c : ClientId) : Prop
    extends Held w id https c where
  valid : (w.client c).isValid = true
  parsed : (w.client c).fullyParsed = true
  apart : (w.client c).added = false
  uncalled : .called c ∉ w.log
  connected : .disconnected c ∉ w.log

/-- No call follows a disconnection. -/
def Silent (c : ClientId) (log : List Happening) : Prop :=
  ∀ before after, log = before ++ .disconnected c :: after → .called c ∉ after

/-- Between events `current` and `odd` are none. While a query is being called
back, `current` is its id and `done` its clients called so far; `odd` is a client
that is about to leave. -/
structure Sound (current : Option ℕ) (done : List ClientId) (odd : Option ClientId) (w : World) :
    Prop where
  byHost : ∀ id q, w.dns.queryList.lookup id = some q →
    w.dns.queryListByHost.lookup q.host = some id
  nodup : ∀ id q https, w.dns.queryList.lookup id = some q → (waiters https q).Nodup
  listed : ∀ id q https c, w.dns.queryList.lookup id = some q → c ∈ waiters https q →
    current = some id ∧ c ∈ done ∨ Waiting w id https c ∨ odd = some c ∧ Held w id https c
  answered : ∀ c ∈ done, (w.client c).status ≠ .waitDns ∧ (w.client c).fullyParsed = true
  once : ∀ c, w.log.count (.called c) ≤ 1
  fresh : ∀ c, (w.client c).fullyParsed = false →
    (w.client c).added = false ∧ .called c ∉ w.log ∧ .joined c ∉ w.log
  closed : ∀ c, .disconnected c ∈ w.log → (w.client c).isValid = false
  silent : ∀ c, .joined c ∈ w.log → Silent c w.log

theorem silent_append {c : ClientId} {log : List Happening} {h : Happening} (s : Silent c log)
    (quiet : h = .called c → .disconnected c ∉ log) : Silent c (log ++ [h]) := by
  intro before after whole called
  obtain rfl | ⟨front, last, rfl⟩ := List.eq_nil_or_concat after
  · cases called
  · rw [List.concat_eq_append, ← List.cons_append, ← List.append_assoc] at whole
    obtain ⟨old, same⟩ := List.append_inj' whole rfl
    cases same
    rw [List.concat_eq_append, List.mem_append, List.mem_singleton] at called
    obtain earlier | same := called
    · exact s before front old earlier
    · refine quiet same.symm ?_
      rw [old]
      exact List.mem_append_right _ List.mem_cons_self

@[simp] theorem setClient_client (c x : ClientId) (f : Client → Client) (w : World) :
    (setClient c f w).client x = if x = c then f (w.client c) else w.client x := by
  by_cases here : x = c
  · subst here
    simp [setClient]
  · simp [setClient, here]

@[simp] theorem setClient_dns (c : ClientId) (f : Client → Client) (w : World) :
    (setClient c f w).dns = w.dns := rfl

@[simp] theorem setClient_log (c : ClientId) (f : Client → Client) (w : World) :
    (setClient c f w).log = w.log := rfl

@[simp] theorem note_client (h : Happening) (w : World) : (note h w).client = w.client := rfl

@[simp] theorem note_dns (h : Happening) (w : World) : (note h w).dns = w.dns := rfl

@[simp] theorem note_log (h : Happening) (w : World) : (note h w).log = w.log ++ [h] := rfl

section sound

variable {w w' : World} {current : Option ℕ} {done : List ClientId} {odd : Option ClientId}

/-- Nothing outside a callback in progress lists the client. -/
def Unlisted (current : Option ℕ) (done : List ClientId) (w : World) (c : ClientId) : Prop :=
  ∀ id q https, w.dns.queryList.lookup id = some q → c ∈ waiters https q →
    current = some id ∧ c ∈ done

theorem Waiting.transfer {id : ℕ} {https : Bool} {c : ClientId} (t : Waiting w id https c)
    (client : w'.client c = w.client c)
    (host : w'.dns.queryListByHost.lookup (w.client c).host = some id)
    (called : .called c ∉ w'.log) (disconnected : .disconnected c ∉ w'.log) :
    Waiting w' id https c where
  status := client ▸ t.status
  protocol := client ▸ t.protocol
  host := client ▸ host
  valid := client ▸ t.valid
  parsed := client ▸ t.parsed
  apart := client ▸ t.apart
  uncalled := called
  connected := disconnected

/-- A client that no list holds on to may change, and count as called, as long as
it stays closed once it is. -/
theorem Sound.turn (s : Sound current done odd w) {called : List ClientId} {c : ClientId}
    {f : Client → Client} (more : ∀ x ∈ done, x ∈ called) (own : ∀ x ∈ called, x ≠ c → x ∈ done)
    (unlisted : Unlisted current called w c)
    (answered : c ∈ called → (f (w.client c)).status ≠ .waitDns ∧ (f (w.client c)).fullyParsed = true)
    (parsed : (f (w.client c)).fullyParsed = false →
      (w.client c).fullyParsed = false ∧ (f (w.client c)).added = false)
    (closed : (w.client c).isValid = false → (f (w.client c)).isValid = false) :
    Sound current called odd (setClient c f w) where
  byHost := s.byHost
  nodup := s.nodup
  listed id q https x found member := by
    by_cases here : x = c
    · subst here
      exact .inl (unlisted id q https found member)
    · have other : (World.setClient c f w).client x = w.client x := by simp [here]
      obtain before | waiting | ⟨leaving, held⟩ := s.listed id q https x found member
      · exact .inl ⟨before.1, more x before.2⟩
      · exact .inr (.inl (waiting.transfer other waiting.host waiting.uncalled waiting.connected))
      · refine .inr (.inr ⟨leaving, ?_⟩)
        exact ⟨other ▸ held.status, other ▸ held.protocol, other ▸ held.host⟩
  answered x member := by
    by_cases here : x = c
    · subst here
      simpa using answered member
    · simpa [here] using s.answered x (own x member here)
  once := s.once
  fresh x unparsed := by
    by_cases here : x = c
    · subst here
      simp only [setClient_client, if_true] at unparsed ⊢
      obtain ⟨before, apart⟩ := parsed unparsed
      exact ⟨apart, (s.fresh x before).2⟩
    · simp only [setClient_client, here, if_false] at unparsed ⊢
      exact s.fresh x unparsed
  closed x gone := by
    by_cases here : x = c
    · subst here
      simpa using closed (s.closed x gone)
    · simpa [here] using s.closed x gone
  silent := s.silent

theorem Sound.setClient (s : Sound current done odd w) {c : ClientId} {f : Client → Client}
    (unlisted : Unlisted current done w c)
    (answered : c ∈ done → (f (w.client c)).status ≠ .waitDns ∧ (f (w.client c)).fullyParsed = true)
    (parsed : (f (w.client c)).fullyParsed = false →
      (w.client c).fullyParsed = false ∧ (f (w.client c)).added = false)
    (closed : (w.client c).isValid = false → (f (w.client c)).isValid = false) :
    Sound current done odd (setClient c f w) :=
  s.turn (fun _ member => member) (fun _ member _ => member) unlisted answered parsed closed

theorem Sound.setDns (s : Sound current done odd w) {d : Dns}
    (queries : ∀ id q', d.queryList.lookup id = some q' → ∃ q,
      w.dns.queryList.lookup id = some q ∧ q'.host = q.host ∧
        ∀ https, (waiters https q').Sublist (waiters https q))
    (hosts : ∀ host id, w.dns.queryListByHost.lookup host = some id → id ∈ d.queryList →
      d.queryListByHost.lookup host = some id) :
    Sound current done odd { w with dns := d } where
  byHost id q' found := by
    obtain ⟨q, before, host, -⟩ := queries id q' found
    rw [host]
    exact hosts _ _ (s.byHost id q before) (mem_of_lookup found)
  nodup id q' https found := by
    obtain ⟨q, before, -, sub⟩ := queries id q' found
    exact (s.nodup id q https before).sublist (sub https)
  listed id q' https c found member := by
    obtain ⟨q, before, -, sub⟩ := queries id q' found
    obtain called | waiting | ⟨leaving, held⟩ :=
      s.listed id q https c before ((sub https).subset member)
    · exact .inl called
    · exact .inr (.inl (waiting.transfer rfl (hosts _ _ waiting.host (mem_of_lookup found))
        waiting.uncalled waiting.connected))
    · exact .inr (.inr ⟨leaving, held.status, held.protocol,
        hosts _ _ held.host (mem_of_lookup found)⟩)
  answered := s.answered
  once := s.once
  fresh := s.fresh
  closed := s.closed
  silent := s.silent

theorem Sound.sameQueries (s : Sound current done odd w) {d : Dns}
    (queries : d.queryList = w.dns.queryList) (hosts : d.queryListByHost = w.dns.queryListByHost) :
    Sound current done odd { w with dns := d } :=
  s.setDns (fun _ q found => ⟨q, queries ▸ found, rfl, fun _ => List.Sublist.refl _⟩)
    fun _ _ known _ => hosts ▸ known

theorem Sound.note (s : Sound current done odd w) (h : Happening)
    (unlisted : ∀ c, h = .called c ∨ h = .disconnected c → Unlisted current done w c)
    (once : ∀ c, h = .called c → .called c ∉ w.log)
    (parsed : ∀ c, h = .called c ∨ h = .joined c → (w.client c).fullyParsed = true)
    (closed : ∀ c, h = .disconnected c → (w.client c).isValid = false)
    (silent : ∀ c, h = .called c → .joined c ∈ w.log → .disconnected c ∉ w.log)
    (joined : ∀ c, h = .joined c → .called c ∉ w.log) :
    Sound current done odd (note h w) where
  byHost := s.byHost
  nodup := s.nodup
  listed id q https c found member := by
    obtain called | waiting | leaving := s.listed id q https c found member
    · exact .inl called
    · by_cases concerned : h = .called c ∨ h = .disconnected c
      · exact .inl (unlisted c concerned id q https found member)
      · refine .inr (.inl (waiting.transfer rfl waiting.host ?_ ?_))
        · simpa [waiting.uncalled] using fun same : .called c = h => concerned (.inl same.symm)
        · simpa [waiting.connected] using fun same : .disconnected c = h =>
            concerned (.inr same.symm)
    · exact .inr (.inr ⟨leaving.1, leaving.2.status, leaving.2.protocol, leaving.2.host⟩)
  answered := s.answered
  once c := by
    rw [note_log, List.count_append, List.count_singleton]
    by_cases same : h = .called c
    · rw [List.count_eq_zero.mpr (once c same)]
      split <;> omega
    · simpa [same] using s.once c
  fresh c unparsed := by
    obtain ⟨apart, called, joined⟩ := s.fresh c unparsed
    have unread : ¬(w.client c).fullyParsed = true := by simpa using unparsed
    refine ⟨apart, ?_, ?_⟩
    · simpa [called] using fun same : .called c = h => unread (parsed c (.inl same.symm))
    · simpa [joined] using fun same : .joined c = h => unread (parsed c (.inr same.symm))
  closed c gone := by
    rw [note_log, List.mem_append, List.mem_singleton] at gone
    exact gone.elim (s.closed c) fun same => closed c same.symm
  silent c listed := by
    rw [note_log, List.mem_append, List.mem_singleton] at listed
    obtain before | same := listed
    · exact silent_append (s.silent c before) fun called => silent c called before
    · intro front rest whole called
      have anywhere : .called c ∈ w.log ++ [h] := by
        rw [← note_log, whole]
        exact List.mem_append_right _ (List.mem_cons_of_mem _ called)
      rw [List.mem_append, List.mem_singleton, ← same] at anywhere
      exact anywhere.elim (joined c same.symm) fun wrong => by cases wrong

def dropped (c : ClientId) (w : World) : World :=
  if (w.client c).status = .waitDns then
    { w with dns := w.dns.cancelClient c (w.client c).host (w.client c).https }
  else w

theorem disconnect_eq (c : ClientId) (w : World) : disconnect c w =
    World.note (.disconnected c) (World.setClient c ({ · with isValid := false }) (dropped c w)) := by
  simp only [World.disconnect, dropped, note_client, setClient_client, if_true]
  split <;> rfl

theorem waiters_leaveQuery (c : ClientId) (own https : Bool) (q : Query) :
    waiters https (leaveQuery c own q) =
      if https = own then (waiters https q).erase c else waiters https q := by
  cases https <;> cases own <;> rfl

theorem leaveQuery_host (c : ClientId) (https : Bool) (q : Query) :
    (leaveQuery c https q).host = q.host := by
  cases https <;> rfl

theorem cancelClient_lookup (c : ClientId) (host : Bytes) (https : Bool) (d : Dns) (id : ℕ) :
    (d.cancelClient c host https).queryList.lookup id =
      if d.queryListByHost.lookup host = some id then
        (d.queryList.lookup id).map (leaveQuery c https)
      else d.queryList.lookup id := by
  simp only [Dns.cancelClient]
  split
  · rename_i unknown
    simp [unknown]
  · rename_i queryId known
    split
    · rename_i q found
      by_cases here : id = queryId
      · subst here
        simp [known, found]
      · rw [AList.lookup_insert_ne here, if_neg]
        rw [known]
        exact fun same => here (Option.some_inj.mp same).symm
    · rename_i lost
      split
      · rename_i same
        obtain rfl : queryId = id := Option.some_inj.mp (known.symm.trans same)
        simp [lost]
      · rfl

theorem cancelClient_hosts (c : ClientId) (host : Bytes) (https : Bool) {d : Dns} {other : Bytes}
    {id : ℕ} (known : d.queryListByHost.lookup other = some id) (alive : id ∈ d.queryList) :
    (d.cancelClient c host https).queryListByHost.lookup other = some id := by
  simp only [Dns.cancelClient]
  split
  · exact known
  · rename_i queryId own
    split
    · exact known
    · rename_i lost
      by_cases here : other = host
      · subst here
        obtain rfl : queryId = id := Option.some_inj.mp (own.symm.trans known)
        exact absurd alive (AList.lookup_eq_none.mp lost)
      · rw [AList.lookup_erase_ne here]
        exact known

theorem mem_cancelClient {c : ClientId} {host : Bytes} {https : Bool} {d : Dns} {id : ℕ}
    (alive : id ∈ (d.cancelClient c host https).queryList) : id ∈ d.queryList := by
  rw [← AList.lookup_isSome, cancelClient_lookup] at alive
  rw [← AList.lookup_isSome]
  split at alive
  · rwa [Option.isSome_map] at alive
  · exact alive

theorem Sound.dropped (s : Sound current done odd w) (c : ClientId) :
    Sound current done odd (dropped c w) := by
  unfold CallbackOnce.dropped
  split
  · refine s.setDns (fun id q' found => ?_) fun host id known alive =>
      cancelClient_hosts _ _ _ known (mem_cancelClient alive)
    rw [cancelClient_lookup] at found
    split at found
    · obtain ⟨q, before, rfl⟩ := Option.map_eq_some_iff.mp found
      refine ⟨q, before, leaveQuery_host _ _ _, fun https => ?_⟩
      rw [waiters_leaveQuery]
      split
      · exact List.erase_sublist
      · exact List.Sublist.refl _
    · exact ⟨q', found, rfl, fun _ => List.Sublist.refl _⟩
  · exact s

theorem Sound.dropped_unlisted (s : Sound current done odd w) (c : ClientId) :
    Unlisted current done (CallbackOnce.dropped c w) c := by
  intro id q' https found member
  have gone : ∀ {id https}, Held w id https c → ∀ q', (CallbackOnce.dropped c w).dns.queryList.lookup id =
      some q' → c ∉ waiters https q' := by
    intro id https held q' found
    rw [CallbackOnce.dropped, if_pos held.status, cancelClient_lookup, if_pos held.host] at found
    obtain ⟨q, before, rfl⟩ := Option.map_eq_some_iff.mp found
    rw [waiters_leaveQuery, if_pos held.protocol.symm]
    exact fun member => (List.Nodup.mem_erase_iff (s.nodup id q https before)).mp member |>.1 rfl
  obtain ⟨q, before, sub⟩ : ∃ q, w.dns.queryList.lookup id = some q ∧ c ∈ waiters https q := by
    unfold CallbackOnce.dropped at found
    split at found
    · rw [cancelClient_lookup] at found
      split at found
      · obtain ⟨q, before, rfl⟩ := Option.map_eq_some_iff.mp found
        refine ⟨q, before, ?_⟩
        rw [waiters_leaveQuery] at member
        split at member
        · exact List.mem_of_mem_erase member
        · exact member
      · exact ⟨q', found, member⟩
    · exact ⟨q', found, member⟩
  obtain called | waiting | leaving := s.listed id q https c before sub
  · exact called
  · exact absurd member (gone waiting.toHeld q' found)
  · exact absurd member (gone leaving.2 q' found)

theorem Sound.disconnect (s : Sound current done odd w) (c : ClientId) :
    Sound current done odd (disconnect c w) ∧ Unlisted current done (disconnect c w) c := by
  have unlisted := s.dropped_unlisted c
  rw [disconnect_eq]
  refine ⟨?_, unlisted⟩
  refine ((s.dropped c).setClient unlisted (fun member => (s.dropped c).answered c member) ?_ ?_).note
    _ ?_ ?_ ?_ ?_ ?_ ?_
  · exact fun unparsed => ⟨unparsed, ((s.dropped c).fresh c unparsed).1⟩
  · exact fun _ => rfl
  · rintro x (wrong | same)
    · cases wrong
    · cases same
      exact unlisted
  · exact fun x wrong => by cases wrong
  · rintro x (wrong | wrong) <;> cases wrong
  · intro x same
    cases same
    simp
  · exact fun x wrong => by cases wrong
  · exact fun x wrong => by cases wrong

theorem Sound.unlisted_odd {c : ClientId} (s : Sound current done (some c) w)
    (unlisted : Unlisted current done w c) : Sound current done none w where
  listed id q https x found member := by
    obtain called | waiting | ⟨leaving, -⟩ := s.listed id q https x found member
    · exact .inl called
    · exact .inr (.inl waiting)
    · obtain rfl : c = x := Option.some_inj.mp leaving
      exact .inl (unlisted id q https found member)
  __ := s

/-- The resolver as the loops over a query see it, and the calls made meanwhile. -/
structure Quiet (made : List Call) (w w' : World) : Prop where
  queries : ∀ id, w'.dns.queryList.lookup id = w.dns.queryList.lookup id
  targetHttp : w'.dns.targetHttp = w.dns.targetHttp
  targetHttps : w'.dns.targetHttps = w.dns.targetHttps
  calls : w'.dns.calls = w.dns.calls ++ made

theorem Quiet.sameDns (same : w'.dns = w.dns) : Quiet [] w w' := by
  constructor <;> simp [same]

theorem Quiet.trans {w₁ w₂ w₃ : World} {made more : List Call} (h : Quiet made w₁ w₂)
    (h' : Quiet more w₂ w₃) : Quiet (made ++ more) w₁ w₃ where
  queries id := (h'.queries id).trans (h.queries id)
  targetHttp := h'.targetHttp.trans h.targetHttp
  targetHttps := h'.targetHttps.trans h.targetHttps
  calls := by rw [h'.calls, h.calls, List.append_assoc]

theorem cancelClient_rest (c : ClientId) (host : Bytes) (https : Bool) (d : Dns) :
    (d.cancelClient c host https).targetHttp = d.targetHttp ∧
    (d.cancelClient c host https).targetHttps = d.targetHttps ∧
    (d.cancelClient c host https).calls = d.calls := by
  simp only [Dns.cancelClient]
  split
  · exact ⟨rfl, rfl, rfl⟩
  · split <;> exact ⟨rfl, rfl, rfl⟩

/-- Disconnecting a client that waits in no list leaves the lists as they are. -/
theorem disconnect_quiet {c : ClientId} (free : (w.client c).status = .waitDns →
    ∀ id q https, w.dns.queryList.lookup id = some q → c ∉ waiters https q) :
    Quiet [] w (disconnect c w) := by
  rw [disconnect_eq]
  by_cases waits : (w.client c).status = .waitDns
  · obtain ⟨http, https, calls⟩ :=
      cancelClient_rest c (w.client c).host (w.client c).https w.dns
    have changed : (dropped c w).dns = w.dns.cancelClient c (w.client c).host (w.client c).https := by
      rw [dropped, if_pos waits]
    constructor
    case queries =>
      intro id
      rw [note_dns, setClient_dns, changed, cancelClient_lookup]
      split
      · cases found : w.dns.queryList.lookup id with
        | none => rfl
        | some q =>
          have absent := free waits id q (w.client c).https found
          rw [Option.map_some, leaveQuery]
          split
          · rename_i own
            rw [own] at absent
            rw [List.erase_of_not_mem (by simpa [waiters] using absent)]
          · rename_i own
            rw [Bool.not_eq_true] at own
            rw [own] at absent
            rw [List.erase_of_not_mem (by simpa [waiters] using absent)]
      · rfl
    all_goals rw [note_dns, setClient_dns, changed]
    · exact http
    · exact https
    · rw [calls, List.append_nil]
  · refine Quiet.sameDns ?_
    rw [note_dns, setClient_dns, dropped, if_neg waits]

/-- No list holds a client that is being answered, or one that a download may hold. -/
theorem Sound.unlisted_reached (s : Sound current done none w) {self : Option ClientId}
    (own : ∀ c, self = some c → c ∈ done) {c : ClientId}
    (reached : self = some c ∨ (w.client c).added = true) : Unlisted current done w c := by
  intro id q https found member
  obtain called | waiting | ⟨wrong, -⟩ := s.listed id q https c found member
  · exact called
  · obtain self | added := reached
    · exact absurd waiting.status (s.answered c (own c self)).1
    · rw [waiting.apart] at added
      cases added
  · cases wrong

theorem Sound.act (s : Sound current done none w) {self : Option ClientId}
    (own : ∀ c, self = some c → c ∈ done) (a : Act) :
    Sound current done none (act self a w) ∧ Quiet [] w (act self a w) := by
  cases a with
  | disconnect c =>
    simp only [World.act]
    split
    · rename_i reached
      have unlisted := s.unlisted_reached own reached
      refine ⟨(s.disconnect c).1, disconnect_quiet fun waits id q https found member => ?_⟩
      exact (s.answered c (unlisted id q https found member).2).1 waits
    · exact ⟨s, .sameDns rfl⟩
  | idle c =>
    simp only [World.act]
    split
    · rename_i reached
      refine ⟨s.setClient (s.unlisted_reached own reached) ?_ ?_ (fun gone => gone), .sameDns rfl⟩
      · exact fun member => ⟨by simp, (s.answered c member).2⟩
      · exact fun unparsed => ⟨unparsed, (s.fresh c unparsed).1⟩
    · exact ⟨s, .sameDns rfl⟩
  | add =>
    simp only [World.act]
    cases self with
    | none => exact ⟨s, .sameDns rfl⟩
    | some c =>
      have member := own c rfl
      refine ⟨s.setClient (s.unlisted_reached own (.inl rfl)) ?_ ?_ (fun gone => gone), .sameDns rfl⟩
      · exact fun _ => s.answered c member
      · exact fun unparsed => absurd (s.answered c member).2 (by simpa using unparsed)

theorem Sound.actAll {self : Option ClientId} (own : ∀ c, self = some c → c ∈ done)
    (acts : List Act) : ∀ {w : World}, Sound current done none w →
      Sound current done none (actAll self acts w) ∧ Quiet [] w (actAll self acts w) := by
  induction acts with
  | nil => exact fun s => ⟨s, .sameDns rfl⟩
  | cons a acts ih =>
    intro w s
    obtain ⟨acted, quiet⟩ := s.act own a
    obtain ⟨sound, more⟩ := ih acted
    exact ⟨sound, quiet.trans more⟩

theorem Sound.enter (s : Sound current done none w) (call : Call) (status : Status)
    (answers : status ≠ .waitDns) (parsed : (w.client (calledClient call)).fullyParsed = true)
    (uncalled : .called (calledClient call) ∉ w.log)
    (held : ∀ id q https, w.dns.queryList.lookup id = some q →
      calledClient call ∈ waiters https q → current = some id)
    (silent : .joined (calledClient call) ∈ w.log → .disconnected (calledClient call) ∉ w.log) :
    Sound current (calledClient call :: done) none (enter call status w) ∧
      Quiet [call] w (enter call status w) := by
  have unlisted : Unlisted current (calledClient call :: done) w (calledClient call) :=
    fun id q https found member => ⟨held id q https found member, List.mem_cons_self⟩
  have turned := s.turn (f := ({ · with status := status })) (fun _ => List.mem_cons_of_mem _)
    (fun x member other => (List.mem_cons.mp member).resolve_left other) unlisted
    (fun _ => ⟨answers, parsed⟩) (fun unparsed => absurd parsed (by simpa using unparsed))
    (fun gone => gone)
  refine ⟨(turned.sameQueries (d := { w.dns with calls := w.dns.calls ++ [call] }) rfl rfl).note _
    ?_ ?_ ?_ ?_ ?_ ?_, ⟨fun _ => rfl, rfl, rfl, rfl⟩⟩
  · rintro x (same | wrong)
    · cases same
      exact unlisted
    · cases wrong
  · intro x same
    cases same
    exact uncalled
  · rintro x (same | wrong)
    · cases same
      simpa using parsed
    · cases wrong
  · exact fun x wrong => by cases wrong
  · intro x same
    cases same
    exact silent
  · exact fun x wrong => by cases wrong

theorem Sound.callBack (s : Sound current done none w) (call : Call) (acts : List Act)
    (parsed : (w.client (calledClient call)).fullyParsed = true)
    (uncalled : .called (calledClient call) ∉ w.log)
    (held : ∀ id q https, w.dns.queryList.lookup id = some q →
      calledClient call ∈ waiters https q → current = some id)
    (silent : .joined (calledClient call) ∈ w.log → .disconnected (calledClient call) ∉ w.log) :
    Sound current (calledClient call :: done) none (callBack call acts w) ∧
      Quiet [call] w (callBack call acts w) := by
  have own : ∀ c, some (calledClient call) = some c → c ∈ calledClient call :: done := by
    intro c same
    rw [← Option.some_inj.mp same]
    exact List.mem_cons_self
  have refused : ∀ {status}, status ≠ .waitDns →
      let w' := World.disconnect (calledClient call)
        (World.actAll (some (calledClient call)) acts (World.enter call status w))
      Sound current (calledClient call :: done) none w' ∧ Quiet [call] w w' := by
    intro status answers
    obtain ⟨entered, first⟩ := s.enter call status answers parsed uncalled held silent
    obtain ⟨acted, quiet⟩ := Sound.actAll own acts entered
    refine ⟨(acted.disconnect _).1, (first.trans quiet).trans (disconnect_quiet fun waits => ?_)⟩
    exact absurd waits (acted.answered _ List.mem_cons_self).1
  cases call with
  | dnsRight c target =>
    obtain ⟨entered, first⟩ := s.enter (.dnsRight c target) .waitTheContent
      (by decide) parsed uncalled held silent
    obtain ⟨acted, quiet⟩ := Sound.actAll own acts entered
    exact ⟨acted, first.trans quiet⟩
  | dnsWrong c => exact refused (by decide)
  | dnsError c => exact refused (by decide)

theorem Sound.waiting (s : Sound current done none w) {id : ℕ} {q : Query} {https : Bool}
    {c : ClientId} (found : w.dns.queryList.lookup id = some q) (member : c ∈ waiters https q)
    (new : c ∉ done) : Waiting w id https c := by
  obtain called | waiting | ⟨wrong, -⟩ := s.listed id q https c found member
  · exact absurd called.2 new
  · exact waiting
  · cases wrong

theorem Sound.callRest {id : ℕ} {q : Query} (https : Bool) {call : ClientId → Call}
    (own : ∀ c, calledClient (call c) = c) (acts : ClientId → List Act) (rest : List ClientId) :
    ∀ {done : List ClientId} {w : World}, Sound (some id) done none w →
      w.dns.queryList.lookup id = some q → rest.Nodup → (∀ c ∈ rest, c ∈ waiters https q) →
      (∀ c ∈ rest, c ∉ done) →
      ∃ w', callRest id (waiters https) call acts rest w = .ok w' ∧
        (∃ done', Sound (some id) done' none w' ∧ ∀ c ∈ done', c ∈ done ∨ c ∈ rest) ∧
        Quiet (rest.map call) w w' := by
  induction rest with
  | nil =>
    intro done w s found nodup listed new
    exact ⟨w, rfl, ⟨done, s, fun _ member => .inl member⟩, .sameDns rfl⟩
  | cons c rest ih =>
    intro done w s found nodup listed new
    have first := s.waiting found (listed c List.mem_cons_self) (new c List.mem_cons_self)
    obtain ⟨apart, nodup⟩ := List.nodup_cons.mp nodup
    obtain ⟨called, quiet⟩ := s.callBack (call c) (acts c) (by rw [own]; exact first.parsed)
      (by rw [own]; exact first.uncalled)
      (by
        rw [own]
        intro other q' https' found' member
        obtain before | waiting | ⟨wrong, -⟩ := s.listed other q' https' c found' member
        · exact before.1
        · exact first.host.symm.trans waiting.host
        · cases wrong)
      (by rw [own]; exact fun _ => first.connected)
    rw [own] at called
    obtain ⟨w', returned, ⟨done', sound, origin⟩, more⟩ := ih called
      ((quiet.queries id).trans found) nodup
      (fun x member => listed x (List.mem_cons_of_mem _ member))
      (fun x member => by
        rw [List.mem_cons, not_or]
        exact ⟨fun same => apart (same ▸ member), new x (List.mem_cons_of_mem _ member)⟩)
    refine ⟨w', ?_, ⟨done', sound, fun x member => ?_⟩, quiet.trans more⟩
    · rw [World.callRest, if_pos (by rw [quiet.queries])]
      exact returned
    · obtain before | later := origin x member
      · obtain rfl | earlier := List.mem_cons.mp before
        · exact .inr List.mem_cons_self
        · exact .inl earlier
      · exact .inr (List.mem_cons_of_mem _ later)

/-- Both loops over a query: every client is called, http first. -/
theorem Sound.callBoth {id : ℕ} {q : Query} (s : Sound none [] none w)
    (found : w.dns.queryList.lookup id = some q) (http : ClientId → Call)
    (ownHttp : ∀ c, calledClient (http c) = c) (acts : ClientId → List Act) :
    ∃ w₁, callList id Query.http http acts w = .ok w₁ ∧ Quiet (q.http.map http) w w₁ ∧
      ∀ (d₁ : Dns) (https : ClientId → Call), (∀ c, calledClient (https c) = c) →
      d₁.queryList = w₁.dns.queryList → d₁.queryListByHost = w₁.dns.queryListByHost →
      ∃ w₂ done, callList id Query.https https acts { w₁ with dns := d₁ } = .ok w₂ ∧
        Sound (some id) done none w₂ ∧ Quiet (q.https.map https) { w₁ with dns := d₁ } w₂ := by
  have started : Sound (some id) [] none w :=
    { s with listed := fun other q' protocol c found' member =>
        (s.listed other q' protocol c found' member).imp_left fun called => by cases called.1 }
  obtain ⟨w₁, first, ⟨done, sound, origin⟩, quiet⟩ := Sound.callRest false ownHttp acts q.http
    started found (s.nodup id q false found) (fun _ member => member) (fun _ _ => List.not_mem_nil)
  refine ⟨w₁, by rw [callList, found]; exact first, quiet,
    fun d₁ https ownHttps queries hosts => ?_⟩
  have found₁ : d₁.queryList.lookup id = some q := by
    rw [queries, quiet.queries]
    exact found
  have apart : ∀ c ∈ q.https, c ∉ done := by
    intro c member called
    have secure : Waiting w id true c := s.waiting found member List.not_mem_nil
    have plain : Waiting w id false c := s.waiting found
      ((origin c called).resolve_left List.not_mem_nil) List.not_mem_nil
    cases secure.protocol.symm.trans plain.protocol
  obtain ⟨w₂, second, ⟨done₂, sound₂, -⟩, quiet₂⟩ := Sound.callRest true ownHttps acts
    q.https (sound.sameQueries queries hosts) found₁ (s.nodup id q true found)
    (fun _ member => member) apart
  exact ⟨w₂, done₂, by rw [callList, found₁]; exact second, sound₂, quiet₂⟩

theorem Sound.removed {id : ℕ} {q : Query} (s : Sound (some id) done none w)
    (found : w.dns.queryList.lookup id = some q) :
    ∃ d, removeQuery id w.dns = .ok d ∧ Sound none [] none { w with dns := d } ∧
      d.queryList = w.dns.queryList.erase id ∧ d.calls = w.dns.calls := by
  let d := { w.dns with
    queryByNextDueTime := w.dns.queryByNextDueTime.erase q.nextRetry
    queryListByHost := w.dns.queryListByHost.erase q.host
    queryList := w.dns.queryList.erase id }
  refine ⟨d, by rw [removeQuery, found], ?_, rfl, rfl⟩
  have kept : ∀ {other q'}, (w.dns.queryList.erase id).lookup other = some q' →
      other ≠ id ∧ w.dns.queryList.lookup other = some q' := by
    intro other q' found'
    by_cases here : other = id
    · subst here
      simp at found'
    · rw [AList.lookup_erase_ne here] at found'
      exact ⟨here, found'⟩
  have sound := s.setDns (d := d)
    (fun other q' found' => ⟨q', (kept found').2, rfl, fun _ => List.Sublist.refl _⟩)
    (fun host other known alive => by
      have different : other ≠ id := (AList.mem_erase.mp alive).1
      by_cases here : host = q.host
      · subst here
        exact absurd (Option.some_inj.mp (known.symm.trans (s.byHost id q found))) different
      · rw [AList.lookup_erase_ne here]
        exact known)
  exact { sound with
    listed := fun other q' https c found' member => by
      obtain called | waiting | leaving := sound.listed other q' https c found' member
      · exact absurd (Option.some_inj.mp called.1).symm (kept found').1
      · exact .inr (.inl waiting)
      · exact .inr (.inr leaving)
    answered := fun c member => absurd member List.not_mem_nil }

/-- The query is gone and these calls were made, in a sound state. -/
structure Flushed (id : ℕ) (made : List Call) (w w' : World) : Prop where
  sound : Sound none [] none w'
  queries : ∀ other, w'.dns.queryList.lookup other = (w.dns.queryList.erase id).lookup other
  calls : w'.dns.calls = w.dns.calls ++ made

theorem Sound.finish {id : ℕ} {q : Query} {w₀ : World} {made : List Call}
    (s : Sound (some id) done none w) (found : w₀.dns.queryList.lookup id = some q)
    (queries : ∀ other, w.dns.queryList.lookup other = w₀.dns.queryList.lookup other)
    (calls : w.dns.calls = w₀.dns.calls ++ made) :
    ∃ w', lift (removeQuery id) w = .ok w' ∧ Flushed id made w₀ w' := by
  obtain ⟨d, removed, sound, erased, same⟩ := s.removed ((queries id).trans found)
  refine ⟨{ w with dns := d }, by rw [lift, removed], sound, fun other => ?_, same.trans calls⟩
  by_cases here : other = id
  · subst here
    simp [erased]
  · rw [erased, AList.lookup_erase_ne here, AList.lookup_erase_ne here]
    exact queries other

theorem Sound.flush {id : ℕ} {q : Query} (s : Sound none [] none w)
    (found : w.dns.queryList.lookup id = some q) (call : ClientId → Call)
    (own : ∀ c, calledClient (call c) = c) (acts : ClientId → List Act) :
    ∃ w', flush id call acts w = .ok w' ∧ Flushed id (callEach q call) w w' := by
  obtain ⟨w₁, first, quiet₁, continued⟩ := s.callBoth found call own acts
  obtain ⟨w₂, done, second, sound, quiet₂⟩ := continued w₁.dns call own rfl rfl
  have both := quiet₁.trans quiet₂
  obtain ⟨w', removed, flushed⟩ := sound.finish found both.queries both.calls
  refine ⟨w', ?_, flushed⟩
  have second' : callList id Query.https call acts w₁ = .ok w₂ := second
  simp only [World.flush, first, second', bind, Except.bind]
  exact removed

theorem aim_unchanged (https : Bool) (id : ℕ) (sin6_addr : In6Addr) (d : Dns) :
    (aim https id sin6_addr d).queryList = d.queryList ∧
    (aim https id sin6_addr d).queryListByHost = d.queryListByHost ∧
    (aim https id sin6_addr d).calls = d.calls := by
  simp only [aim]
  split
  · exact ⟨rfl, rfl, rfl⟩
  · split <;> split <;> exact ⟨rfl, rfl, rfl⟩

theorem aim_targets {id : ℕ} {q : Query} {d : Dns} (found : d.queryList.lookup id = some q)
    (sin6_addr : In6Addr) :
    q.http.map (Call.dnsRight · (aim false id sin6_addr d).targetHttp) =
      q.http.map (.dnsRight · ⟨sin6_addr, d.targetHttp.sin6_port⟩) ∧
    (aim false id sin6_addr d).targetHttps = d.targetHttps ∧
    q.https.map (Call.dnsRight · (aim true id sin6_addr d).targetHttps) =
      q.https.map (.dnsRight · ⟨sin6_addr, d.targetHttps.sin6_port⟩) := by
  simp only [aim, found, Bool.false_eq_true, if_false, if_true]
  cases q.http <;> cases q.https <;> simp

theorem Sound.flushRight {id : ℕ} {q : Query} (s : Sound none [] none w)
    (found : w.dns.queryList.lookup id = some q) (sin6_addr : In6Addr)
    (acts : ClientId → List Act) :
    ∃ w', flushRight id sin6_addr acts w = .ok w' ∧
      Flushed id (q.http.map (.dnsRight · ⟨sin6_addr, w.dns.targetHttp.sin6_port⟩) ++
        q.https.map (.dnsRight · ⟨sin6_addr, w.dns.targetHttps.sin6_port⟩)) w w' := by
  obtain ⟨queries, hosts, calls⟩ := aim_unchanged false id sin6_addr w.dns
  have found₀ : (aim false id sin6_addr w.dns).queryList.lookup id = some q := queries ▸ found
  obtain ⟨targetHttp, otherTarget, -⟩ := aim_targets found sin6_addr
  obtain ⟨w₁, first, quiet₁, continued⟩ :=
    (s.sameQueries queries hosts).callBoth found₀
      (.dnsRight · (aim false id sin6_addr w.dns).targetHttp) (fun _ => rfl) acts
  have found₁ : w₁.dns.queryList.lookup id = some q := (quiet₁.queries id).trans found₀
  obtain ⟨queries₁, hosts₁, calls₁⟩ := aim_unchanged true id sin6_addr w₁.dns
  obtain ⟨-, -, targetHttps⟩ := aim_targets found₁ sin6_addr
  obtain ⟨w₂, done, second, sound, quiet₂⟩ :=
    continued (aim true id sin6_addr w₁.dns)
      (.dnsRight · (aim true id sin6_addr w₁.dns).targetHttps) (fun _ => rfl) queries₁ hosts₁
  have same : ∀ other, w₂.dns.queryList.lookup other = w.dns.queryList.lookup other := by
    intro other
    rw [quiet₂.queries, queries₁, quiet₁.queries, queries]
  have made : w₂.dns.calls = w.dns.calls ++
      (q.http.map (.dnsRight · ⟨sin6_addr, w.dns.targetHttp.sin6_port⟩) ++
        q.https.map (.dnsRight · ⟨sin6_addr, w.dns.targetHttps.sin6_port⟩)) := by
    rw [quiet₂.calls, calls₁, quiet₁.calls, calls, targetHttp, targetHttps, quiet₁.targetHttps,
      otherTarget, List.append_assoc]
  obtain ⟨w', removed, flushed⟩ := sound.finish found same made
  refine ⟨w', ?_, flushed⟩
  simp only [World.flushRight, first, second, bind, Except.bind]
  exact removed

/-- Concluding an outcome makes the calls of the resolver's own model, whatever
happens in the course of them. -/
theorem Sound.conclude {id : ℕ} {q : Query} (s : Sound none [] none w)
    (found : w.dns.queryList.lookup id = some q) (o : Outcome) (now : ℕ)
    (acts : ClientId → List Act) :
    ∃ w', conclude o now id q acts w = .ok w' ∧ Flushed id (answerCalls o q w.dns) w w' := by
  have stored : ∀ (s' : StatusEntry) (ttl : ℕ) (sin6_addr : In6Addr) {call : ClientId → Call},
      (∀ c, calledClient (call c) = c) →
      ∃ w', World.flush id call acts
        { w with dns := addCacheEntry now s' ttl q.host sin6_addr w.dns } = .ok w' ∧
        Flushed id (callEach q call) w w' := by
    intro s' ttl sin6_addr call own
    obtain ⟨cache, index, eq⟩ := addCacheEntry_unchanged now s' ttl q.host sin6_addr w.dns
    rw [eq]
    let d := { w.dns with cache := cache, cacheByOutdatedDate := index }
    obtain ⟨w', done, f⟩ := (s.sameQueries (d := d) rfl rfl).flush found call own acts
    exact ⟨w', done, f.sound, f.queries, f.calls⟩
  cases o with
  | refused => exact s.flush found .dnsError (fun _ => rfl) acts
  | failed => exact stored .wrong 0 .zero fun _ => rfl
  | unanswered => exact stored .error 3600 .zero fun _ => rfl
  | address ttl sin6_addr =>
    simp only [World.conclude, answerCalls]
    split
    · obtain ⟨cache, index, eq⟩ := addCacheEntry_unchanged now .right ttl q.host sin6_addr w.dns
      rw [eq]
      let d := { w.dns with cache := cache, cacheByOutdatedDate := index }
      obtain ⟨w', done, f⟩ := (s.sameQueries (d := d) rfl rfl).flushRight found sin6_addr acts
      exact ⟨w', done, f.sound, f.queries, f.calls⟩
    · exact stored .wrong ttl sin6_addr fun _ => rfl

theorem Sound.rest (s : Sound none done none w) : Sound none [] none w where
  listed id q https c found member := by
    obtain called | waiting := s.listed id q https c found member
    · cases called.1
    · exact .inr waiting
  answered c member := absurd member List.not_mem_nil
  __ := s

structure Newcomer (w : World) (c : ClientId) : Prop where
  parsed : (w.client c).fullyParsed = true
  apart : (w.client c).added = false
  uncalled : .called c ∉ w.log
  unjoined : .joined c ∉ w.log
  unlisted : ∀ id q https, w.dns.queryList.lookup id = some q → c ∉ waiters https q

theorem Sound.leave_answered (s : Sound none [] none w) (c : ClientId) :
    Sound none [] none (leave c w) := by
  unfold World.leave
  split
  · exact s
  · exact (s.disconnect c).1

/-- A client that stays valid waits; one that does not is cancelled at once. -/
theorem Sound.leave_waiting {c : ClientId} (s : Sound none [] (some c) w)
    (parsed : (w.client c).fullyParsed = true) (apart : (w.client c).added = false)
    (uncalled : .called c ∉ w.log) : Sound none [] none (leave c w) := by
  unfold World.leave
  split
  · rename_i valid
    have connected : .disconnected c ∉ w.log := fun gone => by
      rw [s.closed c gone] at valid
      cases valid
    exact { s with
      listed := fun id q https x found member => by
        obtain called | waiting | ⟨same, held⟩ := s.listed id q https x found member
        · exact .inl called
        · exact .inr (.inl waiting)
        · obtain rfl : c = x := Option.some_inj.mp same
          exact .inr (.inl ⟨held, valid, parsed, apart, uncalled, connected⟩) }
  · obtain ⟨sound, unlisted⟩ := s.disconnect c
    exact sound.unlisted_odd unlisted

theorem Sound.admit (s : Sound none [] none w) {c : ClientId} (n : Newcomer w c) {d : Dns} (id : ℕ)
    (members : ∀ other q' https x, d.queryList.lookup other = some q' → x ∈ waiters https q' →
      (∃ q, w.dns.queryList.lookup other = some q ∧ x ∈ waiters https q) ∨
        x = c ∧ https = (w.client c).https ∧ other = id)
    (nodup : ∀ other q' https, d.queryList.lookup other = some q' → (waiters https q').Nodup)
    (byHost : ∀ other q', d.queryList.lookup other = some q' →
      d.queryListByHost.lookup q'.host = some other)
    (hosts : ∀ host other, w.dns.queryListByHost.lookup host = some other →
      other ∈ w.dns.queryList → d.queryListByHost.lookup host = some other)
    (here : d.queryListByHost.lookup (w.client c).host = some id) :
    Sound none [] (some c) (World.setClient c ({ · with status := .waitDns })
      (World.note (.joined c) { w with dns := d })) where
  byHost := byHost
  nodup := nodup
  listed other q' https x found member := by
    obtain ⟨q, before, old⟩ | ⟨rfl, rfl, rfl⟩ := members other q' https x found member
    · have different : x ≠ c := fun same => n.unlisted other q https before (same ▸ old)
      have waiting := s.waiting before old List.not_mem_nil
      refine .inr (.inl (waiting.transfer (by simp [different])
        (hosts _ _ waiting.host (mem_of_lookup before)) ?_ ?_))
      · simpa using waiting.uncalled
      · simpa using waiting.connected
    · refine .inr (.inr ⟨rfl, by simp, by simp, ?_⟩)
      rw [setClient_client, if_pos rfl]
      exact here
  answered x member := absurd member List.not_mem_nil
  once x := by
    simpa [List.count_append] using s.once x
  fresh x unparsed := by
    by_cases same : x = c
    · subst same
      simp [n.parsed] at unparsed
    · simp only [setClient_client, same, if_false] at unparsed ⊢
      obtain ⟨apart, called, joined⟩ := s.fresh x unparsed
      exact ⟨apart, by simpa using called, by simpa [same] using joined⟩
  closed x gone := by
    have before : .disconnected x ∈ w.log := by simpa using gone
    by_cases same : x = c
    · subst same
      simpa using s.closed x before
    · simpa [same] using s.closed x before
  silent x joined := by
    rw [setClient_log, note_log, List.mem_append, List.mem_singleton] at joined
    obtain before | same := joined
    · exact silent_append (s.silent x before) fun wrong => by cases wrong
    · cases same
      intro front back whole called
      have anywhere : .called c ∈ w.log ++ [.joined c] := by
        rw [setClient_log, note_log] at whole
        rw [whole]
        exact List.mem_append_right _ (List.mem_cons_of_mem _ called)
      exact n.uncalled (by simpa using anywhere)

theorem waiters_joinQuery (c : ClientId) (own https : Bool) (q : Query) :
    waiters https (joinQuery c own q) =
      if https = own then waiters https q ++ [c] else waiters https q := by
  cases https <;> cases own <;> rfl

theorem joinQuery_host (c : ClientId) (https : Bool) (q : Query) :
    (joinQuery c https q).host = q.host := by
  cases https <;> rfl

theorem Sound.joined (s : Sound none [] none w) {c : ClientId} (n : Newcomer w c) {id : ℕ}
    {q : Query} (known : w.dns.queryListByHost.lookup (w.client c).host = some id)
    (found : w.dns.queryList.lookup id = some q) :
    Sound none [] (some c) (World.setClient c ({ · with status := .waitDns })
      (World.note (.joined c) { w with dns := { w.dns with
        queryList := w.dns.queryList.insert id (joinQuery c (w.client c).https q) } })) := by
  refine s.admit n id ?_ ?_ ?_ (fun _ _ known _ => known) known
  · intro other q' https x found' member
    obtain ⟨rfl, rfl⟩ | ⟨-, before⟩ := BucketIndex.lookup_insert_cases found'
    · rw [waiters_joinQuery] at member
      split at member
      · rename_i own
        obtain old | new := List.mem_append.mp member
        · exact .inl ⟨q, found, old⟩
        · exact .inr ⟨List.mem_singleton.mp new, own, rfl⟩
      · exact .inl ⟨q, found, member⟩
    · exact .inl ⟨q', before, member⟩
  · intro other q' https found'
    obtain ⟨rfl, rfl⟩ | ⟨-, before⟩ := BucketIndex.lookup_insert_cases found'
    · rw [waiters_joinQuery]
      split
      · rw [← List.concat_eq_append]
        exact (s.nodup other q https found).concat (n.unlisted other q https found)
      · exact s.nodup other q https found
    · exact s.nodup other q' https before
  · intro other q' found'
    obtain ⟨rfl, rfl⟩ | ⟨-, before⟩ := BucketIndex.lookup_insert_cases found'
    · rw [joinQuery_host]
      exact s.byHost other q found
    · exact s.byHost other q' before

theorem Sound.asked (s : Sound none [] none w) {c : ClientId} (n : Newcomer w c) (now : ℕ)
    (alone : ∀ id ∈ w.dns.queryListByHost.lookup (w.client c).host, id ∉ w.dns.queryList) :
    let d := sendQuery c (w.client c).host (w.client c).https now (forget (w.client c).host w.dns)
    Sound none [] (some c) (World.setClient c ({ · with status := .waitDns })
      (World.note (.joined c) { w with dns := d })) := by
  intro d
  let id := w.dns.increment
  let host := (w.client c).host
  have entry : ∀ {other q'}, d.queryList.lookup other = some q' →
      other = id ∧ q'.host = host ∧ (∀ https, waiters https q' =
        if https = (w.client c).https then [c] else []) ∨
      other ≠ id ∧ w.dns.queryList.lookup other = some q' := by
    intro other q' found'
    obtain ⟨rfl, rfl⟩ | old := BucketIndex.lookup_insert_cases found'
    · refine .inl ⟨rfl, rfl, fun https => ?_⟩
      cases https <;> cases (w.client c).https <;> rfl
    · exact .inr old
  have own : d.queryListByHost.lookup host = some id := AList.lookup_insert _
  have kept : ∀ other host', w.dns.queryListByHost.lookup host' = some other →
      other ∈ w.dns.queryList → d.queryListByHost.lookup host' = some other := by
    intro other host' known alive
    by_cases here : host' = host
    · subst here
      exact absurd alive (alone other known)
    · have erased : (forget host w.dns).queryListByHost.lookup host' = some other :=
        (AList.lookup_erase_ne here).trans known
      exact (AList.lookup_insert_ne here).trans erased
  refine s.admit n id ?_ ?_ ?_ (fun host' other => kept other host') own
  · intro other q' https x found' member
    obtain ⟨rfl, -, lists⟩ | ⟨-, before⟩ := entry found'
    · rw [lists] at member
      split at member
      · rename_i same
        exact .inr ⟨List.mem_singleton.mp member, same, rfl⟩
      · cases member
    · exact .inl ⟨q', before, member⟩
  · intro other q' https found'
    obtain ⟨-, -, lists⟩ | ⟨-, before⟩ := entry found'
    · rw [lists]
      split
      · exact List.nodup_singleton c
      · exact List.nodup_nil
    · exact s.nodup other q' https before
  · intro other q' found'
    obtain ⟨rfl, same, -⟩ | ⟨-, before⟩ := entry found'
    · rw [same]
      exact own
    · exact kept other q'.host (s.byHost other q' before) (mem_of_lookup before)

theorem Sound.forgotten (s : Sound current done odd w) {host : Bytes}
    (alone : ∀ id ∈ w.dns.queryListByHost.lookup host, id ∉ w.dns.queryList) {d : Dns}
    (queries : d.queryList = w.dns.queryList)
    (hosts : d.queryListByHost = w.dns.queryListByHost.erase host) :
    Sound current done odd { w with dns := d } := by
  refine s.setDns (fun _ q found => ⟨q, queries ▸ found, rfl, fun _ => List.Sublist.refl _⟩) ?_
  intro other id known alive
  rw [queries] at alive
  rw [hosts]
  by_cases here : other = host
  · subst here
    exact absurd alive (alone id known)
  · rw [AList.lookup_erase_ne here]
    exact known

theorem answerFromCache_call (c : ClientId) (https : Bool) (entry : CacheEntry) (d : Dns) :
    ∃ call http secure, calledClient call = c ∧ answerFromCache c https entry d =
      { d with targetHttp := http, targetHttps := secure, calls := d.calls ++ [call] } := by
  simp only [answerFromCache]
  split
  · split <;> exact ⟨_, _, _, by rfl, rfl⟩
  all_goals exact ⟨_, _, _, by rfl, rfl⟩

theorem Sound.askDns (s : Sound none [] none w) {c : ClientId} (n : Newcomer w c)
    (time : Readings) (acts : List Act) : Sound none [] none (leave c (askDns c time acts w)) := by
  have got := get_got c (w.client c).host (w.client c).https time w.dns
  unfold World.askDns
  generalize Dns.get c (w.client c).host (w.client c).https time w.dns = r at got
  have waits : ∀ {d : Dns}, Sound none [] (some c) (World.setClient c ({ · with status := .waitDns })
      (World.note (.joined c) { w with dns := d })) → Sound none [] none (World.leave c
        (World.setClient c ({ · with status := .waitDns })
          (World.note (.joined c) { w with dns := d }))) := by
    intro d joined
    refine joined.leave_waiting ?_ ?_ ?_
    · simpa using n.parsed
    · simpa using n.apart
    · simpa using n.uncalled
  cases got with
  | @joined id q known found =>
    simp only [Bool.not_true, Bool.false_eq_true, if_false, List.drop_length]
    exact waits (s.joined n known found)
  | asked now asks =>
    have silent : (sendQuery c (w.client c).host (w.client c).https now
        (forget (w.client c).host w.dns)).calls = w.dns.calls := rfl
    simp only [Bool.not_true, Bool.false_eq_true, if_false, silent, List.drop_length]
    exact waits (s.asked n now asks.1)
  | refused full alone =>
    simp only [Bool.not_false, if_true]
    have forgot := s.forgotten (d := forget (w.client c).host w.dns) alone rfl rfl
    exact (forgot.disconnect c).1.leave_answered c
  | answered cache entry alone =>
    obtain ⟨call, http, secure, own, eq⟩ := answerFromCache_call c (w.client c).https entry
      { forget (w.client c).host w.dns with cache := cache }
    have last : ((forget (w.client c).host w.dns).calls ++ [call]).drop w.dns.calls.length =
        [call] := List.drop_left
    simp only [Bool.not_true, Bool.false_eq_true, if_false, eq, last]
    let d := { forget (w.client c).host w.dns with
      cache := cache, targetHttp := http, targetHttps := secure }
    have forgot : Sound none [] none { w with dns := d } := s.forgotten alone rfl rfl
    have called := (forgot.callBack call acts (by rw [own]; exact n.parsed)
      (by rw [own]; exact n.uncalled)
      (by
        rw [own]
        exact fun id q https found member => absurd member (n.unlisted id q https found))
      (by rw [own]; exact fun joined => absurd joined n.unjoined)).1
    rw [own] at called
    have unlisted : Unlisted none [] (World.callBack call acts { w with dns := d }) c := by
      intro id q https found member
      obtain wrong | waiting | ⟨wrong, -⟩ := called.listed id q https c found member
      · cases wrong.1
      · exact absurd waiting.status (called.answered c List.mem_cons_self).1
      · cases wrong
    refine (called.rest.setClient (f := ({ · with status := .waitDns })) unlisted ?_ ?_
      (fun gone => gone)).leave_answered c
    · exact fun member => absurd member List.not_mem_nil
    · exact fun unparsed => absurd (called.answered c List.mem_cons_self).2 (by simpa using unparsed)

theorem Sound.read (s : Sound none [] none w) {c : ClientId} {f : Client → Client}
    (unparsed : (w.client c).fullyParsed = false) (parsed : (f (w.client c)).fullyParsed = true)
    (added : (f (w.client c)).added = (w.client c).added)
    (valid : (f (w.client c)).isValid = (w.client c).isValid) :
    Sound none [] none (World.setClient c f w) ∧ Newcomer (World.setClient c f w) c := by
  obtain ⟨apart, uncalled, unjoined⟩ := s.fresh c unparsed
  have unlisted : ∀ id q https, w.dns.queryList.lookup id = some q → c ∉ waiters https q := by
    intro id q https found member
    have waiting := (s.waiting found member List.not_mem_nil).parsed
    rw [unparsed] at waiting
    cases waiting
  refine ⟨s.setClient (fun id q https found member => absurd member (unlisted id q https found))
    (fun member => absurd member List.not_mem_nil) ?_ (fun gone => valid.trans gone), ?_⟩
  · intro contrary
    rw [parsed] at contrary
    cases contrary
  · exact ⟨by simpa using parsed, by simpa using added.trans apart, uncalled, unjoined, unlisted⟩

theorem Sound.corrupted (s : Sound none [] none w) {c : ClientId} (n : Newcomer w c) :
    let w' := World.disconnect c (World.setClient c ({ · with status := .idle }) w)
    Sound none [] none w' ∧ Newcomer w' c := by
  intro w'
  have idle : Sound none [] none (World.setClient c ({ · with status := .idle }) w) := by
    refine s.setClient (fun id q https found member => absurd member (n.unlisted id q https found))
      (fun member => absurd member List.not_mem_nil) ?_ (fun gone => gone)
    exact fun unparsed => absurd n.parsed (by simpa using unparsed)
  have eq : w' = World.note (.disconnected c) (World.setClient c ({ · with isValid := false })
      (World.setClient c ({ · with status := .idle }) w)) := by
    simp only [w']
    rw [disconnect_eq, CallbackOnce.dropped, if_neg (by simp)]
  refine ⟨(idle.disconnect c).1, ?_⟩
  rw [eq]
  exact ⟨by simpa using n.parsed, by simpa using n.apart, by simpa using n.uncalled,
    by simpa using n.unjoined, n.unlisted⟩

theorem Sound.request (s : Sound none [] none w) (c : ClientId) (host : Bytes)
    (https corrupted : Bool) (time : Readings) (acts : List Act) :
    Sound none [] none (request c host https corrupted time acts w) := by
  unfold World.request
  split
  · exact s
  rename_i ready
  obtain ⟨-, unparsed⟩ : (w.client c).isValid = true ∧ (w.client c).fullyParsed = false := by
    simpa using ready
  obtain ⟨sound, newcomer⟩ := s.read (f := ({ · with
    host := host, https := https, fullyParsed := true, status := .waitTheContent })) unparsed rfl
    rfl rfl
  dsimp only
  split
  · obtain ⟨ended, still⟩ := sound.corrupted newcomer
    exact ended.askDns still time acts
  · exact sound.askDns newcomer time acts

theorem Sound.serve (s : Sound none [] none w) (c : ClientId) (acts : List Act) :
    Sound none [] none (serve c acts w) := by
  unfold World.serve
  split
  · exact s
  rename_i ready
  obtain ⟨-, unparsed⟩ : (w.client c).isValid = true ∧ (w.client c).fullyParsed = false := by
    simpa using ready
  obtain ⟨sound, newcomer⟩ := s.read (f := ({ · with
    fullyParsed := true, status := .waitTheContent })) unparsed rfl rfl rfl
  have own : ∀ x, some c = some x → x ∈ [c] := fun x same => by simp [Option.some_inj.mp same]
  -- the client itself is the one being answered
  have answering : Sound none [c] none (World.setClient c ({ · with
      fullyParsed := true, status := .waitTheContent }) w) :=
    { sound with
      listed := fun id q https x found member => by
        obtain wrong | waiting := sound.listed id q https x found member
        · cases wrong.1
        · exact .inr waiting
      answered := fun x member => by
        rw [List.mem_singleton.mp member]
        simp }
  exact (Sound.actAll own acts answering).1.rest.leave_answered c

def Fine (r : Except Fault World) : Prop :=
  (∀ w, r = .ok w → Sound none [] none w) ∧ r ≠ .error .invalidated

theorem fine_ok (s : Sound none [] none w) : Fine (.ok w) :=
  ⟨fun _ same => Except.ok.inj same ▸ s, fun wrong => by cases wrong⟩

theorem fine_halt (halt : Halt) : Fine (.error (.halt halt)) :=
  ⟨fun _ wrong => by (cases wrong), fun wrong => by cases wrong⟩

theorem parseEvent_fine (s : Sound none [] none w) (fromServer : Bool) (buffer : Memory) (size : ℕ)
    (time : Readings) (acts : ClientId → List Act) :
    Fine (parseEvent fromServer buffer size time acts w) := by
  have counted : Sound none [] none { w with dns := uncount w.dns } := s.sameQueries rfl rfl
  unfold World.parseEvent
  split
  · exact fine_ok s
  split
  · exact fine_halt _
  split
  · exact fine_ok counted
  · rename_i id q o decided
    obtain ⟨w', done, flushed⟩ := counted.conclude (settled_found decided).1 o (time 0) acts
    rw [done]
    exact fine_ok flushed.sound

theorem Sound.resend (s : Sound none [] none w) {id : ℕ} {query : Query}
    (found : w.dns.queryList.lookup id = some query) (now : ℕ) :
    Sound none [] none { w with dns := resend now id query w.dns } := by
  refine s.setDns (fun other q' found' => ?_) fun _ _ known _ => known
  obtain ⟨rfl, rfl⟩ | ⟨-, old⟩ := BucketIndex.lookup_insert_cases found'
  · exact ⟨query, found, rfl, fun https => List.Sublist.refl _⟩
  · exact ⟨q', old, rfl, fun _ => List.Sublist.refl _⟩

theorem checkList_fine (time : Readings) (acts : ClientId → List Act) (ids : List ℕ) :
    ∀ (k : ℕ) (w : World), Sound none [] none w →
      (∀ k' w', checkList time acts k ids w = .ok (k', w') → Sound none [] none w') ∧
        checkList time acts k ids w ≠ .error .invalidated := by
  induction ids with
  | nil =>
    intro k w s
    refine ⟨fun k' w' done => ?_, fun wrong => by cases wrong⟩
    cases done
    exact s
  | cons id ids ih =>
    intro k w s
    simp only [World.checkList]
    split
    · exact ⟨fun _ _ wrong => by (cases wrong), fun wrong => by cases wrong⟩
    · rename_i query found
      split
      · exact ih _ _ (s.resend found (time k))
      · obtain ⟨w', done, flushed⟩ := s.flush found .dnsError (fun _ => rfl) acts
        rw [done]
        exact ih k w' flushed.sound

theorem checkBuckets_fine (time : Readings) (acts : ClientId → List Act)
    (buckets : List (ℕ × List ℕ)) :
    ∀ (k : ℕ) (w : World), Sound none [] none w → Fine (checkBuckets time acts k buckets w) := by
  induction buckets with
  | nil => exact fun _ _ s => fine_ok s
  | cons entry rest ih =>
    intro k w s
    obtain ⟨t, list⟩ := entry
    obtain ⟨sound, valid⟩ := checkList_fine time acts list (k + 1) w s
    simp only [World.checkBuckets]
    split
    · exact fine_ok s
    split
    · rename_i fault failed
      refine ⟨fun _ wrong => by (cases wrong), fun wrong => valid ?_⟩
      rw [failed, Except.error.inj wrong]
    · rename_i k' w' checked
      exact ih k' _ ((sound k' w' checked).sameQueries rfl rfl)

theorem perform_fine (s : Sound none [] none w) (e : World.Event) : Fine (perform e w) := by
  cases e with
  | request c host https corrupted time acts => exact fine_ok (s.request c host https corrupted time acts)
  | serve c acts => exact fine_ok (s.serve c acts)
  | disconnect c => exact fine_ok (s.disconnect c).1
  | download acts =>
    have own : ∀ c, (none : Option ClientId) = some c → c ∈ ([] : List ClientId) :=
      fun _ wrong => by cases wrong
    exact fine_ok (Sound.actAll own acts s).1
  | datagram fromServer buffer size time acts => exact parseEvent_fine s fromServer buffer size time acts
  | cleanCache time =>
    obtain ⟨cache, index, cleaned, -⟩ := DnsVerdict.cleanCache_unchanged time w.dns
    exact fine_ok (s.sameQueries (by rw [cleaned]) (by rw [cleaned]))
  | checkQueries time acts => exact checkBuckets_fine time acts _ 0 w s

theorem initial_sound : Sound none [] none World.initial where
  byHost id q found := by simp [World.initial, Dns.initial] at found
  nodup id q https found := by simp [World.initial, Dns.initial] at found
  listed id q https c found := by simp [World.initial, Dns.initial] at found
  answered c member := absurd member List.not_mem_nil
  once c := by simp [World.initial]
  fresh c _ := by simp [World.initial, Client.initial]
  closed c gone := by simp [World.initial] at gone
  silent c joined := by simp [World.initial] at joined

theorem reach_sound (reached : Reach World.Step anyStep (· = World.initial) w) :
    Sound none [] none w :=
  reached.invariant (fun _ start => start ▸ initial_sound) fun e _ t s _ taken =>
    (perform_fine s e).1 t taken

/-- In every run every client is called at most once; one that was put into a
list is not called after it was disconnected, and a disconnected client is in no
list; and no list changes while it is iterated. -/
theorem waiting_client_is_called_once (reached : Reach World.Step anyStep (· = World.initial) w) :
    (∀ c, w.log.count (.called c) ≤ 1) ∧
    (∀ c, .joined c ∈ w.log → ∀ before after,
      w.log = before ++ .disconnected c :: after → .called c ∉ after) ∧
    (∀ c, .disconnected c ∈ w.log → ∀ id q, w.dns.queryList.lookup id = some q →
      c ∉ q.http ∧ c ∉ q.https) ∧
    ∀ e, World.perform e w ≠ .error .invalidated := by
  have s := reach_sound reached
  refine ⟨s.once, s.silent, fun c gone id q found => ?_, fun e => (perform_fine s e).2⟩
  have absent : ∀ https, c ∉ waiters https q := fun https member =>
    (s.waiting found member List.not_mem_nil).connected gone
  exact ⟨absent false, absent true⟩

end sound

theorem waiting_client_is_served : ∃ w, Reach World.Step anyStep (· = World.initial) w ∧
    .joined 7 ∈ w.log ∧ .called 7 ∈ w.log ∧ .disconnected 7 ∈ w.log ∧
    w.log.count (.called 7) ≤ 1 := by
  have asked : Reach World.Step anyStep (· = World.initial)
      (World.request 7 [97] false false (fun _ => 100) [] World.initial) :=
    .next (e := .request 7 [97] false false (fun _ => 100) []) (.start rfl) trivial rfl
  obtain ⟨w, replied, joined, called, disconnected⟩ : ∃ w,
      World.Step (.datagram true (fun i => insideReply.getD i 0) 47 (fun _ => 101)
        fun _ => [.add, .disconnect 7])
        (World.request 7 [97] false false (fun _ => 100) [] World.initial) w ∧
      .joined 7 ∈ w.log ∧ .called 7 ∈ w.log ∧ .disconnected 7 ∈ w.log :=
    ⟨_, rfl, by decide, by decide, by decide⟩
  have reached := Reach.next asked (trivial : anyStep _ _) replied
  exact ⟨w, reached, joined, called, disconnected, (waiting_client_is_called_once reached).1 7⟩

end FastCgiCdn.CallbackOnce
