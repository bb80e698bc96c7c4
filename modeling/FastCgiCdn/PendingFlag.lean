import FastCgiCdn.PoolOutcomes

/-! The flag `pending` of an Http and the queue of its list. `tryConnectInternalList`
sets the flag as it queues, and an object that is taken out of the queue dies with
its flag, but for the one that `downloadFinished` serves: the flag is set a second
time there, and the time-out of a queued object stays with one that runs. -/

namespace FastCgiCdn.PendingFlag

open GuardedRuns DnsModel PoolModel Pool PoolInvariant PoolWellFormed PoolOutcomes

variable {limit : ℕ} {system : System} {disconnect : HttpId → Pool → Option Pool}
variable {held : Option BackendId} {p p' p'' : Pool} {b : BackendId} {h x : HttpId} {l : ListId}

def Queued (h : HttpId) (p : Pool) : Prop :=
  ∃ l, (p.http h).backendList = some l ∧ h ∈ (p.list l).pending

def Mirrors (p : Pool) : Prop :=
  ∀ h, (p.http h).isAlive = true → ((p.http h).pending = true ↔ Queued h p)

theorem queued_iff (w : WellFormed limit held p) : Queued h p ↔ ∃ l, h ∈ (p.list l).pending := by
  constructor
  · rintro ⟨l, -, member⟩
    exact ⟨l, member⟩
  · rintro ⟨l, member⟩
    exact ⟨l, (w.pending l h member).2, member⟩

/-- The queues are as before, and so are the flags and the lives of all objects. -/
structure Quiet (p p' : Pool) : Prop where
  http : ∀ h, (p'.http h).isAlive = (p.http h).isAlive ∧ (p'.http h).pending = (p.http h).pending
  pending : ∀ l, (p'.list l).pending = (p.list l).pending

namespace Quiet

theorem refl (p : Pool) : Quiet p p := ⟨fun _ => ⟨rfl, rfl⟩, fun _ => rfl⟩

theorem trans (q : Quiet p p') (r : Quiet p' p'') : Quiet p p'' where
  http h := ⟨(r.http h).1.trans (q.http h).1, (r.http h).2.trans (q.http h).2⟩
  pending l := (r.pending l).trans (q.pending l)

theorem setHttp {f : Http → Http} (keeps : (f (p.http h)).isAlive = (p.http h).isAlive ∧
    (f (p.http h)).pending = (p.http h).pending) : Quiet p (Pool.setHttp h f p) where
  http x := by
    by_cases own : x = h
    · subst own
      simpa using keeps
    · simp [own]
  pending _ := rfl

theorem setBackend (f : Backend → Backend) : Quiet p (Pool.setBackend b f p) :=
  ⟨fun _ => ⟨rfl, rfl⟩, fun _ => rfl⟩

theorem setList {f : BackendList → BackendList}
    (keeps : (f (p.list l)).pending = (p.list l).pending) : Quiet p (Pool.setList l f p) where
  http _ := ⟨rfl, rfl⟩
  pending x := by
    by_cases own : x = l
    · subst own
      simpa using keeps
    · simp [own]

theorem setPath (https : Bool) (path : Bytes) (h : Option HttpId) :
    Quiet p (Pool.setPath https path h p) :=
  ⟨fun _ => ⟨rfl, rfl⟩, fun _ => rfl⟩

theorem setAddress (https : Bool) (addr : In6Addr) (l : Option ListId) :
    Quiet p (Pool.setAddress https addr l p) :=
  ⟨fun _ => ⟨rfl, rfl⟩, fun _ => rfl⟩

theorem unregister : Quiet p (Pool.unregister h p) := by
  unfold Pool.unregister
  split
  · exact refl p
  · exact (setPath ..).trans (setPath ..)

theorem backendError : Quiet p (Pool.backendError h p) :=
  ((setHttp ⟨rfl, rfl⟩).trans unregister).trans (setHttp ⟨rfl, rfl⟩)

theorem disconnectFrontend : Quiet p (Pool.disconnectFrontend h p) := setHttp ⟨rfl, rfl⟩

theorem dismissed : Quiet p (Pool.disconnectFrontend h (Pool.backendError h p)) :=
  backendError.trans disconnectFrontend

theorem errorPending : Quiet p (Pool.errorPending l p) := by
  unfold Pool.errorPending
  generalize (p.list l).pending = waiting
  induction waiting generalizing p with
  | nil => exact refl p
  | cons h waiting ih => exact dismissed.trans ih

theorem resetRequestSended : Quiet p (Pool.resetRequestSended h p) := by
  unfold Pool.resetRequestSended
  split
  · exact refl p
  · exact setHttp ⟨rfl, rfl⟩

theorem readyToWrite : Quiet p (Pool.readyToWrite system h p) := by
  unfold Pool.readyToWrite
  split
  · exact refl p
  · exact setHttp ⟨rfl, rfl⟩

theorem addClient (client : ClientId) : Quiet p (Pool.addClient h client p) := by
  unfold Pool.addClient
  split
  · exact refl p
  · exact setHttp ⟨rfl, rfl⟩

theorem statusLine (http_code : ℕ) : Quiet p (Pool.statusLine h http_code p) := by
  unfold Pool.statusLine
  refine (setHttp (h := h) (f := ({ · with http_code := http_code })) ⟨rfl, rfl⟩).trans ?_
  dsimp only
  split
  · exact refl _
  · exact setBackend _

theorem close : Quiet p (Pool.close b p) := setBackend _

theorem shut : Quiet p (Pool.shut b p) := by
  unfold Pool.shut
  split
  · exact close
  · exact close.trans resetRequestSended

theorem forget : Quiet p (PoolOutcomes.forget b p) := by
  unfold PoolOutcomes.forget
  split
  · exact refl p
  · exact setHttp ⟨rfl, rfl⟩

theorem unlink : Quiet p (PoolInvariant.unlink b h p) :=
  (setHttp ⟨rfl, rfl⟩).trans (setBackend _)

theorem link : Quiet p (Pool.link b h p) := (setBackend _).trans (setHttp ⟨rfl, rfl⟩)

theorem park : Quiet p (Pool.park l b p) := by
  unfold Pool.park
  split
  · exact setList rfl
  · exact refl p

theorem leaveBusy : Quiet p (Pool.leaveBusy l b p) := setList rfl

theorem leaveIdle : Quiet p (Pool.leaveIdle l b p) := setList rfl

theorem enterBusy : Quiet p (Pool.enterBusy l b p) := setList rfl

theorem allocBackend : Quiet p (Pool.allocBackend system l p) :=
  ⟨fun _ => ⟨rfl, rfl⟩, fun _ => rfl⟩

theorem reassign : Quiet p (Pool.reassign system l b h p) := by
  unfold Pool.reassign
  dsimp only
  have sent : Quiet p (Pool.setHttp h ({ · with requestSended := false }) p) := setHttp ⟨rfl, rfl⟩
  split
  · exact ((sent.trans (setList rfl)).trans link).trans (readyToWrite.trans (setBackend _))
  · split
    · exact ((sent.trans allocBackend).trans link).trans (enterBusy.trans (setBackend _))
    · exact sent.trans allocBackend

theorem abandon : Quiet p (PoolWellFormed.abandon l b h p) := by
  unfold PoolWellFormed.abandon
  dsimp only
  refine Quiet.trans ?_ ((((setHttp ⟨rfl, rfl⟩).trans backendError).trans (setBackend _)).trans close)
  split
  · exact leaveBusy.trans errorPending
  · exact leaveBusy

end Quiet

def Faithful (p p' : Pool) : Prop :=
  ∀ h, (p'.http h).isAlive = true → (p.http h).isAlive = true ∧
    (p'.http h).pending = (p.http h).pending ∧
    ((∃ l, h ∈ (p'.list l).pending) ↔ ∃ l, h ∈ (p.list l).pending)

theorem Quiet.faithful (q : Quiet p p') : Faithful p p' := by
  intro h alive
  rw [(q.http h).1] at alive
  exact ⟨alive, (q.http h).2, by simp only [q.pending]⟩

theorem Faithful.trans (f : Faithful p p') (g : Faithful p' p'') : Faithful p p'' := by
  intro h alive
  obtain ⟨alive', flag', queued'⟩ := g h alive
  obtain ⟨alive'', flag, queued⟩ := f h alive'
  exact ⟨alive'', flag'.trans flag, queued'.trans queued⟩

theorem Discards.faithful (d : Discards l p p') : Faithful p p' := by
  intro h alive
  have stays (queued : h ∈ (p.list l).pending) : h ∈ (p'.list l).pending := by
    by_contra gone
    rw [(d.dead h queued gone).1] at alive
    cases alive
  have same := d.kept h stays
  rw [same] at alive ⊢
  refine ⟨alive, rfl, exists_congr fun x => ?_⟩
  by_cases own : x = l
  · subst own
    exact ⟨fun member => d.pending.subset member, stays⟩
  · rw [d.list_of_ne own]

theorem retire_faithful (unqueued : ∀ l, h ∉ (p.list l).pending) (fromDestructor : Bool) :
    Faithful p (retire fromDestructor h p) := by
  intro x alive
  obtain ⟨-, -, -, lists, -, others⟩ := retire_unchanged (h := h) (p := p) fromDestructor
  have other : x ≠ h := by
    rintro rfl
    rw [(retire_http fromDestructor).1] at alive
    cases alive
  rw [others x other] at alive ⊢
  rw [lists]
  exact ⟨alive, rfl, Iff.rfl⟩

theorem leave_faithful (fromDestructor : Bool) :
    Faithful p (retire fromDestructor h (leavePending h p)) := by
  intro x alive
  obtain ⟨-, -, -, lists, -, others⟩ :=
    retire_unchanged (h := h) (p := leavePending h p) fromDestructor
  have other : x ≠ h := by
    rintro rfl
    rw [(retire_http fromDestructor).1] at alive
    cases alive
  rw [others x other, leavePending_http] at alive ⊢
  refine ⟨alive, rfl, exists_congr fun l => ?_⟩
  rw [lists, (leavePending_list l).2.2]
  split
  · exact List.mem_erase_of_ne other
  · rfl

/-- An object that runs with the flag of a queued one. -/
structure Odd (h : HttpId) (p : Pool) : Prop where
  alive : (p.http h).isAlive = true
  flag : (p.http h).pending = true
  unqueued : ∀ l, h ∉ (p.list l).pending

theorem Odd.not_mirrors (odd : Odd h p) : ¬Mirrors p := by
  intro mirrors
  obtain ⟨l, -, member⟩ := (mirrors h odd.alive).mp odd.flag
  exact odd.unqueued l member

theorem Quiet.odd (q : Quiet p p') (odd : Odd h p) : Odd h p' where
  alive := (q.http h).1.trans odd.alive
  flag := (q.http h).2.trans odd.flag
  unqueued l := by
    rw [q.pending]
    exact odd.unqueued l

theorem retire_odd (odd : Odd x p) (other : x ≠ h) (fromDestructor : Bool) :
    Odd x (retire fromDestructor h p) := by
  obtain ⟨-, -, -, lists, -, others⟩ := retire_unchanged (h := h) (p := p) fromDestructor
  refine ⟨?_, ?_, fun l => ?_⟩
  · rw [others x other]
    exact odd.alive
  · rw [others x other]
    exact odd.flag
  · rw [lists]
    exact odd.unqueued l

/-- The object that the search serves gets the flag of a queued one. -/
theorem serve_odd (w : WellFormed limit held p) {rest : List HttpId}
    (queue : (p.list l).pending = x :: rest) (alive : (p.http x).isAlive = true) :
    Odd x (serve system l b x rest p) := by
  refine (Quiet.link.trans Quiet.readyToWrite).odd ⟨?_, ?_, (w.loose_front queue).unqueued⟩
  · simpa [Http.isAlive] using alive
  · simp

theorem remoteSocketClosed_quiet (w : WellFormed limit none p)
    (home : (p.backend b).backendList = some l) (connected : (p.backend b).wasTCPConnected = true)
    (run : remoteSocketClosed disconnect system b p = some p') : Quiet p p' := by
  by_cases busy : b ∈ (p.list l).busy
  · obtain ⟨h, linked, -⟩ := w.busy l b busy (Option.some_ne_none _).symm
    rw [remoteSocketClosed_busy home connected busy linked, Option.some.injEq] at run
    exact run ▸ (Quiet.shut.trans Quiet.leaveBusy).trans Quiet.reassign
  · rw [remoteSocketClosed_apart home connected busy, Option.some.injEq] at run
    exact run ▸ Quiet.shut.trans Quiet.leaveIdle

theorem remoteSocketClosed_faithful (d : Dismisses disconnect) (w : WellFormed limit none p)
    (run : remoteSocketClosed disconnect system b p = some p') : Faithful p p' := by
  cases home : (p.backend b).backendList with
  | none =>
    rw [remoteSocketClosed_homeless home, Option.some.injEq] at run
    exact run ▸ Quiet.shut.faithful
  | some l =>
    cases connected : (p.backend b).wasTCPConnected with
    | false =>
      obtain ⟨r, -, discards, -, result⟩ := remoteSocketClosed_unanswered system d w home connected
      rw [result, Option.some.injEq] at run
      rw [← run]
      exact ((Quiet.shut.trans Quiet.leaveBusy).faithful.trans (Discards.faithful discards)).trans
        Quiet.forget.faithful
    | true => exact (remoteSocketClosed_quiet w home connected run).faithful

/-- The end of the object serves one that is queued: its backend has had an answer,
and an object with a URL and a client waits for it. -/
def Serves (h : HttpId) (p : Pool) : Prop :=
  ∃ b l, (p.http h).backend = some b ∧ (p.backend b).wasTCPConnected = true ∧
    (p.backend b).backendList = some l ∧
      ∃ x ∈ (p.list l).pending, (p.http x).haveUrlAndFrontendConnected = true

theorem unserved_ne_nil_iff (waiting : List HttpId) : unserved p waiting ≠ [] ↔
    ∃ x ∈ waiting, (p.http x).haveUrlAndFrontendConnected = true := by
  induction waiting with
  | nil => simp [unserved]
  | cons h waiting ih =>
    rw [unserved_cons]
    split
    · rename_i served
      simp [served]
    · rename_i skipped
      rw [ih]
      simp [skipped]

theorem unserved_head {waiting rest : List HttpId} (stops : unserved p waiting = x :: rest) :
    (p.http x).haveUrlAndFrontendConnected = true := by
  induction waiting with
  | nil => cases stops
  | cons h waiting ih =>
    rw [unserved_cons] at stops
    split at stops
    · rename_i served
      rw [← (List.cons.inj stops).1]
      exact served
    · exact ih stops

theorem serves_iff (own : (p.http h).backend = some b) (home : (p.backend b).backendList = some l) :
    Serves h p ↔ (p.backend b).wasTCPConnected = true ∧ unserved p (p.list l).pending ≠ [] := by
  rw [unserved_ne_nil_iff]
  constructor
  · rintro ⟨b', l', own', connected, home', waits⟩
    obtain rfl : b = b' := Option.some_inj.mp (own.symm.trans own')
    obtain rfl : l = l' := Option.some_inj.mp (home.symm.trans home')
    exact ⟨connected, waits⟩
  · rintro ⟨connected, waits⟩
    exact ⟨b, l, own, connected, home, waits⟩

theorem downloadFinished_faithful (d : Dismisses disconnect) (w : WellFormed limit none p)
    (own : (p.http h).backend = some b)
    (run : downloadFinished disconnect system b p = some p') :
    (¬Serves h p → Faithful p p') ∧ (Serves h p → ∃ x, x ≠ h ∧ Odd x p') := by
  have linked := w.back h b own
  obtain ⟨l, home⟩ := w.homed b h linked
  rw [serves_iff own home]
  cases connected : (p.backend b).wasTCPConnected with
  | false =>
    obtain ⟨r, -, discards, -, result⟩ :=
      downloadFinished_unanswered system d w linked home connected
    rw [result, Option.some.injEq] at run
    refine ⟨fun _ => ?_, fun serves => absurd serves.1 (by simp)⟩
    rw [← run]
    exact ((Quiet.abandon.trans Quiet.shut).trans Quiet.leaveBusy).faithful.trans
      (Discards.faithful discards)
  | true =>
    obtain ⟨r, wr, discards, left, result⟩ :=
      downloadFinished_answered system d w linked home connected
    rw [result, Option.some.injEq] at run
    have until_r : Faithful p r := Quiet.unlink.faithful.trans (Discards.faithful discards)
    rw [← run]
    cases stops : (r.list l).pending with
    | nil =>
      rw [← left, stops]
      refine ⟨fun _ => ?_, fun serves => absurd rfl serves.2⟩
      exact until_r.trans (Quiet.leaveBusy.trans Quiet.park).faithful
    | cons x rest =>
      rw [← left, stops]
      refine ⟨fun never => absurd ⟨rfl, List.cons_ne_nil x rest⟩ never, fun _ => ⟨x, ?_, ?_⟩⟩
      · rintro rfl
        have queued : x ∈ (r.list l).pending := by simp [stops]
        exact w.alone (discards.pending.subset queued) b linked
      · have queued : x ∈ (r.list l).pending := by simp [stops]
        have served := unserved_head (left.symm.trans stops)
        have same := discards.kept x fun _ => queued
        refine serve_odd wr stops ?_
        rw [same, (Quiet.unlink.http x).1]
        unfold Http.haveUrlAndFrontendConnected at served
        rw [Bool.and_eq_true] at served
        exact served.1

theorem disconnectBackend_faithful (w : WellFormed limit none p) (depth : ℕ)
    (fromDestructor : Bool)
    (run : disconnectBackend system (depth + 2) fromDestructor h p = some p') :
    (¬Serves h p → Faithful p p') ∧ (Serves h p → ∃ x, x ≠ h ∧ Odd x p') := by
  cases own : (p.http h).backend with
  | none =>
    rw [disconnectBackend_waiting (depth + 1) fromDestructor own, Option.some.injEq] at run
    rw [← run]
    refine ⟨fun _ => leave_faithful fromDestructor, ?_⟩
    rintro ⟨b, l, own', -⟩
    rw [own] at own'
    cases own'
  | some b =>
    obtain ⟨q, finished, -, -, unqueued, -⟩ :=
      downloadFinished_returns system (disconnectBackend_dismisses depth) w own
    obtain ⟨keeps, serves⟩ :=
      downloadFinished_faithful (disconnectBackend_dismisses depth) w own finished
    rw [disconnectBackend, own] at run
    dsimp only at run
    rw [finished, Option.map_some, Option.some.injEq] at run
    rw [← run]
    refine ⟨fun never => (keeps never).trans (retire_faithful unqueued fromDestructor),
      fun served => ?_⟩
    obtain ⟨x, other, odd⟩ := serves served
    exact ⟨x, other, retire_odd odd other fromDestructor⟩

theorem serves_congr (w : WellFormed limit none p)
    (backend : (p'.http h).backend = (p.http h).backend) (backends : p'.backend = p.backend)
    (list : p'.list = p.list) (others : ∀ x, x ≠ h → p'.http x = p.http x) :
    Serves h p' ↔ Serves h p := by
  unfold Serves
  rw [backend, backends, list]
  refine exists_congr fun b => exists_congr fun l => and_congr_right fun own =>
    and_congr_right fun _ => and_congr_right fun _ => exists_congr fun x =>
      and_congr_right fun queued => ?_
  rw [others x]
  rintro rfl
  exact w.alone queued b (w.back x b own)

theorem dismissed_serves (w : WellFormed limit none p) :
    Serves h (disconnectFrontend h (backendError h p)) ↔ Serves h p := by
  have same : SameLinks p (disconnectFrontend h (backendError h p)) := .dismissed h
  refine serves_congr w (same.http h).1 backendError_unchanged.2.1 same.list fun x other => ?_
  simpa [disconnectFrontend, other] using backendError_unchanged.2.2 x other

theorem disconnectFrontend_serves (w : WellFormed limit none p) :
    Serves h (disconnectFrontend h p) ↔ Serves h p := by
  refine serves_congr w ((SameLinks.disconnectFrontend h).http h).1 rfl rfl fun x other => ?_
  simp [disconnectFrontend, other]

theorem backendTimeout_faithful (w : WellFormed limit none p)
    (linked : (p.backend b).http = some h) (overdue : Overdue system b p) (depth : ℕ)
    (run : backendTimeout system (depth + 2) b p = some p') :
    (¬Serves h p → Faithful p p') ∧ (Serves h p → ∃ x, Odd x p') := by
  obtain ⟨q, ended, wq, closed⟩ := overdue_halves w linked overdue depth run
  have same : SameLinks p (disconnectFrontend h (backendError h p)) := .dismissed h
  have wc : WellFormed limit none (close b q) := (SameLinks.close b).wellFormed wq
  obtain ⟨keeps, serves⟩ := disconnectBackend_faithful (same.wellFormed w) depth false ended
  rw [dismissed_serves w] at keeps serves
  refine ⟨fun never => ?_, fun served => ?_⟩
  · exact ((Quiet.dismissed.faithful.trans (keeps never)).trans Quiet.close.faithful).trans
      (remoteSocketClosed_faithful (disconnectBackend_dismisses (depth + 1)) wc closed)
  · obtain ⟨x, -, odd⟩ := serves served
    obtain ⟨b', l, own, connected, home, -⟩ := served
    obtain rfl : b' = b := by
      obtain own' | ⟨left, -⟩ := w.stale b h linked
      · exact Option.some_inj.mp (own.symm.trans own')
      · rw [left] at own
        cases own
    obtain ⟨connected', home'⟩ := disconnectBackend_keeps system (same.wellFormed w)
      ((same.http h).1.trans own) depth false ended
    have backends : (disconnectFrontend h (backendError h p)).backend = p.backend :=
      backendError_unchanged.2.1
    rw [backends] at connected' home'
    refine ⟨x, (Quiet.close.trans (remoteSocketClosed_quiet (l := l) wc ?_ ?_ closed)).odd odd⟩
    · simpa [close] using home'.trans home
    · simpa [close] using connected'.trans connected

theorem not_serves (waits : (p.http h).backend = none) : ¬Serves h p := by
  rintro ⟨b, l, own, -⟩
  rw [waits] at own
  cases own

theorem httpTimeout_faithful (w : WellFormed limit none p) (depth : ℕ)
    (run : httpTimeout system (depth + 2) h p = some p') : Faithful p p' := by
  have same : SameLinks p (disconnectFrontend h p) := .disconnectFrontend h
  by_cases overdue : HttpOverdue system h p
  · rw [httpTimeout_overdue overdue] at run
    cases own : (p.http h).backend with
    | some b =>
      rw [own, Option.some.injEq] at run
      exact run ▸ (Quiet.disconnectFrontend.trans Quiet.close).faithful
    | none =>
      rw [own] at run
      have waits : ((disconnectFrontend h p).http h).backend = none := (same.http h).1.trans own
      exact Quiet.disconnectFrontend.faithful.trans
        ((disconnectBackend_faithful (same.wellFormed w) depth false run).1 (not_serves waits))
  · rw [httpTimeout_early overdue, Option.some.injEq] at run
    exact run ▸ (Quiet.setHttp ⟨rfl, rfl⟩).faithful

theorem deleteBackend_quiet : Quiet p (deleteBackend b p) := by
  unfold deleteBackend
  dsimp only
  cases ((close b p).backend b).http with
  | none =>
    dsimp only
    split
    · exact Quiet.close
    · exact (Quiet.close.trans Quiet.leaveBusy).trans Quiet.leaveIdle
  | some h =>
    have left : Quiet p (unlink b h (close b p)) := Quiet.close.trans Quiet.unlink
    unfold unlink at left
    dsimp only
    split
    · exact left
    · exact (left.trans Quiet.leaveBusy).trans Quiet.leaveIdle

/-- The end of a dead download that is still registered serves a queued object. -/
def JoinServes (r : Request) (p : Pool) : Prop :=
  ∃ h, p.pathTo r.https r.path = some h ∧ (p.http h).isAlive = false ∧ Serves h p

theorem joinDownload_faithful (w : WellFormed limit none p) (depth : ℕ) (r : Request)
    {found : Bool} (run : joinDownload system (depth + 2) r p = some (found, p')) :
    (¬JoinServes r p → Faithful p p') ∧ (JoinServes r p → ∃ x, Odd x p') := by
  unfold joinDownload at run
  unfold JoinServes
  cases named : p.pathTo r.https r.path with
  | none =>
    rw [named] at run
    obtain ⟨-, rfl⟩ := Prod.mk.inj (Option.some_inj.mp run)
    exact ⟨fun _ => (Quiet.refl p).faithful, by simp⟩
  | some h =>
    rw [named] at run
    simp only [Option.some.injEq, exists_eq_left']
    by_cases alive : (p.http h).isAlive = true
    · simp only [alive, if_true, Option.some.injEq, Prod.mk.injEq] at run
      refine ⟨fun _ => run.2 ▸ (Quiet.addClient r.client).faithful, ?_⟩
      simp [alive]
    · simp only [alive] at run
      obtain ⟨q, ended, result⟩ := Option.map_eq_some_iff.mp run
      obtain ⟨rfl, rfl⟩ := Prod.mk.inj result
      have same : SameLinks p (disconnectFrontend h (setPath r.https r.path none p)) :=
        (SameLinks.setPath r.https r.path none).trans (.disconnectFrontend h)
      have quiet : Quiet p (disconnectFrontend h (setPath r.https r.path none p)) :=
        (Quiet.setPath r.https r.path none).trans .disconnectFrontend
      obtain ⟨keeps, serves⟩ := disconnectBackend_faithful (same.wellFormed w) depth false ended
      have serves_iff : Serves h (disconnectFrontend h (setPath r.https r.path none p)) ↔
          Serves h p :=
        serves_congr w (same.http h).1 rfl rfl fun x other => by
          simp [disconnectFrontend, setPath, other]
      rw [serves_iff] at keeps serves
      refine ⟨fun never => quiet.faithful.trans (keeps fun served => never ⟨by simpa using alive, served⟩),
        fun served => ?_⟩
      obtain ⟨x, -, odd⟩ := serves served.2
      exact ⟨x, odd⟩

variable (system) in
theorem tryConnectInternalList_cases (w : WellFormed limit none p) (https : Bool) (s : SockAddr) :
    Quiet p (tryConnectInternalList system https s h p).1 ∨
      ∃ l, (tryConnectInternalList system https s h p).1 =
        setList l (fun x => { x with pending := x.pending ++ [h] })
          (setHttp h ({ · with pending := true }) (setHttp h ({ · with backendList := some l }) p)) := by
  have homed (q : Pool) (l : ListId) : Quiet q (setHttp h ({ · with backendList := some l }) q) :=
    .setHttp ⟨rfl, rfl⟩
  unfold tryConnectInternalList
  split
  · rename_i l _
    dsimp only
    split
    · left
      exact (((homed p l).trans (.setList rfl)).trans .link).trans .readyToWrite
    · split
      · left
        split
        · exact (((homed p l).trans .allocBackend).trans .link).trans .enterBusy
        · exact (homed p l).trans .allocBackend
      · right
        exact ⟨l, rfl⟩
  · left
    have listed : Quiet p { setList p.newList (fun _ => ⟨[], [], [], s⟩) p with
        newList := p.newList + 1 } := by
      have empty : (p.list p.newList).pending = [] := (w.newList _ (Nat.le_refl _)).2.2
      have set : Quiet p (setList p.newList (fun _ => ⟨[], [], [], s⟩) p) :=
        .setList (by rw [empty])
      exact ⟨set.http, set.pending⟩
    dsimp only
    split
    · exact ((((listed.trans (homed _ p.newList)).trans .allocBackend).trans .link).trans
        .enterBusy).trans (.setAddress https s.sin6_addr (some p.newList))
    · exact (listed.trans (homed _ p.newList)).trans .allocBackend

theorem mirrors_iff (w : WellFormed limit held p) : Mirrors p ↔
    ∀ h, (p.http h).isAlive = true →
      ((p.http h).pending = true ↔ ∃ l, h ∈ (p.list l).pending) := by
  unfold Mirrors
  simp only [queued_iff w]

theorem Faithful.mirrors (f : Faithful p p') (w : WellFormed limit none p)
    (w' : WellFormed limit none p') (m : Mirrors p) : Mirrors p' := by
  rw [mirrors_iff w] at m
  rw [mirrors_iff w']
  intro h alive
  obtain ⟨alive', flag, queued⟩ := f h alive
  rw [flag, queued]
  exact m h alive'

structure Adds (h : HttpId) (p p' : Pool) : Prop where
  own : (p'.http h).pending = true ↔ ∃ l, h ∈ (p'.list l).pending
  http : ∀ x, x ≠ h → (p'.http x).isAlive = (p.http x).isAlive ∧
    (p'.http x).pending = (p.http x).pending
  queue : ∀ x, x ≠ h → ∀ l, x ∈ (p'.list l).pending ↔ x ∈ (p.list l).pending

theorem Adds.then_quiet (a : Adds h p p') (q : Quiet p' p'') : Adds h p p'' where
  own := by
    rw [(q.http h).2, a.own]
    simp only [q.pending]
  http x other := ⟨(q.http x).1.trans (a.http x other).1, (q.http x).2.trans (a.http x other).2⟩
  queue x other l := by
    rw [q.pending]
    exact a.queue x other l

theorem Adds.mirrors (a : Adds h p p') (w : WellFormed limit none p)
    (w' : WellFormed limit none p') (m : Mirrors p) : Mirrors p' := by
  rw [mirrors_iff w] at m
  rw [mirrors_iff w']
  intro x alive
  by_cases own : x = h
  · rw [own]
    exact a.own
  · rw [(a.http x own).1] at alive
    rw [(a.http x own).2, m x alive]
    simp only [a.queue x own]

theorem Adds.odd (a : Adds h p p') (other : x ≠ h) (odd : Odd x p) : Odd x p' where
  alive := (a.http x other).1.trans odd.alive
  flag := (a.http x other).2.trans odd.flag
  unqueued l member := odd.unqueued l ((a.queue x other l).mp member)

variable (system) in
theorem tryConnectInternalList_adds (w : WellFormed limit none p)
    (flag : (p.http h).pending = false) (unqueued : ∀ l, h ∉ (p.list l).pending) (https : Bool)
    (s : SockAddr) : Adds h p (tryConnectInternalList system https s h p).1 := by
  obtain quiet | ⟨l, queued⟩ := tryConnectInternalList_cases (h := h) system w https s
  · refine ⟨?_, fun x _ => quiet.http x, fun x _ l => by rw [quiet.pending]⟩
    rw [(quiet.http h).2, flag]
    simp [quiet.pending, unqueued]
  · rw [queued]
    refine ⟨?_, fun x other => ?_, fun x other l' => ?_⟩
    · simp only [setList_http, setHttp_http, if_true, true_iff]
      exact ⟨l, by simp⟩
    · simp [other]
    · by_cases own : l' = l
      · simp [own, other]
      · simp [own]

theorem startDownload_adds (w : WellFormed limit none p) (r : Request) (s : SockAddr)
    (done : startDownload system r s p = some p') : Adds p.newHttp p p' := by
  let q := setHttp p.newHttp ({ · with host := r.host, uri := r.uri, etagBackend := r.etag })
    (allocHttp system r.https r.path p)
  have loose : Loose p.newHttp (allocHttp system r.https r.path p) := w.loose_new r.https r.path
  have wq : WellFormed limit none q :=
    ((w.allocHttp system r.https r.path).setLoose loose loose.waits).1
  have flag : (q.http p.newHttp).pending = false := by simp [q, allocHttp]
  unfold startDownload tryConnect at done
  dsimp only at done
  split at done
  · cases done
  · rw [Option.some.injEq] at done
    have after : Quiet (tryConnectInternalList system (q.http p.newHttp).https s p.newHttp q).1 p' :=
      done ▸ ((Quiet.setHttp ⟨rfl, rfl⟩).trans (.setPath _ _ _)).trans (.addClient r.client)
    have added := (tryConnectInternalList_adds system wq flag loose.unqueued
      (q.http p.newHttp).https s).then_quiet after
    refine ⟨added.own, fun x other => ?_, fun x other => ?_⟩
    · have same : q.http x = p.http x := by simp [q, allocHttp, other]
      rw [← same]
      exact added.http x other
    · exact added.queue x other

def Serving : System × Event → Pool → Prop
  | (_, .dnsRight r _), p | (_, .loadUrl r), p => JoinServes r p
  | (_, .flushRead h), p | (_, .endOfBody h), p => Serves h p
  | (system, .backendTimeout b), p =>
    Overdue system b p ∧ ∃ h, (p.backend b).http = some h ∧ Serves h p
  | _, _ => False

theorem dnsRight_mirrors_iff (w : WellFormed limit none p) (w' : WellFormed limit none p')
    (m : Mirrors p) (depth : ℕ) (r : Request) (s : SockAddr)
    (run : dnsRight system (depth + 2) r s p = some p') : Mirrors p' ↔ ¬JoinServes r p := by
  obtain ⟨⟨found, q⟩, joined, rest⟩ := Option.bind_eq_some_iff.mp run
  obtain ⟨keeps, serves⟩ := joinDownload_faithful w depth r joined
  have wq : WellFormed limit none q := joinDownload_wellFormed w depth joined
  have later : (Mirrors q → Mirrors p') ∧ ∀ x, Odd x q → Odd x p' := by
    cases found with
    | true =>
      obtain rfl := Option.some_inj.mp rest
      exact ⟨id, fun _ => id⟩
    | false =>
      have added := startDownload_adds wq r s rest
      refine ⟨added.mirrors wq w', fun x odd => added.odd ?_ odd⟩
      rintro rfl
      have alive := odd.alive
      rw [(wq.newHttp _ (Nat.le_refl _)).2.2] at alive
      cases alive
  constructor
  · intro mirrors served
    obtain ⟨x, odd⟩ := serves served
    exact (later.2 x odd).not_mirrors mirrors
  · intro never
    exact later.1 ((keeps never).mirrors w wq m)

theorem mirrors_iff_of_faithful {P : Prop} (w : WellFormed limit none p)
    (w' : WellFormed limit none p') (m : Mirrors p)
    (cases : (¬P → Faithful p p') ∧ (P → ∃ x, Odd x p')) : Mirrors p' ↔ ¬P := by
  constructor
  · intro mirrors served
    obtain ⟨x, odd⟩ := cases.2 served
    exact odd.not_mirrors mirrors
  · intro never
    exact (cases.1 never).mirrors w w' m

theorem Faithful.mirrors_iff (f : Faithful p p') (w : WellFormed limit none p)
    (w' : WellFormed limit none p') (m : Mirrors p) : Mirrors p' ↔ ¬False :=
  mirrors_iff_of_faithful w w' m ⟨fun _ => f, False.elim⟩

theorem step_mirrors_iff (w : WellFormed limit none p) (m : Mirrors p) {e : System × Event}
    (taken : Step e p p') : Mirrors p' ↔ ¬Serving e p := by
  have w' := step_wellFormed w taken
  obtain ⟨enabled, depth, returns⟩ := taken
  have run := returns 2
  obtain ⟨system, e⟩ := e
  cases e with
  | dnsRight r s => exact dnsRight_mirrors_iff w w' m depth r s run
  | loadUrl r =>
    obtain ⟨⟨found, q⟩, joined, rfl⟩ := Option.map_eq_some_iff.mp run
    exact mirrors_iff_of_faithful w w' m (joinDownload_faithful w depth r joined)
  | removeClient h client =>
    have quiet : Quiet p p' := Option.some_inj.mp run ▸ .setHttp ⟨rfl, rfl⟩
    exact quiet.faithful.mirrors_iff w w' m
  | statusLine h code =>
    have quiet : Quiet p p' := Option.some_inj.mp run ▸ .statusLine code
    exact quiet.faithful.mirrors_iff w w' m
  | readyToWrite h =>
    have quiet : Quiet p p' := Option.some_inj.mp run ▸ .readyToWrite
    exact quiet.faithful.mirrors_iff w w' m
  | disconnectFrontend h =>
    have quiet : Quiet p p' := Option.some_inj.mp run ▸ .disconnectFrontend
    exact quiet.faithful.mirrors_iff w w' m
  | flushRead h =>
    obtain ⟨q, ended, rfl⟩ := Option.map_eq_some_iff.mp run
    obtain ⟨keeps, serves⟩ := disconnectBackend_faithful w depth false ended
    refine mirrors_iff_of_faithful w w' m ⟨fun never => ?_, fun served => ?_⟩
    · exact (keeps never).trans Quiet.disconnectFrontend.faithful
    · obtain ⟨x, -, odd⟩ := serves served
      exact ⟨x, Quiet.disconnectFrontend.odd odd⟩
  | endOfBody h =>
    have same : SameLinks p (disconnectFrontend h p) := .disconnectFrontend h
    obtain ⟨keeps, serves⟩ := disconnectBackend_faithful (same.wellFormed w) depth false run
    rw [disconnectFrontend_serves w] at keeps serves
    refine mirrors_iff_of_faithful w w' m ⟨fun never => ?_, fun served => ?_⟩
    · exact Quiet.disconnectFrontend.faithful.trans (keeps never)
    · obtain ⟨x, -, odd⟩ := serves served
      exact ⟨x, odd⟩
  | remoteSocketClosed b =>
    exact (remoteSocketClosed_faithful (disconnectBackend_dismisses (depth + 1)) w run).mirrors_iff
      w w' m
  | startHttpsFails b =>
    have quiet : Quiet p p' := Option.some_inj.mp run ▸ .close
    exact quiet.faithful.mirrors_iff w w' m
  | backendTimeout b =>
    refine mirrors_iff_of_faithful w w' m ⟨fun never => ?_, ?_⟩
    · change backendTimeout system (depth + 2) b p = some p' at run
      cases linked : (p.backend b).http with
      | none =>
        rw [backendTimeout, linked, Option.some.injEq] at run
        exact run ▸ (Quiet.refl p).faithful
      | some h =>
        by_cases overdue : Overdue system b p
        · exact (backendTimeout_faithful w linked overdue depth run).1
            fun served => never ⟨overdue, h, linked, served⟩
        · rw [backendTimeout_early linked overdue, Option.some.injEq] at run
          exact run ▸ (Quiet.setBackend _).faithful
    · rintro ⟨overdue, h, linked, served⟩
      exact (backendTimeout_faithful w linked overdue depth run).2 served
  | httpTimeout h => exact (httpTimeout_faithful w depth run).mirrors_iff w w' m
  | deleteBackend b =>
    have quiet : Quiet p p' := Option.some_inj.mp run ▸ deleteBackend_quiet
    exact quiet.faithful.mirrors_iff w w' m
  | deleteHttp h =>
    obtain ⟨q, ended, rfl⟩ := Option.map_eq_some_iff.mp run
    have same : SameLinks p (disconnectFrontend h p) := .disconnectFrontend h
    have waits : ((disconnectFrontend h p).http h).backend = none :=
      (same.http h).1.trans (w.retired h enabled).1
    have kept := (disconnectBackend_faithful (same.wellFormed w) depth true ended).1
      (not_serves waits)
    exact Faithful.mirrors_iff (Quiet.disconnectFrontend.faithful.trans kept) w w' m

/-- The time-out of an object that is alive is 30 seconds while it is queued and 5
seconds otherwise. -/
def Timed (p : Pool) : Prop :=
  ∀ h, (p.http h).isAlive = true → ∀ system,
    (Queued h p → (HttpOverdue system h p ↔
      (p.http h).lastReceivedBytesTimestamps ≤ sub64 system.currentTime 30000)) ∧
    (¬Queued h p → (HttpOverdue system h p ↔
      (p.http h).lastReceivedBytesTimestamps ≤ sub64 system.currentTime 5000))

theorem Mirrors.timed (m : Mirrors p) : Timed p := by
  intro h alive system
  unfold HttpOverdue
  constructor
  · intro queued
    rw [(m h alive).mpr queued]
    rfl
  · intro unqueued
    rw [Bool.eq_false_iff.mpr (mt (m h alive).mp unqueued)]
    rfl

theorem initial_mirrors (maxBackend : ℕ) : Mirrors (initial maxBackend) := by
  intro h alive
  cases alive

/-- In a run the flag of every object that is alive tells whether it is queued, and
its time-out goes by that, exactly if no event serves a queued object. -/
theorem pending_mirrors_queue_iff {maxBackend : ℕ} (positive : 1 ≤ maxBackend)
    (events : List (System × Event)) :
    Along Step (fun _ _ p => Mirrors p ∧ Timed p) events (initial maxBackend) ↔
      Along Step (fun e p _ => ¬Serving e p) events (initial maxBackend) := by
  have both (p : Pool) : Mirrors p ∧ Timed p ↔ Mirrors p := and_iff_left_of_imp Mirrors.timed
  simp only [both]
  refine along_iff_of_invariant (I := fun p => WellFormed maxBackend none p) ?_ ?_ events
    (initial_wellFormed positive) (initial_mirrors maxBackend)
  · intro e p p' w taken
    exact step_wellFormed w taken
  · intro e p p' w m taken
    exact step_mirrors_iff w m taken

theorem lost_not_serving : ∀ n e, lostConnection[n]? = some e → ¬Serving e (lost n)
  | 0, _, rfl | 1, _, rfl => fun ⟨_, named, _⟩ => by cases named
  | 2, _, rfl | 3, _, rfl => id

/-- The second request waits on while the first is given another connection. -/
theorem queue_outlives_connection : Queued 1 (lost 4) ∧ (lost 4).newBackend = 2 ∧
    Mirrors (lost 4) ∧ Timed (lost 4) := by
  have along := (pending_mirrors_queue_iff (Nat.le_refl 1) lostConnection).mpr
    ((along_states step_unique lost_step).mpr lost_not_serving)
  exact ⟨⟨0, rfl, by decide⟩, rfl, (along_states step_unique lost_step).mp along 3 _ rfl⟩

/-- The second of two requests for one connection waits, and runs when the first ends. -/
theorem second_request_served : ∃ p, Reach Step anyStep (· = initial 1) p ∧
    (p.http 1).isAlive = true ∧ (p.http 1).backend = some 0 ∧ (p.http 1).pending = true ∧
    (p.http 1).backendList = some 0 ∧ (p.list 0).pending = [] ∧
    (p.http 1).lastReceivedBytesTimestamps = 1000000 := by
  have reached : Reach Step anyStep (· = initial 1) _ :=
    .next (e := (DeadOrigin.connecting, .endOfBody 0))
      (.next (e := (DeadOrigin.connecting, .statusLine 0 200))
        (.next (e := (DeadOrigin.connecting,
            .dnsRight ⟨false, [100], [97], [48], [], 8⟩ ⟨.zero, 80⟩))
          (.next (e := (DeadOrigin.connecting,
              .dnsRight ⟨false, [99], [97], [47], [], 7⟩ ⟨.zero, 80⟩))
            (.start rfl) trivial ⟨trivial, 0, fun _ => rfl⟩)
          trivial ⟨trivial, 0, fun _ => rfl⟩)
        trivial ⟨⟨Nat.zero_lt_succ 1, 0, rfl, rfl⟩, 0, fun _ => rfl⟩)
      trivial ⟨Nat.zero_lt_succ 1, 2, fun more => by rw [Nat.add_comm]; rfl⟩
  exact ⟨_, reached, rfl, rfl, rfl, rfl, rfl, rfl⟩

/-- A request that has waited runs on with the flag, and with the longer time-out. -/
theorem served_request_keeps_flag : ∃ p, Reach Step anyStep (· = initial 1) p ∧
    (p.http 1).isAlive = true ∧ (p.http 1).backend = some 0 ∧ (p.http 1).pending = true ∧
    ¬Queued 1 p ∧ ¬Timed p := by
  obtain ⟨p, reached, alive, busy, flag, home, queue, last⟩ := second_request_served
  have unqueued : ¬Queued 1 p := by
    rintro ⟨l, home', member⟩
    obtain rfl : 0 = l := Option.some_inj.mp (home.symm.trans home')
    rw [queue] at member
    cases member
  refine ⟨p, reached, alive, busy, flag, unqueued, fun timed => ?_⟩
  have due := ((timed 1 alive ⟨fun _ => .started, 1010000⟩).2 unqueued).mpr (by
    rw [last]
    decide)
  rw [HttpOverdue, flag, last] at due
  exact absurd due (by decide)

end FastCgiCdn.PendingFlag
