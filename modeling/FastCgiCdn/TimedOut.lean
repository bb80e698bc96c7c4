import FastCgiCdn.PendingFlag

/-! A backend whose download has been silent for too long. Its Http is ended first,
which may make the backend idle or give it a queued request, and the closing that
follows has to undo that or to move the request on. -/

namespace FastCgiCdn.TimedOut

open GuardedRuns DnsModel PoolModel Pool PoolInvariant PoolWellFormed PoolOutcomes PendingFlag

variable {limit : ℕ} {system : System} {disconnect : HttpId → Pool → Option Pool}
variable {held : Option BackendId} {p p' : Pool} {b : BackendId} {h x : HttpId} {l : ListId}

section closing

theorem reassign_http (other : x ≠ h) : (reassign system l b h p).http x = p.http x := by
  unfold reassign
  dsimp only
  split
  · unfold readyToWrite
    split <;> simp [other]
  · split
    · simp [enterBusy, other]
    · simp [other]

theorem reassign_toDelete : (reassign system l b h p).toDelete = p.toDelete := by
  unfold reassign
  dsimp only
  split
  · exact (SameLinks.readyToWrite system h).toDelete
  · split <;> rfl

theorem reassign_isValid (old : b ≠ p.newBackend) (notIdle : b ∉ (p.list l).idle) :
    ((reassign system l b h p).backend b).isValid = (p.backend b).isValid := by
  have old' (f : Http → Http) : b ≠ (setHttp h f p).newBackend := old
  unfold reassign
  dsimp only
  split
  · rename_i c last
    have other : b ≠ c := by
      rintro rfl
      exact notIdle (List.mem_of_getLast? last)
    simp [readyToWrite_keeps.1, other]
  · split
    · simp [enterBusy, old']
    · simp [old']

theorem reassign_bound (old : b ≠ p.newBackend) (notIdle : b ∉ (p.list l).idle) :
    (∃ c, c ≠ b ∧ ((reassign system l b h p).http h).backend = some c ∧
      c ∈ ((reassign system l b h p).list l).busy) ∨
    (p.list l).idle = [] ∧ system.connect p.newBackend ≠ .started ∧
      ((reassign system l b h p).http h).backend = (p.http h).backend := by
  rw [reassign_list, Function.update_self]
  unfold reassign reassignedList
  dsimp only
  rw [setHttp_list]
  cases last : (p.list l).idle.getLast? with
  | some c =>
    have other : c ≠ b := by
      rintro rfl
      exact notIdle (List.mem_of_getLast? last)
    exact .inl ⟨c, other, by simp, by simp⟩
  | none =>
    by_cases started : system.connect p.newBackend = .started
    · refine .inl ⟨p.newBackend, Ne.symm old, ?_, ?_⟩
      · simp [started, setHttp, enterBusy, setBackend, setList, link, allocBackend]
      · simp [started]
    · refine .inr ⟨List.getLast?_eq_none_iff.mp last, started, ?_⟩
      rw [if_neg (by exact started)]
      simp

theorem shut_other (apart : (p.backend b).http ≠ some x) : (shut b p).http x = p.http x := by
  unfold shut
  split
  · rfl
  · rename_i h linked
    have other : x ≠ h := by
      rintro rfl
      exact apart linked
    unfold resetRequestSended
    split
    · rfl
    · simp [close, other]

theorem remoteSocketClosed_other (d : Dismisses disconnect) (w : WellFormed limit none p)
    (unqueued : ∀ l, (p.backend b).backendList = some l → x ∉ (p.list l).pending) (apart : (p.backend b).http ≠ some x)
    (run : remoteSocketClosed disconnect system b p = some p') :
    p'.http x = p.http x ∧ p.toDelete ⊆ p'.toDelete := by
  have same : SameLinks p (shut b p) := .shut b
  have still : (shut b p).http x = p.http x := shut_other apart
  cases home : (p.backend b).backendList with
  | none =>
    rw [remoteSocketClosed_homeless home, Option.some.injEq] at run
    rw [← run, same.toDelete]
    exact ⟨still, List.Subset.refl _⟩
  | some l =>
    cases connected : (p.backend b).wasTCPConnected with
    | false =>
      obtain ⟨r, -, discards, -, result⟩ := remoteSocketClosed_unanswered system d w home connected
      rw [result, Option.some.injEq] at run
      have kept : r.http x = p.http x := by
        rw [discards.kept x, leaveBusy_http, still]
        intro queued
        rw [leaveBusy_pending, same.list] at queued
        exact absurd queued (unqueued l home)
      have scheduled : p.toDelete ⊆ r.toDelete := by
        rw [← same.toDelete]
        exact discards.toDelete
      have name : (r.backend b).http = (p.backend b).http := by
        rw [discards.backend, leaveBusy_backend, shut_backend]
      rw [← run]
      unfold forget
      rw [name]
      cases linked : (p.backend b).http with
      | none => exact ⟨kept, scheduled⟩
      | some h =>
        have other : x ≠ h := by
          rintro rfl
          exact apart linked
        refine ⟨?_, scheduled⟩
        simpa [other] using kept
    | true =>
      by_cases busy : b ∈ (p.list l).busy
      · obtain ⟨h, linked, -⟩ := w.busy l b busy (Option.some_ne_none _).symm
        have other : x ≠ h := by
          rintro rfl
          exact apart linked
        rw [remoteSocketClosed_busy home connected busy linked, Option.some.injEq] at run
        rw [← run, reassign_http other, reassign_toDelete, leaveBusy_http]
        exact ⟨still, by rw [← same.toDelete]; exact List.Subset.refl _⟩
      · rw [remoteSocketClosed_apart home connected busy, Option.some.injEq] at run
        rw [← run]
        exact ⟨still, by rw [← same.toDelete]; exact List.Subset.refl _⟩

theorem remoteSocketClosed_free (d : Dismisses disconnect) (w : WellFormed limit none p)
    (free : (p.backend b).http = none)
    (run : remoteSocketClosed disconnect system b p = some p') :
    p'.backend = Function.update p.backend b { p.backend b with isValid := false } := by
  cases home : (p.backend b).backendList with
  | none =>
    rw [remoteSocketClosed_homeless home, Option.some.injEq] at run
    exact run ▸ shut_backends
  | some l =>
    cases connected : (p.backend b).wasTCPConnected with
    | false =>
      obtain ⟨r, -, discards, -, result⟩ := remoteSocketClosed_unanswered system d w home connected
      rw [result, Option.some.injEq] at run
      rw [← run, forget_kept.2.2.2, discards.backend]
      exact shut_backends
    | true =>
      have apart : b ∉ (p.list l).busy := by
        intro busy
        obtain ⟨h, linked, -⟩ := w.busy l b busy (Option.some_ne_none _).symm
        rw [free] at linked
        cases linked
      rw [remoteSocketClosed_apart home connected apart, Option.some.injEq] at run
      exact run ▸ shut_backends

theorem closedList_gone {y : BackendList} (once : (y.busy ++ y.idle).Nodup)
    (old : b ≠ p.newBackend)
    (idle : b ∈ y.idle → (p.backend b).wasTCPConnected = true) :
    b ∉ (closedList system p b y).busy ∧ b ∉ (closedList system p b y).idle := by
  obtain ⟨onceBusy, onceIdle, apart⟩ := List.nodup_append.mp once
  have left : b ∉ y.busy.erase b := onceBusy.not_mem_erase
  unfold closedList
  cases connected : (p.backend b).wasTCPConnected with
  | false =>
    refine ⟨left, fun member => ?_⟩
    have := idle member
    rw [connected] at this
    cases this
  | true =>
    simp only [if_true]
    by_cases busy : b ∈ y.busy
    · have notIdle : b ∉ y.idle := fun member => apart b busy b member rfl
      rw [if_pos busy]
      unfold reassignedList
      dsimp only
      split
      · rename_i c last
        have other : b ≠ c := by
          rintro rfl
          exact notIdle (List.mem_of_getLast? last)
        simp only [List.mem_append, List.mem_singleton, not_or]
        exact ⟨⟨left, other⟩, fun member => notIdle (List.dropLast_subset _ member)⟩
      · split
        · simp only [List.mem_append, List.mem_singleton, not_or]
          exact ⟨⟨left, old⟩, notIdle⟩
        · exact ⟨left, notIdle⟩
    · rw [if_neg busy]
      exact ⟨busy, onceIdle.not_mem_erase⟩

theorem remoteSocketClosed_gone (d : Dismisses disconnect) (w : WellFormed limit none p)
    (home : (p.backend b).backendList = some l)
    (run : remoteSocketClosed disconnect system b p = some p') (l' : ListId) :
    b ∉ (p'.list l').busy ∧ b ∉ (p'.list l').idle := by
  rw [(remoteSocketClosed_outcome system d w home run).2]
  by_cases own : l' = l
  · subst own
    rw [Function.update_self]
    refine closedList_gone (w.nodup l') ?_ fun member => (w.idle l' b member).2
    rintro rfl
    rw [(w.newBackend _ (Nat.le_refl _)).2] at home
    cases home
  · rw [Function.update_of_ne own]
    have apart := w.not_mem_of_home home own
    rw [List.mem_append, not_or] at apart
    exact apart

end closing

section ending

theorem downloadFinished_own (d : Dismisses disconnect) (w : WellFormed limit none p)
    (own : (p.http h).backend = some b)
    (run : downloadFinished disconnect system b p = some p') :
    (p'.http h).isAlive = (p.http h).isAlive := by
  have linked := w.back h b own
  have unqueued : ∀ l, h ∉ (p.list l).pending := fun l queued => w.alone queued b linked
  obtain ⟨l, home⟩ := w.homed b h linked
  cases connected : (p.backend b).wasTCPConnected with
  | false =>
    obtain ⟨r, -, discards, -, result⟩ :=
      downloadFinished_unanswered system d w linked home connected
    rw [result, Option.some.injEq] at run
    have quiet : Quiet p (leaveBusy l b (shut b (abandon l b h p))) :=
      (Quiet.abandon.trans Quiet.shut).trans Quiet.leaveBusy
    rw [← run, discards.kept h]
    · exact (quiet.http h).1
    · intro queued
      rw [quiet.pending] at queued
      exact absurd queued (unqueued l)
  | true =>
    obtain ⟨r, -, discards, -, result⟩ :=
      downloadFinished_answered system d w linked home connected
    rw [result, Option.some.injEq] at run
    have alive : (r.http h).isAlive = (p.http h).isAlive := by
      rw [discards.kept h fun queued => absurd queued (unqueued l)]
      exact (Quiet.unlink.http h).1
    rw [← run, ← alive]
    cases stops : (r.list l).pending with
    | nil => exact ((Quiet.leaveBusy.trans Quiet.park).http h).1
    | cons x rest =>
      have other : h ≠ x := by
        rintro rfl
        exact unqueued l (discards.pending.subset (by simp [stops]))
      refine ((Quiet.link.trans Quiet.readyToWrite).http h).1.trans ?_
      simp [other]

variable (system) in
theorem disconnectBackend_own (w : WellFormed limit none p) (own : (p.http h).backend = some b)
    (alive : (p.http h).isAlive = true) (depth : ℕ)
    (run : disconnectBackend system (depth + 2) false h p = some p') :
    (p'.http h).backend = none ∧ h ∈ p'.toDelete := by
  obtain ⟨q, finished, -, -, -, -⟩ :=
    downloadFinished_returns system (disconnectBackend_dismisses depth) w own
  have still := downloadFinished_own (disconnectBackend_dismisses depth) w own finished
  rw [disconnectBackend, own] at run
  dsimp only at run
  rw [finished, Option.map_some, Option.some.injEq] at run
  rw [← run, DeadOrigin.retire_toDelete, still, alive]
  exact ⟨retire_backend false, by simp⟩

/-- What has become of an object that was queued: it still waits or has been ended, or
it runs on another backend. When none is idle and no new socket opens it stays with the
old one. -/
def Settled (system : System) (b : BackendId) (p p' : Pool) (x : HttpId) : Prop :=
  ((p'.http x).backend = none ∧
    ((∃ l, x ∈ (p'.list l).pending) ∨ (p'.http x).isAlive = false)) ∨
  (∃ c, c ≠ b ∧ (p'.http x).backend = some c ∧ ∃ l, c ∈ (p'.list l).busy) ∨
  (∃ l, (p.backend b).backendList = some l ∧ (p.list l).idle = []) ∧
    system.connect p.newBackend ≠ .started ∧ (p'.http x).backend = some b

theorem serve_http {rest : List HttpId} {y : HttpId} (other : y ≠ x) :
    (serve system l b x rest p).http y = p.http y := by
  unfold serve readyToWrite
  split <;> simp [other]

theorem reassign_settled {q r : Pool} {rest : List HttpId} {y : HttpId} {l' : ListId}
    (w : WellFormed limit none p) (home : (p.backend b).backendList = some l)
    (discards : Discards l (unlink b h p) r) (stops : (r.list l).pending = x :: rest)
    (old : b ≠ q.newBackend) (newBackend : q.newBackend = p.newBackend)
    (idle : (q.list l).idle = (p.list l).idle) (notIdle : b ∉ (q.list l).idle)
    (bound : (q.http x).backend = some b) (waiting : (q.list l).pending = rest)
    (others : ∀ l', l' ≠ l → (q.list l').pending = (p.list l').pending)
    (http : y ≠ x → q.http y = r.http y) (apart : y ≠ h)
    (queued : y ∈ (p.list l').pending) : Settled system b p (reassign system l b x q) y := by
  have quiet : Quiet q (reassign system l b x q) := .reassign
  by_cases own : y = x
  · subst own
    obtain ⟨c, other, now, busy⟩ | ⟨noIdle, failed, now⟩ := reassign_bound (h := y) old notIdle
    · exact .inr (.inl ⟨c, other, now, l, busy⟩)
    · rw [newBackend] at failed
      rw [idle] at noIdle
      exact .inr (.inr ⟨⟨l, home, noIdle⟩, failed, now.trans bound⟩)
  · have now : (reassign system l b x q).http y = r.http y := (reassign_http own).trans (http own)
    have before : (unlink b h p).http y = p.http y := by simp [apart]
    have waits : (p.http y).backend = none := (w.pending l' y queued).1
    left
    rw [now]
    by_cases here : l' = l
    · subst here
      by_cases still : y ∈ (r.list l').pending
      · rw [discards.kept y fun _ => still, before]
        refine ⟨waits, .inl ⟨l', ?_⟩⟩
        rw [quiet.pending, waiting]
        rw [stops, List.mem_cons] at still
        exact still.resolve_left own
      · obtain ⟨dead, left⟩ := discards.dead y queued still
        exact ⟨left, .inr dead⟩
    · rw [discards.kept y fun member => absurd (w.pending_unique member queued) here, before]
      refine ⟨waits, .inl ⟨l', ?_⟩⟩
      rw [quiet.pending, others l' here]
      exact queued

variable (system) in
/-- The end of `h` has given its backend the request `x`, the first that is left in `r`. -/
theorem disconnectBackend_served (w : WellFormed limit none p) (own : (p.http h).backend = some b)
    (home : (p.backend b).backendList = some l) (serves : Serves h p) (depth : ℕ)
    (run : disconnectBackend system (depth + 2) false h p = some p') :
    ∃ x rest r, Discards l (unlink b h p) r ∧ (r.list l).pending = x :: rest ∧
      p'.newBackend = p.newBackend ∧
      p'.list = Function.update p.list l { p.list l with pending := rest } ∧
      p'.backend b = { p.backend b with http := some x } ∧
      (p'.http x).backend = some b ∧ ∀ y, y ≠ h → y ≠ x → p'.http y = r.http y := by
  have d : Dismisses (disconnectBackend system (depth + 1) false) :=
    disconnectBackend_dismisses depth
  obtain ⟨connected, some_served⟩ := (serves_iff own home).mp serves
  obtain ⟨r, -, discards, left, finished⟩ :=
    downloadFinished_answered system d w (w.back h b own) home connected
  cases stops : (r.list l).pending with
  | nil => exact absurd (left.symm.trans stops) some_served
  | cons x rest =>
    rw [disconnectBackend, own] at run
    dsimp only at run
    rw [finished, stops, Option.map_some, Option.some.injEq] at run
    obtain ⟨-, -, -, lists, backends, others⟩ :=
      retire_unchanged (h := h) (p := serve system l b x rest r) false
    have apart : x ≠ h := by
      rintro rfl
      exact w.alone (discards.pending.subset (by simp [stops])) b (w.back x b own)
    refine ⟨x, rest, r, discards, stops, ?_, ?_, ?_, ?_, fun y apart other => ?_⟩
    · rw [← run, (retire_kept false).2]
      exact readyToWrite_keeps.2.2.1.trans discards.newBackend
    · rw [← run, lists, serve_list, discards.list_eq stops]
      simp only [Function.update_self, Function.update_idem]
      rfl
    · rw [← run, backends, serve_backend, Function.update_self, discards.backend]
      simp
    · rw [← run, others x apart, serve, ((SameLinks.readyToWrite system x).http x).1]
      simp
    · rw [← run, others y apart]
      exact serve_http other

theorem closed_settled {s r : Pool} {rest : List HttpId} (w : WellFormed limit none p)
    (linked : (p.backend b).http = some h) (home : (p.backend b).backendList = some l)
    (connected : (p.backend b).wasTCPConnected = true) (busy : b ∈ (p.list l).busy)
    (discards : Discards l (unlink b h p) r) (stops : (r.list l).pending = x :: rest)
    (newBackend : s.newBackend = p.newBackend)
    (lists : s.list = Function.update p.list l { p.list l with pending := rest })
    (backend : s.backend b = { p.backend b with http := some x })
    (bound : (s.http x).backend = some b) (https : ∀ y, y ≠ h → y ≠ x → s.http y = r.http y)
    (run : remoteSocketClosed disconnect system b (close b s) = some p') :
    (p'.backend b).isValid = false ∧
      ∀ l' y, y ∈ (p.list l').pending → Settled system b p p' y := by
  let q := leaveBusy l b (shut b (close b s))
  have here : (close b s).backend b = { s.backend b with isValid := false } := by simp [close]
  have named : ((close b s).backend b).http = some x := by rw [here, backend]
  have busy' : b ∈ ((close b s).list l).busy := by
    change b ∈ (s.list l).busy
    rw [lists, Function.update_self]
    exact busy
  rw [remoteSocketClosed_busy (by rw [here, backend, home])
    (by rw [here, backend]; exact connected) busy' named, Option.some.injEq] at run
  have shut_same : SameLinks (close b s) (shut b (close b s)) := .shut b
  have new : q.newBackend = p.newBackend := shut_same.newBackend.trans newBackend
  have old : b ≠ q.newBackend := by
    rw [new]
    rintro rfl
    rw [(w.newBackend _ (Nat.le_refl _)).1] at linked
    cases linked
  have listed (l' : ListId) : (q.list l').pending = (s.list l').pending ∧
      (q.list l').idle = (s.list l').idle := by
    rw [leaveBusy_pending, leaveBusy_idle, shut_same.list]
    exact ⟨rfl, rfl⟩
  have idle : (q.list l).idle = (p.list l).idle := by
    rw [(listed l).2, lists, Function.update_self]
  have notIdle : b ∉ (q.list l).idle := by
    rw [idle]
    exact (w.of_linked linked home).1
  have bound' : (q.http x).backend = some b := ((shut_same.http x).1).trans bound
  rw [← run]
  refine ⟨?_, fun l' y queued => ?_⟩
  · change ((reassign system l b x q).backend b).isValid = false
    rw [reassign_isValid old notIdle, leaveBusy_backend, shut_backend]
  · have apart : y ≠ h := by
      rintro rfl
      exact w.alone queued b linked
    refine reassign_settled w home discards stops old new idle notIdle bound' ?_
      (fun x' other => ?_) (fun other => ?_) apart queued
    · rw [(listed l).1, lists, Function.update_self]
    · rw [(listed x').1, lists, Function.update_of_ne other]
    · rw [leaveBusy_http, shut_other]
      · exact https y apart other
      · rw [named]
        simpa using Ne.symm other

theorem served_timeout (w : WellFormed limit none p) (own : (p.http h).backend = some b)
    (home : (p.backend b).backendList = some l) (busy : b ∈ (p.list l).busy)
    (overdue : Overdue system b p) (serves : Serves h p) (depth : ℕ)
    (run : backendTimeout system (depth + 2) b p = some p') :
    (p'.backend b).isValid = false ∧
      ∀ l' y, y ∈ (p.list l').pending → Settled system b p p' y := by
  let q := disconnectFrontend h (backendError h p)
  have same : SameLinks p q := .dismissed h
  have backends : q.backend = p.backend := backendError_unchanged.2.1
  have wq : WellFormed limit none q := same.wellFormed w
  have own' : (q.http h).backend = some b := (same.http h).1.trans own
  have home' : (q.backend b).backendList = some l := by rw [backends, home]
  have serves' : Serves h q := (dismissed_serves w).mpr serves
  obtain ⟨s, ended, ws, closed⟩ := overdue_halves w (w.back h b own) overdue depth run
  obtain ⟨x, rest, r, discards, stops, newBackend, lists, backend, bound, https⟩ :=
    disconnectBackend_served system wq own' home' serves' depth ended
  obtain ⟨valid, settled⟩ := closed_settled wq (wq.back h b own') home'
    ((serves_iff own' home').mp serves').1 (by rw [same.list]; exact busy) discards stops newBackend
    lists backend bound https closed
  refine ⟨valid, fun l' y queued => ?_⟩
  rw [← same.list] at queued
  have result := settled l' y queued
  unfold Settled at result ⊢
  rw [← same.newBackend, ← backends, ← same.list]
  exact result

theorem unserved_timeout (w : WellFormed limit none p) (own : (p.http h).backend = some b)
    (home : (p.backend b).backendList = some l) (overdue : Overdue system b p)
    (never : ¬Serves h p) (depth : ℕ)
    (run : backendTimeout system (depth + 2) b p = some p') :
    (p'.backend b).http = none ∧ (p'.backend b).isValid = false ∧
      ∀ c, c ≠ b → p'.backend c = p.backend c := by
  let q := disconnectFrontend h (backendError h p)
  have same : SameLinks p q := .dismissed h
  have backends : q.backend = p.backend := backendError_unchanged.2.1
  have wq : WellFormed limit none q := same.wellFormed w
  have own' : (q.http h).backend = some b := (same.http h).1.trans own
  have home' : (q.backend b).backendList = some l := by rw [backends, home]
  have never' : ¬Serves h q := mt (dismissed_serves w).mp never
  obtain ⟨s, ended, ws, closed⟩ := overdue_halves w (w.back h b own) overdue depth run
  obtain ⟨-, -, -, backend⟩ := disconnectBackend_outcome system wq own' home' depth false ended
  have free : (finishedBackend q b (q.list l).pending).http = none := by
    rw [serves_iff own' home'] at never'
    unfold finishedBackend
    by_cases connected : (q.backend b).wasTCPConnected = true
    · have nothing : unserved q (q.list l).pending = [] := by
        by_contra some_served
        exact never' ⟨connected, some_served⟩
      rw [if_pos connected, nothing]
      rfl
    · rw [if_neg connected]
  have after := remoteSocketClosed_free (disconnectBackend_dismisses (depth + 1))
    ((SameLinks.close b).wellFormed ws) (by simp [close, backend, free]) closed
  rw [after]
  refine ⟨?_, ?_, fun c other => ?_⟩
  · simp [close, backend, free]
  · simp
  · simp [close, backend, other, backends]

theorem unserved_settled (w : WellFormed limit none p) (w' : WellFormed limit none p')
    (own : (p.http h).backend = some b) (home : (p.backend b).backendList = some l)
    (overdue : Overdue system b p) (never : ¬Serves h p) (depth : ℕ)
    (run : backendTimeout system (depth + 2) b p = some p') {l' : ListId}
    (queued : x ∈ (p.list l').pending) : Settled system b p p' x := by
  obtain ⟨free, -, others⟩ := unserved_timeout w own home overdue never depth run
  have faithful := (backendTimeout_faithful w (w.back h b own) overdue depth run).1 never
  left
  constructor
  · cases bound : (p'.http x).backend with
    | none => rfl
    | some c =>
      have named := w'.back x c bound
      by_cases same : c = b
      · rw [same, free] at named
        cases named
      · rw [others c same] at named
        exact absurd named (w.alone queued c)
  · cases alive : (p'.http x).isAlive with
    | false => exact .inr rfl
    | true => exact .inl ((faithful x alive).2.2.mpr ⟨l', queued⟩)

theorem finishedBackend_http {waiting : List HttpId} (apart : h ∉ waiting) :
    (finishedBackend p b waiting).http ≠ some h := by
  intro named
  unfold finishedBackend at named
  split at named
  · exact apart ((List.dropWhile_sublist _).subset (List.mem_of_mem_head? named))
  · cases named

theorem timeout_own (w : WellFormed limit none p) (own : (p.http h).backend = some b)
    (home : (p.backend b).backendList = some l) (alive : (p.http h).isAlive = true)
    (overdue : Overdue system b p) (depth : ℕ)
    (run : backendTimeout system (depth + 2) b p = some p') :
    (p'.http h).backend = none ∧ h ∈ p'.toDelete ∧
      ∀ l, b ∉ (p'.list l).busy ∧ b ∉ (p'.list l).idle := by
  let q := disconnectFrontend h (backendError h p)
  have same : SameLinks p q := .dismissed h
  have backends : q.backend = p.backend := backendError_unchanged.2.1
  have wq : WellFormed limit none q := same.wellFormed w
  have own' : (q.http h).backend = some b := (same.http h).1.trans own
  obtain ⟨s, ended, ws, closed⟩ := overdue_halves w (w.back h b own) overdue depth run
  have wc : WellFormed limit none (close b s) := (SameLinks.close b).wellFormed ws
  obtain ⟨left, scheduled⟩ := disconnectBackend_own system wq own'
    ((Quiet.dismissed.http h).1.trans alive) depth ended
  have home' : ((close b s).backend b).backendList = some l := by
    have kept := (disconnectBackend_keeps system wq own' depth false ended).2
    rw [backends, home] at kept
    simpa [close] using kept
  have d : Dismisses (disconnectBackend system (depth + 2) false) :=
    disconnectBackend_dismisses (depth + 1)
  have unqueued : ∀ l, ((close b s).backend b).backendList = some l →
      h ∉ ((close b s).list l).pending :=
    fun _ _ => wc.unqueued (ws.retired h scheduled).2
  have unnamed : ((close b s).backend b).http ≠ some h := by
    obtain ⟨-, -, -, backend⟩ := disconnectBackend_outcome system wq own'
      (by rw [backends, home]) depth false ended
    have named : ((close b s).backend b).http = (finishedBackend q b (q.list l).pending).http := by
      simp [close, backend]
    rw [named]
    exact finishedBackend_http fun queued => wq.alone queued b (wq.back h b own')
  obtain ⟨kept, more⟩ := remoteSocketClosed_other d wc unqueued unnamed closed
  refine ⟨?_, more scheduled, remoteSocketClosed_gone d wc home' closed⟩
  rw [kept]
  exact left

end ending

/-- What the time-out of a busy backend leaves behind, whatever is queued and whether
or not the backend has had an answer. -/
theorem timed_out_backend_leaves {maxBackend : ℕ} (positive : 1 ≤ maxBackend) {p : Pool}
    (reached : Reach Step anyStep (· = initial maxBackend) p) (system : System) {b : BackendId}
    {h : HttpId} {l : ListId} (busy : b ∈ (p.list l).busy) (linked : (p.backend b).http = some h)
    (alive : (p.http h).isAlive = true) (overdue : Overdue system b p) (depth : ℕ) :
    ∃ p', backendTimeout system (depth + 2) b p = some p' ∧
      (∀ l, b ∉ (p'.list l).busy ∧ b ∉ (p'.list l).idle) ∧
      (p'.backend b).isValid = false ∧ (p'.http h).backend = none ∧ h ∈ p'.toDelete ∧
      ∀ l, ∀ x ∈ (p.list l).pending, Settled system b p p' x := by
  have w := reach_wellFormed positive reached
  have home := w.home l b (List.mem_append_left _ busy)
  have own : (p.http h).backend = some b := by
    obtain ⟨h', linked', back⟩ := w.busy l b busy (Option.some_ne_none _).symm
    obtain rfl : h = h' := Option.some_inj.mp (linked.symm.trans linked')
    exact back
  obtain ⟨p', run, w'⟩ : ∃ p', backendTimeout system (depth + 2) b p = some p' ∧ _ :=
    backendTimeout_returns w depth
  obtain ⟨left, scheduled, gone⟩ := timeout_own w own home alive overdue depth run
  refine ⟨p', run, gone, ?_, left, scheduled, fun l' x queued => ?_⟩
  · by_cases serves : Serves h p
    · exact (served_timeout w own home busy overdue serves depth run).1
    · exact (unserved_timeout w own home overdue serves depth run).2.1
  · by_cases serves : Serves h p
    · exact (served_timeout w own home busy overdue serves depth run).2 l' x queued
    · exact unserved_settled w w' own home overdue serves depth run queued

theorem answered_backend_busy : ∃ p, Reach Step anyStep (· = initial 1) p ∧
    (p.list 0).busy = [0] ∧ (p.list 0).pending = [1] ∧ (p.backend 0).http = some 0 ∧
    (p.http 0).isAlive = true ∧ (p.backend 0).lastReceivedBytesTimestamps = 1000000 := by
  have reached : Reach Step anyStep (· = initial 1) _ :=
    .next (e := (DeadOrigin.connecting, .statusLine 0 200))
      (.next (e := (DeadOrigin.connecting,
          .dnsRight ⟨false, [100], [97], [48], [], 8⟩ ⟨.zero, 80⟩))
        (.next (e := (DeadOrigin.connecting,
            .dnsRight ⟨false, [99], [97], [47], [], 7⟩ ⟨.zero, 80⟩))
          (.start rfl) trivial ⟨trivial, 0, fun _ => rfl⟩)
        trivial ⟨trivial, 0, fun _ => rfl⟩)
      trivial ⟨⟨Nat.zero_lt_succ 1, 0, rfl, rfl⟩, 0, fun _ => rfl⟩
  exact ⟨_, reached, rfl, rfl, rfl, rfl, rfl⟩

theorem answered_backend_leaves : ∃ p p', Reach Step anyStep (· = initial 1) p ∧
    (p.list 0).busy = [0] ∧ (p.list 0).pending = [1] ∧
    backendTimeout ⟨fun _ => .started, 1010000⟩ 2 0 p = some p' ∧
    (∀ l, 0 ∉ (p'.list l).busy ∧ 0 ∉ (p'.list l).idle) ∧ 0 ∈ p'.toDelete ∧
    Settled ⟨fun _ => .started, 1010000⟩ 0 p p' 1 := by
  obtain ⟨p, reached, busy, queue, linked, alive, last⟩ := answered_backend_busy
  obtain ⟨p', run, gone, -, -, scheduled, settled⟩ := timed_out_backend_leaves (Nat.le_refl 1)
    reached ⟨fun _ => .started, 1010000⟩ (b := 0) (h := 0) (l := 0) (by simp [busy]) linked alive
    (by rw [Overdue, last]; decide) 0
  exact ⟨p, p', reached, busy, queue, run, gone, scheduled, settled 0 1 (by simp [queue])⟩

end FastCgiCdn.TimedOut
