import FastCgiCdn.TimedOut

/-! One call of `detectTimeout`, seen from the rest of the pool. It rewrites the list
of its backend and what is queued there, and leaves the other lists, their backends
and their requests as they were. -/

namespace FastCgiCdn.TimeoutTurns

open DnsModel PoolModel Pool PoolInvariant PoolWellFormed PoolOutcomes TimedOut

variable {limit : ℕ} {system : System} {disconnect : HttpId → Pool → Option Pool}
variable {p p' q : Pool} {b c : BackendId} {h x : HttpId} {l : ListId}

structure Kept (p p' : Pool) : Prop where
  newBackend : p.newBackend ≤ p'.newBackend
  backendList : ∀ c < p.newBackend, (p'.backend c).backendList = (p.backend c).backendList
  connected : ∀ c < p.newBackend, (p'.backend c).wasTCPConnected = (p.backend c).wasTCPConnected
  last : ∀ c < p.newBackend,
    (p'.backend c).lastReceivedBytesTimestamps = (p.backend c).lastReceivedBytesTimestamps

namespace Kept

theorem refl (p : Pool) : Kept p p :=
  ⟨Nat.le_refl _, fun _ _ => rfl, fun _ _ => rfl, fun _ _ => rfl⟩

theorem trans (k : Kept p q) (k' : Kept q p') : Kept p p' where
  newBackend := Nat.le_trans k.newBackend k'.newBackend
  backendList c old := by
    rw [k'.backendList c (Nat.lt_of_lt_of_le old k.newBackend), k.backendList c old]
  connected c old := by
    rw [k'.connected c (Nat.lt_of_lt_of_le old k.newBackend), k.connected c old]
  last c old := by
    rw [k'.last c (Nat.lt_of_lt_of_le old k.newBackend), k.last c old]

theorem of_backend (newBackend : p.newBackend ≤ p'.newBackend) (backend : p'.backend = p.backend) :
    Kept p p' :=
  ⟨newBackend, by simp [backend], by simp [backend], by simp [backend]⟩

theorem setHttp (f : Http → Http) : Kept p (Pool.setHttp h f p) :=
  of_backend (Nat.le_refl _) rfl

theorem setList (f : BackendList → BackendList) : Kept p (Pool.setList l f p) :=
  of_backend (Nat.le_refl _) rfl

theorem setBackend {f : Backend → Backend}
    (home : (f (p.backend b)).backendList = (p.backend b).backendList)
    (connected : (f (p.backend b)).wasTCPConnected = (p.backend b).wasTCPConnected)
    (last : (f (p.backend b)).lastReceivedBytesTimestamps =
      (p.backend b).lastReceivedBytesTimestamps) : Kept p (Pool.setBackend b f p) := by
  refine ⟨Nat.le_refl _, fun c _ => ?_, fun c _ => ?_, fun c _ => ?_⟩
  all_goals
    rw [setBackend_backend]
    split
    · simp [*]
    · rfl

theorem of_update {y : Backend} (newBackend : p.newBackend ≤ p'.newBackend)
    (backend : p'.backend = Function.update p.backend b y)
    (home : y.backendList = (p.backend b).backendList)
    (connected : y.wasTCPConnected = (p.backend b).wasTCPConnected)
    (last : y.lastReceivedBytesTimestamps = (p.backend b).lastReceivedBytesTimestamps) :
    Kept p p' := by
  have changed : Kept p (Pool.setBackend b (fun _ => y) p) := setBackend home connected last
  exact changed.trans (of_backend newBackend backend)

theorem close : Kept p (Pool.close b p) := setBackend rfl rfl rfl

theorem link : Kept p (Pool.link b h p) := (setBackend rfl rfl rfl).trans (setHttp _)

theorem readyToWrite : Kept p (Pool.readyToWrite system h p) :=
  of_backend (Nat.le_of_eq readyToWrite_keeps.2.2.1.symm) readyToWrite_keeps.1

theorem allocBackend : Kept p (Pool.allocBackend system l p) := by
  have others : ∀ c < p.newBackend,
      (Pool.allocBackend system l p).backend c = p.backend c := by
    intro c old
    simp [Pool.allocBackend, Pool.setBackend, Nat.ne_of_lt old]
  refine ⟨Nat.le_succ _, fun c old => ?_, fun c old => ?_, fun c old => ?_⟩
  all_goals rw [others c old]

theorem shut : Kept p (Pool.shut b p) := by
  unfold Pool.shut
  split
  · exact close
  · refine Kept.trans (q := Pool.close b p) close ?_
    unfold Pool.resetRequestSended
    split
    · exact refl _
    · exact setHttp _

theorem reassign : Kept p (Pool.reassign system l b h p) := by
  unfold Pool.reassign
  dsimp only
  split
  · exact ((((setHttp _).trans (setList _)).trans link).trans readyToWrite).trans
      (setBackend rfl rfl rfl)
  · split
    · exact ((((setHttp _).trans allocBackend).trans link).trans (setList _)).trans
        (setBackend rfl rfl rfl)
    · exact (setHttp _).trans allocBackend

theorem dismissed : Kept p (Pool.disconnectFrontend h (Pool.backendError h p)) :=
  of_backend (Nat.le_of_eq (SameLinks.dismissed h).newBackend.symm) backendError_unchanged.2.1

end Kept

theorem remoteSocketClosed_kept (d : Dismisses disconnect) (w : WellFormed limit none p)
    (run : remoteSocketClosed disconnect system b p = some p') : Kept p p' := by
  cases home : (p.backend b).backendList with
  | none =>
    rw [remoteSocketClosed_homeless home, Option.some.injEq] at run
    exact run ▸ .shut
  | some l =>
    cases connected : (p.backend b).wasTCPConnected with
    | false =>
      obtain ⟨r, -, discards, -, result⟩ := remoteSocketClosed_unanswered system d w home connected
      rw [result, Option.some.injEq] at run
      have left : Kept p (leaveBusy l b (shut b p)) := Kept.shut.trans (.setList _)
      refine run ▸ left.trans (.of_backend ?_ ?_)
      · rw [forget_kept.2.2.1, discards.newBackend]
      · rw [forget_kept.2.2.2, discards.backend]
    | true =>
      by_cases busy : b ∈ (p.list l).busy
      · obtain ⟨h, linked, -⟩ := w.busy l b busy (Option.some_ne_none _).symm
        rw [remoteSocketClosed_busy home connected busy linked, Option.some.injEq] at run
        exact run ▸ (Kept.shut.trans (.setList _)).trans .reassign
      · rw [remoteSocketClosed_apart home connected busy, Option.some.injEq] at run
        exact run ▸ Kept.shut.trans (.setList _)

section halfway

theorem errorPending_other (unqueued : x ∉ (p.list l).pending) :
    (errorPending l p).http x = p.http x := by
  unfold errorPending
  generalize (p.list l).pending = waiting at unqueued
  induction waiting generalizing p with
  | nil => rfl
  | cons h waiting ih =>
    rw [List.mem_cons, not_or] at unqueued
    rw [List.foldl_cons, ih unqueued.2]
    simpa [disconnectFrontend, unqueued.1] using backendError_unchanged.2.2 x unqueued.1

theorem abandon_other (other : x ≠ h) (unqueued : x ∉ (p.list l).pending) :
    (abandon l b h p).http x = p.http x := by
  have told : (if !((leaveBusy l b p).list l).pending.isEmpty &&
      ((leaveBusy l b p).list l).busy.isEmpty then errorPending l (leaveBusy l b p)
      else leaveBusy l b p).http x = p.http x := by
    split
    · rw [errorPending_other (by rw [leaveBusy_pending]; exact unqueued)]
      rfl
    · rfl
  unfold abandon
  dsimp only
  rw [← told]
  simp [Pool.close, other, backendError_unchanged.2.2 x other]

theorem downloadFinished_other (d : Dismisses disconnect) (w : WellFormed limit none p)
    (linked : (p.backend b).http = some h) (home : (p.backend b).backendList = some l)
    (other : x ≠ h) (unqueued : x ∉ (p.list l).pending)
    (run : downloadFinished disconnect system b p = some p') : p'.http x = p.http x := by
  cases connected : (p.backend b).wasTCPConnected with
  | false =>
    obtain ⟨r, -, discards, -, result⟩ :=
      downloadFinished_unanswered system d w linked home connected
    have same : SameLinks _ (abandon l b h p) := abandon_same
    have shut_same : SameLinks (abandon l b h p) (shut b (abandon l b h p)) := .shut b
    have queue : ((leaveBusy l b (shut b (abandon l b h p))).list l).pending =
        (p.list l).pending := by
      rw [leaveBusy_pending, shut_same.list, same.list, leaveBusy_pending]
      rfl
    have kept := discards.kept x (by rw [queue]; exact fun queued => absurd queued unqueued)
    rw [result, Option.some.injEq] at run
    rw [← run, kept, leaveBusy_http, shut_other, abandon_other other unqueued]
    rw [abandon_backend, Function.update_self]
    simp
  | true =>
    obtain ⟨r, -, discards, -, result⟩ :=
      downloadFinished_answered system d w linked home connected
    have kept : r.http x = p.http x := by
      rw [discards.kept x fun queued => absurd queued unqueued]
      simp [other]
    rw [result, Option.some.injEq] at run
    rw [← run, ← kept]
    cases stops : (r.list l).pending with
    | nil => rw [park_http, leaveBusy_http]
    | cons y rest =>
      have apart : x ≠ y := by
        rintro rfl
        exact unqueued (discards.pending.subset (by simp [stops]))
      exact serve_http apart

/-- The pool between the two halves of an expired time-out: the request has been ended,
and the closing of its backend is still to come. -/
structure Halfway (l : ListId) (b : BackendId) (h : HttpId) (p q : Pool) : Prop where
  kept : Kept p q
  http : ∀ x, x ≠ h → x ∉ (p.list l).pending → q.http x = p.http x
  unnamed : ∀ x, x ≠ h → x ∉ (p.list l).pending → (q.backend b).http ≠ some x
  pending : ∀ x, x ∉ (p.list l).pending → x ∉ (q.list l).pending

theorem finishedBackend_last (waiting : List HttpId) :
    (finishedBackend p b waiting).lastReceivedBytesTimestamps =
      (p.backend b).lastReceivedBytesTimestamps := by
  unfold finishedBackend
  split <;> rfl

theorem finishedList_pending {y : BackendList} :
    (finishedList p b y).pending ⊆ y.pending := by
  intro x queued
  unfold finishedList at queued
  split at queued
  · split at queued
    · cases queued
    · rename_i stops
      have left : x ∈ unserved p y.pending := by
        rw [stops]
        exact List.mem_cons_of_mem _ queued
      exact (List.dropWhile_sublist _).subset left
  · unfold failed at queued
    dsimp only at queued
    split at queued
    · exact (RangeFor.skipped_sublist _).subset queued
    · exact queued

theorem halfway_own (w : WellFormed limit none p) (own : (p.http h).backend = some b)
    (home : (p.backend b).backendList = some l) (depth : ℕ)
    (run : disconnectBackend system (depth + 2) false h p = some q) : Halfway l b h p q := by
  have d : Dismisses (disconnectBackend system (depth + 1) false) :=
    disconnectBackend_dismisses depth
  obtain ⟨newBackend, -, list, backend⟩ := disconnectBackend_outcome system w own home depth false run
  obtain ⟨connected, homed⟩ := finishedBackend_connected (p := p) (b := b) (p.list l).pending
  refine ⟨.of_update (Nat.le_of_eq newBackend.symm) backend homed connected
    (finishedBackend_last _), fun x other unqueued => ?_, fun x _ unqueued => ?_,
    fun x unqueued => ?_⟩
  · rw [disconnectBackend, own] at run
    obtain ⟨r, finished, rfl⟩ := Option.map_eq_some_iff.mp run
    obtain ⟨-, -, -, -, -, others⟩ := retire_unchanged (h := h) (p := r) false
    rw [others x other]
    exact downloadFinished_other d w (w.back h b own) home other unqueued finished
  · rw [backend, Function.update_self]
    exact finishedBackend_http unqueued
  · rw [list, Function.update_self]
    exact fun queued => unqueued (finishedList_pending queued)

theorem halfway_stale (w : WellFormed limit none p) (linked : (p.backend b).http = some h)
    (left : (p.http h).backend = none) (depth : ℕ)
    (run : disconnectBackend system (depth + 2) false h p = some q) : Halfway l b h p q := by
  obtain ⟨newBackend, -, backend, list⟩ := disconnectBackend_queued system left (depth + 1) false run
  rw [leavePending_unqueued fun l queued => w.alone queued b linked] at list
  refine ⟨.of_backend (Nat.le_of_eq newBackend.symm) backend, fun x other _ => ?_,
    fun x other _ => ?_, fun x unqueued => ?_⟩
  · rw [disconnectBackend_waiting (depth + 1) false left, Option.some.injEq] at run
    obtain ⟨-, -, -, -, -, others⟩ := retire_unchanged (h := h) (p := leavePending h p) false
    rw [← run, others x other]
    unfold leavePending
    split <;> rfl
  · rw [backend, linked]
    simpa using Ne.symm other
  · rwa [list]

theorem halfway_reached (w : WellFormed limit none p) (linked : (p.backend b).http = some h)
    (home : (p.backend b).backendList = some l) (depth : ℕ)
    (run : disconnectBackend system (depth + 2) false h
      (disconnectFrontend h (backendError h p)) = some q) : Halfway l b h p q := by
  have same : SameLinks p (disconnectFrontend h (backendError h p)) := .dismissed h
  have backends : (disconnectFrontend h (backendError h p)).backend = p.backend :=
    backendError_unchanged.2.1
  have ws : WellFormed limit none (disconnectFrontend h (backendError h p)) := same.wellFormed w
  have reached : Halfway l b h (disconnectFrontend h (backendError h p)) q := by
    obtain own | ⟨left, -⟩ := ws.stale b h (by rw [backends, linked])
    · exact halfway_own ws own (by rw [backends, home]) depth run
    · exact halfway_stale ws (by rw [backends, linked]) left depth run
  obtain ⟨kept, http, unnamed, pending⟩ := reached
  rw [same.list] at http unnamed pending
  refine ⟨Kept.dismissed.trans kept, fun x other unqueued => ?_, unnamed, pending⟩
  rw [http x other unqueued]
  simpa [disconnectFrontend, other] using backendError_unchanged.2.2 x other

end halfway

section turns

def Gone (b : BackendId) (p : Pool) : Prop := ∀ l, b ∉ (p.list l).busy ∧ b ∉ (p.list l).idle

theorem allocated_of_home (w : WellFormed limit none p)
    (home : (p.backend b).backendList = some l) : b < p.newBackend := by
  by_contra late
  rw [(w.newBackend b (Nat.not_lt.mp late)).2] at home
  cases home

theorem turn_kept (w : WellFormed limit none p) (depth : ℕ)
    (run : backendTimeout system (depth + 2) b p = some p') :
    p.newBackend ≤ p'.newBackend ∧ ∀ c < p.newBackend,
      (p'.backend c).backendList = (p.backend c).backendList ∧
      (p'.backend c).wasTCPConnected = (p.backend c).wasTCPConnected ∧
      (c ≠ b → (p'.backend c).lastReceivedBytesTimestamps =
        (p.backend c).lastReceivedBytesTimestamps) := by
  cases linked : (p.backend b).http with
  | none =>
    rw [backendTimeout, linked, Option.some.injEq] at run
    rw [← run]
    exact ⟨Nat.le_refl _, fun c _ => ⟨rfl, rfl, fun _ => rfl⟩⟩
  | some h =>
    by_cases overdue : Overdue system b p
    · obtain ⟨l, home⟩ := w.homed b h linked
      obtain ⟨q, ended, wq, closed⟩ := overdue_halves w linked overdue depth run
      have half := halfway_reached w linked home depth ended
      have kept := (half.kept.trans .close).trans (remoteSocketClosed_kept
        (disconnectBackend_dismisses (depth + 1)) ((SameLinks.close b).wellFormed wq)
        closed)
      exact ⟨kept.newBackend, fun c old =>
        ⟨kept.backendList c old, kept.connected c old, fun _ => kept.last c old⟩⟩
    · rw [backendTimeout_early linked overdue, Option.some.injEq] at run
      rw [← run]
      refine ⟨Nat.le_refl _, fun c _ => ?_⟩
      by_cases own : c = b
      · simp [own]
      · simp [own]

theorem turn_waiting (w : WellFormed limit none p) (home : (p.backend b).backendList = some l)
    (depth : ℕ) (run : backendTimeout system (depth + 2) b p = some p') {l' : ListId} (other : l' ≠ l)
    (queued : x ∈ (p.list l').pending) : p'.http x = p.http x := by
  cases linked : (p.backend b).http with
  | none =>
    rw [backendTimeout, linked, Option.some.injEq] at run
    rw [← run]
  | some h =>
    by_cases overdue : Overdue system b p
    · have apart : x ≠ h := by
        rintro rfl
        exact w.alone queued b linked
      have unqueued : x ∉ (p.list l).pending := by
        intro here
        exact other (w.pending_unique here queued)
      obtain ⟨q, ended, wq, closed⟩ := overdue_halves w linked overdue depth run
      have half := halfway_reached w linked home depth ended
      have closing := remoteSocketClosed_other (x := x) (disconnectBackend_dismisses (depth + 1))
        ((SameLinks.close b).wellFormed wq) (fun l₁ home₁ => ?_) ?_ closed
      · rw [closing.1]
        exact half.http x apart unqueued
      · have same := half.kept.backendList b (allocated_of_home w home)
        rw [home] at same
        have here : l₁ = l := by
          simpa [close, same] using home₁.symm
        rw [here]
        exact half.pending x unqueued
      · simpa [close] using half.unnamed x apart unqueued
    · rw [backendTimeout_early linked overdue, Option.some.injEq] at run
      rw [← run]
      rfl

/-- What an expired time-out appends to `busy`. -/
def replacement (system : System) (p : Pool) (b : BackendId) (y : BackendList) : List BackendId :=
  if (p.backend b).wasTCPConnected ∧ unserved p y.pending ≠ [] then
    match y.idle.getLast? with
    | some c => [c]
    | none => if system.connect p.newBackend = .started then [p.newBackend] else []
  else []

theorem closedList_busy_absent {y : BackendList} (absent : b ∉ y.busy) :
    (closedList system p b y).busy = y.busy := by
  unfold closedList
  rw [if_neg absent]
  split
  · rfl
  · exact List.erase_of_not_mem absent

theorem timeoutList_busy {y : BackendList} (distinct : y.busy.Nodup) (busy : b ∈ y.busy) :
    (closedList system p b (finishedList p b y)).busy =
      y.busy.erase b ++ replacement system p b y := by
  have gone : b ∉ y.busy.erase b := distinct.not_mem_erase
  unfold finishedList replacement
  by_cases connected : (p.backend b).wasTCPConnected = true
  · simp only [connected, if_true, true_and]
    cases stops : unserved p y.pending with
    | nil => simp [closedList_busy_absent, gone]
    | cons x rest =>
      unfold closedList reassignedList
      rw [if_pos connected, if_pos busy]
      cases y.idle.getLast? with
      | some c => simp
      | none => by_cases started : system.connect p.newBackend = .started <;> simp [started]
  · simp [connected, closedList_busy_absent, gone]

theorem timeoutList_busy_absent {y : BackendList} (absent : b ∉ y.busy) :
    (closedList system p b (finishedList p b y)).busy = y.busy := by
  have same : (finishedList p b y).busy = y.busy := by
    unfold finishedList
    split
    · split
      · exact List.erase_of_not_mem absent
      · rfl
    · exact List.erase_of_not_mem absent
  rw [closedList_busy_absent (by rwa [same]), same]

theorem mem_closedList {y : BackendList} :
    (c ∈ (closedList system p b y).busy → c ∈ y.busy ∨ c ∈ y.idle ∨ c = p.newBackend) ∧
      (c ∈ (closedList system p b y).idle → c ∈ y.idle) := by
  unfold closedList
  split
  · split
    · unfold reassignedList
      split
      · rename_i d last
        refine ⟨fun member => ?_, fun member => List.dropLast_subset _ member⟩
        obtain old | new := List.mem_append.mp member
        · exact .inl (List.mem_of_mem_erase old)
        · rw [List.mem_singleton.mp new]
          exact .inr (.inl (List.mem_of_getLast? last))
      · split
        · refine ⟨fun member => ?_, id⟩
          obtain old | new := List.mem_append.mp member
          · exact .inl (List.mem_of_mem_erase old)
          · exact .inr (.inr (List.mem_singleton.mp new))
        · exact ⟨fun member => .inl (List.mem_of_mem_erase member), id⟩
    · exact ⟨.inl, List.mem_of_mem_erase⟩
  · exact ⟨fun member => .inl (List.mem_of_mem_erase member), id⟩

theorem mem_finishedList {y : BackendList} : (c ∈ (finishedList p b y).busy → c ∈ y.busy) ∧
    (c ∈ (finishedList p b y).idle → c ∈ y.idle ∨ c = b) := by
  unfold finishedList
  split
  · split
    · refine ⟨List.mem_of_mem_erase, fun member => ?_⟩
      dsimp only at member
      split at member
      · rwa [List.mem_append, List.mem_singleton] at member
      · exact .inl member
    · exact ⟨id, .inl⟩
  · exact ⟨List.mem_of_mem_erase, .inl⟩

instance : Decidable (Overdue system b p) := inferInstanceAs (Decidable (_ ≤ _))

def nextBusy (system : System) (l : ListId) (b : BackendId) (p : Pool) : List BackendId :=
  if b ∈ (p.list l).busy ∧ Overdue system b p then
    (p.list l).busy.erase b ++ replacement system p b (p.list l)
  else (p.list l).busy

theorem overdue_lists (w : WellFormed limit none p) (linked : (p.backend b).http = some h)
    (home : (p.backend b).backendList = some l) (overdue : Overdue system b p) (depth : ℕ)
    (run : backendTimeout system (depth + 2) b p = some p') : p'.addressTo = p.addressTo ∧
      ∃ y, p'.list = Function.update p.list l y ∧ y.busy = nextBusy system l b p ∧
        (∀ c ∈ y.busy, c ∈ (p.list l).busy ∨ c ∈ (p.list l).idle ∨ c = b ∨ c = p.newBackend) ∧
        ∀ c ∈ y.idle, c ∈ (p.list l).idle ∨ c = b := by
  unfold nextBusy
  have distinct : (p.list l).busy.Nodup := (List.nodup_append.mp (w.nodup l)).1
  obtain own | ⟨left, -⟩ := w.stale b h linked
  · obtain ⟨addressTo, list⟩ := backendTimeout_own system w own home overdue depth run
    refine ⟨addressTo, _, list, ?_, fun c member => ?_, fun c member => ?_⟩
    · by_cases busy : b ∈ (p.list l).busy
      · rw [if_pos ⟨busy, overdue⟩, timeoutList_busy distinct busy]
      · rw [if_neg fun both => busy both.1, timeoutList_busy_absent busy]
    · obtain busy | idle | new := mem_closedList.1 member
      · exact .inl (mem_finishedList.1 busy)
      · obtain old | own := mem_finishedList.2 idle
        · exact .inr (.inl old)
        · exact .inr (.inr (.inl own))
      · exact .inr (.inr (.inr new))
    · exact mem_finishedList.2 (mem_closedList.2 member)
  · obtain ⟨addressTo, list⟩ := backendTimeout_stale system w linked left home overdue depth run
    have absent : b ∉ (p.list l).busy := by
      intro busy
      obtain ⟨h', linked', back⟩ := w.busy l b busy (Option.some_ne_none _).symm
      obtain rfl := Option.some_inj.mp (linked.symm.trans linked')
      cases left.symm.trans back
    refine ⟨addressTo, _, list, ?_, fun c member => ?_, fun c member => ?_⟩
    · rw [if_neg fun both => absent both.1, closedList_busy_absent absent]
    · rw [closedList_busy_absent absent] at member
      exact .inl member
    · exact .inl (mem_closedList.2 member)

theorem turn_others (w : WellFormed limit none p) (home : (p.backend b).backendList = some l)
    (depth : ℕ) (run : backendTimeout system (depth + 2) b p = some p') :
    p'.addressTo = p.addressTo ∧ ∀ l', l' ≠ l → p'.list l' = p.list l' := by
  cases linked : (p.backend b).http with
  | none =>
    rw [backendTimeout, linked, Option.some.injEq] at run
    rw [← run]
    exact ⟨rfl, fun _ _ => rfl⟩
  | some h =>
    by_cases overdue : Overdue system b p
    · obtain ⟨addressTo, y, list, -⟩ := overdue_lists w linked home overdue depth run
      refine ⟨addressTo, fun l' other => ?_⟩
      rw [list, Function.update_of_ne other]
    · rw [backendTimeout_early linked overdue, Option.some.injEq] at run
      rw [← run]
      exact ⟨rfl, fun _ _ => rfl⟩

theorem turn_busy (w : WellFormed limit none p) (l : ListId) (depth : ℕ)
    (run : backendTimeout system (depth + 2) b p = some p') :
    (p'.list l).busy = nextBusy system l b p := by
  cases linked : (p.backend b).http with
  | none =>
    have absent : b ∉ (p.list l).busy := by
      intro busy
      obtain ⟨h, linked', -⟩ := w.busy l b busy (Option.some_ne_none _).symm
      cases linked.symm.trans linked'
    rw [backendTimeout, linked, Option.some.injEq] at run
    rw [← run, nextBusy, if_neg fun both => absent both.1]
  | some h =>
    by_cases overdue : Overdue system b p
    · obtain ⟨l', home⟩ := w.homed b h linked
      obtain ⟨-, y, list, busy, -⟩ := overdue_lists w linked home overdue depth run
      rw [list]
      by_cases own : l = l'
      · subst own
        rw [Function.update_self, busy]
      · have absent : b ∉ (p.list l).busy := by
          intro member
          have home' := w.home l b (List.mem_append_left _ member)
          exact own (Option.some_inj.mp (home'.symm.trans home))
        rw [Function.update_of_ne own, nextBusy, if_neg fun both => absent both.1]
    · rw [backendTimeout_early linked overdue, Option.some.injEq] at run
      rw [← run, nextBusy, if_neg fun both => overdue both.2]
      rfl

theorem overdue_gone (w : WellFormed limit none p) (linked : (p.backend b).http = some h)
    (overdue : Overdue system b p) (depth : ℕ)
    (run : backendTimeout system (depth + 2) b p = some p') : Gone b p' := by
  obtain ⟨l, home⟩ := w.homed b h linked
  obtain ⟨q, ended, wq, closed⟩ := overdue_halves w linked overdue depth run
  have half := halfway_reached w linked home depth ended
  have kept : Kept p (close b q) := half.kept.trans .close
  have home' := (kept.backendList b (allocated_of_home w home)).trans home
  exact remoteSocketClosed_gone (disconnectBackend_dismisses (depth + 1))
    ((SameLinks.close b).wellFormed wq) home' closed

theorem turn_gone (w : WellFormed limit none p) (old : c < p.newBackend) (gone : Gone c p)
    (depth : ℕ) (run : backendTimeout system (depth + 2) b p = some p') : Gone c p' := by
  cases linked : (p.backend b).http with
  | none =>
    rw [backendTimeout, linked, Option.some.injEq] at run
    exact run ▸ gone
  | some h =>
    by_cases overdue : Overdue system b p
    · by_cases own : c = b
      · subst own
        exact overdue_gone w linked overdue depth run
      · obtain ⟨l, home⟩ := w.homed b h linked
        obtain ⟨-, y, list, -, busy, idle⟩ := overdue_lists w linked home overdue depth run
        intro l'
        rw [list]
        by_cases here : l' = l
        · subst here
          rw [Function.update_self]
          have apart := gone l'
          refine ⟨fun member => ?_, fun member => ?_⟩
          · obtain before | before | same | new := busy c member
            · exact apart.1 before
            · exact apart.2 before
            · exact own same
            · exact absurd new (Nat.ne_of_lt old)
          · obtain before | same := idle c member
            · exact apart.2 before
            · exact own same
        · rw [Function.update_of_ne here]
          exact gone l'
    · rw [backendTimeout_early linked overdue, Option.some.injEq] at run
      exact run ▸ gone

end turns

end FastCgiCdn.TimeoutTurns
