import FastCgiCdn.DeadOrigin

/-! What the operations of the pool leave behind, exactly. The loops over `pending`
only discard queued objects, and what a `BackendList` becomes is a function of the
list, of its backend, and of the objects that are queued in it. -/

namespace FastCgiCdn.PoolOutcomes

open DnsModel PoolModel Pool PoolInvariant PoolWellFormed RangeFor
open DeadOrigin (failPending_pending dismiss_toDelete)

variable {limit : ℕ} {system : System} {disconnect : HttpId → Pool → Option Pool}
variable {held : Option BackendId} {p p' p'' : Pool} {b : BackendId} {h : HttpId} {l : ListId}

/-- Objects queued in `l` have been dismissed, and nothing else has changed. -/
structure Discards (l : ListId) (p p' : Pool) : Prop where
  newBackend : p'.newBackend = p.newBackend
  addressTo : p'.addressTo = p.addressTo
  backend : p'.backend = p.backend
  list : p'.list = Function.update p.list l { p.list l with pending := (p'.list l).pending }
  pending : (p'.list l).pending.Sublist (p.list l).pending
  toDelete : p.toDelete ⊆ p'.toDelete
  kept : ∀ h, (h ∈ (p.list l).pending → h ∈ (p'.list l).pending) → p'.http h = p.http h
  dead : ∀ h ∈ (p.list l).pending, h ∉ (p'.list l).pending →
    (p'.http h).isAlive = false ∧ (p'.http h).backend = none

namespace Discards

theorem refl (l : ListId) (p : Pool) : Discards l p p where
  newBackend := rfl
  addressTo := rfl
  backend := rfl
  list := (Function.update_eq_self l p.list).symm
  pending := .refl _
  toDelete := List.Subset.refl _
  kept _ _ := rfl
  dead _ queued gone := absurd queued gone

theorem trans (d : Discards l p p') (e : Discards l p' p'') : Discards l p p'' where
  newBackend := e.newBackend.trans d.newBackend
  addressTo := e.addressTo.trans d.addressTo
  backend := e.backend.trans d.backend
  list := by
    rw [e.list, d.list]
    simp
  pending := e.pending.trans d.pending
  toDelete := List.Subset.trans d.toDelete e.toDelete
  kept h stays := by
    rw [e.kept h fun queued => stays (d.pending.subset queued),
      d.kept h fun queued => e.pending.subset (stays queued)]
  dead h queued gone := by
    by_cases still : h ∈ (p'.list l).pending
    · exact e.dead h still gone
    · rw [e.kept h fun queued => absurd queued still]
      exact d.dead h queued still

theorem list_of_ne (d : Discards l p p') {x : ListId} (other : x ≠ l) : p'.list x = p.list x := by
  rw [d.list, Function.update_of_ne other]

end Discards

theorem retire_kept (fromDestructor : Bool) :
    (retire fromDestructor h p).addressTo = p.addressTo ∧
      (retire fromDestructor h p).newBackend = p.newBackend := by
  unfold retire unregister
  dsimp only
  split
  all_goals split <;> exact ⟨rfl, rfl⟩

theorem retire_backend (fromDestructor : Bool) :
    ((retire fromDestructor h p).http h).backend = none := by
  unfold retire
  dsimp only
  split
  all_goals simp [unregister_unchanged]

theorem leavePending_kept : (leavePending h p).addressTo = p.addressTo ∧
    (leavePending h p).newBackend = p.newBackend ∧ (leavePending h p).backend = p.backend := by
  unfold leavePending
  split <;> exact ⟨rfl, rfl, rfl⟩

theorem dismiss_lists (home : (p.http h).backendList = some l) : (dismiss h p).list =
    Function.update p.list l { p.list l with pending := (p.list l).pending.erase h } := by
  have same : SameLinks p _ := SameLinks.dismissed h
  have home' : ((disconnectFrontend h (backendError h p)).http h).backendList = some l := by
    rw [(same.http h).2.1]
    exact home
  rw [dismiss, (retire_unchanged false).2.2.2.1, leavePending, home']
  dsimp only [setList]
  rw [same.list]

theorem dismiss_http {x : HttpId} (other : x ≠ h) : (dismiss h p).http x = p.http x := by
  rw [dismiss, (retire_unchanged false).2.2.2.2.2 x other, leavePending_http]
  simpa [disconnectFrontend, other] using backendError_unchanged.2.2 x other

theorem dismiss_kept : (dismiss h p).addressTo = p.addressTo ∧
    (dismiss h p).newBackend = p.newBackend ∧ (dismiss h p).backend = p.backend := by
  have same : SameLinks p _ := SameLinks.dismissed h
  refine ⟨?_, ?_, ?_⟩
  · rw [dismiss, (retire_kept false).1, leavePending_kept.1, same.addressTo]
  · rw [dismiss, (retire_kept false).2, leavePending_kept.2.1, same.newBackend]
  · rw [dismiss, (retire_unchanged false).2.2.2.2.1, leavePending_kept.2.2]
    exact backendError_unchanged.2.1

theorem Discards.dismiss {f : Http → Http} {waiting : List HttpId} (w : WellFormed limit held p)
    (queued : h ∈ (p.list l).pending) (home : (f (p.http h)).backendList = some l)
    (left : waiting.erase h = (p.list l).pending.erase h) :
    let q := setHttp h f (setList l ({ · with pending := waiting }) p)
    Discards l p (PoolInvariant.dismiss h q) ∧
      ((PoolInvariant.dismiss h q).list l).pending = (p.list l).pending.erase h := by
  intro q
  have lists : (PoolInvariant.dismiss h q).list =
      Function.update p.list l { p.list l with pending := (p.list l).pending.erase h } := by
    rw [dismiss_lists (l := l) (by simpa [q] using home)]
    simp only [q, setHttp, setList, Function.update_self, Function.update_idem, left]
  have own : ((PoolInvariant.dismiss h q).list l).pending = (p.list l).pending.erase h := by
    rw [lists, Function.update_self]
  obtain ⟨addressTo, newBackend, backend⟩ := dismiss_kept (h := h) (p := q)
  refine ⟨⟨newBackend, addressTo, backend, ?_, ?_, ?_, fun x stays => ?_, fun x member gone => ?_⟩,
    own⟩
  · rw [lists, Function.update_self]
  · rw [own]
    exact List.erase_sublist
  · rw [dismiss_toDelete]
    split
    · exact fun x member => List.mem_insert_of_mem member
    · exact List.Subset.refl _
  · have other : x ≠ h := by
      rintro rfl
      rw [own] at stays
      exact (w.pending_nodup l).not_mem_erase (stays queued)
    rw [dismiss_http other]
    simp [q, other]
  · have same : x = h := by
      by_contra other
      rw [own] at gone
      exact gone ((List.mem_erase_of_ne other).mpr member)
    rw [same]
    exact ⟨(retire_http false).1, retire_backend false⟩

theorem Discards.dismiss_queued (w : WellFormed limit held p) (queued : h ∈ (p.list l).pending) :
    Discards l p (PoolInvariant.dismiss h p) := by
  have still : setHttp h id (setList l ({ · with pending := (p.list l).pending }) p) = p := by
    simp [setHttp, setList]
  have discarded := (Discards.dismiss (f := id) w queued (w.pending l h queued).2 rfl).1
  rwa [still] at discarded

theorem failPending_discards (d : Dismisses disconnect) (w : WellFormed limit held p)
    (fuel index : ℕ) (run : failPending disconnect l fuel index p = some p') :
    Discards l p p' := by
  induction fuel generalizing p index with
  | zero => cases run
  | succ fuel ih =>
    unfold failPending at run
    split at run
    · rw [Option.some.injEq] at run
      rw [← run]
      exact .refl l p
    · rename_i h found
      have queued : h ∈ (p.list l).pending := List.mem_of_getElem? found
      have waits := (w.pending l h queued).1
      rw [d.dismiss waits, Option.bind_some] at run
      exact (Discards.dismiss_queued w queued).trans (ih (w.dismiss waits) (index + 1) run)

def failed (busy : List BackendId) (waiting : List HttpId) : List HttpId :=
  if busy = [] then skipped waiting else waiting

theorem failPending_outcome (d : Dismisses disconnect) (w : WellFormed limit held p) :
    ∃ r, (if !(p.list l).pending.isEmpty && (p.list l).busy.isEmpty then
        failPending disconnect l ((p.list l).pending.length + 1) 0 p else some p) = some r ∧
      WellFormed limit held r ∧ Discards l p r ∧
      (r.list l).pending = failed (p.list l).busy (p.list l).pending := by
  unfold failed
  by_cases deserted : (p.list l).busy = []
  · by_cases empty : (p.list l).pending = []
    · refine ⟨p, by simp [empty], w, .refl l p, ?_⟩
      rw [if_pos deserted, empty, skipped]
    · obtain ⟨r, run, wr, -⟩ := failPending_drains d w ((p.list l).pending.length + 1) 0
        (Nat.succ_pos _) (Nat.lt_succ_self _)
      refine ⟨r, by simp [deserted, empty, run], wr, failPending_discards d w _ 0 run, ?_⟩
      rw [failPending_pending d w _ 0 run, if_pos deserted]
      simp
  · exact ⟨p, by simp [deserted], w, .refl l p, by rw [if_neg deserted]⟩

/-- The search has found `h`, the front of what it has left of the queue. -/
def serve (system : System) (l : ListId) (b : BackendId) (h : HttpId) (rest : List HttpId)
    (p : Pool) : Pool :=
  readyToWrite system h (link b h
    (setHttp h ({ · with pending := true }) (setList l ({ · with pending := rest }) p)))

def unserved (p : Pool) (waiting : List HttpId) : List HttpId :=
  waiting.dropWhile fun h => !(p.http h).haveUrlAndFrontendConnected

theorem unserved_cons (waiting : List HttpId) : unserved p (h :: waiting) =
    if (p.http h).haveUrlAndFrontendConnected then h :: waiting else unserved p waiting := by
  unfold unserved
  rw [List.dropWhile_cons]
  by_cases served : (p.http h).haveUrlAndFrontendConnected = true <;> simp [served]

theorem unserved_congr {waiting : List HttpId} (same : ∀ h ∈ waiting, p'.http h = p.http h) :
    unserved p' waiting = unserved p waiting := by
  induction waiting with
  | nil => rfl
  | cons h waiting ih =>
    rw [unserved_cons, unserved_cons, same h List.mem_cons_self,
      ih fun x member => same x (List.mem_cons_of_mem h member)]

variable (system b) in
theorem serveNext_outcome (d : Dismisses disconnect) (w : WellFormed limit held p) (fuel : ℕ)
    (waiting : (p.list l).pending ≠ []) (enough : (p.list l).pending.length ≤ fuel) :
    ∃ r, WellFormed limit held r ∧ Discards l p r ∧
      (r.list l).pending = unserved p (p.list l).pending ∧
      serveNext disconnect system b l fuel p = some (match (r.list l).pending with
        | [] => (false, r)
        | h :: rest => (true, serve system l b h rest r)) := by
  induction fuel generalizing p with
  | zero =>
    have positive := List.length_pos_iff.mpr waiting
    omega
  | succ fuel ih =>
    unfold serveNext
    cases queue : (p.list l).pending with
    | nil => exact absurd queue waiting
    | cons h rest =>
      have queued : h ∈ (p.list l).pending := by simp [queue]
      let q := setHttp h ({ · with pending := true }) (setList l ({ · with pending := rest }) p)
      have wq : WellFormed limit held q :=
        (SameLinks.setHttp ⟨rfl, rfl, id, id⟩).wellFormed (w.setPending (by simp [queue]))
      have flag : (q.http h).haveUrlAndFrontendConnected =
          (p.http h).haveUrlAndFrontendConnected := by
        simp [q, Http.haveUrlAndFrontendConnected, Http.isAlive]
      have waits : (q.http h).backend = none := by simpa [q] using (w.pending l h queued).1
      change ∃ r, _ ∧ _ ∧ _ ∧ (if (q.http h).haveUrlAndFrontendConnected then
        some (true, readyToWrite system h (link b h q)) else
        (disconnect h (disconnectFrontend h (backendError h q))).bind fun p =>
          if (p.list l).pending.isEmpty then some (false, p) else
            serveNext disconnect system b l fuel p) = _
      rw [flag, unserved_cons]
      split
      · exact ⟨p, w, .refl l p, queue, by rw [queue]; rfl⟩
      · have once := w.pending_nodup l
        rw [queue, List.nodup_cons] at once
        have removed : rest.erase h = (p.list l).pending.erase h := by
          rw [queue, List.erase_cons_head, List.erase_of_not_mem once.1]
        obtain ⟨dropped, left⟩ := Discards.dismiss (f := ({ · with pending := true })) w queued
          (w.pending l h queued).2 removed
        rw [queue, List.erase_cons_head] at left
        rw [d.dismiss waits, Option.bind_some]
        change Discards l p (dismiss h q) at dropped
        change ((dismiss h q).list l).pending = rest at left
        by_cases emptied : rest = []
        · refine ⟨dismiss h q, wq.dismiss waits, dropped, ?_, ?_⟩
          · rw [left, emptied]
            rfl
          · simp [left, emptied]
        · obtain ⟨r, wr, more, stops, run⟩ := ih (wq.dismiss waits) (by rw [left]; exact emptied)
            (by rw [left]; rw [queue, List.length_cons] at enough; omega)
          refine ⟨r, wr, dropped.trans more, ?_, ?_⟩
          · rw [stops, left]
            refine unserved_congr fun x member => dropped.kept x fun _ => ?_
            rw [left]
            exact member
          · rw [left, if_neg (by simpa using emptied), run]

/-! The closing of a backend. -/

/-- Its Http forgets a backend that never got an answer. -/
def forget (b : BackendId) (p : Pool) : Pool :=
  match (p.backend b).http with
  | none => p
  | some h => setHttp h ({ · with backend := none }) p

theorem remoteSocketClosed_homeless (homeless : (p.backend b).backendList = none) :
    remoteSocketClosed disconnect system b p = some (shut b p) := by
  unfold remoteSocketClosed
  dsimp only
  rw [shut_backend, homeless]

theorem shut_backends : (shut b p).backend =
    Function.update p.backend b { p.backend b with isValid := false } := by
  unfold shut
  split
  · rfl
  · unfold resetRequestSended
    split <;> rfl

variable (system) in
theorem remoteSocketClosed_unanswered (d : Dismisses disconnect) (w : WellFormed limit none p)
    (home : (p.backend b).backendList = some l)
    (unanswered : (p.backend b).wasTCPConnected = false) :
    ∃ r, WellFormed limit none r ∧ Discards l (leaveBusy l b (shut b p)) r ∧
      (r.list l).pending = failed ((p.list l).busy.erase b) (p.list l).pending ∧
      remoteSocketClosed disconnect system b p = some (forget b r) := by
  have same : SameLinks p (shut b p) := .shut b
  have wl : WellFormed limit none (leaveBusy l b (shut b p)) :=
    (same.wellFormed w).leaveBusy (.inr (.inl (by rw [shut_backend])))
  obtain ⟨r, run, wr, discards, left⟩ := failPending_outcome (l := l) d wl
  refine ⟨r, wr, discards, ?_, ?_⟩
  · rw [left, leaveBusy_pending, same.list]
    simp [leaveBusy, same.list]
  · unfold remoteSocketClosed
    dsimp only
    rw [shut_backend]
    simp only [home, unanswered, Bool.not_false, if_true]
    rw [run]
    rfl

theorem remoteSocketClosed_busy (home : (p.backend b).backendList = some l)
    (connected : (p.backend b).wasTCPConnected = true) (busy : b ∈ (p.list l).busy)
    (linked : (p.backend b).http = some h) : remoteSocketClosed disconnect system b p =
      some (reassign system l b h (leaveBusy l b (shut b p))) := by
  have same : SameLinks p (shut b p) := .shut b
  unfold remoteSocketClosed
  dsimp only
  rw [shut_backend]
  simp only [home, connected, Bool.not_true, Bool.false_eq_true, if_false, same.list, busy, if_true,
    leaveBusy_backend, shut_backend, linked]

theorem remoteSocketClosed_apart (home : (p.backend b).backendList = some l)
    (connected : (p.backend b).wasTCPConnected = true) (apart : b ∉ (p.list l).busy) :
    remoteSocketClosed disconnect system b p = some (leaveIdle l b (shut b p)) := by
  have same : SameLinks p (shut b p) := .shut b
  unfold remoteSocketClosed
  dsimp only
  rw [shut_backend]
  simp only [home, connected, Bool.not_true, Bool.false_eq_true, if_false, same.list, apart]

def reassignedList (system : System) (p : Pool) (x : BackendList) : BackendList :=
  match x.idle.getLast? with
  | some c => { x with busy := x.busy ++ [c], idle := x.idle.dropLast }
  | none =>
    if system.connect p.newBackend = .started then { x with busy := x.busy ++ [p.newBackend] }
    else x

theorem reassignedList_congr {x : BackendList} (same : p'.newBackend = p.newBackend) :
    reassignedList system p' x = reassignedList system p x := by
  unfold reassignedList
  rw [same]

theorem reassign_list : (reassign system l b h p).list =
    Function.update p.list l (reassignedList system p (p.list l)) := by
  unfold reassign reassignedList
  dsimp only
  rw [setHttp_list]
  cases (p.list l).idle.getLast? with
  | some c => exact (SameLinks.readyToWrite system h).list
  | none =>
    dsimp only
    split
    · rename_i started
      rw [if_pos (by exact started)]
      rfl
    · rename_i failed
      rw [if_neg (by exact failed), Function.update_eq_self]
      rfl

def closedList (system : System) (p : Pool) (b : BackendId) (x : BackendList) : BackendList :=
  if (p.backend b).wasTCPConnected then
    if b ∈ x.busy then reassignedList system p { x with busy := x.busy.erase b }
    else { x with idle := x.idle.erase b }
  else { x with busy := x.busy.erase b, pending := failed (x.busy.erase b) x.pending }

theorem leaveBusy_list : (leaveBusy l b p).list =
    Function.update p.list l { p.list l with busy := (p.list l).busy.erase b } := rfl

theorem forget_kept : (forget b p).list = p.list ∧ (forget b p).addressTo = p.addressTo ∧
    (forget b p).newBackend = p.newBackend ∧ (forget b p).backend = p.backend := by
  unfold forget
  split <;> exact ⟨rfl, rfl, rfl, rfl⟩

theorem reassign_addressTo : (reassign system l b h p).addressTo = p.addressTo := by
  unfold reassign
  dsimp only
  split
  · exact (SameLinks.readyToWrite system h).addressTo
  · split <;> rfl

theorem Discards.list_eq (d : Discards l p p') {waiting : List HttpId}
    (left : (p'.list l).pending = waiting) :
    p'.list = Function.update p.list l { p.list l with pending := waiting } := by
  rw [← left]
  exact d.list

variable (system) in
theorem remoteSocketClosed_outcome (d : Dismisses disconnect) (w : WellFormed limit none p)
    (home : (p.backend b).backendList = some l)
    (run : remoteSocketClosed disconnect system b p = some p') :
    p'.addressTo = p.addressTo ∧
      p'.list = Function.update p.list l (closedList system p b (p.list l)) := by
  have same : SameLinks p (shut b p) := .shut b
  unfold closedList
  cases connected : (p.backend b).wasTCPConnected with
  | false =>
    obtain ⟨r, -, discards, left, result⟩ := remoteSocketClosed_unanswered system d w home connected
    rw [result, Option.some.injEq] at run
    rw [← run, forget_kept.2.1, forget_kept.1, discards.addressTo, discards.list_eq left,
      leaveBusy_list, same.list]
    exact ⟨same.addressTo, by simp⟩
  | true =>
    simp only [if_true]
    by_cases busy : b ∈ (p.list l).busy
    · obtain ⟨h, linked, -⟩ := w.busy l b busy (Option.some_ne_none _).symm
      rw [remoteSocketClosed_busy home connected busy linked, Option.some.injEq] at run
      rw [← run, if_pos busy, reassign_addressTo, reassign_list, leaveBusy_list, same.list]
      refine ⟨same.addressTo, ?_⟩
      rw [Function.update_self, Function.update_idem]
      exact congrArg _ (reassignedList_congr same.newBackend)
    · rw [remoteSocketClosed_apart home connected busy, Option.some.injEq] at run
      rw [← run, if_neg busy]
      refine ⟨same.addressTo, ?_⟩
      change Function.update (shut b p).list l _ = _
      rw [same.list]

/-! The end of a download. -/

def finishedList (p : Pool) (b : BackendId) (x : BackendList) : BackendList :=
  if (p.backend b).wasTCPConnected then
    match unserved p x.pending with
    | [] => { x with
      busy := x.busy.erase b
      idle := if (p.backend b).isValid then x.idle ++ [b] else x.idle
      pending := [] }
    | _ :: rest => { x with pending := rest }
  else { x with busy := x.busy.erase b, pending := failed (x.busy.erase b) x.pending }

variable (system) in
theorem downloadFinished_unanswered (d : Dismisses disconnect) (w : WellFormed limit none p)
    (linked : (p.backend b).http = some h) (home : (p.backend b).backendList = some l)
    (unanswered : (p.backend b).wasTCPConnected = false) :
    ∃ r, WellFormed limit none r ∧ Discards l (leaveBusy l b (shut b (abandon l b h p))) r ∧
      (r.list l).pending = failed ((p.list l).busy.erase b) (p.list l).pending ∧
      downloadFinished disconnect system b p = some r := by
  have taken : WellFormed limit (some b) (unlink b h p) := w.hold.unlink linked
  have same : SameLinks _ (abandon l b h p) := abandon_same
  have wa : WellFormed limit none (abandon l b h p) := same.wellFormed
    ((taken.leaveBusy (.inl rfl)).release (by simp) (taken.not_mem_leaveBusy (by simpa using home)))
  have own : (abandon l b h p).backend b = _ := congrFun abandon_backend b
  rw [Function.update_self] at own
  obtain ⟨r, wr, discards, left, run⟩ := remoteSocketClosed_unanswered system d wa
    (by rw [own]; exact home) (by rw [own]; exact unanswered)
  have free : (r.backend b).http = none := by
    rw [discards.backend, leaveBusy_backend, shut_backend, own]
  refine ⟨r, wr, discards, ?_, ?_⟩
  · have once := (List.nodup_append.mp (w.nodup l)).1
    rw [left, same.list, leaveBusy_list, Function.update_self]
    dsimp only [unlink_list]
    rw [List.erase_of_not_mem once.not_mem_erase]
  · rw [downloadFinished_unconnected system disconnect linked home unanswered, run, forget, free]

variable (system) in
theorem downloadFinished_answered (d : Dismisses disconnect) (w : WellFormed limit none p)
    (linked : (p.backend b).http = some h) (home : (p.backend b).backendList = some l)
    (connected : (p.backend b).wasTCPConnected = true) :
    ∃ r, WellFormed limit (some b) r ∧ Discards l (unlink b h p) r ∧
      (r.list l).pending = unserved p (p.list l).pending ∧
      downloadFinished disconnect system b p = some (match (r.list l).pending with
        | [] => park l b (leaveBusy l b r)
        | x :: rest => serve system l b x rest r) := by
  have taken : WellFormed limit (some b) (unlink b h p) := w.hold.unlink linked
  by_cases empty : (p.list l).pending = []
  · refine ⟨unlink b h p, taken, .refl l _, ?_, ?_⟩
    · rw [unlink_list, empty]
      rfl
    · rw [downloadFinished_idle linked home connected empty, unlink_list, empty]
  · obtain ⟨r, wr, discards, left, run⟩ := serveNext_outcome system b d taken
      ((p.list l).pending.length + 1) empty (Nat.le_succ _)
    refine ⟨r, wr, discards, ?_, ?_⟩
    · rw [left]
      refine unserved_congr fun x queued => ?_
      rw [unlink_http, if_neg]
      rintro rfl
      exact w.alone queued b linked
    · rw [downloadFinished_next linked home connected empty, run, Option.map_some]
      cases (r.list l).pending <;> rfl

theorem serve_list (rest : List HttpId) : (serve system l b h rest p).list =
    Function.update p.list l { p.list l with pending := rest } :=
  (SameLinks.readyToWrite system h).list

theorem readyToWrite_keeps : (readyToWrite system h p).backend = p.backend ∧
    (readyToWrite system h p).addressTo = p.addressTo ∧
    (readyToWrite system h p).newBackend = p.newBackend ∧
    (readyToWrite system h p).toDelete = p.toDelete := by
  unfold readyToWrite
  split <;> exact ⟨rfl, rfl, rfl, rfl⟩

theorem serve_backend (rest : List HttpId) : (serve system l b h rest p).backend =
    Function.update p.backend b { p.backend b with http := some h } := by
  unfold serve
  rw [readyToWrite_keeps.1]
  rfl

theorem park_keeps : (park l b p).backend = p.backend ∧ (park l b p).addressTo = p.addressTo ∧
    (park l b p).newBackend = p.newBackend := by
  unfold park
  split <;> exact ⟨rfl, rfl, rfl⟩

theorem park_list : (park l b p).list = Function.update p.list l { p.list l with
    idle := if (p.backend b).isValid then (p.list l).idle ++ [b] else (p.list l).idle } := by
  unfold park
  split
  · rfl
  · exact (Function.update_eq_self l p.list).symm

def finishedBackend (p : Pool) (b : BackendId) (waiting : List HttpId) : Backend :=
  if (p.backend b).wasTCPConnected then
    { p.backend b with http := (unserved p waiting).head? }
  else { p.backend b with http := none, isValid := false }

/-- The pools that differ in their Http objects only. -/
structure Ended (l : ListId) (x : BackendList) (b : BackendId) (y : Backend) (p p' : Pool) :
    Prop where
  newBackend : p'.newBackend = p.newBackend
  addressTo : p'.addressTo = p.addressTo
  list : p'.list = Function.update p.list l x
  backend : p'.backend = Function.update p.backend b y

variable (system) in
theorem downloadFinished_outcome (d : Dismisses disconnect) (w : WellFormed limit none p)
    (linked : (p.backend b).http = some h) (home : (p.backend b).backendList = some l)
    (run : downloadFinished disconnect system b p = some p') :
    Ended l (finishedList p b (p.list l)) b (finishedBackend p b (p.list l).pending) p p' := by
  unfold finishedList finishedBackend
  cases connected : (p.backend b).wasTCPConnected with
  | false =>
    obtain ⟨r, -, discards, left, result⟩ :=
      downloadFinished_unanswered system d w linked home connected
    have same : SameLinks _ (abandon l b h p) := abandon_same
    have shut_same : SameLinks (abandon l b h p) _ := .shut b
    have once := (List.nodup_append.mp (w.nodup l)).1
    rw [result, Option.some.injEq] at run
    rw [← run]
    refine ⟨?_, ?_, ?_, ?_⟩
    · exact discards.newBackend.trans (shut_same.newBackend.trans same.newBackend)
    · exact discards.addressTo.trans (shut_same.addressTo.trans same.addressTo)
    · rw [discards.list_eq left, leaveBusy_list, shut_same.list, same.list, leaveBusy_list]
      simp only [Function.update_self, Function.update_idem]
      dsimp only [unlink_list]
      rw [List.erase_of_not_mem once.not_mem_erase]
      rfl
    · rw [discards.backend]
      change (shut b (abandon l b h p)).backend = _
      rw [shut_backends, abandon_backend, Function.update_self, Function.update_idem]
      rfl
  | true =>
    obtain ⟨r, -, discards, left, result⟩ :=
      downloadFinished_answered system d w linked home connected
    rw [result, Option.some.injEq] at run
    rw [← run, ← left]
    simp only [if_true]
    have taken : r.backend = Function.update p.backend b { p.backend b with http := none } :=
      discards.backend
    cases stops : (r.list l).pending with
    | nil =>
      refine ⟨?_, ?_, ?_, ?_⟩
      · exact (park_keeps (l := l)).2.2.trans discards.newBackend
      · exact park_keeps.2.1.trans discards.addressTo
      · rw [park_list, leaveBusy_list, discards.list_eq stops]
        simp only [Function.update_self, Function.update_idem, leaveBusy_backend, taken]
        rfl
      · exact park_keeps.1.trans taken
    | cons x rest =>
      refine ⟨?_, ?_, ?_, ?_⟩
      · exact readyToWrite_keeps.2.2.1.trans discards.newBackend
      · exact readyToWrite_keeps.2.1.trans discards.addressTo
      · rw [serve_list, discards.list_eq stops]
        simp only [Function.update_self, Function.update_idem]
        rfl
      · rw [serve_backend, taken]
        simp only [Function.update_self, Function.update_idem]
        rfl

variable (system) in
theorem disconnectBackend_outcome (w : WellFormed limit none p) (own : (p.http h).backend = some b)
    (home : (p.backend b).backendList = some l) (depth : ℕ) (fromDestructor : Bool)
    (run : disconnectBackend system (depth + 2) fromDestructor h p = some p') :
    Ended l (finishedList p b (p.list l)) b (finishedBackend p b (p.list l).pending) p p' := by
  rw [disconnectBackend, own] at run
  obtain ⟨q, finished, rfl⟩ := Option.map_eq_some_iff.mp run
  obtain ⟨newBackend, addressTo, list, backend⟩ := downloadFinished_outcome system
    (disconnectBackend_dismisses depth) w (w.back h b own) home finished
  obtain ⟨-, -, -, lists, backends, -⟩ := retire_unchanged (h := h) (p := q) fromDestructor
  obtain ⟨addresses, new⟩ := retire_kept (h := h) (p := q) fromDestructor
  exact ⟨new.trans newBackend, addresses.trans addressTo, lists.trans list, backends.trans backend⟩

variable (system) in
theorem disconnectBackend_queued (waits : (p.http h).backend = none) (depth : ℕ)
    (fromDestructor : Bool)
    (run : disconnectBackend system (depth + 1) fromDestructor h p = some p') :
    p'.newBackend = p.newBackend ∧ p'.addressTo = p.addressTo ∧ p'.backend = p.backend ∧
      p'.list = (leavePending h p).list := by
  rw [disconnectBackend_waiting depth fromDestructor waits, Option.some.injEq] at run
  rw [← run]
  obtain ⟨-, -, -, lists, backends, -⟩ :=
    retire_unchanged (h := h) (p := leavePending h p) fromDestructor
  obtain ⟨addresses, new⟩ := retire_kept (h := h) (p := leavePending h p) fromDestructor
  exact ⟨new.trans leavePending_kept.2.1, addresses.trans leavePending_kept.1,
    backends.trans leavePending_kept.2.2, lists⟩

theorem leavePending_unqueued (unqueued : ∀ l, h ∉ (p.list l).pending) :
    (leavePending h p).list = p.list := by
  unfold leavePending
  split
  · rfl
  · rename_i l _
    dsimp only [setList]
    rw [List.erase_of_not_mem (unqueued l), Function.update_eq_self]

/-! A backend that has been silent for too long. -/

theorem closedList_congr {x : BackendList} (newBackend : p'.newBackend = p.newBackend)
    (connected : (p'.backend b).wasTCPConnected = (p.backend b).wasTCPConnected) :
    closedList system p' b x = closedList system p b x := by
  unfold closedList
  rw [connected, reassignedList_congr newBackend]

theorem finishedBackend_connected (waiting : List HttpId) :
    (finishedBackend p b waiting).wasTCPConnected = (p.backend b).wasTCPConnected ∧
      (finishedBackend p b waiting).backendList = (p.backend b).backendList := by
  unfold finishedBackend
  split <;> exact ⟨rfl, rfl⟩

theorem finishedList_dismissed (unqueued : h ∉ (p.list l).pending) :
    finishedList (disconnectFrontend h (backendError h p)) b (p.list l) =
      finishedList p b (p.list l) := by
  have backends : (disconnectFrontend h (backendError h p)).backend = p.backend :=
    backendError_unchanged.2.1
  have queue : unserved (disconnectFrontend h (backendError h p)) (p.list l).pending =
      unserved p (p.list l).pending := by
    refine unserved_congr fun x queued => ?_
    have other : x ≠ h := by
      rintro rfl
      exact unqueued queued
    simpa [disconnectFrontend, other] using backendError_unchanged.2.2 x other
  unfold finishedList
  rw [backends, queue]

/-- The two halves of an expired time-out: the request is ended, then the backend closed. -/
theorem overdue_halves (w : WellFormed limit none p) (linked : (p.backend b).http = some h)
    (overdue : Overdue system b p) (depth : ℕ)
    (run : backendTimeout system (depth + 2) b p = some p') :
    ∃ q, disconnectBackend system (depth + 2) false h
        (disconnectFrontend h (backendError h p)) = some q ∧ WellFormed limit none q ∧
      remoteSocketClosed (disconnectBackend system (depth + 2) false) system b (close b q) =
        some p' := by
  rw [backendTimeout, linked] at run
  dsimp only at run
  rw [if_neg (Nat.not_lt.mpr overdue)] at run
  obtain ⟨q, ended, closed⟩ := Option.bind_eq_some_iff.mp run
  have same : SameLinks p (disconnectFrontend h (backendError h p)) := .dismissed h
  exact ⟨q, ended, disconnectBackend_wellFormed (same.wellFormed w) depth ended, closed⟩

theorem closed_after {q : Pool} {x : BackendList} (d : Dismisses disconnect)
    (w : WellFormed limit none q) (newBackend : q.newBackend = p.newBackend)
    (connected : (q.backend b).wasTCPConnected = (p.backend b).wasTCPConnected)
    (home : (q.backend b).backendList = some l) (list : q.list = Function.update p.list l x)
    (run : remoteSocketClosed disconnect system b (close b q) = some p') :
    p'.addressTo = q.addressTo ∧
      p'.list = Function.update p.list l (closedList system p b x) := by
  obtain ⟨addressTo, lists⟩ := remoteSocketClosed_outcome (l := l) system d
    ((SameLinks.close b).wellFormed w) (by simpa [close] using home) run
  refine ⟨addressTo, ?_⟩
  rw [lists]
  change Function.update q.list l (closedList system (close b q) b (q.list l)) = _
  rw [list, Function.update_self, Function.update_idem]
  refine congrArg _ (closedList_congr newBackend ?_)
  simpa [close] using connected

/-- A clock that has stepped back is followed, and nothing else happens. -/
theorem backendTimeout_early (linked : (p.backend b).http = some h) (early : ¬Overdue system b p)
    (depth : ℕ) : backendTimeout system depth b p = some (setBackend b ({ · with
      lastReceivedBytesTimestamps :=
        min (p.backend b).lastReceivedBytesTimestamps system.currentTime }) p) := by
  unfold backendTimeout
  rw [linked]
  exact if_pos (Nat.not_le.mp early)

theorem httpTimeout_overdue (overdue : HttpOverdue system h p) (depth : ℕ) :
    httpTimeout system depth h p = match (p.http h).backend with
      | some b => some (close b (disconnectFrontend h p))
      | none => disconnectBackend system depth false h (disconnectFrontend h p) := by
  have same : SameLinks p (disconnectFrontend h p) := .disconnectFrontend h
  unfold httpTimeout
  dsimp only
  rw [if_neg (Nat.not_lt.mpr overdue)]
  cases own : (p.http h).backend <;> simp only [(same.http h).1, own]

theorem httpTimeout_early (early : ¬HttpOverdue system h p) (depth : ℕ) :
    httpTimeout system depth h p = some (setHttp h ({ · with
      lastReceivedBytesTimestamps :=
        min (p.http h).lastReceivedBytesTimestamps system.currentTime }) p) := by
  unfold httpTimeout
  dsimp only
  exact if_pos (Nat.not_le.mp early)

variable (system) in
theorem disconnectBackend_keeps (w : WellFormed limit none p) (own : (p.http h).backend = some b)
    (depth : ℕ) (fromDestructor : Bool)
    (run : disconnectBackend system (depth + 2) fromDestructor h p = some p') :
    (p'.backend b).wasTCPConnected = (p.backend b).wasTCPConnected ∧
      (p'.backend b).backendList = (p.backend b).backendList := by
  obtain ⟨l, home⟩ := w.homed b h (w.back h b own)
  have ended := disconnectBackend_outcome system w own home depth fromDestructor run
  rw [ended.backend, Function.update_self]
  exact finishedBackend_connected _

variable (system) in
theorem backendTimeout_own (w : WellFormed limit none p) (own : (p.http h).backend = some b)
    (home : (p.backend b).backendList = some l) (overdue : Overdue system b p) (depth : ℕ)
    (run : backendTimeout system (depth + 2) b p = some p') : p'.addressTo = p.addressTo ∧
      p'.list = Function.update p.list l
        (closedList system p b (finishedList p b (p.list l))) := by
  have linked := w.back h b own
  obtain ⟨q, ended, wq, closed⟩ := overdue_halves w linked overdue depth run
  have same : SameLinks p (disconnectFrontend h (backendError h p)) := .dismissed h
  have backends : (disconnectFrontend h (backendError h p)).backend = p.backend :=
    backendError_unchanged.2.1
  obtain ⟨newBackend, addressTo, list, -⟩ := disconnectBackend_outcome system
    (same.wellFormed w) (((same.http h).1).trans own) (by rw [backends]; exact home) depth false
    ended
  obtain ⟨connected, home'⟩ := disconnectBackend_keeps system (same.wellFormed w)
    (((same.http h).1).trans own) depth false ended
  rw [backends] at connected home'
  rw [same.list, finishedList_dismissed fun queued => w.alone queued b linked] at list
  obtain ⟨addresses, lists⟩ := closed_after (disconnectBackend_dismisses (depth + 1)) wq
    (newBackend.trans same.newBackend) connected (home'.trans home) list closed
  exact ⟨addresses.trans (addressTo.trans same.addressTo), lists⟩

variable (system) in
theorem backendTimeout_stale (w : WellFormed limit none p) (linked : (p.backend b).http = some h)
    (left : (p.http h).backend = none) (home : (p.backend b).backendList = some l)
    (overdue : Overdue system b p) (depth : ℕ)
    (run : backendTimeout system (depth + 2) b p = some p') : p'.addressTo = p.addressTo ∧
      p'.list = Function.update p.list l (closedList system p b (p.list l)) := by
  obtain ⟨q, ended, wq, closed⟩ := overdue_halves w linked overdue depth run
  have same : SameLinks p (disconnectFrontend h (backendError h p)) := .dismissed h
  have backends : (disconnectFrontend h (backendError h p)).backend = p.backend :=
    backendError_unchanged.2.1
  obtain ⟨newBackend, addressTo, backend, list⟩ := disconnectBackend_queued system
    (((same.http h).1).trans left) (depth + 1) false ended
  have lists : q.list = p.list := by
    rw [list, leavePending_unqueued, same.list]
    intro l' queued
    rw [same.list] at queued
    exact w.alone queued b linked
  rw [backends] at backend
  obtain ⟨addresses, closedLists⟩ := closed_after (p := p) (l := l)
    (disconnectBackend_dismisses (depth + 1)) wq (newBackend.trans same.newBackend)
    (by rw [backend]) (by rw [backend, home]) (by rw [lists, Function.update_eq_self]) closed
  exact ⟨addresses.trans (addressTo.trans same.addressTo), closedLists⟩

section queue

/-- Two requests for one connection, which is lost behind the status line of the first. -/
def lostConnection : List (System × Event) :=
  [(DeadOrigin.connecting, .dnsRight ⟨false, [99], [97], [47], [], 7⟩ ⟨.zero, 80⟩),
    (DeadOrigin.connecting, .dnsRight ⟨false, [100], [97], [48], [], 8⟩ ⟨.zero, 80⟩),
    (DeadOrigin.connecting, .statusLine 0 200), (DeadOrigin.connecting, .remoteSocketClosed 0)]

def lost (n : ℕ) : Pool :=
  (lostConnection.take n).foldl (fun p e => (perform e.1 0 e.2 p).getD p) (initial 1)

theorem lost_step : ∀ n e, lostConnection[n]? = some e → Step e (lost n) (lost (n + 1))
  | 0, _, rfl | 1, _, rfl => ⟨trivial, 0, fun _ => rfl⟩
  | 2, _, rfl => ⟨⟨Nat.zero_lt_succ 1, 0, rfl, rfl⟩, 0, fun _ => rfl⟩
  | 3, _, rfl => ⟨Nat.zero_lt_one, 0, fun _ => rfl⟩

theorem lost_wellFormed (n : ℕ) : WellFormed 1 none (lost n) := by
  induction n with
  | zero => exact initial_wellFormed (Nat.le_refl 1)
  | succ n ih =>
    cases found : lostConnection[n]? with
    | none =>
      have same : lost (n + 1) = lost n := by
        rw [lost, lost, List.take_add_one, found, Option.toList_none, List.append_nil]
      exact same ▸ ih
    | some e => exact step_wellFormed ih (lost_step n e found)

end queue

end FastCgiCdn.PoolOutcomes
