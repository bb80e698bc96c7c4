import FastCgiCdn.GuardedRuns
import FastCgiCdn.PoolInvariant

/-! The operations of the pool as moves on the links, and the invariant over
whole runs. `disconnectBackend` re-enters itself for queued objects only, which
are answered without another re-entrance, so every event returns. -/

namespace FastCgiCdn.PoolWellFormed

open GuardedRuns DnsModel PoolModel Pool PoolInvariant

variable {limit : ℕ}

/-- What changes when queued objects are dismissed. -/
structure Drains (p p' : Pool) : Prop where
  maxBackend : p'.maxBackend = p.maxBackend
  newHttp : p'.newHttp = p.newHttp
  newList : p'.newList = p.newList
  backend : ∀ b, p'.backend b = p.backend b
  busy : ∀ l, (p'.list l).busy = (p.list l).busy
  idle : ∀ l, (p'.list l).idle = (p.list l).idle
  pending : ∀ l, (p'.list l).pending.Sublist (p.list l).pending
  http : ∀ h, (∀ l, h ∉ (p.list l).pending) → p'.http h = p.http h

theorem Drains.refl (p : Pool) : Drains p p :=
  ⟨rfl, rfl, rfl, fun _ => rfl, fun _ => rfl, fun _ => rfl, fun _ => .refl _, fun _ _ => rfl⟩

theorem Drains.trans {p p' p'' : Pool} (d : Drains p p') (e : Drains p' p'') : Drains p p'' where
  maxBackend := e.maxBackend.trans d.maxBackend
  newHttp := e.newHttp.trans d.newHttp
  newList := e.newList.trans d.newList
  backend b := (e.backend b).trans (d.backend b)
  busy l := (e.busy l).trans (d.busy l)
  idle l := (e.idle l).trans (d.idle l)
  pending l := (e.pending l).trans (d.pending l)
  http h left := (e.http h fun l member => left l ((d.pending l).subset member)).trans (d.http h left)

section dismissal

variable {p : Pool} {held : Option BackendId} {b : BackendId} {h : HttpId} {l : ListId}

theorem unregister_unchanged : (unregister h p).maxBackend = p.maxBackend ∧
    (unregister h p).newHttp = p.newHttp ∧ (unregister h p).newList = p.newList ∧
    (unregister h p).list = p.list ∧ (unregister h p).http = p.http ∧
    (unregister h p).backend = p.backend := by
  unfold unregister
  split <;> exact ⟨rfl, rfl, rfl, rfl, rfl, rfl⟩

theorem retire_unchanged (fromDestructor : Bool) :
    (retire fromDestructor h p).maxBackend = p.maxBackend ∧
    (retire fromDestructor h p).newHttp = p.newHttp ∧
    (retire fromDestructor h p).newList = p.newList ∧
    (retire fromDestructor h p).list = p.list ∧
    (retire fromDestructor h p).backend = p.backend ∧
    ∀ x, x ≠ h → (retire fromDestructor h p).http x = p.http x := by
  unfold retire
  dsimp only
  split
  all_goals
    simp only [setHttp, unregister_unchanged, true_and]
    intro x other
    simp [Function.update_of_ne other]

theorem retire_http (fromDestructor : Bool) :
    ((retire fromDestructor h p).http h).isAlive = false ∧
      ((retire fromDestructor h p).http h).clientsList = (p.http h).clientsList := by
  unfold retire
  dsimp only
  split
  all_goals
    simp [Http.isAlive, unregister_unchanged]

theorem backendError_unchanged : (backendError h p).list = p.list ∧
    (backendError h p).backend = p.backend ∧ ∀ x, x ≠ h → (backendError h p).http x = p.http x := by
  refine ⟨?_, ?_, fun x other => ?_⟩
  · exact (SameLinks.backendError h).list
  · simp [backendError, setHttp, unregister_unchanged]
  · simp [backendError, other, unregister_unchanged]

theorem dismiss_list (x : ListId) : ((dismiss h p).list x).busy = (p.list x).busy ∧
    ((dismiss h p).list x).idle = (p.list x).idle ∧
    ((dismiss h p).list x).pending.Sublist (p.list x).pending := by
  have same : SameLinks p _ := SameLinks.dismissed h
  unfold dismiss
  rw [(retire_unchanged false).2.2.2.1, (leavePending_list x).1, (leavePending_list x).2.1,
    (leavePending_list x).2.2, same.list]
  refine ⟨rfl, rfl, ?_⟩
  split
  · exact List.erase_sublist
  · exact .refl _

theorem dismiss_queue (w : WellFormed limit held p)
    (queued : h ∈ (p.list l).pending) :
    ((dismiss h p).list l).pending = (p.list l).pending.erase h := by
  have same : SameLinks p _ := SameLinks.dismissed h
  unfold dismiss
  rw [(retire_unchanged false).2.2.2.1, (leavePending_list l).2.2, (same.http h).2.1,
    (w.pending l h queued).2, if_pos rfl, same.list]

theorem errorPending_backend : (errorPending l p).backend = p.backend := by
  unfold errorPending
  generalize (p.list l).pending = waiting
  induction waiting generalizing p with
  | nil => rfl
  | cons h waiting ih => exact ih.trans backendError_unchanged.2.1

theorem Drains.dismiss {q : Pool} (drained : Drains q p) (queued : h ∈ (q.list l).pending) :
    Drains q (dismiss h p) := by
  have same : SameLinks p _ := SameLinks.dismissed h
  obtain ⟨max, newHttp, newList, -, backends, https⟩ :=
    retire_unchanged (h := h) (p := leavePending h (disconnectFrontend h (backendError h p))) false
  refine ⟨max.trans ?_, newHttp.trans ?_, newList.trans ?_, fun x => ?_,
    fun x => (dismiss_list x).1.trans (drained.busy x),
    fun x => (dismiss_list x).2.1.trans (drained.idle x),
    fun x => (dismiss_list x).2.2.trans (drained.pending x), fun x left => ?_⟩
  · rw [← drained.maxBackend, ← same.maxBackend]
    unfold leavePending
    split <;> rfl
  · rw [← drained.newHttp, ← same.newHttp]
    unfold leavePending
    split <;> rfl
  · rw [← drained.newList, ← same.newList]
    unfold leavePending
    split <;> rfl
  · unfold PoolInvariant.dismiss
    rw [backends, leavePending_backend, ← drained.backend]
    exact congrFun backendError_unchanged.2.1 x
  · have other : x ≠ h := by
      rintro rfl
      exact left l queued
    rw [← drained.http x left]
    unfold PoolInvariant.dismiss
    rw [https x other, leavePending_http]
    simpa [disconnectFrontend, other] using backendError_unchanged.2.2 x other

end dismissal

section operations

variable {system : System} {disconnect : HttpId → Pool → Option Pool}
variable {p : Pool} {held : Option BackendId} {b : BackendId} {h : HttpId} {l : ListId}

def Dismisses (disconnect : HttpId → Pool → Option Pool) : Prop :=
  ∀ h p, (p.http h).backend = none → disconnect h p = some (retire false h (leavePending h p))

theorem disconnectBackend_waiting (depth : ℕ) (fromDestructor : Bool)
    (waits : (p.http h).backend = none) :
    disconnectBackend system (depth + 1) fromDestructor h p =
      some (retire fromDestructor h (leavePending h p)) := by
  simp [disconnectBackend, waits]

theorem disconnectBackend_dismisses (depth : ℕ) :
    Dismisses (disconnectBackend system (depth + 1) false) :=
  fun _ _ waits => disconnectBackend_waiting depth false waits

theorem Dismisses.dismiss (d : Dismisses disconnect) (waits : (p.http h).backend = none) :
    disconnect h (disconnectFrontend h (backendError h p)) = some (dismiss h p) := by
  refine d h _ ?_
  rw [((SameLinks.dismissed h).http h).1, waits]

theorem failPending_drains (d : Dismisses disconnect) (w : WellFormed limit held p) (fuel index : ℕ)
    (positive : 0 < fuel) (enough : (p.list l).pending.length < fuel + index) :
    ∃ p', failPending disconnect l fuel index p = some p' ∧ WellFormed limit held p' ∧ Drains p p' := by
  induction fuel generalizing p index with
  | zero => omega
  | succ fuel ih =>
    unfold failPending
    split
    · exact ⟨p, rfl, w, .refl p⟩
    · rename_i h found
      obtain ⟨inside, rfl⟩ := List.getElem?_eq_some_iff.mp found
      have member := List.getElem_mem inside
      have waits := (w.pending l _ member).1
      have drained : Drains p _ := (Drains.refl p).dismiss member
      have shorter := (drained.pending l).length_le
      obtain ⟨p', run, w', d'⟩ := ih (w.dismiss waits) (index + 1) (by omega) (by omega)
      exact ⟨p', by rw [d.dismiss waits, Option.bind_some, run], w', drained.trans d'⟩

theorem failPending_single (d : Dismisses disconnect)
    (w : WellFormed limit held p) (queue : (p.list l).pending = [h]) :
    failPending disconnect l 2 0 p = some (dismiss h p) ∧
      ((dismiss h p).list l).pending = [] := by
  have queued : h ∈ (p.list l).pending := by simp [queue]
  have emptied : ((dismiss h p).list l).pending = [] := by
    rw [dismiss_queue w queued, queue]
    simp
  refine ⟨?_, emptied⟩
  simp only [failPending, queue, List.getElem?_cons_zero, d.dismiss (w.pending l h queued).1,
    Option.bind_some, emptied, List.getElem?_nil]

theorem Drains.pop {rest : List HttpId} (queue : (p.list l).pending = h :: rest) :
    Drains p (setHttp h ({ · with pending := true }) (setList l ({ · with pending := rest }) p)) := by
  refine ⟨rfl, rfl, rfl, fun _ => rfl, fun x => ?_, fun x => ?_, fun x => ?_, fun x left => ?_⟩
  · by_cases own : x = l <;> simp [own]
  · by_cases own : x = l <;> simp [own]
  · by_cases own : x = l
    · simp [own, queue]
    · simp [own]
  · have other : x ≠ h := by
      rintro rfl
      exact left l (by simp [queue])
    simp [other]

variable (system) in
/-- The search of `downloadFinished` either serves one queued object or empties
the queue. It leaves alone every object that was not queued. -/
theorem serveNext_returns (d : Dismisses disconnect) (w : WellFormed limit (some b) p)
    (free : (p.backend b).http = none) (home : (p.backend b).backendList = some l)
    (notIdle : b ∉ (p.list l).idle)
    (carried : b ∈ (p.list l).busy ∨ (p.backend b).isValid = false) (fuel : ℕ)
    (some_waits : (p.list l).pending ≠ []) (enough : (p.list l).pending.length ≤ fuel) :
    ∃ found p', serveNext disconnect system b l fuel p = some (found, p') ∧
      (if found then WellFormed limit none p' else
        WellFormed limit (some b) p' ∧ (p'.list l).pending = [] ∧ Drains p p') ∧
      (∀ l, (p'.list l).pending.Sublist (p.list l).pending) ∧
      ((p.backend b).wasTCPConnected = true → (p'.backend b).wasTCPConnected = true) ∧
      ∀ h, (∀ l, h ∉ (p.list l).pending) → p'.http h = p.http h := by
  induction fuel generalizing p with
  | zero =>
    have waits := List.length_pos_iff.mpr some_waits
    omega
  | succ fuel ih =>
    unfold serveNext
    split
    · contradiction
    · rename_i h rest queue
      have queued : h ∈ (p.list l).pending := by simp [queue]
      let q := setHttp h ({ · with pending := true }) (setList l ({ · with pending := rest }) p)
      have popped : Drains p q := .pop queue
      have w' : WellFormed limit (some b) q :=
        (SameLinks.setHttp ⟨rfl, rfl, id, id⟩).wellFormed (w.setPending (by simp [queue]))
      have loose : Loose h q := w.loose_front queue
      change ∃ found p', (if (q.http h).haveUrlAndFrontendConnected then
        some (true, readyToWrite system h (link b h q)) else
        (disconnect h (disconnectFrontend h (backendError h q))).bind fun p =>
          if (p.list l).pending.isEmpty then some (false, p) else
            serveNext disconnect system b l fuel p) = some (found, p') ∧ _
      split
      · refine ⟨true, _, rfl, ?_, fun x => ?_, fun connected => ?_, fun x left => ?_⟩
        · exact (SameLinks.readyToWrite system h).wellFormed (w'.link (l := l) free home
            (by simpa [q] using notIdle) (by simpa [q] using carried) loose)
        · rw [(SameLinks.readyToWrite system h).list]
          exact popped.pending x
        · refine ((SameLinks.readyToWrite system h).backend b).2.2.2 ?_
          simpa [q] using connected
        · have other : x ≠ h := by
            rintro rfl
            exact left l queued
          rw [← popped.http x left]
          unfold readyToWrite
          split <;> simp [other]
      · have dropped : Drains p (dismiss h q) := popped.dismiss queued
        rw [d.dismiss loose.waits, Option.bind_some]
        split
        · rename_i emptied
          exact ⟨false, _, rfl, ⟨w'.dismiss loose.waits, by simpa using emptied, dropped⟩,
            dropped.pending, by simp [dropped.backend], dropped.http⟩
        · rename_i more
          have shorter : ((dismiss h q).list l).pending.length ≤ rest.length := by
            simpa [q] using (dismiss_list (h := h) (p := q) l).2.2.length_le
          obtain ⟨found, p', run, result, fewer, answered, kept⟩ := ih (w'.dismiss loose.waits)
            (by rw [dropped.backend, free]) (by rw [dropped.backend, home])
            (by rw [dropped.idle]; exact notIdle) (by rw [dropped.backend, dropped.busy]; exact carried)
            (by simpa using more) (by rw [queue, List.length_cons] at enough; omega)
          rw [dropped.backend] at answered
          refine ⟨found, p', run, ?_, fun x => (fewer x).trans (dropped.pending x), answered,
            fun x left => ?_⟩
          · cases found with
            | true => exact result
            | false => exact ⟨result.1, result.2.1, dropped.trans result.2.2⟩
          · rw [kept x fun x' member => left x' ((dropped.pending x').subset member),
              dropped.http x left]

theorem shut_backend : (shut b p).backend b = { p.backend b with isValid := false } := by
  unfold shut
  split
  · simp [close]
  · unfold resetRequestSended
    split <;> simp [close]

theorem shut_http (free : (p.backend b).http = none) : (shut b p).http = p.http := by
  unfold shut
  rw [free]
  rfl

variable (system) in
theorem remoteSocketClosed_unconnected (d : Dismisses disconnect) (w : WellFormed limit none p)
    (unanswered : (p.backend b).wasTCPConnected = false) :
    ∃ p', remoteSocketClosed disconnect system b p = some p' ∧ WellFormed limit none p' ∧
      ((p.backend b).http = none → (∀ l, (p'.list l).pending.Sublist (p.list l).pending) ∧
        ∀ h, (∀ l, h ∉ (p.list l).pending) → p'.http h = p.http h) := by
  have same : SameLinks p (shut b p) := .shut b
  have closed : (shut b p).backend b = _ := shut_backend
  have still : (p.backend b).http = none → (shut b p).http = p.http := shut_http
  unfold remoteSocketClosed
  generalize shut b p = q at same closed still ⊢
  have wq : WellFormed limit none q := same.wellFormed w
  dsimp only
  rw [closed]
  dsimp only
  split
  · refine ⟨q, rfl, wq, fun free => ⟨fun l => ?_, fun h _ => ?_⟩⟩
    · rw [same.list]
    · rw [still free]
  · rename_i l home
    rw [unanswered]
    simp only [Bool.not_false, if_true]
    have wl : WellFormed limit none (leaveBusy l b q) := wq.leaveBusy (.inr (.inl (by rw [closed])))
    have gone : ∀ l', b ∉ ((leaveBusy l b q).list l').busy :=
      wq.not_mem_leaveBusy (by rw [closed]; exact home)
    obtain ⟨r, run, wr, drained⟩ : ∃ r, (if (!((leaveBusy l b q).list l).pending.isEmpty &&
        ((leaveBusy l b q).list l).busy.isEmpty) = true then
          failPending disconnect l (((leaveBusy l b q).list l).pending.length + 1) 0 (leaveBusy l b q)
        else some (leaveBusy l b q)) = some r ∧ WellFormed limit none r ∧ Drains (leaveBusy l b q) r := by
      split
      · exact failPending_drains d wl _ _ (Nat.succ_pos _) (Nat.lt_succ_self _)
      · exact ⟨_, rfl, wl, .refl _⟩
    have name : (r.backend b).http = (p.backend b).http := by
      rw [drained.backend]
      change (q.backend b).http = _
      rw [closed]
    rw [run, Option.map_some, name]
    split
    · refine ⟨r, rfl, wr, fun free => ⟨fun l' => ?_, fun h left => ?_⟩⟩
      · refine (drained.pending l').trans ?_
        rw [← same.list]
        by_cases own : l' = l <;> simp [leaveBusy, own]
      · rw [drained.http h, ← still free]
        · rfl
        · intro l' member
          refine left l' ?_
          rw [← same.list]
          by_cases own : l' = l <;> simpa [leaveBusy, own] using member
    · rename_i h linked
      refine ⟨_, rfl, wr.forget (name.trans linked) fun l' member => ?_, fun free => ?_⟩
      · exact gone l' (drained.busy l' ▸ member)
      · rw [free] at linked
        cases linked

/-- An unanswered backend leaves its request, and the queue is told when it was the
last of its list. -/
def abandon (l : ListId) (b : BackendId) (h : HttpId) (p : Pool) : Pool :=
  let q := leaveBusy l b p
  let r := if !(q.list l).pending.isEmpty && (q.list l).busy.isEmpty then errorPending l q else q
  close b (setBackend b ({ · with http := none })
    (backendError h (setHttp h ({ · with backend := none }) r)))

variable (disconnect system) in
theorem downloadFinished_unconnected (linked : (p.backend b).http = some h)
    (home : (p.backend b).backendList = some l)
    (unanswered : (p.backend b).wasTCPConnected = false) :
    downloadFinished disconnect system b p =
      remoteSocketClosed disconnect system b (abandon l b h p) := by
  have told : (if !((leaveBusy l b p).list l).pending.isEmpty &&
      ((leaveBusy l b p).list l).busy.isEmpty then errorPending l (leaveBusy l b p)
      else leaveBusy l b p).backend = p.backend := by
    split
    · exact errorPending_backend
    · rfl
  unfold downloadFinished abandon
  simp only [home, unanswered, Bool.not_false, if_true, told, linked]

theorem abandon_backend : (abandon l b h p).backend =
    Function.update p.backend b { p.backend b with http := none, isValid := false } := by
  funext x
  unfold abandon
  dsimp only
  split
  all_goals
    by_cases own : x = b <;>
      simp [own, close, backendError_unchanged, errorPending_backend]

theorem abandon_taken (unanswered : (p.backend b).wasTCPConnected = false) :
    ((abandon l b h p).backend b).http = none ∧
      ((abandon l b h p).backend b).wasTCPConnected = false := by
  rw [abandon_backend, Function.update_self]
  exact ⟨rfl, unanswered⟩

theorem abandon_same : SameLinks (leaveBusy l b (unlink b h p)) (abandon l b h p) := by
  let q := leaveBusy l b p
  have told : SameLinks q (if !(q.list l).pending.isEmpty && (q.list l).busy.isEmpty then
      errorPending l q else q) := by
    split
    · exact .errorPending l
    · exact .refl q
  exact ((told.unlink b h).trans ((SameLinks.backendError h).takeRequest b)).trans (.close b)

theorem abandon_quiet : ((abandon l b h p).http h).clientsList = [] := by
  simp [abandon, close, backendError, unregister_unchanged]

theorem downloadFinished_idle (linked : (p.backend b).http = some h)
    (home : (p.backend b).backendList = some l)
    (connected : (p.backend b).wasTCPConnected = true) (empty : (p.list l).pending = []) :
    downloadFinished disconnect system b p = some (park l b (leaveBusy l b (unlink b h p))) := by
  unfold downloadFinished park
  simp only [home, connected, linked, empty, Bool.not_true, Bool.false_eq_true, if_false,
    List.isEmpty_nil, if_true]
  by_cases valid : (p.backend b).isValid = true
  · simp [leaveBusy, unlink, valid, setBackend, setHttp, setList]
  · simp [leaveBusy, unlink, valid, setBackend, setHttp, setList]

theorem downloadFinished_next (linked : (p.backend b).http = some h)
    (home : (p.backend b).backendList = some l)
    (connected : (p.backend b).wasTCPConnected = true) (waiting : (p.list l).pending ≠ []) :
    downloadFinished disconnect system b p =
      (serveNext disconnect system b l ((p.list l).pending.length + 1) (unlink b h p)).map
        fun r => if r.1 then r.2 else park l b (leaveBusy l b r.2) := by
  unfold downloadFinished
  rw [home]
  simp only [connected, linked, Bool.not_true, Bool.false_eq_true, if_false]
  rw [if_neg (by simpa using waiting)]
  rfl

variable (system) in
/-- What `disconnectBackend` relies on: the object it is called for has left its
backend and is not queued. -/
theorem downloadFinished_returns (d : Dismisses disconnect) (w : WellFormed limit none p)
    (own : (p.http h).backend = some b) :
    ∃ p', downloadFinished disconnect system b p = some p' ∧ WellFormed limit none p' ∧
      (p'.http h).backend = none ∧ (∀ l, h ∉ (p'.list l).pending) ∧
      ((p.http h).clientsList = [] → (p'.http h).clientsList = []) := by
  have linked := w.back h b own
  have unqueued : ∀ l, h ∉ (p.list l).pending := by
    intro l member
    rw [(w.pending l h member).1] at own
    cases own
  obtain ⟨l, home⟩ := w.homed b h linked
  obtain ⟨notIdle, carried⟩ := w.of_linked linked home
  have taken : WellFormed limit (some b) (unlink b h p) := w.hold.unlink linked
  cases connected : (p.backend b).wasTCPConnected with
  | false =>
    have run := downloadFinished_unconnected system disconnect linked home connected
    have same : SameLinks _ (abandon l b h p) := abandon_same
    have quiet : ((abandon l b h p).http h).clientsList = [] := abandon_quiet
    obtain ⟨free, unanswered⟩ := abandon_taken (l := l) (h := h) connected
    generalize abandon l b h p = s at run same quiet free unanswered
    have ws : WellFormed limit none s := same.wellFormed
      ((taken.leaveBusy (.inl rfl)).release (by simp) (taken.not_mem_leaveBusy (by simpa using home)))
    obtain ⟨p', run', w', kept⟩ := remoteSocketClosed_unconnected system d ws unanswered
    obtain ⟨fewer, kept⟩ := kept free
    have left : ∀ l', h ∉ (s.list l').pending := by
      intro l'
      rw [same.list, leaveBusy_pending, unlink_list]
      exact unqueued l'
    refine ⟨p', run.trans run', w', ?_, fun l' member => left l' ((fewer l').subset member),
      fun _ => by rw [kept h left, quiet]⟩
    rw [kept h left, (same.http h).1]
    simp
  | true =>
    by_cases empty : (p.list l).pending = []
    · refine ⟨_, downloadFinished_idle linked home connected empty, ?_, ?_, ?_, by simp⟩
      · exact taken.finish (by simp) (by simpa using connected) (by simpa using home)
          (by simpa using notIdle) (by simpa using carried)
      · simp
      · intro l' member
        exact unqueued l' (by simpa using member)
    · obtain ⟨found, p', run, result, fewer, -, kept⟩ := serveNext_returns system d taken
        (by simp) (by simpa using home) (by simpa using notIdle) (by simpa using carried)
        ((p.list l).pending.length + 1) (by simpa using empty) (by simp)
      have left : (p'.http h).backend = none ∧ (∀ l, h ∉ (p'.list l).pending) ∧
          ((p.http h).clientsList = [] → (p'.http h).clientsList = []) := by
        rw [kept h (by simpa using unqueued)]
        refine ⟨by simp, fun l' member => unqueued l' (by simpa using (fewer l').subset member),
          by simp⟩
      refine ⟨if found then p' else park l b (leaveBusy l b p'), ?_, ?_, ?_⟩
      · rw [downloadFinished_next linked home connected empty, run]
        rfl
      · cases found with
        | true => exact result
        | false =>
          obtain ⟨held, -, drained⟩ := result
          refine held.finish ?_ ?_ ?_ ?_ ?_
          · simp [drained.backend]
          · simpa [drained.backend] using connected
          · simpa [drained.backend] using home
          · simpa [drained.idle] using notIdle
          · simpa [drained.backend, drained.busy] using carried
      · cases found with
        | true => exact left
        | false => simpa using left

variable (system) in
theorem disconnectBackend_returns (w : WellFormed limit none p) (depth : ℕ) (fromDestructor : Bool) :
    ∃ p', disconnectBackend system (depth + 2) fromDestructor h p = some p' ∧ WellFormed limit none p' := by
  cases own : (p.http h).backend with
  | none => exact ⟨_, disconnectBackend_waiting (depth + 1) _ own, w.leave own _⟩
  | some b =>
    obtain ⟨p', run, w', waits, unqueued, -⟩ :=
      downloadFinished_returns system (disconnectBackend_dismisses depth) w own
    refine ⟨retire fromDestructor h p', ?_, w'.retire waits unqueued fromDestructor⟩
    rw [disconnectBackend, own]
    dsimp only
    rw [run, Option.map_some]

theorem setBackend_link {c : BackendId} (other : b ≠ c) :
    setBackend b ({ · with http := none }) (link c h p) = link c h (unlink b h p) := by
  simp only [link, unlink, setBackend, setHttp, Pool.mk.injEq, true_and, and_true]
  constructor
  · funext x
    by_cases own : x = b <;> by_cases own' : x = c <;> simp_all [Ne.symm]
  · funext x
    by_cases own : x = h <;> simp [own]

theorem reassign_idle {c : BackendId} (last : (p.list l).idle.getLast? = some c) (other : b ≠ c) :
    SameLinks (link c h (setList l (fun x => { x with
      idle := x.idle.dropLast, busy := x.busy ++ [c] })
        (unlink b h (setHttp h ({ · with requestSended := false }) p)))) (reassign system l b h p) := by
  unfold reassign
  dsimp only
  rw [setHttp_list, last]
  dsimp only
  have moved := (SameLinks.readyToWrite system h (p := link c h (setList l (fun x => { x with
    idle := x.idle.dropLast, busy := x.busy ++ [c] })
      (setHttp h ({ · with requestSended := false }) p)))).takeRequest b
  rw [setBackend_link other] at moved
  exact moved

theorem reassign_new (noIdle : (p.list l).idle = []) (other : b ≠ p.newBackend)
    (started : system.connect p.newBackend = .started) :
    reassign system l b h p = enterBusy l p.newBackend (link p.newBackend h
      (unlink b h (allocBackend system l (setHttp h ({ · with requestSended := false }) p)))) := by
  unfold reassign
  dsimp only
  rw [setHttp_list, noIdle]
  dsimp only [List.getLast?_nil]
  rw [← setBackend_link other]
  exact if_pos started

theorem reassign_fails (noIdle : (p.list l).idle = [])
    (failed : system.connect p.newBackend ≠ .started) :
    reassign system l b h p =
      allocBackend system l (setHttp h ({ · with requestSended := false }) p) := by
  unfold reassign
  dsimp only
  rw [setHttp_list, noIdle]
  dsimp only [List.getLast?_nil]
  exact if_neg failed

theorem reassign_returns (w : WellFormed limit none p) (linked : (p.backend b).http = some h)
    (back : (p.http h).backend = some b) (home : (p.backend b).backendList = some l)
    (left : ∀ l, b ∉ (p.list l).busy)
    (room : (p.list l).busy.length + (p.list l).idle.length < p.maxBackend) :
    WellFormed limit none (reassign system l b h p) := by
  have same : SameLinks p (setHttp h ({ · with requestSended := false }) p) :=
    .setHttp ⟨rfl, rfl, id, id⟩
  have back' : ((setHttp h ({ · with requestSended := false }) p).http h).backend = some b := by
    simpa using back
  have wq := same.wellFormed w
  cases last : (p.list l).idle.getLast? with
  | some c =>
    have other : b ≠ c := by
      rintro rfl
      rw [(w.idle l b (List.mem_of_getLast? last)).1] at linked
      cases linked
    exact (reassign_idle last other).wellFormed
      (((wq.hold.unlink linked).release (by simp) left).serveIdle (wq.loose_unlink linked back') last)
  | none =>
    have noIdle := List.getLast?_eq_none_iff.mp last
    have wr := wq.allocBackend system (wq.backendList b l home)
    have other : b ≠ p.newBackend := by
      rintro rfl
      rw [(w.newBackend _ le_rfl).1] at linked
      cases linked
    by_cases started : system.connect p.newBackend = .started
    · rw [reassign_new noIdle other started]
      have linked' : ((allocBackend system l (setHttp h ({ · with requestSended := false })
          p)).backend b).http = some h := by
        rw [allocBackend_backend]
        exact (congrArg Backend.http (if_neg other)).trans linked
      refine ((wr.hold.unlink linked').release (by simp) left).serveNew
        (wr.loose_unlink linked' back') ?_ ?_ (wq.not_mem_new l) room
      · rw [unlink_backend, if_neg (Ne.symm other), allocBackend_backend]
        exact congrArg Backend.http (if_pos rfl)
      · rw [unlink_backend, if_neg (Ne.symm other), allocBackend_backend]
        exact congrArg Backend.backendList (if_pos rfl)
    · rw [reassign_fails noIdle started]
      exact wr

variable (system) in
theorem remoteSocketClosed_returns (d : Dismisses disconnect) (w : WellFormed limit none p) :
    ∃ p', remoteSocketClosed disconnect system b p = some p' ∧ WellFormed limit none p' := by
  cases connected : (p.backend b).wasTCPConnected with
  | false =>
    obtain ⟨p', run, w', -⟩ := remoteSocketClosed_unconnected system d w connected
    exact ⟨p', run, w'⟩
  | true =>
    have same : SameLinks p (shut b p) := .shut b
    have closed : (shut b p).backend b = _ := shut_backend
    unfold remoteSocketClosed
    generalize shut b p = q at same closed ⊢
    have wq : WellFormed limit none q := same.wellFormed w
    have spent : (q.backend b).isValid = false := by rw [closed]
    have answered : (q.backend b).wasTCPConnected = true := by
      rw [closed]
      exact connected
    dsimp only
    split
    · exact ⟨q, rfl, wq⟩
    · rename_i l home
      simp only [answered, Bool.not_true, Bool.false_eq_true, if_false]
      split
      · rename_i member
        obtain ⟨h, linked, back⟩ := wq.busy l b member (Option.some_ne_none _).symm
        rw [leaveBusy_backend, linked]
        refine ⟨_, rfl, reassign_returns (wq.leaveBusy (.inr (.inl spent))) linked back home
          (wq.not_mem_leaveBusy home) ?_⟩
        have slots := wq.slots l
        have positive := List.length_pos_of_mem member
        change _ < q.maxBackend
        simp only [leaveBusy, setList_list, if_true, List.length_erase_of_mem member]
        omega
      · exact ⟨_, rfl, wq.leaveIdle⟩

@[simp] theorem readyToWrite_backend (x : HttpId) :
    ((readyToWrite system h p).http x).backend = (p.http x).backend :=
  ((SameLinks.readyToWrite system h).http x).1

variable (system) in
theorem tryConnectInternalList_wellFormed (w : WellFormed limit none p) (loose : Loose h p) (https : Bool)
    (s : SockAddr) : WellFormed limit none (tryConnectInternalList system https s h p).1 ∧
      ((tryConnectInternalList system https s h p).1.http h).backend =
        (tryConnectInternalList system https s h p).2 := by
  unfold tryConnectInternalList
  split
  · rename_i l found
    have old : l < (setHttp h ({ · with backendList := some l }) p).newList :=
      w.addressTo _ _ _ found
    obtain ⟨wq, loose⟩ := w.setLoose (f := ({ · with backendList := some l })) loose loose.waits
    have home : ((setHttp h ({ · with backendList := some l }) p).http h).backendList = some l := by
      simp
    dsimp only
    generalize setHttp h ({ · with backendList := some l }) p = q at wq loose home old ⊢
    split
    · rename_i b last
      exact ⟨(SameLinks.readyToWrite system h).wellFormed (wq.serveIdle loose last), by simp⟩
    · rename_i noIdle
      split
      · rename_i room
        split
        · refine ⟨wq.openNew loose old ?_, by simp [enterBusy]⟩
          rw [List.getLast?_eq_none_iff.mp noIdle]
          exact room
        · exact ⟨wq.allocBackend system old, loose.waits⟩
      · have same : SameLinks q (setHttp h ({ · with pending := true }) q) := .setHttp ⟨rfl, rfl, id, id⟩
        refine ⟨(same.wellFormed wq).enqueue ?_ ?_ (loose.unqueued l) loose.alone old, ?_⟩
        · simpa using loose.waits
        · simpa using home
        · simpa using loose.waits
  · have wl := w.allocList s
    have loose' : Loose h { setList p.newList (fun _ => ⟨[], [], [], s⟩) p with
        newList := p.newList + 1 } := by
      refine ⟨loose.waits, loose.alone, fun x => ?_, loose.kept, loose.old⟩
      by_cases own : x = p.newList
      · simp [own]
      · simpa [own] using loose.unqueued x
    obtain ⟨wq, loose'⟩ :=
      wl.setLoose (f := ({ · with backendList := some p.newList })) loose' loose'.waits
    dsimp only
    split
    · refine ⟨(wq.openNew loose' (Nat.lt_succ_self _) ?_).setAddress https s.sin6_addr ?_, ?_⟩
      · change _ < p.maxBackend
        obtain ⟨limited, positive⟩ := w.maxBackend
        simp only [setHttp_list, setList_list, if_true, List.length_nil]
        omega
      · exact Nat.lt_succ_self _
      · simp [setAddress, enterBusy, setList]
    · exact ⟨wq.allocBackend system (Nat.lt_succ_self _), loose'.waits⟩

theorem tryConnect_wellFormed (w : WellFormed limit none p) (loose : Loose h p) (s : SockAddr)
    (host uri etag : Bytes) : WellFormed limit none (tryConnect system s host uri etag h p) := by
  obtain ⟨wq, loose⟩ := w.setLoose (f := ({ · with host := host, uri := uri, etagBackend := etag }))
    loose loose.waits
  obtain ⟨connected, same⟩ := tryConnectInternalList_wellFormed system wq loose
    ((setHttp h ({ · with host := host, uri := uri, etagBackend := etag }) p).http h).https s
  unfold tryConnect
  dsimp only
  refine (SameLinks.setHttp ?_).wellFormed connected
  exact ⟨same.symm, rfl, id, id⟩

theorem startDownload_wellFormed {p' : Pool} (w : WellFormed limit none p) (r : Request) (s : SockAddr)
    (done : startDownload system r s p = some p') : WellFormed limit none p' := by
  unfold startDownload at done
  dsimp only at done
  split at done
  · cases done
  · obtain rfl := Option.some_inj.mp done
    refine ((SameLinks.setPath _ _ _).trans (.addClient _ _)).wellFormed ?_
    exact tryConnect_wellFormed (w.allocHttp system r.https r.path) (w.loose_new r.https r.path) s
      r.host r.uri r.etag

theorem deleteBackend_wellFormed (w : WellFormed limit none p) : WellFormed limit none (deleteBackend b p) := by
  have closed : WellFormed limit none (close b p) := (SameLinks.close b).wellFormed w
  have spent : ((close b p).backend b).isValid = false := by simp [close]
  unfold deleteBackend
  dsimp only
  cases linked : ((close b p).backend b).http with
  | none =>
    dsimp only
    split
    · exact closed
    · exact (closed.leaveBusy (.inr (.inl spent))).leaveIdle
  | some h =>
    have taken : WellFormed limit (some b) (unlink b h (close b p)) := closed.hold.unlink linked
    obtain ⟨l, home⟩ := closed.homed b h linked
    have home' : ((unlink b h (close b p)).backend b).backendList = some l := by simpa using home
    dsimp only [unlink] at home' ⊢
    rw [home']
    exact ((taken.leaveBusy (.inl rfl)).release (by simp)
      (taken.not_mem_leaveBusy home')).leaveIdle

variable (system) in
theorem joinDownload_returns (w : WellFormed limit none p) (depth : ℕ) (r : Request) :
    ∃ found p', joinDownload system (depth + 2) r p = some (found, p') ∧ WellFormed limit none p' := by
  unfold joinDownload
  split
  · exact ⟨false, p, rfl, w⟩
  · rename_i h found
    split
    · exact ⟨true, _, rfl, (SameLinks.addClient h r.client).wellFormed w⟩
    · obtain ⟨p', run, w'⟩ := disconnectBackend_returns system (h := h)
        (((SameLinks.setPath r.https r.path none).trans (.disconnectFrontend h)).wellFormed w)
        depth false
      exact ⟨false, p', by rw [run, Option.map_some], w'⟩

theorem backendTimeout_returns (w : WellFormed limit none p) (depth : ℕ) :
    ∃ p', backendTimeout system (depth + 2) b p = some p' ∧ WellFormed limit none p' := by
  unfold backendTimeout
  split
  · exact ⟨p, rfl, w⟩
  · rename_i h linked
    dsimp only
    split
    · exact ⟨_, rfl, (SameLinks.setBackend ⟨rfl, rfl, id, id⟩).wellFormed w⟩
    · obtain ⟨q, run, wq⟩ := disconnectBackend_returns system (h := h)
        ((SameLinks.dismissed h).wellFormed w) depth false
      obtain ⟨p', run', w'⟩ := remoteSocketClosed_returns system (b := b)
        (disconnectBackend_dismisses (depth + 1)) ((SameLinks.close b).wellFormed wq)
      exact ⟨p', by rw [run, Option.bind_some, run'], w'⟩

theorem disconnectBackend_wellFormed (w : WellFormed limit none p) (depth : ℕ)
    {fromDestructor : Bool}
    (run : disconnectBackend system (depth + 2) fromDestructor h p = some p') :
    WellFormed limit none p' := by
  obtain ⟨q, again, wq⟩ := disconnectBackend_returns system (h := h) w depth fromDestructor
  rw [run, Option.some.injEq] at again
  rwa [again]

theorem joinDownload_wellFormed (w : WellFormed limit none p) (depth : ℕ) {r : Request}
    {found : Bool} (run : joinDownload system (depth + 2) r p = some (found, p')) :
    WellFormed limit none p' := by
  obtain ⟨found', q, again, wq⟩ := joinDownload_returns system w depth r
  rw [run, Option.some.injEq, Prod.mk.injEq] at again
  rwa [again.2]

theorem backendTimeout_wellFormed (w : WellFormed limit none p) (depth : ℕ)
    (run : backendTimeout system (depth + 2) b p = some p') : WellFormed limit none p' := by
  obtain ⟨q, again, wq⟩ : ∃ q, backendTimeout system (depth + 2) b p = some q ∧ _ :=
    backendTimeout_returns w depth
  rw [run, Option.some.injEq] at again
  rwa [again]

theorem httpTimeout_returns (w : WellFormed limit none p) (depth : ℕ) :
    ∃ p', httpTimeout system (depth + 2) h p = some p' ∧ WellFormed limit none p' := by
  unfold httpTimeout
  generalize (if (p.http h).pending = true then 30 else 5) = secondForTimeout
  dsimp only
  split
  · exact ⟨_, rfl, (SameLinks.setHttp ⟨rfl, rfl, id, id⟩).wellFormed w⟩
  · have quiet : WellFormed limit none (disconnectFrontend h p) :=
      (SameLinks.disconnectFrontend h).wellFormed w
    split
    · exact ⟨_, rfl, (SameLinks.close _).wellFormed quiet⟩
    · exact disconnectBackend_returns _ quiet depth false

theorem deleteHttp_returns (w : WellFormed limit none p) (depth : ℕ) :
    ∃ p', deleteHttp system (depth + 2) h p = some p' ∧ WellFormed limit none p' := by
  obtain ⟨q, run, wq⟩ := disconnectBackend_returns system (h := h)
    ((SameLinks.disconnectFrontend h).wellFormed w) depth true
  refine ⟨{ q with toDelete := q.toDelete.erase h }, by rw [deleteHttp, run, Option.map_some], ?_⟩
  exact {
    __ := wq
    retired := fun x member => wq.retired x (List.mem_of_mem_erase member)
    scheduled := fun x member => wq.scheduled x (List.mem_of_mem_erase member) }

end operations

theorem initial_wellFormed (positive : 1 ≤ limit) : WellFormed limit none (initial limit) := by
  constructor <;> constructor <;> simp [initial, Http.isAlive, positive]

/-- What one event does: it returns, unless `dnsRight` finds its path taken. -/
theorem perform_returns {p : Pool} (w : WellFormed limit none p) (system : System) (depth : ℕ)
    (e : Event) :
    (∃ p', perform system (depth + 2) e p = some p' ∧ WellFormed limit none p') ∨
      perform system (depth + 2) e p = none ∧ ∃ r s, e = .dnsRight r s := by
  cases e with
  | dnsRight r s =>
    obtain ⟨found, q, run, wq⟩ := joinDownload_returns system w depth r
    simp only [perform, dnsRight, run, Option.bind_some]
    cases found with
    | true => exact .inl ⟨q, rfl, wq⟩
    | false =>
      simp only [Bool.false_eq_true, if_false]
      cases done : startDownload system r s q with
      | none => exact .inr ⟨rfl, r, s, rfl⟩
      | some p' => exact .inl ⟨p', rfl, startDownload_wellFormed wq r s done⟩
  | loadUrl r =>
    obtain ⟨found, q, run, wq⟩ := joinDownload_returns system w depth r
    exact .inl ⟨q, by rw [perform, run, Option.map_some], wq⟩
  | removeClient h client => exact .inl ⟨_, rfl, (SameLinks.removeClient h client).wellFormed w⟩
  | statusLine h code => exact .inl ⟨_, rfl, (SameLinks.statusLine h code).wellFormed w⟩
  | readyToWrite h => exact .inl ⟨_, rfl, (SameLinks.readyToWrite system h).wellFormed w⟩
  | disconnectFrontend h => exact .inl ⟨_, rfl, (SameLinks.disconnectFrontend h).wellFormed w⟩
  | flushRead h =>
    obtain ⟨q, run, wq⟩ := disconnectBackend_returns system (h := h) w depth false
    exact .inl ⟨_, by rw [perform, run, Option.map_some],
      (SameLinks.disconnectFrontend h).wellFormed wq⟩
  | endOfBody h =>
    exact .inl (disconnectBackend_returns _ ((SameLinks.disconnectFrontend h).wellFormed w) depth false)
  | remoteSocketClosed b =>
    exact .inl (remoteSocketClosed_returns _ (disconnectBackend_dismisses (depth + 1)) w)
  | startHttpsFails b => exact .inl ⟨_, rfl, (SameLinks.close b).wellFormed w⟩
  | backendTimeout b => exact .inl (backendTimeout_returns w depth)
  | httpTimeout h => exact .inl (httpTimeout_returns w depth)
  | deleteBackend b => exact .inl ⟨_, rfl, deleteBackend_wellFormed w⟩
  | deleteHttp h => exact .inl (deleteHttp_returns w depth)

/-- An event has one outcome, however deep it re-enters. -/
theorem step_unique (e : System × Event) (p q q' : Pool) (taken : Step e p q)
    (taken' : Step e p q') : q' = q := by
  obtain ⟨-, depth, run⟩ := taken
  obtain ⟨-, depth', run'⟩ := taken'
  have first := run depth'
  rw [Nat.add_comm] at first
  exact Option.some_inj.mp ((run' depth).symm.trans first)

theorem step_wellFormed {p p' : Pool} (w : WellFormed limit none p) {e : System × Event}
    (taken : Step e p p') : WellFormed limit none p' := by
  obtain ⟨-, depth, returns⟩ := taken
  have run := returns 2
  obtain ⟨q, done, wq⟩ | ⟨aborted, -⟩ := perform_returns w e.1 depth e.2
  · obtain rfl : q = p' := Option.some_inj.mp (done.symm.trans run)
    exact wq
  · rw [aborted] at run
    cases run

theorem reach_wellFormed {limit : ℕ} (positive : 1 ≤ limit) {ok : System × Event → Pool → Prop}
    {p : Pool} (reached : Reach Step ok (· = initial limit) p) : WellFormed limit none p :=
  reached.invariant (fun _ start => start ▸ initial_wellFormed positive)
    fun _ _ _ w _ taken => step_wellFormed w taken

/-- In every reachable state every list of the pool is well formed. -/
theorem pool_well_formed {maxBackend : ℕ} (positive : 1 ≤ maxBackend) {p : Pool}
    (reached : Reach Step anyStep (· = initial maxBackend) p) (l : ListId) :
    ((p.list l).busy ++ (p.list l).idle).Nodup ∧
    (∀ b ∈ (p.list l).busy ++ (p.list l).idle, (p.backend b).backendList = some l) ∧
    (∀ b ∈ (p.list l).busy, ∃ h, (p.backend b).http = some h ∧ (p.http h).backend = some b) ∧
    (∀ b ∈ (p.list l).idle,
      (p.backend b).http = none ∧ (p.backend b).wasTCPConnected = true) ∧
    (p.list l).busy.length + (p.list l).idle.length ≤ maxBackend ∧
    (p.list l).pending.Nodup ∧
    (∀ h ∈ (p.list l).pending, (p.http h).backend = none) ∧
    ∀ h ∈ p.toDelete, h ∉ (p.list l).pending ∧
      ∀ b ∈ (p.list l).busy ++ (p.list l).idle, (p.backend b).http ≠ some h := by
  have w := reach_wellFormed positive reached
  refine ⟨w.nodup l, w.home l, fun b member => w.busy l b member (Option.some_ne_none _).symm, w.idle l, ?_,
    w.pending_nodup l, fun h member => (w.pending l h member).1, fun h member => ?_⟩
  · rw [← w.maxBackend.1]
    exact w.slots l
  · obtain ⟨waits, homeless⟩ := w.retired h member
    refine ⟨w.unqueued homeless, fun b listed linked => ?_⟩
    · rw [List.mem_append] at listed
      obtain busy | idle := listed
      · obtain ⟨h', linked', back⟩ := w.busy l b busy (Option.some_ne_none _).symm
        obtain rfl : h = h' := Option.some_inj.mp (linked.symm.trans linked')
        rw [waits] at back
        cases back
      · rw [(w.idle l b idle).1] at linked
        cases linked

theorem first_request_is_busy : ∃ p, Reach Step anyStep (· = initial 1) p ∧
    (p.list 0).busy = [0] ∧ ∃ h, (p.backend 0).http = some h ∧ (p.http h).backend = some 0 := by
  have reached : Reach Step anyStep (· = initial 1) _ :=
    .next (e := (⟨fun _ => .started, 1000000⟩,
        .dnsRight ⟨false, [99], [97], [47], [], 7⟩ ⟨.zero, 80⟩))
      (.start rfl) trivial ⟨trivial, 0, fun _ => rfl⟩
  exact ⟨_, reached, rfl, (pool_well_formed le_rfl reached 0).2.2.1 0 (by decide)⟩

end FastCgiCdn.PoolWellFormed
