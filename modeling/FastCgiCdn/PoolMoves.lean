import Mathlib.Logic.Relation
import FastCgiCdn.PoolOutcomes
import FastCgiCdn.SingleFlight

/-! What an event does to the pool, as a chain of moves. A move says what it changes
and what is known when it is made, so that an invariant of every run needs one case
for each kind of move, and none for the calls that make them. The number is the
first Http that has not been allocated when the event begins. -/

namespace FastCgiCdn.PoolMoves

open DnsModel PoolModel Pool PoolInvariant PoolWellFormed PoolOutcomes

/-- What is left of an Http that has only lost something. -/
structure Less (x y : Http) : Prop where
  backend : y.backend = x.backend ∨ y.backend = none
  backendList : y.backendList = x.backendList ∨ y.backendList = none
  alive : y.isAlive = true → x.isAlive = true
  clientsList : y.clientsList ⊆ x.clientsList
  cachePath : y.cachePath = x.cachePath ∨ y.cachePath = []

/-- What is left of a backend. A request is taken from an open socket only after an answer. -/
structure Weaker (x y : Backend) : Prop where
  http : y.http = x.http ∨ y.http = none ∧ (y.isValid = false ∨ x.wasTCPConnected = true)
  isValid : y.isValid = true → x.isValid = true
  wasTCPConnected : y.wasTCPConnected = x.wasTCPConnected
  backendList : y.backendList = x.backendList

inductive Move (system : System) (n : ℕ) (engaged : BackendId → Prop) : Pool → Pool → Prop
  | http {p : Pool} (h : HttpId) (f : Http → Http) (less : Less (p.http h) (f (p.http h))) :
      Move system n engaged p (setHttp h f p)
  | backend {p : Pool} (b : BackendId) (f : Backend → Backend)
      (weaker : Weaker (p.backend b) (f (p.backend b))) :
      Move system n engaged p (setBackend b f p)
  | path {p : Pool} (https : Bool) (path : Bytes) :
      Move system n engaged p (setPath https path none p)
  | join {p : Pool} (h : HttpId) (client : ClientId) (alive : (p.http h).isAlive = true) :
      Move system n engaged p
        (setHttp h (fun x => { x with clientsList := x.clientsList ++ [client] }) p)
  | answered {p : Pool} (b : BackendId)
      (busy : (p.backend b).isValid = true → ∃ l, b ∈ (p.list l).busy) :
      Move system n engaged p (setBackend b ({ · with wasTCPConnected := true }) p)
  | leaveBusy {p : Pool} (l : ListId) (b : BackendId)
      (spent : (p.backend b).isValid = false ∨ (p.backend b).wasTCPConnected = false) :
      Move system n engaged p (leaveBusy l b p)
  | leaveIdle {p : Pool} (l : ListId) (b : BackendId) (closed : (p.backend b).isValid = false) :
      Move system n engaged p (leaveIdle l b p)
  | rest {p : Pool} (l : ListId) (b : BackendId)
      (busy : (p.backend b).isValid = true → b ∈ (p.list l).busy) :
      Move system n engaged p (park l b (leaveBusy l b p))
  /-- Another backend takes over the request of a closed one. -/
  | replace {p : Pool} {l : ListId} {b : BackendId} {h : HttpId} (busy : b ∈ (p.list l).busy)
      (closed : (p.backend b).isValid = false) (own : (p.http h).backend = some b)
      (apart : b ∉ (p.list l).idle) (old : b < p.newBackend) :
      Move system n engaged p (reassign system l b h (leaveBusy l b p))
  | dequeue {p : Pool} (l : ListId) (h : HttpId) :
      Move system n engaged p (setList l (fun x => { x with pending := x.pending.erase h }) p)
  | serve {p : Pool} {l : ListId} {b : BackendId} {h : HttpId} {rest : List HttpId}
      (queue : (p.list l).pending = h :: rest) (carrier : engaged b) :
      Move system n engaged p (serve system l b h rest p)
  | schedule {p : Pool} (h : HttpId) (f : Http → Http) (alive : (p.http h).isAlive = true)
      (less : Less (p.http h) (f (p.http h))) (dead : (f (p.http h)).isAlive = false) :
      Move system n engaged p { setHttp h f p with toDelete := p.toDelete.insert h }
  | bury {p : Pool} (h : HttpId) :
      Move system n engaged p { p with toDelete := p.toDelete.erase h }
  | alloc {p : Pool} (https : Bool) (path : Bytes) (old : n ≤ p.newHttp)
      (unscheduled : p.newHttp ∉ p.toDelete) :
      Move system n engaged p (allocHttp system https path p)
  /-- What is done to the Http that the event has allocated. -/
  | young {p : Pool} (h : HttpId) (f : Http → Http) (young : n ≤ h)
      (unscheduled : h ∉ p.toDelete) (kept : (f (p.http h)).backend = (p.http h).backend) :
      Move system n engaged p (setHttp h f p)
  | connect {p : Pool} (https : Bool) (s : SockAddr) (h : HttpId) (young : n ≤ h)
      (unscheduled : h ∉ p.toDelete) :
      Move system n engaged p (tryConnectInternalList system https s h p).1
  | enlist {p : Pool} (https : Bool) (path : Bytes) (h : HttpId) (young : n ≤ h)
      (free : p.pathTo https path = none) :
      Move system n engaged p (setPath https path (some h) p)

def Chain (system : System) (n : ℕ) (engaged : BackendId → Prop) : Pool → Pool → Prop :=
  Relation.ReflTransGen (Move system n engaged)

/-- A property that every move keeps is kept by a chain. -/
theorem Chain.keeps {system : System} {n : ℕ} {engaged : BackendId → Prop} {P : Pool → Prop}
    (keeps : ∀ p p', Move system n engaged p p' → P p → P p') {p p' : Pool}
    (chain : Chain system n engaged p p') (base : P p) : P p' := by
  induction chain with
  | refl => exact base
  | tail _ move ih => exact keeps _ _ move ih

variable {limit n : ℕ} {engaged : BackendId → Prop} {system : System}
variable {disconnect : HttpId → Pool → Option Pool}
variable {held : Option BackendId} {p p' q : Pool} {b : BackendId} {h : HttpId} {l : ListId}

theorem Move.chain (move : Move system n engaged p p') : Chain system n engaged p p' :=
  Relation.ReflTransGen.single move

theorem Chain.refl (p : Pool) : Chain system n engaged p p := Relation.ReflTransGen.refl

theorem Chain.trans (first : Chain system n engaged p q) (second : Chain system n engaged q p') :
    Chain system n engaged p p' :=
  Relation.ReflTransGen.trans first second

namespace Less

theorem of_note {x y : Http} (backend : y.backend = x.backend)
    (backendList : y.backendList = x.backendList) (alive : y.isAlive = x.isAlive)
    (clientsList : y.clientsList ⊆ x.clientsList) (cachePath : y.cachePath = x.cachePath) :
    Less x y :=
  ⟨.inl backend, .inl backendList, fun alive' => alive ▸ alive', clientsList, .inl cachePath⟩

end Less

section dismissal

theorem dismissed_clients (h : HttpId) : Chain system n engaged p (disconnectFrontend h p) :=
  (Move.http h _ (.of_note rfl rfl rfl (List.nil_subset _) rfl)).chain

theorem unregister_chain (h : HttpId) : Chain system n engaged p (unregister h p) := by
  unfold unregister
  split
  · exact .refl p
  · exact (Move.path _ _).chain.trans (Move.path _ _).chain

theorem backendError_chain (h : HttpId) : Chain system n engaged p (backendError h p) := by
  have quiet : Chain system n engaged p (setHttp h ({ · with clientsList := [] }) p) :=
    dismissed_clients h
  refine (quiet.trans (unregister_chain h)).trans (Move.http h _ ?_).chain
  exact ⟨.inl rfl, .inl rfl, id, List.Subset.refl _, .inr rfl⟩

theorem failed_chain (h : HttpId) :
    Chain system n engaged p (disconnectFrontend h (backendError h p)) :=
  (backendError_chain h).trans (dismissed_clients h)

theorem readyToWrite_chain (system' : System) (h : HttpId) :
    Chain system n engaged p (readyToWrite system' h p) := by
  unfold readyToWrite
  split
  · exact .refl p
  · exact (Move.http h _ (.of_note rfl rfl rfl (List.Subset.refl _) rfl)).chain

theorem close_chain (b : BackendId) : Chain system n engaged p (close b p) :=
  (Move.backend b _ ⟨.inl rfl, (fun wrong => by cases wrong), rfl, rfl⟩).chain

theorem shut_chain (b : BackendId) : Chain system n engaged p (shut b p) := by
  have closed : Chain system n engaged p (close b p) := close_chain b
  unfold shut
  split
  · exact closed
  · refine closed.trans ?_
    unfold resetRequestSended
    split
    · exact .refl _
    · exact (Move.http _ _ (.of_note rfl rfl rfl (List.Subset.refl _) rfl)).chain

theorem leavePending_chain (h : HttpId) : Chain system n engaged p (leavePending h p) := by
  unfold leavePending
  split
  · exact .refl p
  · exact (Move.dequeue _ h).chain

theorem retire_chain (fromDestructor : Bool) (h : HttpId) :
    Chain system n engaged p (retire fromDestructor h p) := by
  let unbound := setHttp h ({ · with backend := none, backendList := none }) p
  let emptied (x : Http) : Http := { x with
    cachePath := [], host := [], uri := [], etagBackend := [],
    lastReceivedBytesTimestamps := 0, requestSended := false }
  have left : Chain system n engaged p (unregister h unbound) :=
    (Move.http h _ ⟨.inr rfl, .inr rfl, id, List.Subset.refl _, .inl rfl⟩).chain.trans
      (unregister_chain h)
  have less (x : Http) : Less x (emptied x) :=
    ⟨.inl rfl, .inl rfl, fun alive => by simp [emptied, Http.isAlive] at alive,
      List.Subset.refl _, .inr rfl⟩
  unfold retire
  dsimp only
  split
  · rename_i ends
    have alive : (unbound.http h).isAlive = true := (Bool.and_eq_true_iff.mp ends).1
    have late : unregister h { unbound with toDelete := unbound.toDelete.insert h } =
        { unregister h unbound with toDelete := (unregister h unbound).toDelete.insert h } := by
      unfold unregister
      split <;> rfl
    rw [late]
    refine left.trans (Move.schedule h emptied ?_ (less _) rfl).chain
    rw [unregister_unchanged.2.2.2.2.1]
    exact alive
  · exact left.trans (Move.http h emptied (less _)).chain

theorem dismiss_chain (h : HttpId) : Chain system n engaged p (dismiss h p) :=
  ((failed_chain h).trans (leavePending_chain h)).trans (retire_chain false h)

theorem failPending_chain (d : Dismisses disconnect) (w : WellFormed limit held p)
    (fuel index : ℕ) (run : failPending disconnect l fuel index p = some p') :
    Chain system n engaged p p' := by
  induction fuel generalizing p index with
  | zero => cases run
  | succ fuel ih =>
    unfold failPending at run
    split at run
    · rw [Option.some.injEq] at run
      exact run ▸ .refl p
    · rename_i h found
      have waits := (w.pending l h (List.mem_of_getElem? found)).1
      rw [d.dismiss waits, Option.bind_some] at run
      exact (dismiss_chain h).trans (ih (w.dismiss waits) (index + 1) run)

theorem errorPending_chain (l : ListId) : Chain system n engaged p (errorPending l p) := by
  unfold errorPending
  generalize (p.list l).pending = waiting
  induction waiting generalizing p with
  | nil => exact .refl p
  | cons h waiting ih => exact (failed_chain h).trans ih

end dismissal

section closing

theorem serveNext_chain (d : Dismisses disconnect) (w : WellFormed limit held p)
    (carrier : engaged b) (fuel : ℕ) {found : Bool}
    (run : serveNext disconnect system b l fuel p = some (found, p')) :
    Chain system n engaged p p' := by
  induction fuel generalizing p with
  | zero => cases run
  | succ fuel ih =>
    unfold serveNext at run
    cases queue : (p.list l).pending with
    | nil => simp only [queue, reduceCtorEq] at run
    | cons h rest =>
      simp only [queue] at run
      let q := setHttp h ({ · with pending := true }) (setList l ({ · with pending := rest }) p)
      have wq : WellFormed limit held q :=
        (SameLinks.setHttp ⟨rfl, rfl, id, id⟩).wellFormed (w.setPending (by simp [queue]))
      have waits : (q.http h).backend = none := by
        simpa [q] using (w.pending l h (by simp [queue])).1
      have popped : Chain system n engaged p q := by
        have front : Move system n engaged p _ := .dequeue l h
        have rest_eq : setList l (fun x => { x with pending := x.pending.erase h }) p =
            setList l ({ · with pending := rest }) p := by
          simp [setList, queue]
        rw [rest_eq] at front
        exact front.chain.trans
          (Move.http h _ (.of_note rfl rfl rfl (List.Subset.refl _) rfl)).chain
      split at run
      · rw [Option.some.injEq, Prod.mk.injEq] at run
        rw [← run.2]
        exact (Move.serve queue carrier).chain
      · change (disconnect h (disconnectFrontend h (backendError h q))).bind _ = _ at run
        rw [d.dismiss waits, Option.bind_some] at run
        have dropped := popped.trans (dismiss_chain h)
        split at run
        · rw [Option.some.injEq, Prod.mk.injEq] at run
          rw [← run.2]
          exact dropped
        · exact dropped.trans (ih (wq.dismiss waits) run)

theorem forget_chain (b : BackendId) : Chain system n engaged p (forget b p) := by
  unfold forget
  split
  · exact .refl p
  · exact (Move.http _ _ ⟨.inr rfl, .inl rfl, id, List.Subset.refl _, .inl rfl⟩).chain

theorem failed_queue_chain (d : Dismisses disconnect) (w : WellFormed limit held p)
    (run : (if !(p.list l).pending.isEmpty && (p.list l).busy.isEmpty then
        failPending disconnect l ((p.list l).pending.length + 1) 0 p else some p) = some p') :
    Chain system n engaged p p' := by
  split at run
  · exact failPending_chain d w _ 0 run
  · rw [Option.some.injEq] at run
    exact run ▸ .refl p

theorem remoteSocketClosed_chain (d : Dismisses disconnect) (w : WellFormed limit none p)
    (run : remoteSocketClosed disconnect system b p = some p') : Chain system n engaged p p' := by
  have same : SameLinks p (shut b p) := .shut b
  have closed : ((shut b p).backend b).isValid = false := by rw [shut_backend]
  cases home : (p.backend b).backendList with
  | none =>
    rw [remoteSocketClosed_homeless home, Option.some.injEq] at run
    exact run ▸ shut_chain b
  | some l =>
    cases connected : (p.backend b).wasTCPConnected with
    | false =>
      have wl : WellFormed limit none (leaveBusy l b (shut b p)) :=
        (same.wellFormed w).leaveBusy (.inr (.inl closed))
      unfold remoteSocketClosed at run
      dsimp only at run
      rw [shut_backend] at run
      simp only [home, connected, Bool.not_false, if_true] at run
      obtain ⟨r, failing, rfl⟩ := Option.map_eq_some_iff.mp run
      exact (((shut_chain b).trans (Move.leaveBusy l b (.inl closed)).chain).trans
        (failed_queue_chain d wl failing)).trans (forget_chain b)
    | true =>
      by_cases busy : b ∈ (p.list l).busy
      · obtain ⟨h, linked, own⟩ := w.busy l b busy (Option.some_ne_none _).symm
        rw [remoteSocketClosed_busy home connected busy linked, Option.some.injEq] at run
        obtain ⟨apart, -⟩ := w.of_linked linked home
        have old : b < p.newBackend := by
          by_contra late
          rw [(w.newBackend b (Nat.not_lt.mp late)).1] at linked
          cases linked
        refine run ▸ (shut_chain b).trans (Move.replace ?_ closed ?_ ?_ ?_).chain
        · rw [same.list]
          exact busy
        · rw [(same.http h).1]
          exact own
        · rw [same.list]
          exact apart
        · rw [same.newBackend]
          exact old
      · rw [remoteSocketClosed_apart home connected busy, Option.some.injEq] at run
        exact run ▸ (shut_chain b).trans (Move.leaveIdle l b closed).chain

end closing

section ending

theorem unlink_chain (connected : (p.backend b).wasTCPConnected = true) (h : HttpId) :
    Chain system n engaged p (unlink b h p) := by
  have left : Chain system n engaged p (setHttp h ({ · with backend := none }) p) :=
    (Move.http h _ ⟨.inr rfl, .inl rfl, id, List.Subset.refl _, .inl rfl⟩).chain
  exact left.trans (Move.backend b _ ⟨.inr ⟨rfl, .inr (by exact connected)⟩, id, rfl, rfl⟩).chain

theorem abandon_chain (unanswered : (p.backend b).wasTCPConnected = false) (l : ListId)
    (h : HttpId) : Chain system n engaged p (abandon l b h p) := by
  have left : Chain system n engaged p (leaveBusy l b p) :=
    (Move.leaveBusy l b (.inr unanswered)).chain
  have told : Chain system n engaged p (if !((leaveBusy l b p).list l).pending.isEmpty &&
      ((leaveBusy l b p).list l).busy.isEmpty then errorPending l (leaveBusy l b p)
      else leaveBusy l b p) := by
    split
    · exact left.trans (errorPending_chain l)
    · exact left
  unfold abandon
  dsimp only
  generalize (if !((leaveBusy l b p).list l).pending.isEmpty &&
    ((leaveBusy l b p).list l).busy.isEmpty then errorPending l (leaveBusy l b p)
    else leaveBusy l b p) = q at told
  have freed : Chain system n engaged p
      (backendError h (setHttp h ({ · with backend := none }) q)) :=
    (told.trans (Move.http h _ ⟨.inr rfl, .inl rfl, id, List.Subset.refl _, .inl rfl⟩).chain).trans
      (backendError_chain h)
  refine freed.trans ?_
  generalize backendError h (setHttp h ({ · with backend := none }) q) = r
  have both : close b (setBackend b ({ · with http := none }) r) =
      setBackend b (fun x => { x with http := none, isValid := false }) r := by
    simp [close, setBackend]
  rw [both]
  exact (Move.backend b _ ⟨.inr ⟨rfl, .inl rfl⟩, (fun wrong => by cases wrong), rfl, rfl⟩).chain

theorem downloadFinished_chain (d : Dismisses disconnect) (w : WellFormed limit none p)
    (linked : (p.backend b).http = some h) (carrier : engaged b)
    (run : downloadFinished disconnect system b p = some p') : Chain system n engaged p p' := by
  obtain ⟨l, home⟩ := w.homed b h linked
  have taken : WellFormed limit (some b) (unlink b h p) := w.hold.unlink linked
  cases connected : (p.backend b).wasTCPConnected with
  | false =>
    have same : SameLinks _ (abandon l b h p) := abandon_same
    have wa : WellFormed limit none (abandon l b h p) := same.wellFormed
      ((taken.leaveBusy (.inl rfl)).release (by simp)
        (taken.not_mem_leaveBusy (by simpa using home)))
    rw [downloadFinished_unconnected system disconnect linked home connected] at run
    exact (abandon_chain connected l h).trans (remoteSocketClosed_chain d wa run)
  | true =>
    have unlinked : Chain system n engaged p (unlink b h p) := unlink_chain connected h
    have carried : (p.backend b).isValid = true → b ∈ (p.list l).busy := by
      obtain ⟨-, busy⟩ := w.of_linked linked home
      intro valid
      exact busy.resolve_right (by simp [valid])
    by_cases empty : (p.list l).pending = []
    · rw [downloadFinished_idle linked home connected empty, Option.some.injEq] at run
      refine run ▸ unlinked.trans (Move.rest l b ?_).chain
      simpa using carried
    · rw [downloadFinished_next linked home connected empty] at run
      obtain ⟨⟨found, q⟩, searched, rfl⟩ := Option.map_eq_some_iff.mp run
      have served : Chain system n engaged p q := unlinked.trans
        (serveNext_chain d taken carrier _ searched)
      cases found with
      | true => exact served
      | false =>
        obtain ⟨r, -, discards, -, result⟩ := serveNext_outcome system b d taken
          ((p.list l).pending.length + 1) empty (Nat.le_succ _)
        rw [searched, Option.some.injEq] at result
        have same : q = r := by
          cases stops : (r.list l).pending with
          | nil =>
            rw [stops] at result
            exact (Prod.mk.inj result).2
          | cons x rest =>
            rw [stops] at result
            cases (Prod.mk.inj result).1
        refine served.trans (Move.rest l b ?_).chain
        rw [same, discards.backend, discards.list, Function.update_self]
        simpa using carried

theorem disconnectBackend_chain (w : WellFormed limit none p)
    (carriers : ∀ b, (p.http h).backend = some b → engaged b) (depth : ℕ) (fromDestructor : Bool)
    (run : disconnectBackend system (depth + 2) fromDestructor h p = some p') :
    Chain system n engaged p p' := by
  cases own : (p.http h).backend with
  | none =>
    rw [disconnectBackend_waiting (depth + 1) fromDestructor own, Option.some.injEq] at run
    exact run ▸ (leavePending_chain h).trans (retire_chain fromDestructor h)
  | some b =>
    rw [disconnectBackend, own] at run
    obtain ⟨q, finished, rfl⟩ := Option.map_eq_some_iff.mp run
    exact (downloadFinished_chain (disconnectBackend_dismisses depth) w (w.back h b own)
      (carriers b own) finished).trans (retire_chain fromDestructor h)

end ending

section calls

def Engaged (p : Pool) (b : BackendId) : Prop := ∃ h, (p.http h).backend = some b

theorem engaged_of_same (same : SameLinks p q) (b : BackendId)
    (own : (q.http h).backend = some b) : Engaged p b :=
  ⟨h, ((same.http h).1).symm.trans own⟩

theorem joinDownload_chain (w : WellFormed limit none p) (depth : ℕ) {r : Request} {found : Bool}
    (run : joinDownload system (depth + 2) r p = some (found, p')) :
    Chain system n (Engaged p) p p' := by
  unfold joinDownload at run
  split at run
  · rw [Option.some.injEq, Prod.mk.injEq] at run
    exact run.2 ▸ .refl p
  · rename_i h listed
    split at run
    · rename_i alive
      rw [Option.some.injEq, Prod.mk.injEq] at run
      rw [← run.2]
      unfold addClient
      split
      · exact .refl p
      · exact (Move.join h r.client alive).chain
    · obtain ⟨q, ended, result⟩ := Option.map_eq_some_iff.mp run
      obtain ⟨-, rfl⟩ := Prod.mk.inj result
      have same : SameLinks p (disconnectFrontend h (setPath r.https r.path none p)) :=
        (SameLinks.setPath r.https r.path none).trans (.disconnectFrontend h)
      exact ((Move.path r.https r.path).chain.trans (dismissed_clients h)).trans
        (disconnectBackend_chain (same.wellFormed w) (engaged_of_same same) depth false ended)

theorem startDownload_chain (w : WellFormed limit none p) {r : Request} {s : SockAddr}
    (old : n ≤ p.newHttp) (run : startDownload system r s p = some p') : Chain system n engaged p p' := by
  unfold startDownload at run
  dsimp only at run
  split at run
  · cases run
  · rename_i absent
    rw [Option.some.injEq] at run
    rw [← run]
    have loose : Loose p.newHttp (allocHttp system r.https r.path p) := w.loose_new r.https r.path
    have unscheduled : p.newHttp ∉ p.toDelete := loose.kept
    have kept (q : Pool) (keeps : PathMaps.Keeps (allocHttp system r.https r.path p) q) :
        p.newHttp ∉ q.toDelete := by
      rw [keeps.toDelete]
      exact unscheduled
    have allocated : Chain system n engaged p (allocHttp system r.https r.path p) :=
      (Move.alloc r.https r.path old unscheduled).chain
    have connected : Chain system n engaged p (tryConnect system s r.host r.uri r.etag p.newHttp
        (allocHttp system r.https r.path p)) := by
      obtain ⟨wq, loose⟩ := (w.allocHttp system r.https r.path).setLoose loose
        (f := ({ · with host := r.host, uri := r.uri, etagBackend := r.etag })) loose.waits
      unfold tryConnect
      dsimp only
      refine ((allocated.trans (Move.young p.newHttp _ old ?_ rfl).chain).trans
        (Move.connect _ s p.newHttp old ?_).chain).trans (Move.young p.newHttp _ old ?_ ?_).chain
      · exact unscheduled
      · exact unscheduled
      · refine kept _ (.trans (.setField p.newHttp ?_ ?_ ?_) (.tryConnectInternalList system _ _ s))
        all_goals exact fun _ => rfl
      · exact (tryConnectInternalList_wellFormed system wq loose _ s).2.symm
    refine (connected.trans (Move.enlist r.https r.path p.newHttp old ?_).chain).trans ?_
    · simpa using absent
    · unfold addClient
      split
      · exact .refl _
      · refine (Move.young p.newHttp _ old ?_ ?_).chain
        · exact kept (tryConnect system s r.host r.uri r.etag p.newHttp _)
            (.tryConnect s r.host r.uri r.etag)
        · rfl

theorem joinDownload_newHttp {depth : ℕ} {r : Request} {found : Bool}
    (run : joinDownload system depth r p = some (found, p')) : p'.newHttp = p.newHttp := by
  rcases SingleFlight.joinDownload_cases run with ⟨-, -, rfl⟩ | ⟨h, -, -, rfl⟩ |
    ⟨h, -, -, sheds, -⟩
  · rfl
  · exact (SameLinks.addClient h r.client).newHttp
  · exact sheds.newHttp

theorem statusLine_chain (w : WellFormed limit none p) (h : HttpId) (http_code : ℕ) :
    Chain system n engaged p (statusLine h http_code p) := by
  have coded : Chain system n engaged p (setHttp h ({ · with http_code := http_code }) p) :=
    (Move.http h _ (.of_note rfl rfl rfl (List.Subset.refl _) rfl)).chain
  unfold statusLine
  dsimp only
  split
  · exact coded
  · rename_i b own
    refine coded.trans (Move.answered b fun valid => ?_).chain
    have linked := w.back h b (by simpa using own)
    exact w.carried b h linked valid (Option.some_ne_none _).symm

theorem backendTimeout_chain (w : WellFormed limit none p) (depth : ℕ)
    (run : backendTimeout system (depth + 2) b p = some p') :
    Chain system n (Engaged p) p p' := by
  cases linked : (p.backend b).http with
  | none =>
    rw [backendTimeout, linked, Option.some.injEq] at run
    exact run ▸ .refl p
  | some h =>
    by_cases overdue : Overdue system b p
    · obtain ⟨q, ended, wq, closed⟩ := overdue_halves w linked overdue depth run
      have same : SameLinks p (disconnectFrontend h (backendError h p)) := .dismissed h
      have finished : Chain system n (Engaged p) p q := (failed_chain h).trans
        (disconnectBackend_chain (same.wellFormed w) (engaged_of_same same) depth false ended)
      exact (finished.trans (close_chain b)).trans (remoteSocketClosed_chain (disconnectBackend_dismisses (depth + 1))
          ((SameLinks.close b).wellFormed wq) closed)
    · rw [backendTimeout_early linked overdue, Option.some.injEq] at run
      exact run ▸ (Move.backend b _ ⟨.inl rfl, id, rfl, rfl⟩).chain

theorem httpTimeout_chain (w : WellFormed limit none p) (depth : ℕ)
    (run : httpTimeout system (depth + 2) h p = some p') : Chain system n (Engaged p) p p' := by
  have same : SameLinks p (disconnectFrontend h p) := .disconnectFrontend h
  by_cases overdue : HttpOverdue system h p
  · rw [httpTimeout_overdue overdue] at run
    cases own : (p.http h).backend with
    | some b =>
      rw [own, Option.some.injEq] at run
      exact run ▸ (dismissed_clients h).trans (close_chain b)
    | none =>
      rw [own] at run
      exact (dismissed_clients h).trans
        (disconnectBackend_chain (same.wellFormed w) (engaged_of_same same) depth false run)
  · rw [httpTimeout_early overdue, Option.some.injEq] at run
    exact run ▸ (Move.http h _ (.of_note rfl rfl rfl (List.Subset.refl _) rfl)).chain

theorem deleteBackend_chain (b : BackendId) : Chain system n engaged p (deleteBackend b p) := by
  have left (q : Pool) (closed : (q.backend b).isValid = false) (l : ListId) :
      Chain system n engaged q (leaveIdle l b (leaveBusy l b q)) :=
    (Move.leaveBusy l b (.inl closed)).chain.trans (Move.leaveIdle l b (by exact closed)).chain
  have shut : ((close b p).backend b).isValid = false := by simp [close]
  unfold deleteBackend
  dsimp only
  cases ((close b p).backend b).http with
  | none =>
    dsimp only
    split
    · exact close_chain b
    · exact (close_chain b).trans (left _ shut _)
  | some h =>
    have freed : Chain system n engaged p (setBackend b ({ · with http := none })
        (setHttp h ({ · with backend := none }) (close b p))) :=
      ((close_chain b).trans
        (Move.http h _ ⟨.inr rfl, .inl rfl, id, List.Subset.refl _, .inl rfl⟩).chain).trans
        (Move.backend b _ ⟨.inr ⟨rfl, .inl shut⟩, id, rfl, rfl⟩).chain
    dsimp only
    split
    · exact freed
    · exact freed.trans (left _ (by simp [close]) _)

/-- Every event is a chain of moves. -/
theorem step_chain {e : System × Event} (w : WellFormed limit none p) (taken : Step e p p') :
    Chain e.1 p.newHttp (Engaged p) p p' := by
  obtain ⟨-, depth, returns⟩ := taken
  have run := returns 2
  obtain ⟨system, e⟩ := e
  cases e with
  | dnsRight r s =>
    obtain ⟨⟨found, q⟩, joined, rest⟩ := Option.bind_eq_some_iff.mp run
    have looked : Chain system p.newHttp (Engaged p) p q := joinDownload_chain w depth joined
    cases found with
    | true => exact Option.some_inj.mp rest ▸ looked
    | false =>
      have wq : WellFormed limit none q := joinDownload_wellFormed w depth joined
      exact looked.trans (startDownload_chain wq (joinDownload_newHttp joined).ge rest)
  | loadUrl r =>
    obtain ⟨⟨found, q⟩, joined, rfl⟩ := Option.map_eq_some_iff.mp run
    exact joinDownload_chain w depth joined
  | removeClient h client =>
    exact Option.some_inj.mp run ▸ (Move.http h _
      (.of_note rfl rfl rfl (List.filter_subset_self _) rfl)).chain
  | statusLine h http_code => exact Option.some_inj.mp run ▸ statusLine_chain w h http_code
  | readyToWrite h => exact Option.some_inj.mp run ▸ readyToWrite_chain system h
  | disconnectFrontend h => exact Option.some_inj.mp run ▸ dismissed_clients h
  | flushRead h =>
    obtain ⟨q, ended, rfl⟩ := Option.map_eq_some_iff.mp run
    exact (disconnectBackend_chain w (fun b own => ⟨h, own⟩) depth false ended).trans
      (dismissed_clients h)
  | endOfBody h =>
    have same : SameLinks p (disconnectFrontend h p) := .disconnectFrontend h
    exact (dismissed_clients h).trans
      (disconnectBackend_chain (same.wellFormed w) (engaged_of_same same) depth false run)
  | remoteSocketClosed b =>
    exact remoteSocketClosed_chain (disconnectBackend_dismisses (depth + 1)) w run
  | startHttpsFails b => exact Option.some_inj.mp run ▸ close_chain b
  | backendTimeout b => exact backendTimeout_chain w depth run
  | httpTimeout h => exact httpTimeout_chain w depth run
  | deleteBackend b => exact Option.some_inj.mp run ▸ deleteBackend_chain b
  | deleteHttp h =>
    obtain ⟨q, ended, rfl⟩ := Option.map_eq_some_iff.mp run
    have same : SameLinks p (disconnectFrontend h p) := .disconnectFrontend h
    exact ((dismissed_clients h).trans (disconnectBackend_chain (same.wellFormed w)
      (engaged_of_same same) depth true ended)).trans (Move.bury h).chain

end calls

end FastCgiCdn.PoolMoves
