import FastCgiCdn.PoolWellFormed

/-! When no request is left waiting beside a free connection slot. `Attended`
exempts the objects an operation is still busy with and at most one list whose
slots it is still settling. -/

namespace FastCgiCdn.PoolStranding

open GuardedRuns DnsModel PoolModel Pool PoolInvariant PoolWellFormed

structure Attended (left : List HttpId) (slack : Option ListId) (p : Pool) : Prop where
  /-- A wanted object without a backend is queued. -/
  waiting : ∀ h, h ∉ left → Wanted (p.http h) → (p.http h).backend = none →
    ∃ l, (p.http h).backendList = some l ∧ h ∈ (p.list l).pending
  /-- A queue is there only while every slot is taken. -/
  full : ∀ l, slack ≠ some l → (p.list l).pending ≠ [] →
    (p.list l).idle = [] ∧ p.maxBackend ≤ (p.list l).busy.length
  carried : ∀ b h, (p.backend b).http = some h → ∃ l, b ∈ (p.list l).busy

section moves

variable {limit : ℕ} {p p' : Pool} {left : List HttpId} {slack : Option ListId}
variable {b : BackendId} {h : HttpId} {l : ListId}

theorem Attended.free (a : Attended left slack p) (apart : ∀ l, b ∉ (p.list l).busy) :
    (p.backend b).http = none := by
  cases named : (p.backend b).http with
  | none => rfl
  | some h =>
    obtain ⟨l, member⟩ := a.carried b h named
    exact absurd member (apart l)

theorem Attended.of_same (s : SameLinks p p') (a : Attended left slack p) :
    Attended left slack p' where
  waiting h apart wanted waits := by
    rw [(s.http h).1] at waits
    rw [(s.http h).2.1, s.list]
    exact a.waiting h apart ((s.http h).2.2.2 wanted) waits
  full l tight queue := by
    rw [s.list] at queue ⊢
    rw [s.maxBackend]
    exact a.full l tight queue
  carried b h linked := by
    rw [(s.backend b).1] at linked
    rw [s.list]
    exact a.carried b h linked

theorem Attended.loosen (a : Attended left none p) : Attended left slack p where
  full l _ queue := a.full l (Option.some_ne_none _).symm queue
  __ := a

theorem Attended.tighten (a : Attended left (some l) p) (settled : (p.list l).pending ≠ [] →
    (p.list l).idle = [] ∧ p.maxBackend ≤ (p.list l).busy.length) : Attended left none p where
  full x _ queue := by
    by_cases own : x = l
    · subst own
      exact settled queue
    · refine a.full x ?_ queue
      simpa [eq_comm] using own
  __ := a

theorem Attended.settle (a : Attended (h :: left) slack p) (unwanted : ¬Wanted (p.http h)) :
    Attended left slack p where
  waiting x apart wanted waits := by
    refine a.waiting x ?_ wanted waits
    rw [List.mem_cons, not_or]
    refine ⟨?_, apart⟩
    rintro rfl
    exact unwanted wanted
  __ := a

theorem Attended.unlink (a : Attended left slack p) (b : BackendId) (h : HttpId) :
    Attended (h :: left) slack (unlink b h p) where
  waiting x apart wanted waits := by
    rw [List.mem_cons, not_or] at apart
    simp only [unlink_http, if_neg apart.1] at wanted waits ⊢
    exact a.waiting x apart.2 wanted waits
  full := a.full
  carried x y linked := by
    refine a.carried x y ?_
    grind

theorem Attended.link (a : Attended (h :: left) slack p) (busy : b ∈ (p.list l).busy) :
    Attended left slack (link b h p) where
  waiting x apart wanted waits := by
    by_cases own : x = h
    · simp [own] at waits
    · simp only [link_http, if_neg own] at wanted waits ⊢
      exact a.waiting x (by simp [own, apart]) wanted waits
  full := a.full
  carried x y linked := by
    by_cases own : x = b
    · exact ⟨l, own ▸ busy⟩
    · simp only [link_backend, if_neg own] at linked
      exact a.carried x y linked

theorem Attended.setList (a : Attended left (some l) p) {f : BackendList → BackendList}
    (pending : ∀ h ∈ (p.list l).pending, h ∈ left ∨ h ∈ (f (p.list l)).pending)
    (busy : ∀ b ∈ (p.list l).busy, (p.backend b).http = none ∨ b ∈ (f (p.list l)).busy) :
    Attended left (some l) (setList l f p) where
  waiting h apart wanted waits := by
    obtain ⟨x, home, member⟩ := a.waiting h apart wanted waits
    refine ⟨x, home, ?_⟩
    by_cases own : x = l
    · subst own
      simpa using (pending h member).resolve_left apart
    · simpa [own] using member
  full x tight queue := by
    have own : x ≠ l := by simpa [eq_comm] using tight
    simp only [setList_list, if_neg own] at queue ⊢
    exact a.full x tight queue
  carried x h linked := by
    obtain ⟨y, member⟩ := a.carried x h linked
    refine ⟨y, ?_⟩
    by_cases own : y = l
    · subst own
      rw [setList_backend] at linked
      simpa [linked] using busy x member
    · simpa [own] using member

theorem Attended.leaveBusy (a : Attended left (some l) p) (free : (p.backend b).http = none) :
    Attended left (some l) (leaveBusy l b p) := by
  refine a.setList (fun h member => .inr member) fun x member => ?_
  by_cases own : x = b
  · exact .inl (own ▸ free)
  · exact .inr ((List.mem_erase_of_ne own).mpr member)

theorem Attended.park (a : Attended left (some l) p) : Attended left (some l) (park l b p) := by
  unfold Pool.park
  split
  · exact a.setList (fun h member => .inr member) fun x member => .inr member
  · exact a

theorem Attended.leaveIdle (a : Attended left none p) : Attended left none (leaveIdle l b p) := by
  have loose : Attended left (some l) (Pool.leaveIdle l b p) :=
    a.loosen.setList (fun h member => .inr member) fun x member => .inr member
  refine loose.tighten fun queue => ?_
  simp only [Pool.leaveIdle, setList_list, if_true] at queue ⊢
  obtain ⟨noIdle, busy⟩ := a.full l (Option.some_ne_none _).symm queue
  exact ⟨by rw [noIdle]; rfl, busy⟩

theorem Attended.setPending (a : Attended left slack p) {waiting : List HttpId}
    (fewer : waiting.Sublist (p.list l).pending)
    (same : ∀ h ∈ (p.list l).pending, h ∈ left ∨ h ∈ waiting) :
    Attended left slack (Pool.setList l ({ · with pending := waiting }) p) where
  waiting h apart wanted waits := by
    obtain ⟨x, home, member⟩ := a.waiting h apart wanted waits
    refine ⟨x, home, ?_⟩
    by_cases own : x = l
    · subst own
      simpa using (same h member).resolve_left apart
    · simpa [own] using member
  full x tight queue := by
    by_cases own : x = l
    · subst own
      simp only [setList_list, if_true] at queue ⊢
      refine a.full x tight fun empty => queue ?_
      rw [empty] at fewer
      exact List.sublist_nil.mp fewer
    · simp only [setList_list, if_neg own] at queue ⊢
      exact a.full x tight queue
  carried x h linked := by
    obtain ⟨y, member⟩ := a.carried x h linked
    refine ⟨y, ?_⟩
    by_cases own : y = l <;> simpa [own] using member

theorem Attended.enterBusy (a : Attended left (some l) p) :
    Attended left (some l) (enterBusy l b p) :=
  a.setList (fun _ member => .inr member) fun _ member => .inr (List.mem_append_left _ member)

theorem Attended.takeIdle (a : Attended left (some l) p) :
    Attended left (some l) (Pool.setList l (fun x => { x with
      idle := x.idle.dropLast, busy := x.busy ++ [b] }) p) :=
  a.setList (fun _ member => .inr member) fun _ member => .inr (List.mem_append_left _ member)

theorem Attended.allocBackend (a : Attended left slack p) (system : System) :
    Attended left slack (allocBackend system l p) where
  waiting := a.waiting
  full := a.full
  carried x y linked := by
    refine a.carried x y ?_
    grind

theorem Attended.setHttp (a : Attended (h :: left) slack p) (f : Http → Http) :
    Attended (h :: left) slack (setHttp h f p) where
  waiting x apart wanted waits := by
    have other : x ≠ h := by
      rintro rfl
      exact apart (List.mem_cons_self ..)
    simp only [setHttp_http, if_neg other] at wanted waits ⊢
    exact a.waiting x apart wanted waits
  full := a.full
  carried := a.carried

theorem Attended.enqueue (a : Attended (h :: left) none p)
    (home : (p.http h).backendList = some l) (noIdle : (p.list l).idle = [])
    (busy : p.maxBackend ≤ (p.list l).busy.length) :
    Attended left none (Pool.setList l (fun x => { x with pending := x.pending ++ [h] }) p) where
  waiting x apart wanted waits := by
    by_cases own : x = h
    · exact ⟨l, own ▸ home, by simp [own]⟩
    · obtain ⟨y, there, member⟩ := a.waiting x (by simp [own, apart]) wanted waits
      refine ⟨y, there, ?_⟩
      by_cases here : y = l
      · subst here
        simpa using .inl member
      · simpa [here] using member
  full x _ queue := by
    by_cases own : x = l
    · subst own
      simpa using ⟨noIdle, busy⟩
    · simp only [setList_list, if_neg own] at queue ⊢
      exact a.full x (Option.some_ne_none _).symm queue
  carried x y linked := by
    obtain ⟨z, member⟩ := a.carried x y linked
    refine ⟨z, ?_⟩
    by_cases own : z = l <;> simpa [own] using member

theorem Attended.leavePending (a : Attended (h :: left) slack p) :
    Attended (h :: left) slack (leavePending h p) := by
  unfold Pool.leavePending
  split
  · exact a
  · rename_i l home
    refine a.setPending List.erase_sublist fun x member => ?_
    by_cases own : x = h
    · exact .inl (by simp [own])
    · exact .inr ((List.mem_erase_of_ne own).mpr member)

theorem Attended.weaken (a : Attended left slack p) : Attended (h :: left) slack p where
  waiting x apart := a.waiting x fun member => apart (List.mem_cons_of_mem h member)
  __ := a

end moves

section operations

variable {limit : ℕ} {system : System} {disconnect : HttpId → Pool → Option Pool}
variable {p p' : Pool} {left : List HttpId} {slack : Option ListId}
variable {b : BackendId} {h : HttpId} {l : ListId}

theorem Attended.retire (a : Attended (h :: left) slack p) (fromDestructor : Bool) :
    Attended (h :: left) slack (retire fromDestructor h p) := by
  obtain ⟨max, -, -, lists, backends, https⟩ := retire_unchanged (h := h) (p := p) fromDestructor
  refine ⟨fun x apart wanted waits => ?_, fun l tight queue => ?_, fun x y linked => ?_⟩
  · have other : x ≠ h := by
      rintro rfl
      exact apart (List.mem_cons_self ..)
    rw [https x other] at wanted waits ⊢
    rw [lists]
    exact a.waiting x apart wanted waits
  · rw [lists] at queue ⊢
    rw [max]
    exact a.full l tight queue
  · rw [backends] at linked
    rw [lists]
    exact a.carried x y linked

theorem Attended.dismiss (a : Attended (h :: left) slack p) :
    Attended left slack (dismiss h p) := by
  have gone := ((Attended.of_same (SameLinks.dismissed h) a).leavePending).retire false
  refine gone.settle ?_
  obtain ⟨dead, clients⟩ := retire_http (h := h) (p := Pool.leavePending h (disconnectFrontend h
    (backendError h p))) false
  rw [Wanted, dead, clients]
  simp [disconnectFrontend]

variable (system) in
theorem serveNext_attended (d : Dismisses disconnect) (w : WellFormed limit (some b) p)
    (a : Attended left slack p) (busy : b ∈ (p.list l).busy) (fuel : ℕ) {found : Bool}
    (run : serveNext disconnect system b l fuel p = some (found, p')) :
    Attended left slack p' := by
  induction fuel generalizing p with
  | zero => cases run
  | succ fuel ih =>
    unfold serveNext at run
    split at run
    · cases run
    · rename_i h rest queue
      have queued : h ∈ (p.list l).pending := by simp [queue]
      let q := setHttp h ({ · with pending := true }) (setList l ({ · with pending := rest }) p)
      have aq : Attended (h :: left) slack q := by
        refine Attended.of_same (SameLinks.setHttp ⟨rfl, rfl, id, id⟩)
          (a.weaken.setPending (by simp [queue]) fun x member => ?_)
        rw [queue, List.mem_cons] at member
        exact member.imp (fun own => by simp [own]) id
      have wq : WellFormed limit (some b) q :=
        (SameLinks.setHttp ⟨rfl, rfl, id, id⟩).wellFormed (w.setPending (by simp [queue]))
      have waits : (q.http h).backend = none := by simpa [q] using (w.pending l h queued).1
      have busy' : b ∈ (q.list l).busy := by simpa [q] using busy
      change (if (q.http h).haveUrlAndFrontendConnected then
        some (true, readyToWrite system h (link b h q)) else
        (disconnect h (disconnectFrontend h (backendError h q))).bind fun p =>
          if (p.list l).pending.isEmpty then some (false, p) else
            serveNext disconnect system b l fuel p) = some (found, p') at run
      split at run
      · obtain ⟨-, rfl⟩ := Prod.mk.inj (Option.some_inj.mp run)
        exact Attended.of_same (SameLinks.readyToWrite system h) (aq.link busy')
      · rw [d.dismiss waits, Option.bind_some] at run
        have busy'' : b ∈ ((dismiss h q).list l).busy := by
          rw [(dismiss_list l).1]
          exact busy'
        split at run
        · obtain ⟨-, rfl⟩ := Prod.mk.inj (Option.some_inj.mp run)
          exact aq.dismiss
        · exact ih (wq.dismiss waits) aq.dismiss busy'' run

/-- A backend that never got an answer is closed while nothing is left to fail, or
while the last slot goes and one object waits for it. -/
theorem remoteSocketClosed_attended_unconnected (d : Dismisses disconnect)
    (w : WellFormed limit none p) (a : Attended left (some l) p)
    (unanswered : (p.backend b).wasTCPConnected = false) (free : (p.backend b).http = none)
    (home : (p.backend b).backendList = some l)
    (clear : (p.list l).pending = [] ∨ (p.list l).busy = [] ∧ (p.list l).pending.length = 1)
    (run : remoteSocketClosed disconnect system b p = some p') :
    Attended left none p' ∧ ∀ l, b ∉ (p'.list l).busy := by
  have same : SameLinks p (shut b p) := .shut b
  have closed : (shut b p).backend b = _ := shut_backend
  unfold remoteSocketClosed at run
  generalize shut b p = q at same closed run
  have wl : WellFormed limit none (leaveBusy l b q) :=
    (same.wellFormed w).leaveBusy (.inr (.inl (by rw [closed])))
  have al : Attended left (some l) (leaveBusy l b q) :=
    (Attended.of_same same a).leaveBusy (by rw [(same.backend b).1, free])
  have queue : ((leaveBusy l b q).list l).pending = (p.list l).pending := by
    rw [leaveBusy_pending, same.list]
  have busy : ((leaveBusy l b q).list l).busy = (p.list l).busy.erase b := by
    simp [leaveBusy, same.list]
  have gone : ∀ x, b ∉ ((leaveBusy l b q).list x).busy :=
    (same.wellFormed w).not_mem_leaveBusy (by rw [closed]; exact home)
  dsimp only at run
  rw [closed] at run
  simp only [home, unanswered, Bool.not_false, if_true, queue, busy] at run
  obtain empty | ⟨noBusy, single⟩ := clear
  · simp only [empty, List.isEmpty_nil, Bool.not_true, Bool.false_and, Bool.false_eq_true, if_false,
      Option.map_some, leaveBusy_backend, closed, free, Option.some.injEq] at run
    rw [← run]
    refine ⟨al.tighten fun some_waits => absurd ?_ some_waits, gone⟩
    rw [queue, empty]
  · obtain ⟨x, only⟩ := List.length_eq_one_iff.mp single
    obtain ⟨failed, emptied⟩ := failPending_single d wl (queue.trans only)
    have kept : ((dismiss x (leaveBusy l b q)).backend b).http = none := by
      rw [((Drains.refl _).dismiss (by rw [queue, only]; exact List.mem_singleton_self x)).backend]
      simp [closed, free]
    simp only [only, noBusy, List.isEmpty_cons, Bool.not_false, List.erase_nil, List.isEmpty_nil,
      Bool.and_self, if_true, List.length_singleton, failed, Option.map_some, kept,
      Option.some.injEq] at run
    rw [← run]
    refine ⟨al.weaken.dismiss.tighten fun some_waits => absurd emptied some_waits, fun y => ?_⟩
    rw [(dismiss_list y).1]
    exact gone y

/-- Ending the download of `h` may free a slot that was never connected only when
no queue is left behind by it. -/
def Clear (h : HttpId) (p : Pool) : Prop :=
  ∀ b l, (p.http h).backend = some b → (p.backend b).wasTCPConnected = false →
    (p.backend b).backendList = some l → (p.list l).pending = [] ∨
      (p.list l).busy = [b] ∧ (p.list l).pending.length = 1

theorem downloadFinished_attended (d : Dismisses disconnect) (w : WellFormed limit none p)
    (a : Attended left none p) (own : (p.http h).backend = some b) (clear : Clear h p)
    (run : downloadFinished disconnect system b p = some p') :
    Attended (h :: left) none p' ∧
      ((p'.backend b).wasTCPConnected = false → ∀ l, b ∉ (p'.list l).busy) := by
  have linked := w.back h b own
  obtain ⟨l, home⟩ := w.homed b h linked
  obtain ⟨notIdle, carried⟩ := w.of_linked linked home
  have taken : WellFormed limit (some b) (unlink b h p) := w.hold.unlink linked
  have au : Attended (h :: left) none (unlink b h p) := a.unlink b h
  cases connected : (p.backend b).wasTCPConnected with
  | false =>
    have same_run := downloadFinished_unconnected system disconnect linked home connected
    have same : SameLinks _ (abandon l b h p) := abandon_same
    obtain ⟨free, unanswered⟩ := abandon_taken (l := l) (h := h) connected
    generalize abandon l b h p = s at same_run same free unanswered
    have ws : WellFormed limit none s := same.wellFormed
      ((taken.leaveBusy (.inl rfl)).release (by simp) (taken.not_mem_leaveBusy (by simpa using home)))
    have as : Attended (h :: left) (some l) s := Attended.of_same same (au.loosen.leaveBusy (by simp))
    have home' : (s.backend b).backendList = some l := by
      rw [(same.backend b).2.1]
      simpa using home
    obtain ⟨a', gone⟩ := remoteSocketClosed_attended_unconnected d ws as unanswered free home'
      (by
        rw [same.list]
        refine (clear b l own connected home).imp (by simp) fun last => ⟨?_, by simpa using last.2⟩
        simp [leaveBusy, last.1]) (same_run.symm.trans run)
    exact ⟨a', fun _ => gone⟩
  | true =>
    by_cases empty : (p.list l).pending = []
    · rw [downloadFinished_idle linked home connected empty, Option.some.injEq] at run
      rw [← run]
      refine ⟨(au.loosen.leaveBusy (by simp)).park.tighten fun queue => absurd ?_ queue, ?_⟩
      · simpa using empty
      · simp [connected]
    · obtain ⟨found, q, served, result, -, answered, -⟩ := serveNext_returns system d taken
        (by simp) (by simpa using home) (by simpa using notIdle) (by simpa using carried)
        ((p.list l).pending.length + 1) (by simpa using empty) (by simp)
      have busy : b ∈ ((unlink b h p).list l).busy := by
        obtain ⟨x, member⟩ := a.carried b h linked
        have := w.home x b (List.mem_append_left _ member)
        rw [home] at this
        obtain rfl : l = x := Option.some_inj.mp this
        exact member
      have aq := serveNext_attended system d taken au busy _ served
      rw [downloadFinished_next linked home connected empty, served, Option.map_some,
        Option.some.injEq] at run
      rw [← run]
      have still : (q.backend b).wasTCPConnected = true := answered (by simpa using connected)
      cases found with
      | true => exact ⟨aq, by simp [still]⟩
      | false =>
        obtain ⟨-, emptied, drained⟩ := result
        refine ⟨(aq.loosen.leaveBusy (by simp [drained.backend])).park.tighten
          fun queue => absurd ?_ queue, by simp [still]⟩
        simpa using emptied

theorem disconnectBackend_attended (w : WellFormed limit none p) (a : Attended left none p)
    (clear : Clear h p) (depth : ℕ) (fromDestructor : Bool)
    (run : disconnectBackend system (depth + 2) fromDestructor h p = some p') :
    Attended (h :: left) none p' ∧ (p'.http h).isAlive = false ∧
      ((p.http h).clientsList = [] → (p'.http h).clientsList = []) ∧
      ∀ b, (p.http h).backend = some b → (p'.backend b).wasTCPConnected = false →
        ∀ l, b ∉ (p'.list l).busy := by
  cases own : (p.http h).backend with
  | none =>
    rw [disconnectBackend_waiting (depth + 1) _ own, Option.some.injEq] at run
    rw [← run]
    obtain ⟨dead, clients⟩ := retire_http (h := h) (p := leavePending h p) fromDestructor
    exact ⟨a.weaken.leavePending.retire fromDestructor, dead, by simp [clients], by simp⟩
  | some b =>
    obtain ⟨q, finished, -, -, -, quiet⟩ :=
      downloadFinished_returns system (disconnectBackend_dismisses depth) w own
    obtain ⟨aq, gone⟩ := downloadFinished_attended (disconnectBackend_dismisses depth) w a own clear
      finished
    rw [disconnectBackend, own] at run
    dsimp only at run
    rw [finished, Option.map_some, Option.some.injEq] at run
    rw [← run]
    obtain ⟨dead, clients⟩ := retire_http (h := h) (p := q) fromDestructor
    refine ⟨aq.retire fromDestructor, dead, fun none_left => by rw [clients, quiet none_left], ?_⟩
    rintro _ ⟨⟩ unanswered l
    rw [(retire_unchanged fromDestructor).2.2.2.1]
    rw [(retire_unchanged fromDestructor).2.2.2.2.1] at unanswered
    exact gone unanswered l

theorem unlink_allocBackend (other : b ≠ p.newBackend) :
    unlink b h (allocBackend system l p) = allocBackend system l (unlink b h p) := by
  simp only [unlink, allocBackend, setBackend, setHttp, Pool.mk.injEq, true_and, and_true]
  rw [Function.update_of_ne other, Function.update_comm (Ne.symm other)]
  rfl

/-- A request that has left its backend gets another one in the slot it frees. -/
theorem reassign_attended (a : Attended [h] (some l)
      (unlink b h (setHttp h ({ · with requestSended := false }) p)))
    (idle_free : ∀ c ∈ (p.list l).idle, c ≠ b) (other : b ≠ p.newBackend)
    (started : system.connect p.newBackend = .started)
    (full : (p.list l).pending ≠ [] →
      (p.list l).idle = [] ∧ p.maxBackend ≤ (p.list l).busy.length + 1) :
    Attended [] none (reassign system l b h p) := by
  cases last : (p.list l).idle.getLast? with
  | some c =>
    have member := List.mem_of_getLast? last
    refine Attended.of_same (reassign_idle last (idle_free c member).symm)
      (((a.takeIdle).link (l := l) (by simp)).tighten fun queue => ?_)
    have waits : (p.list l).pending ≠ [] := by simpa using queue
    rw [(full waits).1] at member
    cases member
  | none =>
    have noIdle := List.getLast?_eq_none_iff.mp last
    rw [reassign_new noIdle other started,
      unlink_allocBackend (p := setHttp h ({ · with requestSended := false }) p) other]
    refine (((a.allocBackend system).enterBusy (b := p.newBackend)).link (l := l)
      (by simp [enterBusy])).tighten fun queue => ?_
    have waits : (p.list l).pending ≠ [] := by simpa [enterBusy] using queue
    refine ⟨by simpa [enterBusy] using noIdle, ?_⟩
    change p.maxBackend ≤ _
    simpa [enterBusy] using (full waits).2

theorem reassign_attended_busy (w : WellFormed limit none p) (a : Attended [] none p)
    (started : system.connect p.newBackend = .started) (member : b ∈ (p.list l).busy)
    (linked : (p.backend b).http = some h) :
    Attended [] none (reassign system l b h (leaveBusy l b p)) := by
  have au : Attended [h] (some l) (unlink b h (leaveBusy l b p)) :=
    (a.unlink b h).loosen.leaveBusy (by simp)
  refine reassign_attended (Attended.of_same ((SameLinks.setHttp ⟨rfl, rfl, id, id⟩).unlink b h) au)
    ?_ ?_ started ?_
  · rintro c idle rfl
    have listed : c ∈ (p.list l).idle := by simpa [leaveBusy] using idle
    rw [(w.idle l c listed).1] at linked
    cases linked
  · intro new
    have unlinked := (w.newBackend b (Nat.le_of_eq (Eq.symm new))).1
    rw [linked] at unlinked
    cases unlinked
  · intro queue
    rw [leaveBusy_pending] at queue
    obtain ⟨noIdle, most⟩ := a.full l (Option.some_ne_none _).symm queue
    refine ⟨by simpa [leaveBusy] using noIdle, ?_⟩
    change p.maxBackend ≤ _
    have := List.length_pos_of_mem member
    simp only [leaveBusy, setList_list, if_true, List.length_erase_of_mem member]
    omega

theorem remoteSocketClosed_attended (w : WellFormed limit none p) (a : Attended [] none p)
    (started : system.connect p.newBackend = .started)
    (clear : (p.backend b).wasTCPConnected = false → ∀ l, b ∉ (p.list l).busy)
    (run : remoteSocketClosed disconnect system b p = some p') : Attended [] none p' := by
  have same : SameLinks p (shut b p) := .shut b
  have closed : (shut b p).backend b = _ := shut_backend
  unfold remoteSocketClosed at run
  generalize shut b p = q at same closed run
  have wq : WellFormed limit none q := same.wellFormed w
  have aq : Attended [] none q := Attended.of_same same a
  dsimp only at run
  rw [closed] at run
  split at run
  · rw [Option.some.injEq] at run
    rw [← run]
    exact aq
  · rename_i l home
    cases connected : (p.backend b).wasTCPConnected with
    | false =>
      have apart : ∀ x, b ∉ (q.list x).busy := by
        rw [same.list]
        exact clear connected
      have free := aq.free apart
      have busy : ((leaveBusy l b q).list l).busy = (q.list l).busy := by
        simpa [leaveBusy] using List.erase_of_not_mem (apart l)
      have some_busy : (!((leaveBusy l b q).list l).pending.isEmpty &&
          ((leaveBusy l b q).list l).busy.isEmpty) = false := by
        rw [busy, leaveBusy_pending]
        by_cases waits : (q.list l).pending = []
        · simp [waits]
        · have := (aq.full l (Option.some_ne_none _).symm waits).2
          have := wq.maxBackend
          have : (q.list l).busy ≠ [] := by
            rw [← List.length_pos_iff]
            omega
          simp [this]
      simp only [connected, Bool.not_false, if_true, some_busy, Bool.false_eq_true, if_false,
        Option.map_some, leaveBusy_backend, free, Option.some.injEq] at run
      rw [← run]
      refine (aq.loosen.leaveBusy free).tighten fun queue => ?_
      rw [leaveBusy_pending] at queue
      rw [busy, leaveBusy_idle]
      exact aq.full l (Option.some_ne_none _).symm queue
    | true =>
      simp only [connected, Bool.not_true, Bool.false_eq_true, if_false] at run
      split at run
      · rename_i member
        obtain ⟨h, linked, back⟩ := wq.busy l b member (Option.some_ne_none _).symm
        rw [leaveBusy_backend, linked] at run
        obtain rfl := Option.some_inj.mp run
        exact reassign_attended_busy wq aq (by rw [same.newBackend]; exact started) member linked
      · rw [Option.some.injEq] at run
        rw [← run]
        exact aq.leaveIdle

theorem deleteBackend_attended (a : Attended [] none p)
    (apart : ∀ l, b ∉ (p.list l).busy) : Attended [] none (deleteBackend b p) := by
  have ac : Attended [] none (close b p) := Attended.of_same (SameLinks.close b) a
  have free : ((close b p).backend b).http = none := ac.free apart
  unfold deleteBackend
  dsimp only
  rw [free]
  dsimp only
  split
  · exact ac
  · rename_i l home
    refine Attended.leaveIdle ((ac.loosen.leaveBusy free).tighten fun queue => ?_)
    rw [leaveBusy_pending] at queue
    have busy : ((leaveBusy l b (close b p)).list l).busy = (p.list l).busy := by
      simpa [leaveBusy, close] using List.erase_of_not_mem (apart l)
    rw [busy, leaveBusy_idle]
    exact ac.full l (Option.some_ne_none _).symm queue

/-- Every socket that is opened during the event gets its connection under way. -/
def Connects (system : System) : Prop := ∀ b, system.connect b = .started

theorem tryConnectInternalList_attended (w : WellFormed limit none p) (a : Attended [h] none p)
    (connects : Connects system) (https : Bool) (s : SockAddr) :
    Attended [] none (tryConnectInternalList system https s h p).1 := by
  unfold tryConnectInternalList
  split
  · rename_i l found
    have aq : Attended [h] none (setHttp h ({ · with backendList := some l }) p) := a.setHttp _
    have home : ((setHttp h ({ · with backendList := some l }) p).http h).backendList = some l := by
      simp
    dsimp only
    generalize setHttp h ({ · with backendList := some l }) p = q at aq home ⊢
    split
    · rename_i b last
      have member := List.mem_of_getLast? last
      refine Attended.of_same (SameLinks.readyToWrite system h)
        (((aq.loosen.takeIdle).link (l := l) (by simp)).tighten fun queue => ?_)
      have waits : (q.list l).pending ≠ [] := by simpa using queue
      rw [(aq.full l (Option.some_ne_none _).symm waits).1] at member
      cases member
    · rename_i noIdle
      split
      · rename_i room
        rw [if_pos (connects _)]
        refine ((((show Attended _ (some l) _ from aq.loosen).allocBackend system).enterBusy
          (b := q.newBackend)).link (l := l) (by simp [enterBusy])).tighten fun queue => ?_
        have waits : (q.list l).pending ≠ [] := by simpa [enterBusy] using queue
        exact absurd (aq.full l (Option.some_ne_none _).symm waits).2 (not_le.mpr room)
      · rename_i taken
        have same : SameLinks q (setHttp h ({ · with pending := true }) q) :=
          .setHttp ⟨rfl, rfl, id, id⟩
        refine (Attended.of_same same aq).enqueue (by simpa using home) ?_ (not_lt.mp taken)
        exact List.getLast?_eq_none_iff.mp noIdle
  · have emptied : Attended [h] (some p.newList)
        (setList p.newList (fun _ => ⟨[], [], [], s⟩) p) := by
      obtain ⟨noBusy, -, noPending⟩ := w.newList _ le_rfl
      refine a.loosen.setList ?_ ?_
      · simp [noPending]
      · simp [noBusy]
    have al : Attended [h] (some p.newList)
        { setList p.newList (fun _ => ⟨[], [], [], s⟩) p with newList := p.newList + 1 } :=
      ⟨emptied.waiting, emptied.full, emptied.carried⟩
    dsimp only
    rw [if_pos (connects _)]
    have linked := ((((al.setHttp ({ · with backendList := some p.newList })).allocBackend
      (l := p.newList) system).enterBusy (b := p.newBackend)).link (b := p.newBackend)
        (l := p.newList) (by simp [enterBusy])).tighten fun queue => absurd ?_ queue
    · exact ⟨linked.waiting, linked.full, linked.carried⟩
    · simp [enterBusy]

theorem startDownload_attended (w : WellFormed limit none p) (a : Attended [] none p)
    (connects : Connects system) (r : Request) (s : SockAddr)
    (done : startDownload system r s p = some p') : Attended [] none p' := by
  have wh := w.allocHttp system r.https r.path
  have loose : Loose p.newHttp (Pool.allocHttp system r.https r.path p) := w.loose_new r.https r.path
  have ah : Attended [p.newHttp] none (allocHttp system r.https r.path p) := by
    have set := (a.weaken (h := p.newHttp)).setHttp (fun _ => ⟨r.https, r.path, [],
      system.currentTime, 0, [], [], [], false, false, none, none⟩)
    exact ⟨set.waiting, set.full, set.carried⟩
  unfold startDownload at done
  dsimp only at done
  split at done
  · cases done
  · obtain rfl := Option.some_inj.mp done
    refine Attended.of_same ((SameLinks.setPath _ _ _).trans (.addClient _ _)) ?_
    obtain ⟨wq, loose⟩ := wh.setLoose
      (f := ({ · with host := r.host, uri := r.uri, etagBackend := r.etag })) loose loose.waits
    obtain ⟨-, same⟩ := tryConnectInternalList_wellFormed system wq loose
      ((setHttp p.newHttp ({ · with host := r.host, uri := r.uri, etagBackend := r.etag })
        (allocHttp system r.https r.path p)).http p.newHttp).https s
    have connected := tryConnectInternalList_attended wq (ah.setHttp _) connects
      ((setHttp p.newHttp ({ · with host := r.host, uri := r.uri, etagBackend := r.etag })
        (allocHttp system r.https r.path p)).http p.newHttp).https s
    unfold tryConnect
    dsimp only
    refine Attended.of_same (SameLinks.setHttp ?_) connected
    exact ⟨same.symm, rfl, id, id⟩

theorem Clear.of_same (clear : Clear h p) (http : (p'.http h).backend = (p.http h).backend)
    (backend : p'.backend = p.backend) (list : p'.list = p.list) : Clear h p' := by
  unfold Clear
  rw [http, backend, list]
  exact clear

theorem disconnectBackend_quiet (w : WellFormed limit none p) (a : Attended [] none p)
    (clear : Clear h p) (none_left : (p.http h).clientsList = []) (depth : ℕ)
    (fromDestructor : Bool)
    (run : disconnectBackend system (depth + 2) fromDestructor h p = some p') :
    Attended [] none p' := by
  obtain ⟨a', dead, quiet, -⟩ := disconnectBackend_attended w a clear depth fromDestructor run
  refine a'.settle ?_
  simp [Wanted, dead, quiet none_left]

theorem joinDownload_attended (w : WellFormed limit none p) (a : Attended [] none p) (depth : ℕ)
    (r : Request) (clear : ∀ h, p.pathTo r.https r.path = some h → (p.http h).isAlive = false →
      Clear h p) {found : Bool}
    (run : joinDownload system (depth + 2) r p = some (found, p')) : Attended [] none p' := by
  unfold joinDownload at run
  split at run
  · obtain ⟨-, rfl⟩ := Prod.mk.inj (Option.some_inj.mp run)
    exact a
  · rename_i h named
    split at run
    · obtain ⟨-, rfl⟩ := Prod.mk.inj (Option.some_inj.mp run)
      exact Attended.of_same (SameLinks.addClient h r.client) a
    · rename_i dead
      obtain ⟨q, ended, result⟩ := Option.map_eq_some_iff.mp run
      obtain ⟨-, rfl⟩ := Prod.mk.inj result
      have same : SameLinks p (disconnectFrontend h (setPath r.https r.path none p)) :=
        (SameLinks.setPath r.https r.path none).trans (.disconnectFrontend h)
      refine disconnectBackend_quiet (same.wellFormed w) (Attended.of_same same a) ?_ ?_ depth false ended
      · exact (clear h named (by simpa using dead)).of_same (same.http h).1 rfl rfl
      · simp [disconnectFrontend]

theorem backendTimeout_attended (w : WellFormed limit none p) (a : Attended [] none p)
    (orderly : Overdue system b p → ∀ h, (p.backend b).http = some h →
      Connects system ∧ Clear h p) (depth : ℕ)
    (run : backendTimeout system (depth + 2) b p = some p') : Attended [] none p' := by
  unfold backendTimeout at run
  split at run
  · rw [Option.some.injEq] at run
    rw [← run]
    exact a
  · rename_i h linked
    dsimp only at run
    split at run
    · rw [Option.some.injEq] at run
      rw [← run]
      exact Attended.of_same (SameLinks.setBackend ⟨rfl, rfl, id, id⟩) a
    · rename_i due
      obtain ⟨connects, clear⟩ := orderly (not_lt.mp due) h linked
      have same : SameLinks p (disconnectFrontend h (backendError h p)) := .dismissed h
      have backends : (disconnectFrontend h (backendError h p)).backend = p.backend :=
        backendError_unchanged.2.1
      have lists : (disconnectFrontend h (backendError h p)).list = p.list := same.list
      have wq := same.wellFormed w
      have aq := Attended.of_same same a
      have cq := clear.of_same (same.http h).1 backends lists
      obtain ⟨q, ended, w'⟩ := disconnectBackend_returns system (h := h) wq depth false
      obtain ⟨a', dead, quiet, gone⟩ := disconnectBackend_attended wq aq cq depth false ended
      rw [ended, Option.bind_some] at run
      have own : (p.http h).backend = some b := by
        obtain ⟨l, member⟩ := a.carried b h linked
        obtain ⟨x, named, back⟩ := w.busy l b member (Option.some_ne_none _).symm
        obtain rfl : h = x := Option.some_inj.mp (linked.symm.trans named)
        exact back
      refine remoteSocketClosed_attended ((SameLinks.close b).wellFormed w')
        (Attended.of_same (SameLinks.close b) (a'.settle ?_)) (connects _) (fun unanswered => ?_) run
      · simp [Wanted, dead, quiet (by simp [disconnectFrontend])]
      · exact gone b ((same.http h).1.trans own) (by simpa [close] using unanswered)

end operations

/-- The events that strand nobody: sockets connect, a remote close or a deletion
finds no unanswered backend in a slot, and no queue is left behind a download that
ends on such a backend. -/
def Orderly : System × Event → Pool → Prop
  | (system, .dnsRight r _), p => Connects system ∧ ∀ h, p.pathTo r.https r.path = some h →
    (p.http h).isAlive = false → Clear h p
  | (_, .loadUrl r), p => ∀ h, p.pathTo r.https r.path = some h →
    (p.http h).isAlive = false → Clear h p
  | (_, .flushRead h), p | (_, .endOfBody h), p => Clear h p
  | (system, .remoteSocketClosed b), p => Connects system ∧
    ((p.backend b).wasTCPConnected = false → ∀ l, b ∉ (p.list l).busy)
  | (system, .backendTimeout b), p => Overdue system b p → ∀ h, (p.backend b).http = some h →
    Connects system ∧ Clear h p
  | (_, .deleteBackend b), p => ∀ l, b ∉ (p.list l).busy
  | _, _ => True

theorem httpTimeout_attended {limit : ℕ} {system : System} {p p' : Pool} {h : HttpId}
    (w : WellFormed limit none p) (a : Attended [] none p) (depth : ℕ)
    (run : httpTimeout system (depth + 2) h p = some p') : Attended [] none p' := by
  unfold httpTimeout at run
  generalize (if (p.http h).pending = true then 30 else 5) = secondForTimeout at run
  dsimp only at run
  have same : SameLinks p (disconnectFrontend h p) := .disconnectFrontend h
  split at run
  · rw [Option.some.injEq] at run
    rw [← run]
    exact Attended.of_same (SameLinks.setHttp ⟨rfl, rfl, id, id⟩) a
  · split at run
    · rw [Option.some.injEq] at run
      rw [← run]
      exact Attended.of_same (same.trans (.close _)) a
    · rename_i waits
      refine disconnectBackend_quiet (same.wellFormed w) (Attended.of_same same a) ?_
        (by simp [disconnectFrontend]) depth false run
      intro b l own
      rw [waits] at own
      cases own

theorem step_attended {limit : ℕ} {p p' : Pool} (w : WellFormed limit none p)
    (a : Attended [] none p) {e : System × Event} (orderly : Orderly e p) (taken : Step e p p') :
    Attended [] none p' := by
  obtain ⟨enabled, depth, returns⟩ := taken
  have run := returns 2
  obtain ⟨system, e⟩ := e
  cases e with
  | dnsRight r s =>
    obtain ⟨⟨found, q⟩, joined, rest⟩ := Option.bind_eq_some_iff.mp run
    have aq := joinDownload_attended w a depth r orderly.2 joined
    have wq : WellFormed limit none q := joinDownload_wellFormed w depth joined
    dsimp only at rest
    split at rest
    · exact Option.some_inj.mp rest ▸ aq
    · exact startDownload_attended wq aq orderly.1 r s rest
  | loadUrl r =>
    obtain ⟨⟨found, q⟩, joined, rfl⟩ := Option.map_eq_some_iff.mp run
    exact joinDownload_attended w a depth r orderly joined
  | removeClient h client =>
    exact Option.some_inj.mp run ▸ Attended.of_same (SameLinks.removeClient h client) a
  | statusLine h code =>
    exact Option.some_inj.mp run ▸ Attended.of_same (SameLinks.statusLine h code) a
  | readyToWrite h =>
    exact Option.some_inj.mp run ▸ Attended.of_same (SameLinks.readyToWrite system h) a
  | disconnectFrontend h =>
    exact Option.some_inj.mp run ▸ Attended.of_same (SameLinks.disconnectFrontend h) a
  | flushRead h =>
    obtain ⟨q, ended, rfl⟩ := Option.map_eq_some_iff.mp run
    obtain ⟨aq, dead, -, -⟩ := disconnectBackend_attended w a orderly depth false ended
    refine (Attended.of_same (SameLinks.disconnectFrontend h) aq).settle ?_
    have : ((disconnectFrontend h q).http h).isAlive = (q.http h).isAlive := by
      simp [disconnectFrontend, Http.isAlive]
    rw [Wanted, this, dead]
    simp [disconnectFrontend]
  | endOfBody h =>
    have same : SameLinks p (disconnectFrontend h p) := .disconnectFrontend h
    exact disconnectBackend_quiet (same.wellFormed w) (Attended.of_same same a)
      (orderly.of_same (same.http h).1 rfl rfl) (by simp [disconnectFrontend]) depth false run
  | remoteSocketClosed b => exact remoteSocketClosed_attended w a (orderly.1 _) orderly.2 run
  | startHttpsFails b => exact Option.some_inj.mp run ▸ Attended.of_same (SameLinks.close b) a
  | backendTimeout b => exact backendTimeout_attended w a orderly depth run
  | httpTimeout h => exact httpTimeout_attended w a depth run
  | deleteBackend b => exact Option.some_inj.mp run ▸ deleteBackend_attended a orderly
  | deleteHttp h =>
    obtain ⟨q, ended, rfl⟩ := Option.map_eq_some_iff.mp run
    have same : SameLinks p (disconnectFrontend h p) := .disconnectFrontend h
    have waits : (p.http h).backend = none := (w.retired h enabled).1
    have aq := disconnectBackend_quiet (same.wellFormed w) (Attended.of_same same a) (h := h)
      (fun b l own => by rw [(same.http h).1, waits] at own; cases own)
      (by simp [disconnectFrontend]) depth true ended
    exact ⟨aq.waiting, aq.full, aq.carried⟩

theorem initial_attended (maxBackend : ℕ) : Attended [] none (initial maxBackend) := by
  constructor <;> simp [initial, Wanted, Http.isAlive]

/-- In every run of orderly events, a wanted object without a backend is queued,
and only in a list whose slots are all taken. -/
theorem no_request_is_stranded {maxBackend : ℕ} (positive : 1 ≤ maxBackend) {p : Pool}
    (reached : Reach Step Orderly (· = initial maxBackend) p) (h : HttpId)
    (wanted : (p.http h).isAlive = true ∨ (p.http h).clientsList ≠ [])
    (waits : (p.http h).backend = none) :
    ∃ l, (p.http h).backendList = some l ∧ h ∈ (p.list l).pending ∧ (p.list l).idle = [] ∧
      maxBackend ≤ (p.list l).busy.length := by
  have both : WellFormed maxBackend none p ∧ Attended [] none p := by
    refine reached.invariant (P := fun q => WellFormed maxBackend none q ∧ Attended [] none q) ?_ ?_
    · rintro _ rfl
      exact ⟨initial_wellFormed positive, initial_attended maxBackend⟩
    · rintro e q q' ⟨w, a⟩ orderly taken
      exact ⟨step_wellFormed w taken, step_attended w a orderly taken⟩
  obtain ⟨w, a⟩ := both
  obtain ⟨l, home, member⟩ := a.waiting h (List.not_mem_nil) wanted waits
  obtain ⟨noIdle, full⟩ := a.full l (Option.some_ne_none _).symm (List.ne_nil_of_mem member)
  exact ⟨l, home, member, noIdle, w.maxBackend.1 ▸ full⟩

/-- Two requests under a limit of one connection: the second is queued, and still
is after a second without an answer to the first. -/
theorem second_request_is_queued : ∃ p, Reach Step Orderly (· = initial 1) p ∧
    ∃ l, 1 ∈ (p.list l).pending ∧ (p.list l).idle = [] ∧ 1 ≤ (p.list l).busy.length := by
  have queued : Reach Step Orderly (· = initial 1) _ :=
    .next (e := (⟨fun _ => .started, 1000000⟩,
        .dnsRight ⟨false, [100], [97], [48], [], 8⟩ ⟨.zero, 80⟩))
      (.next (e := (⟨fun _ => .started, 1000000⟩,
          .dnsRight ⟨false, [99], [97], [47], [], 7⟩ ⟨.zero, 80⟩))
        (.start rfl) ⟨fun _ => rfl, by simp [Pool.initial]⟩ ⟨trivial, 0, fun _ => rfl⟩)
      ⟨fun _ => rfl, fun h (named : none = some h) => absurd named.symm (Option.some_ne_none h)⟩
      ⟨trivial, 0, fun _ => rfl⟩
  have reached : Reach Step Orderly (· = initial 1) _ :=
    queued.next (e := (⟨fun _ => .started, 1001000⟩, .backendTimeout 0))
      (fun (due : Overdue _ 0 _) => absurd due (by unfold Overdue; decide))
      ⟨Nat.zero_lt_one, 0, fun _ => rfl⟩
  obtain ⟨l, -, rest⟩ := no_request_is_stranded le_rfl reached 1 (.inl (by decide)) rfl
  exact ⟨_, reached, l, rest⟩

/-- The first connection is refused: its request is registered, alive and has a
client, but has no backend and is not queued. -/
theorem refused_request_is_stranded : ∃ p, Reach Step anyStep (· = initial 1) p ∧
    p.pathTo false [99] = some 0 ∧ (p.http 0).isAlive = true ∧ (p.http 0).clientsList = [7] ∧
    (p.http 0).backend = none ∧ ∀ l, (p.http 0).backendList = some l → 0 ∉ (p.list l).pending := by
  have reached : Reach Step anyStep (· = initial 1) _ :=
    .next (e := (⟨fun _ => .started, 1000000⟩, .remoteSocketClosed 0))
      (.next (e := (⟨fun _ => .started, 1000000⟩,
          .dnsRight ⟨false, [99], [97], [47], [], 7⟩ ⟨.zero, 80⟩))
        (.start rfl) trivial ⟨trivial, 0, fun _ => rfl⟩)
      trivial ⟨Nat.zero_lt_one, 0, fun _ => rfl⟩
  refine ⟨_, reached, rfl, rfl, rfl, rfl, ?_⟩
  rintro l ⟨⟩
  decide

end FastCgiCdn.PoolStranding
