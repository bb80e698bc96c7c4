import FastCgiCdn.PoolOutcomes

/-! When a registered list is left without backends and requests. The erasure from
the address maps is never reached, since a busy backend always has a request, so a
list stays registered whatever becomes of it. -/

namespace FastCgiCdn.EmptyLists

open GuardedRuns DnsModel PoolModel Pool PoolInvariant PoolWellFormed PoolOutcomes RangeFor

def Empty (x : BackendList) : Prop := x.busy = [] ∧ x.idle = [] ∧ x.pending = []

def NoneEmpty (p : Pool) : Prop :=
  ∀ https addr l, p.addressTo https addr = some l → ¬Empty (p.list l)

section lists

variable {limit : ℕ} {system : System} {p : Pool} {b : BackendId} {x : BackendList}

/-- The closing of a backend takes the last of its list. A queued object goes with an
unanswered backend, and a busy one with an answer is replaced. -/
def ClosedLast (system : System) (p : Pool) (b : BackendId) (x : BackendList) : Prop :=
  x.busy.erase b = [] ∧ if (p.backend b).wasTCPConnected then
    x.pending = [] ∧ if b ∈ x.busy then x.idle = [] ∧ system.connect p.newBackend ≠ .started
      else x.idle.erase b = []
  else x.idle = [] ∧ x.pending.length ≤ 1

/-- The end of a download takes the last of its list. -/
def FinishedLast (p : Pool) (b : BackendId) (x : BackendList) : Prop :=
  x.idle = [] ∧ if (p.backend b).wasTCPConnected then
    match unserved p x.pending with
    | [] => (p.backend b).isValid = false ∧ x.busy.erase b = []
    | _ :: rest => x.busy = [] ∧ rest = []
  else x.busy.erase b = [] ∧ x.pending.length ≤ 1

def TimeoutLast (system : System) (p : Pool) (b : BackendId) (x : BackendList) : Prop :=
  x.idle = [] ∧ x.busy.erase b = [] ∧ if (p.backend b).wasTCPConnected then
    match unserved p x.pending with
    | [] => True
    | _ :: rest => rest = [] ∧ (b ∈ x.busy → system.connect p.newBackend ≠ .started)
  else x.pending.length ≤ 3

theorem reassignedList_empty_iff : Empty (reassignedList system p x) ↔
    Empty x ∧ system.connect p.newBackend ≠ .started := by
  unfold reassignedList Empty
  cases last : x.idle.getLast? with
  | some c =>
    have some_idle : x.idle ≠ [] := List.ne_nil_of_mem (List.mem_of_getLast? last)
    simp [some_idle]
  | none =>
    dsimp only
    split
    · rename_i started
      simp [started]
    · rename_i failed
      simp [failed]

theorem failed_eq_nil {busy : List BackendId} (none_left : busy = []) (waiting : List HttpId) :
    failed busy waiting = [] ↔ waiting.length ≤ 1 := by
  rw [failed, if_pos none_left, skipped_eq_nil_iff]

theorem closedList_empty_iff : Empty (closedList system p b x) ↔ ClosedLast system p b x := by
  unfold closedList ClosedLast
  cases (p.backend b).wasTCPConnected with
  | true =>
    simp only [if_true]
    by_cases busy : b ∈ x.busy
    · rw [if_pos busy, if_pos busy, reassignedList_empty_iff]
      unfold Empty
      tauto
    · rw [if_neg busy, if_neg busy, List.erase_of_not_mem busy]
      unfold Empty
      tauto
  | false =>
    simp only [Bool.false_eq_true, if_false]
    refine and_congr_right fun none_left => and_congr_right fun _ => ?_
    exact failed_eq_nil none_left x.pending

theorem finishedList_empty_iff : Empty (finishedList p b x) ↔ FinishedLast p b x := by
  unfold finishedList FinishedLast
  cases (p.backend b).wasTCPConnected with
  | true =>
    simp only [if_true]
    cases unserved p x.pending with
    | nil =>
      unfold Empty
      cases (p.backend b).isValid with
      | true => simp
      | false => simp [and_comm]
    | cons h rest =>
      unfold Empty
      tauto
  | false =>
    simp only [Bool.false_eq_true, if_false]
    unfold Empty
    constructor
    · rintro ⟨none_left, noIdle, left⟩
      exact ⟨noIdle, none_left, (failed_eq_nil none_left _).mp left⟩
    · rintro ⟨noIdle, none_left, few⟩
      exact ⟨none_left, noIdle, (failed_eq_nil none_left _).mpr few⟩

theorem timeoutList_empty_iff (once : (x.busy ++ x.idle).Nodup) (apart : b ∉ x.idle) :
    Empty (closedList system p b (finishedList p b x)) ↔ TimeoutLast system p b x := by
  have gone : b ∉ x.busy.erase b := (List.nodup_append.mp once).1.not_mem_erase
  rw [closedList_empty_iff]
  unfold ClosedLast finishedList TimeoutLast
  cases (p.backend b).wasTCPConnected with
  | true =>
    simp only [if_true]
    cases unserved p x.pending with
    | nil =>
      have parked : (if (p.backend b).isValid = true then x.idle ++ [b] else x.idle).erase b =
          x.idle := by
        split
        · simp [List.erase_append_right _ apart]
        · exact List.erase_of_not_mem apart
      dsimp only
      rw [if_neg gone, List.erase_of_not_mem gone, parked]
      tauto
    | cons h rest =>
      dsimp only
      by_cases busy : b ∈ x.busy
      · rw [if_pos busy]
        tauto
      · rw [if_neg busy, List.erase_of_not_mem apart]
        tauto
  | false =>
    simp only [Bool.false_eq_true, if_false, List.erase_of_not_mem gone]
    rw [and_left_comm]
    refine and_congr_right fun _ => and_congr_right fun none_left => ?_
    rw [failed, if_pos none_left, skipped_length]
    omega

end lists

section operations

variable {limit : ℕ} {system : System} {p p' : Pool} {b : BackendId} {h : HttpId} {l : ListId}

theorem empty_update_iff {y : BackendList} {l' : ListId}
    (list : p'.list = Function.update p.list l' y) (some_left : ¬Empty (p.list l)) :
    Empty (p'.list l) ↔ l' = l ∧ Empty y := by
  rw [list]
  by_cases own : l' = l
  · subst own
    simp
  · rw [Function.update_of_ne (Ne.symm own)]
    tauto

theorem empty_same_iff (list : p'.list = p.list) (some_left : ¬Empty (p.list l)) :
    Empty (p'.list l) ↔ False := by
  rw [list]
  tauto

def EndedLast (h : HttpId) (p : Pool) (l : ListId) : Prop :=
  match (p.http h).backend with
  | none => (p.http h).backendList = some l ∧ (p.list l).busy = [] ∧ (p.list l).idle = [] ∧
    (p.list l).pending.erase h = []
  | some b => (p.backend b).backendList = some l ∧ FinishedLast p b (p.list l)

theorem disconnectBackend_empty_iff (w : WellFormed limit none p) (depth : ℕ)
    (fromDestructor : Bool)
    (run : disconnectBackend system (depth + 2) fromDestructor h p = some p') :
    p'.addressTo = p.addressTo ∧ p'.newBackend = p.newBackend ∧
      ∀ l, ¬Empty (p.list l) → (Empty (p'.list l) ↔ EndedLast h p l) := by
  unfold EndedLast
  cases own : (p.http h).backend with
  | none =>
    obtain ⟨newBackend, addressTo, -, list⟩ :=
      disconnectBackend_queued system own (depth + 1) fromDestructor run
    refine ⟨addressTo, newBackend, fun l some_left => ?_⟩
    obtain ⟨busy, idle, pending⟩ := leavePending_list (h := h) (p := p) l
    rw [list]
    unfold Empty at some_left ⊢
    rw [busy, idle, pending]
    dsimp only
    by_cases home : (p.http h).backendList = some l
    · rw [if_pos home]
      tauto
    · rw [if_neg home]
      tauto
  | some b =>
    obtain ⟨l', home⟩ := w.homed b h (w.back h b own)
    have ended := disconnectBackend_outcome system w own home depth fromDestructor run
    refine ⟨ended.addressTo, ended.newBackend, fun l some_left => ?_⟩
    dsimp only
    rw [empty_update_iff ended.list some_left, finishedList_empty_iff, home, Option.some.injEq]
    refine and_congr_right ?_
    rintro rfl
    rfl

theorem endedLast_congr (w : WellFormed limit none p)
    (backend : (p'.http h).backend = (p.http h).backend)
    (home : (p'.http h).backendList = (p.http h).backendList) (backends : p'.backend = p.backend)
    (list : p'.list = p.list) (others : ∀ x, x ≠ h → p'.http x = p.http x) :
    EndedLast h p' l ↔ EndedLast h p l := by
  unfold EndedLast
  rw [backend, home, backends, list]
  cases own : (p.http h).backend with
  | none => rfl
  | some b =>
    have queue : unserved p' (p.list l).pending = unserved p (p.list l).pending := by
      refine unserved_congr fun x queued => others x ?_
      rintro rfl
      exact w.alone queued b (w.back x b own)
    unfold FinishedLast
    rw [backends, queue]

theorem disconnectFrontend_endedLast (w : WellFormed limit none p) :
    EndedLast h (disconnectFrontend h p) l ↔ EndedLast h p l := by
  have same : SameLinks p (disconnectFrontend h p) := .disconnectFrontend h
  refine endedLast_congr w (same.http h).1 (same.http h).2.1 rfl rfl fun x other => ?_
  simp [disconnectFrontend, other]

theorem backendTimeout_empty_iff (w : WellFormed limit none p)
    (linked : (p.backend b).http = some h) (overdue : Overdue system b p) (depth : ℕ)
    (run : backendTimeout system (depth + 2) b p = some p') : p'.addressTo = p.addressTo ∧
      ∀ l, ¬Empty (p.list l) → (Empty (p'.list l) ↔ (p.backend b).backendList = some l ∧
        if (p.http h).backend = some b then TimeoutLast system p b (p.list l)
        else ClosedLast system p b (p.list l)) := by
  obtain ⟨l', home⟩ := w.homed b h linked
  rw [home]
  simp only [Option.some.injEq]
  obtain own | ⟨left, -⟩ := w.stale b h linked
  · obtain ⟨addressTo, list⟩ := backendTimeout_own system w own home overdue depth run
    refine ⟨addressTo, fun l some_left => ?_⟩
    rw [empty_update_iff list some_left, timeoutList_empty_iff (w.nodup l')
      (w.of_linked linked home).1, if_pos own]
    refine and_congr_right ?_
    rintro rfl
    rfl
  · obtain ⟨addressTo, list⟩ := backendTimeout_stale system w linked left home overdue depth run
    refine ⟨addressTo, fun l some_left => ?_⟩
    rw [empty_update_iff list some_left, closedList_empty_iff, if_neg (by simp [left])]
    refine and_congr_right ?_
    rintro rfl
    rfl

theorem remoteSocketClosed_empty_iff {disconnect : HttpId → Pool → Option Pool}
    (d : Dismisses disconnect) (w : WellFormed limit none p)
    (run : remoteSocketClosed disconnect system b p = some p') : p'.addressTo = p.addressTo ∧
      ∀ l, ¬Empty (p.list l) → (Empty (p'.list l) ↔ (p.backend b).backendList = some l ∧
        ClosedLast system p b (p.list l)) := by
  have same : SameLinks p (shut b p) := .shut b
  cases home : (p.backend b).backendList with
  | none =>
    rw [remoteSocketClosed_homeless home, Option.some.injEq] at run
    rw [← run]
    refine ⟨same.addressTo, fun l some_left => ?_⟩
    rw [empty_same_iff same.list some_left]
    simp
  | some l' =>
    obtain ⟨addressTo, list⟩ := remoteSocketClosed_outcome system d w home run
    refine ⟨addressTo, fun l some_left => ?_⟩
    rw [empty_update_iff list some_left, closedList_empty_iff, Option.some.injEq]
    refine and_congr_right ?_
    rintro rfl
    rfl

theorem deleteBackend_eq : ∃ q : Pool, q.list = p.list ∧ q.addressTo = p.addressTo ∧
    deleteBackend b p = match (p.backend b).backendList with
      | none => q
      | some l => leaveIdle l b (leaveBusy l b q) := by
  unfold deleteBackend
  dsimp only
  have home : ((close b p).backend b).backendList = (p.backend b).backendList := by
    simp [close]
  cases ((close b p).backend b).http with
  | none =>
    refine ⟨close b p, rfl, rfl, ?_⟩
    cases left : (p.backend b).backendList <;> simp only [home, left]
  | some h =>
    refine ⟨unlink b h (close b p), rfl, rfl, ?_⟩
    have home' : ((unlink b h (close b p)).backend b).backendList =
        (p.backend b).backendList := by
      simpa using home
    change (match ((unlink b h (close b p)).backend b).backendList with
      | none => unlink b h (close b p)
      | some l => leaveIdle l b (leaveBusy l b (unlink b h (close b p)))) = _
    cases left : (p.backend b).backendList <;> simp only [home', left]

theorem deleteBackend_empty_iff : (deleteBackend b p).addressTo = p.addressTo ∧
    ∀ l, ¬Empty (p.list l) → (Empty ((deleteBackend b p).list l) ↔
      (p.backend b).backendList = some l ∧ (p.list l).busy.erase b = [] ∧
        (p.list l).idle.erase b = [] ∧ (p.list l).pending = []) := by
  obtain ⟨q, list, addressTo, result⟩ := deleteBackend_eq (b := b) (p := p)
  rw [result]
  cases (p.backend b).backendList with
  | none =>
    refine ⟨addressTo, fun l some_left => ?_⟩
    rw [empty_same_iff list some_left]
    simp
  | some l' =>
    refine ⟨addressTo, fun l some_left => ?_⟩
    have lists : (leaveIdle l' b (leaveBusy l' b q)).list = Function.update p.list l'
        { p.list l' with
          busy := (p.list l').busy.erase b
          idle := (p.list l').idle.erase b } := by
      rw [← list]
      simp [leaveIdle, leaveBusy, setList]
    dsimp only
    rw [empty_update_iff lists some_left, Option.some.injEq]
    refine and_congr_right ?_
    rintro rfl
    rfl

theorem httpTimeout_empty_iff (w : WellFormed limit none p) (depth : ℕ)
    (run : httpTimeout system (depth + 2) h p = some p') : p'.addressTo = p.addressTo ∧
      ∀ l, ¬Empty (p.list l) → (Empty (p'.list l) ↔
        HttpOverdue system h p ∧ (p.http h).backend = none ∧ EndedLast h p l) := by
  have same : SameLinks p (disconnectFrontend h p) := .disconnectFrontend h
  by_cases overdue : HttpOverdue system h p
  · rw [httpTimeout_overdue overdue] at run
    cases own : (p.http h).backend with
    | some b =>
      rw [own, Option.some.injEq] at run
      have closed : SameLinks p p' := run ▸ same.trans (.close b)
      refine ⟨closed.addressTo, fun l some_left => ?_⟩
      rw [empty_same_iff closed.list some_left]
      simp
    | none =>
      rw [own] at run
      obtain ⟨addressTo, -, ends⟩ :=
        disconnectBackend_empty_iff (same.wellFormed w) depth false run
      refine ⟨addressTo.trans same.addressTo, fun l some_left => ?_⟩
      rw [ends l some_left, disconnectFrontend_endedLast w]
      simp [overdue]
  · rw [httpTimeout_early overdue, Option.some.injEq] at run
    have touched : SameLinks p p' := run ▸ .setHttp ⟨rfl, rfl, id, id⟩
    refine ⟨touched.addressTo, fun l some_left => ?_⟩
    rw [empty_same_iff touched.list some_left]
    simp [overdue]

/-- What a new request makes of the list of its address. -/
def connectedList (system : System) (p : Pool) (h : HttpId) (x : BackendList) : BackendList :=
  match x.idle.getLast? with
  | some c => { x with idle := x.idle.dropLast, busy := x.busy ++ [c] }
  | none =>
    if x.busy.length < p.maxBackend then
      if system.connect p.newBackend = .started then { x with busy := x.busy ++ [p.newBackend] }
      else x
    else { x with pending := x.pending ++ [h] }

theorem connectedList_empty_iff {x : BackendList} (positive : 1 ≤ p.maxBackend) :
    Empty (connectedList system p h x) ↔
      Empty x ∧ system.connect p.newBackend ≠ .started := by
  unfold connectedList Empty
  cases last : x.idle.getLast? with
  | some c =>
    have some_idle : x.idle ≠ [] := List.ne_nil_of_mem (List.mem_of_getLast? last)
    simp [some_idle]
  | none =>
    dsimp only
    by_cases room : x.busy.length < p.maxBackend
    · rw [if_pos room]
      split
      · rename_i started
        simp [started]
      · rename_i failed
        simp [failed]
    · have some_busy : x.busy ≠ [] := List.length_pos_iff.mp (by omega)
      simp [room, some_busy]

variable (system h) in
theorem tryConnectInternalList_known {https : Bool} {s : SockAddr}
    (found : p.addressTo https s.sin6_addr = some l) :
    (tryConnectInternalList system https s h p).1.addressTo = p.addressTo ∧
      (tryConnectInternalList system https s h p).1.list =
        Function.update p.list l (connectedList system p h (p.list l)) := by
  unfold tryConnectInternalList connectedList
  rw [found]
  dsimp only
  rw [setHttp_list]
  cases (p.list l).idle.getLast? with
  | some c =>
    exact ⟨(SameLinks.readyToWrite system h).addressTo, (SameLinks.readyToWrite system h).list⟩
  | none =>
    dsimp only
    change (if (p.list l).busy.length < p.maxBackend then _ else _ : Pool × _).1.addressTo = _ ∧
      (if (p.list l).busy.length < p.maxBackend then _ else _ : Pool × _).1.list = _
    by_cases room : (p.list l).busy.length < p.maxBackend
    · rw [if_pos room, if_pos room]
      change (if system.connect p.newBackend = .started then _ else _ : Pool × _).1.addressTo = _ ∧
        (if system.connect p.newBackend = .started then _ else _ : Pool × _).1.list = _
      by_cases started : system.connect p.newBackend = .started
      · rw [if_pos started, if_pos started]
        exact ⟨rfl, rfl⟩
      · rw [if_neg started, if_neg started, Function.update_eq_self]
        exact ⟨rfl, rfl⟩
    · rw [if_neg room, if_neg room]
      exact ⟨rfl, rfl⟩

variable (system h) in
theorem tryConnectInternalList_unknown {https : Bool} {s : SockAddr}
    (unknown : p.addressTo https s.sin6_addr = none) :
    (∀ l, l ≠ p.newList → (tryConnectInternalList system https s h p).1.list l = p.list l) ∧
    ((tryConnectInternalList system https s h p).1.addressTo = p.addressTo ∨
      (tryConnectInternalList system https s h p).1.addressTo =
        (setAddress https s.sin6_addr (some p.newList) p).addressTo ∧
      ((tryConnectInternalList system https s h p).1.list p.newList).busy = [p.newBackend]) := by
  unfold tryConnectInternalList
  rw [unknown]
  dsimp only
  split
  · refine ⟨fun l other => ?_, .inr ⟨rfl, ?_⟩⟩
    · simp [setAddress, enterBusy, setList, link, setHttp, setBackend, allocBackend, other]
    · simp [setAddress, enterBusy, setList, link, setHttp, setBackend, allocBackend]
  · refine ⟨fun l other => ?_, .inl rfl⟩
    simp [setList, setHttp, setBackend, allocBackend, other]

/-- The old addresses stay, a new one leads to a list in use, and the lists in use
that become empty are those of `last`. -/
structure Vacates (last : ListId → Prop) (p p' : Pool) : Prop where
  kept : ∀ https addr l, p.addressTo https addr = some l → p'.addressTo https addr = some l
  fresh : ∀ https addr l, p'.addressTo https addr = some l →
    p.addressTo https addr = some l ∨ ¬Empty (p'.list l)
  empty_iff : ∀ https addr l, p.addressTo https addr = some l → ¬Empty (p.list l) →
    (Empty (p'.list l) ↔ last l)

theorem Vacates.of_lists {last : ListId → Prop} (result : p'.addressTo = p.addressTo ∧
    ∀ l, ¬Empty (p.list l) → (Empty (p'.list l) ↔ last l)) : Vacates last p p' where
  kept https addr l found := by rw [result.1, found]
  fresh https addr l found := .inl (by rw [← result.1, found])
  empty_iff _ _ l _ := result.2 l

theorem Vacates.of_same (same : SameLinks p p') : Vacates (fun _ => False) p p' :=
  .of_lists ⟨same.addressTo, fun _ => empty_same_iff same.list⟩

theorem Vacates.then_same {last : ListId → Prop} {q : Pool} (v : Vacates last p q)
    (same : SameLinks q p') : Vacates last p p' where
  kept https addr l found := by rw [same.addressTo, v.kept https addr l found]
  fresh https addr l found := by
    rw [same.list]
    rw [same.addressTo] at found
    exact v.fresh https addr l found
  empty_iff https addr l found := by
    rw [same.list]
    exact v.empty_iff https addr l found

theorem Vacates.noneEmpty_iff {last : ListId → Prop} (v : Vacates last p p') (n : NoneEmpty p) :
    NoneEmpty p' ↔ ∀ https addr l, p.addressTo https addr = some l → ¬last l := by
  constructor
  · intro kept https addr l found reached
    have still := v.kept https addr l found
    exact kept https addr l still
      ((v.empty_iff https addr l found (n https addr l found)).mpr reached)
  · intro clear https addr l found empty
    obtain old | used := v.fresh https addr l found
    · exact clear https addr l old ((v.empty_iff https addr l old (n https addr l old)).mp empty)
    · exact used empty

theorem setAddress_addressTo (https https' : Bool) (addr addr' : In6Addr) (l : Option ListId) :
    (setAddress https addr l p).addressTo https' addr' =
      if https' = https ∧ addr' = addr then l else p.addressTo https' addr' := by
  by_cases same : https' = https
  · subst same
    simp [setAddress, Function.update_apply]
  · simp [setAddress, same]

theorem startDownload_connects {r : Request} {s : SockAddr}
    (done : startDownload system r s p = some p') :
    ∃ q : Pool, q.maxBackend = p.maxBackend ∧ q.newBackend = p.newBackend ∧ q.newList = p.newList ∧
      q.addressTo = p.addressTo ∧ q.list = p.list ∧
      p'.addressTo = (tryConnectInternalList system r.https s p.newHttp q).1.addressTo ∧
      p'.list = (tryConnectInternalList system r.https s p.newHttp q).1.list := by
  let q := setHttp p.newHttp ({ · with host := r.host, uri := r.uri, etagBackend := r.etag })
    (allocHttp system r.https r.path p)
  have https : (q.http p.newHttp).https = r.https := by simp [q, allocHttp]
  unfold startDownload tryConnect at done
  dsimp only at done
  split at done
  · cases done
  · rw [Option.some.injEq] at done
    have same : SameLinks _ p' := done ▸
      (SameLinks.setPath _ _ _).trans (.addClient p.newHttp r.client)
    have lists : p'.list =
        (tryConnectInternalList system (q.http p.newHttp).https s p.newHttp q).1.list :=
      same.list.trans rfl
    have addresses : p'.addressTo =
        (tryConnectInternalList system (q.http p.newHttp).https s p.newHttp q).1.addressTo :=
      same.addressTo.trans rfl
    rw [https] at lists addresses
    exact ⟨q, rfl, rfl, rfl, rfl, rfl, addresses, lists⟩

theorem startDownload_empty_iff (w : WellFormed limit none p) (r : Request) (s : SockAddr)
    (done : startDownload system r s p = some p') :
    (∀ https addr l, p.addressTo https addr = some l → p'.addressTo https addr = some l) ∧
    (∀ https addr l, p'.addressTo https addr = some l →
      p.addressTo https addr = some l ∨ ¬Empty (p'.list l)) ∧
    ∀ l, l < p.newList → (Empty (p'.list l) ↔ Empty (p.list l) ∧
      ¬(p.addressTo r.https s.sin6_addr = some l ∧ system.connect p.newBackend = .started)) := by
  obtain ⟨q, maxBackend, newBackend, newList, addressTo, list, addresses, lists⟩ :=
    startDownload_connects done
  rw [lists, addresses, ← newList, ← newBackend, ← addressTo, ← list]
  cases known : q.addressTo r.https s.sin6_addr with
  | some l' =>
    obtain ⟨entered, connected⟩ := tryConnectInternalList_known system p.newHttp known
    rw [entered, connected]
    refine ⟨fun https addr l found => found, fun https addr l found => .inl found, fun l _ => ?_⟩
    rw [Option.some.injEq]
    by_cases own : l' = l
    · subst own
      have positive : 1 ≤ q.maxBackend := by
        rw [maxBackend, w.maxBackend.1]
        exact w.maxBackend.2
      rw [Function.update_self, connectedList_empty_iff positive]
      simp
    · rw [Function.update_of_ne (Ne.symm own)]
      simp [own]
  | none =>
    obtain ⟨others, address⟩ := tryConnectInternalList_unknown system p.newHttp known
    refine ⟨fun https addr l found => ?_, fun https addr l found => ?_, fun l old => ?_⟩
    · obtain kept | ⟨entered, -⟩ := address
      · rw [kept]
        exact found
      · rw [entered, setAddress_addressTo, if_neg]
        · exact found
        · rintro ⟨rfl, rfl⟩
          rw [known] at found
          cases found
    · obtain kept | ⟨entered, busy⟩ := address
      · rw [kept] at found
        exact .inl found
      · rw [entered, setAddress_addressTo] at found
        split at found
        · right
          rw [← Option.some_inj.mp found]
          intro empty
          rw [empty.1] at busy
          cases busy
        · exact .inl found
    · rw [others l (Nat.ne_of_lt old)]
      simp

def JoinLast (r : Request) (p : Pool) (l : ListId) : Prop :=
  ∃ h, p.pathTo r.https r.path = some h ∧ (p.http h).isAlive = false ∧ EndedLast h p l

theorem joinDownload_vacates (w : WellFormed limit none p) (depth : ℕ) (r : Request) {found : Bool}
    (run : joinDownload system (depth + 2) r p = some (found, p')) :
    p'.addressTo = p.addressTo ∧ p'.newBackend = p.newBackend ∧
      (∀ l, ¬Empty (p.list l) → (Empty (p'.list l) ↔ JoinLast r p l)) ∧
      (found = true → ∀ l, ¬JoinLast r p l) := by
  unfold joinDownload at run
  unfold JoinLast
  cases named : p.pathTo r.https r.path with
  | none =>
    rw [named] at run
    obtain ⟨-, rfl⟩ := Prod.mk.inj (Option.some_inj.mp run)
    refine ⟨rfl, rfl, fun l some_left => ?_, by simp⟩
    simp [some_left]
  | some h =>
    rw [named] at run
    simp only [Option.some.injEq, exists_eq_left']
    by_cases alive : (p.http h).isAlive = true
    · simp only [alive, if_true, Option.some.injEq, Prod.mk.injEq] at run
      have same : SameLinks p p' := run.2 ▸ .addClient h r.client
      refine ⟨same.addressTo, same.newBackend, fun l some_left => ?_, fun _ l reached => ?_⟩
      · rw [empty_same_iff same.list some_left]
        simp [alive]
      · rw [alive] at reached
        cases reached.1
    · simp only [alive] at run
      obtain ⟨q, ended, result⟩ := Option.map_eq_some_iff.mp run
      obtain ⟨rfl, rfl⟩ := Prod.mk.inj result
      have same : SameLinks p (disconnectFrontend h (setPath r.https r.path none p)) :=
        (SameLinks.setPath r.https r.path none).trans (.disconnectFrontend h)
      obtain ⟨addressTo, newBackend, ends⟩ :=
        disconnectBackend_empty_iff (same.wellFormed w) depth false ended
      refine ⟨addressTo.trans same.addressTo, newBackend.trans same.newBackend,
        fun l some_left => ?_, by simp⟩
      rw [ends l some_left, endedLast_congr w (same.http h).1 (same.http h).2.1 rfl rfl
        fun x other => by simp [disconnectFrontend, setPath, other]]
      simp [alive]

/-- The event takes the last backend and the last request of a list. -/
def Last : System × Event → Pool → ListId → Prop
  | (system, .dnsRight r s), p, l => JoinLast r p l ∧
    ¬(p.addressTo r.https s.sin6_addr = some l ∧ system.connect p.newBackend = .started)
  | (_, .loadUrl r), p, l => JoinLast r p l
  | (_, .flushRead h), p, l | (_, .endOfBody h), p, l => EndedLast h p l
  | (system, .remoteSocketClosed b), p, l =>
    (p.backend b).backendList = some l ∧ ClosedLast system p b (p.list l)
  | (system, .backendTimeout b), p, l => Overdue system b p ∧ ∃ h, (p.backend b).http = some h ∧
    (p.backend b).backendList = some l ∧ if (p.http h).backend = some b then
      TimeoutLast system p b (p.list l) else ClosedLast system p b (p.list l)
  | (system, .httpTimeout h), p, l =>
    HttpOverdue system h p ∧ (p.http h).backend = none ∧ EndedLast h p l
  | (_, .deleteBackend b), p, l => (p.backend b).backendList = some l ∧
    (p.list l).busy.erase b = [] ∧ (p.list l).idle.erase b = [] ∧ (p.list l).pending = []
  | _, _, _ => False

theorem dnsRight_vacates (w : WellFormed limit none p) (depth : ℕ) (r : Request) (s : SockAddr)
    (run : dnsRight system (depth + 2) r s p = some p') :
    Vacates (Last (system, .dnsRight r s) p) p p' := by
  obtain ⟨⟨found, q⟩, joined, rest⟩ := Option.bind_eq_some_iff.mp run
  obtain ⟨addressTo, newBackend, ends, joins⟩ := joinDownload_vacates w depth r joined
  have wq : WellFormed limit none q := joinDownload_wellFormed w depth joined
  unfold Last
  cases found with
  | true =>
    obtain rfl := Option.some_inj.mp rest
    refine .of_lists ⟨addressTo, fun l some_left => ?_⟩
    rw [ends l some_left]
    have := joins rfl l
    tauto
  | false =>
    obtain ⟨kept, fresh, empties⟩ := startDownload_empty_iff wq r s rest
    rw [addressTo] at kept fresh
    refine ⟨kept, fresh, fun https addr l found some_left => ?_⟩
    have old : l < q.newList := wq.addressTo https addr l (by rw [addressTo, found])
    rw [empties l old, ends l some_left, addressTo, newBackend]

theorem backendTimeout_vacates (w : WellFormed limit none p) (depth : ℕ)
    (run : backendTimeout system (depth + 2) b p = some p') :
    Vacates (Last (system, .backendTimeout b) p) p p' := by
  unfold Last
  cases linked : (p.backend b).http with
  | none =>
    rw [backendTimeout, linked, Option.some.injEq] at run
    rw [← run]
    exact .of_lists ⟨rfl, fun l some_left => by simp [some_left, linked]⟩
  | some h =>
    by_cases overdue : Overdue system b p
    · obtain ⟨addressTo, ends⟩ := backendTimeout_empty_iff w linked overdue depth run
      refine .of_lists ⟨addressTo, fun l some_left => ?_⟩
      rw [ends l some_left]
      simp [overdue, linked]
    · rw [backendTimeout_early linked overdue, Option.some.injEq] at run
      have touched : SameLinks p p' := run ▸ .setBackend ⟨rfl, rfl, id, id⟩
      refine .of_lists ⟨touched.addressTo, fun l some_left => ?_⟩
      rw [empty_same_iff touched.list some_left]
      simp [overdue]

end operations

theorem step_vacates {limit : ℕ} {p p' : Pool} (w : WellFormed limit none p) {e : System × Event}
    (taken : Step e p p') : Vacates (Last e p) p p' := by
  obtain ⟨enabled, depth, returns⟩ := taken
  have run := returns 2
  obtain ⟨system, e⟩ := e
  cases e with
  | dnsRight r s => exact dnsRight_vacates w depth r s run
  | loadUrl r =>
    obtain ⟨⟨found, q⟩, joined, rfl⟩ := Option.map_eq_some_iff.mp run
    obtain ⟨addressTo, -, ends, -⟩ := joinDownload_vacates w depth r joined
    exact .of_lists ⟨addressTo, ends⟩
  | removeClient h client =>
    exact Option.some_inj.mp run ▸ .of_same (SameLinks.removeClient h client)
  | statusLine h code => exact Option.some_inj.mp run ▸ .of_same (SameLinks.statusLine h code)
  | readyToWrite h => exact Option.some_inj.mp run ▸ .of_same (SameLinks.readyToWrite system h)
  | disconnectFrontend h => exact Option.some_inj.mp run ▸ .of_same (SameLinks.disconnectFrontend h)
  | flushRead h =>
    obtain ⟨q, ended, rfl⟩ := Option.map_eq_some_iff.mp run
    obtain ⟨addressTo, -, ends⟩ := disconnectBackend_empty_iff w depth false ended
    exact (Vacates.of_lists ⟨addressTo, ends⟩).then_same (.disconnectFrontend h)
  | endOfBody h =>
    have same : SameLinks p (disconnectFrontend h p) := .disconnectFrontend h
    obtain ⟨addressTo, -, ends⟩ := disconnectBackend_empty_iff (same.wellFormed w) depth false run
    refine .of_lists ⟨addressTo.trans same.addressTo, fun l some_left => ?_⟩
    rw [ends l some_left, disconnectFrontend_endedLast w]
    rfl
  | remoteSocketClosed b =>
    exact .of_lists (remoteSocketClosed_empty_iff (disconnectBackend_dismisses (depth + 1)) w run)
  | startHttpsFails b => exact Option.some_inj.mp run ▸ .of_same (SameLinks.close b)
  | backendTimeout b => exact backendTimeout_vacates w depth run
  | httpTimeout h => exact .of_lists (httpTimeout_empty_iff w depth run)
  | deleteBackend b => exact Option.some_inj.mp run ▸ .of_lists deleteBackend_empty_iff
  | deleteHttp h =>
    obtain ⟨q, ended, rfl⟩ := Option.map_eq_some_iff.mp run
    have same : SameLinks p (disconnectFrontend h p) := .disconnectFrontend h
    obtain ⟨waits, homeless⟩ := w.retired h enabled
    obtain ⟨addressTo, -, ends⟩ := disconnectBackend_empty_iff (same.wellFormed w) depth true ended
    refine .of_lists ⟨addressTo.trans same.addressTo, fun l some_left => ?_⟩
    have unhomed : ¬EndedLast h p l := by
      unfold EndedLast
      rw [waits, homeless]
      rintro ⟨⟨⟩, -⟩
    refine (ends l some_left).trans ?_
    rw [disconnectFrontend_endedLast w]
    simp [Last, unhomed]

/-- No list is ever dropped. -/
theorem addresses_stay {maxBackend : ℕ} (positive : 1 ≤ maxBackend) {p p' : Pool}
    (reached : Reach Step anyStep (· = initial maxBackend) p) {e : System × Event}
    (taken : Step e p p') (https : Bool) (addr : In6Addr) (l : ListId)
    (found : p.addressTo https addr = some l) : p'.addressTo https addr = some l :=
  (step_vacates (reach_wellFormed positive reached) taken).kept https addr l found

def KeepsOne (e : System × Event) (p : Pool) : Prop :=
  ∀ https addr l, p.addressTo https addr = some l → ¬Last e p l

theorem initial_noneEmpty (maxBackend : ℕ) : NoneEmpty (initial maxBackend) := by
  intro https addr l found
  cases found

/-- In a run no registered list is ever empty exactly if no event takes the last
backend and the last request of one. -/
theorem no_empty_list_iff {maxBackend : ℕ} (positive : 1 ≤ maxBackend)
    (events : List (System × Event)) :
    Along Step (fun _ _ p => NoneEmpty p) events (initial maxBackend) ↔
      Along Step (fun e p _ => KeepsOne e p) events (initial maxBackend) := by
  refine along_iff_of_invariant (I := fun p => WellFormed maxBackend none p) ?_ ?_ events
    (initial_wellFormed positive) (initial_noneEmpty maxBackend)
  · intro e p p' w taken
    exact step_wellFormed w taken
  · intro e p p' w n taken
    exact (step_vacates w taken).noneEmpty_iff n

theorem lost_keepsOne (n : ℕ) (e : System × Event) (found : lostConnection[n]? = some e) :
    KeepsOne e (lost n) := by
  intro https addr l listed
  have one : l < (lost n).newList := (lost_wellFormed n).addressTo https addr l listed
  match n, e, found with
  | 0, _, rfl => cases listed
  | 1, _, rfl =>
    rintro ⟨⟨h, named, -⟩, -⟩
    cases named
  | 2, _, rfl => exact id
  | 3, _, rfl =>
    obtain rfl : l = 0 := Nat.lt_one_iff.mp one
    rintro ⟨-, -, waits, -⟩
    exact absurd waits (by decide)

theorem lost_list_in_use : (lost 4).addressTo false .zero = some 0 ∧
    (lost 4).newBackend = 2 ∧ NoneEmpty (lost 4) := by
  have along := (no_empty_list_iff (Nat.le_refl 1) lostConnection).mpr
    ((along_states step_unique lost_step).mpr lost_keepsOne)
  exact ⟨rfl, rfl, (along_states step_unique lost_step).mp along 3 _ rfl⟩

/-- A backend that is closed before its first answer leaves an empty list registered. -/
theorem refused_list_stays : ∃ p, Reach Step anyStep (· = initial 1) p ∧
    p.addressTo false .zero = some 0 ∧ Empty (p.list 0) := by
  have reached : Reach Step anyStep (· = initial 1) _ :=
    .next (e := (DeadOrigin.connecting, .remoteSocketClosed 0))
      (.next (e := (DeadOrigin.connecting,
          .dnsRight ⟨false, [99], [97], [47], [], 7⟩ ⟨.zero, 80⟩))
        (.start rfl) trivial ⟨trivial, 0, fun _ => rfl⟩)
      trivial ⟨Nat.zero_lt_one, 0, fun _ => rfl⟩
  exact ⟨_, reached, rfl, rfl, rfl, rfl⟩

end FastCgiCdn.EmptyLists
