import FastCgiCdn.FanOut
import FastCgiCdn.SingleFlight

/-! The end of the last connection to an address when it never had an answer. The
pool is taken with the clients of its downloads, as the loops over `clientsList`
leave them. Both loops over `pending` pass over every second download, and the
loop over `clientsList` passes over a client when there are more than two. -/

namespace FastCgiCdn.DeadOrigin

open GuardedRuns DnsModel PoolModel Pool PoolInvariant PoolWellFormed PathMaps SingleFlight
open ClientOutput RangeFor

/-- `clients` are the clients of each download, and `errors` the calls of
`httpError`: the download, the client, and the text. -/
structure Origin (ι : Type) where
  pool : Pool
  clients : HttpId → FanOut.Clients ι ClientId
  errors : List (HttpId × ClientId × Bytes)

def problem : Bytes := ascii "Tcp connect problem"

namespace Origin

variable {ι : Type} (socket : ClientId → Schedule) (disk : ι → Bytes)
variable (disconnectBackend : HttpId → Pool → Option Pool)

def onPool (f : Pool → Pool) (o : Origin ι) : Origin ι := { o with pool := f o.pool }

def backendError (errorString : Bytes) (h : HttpId) (o : Origin ι) : Origin ι :=
  let r := FanOut.backendError socket disk errorString (o.clients h)
  { pool := Pool.backendError h o.pool
    clients := Function.update o.clients h r.1
    errors := o.errors ++ r.2.map fun client => (h, client, errorString) }

def disconnectFrontend (h : HttpId) (o : Origin ι) : Origin ι :=
  { o with
    pool := Pool.disconnectFrontend h o.pool
    clients := Function.update o.clients h (FanOut.disconnectFrontend socket disk (o.clients h)).1 }

def fail (h : HttpId) (o : Origin ι) : Origin ι :=
  disconnectFrontend socket disk h (backendError socket disk problem h o)

/-- The loop of `remoteSocketClosed` over `pending`. -/
def failPending (l : ListId) : ℕ → ℕ → Origin ι → Option (Origin ι)
  | 0, _, _ => none
  | fuel + 1, index, o =>
    match (o.pool.list l).pending[index]? with
    | none => some o
    | some h =>
      let o := fail socket disk h o
      (disconnectBackend h o.pool).bind fun p =>
        failPending l fuel (index + 1) { o with pool := p }

/-- The loop of `downloadFinished` over `pending`. -/
def errorPending (l : ListId) (o : Origin ι) : Origin ι :=
  (o.pool.list l).pending.foldl (fun o h => fail socket disk h o) o

/-- Whether the loops are entered. -/
def deserted (l : ListId) (o : Origin ι) : Bool :=
  !(o.pool.list l).pending.isEmpty && (o.pool.list l).busy.isEmpty

/-- `Backend::remoteSocketClosed` of a backend of the list that never got an answer. -/
def remoteSocketClosed (l : ListId) (b : BackendId) (o : Origin ι) : Option (Origin ι) :=
  let o := o.onPool fun p => leaveBusy l b (shut b p)
  (if deserted l o then
      failPending socket disk disconnectBackend l ((o.pool.list l).pending.length + 1) 0 o
    else some o).map fun o =>
  match (o.pool.backend b).http with
  | none => o
  | some h => o.onPool (setHttp h ({ · with backend := none }))

def downloadFinished (l : ListId) (b : BackendId) (o : Origin ι) : Option (Origin ι) :=
  let o := o.onPool (leaveBusy l b)
  let o := if deserted l o then errorPending socket disk l o else o
  match (o.pool.backend b).http with
  | none => none
  | some h =>
    let o := backendError socket disk problem h (o.onPool (setHttp h ({ · with backend := none })))
    remoteSocketClosed socket disk disconnectBackend l b
      (o.onPool fun p => close b (setBackend b ({ · with http := none }) p))

end Origin

section Erasure

variable {ι : Type} (socket : ClientId → Schedule) (disk : ι → Bytes)
variable {disconnect : HttpId → Pool → Option Pool} {system : System}
variable {o : Origin ι} {b : BackendId} {l : ListId}

theorem failPending_pool (fuel index : ℕ) :
    (o.failPending socket disk disconnect l fuel index).map Origin.pool =
      Pool.failPending disconnect l fuel index o.pool := by
  induction fuel generalizing index o with
  | zero => rfl
  | succ fuel ih =>
    unfold Origin.failPending Pool.failPending
    cases (o.pool.list l).pending[index]? with
    | none => rfl
    | some h =>
      dsimp only
      rw [Option.map_bind]
      congr 1
      funext p
      exact ih (index + 1)

theorem errorPending_pool :
    (o.errorPending socket disk l).pool = Pool.errorPending l o.pool := by
  unfold Origin.errorPending Pool.errorPending
  generalize (o.pool.list l).pending = waiting
  induction waiting generalizing o with
  | nil => rfl
  | cons h waiting ih => exact ih

theorem failIf_pool (o : Origin ι) : (if o.deserted l then
      o.failPending socket disk disconnect l ((o.pool.list l).pending.length + 1) 0
    else some o).map Origin.pool =
    if !(o.pool.list l).pending.isEmpty && (o.pool.list l).busy.isEmpty then
      Pool.failPending disconnect l ((o.pool.list l).pending.length + 1) 0 o.pool
    else some o.pool := by
  unfold Origin.deserted
  split
  · exact failPending_pool socket disk _ _
  · rfl

theorem errorIf_pool (o : Origin ι) :
    (if o.deserted l then o.errorPending socket disk l else o).pool =
      if !(o.pool.list l).pending.isEmpty && (o.pool.list l).busy.isEmpty then
        Pool.errorPending l o.pool
      else o.pool := by
  by_cases deserted : o.deserted l = true
  · rw [if_pos deserted, if_pos (by exact deserted), errorPending_pool socket disk]
  · rw [if_neg deserted, if_neg (by exact deserted)]

theorem errorIf_backend (o : Origin ι) :
    (if o.deserted l then o.errorPending socket disk l else o).pool.backend = o.pool.backend := by
  rw [errorIf_pool socket disk]
  split
  · exact errorPending_backend
  · rfl

theorem remoteSocketClosed_pool (home : (o.pool.backend b).backendList = some l)
    (unanswered : (o.pool.backend b).wasTCPConnected = false) :
    (o.remoteSocketClosed socket disk disconnect l b).map Origin.pool =
      Pool.remoteSocketClosed disconnect system b o.pool := by
  have closed : (shut b o.pool).backend b = _ := shut_backend
  unfold Pool.remoteSocketClosed
  dsimp only
  rw [closed]
  simp only [home, unanswered, Bool.not_false, if_true]
  unfold Origin.remoteSocketClosed
  rw [Option.map_map]
  refine Eq.trans ?_ (congrArg (Option.map _) (failIf_pool socket disk (o.onPool fun p => leaveBusy l b (shut b p))))
  rw [Option.map_map]
  congr 1
  funext q
  dsimp only [Function.comp]
  cases (q.pool.backend b).http with
  | none => rfl
  | some h => rfl

theorem downloadFinished_pool (home : (o.pool.backend b).backendList = some l)
    (unanswered : (o.pool.backend b).wasTCPConnected = false) :
    (o.downloadFinished socket disk disconnect l b).map Origin.pool =
      Pool.downloadFinished disconnect system b o.pool := by
  unfold Origin.downloadFinished Pool.downloadFinished
  simp only [home, unanswered, Bool.not_false, if_true]
  have told := errorIf_pool (l := l) socket disk (o.onPool (leaveBusy l b))
  have same := errorIf_backend (l := l) socket disk (o.onPool (leaveBusy l b))
  generalize (if (o.onPool (leaveBusy l b)).deserted l then
    (o.onPool (leaveBusy l b)).errorPending socket disk l else o.onPool (leaveBusy l b)) = q at *
  change q.pool.backend = o.pool.backend at same
  have kept (r : Pool) (h : HttpId) (backend : r.backend = o.pool.backend) :
      ((close b (setBackend b ({ · with http := none }) (backendError h
        (setHttp h ({ · with backend := none }) r)))).backend b).backendList = some l ∧
      ((close b (setBackend b ({ · with http := none }) (backendError h
        (setHttp h ({ · with backend := none }) r)))).backend b).wasTCPConnected = false := by
    simp [close, backendError_unchanged, backend, home, unanswered]
  change q.pool = if !((leaveBusy l b o.pool).list l).pending.isEmpty &&
    ((leaveBusy l b o.pool).list l).busy.isEmpty then errorPending l (leaveBusy l b o.pool)
    else leaveBusy l b o.pool at told
  rw [← told]
  cases (q.pool.backend b).http with
  | none => rfl
  | some h =>
    obtain ⟨home', unanswered'⟩ := kept q.pool h same
    exact remoteSocketClosed_pool socket disk home' unanswered'

end Erasure

section Pools

variable {disconnect : HttpId → Pool → Option Pool} {limit : ℕ} {held : Option BackendId}
variable {p p' : Pool} {h x : HttpId} {l : ListId}

theorem failPending_pending (d : Dismisses disconnect) (w : WellFormed limit held p)
    (fuel index : ℕ) (run : Pool.failPending disconnect l fuel index p = some p') :
    (p'.list l).pending =
      (p.list l).pending.take index ++ skipped ((p.list l).pending.drop index) := by
  induction fuel generalizing p index with
  | zero => cases run
  | succ fuel ih =>
    unfold Pool.failPending at run
    cases here : (p.list l).pending[index]? with
    | none =>
      rw [here] at run
      obtain rfl := Option.some.inj run
      have done : (p.list l).pending.length ≤ index := List.getElem?_eq_none_iff.mp here
      rw [List.take_of_length_le done, List.drop_eq_nil_of_le done, skipped, List.append_nil]
    | some h =>
      obtain ⟨inside, own⟩ := List.getElem?_eq_some_iff.mp here
      have queued : h ∈ (p.list l).pending := List.mem_of_getElem? here
      have waits := (w.pending l h queued).1
      rw [here] at run
      dsimp only at run
      rw [d.dismiss waits, Option.bind_some] at run
      rw [ih (w.dismiss waits) (index + 1) run, dismiss_queue w queued, ← own,
        (w.pending_nodup l).erase_getElem, skipped_eraseIdx inside]

@[simp] theorem backendError_isAlive :
    ((Pool.backendError x p).http h).isAlive = (p.http h).isAlive := by
  by_cases same : h = x
  · simp [Pool.backendError, same, unregister_unchanged, Http.isAlive]
  · rw [backendError_unchanged.2.2 h same]

@[simp] theorem disconnectFrontend_isAlive :
    ((Pool.disconnectFrontend x p).http h).isAlive = (p.http h).isAlive := by
  by_cases same : h = x
  · simp [Pool.disconnectFrontend, same, Http.isAlive]
  · simp [Pool.disconnectFrontend, same]

@[simp] theorem setHttp_backend_isAlive (backend : Option BackendId) :
    ((setHttp x ({ · with backend := backend }) p).http h).isAlive = (p.http h).isAlive := by
  by_cases same : h = x
  · simp [same, Http.isAlive]
  · simp [same]

theorem shut_isAlive (b : BackendId) : ((shut b p).http h).isAlive = (p.http h).isAlive := by
  unfold shut
  split
  · rfl
  · unfold Pool.resetRequestSended
    split
    · rfl
    · rename_i x _ _
      by_cases same : h = x
      · simp [same, Http.isAlive, close]
      · simp [same, close]

theorem unregister_toDelete : (unregister h p).toDelete = p.toDelete := by
  unfold unregister
  split <;> rfl

theorem retire_toDelete : (retire false h p).toDelete =
    if (p.http h).isAlive then p.toDelete.insert h else p.toDelete := by
  have alive : ((setHttp h ({ · with backend := none, backendList := none }) p).http h).isAlive =
      (p.http h).isAlive := by
    simp [Http.isAlive]
  unfold retire
  dsimp only
  rw [alive, Bool.not_false, Bool.and_true]
  change (unregister h _).toDelete = _
  rw [unregister_toDelete]
  split <;> rfl

theorem dismiss_toDelete : (dismiss h p).toDelete =
    if (p.http h).isAlive then p.toDelete.insert h else p.toDelete := by
  have left (q : Pool) : (leavePending h q).toDelete = q.toDelete ∧
      (leavePending h q).http = q.http := by
    unfold leavePending
    split <;> exact ⟨rfl, rfl⟩
  have same : SameLinks p _ := SameLinks.dismissed h
  rw [dismiss, retire_toDelete, (left _).1, (left _).2, disconnectFrontend_isAlive,
    backendError_isAlive, same.toDelete]

theorem dismiss_cachePath : ((dismiss h p).http h).cachePath = [] := retire_nameless false

end Pools

section Clients

variable {ι : Type} {socket : ClientId → Schedule} {disk : ι → Bytes}
variable {h x : HttpId} {o q : Origin ι}

theorem forEach_nil {κ : Type} [DecidableEq κ] {w : FanOut.Clients ι κ} (empty : w.slots.live = [])
    (f : κ → Client ι → Client ι) : FanOut.forEach f w = (w, []) := by
  rw [FanOut.forEach, loop, empty]
  rfl

structure Untouched (h : HttpId) (o q : Origin ι) : Prop where
  clients : q.clients h = o.clients h
  errors : o.errors <+: q.errors

variable (socket disk) in
/-- The clients of a download are as the loop of `backendError` leaves them, and
those that it visits have got the error. -/
structure Ending (h : HttpId) (o q : Origin ι) : Prop where
  live : (q.clients h).slots.live = []
  state : (q.clients h).state = (FanOut.backendError socket disk problem (o.clients h)).1.state
  errors : o.errors <+: q.errors
  told : ∀ client ∈ (FanOut.backendError socket disk problem (o.clients h)).2,
    (h, client, problem) ∈ q.errors.drop o.errors.length

theorem Untouched.refl (h : HttpId) (o : Origin ι) : Untouched h o o := ⟨rfl, List.prefix_refl _⟩

theorem Untouched.onPool (untouched : Untouched h o q) (f : Pool → Pool) :
    Untouched h o (q.onPool f) := ⟨untouched.clients, untouched.errors⟩

theorem Ending.onPool (ending : Ending socket disk h o q) (f : Pool → Pool) :
    Ending socket disk h o (q.onPool f) :=
  ⟨ending.live, ending.state, ending.errors, ending.told⟩

theorem mem_drop_append {α : Type*} {a : α} {old all new : List α} (grown : old <+: all)
    (member : a ∈ all.drop old.length ∨ a ∈ new) : a ∈ (all ++ new).drop old.length := by
  rw [List.drop_append_of_le_length grown.length_le, List.mem_append]
  exact member

theorem Untouched.backendError (untouched : Untouched h o q) :
    Ending socket disk h o (q.backendError socket disk problem h) := by
  have clients : (q.backendError socket disk problem h).clients h =
      (FanOut.backendError socket disk problem (o.clients h)).1 := by
    simp only [Origin.backendError, Function.update_self, untouched.clients]
  refine ⟨?_, ?_, ?_, ?_⟩
  · rw [clients]
    rfl
  · rw [clients]
  · exact untouched.errors.trans (List.prefix_append _ _)
  · intro client visited
    refine mem_drop_append untouched.errors (.inr ?_)
    rw [untouched.clients]
    exact List.mem_map_of_mem visited

theorem Ending.backendError (ending : Ending socket disk h o q) (x : HttpId) :
    Ending socket disk h o (q.backendError socket disk problem x) := by
  have grown : o.errors <+: (q.backendError socket disk problem x).errors :=
    ending.errors.trans (List.prefix_append _ _)
  have told : ∀ client ∈ (FanOut.backendError socket disk problem (o.clients h)).2,
      (h, client, problem) ∈ (q.backendError socket disk problem x).errors.drop o.errors.length :=
    fun client visited => mem_drop_append ending.errors (.inl (ending.told client visited))
  by_cases same : h = x
  · subst same
    have clients : (q.backendError socket disk problem h).clients h =
        (FanOut.Looped.clear (q.clients h, [])).1 := by
      simp only [Origin.backendError, Function.update_self]
      rw [FanOut.backendError, FanOut.httpErrors, forEach_nil ending.live]
    refine ⟨?_, ?_, grown, told⟩
    · rw [clients]
      rfl
    · rw [clients]
      exact ending.state
  · have clients : (q.backendError socket disk problem x).clients h = q.clients h := by
      simp only [Origin.backendError, Function.update_of_ne same]
    refine ⟨?_, ?_, grown, told⟩
    · rw [clients]
      exact ending.live
    · rw [clients]
      exact ending.state

theorem Ending.disconnectFrontend (ending : Ending socket disk h o q) :
    Ending socket disk h o (q.disconnectFrontend socket disk h) := by
  have clients : (q.disconnectFrontend socket disk h).clients h =
      (FanOut.Looped.clear (q.clients h, [])).1 := by
    simp only [Origin.disconnectFrontend, Function.update_self]
    rw [FanOut.disconnectFrontend, forEach_nil ending.live]
  refine ⟨?_, ?_, ending.errors, ending.told⟩
  · rw [clients]
    rfl
  · rw [clients]
    exact ending.state

theorem Untouched.fail (untouched : Untouched h o q) :
    Ending socket disk h o (q.fail socket disk h) := untouched.backendError.disconnectFrontend

theorem Ending.fail (ending : Ending socket disk h o q) :
    Ending socket disk h o (q.fail socket disk h) := (ending.backendError h).disconnectFrontend

theorem Ending.all_iff (ending : Ending socket disk h o q) (tied : Tied Client.http (o.clients h)) :
    ((∀ client ∈ (o.clients h).slots.live,
        (h, client, problem) ∈ q.errors.drop o.errors.length) ∧
      (q.clients h).slots.live = [] ∧ ∀ client, ((q.clients h).state client).http = false) ↔
    (o.clients h).slots.live.length ≤ 2 := by
  have ended := FanOut.clear_ended_iff (f := fun i => Client.httpError (socket i) disk problem) tied
    fun i c => FanOut.httpError_http (socket i) problem c
  rw [ending.state]
  constructor
  · rintro ⟨_, _, left⟩
    exact (loop_empties_iff tied fun i c => FanOut.httpError_http (socket i) problem c).mp left
  · intro few
    obtain ⟨once, _, left⟩ := ended.mpr few
    refine ⟨fun client listed => ending.told client ?_, ending.live, left⟩
    exact List.count_pos_iff.mp (by
      rw [FanOut.backendError, FanOut.httpErrors, once client listed]
      exact Nat.one_pos)

end Clients

section Closing

variable {ι : Type} {socket : ClientId → Schedule} {disk : ι → Bytes}
variable {disconnect : HttpId → Pool → Option Pool} {limit : ℕ}
variable {o o' : Origin ι} {b : BackendId} {h : HttpId} {l : ListId}

variable (socket disk) in
theorem failPending_one (d : Dismisses disconnect) (w : WellFormed limit none o.pool)
    (queue : (o.pool.list l).pending = [h]) :
    o.failPending socket disk disconnect l 2 0 =
      some { o.fail socket disk h with pool := dismiss h o.pool } := by
  have queued : h ∈ (o.pool.list l).pending := by simp [queue]
  have emptied := (failPending_single d w queue).2
  have dismissed : disconnect h (o.fail socket disk h).pool = some (dismiss h o.pool) :=
    d.dismiss (w.pending l h queued).1
  simp only [Origin.failPending, queue, List.getElem?_cons_zero, dismissed, Option.bind_some,
    emptied, List.getElem?_nil]

theorem closed_wellFormed (w : WellFormed limit none o.pool) (b : BackendId) :
    WellFormed limit none (leaveBusy l b (shut b o.pool)) := by
  have same : SameLinks o.pool (shut b o.pool) := .shut b
  have closed : (shut b o.pool).backend b = _ := shut_backend
  exact (same.wellFormed w).leaveBusy (.inr (.inl (by rw [closed])))

theorem closed_pending (b : BackendId) :
    ((leaveBusy l b (shut b o.pool)).list l).pending = (o.pool.list l).pending := by
  have same : SameLinks o.pool (shut b o.pool) := .shut b
  rw [leaveBusy_pending, same.list]

theorem closed_deserted (last : (o.pool.list l).busy.erase b = []) :
    (o.onPool fun p => leaveBusy l b (shut b p)).deserted l = !(o.pool.list l).pending.isEmpty := by
  have same : SameLinks o.pool (shut b o.pool) := .shut b
  have busy : ((leaveBusy l b (shut b o.pool)).list l).busy = [] := by
    simp [leaveBusy, same.list, last]
  simp only [Origin.deserted, Origin.onPool, closed_pending, busy, List.isEmpty_nil, Bool.and_true]

def unlinkHttp (b : BackendId) (o : Origin ι) : Origin ι :=
  match (o.pool.backend b).http with
  | none => o
  | some h => o.onPool (setHttp h ({ · with backend := none }))

theorem unlinkHttp_list (b : BackendId) (o : Origin ι) : (unlinkHttp b o).pool.list = o.pool.list := by
  unfold unlinkHttp
  split <;> rfl

variable (socket disk) in
/-- What the loop passes over stays queued when the last backend is closed. -/
theorem remoteSocketClosed_pending (d : Dismisses disconnect) (w : WellFormed limit none o.pool)
    (last : (o.pool.list l).busy.erase b = []) :
    ∃ o', o.remoteSocketClosed socket disk disconnect l b = some o' ∧
      (o'.pool.list l).pending = skipped (o.pool.list l).pending := by
  let q := o.onPool fun p => leaveBusy l b (shut b p)
  have wq : WellFormed limit none q.pool := closed_wellFormed w b
  have queue : (q.pool.list l).pending = (o.pool.list l).pending := closed_pending b
  obtain ⟨r, run, left⟩ : ∃ r, (if q.deserted l then
      q.failPending socket disk disconnect l ((q.pool.list l).pending.length + 1) 0
      else some q) = some r ∧ (r.pool.list l).pending = skipped (o.pool.list l).pending := by
    split
    · obtain ⟨p', failed, -, -⟩ := failPending_drains d wq ((q.pool.list l).pending.length + 1) 0
        (Nat.succ_pos _) (Nat.lt_succ_self _)
      have erased : (q.failPending socket disk disconnect l
          ((q.pool.list l).pending.length + 1) 0).map Origin.pool = _ :=
        failPending_pool socket disk _ 0
      rw [failed] at erased
      obtain ⟨r, run, rfl⟩ := Option.map_eq_some_iff.mp erased
      refine ⟨r, run, ?_⟩
      rw [failPending_pending d wq _ 0 failed, queue, List.take_zero, List.drop_zero, List.nil_append]
    · rename_i busy
      rw [closed_deserted last] at busy
      have empty : (o.pool.list l).pending = [] := by simpa using busy
      refine ⟨q, rfl, ?_⟩
      rw [queue, empty, skipped]
  refine ⟨unlinkHttp b r, ?_, ?_⟩
  · exact congrArg (Option.map (unlinkHttp b)) run
  · rw [unlinkHttp_list, left]

theorem remoteSocketClosed_one (d : Dismisses disconnect) (w : WellFormed limit none o.pool)
    (last : (o.pool.list l).busy.erase b = []) (queue : (o.pool.list l).pending = [h]) :
    o.remoteSocketClosed socket disk disconnect l b = some (unlinkHttp b
      { (o.onPool fun p => leaveBusy l b (shut b p)).fail socket disk h with
        pool := dismiss h (leaveBusy l b (shut b o.pool)) }) := by
  let q := o.onPool fun p => leaveBusy l b (shut b p)
  have one : (q.pool.list l).pending = [h] := (closed_pending b).trans queue
  have wq : WellFormed limit none q.pool := closed_wellFormed w b
  have run : (if q.deserted l then
      q.failPending socket disk disconnect l ((q.pool.list l).pending.length + 1) 0
      else some q) = some { q.fail socket disk h with pool := dismiss h q.pool } := by
    rw [if_pos (by rw [closed_deserted last, queue]; rfl), one]
    exact failPending_one socket disk d wq one
  exact congrArg (Option.map (unlinkHttp b)) run

structure Dismissed (socket : ClientId → Schedule) (disk : ι → Bytes) (h : HttpId)
    (o o' : Origin ι) : Prop where
  ending : Ending socket disk h o o'
  cachePath : (o'.pool.http h).cachePath = []
  toDelete : h ∈ o'.pool.toDelete ↔ (o.pool.http h).isAlive = true

theorem unlinkHttp_ending (ending : Ending socket disk h o o') (b : BackendId) :
    Ending socket disk h o (unlinkHttp b o') := by
  unfold unlinkHttp
  split
  · exact ending
  · exact ending.onPool _

theorem unlinkHttp_http (b : BackendId) (o : Origin ι) :
    ((unlinkHttp b o).pool.http h).cachePath = (o.pool.http h).cachePath ∧
      (unlinkHttp b o).pool.toDelete = o.pool.toDelete := by
  unfold unlinkHttp
  split
  · exact ⟨rfl, rfl⟩
  · rename_i x _
    refine ⟨?_, rfl⟩
    by_cases same : h = x
    · simp [Origin.onPool, same]
    · simp [Origin.onPool, same]

theorem remoteSocketClosed_dismisses {start : Origin ι} (d : Dismisses disconnect)
    (w : WellFormed limit none o.pool) (last : (o.pool.list l).busy.erase b = [])
    (queue : (o.pool.list l).pending = [h])
    (told : Untouched h start o ∨ Ending socket disk h start o)
    (alive : (o.pool.http h).isAlive = (start.pool.http h).isAlive)
    (run : o.remoteSocketClosed socket disk disconnect l b = some o') :
    Dismissed socket disk h start o' := by
  let q := o.onPool fun p => leaveBusy l b (shut b p)
  have wq : WellFormed limit none q.pool := closed_wellFormed w b
  have queued : h ∈ (q.pool.list l).pending := by
    rw [show (q.pool.list l).pending = _ from closed_pending b, queue]
    exact List.mem_singleton_self h
  have fresh : h ∉ q.pool.toDelete := fun scheduled =>
    wq.unqueued (wq.retired h scheduled).2 queued
  have same : (q.pool.http h).isAlive = (start.pool.http h).isAlive := by
    rw [← alive]
    exact shut_isAlive b
  have failed : Ending socket disk h start (q.fail socket disk h) := by
    rcases told with untouched | ending
    · exact (untouched.onPool _).fail
    · exact (ending.onPool _).fail
  rw [remoteSocketClosed_one d w last queue] at run
  obtain rfl := Option.some.inj run
  refine ⟨unlinkHttp_ending (failed.onPool fun _ => dismiss h q.pool) b, ?_, ?_⟩
  · rw [(unlinkHttp_http b _).1]
    exact dismiss_cachePath
  · rw [(unlinkHttp_http (h := h) b _).2]
    change h ∈ (dismiss h q.pool).toDelete ↔ _
    rw [dismiss_toDelete, same]
    cases (start.pool.http h).isAlive with
    | false => simpa using fresh
    | true => simp

end Closing

section Finishing

variable {ι : Type} {socket : ClientId → Schedule} {disk : ι → Bytes}
variable {disconnect : HttpId → Pool → Option Pool} {limit : ℕ}
variable {o o' : Origin ι} {b : BackendId} {h x : HttpId} {l : ListId}

variable (socket disk) in
def finished (l : ListId) (b : BackendId) (h : HttpId) (o : Origin ι) : Origin ι :=
  let q := o.onPool (leaveBusy l b)
  let q := if q.deserted l then q.errorPending socket disk l else q
  ((q.onPool (setHttp h ({ · with backend := none }))).backendError socket disk problem h).onPool
    fun p => close b (setBackend b ({ · with http := none }) p)

variable (socket disk) in
theorem errorIf_sameLinks (o : Origin ι) : SameLinks o.pool
    (if o.deserted l then o.errorPending socket disk l else o).pool := by
  rw [errorIf_pool socket disk]
  split
  · exact .errorPending l
  · exact .refl _

theorem downloadFinished_eq (linked : (o.pool.backend b).http = some x) :
    o.downloadFinished socket disk disconnect l b =
      (finished socket disk l b x o).remoteSocketClosed socket disk disconnect l b := by
  have same := errorIf_backend (l := l) socket disk (o.onPool (leaveBusy l b))
  unfold Origin.downloadFinished
  dsimp only
  rw [same]
  change (match (o.pool.backend b).http with | none => none | some h => _) = _
  rw [linked]
  rfl

variable (socket disk) in
theorem finished_sameLinks (l : ListId) (b : BackendId) (x : HttpId) (o : Origin ι) :
    SameLinks (leaveBusy l b (unlink b x o.pool)) (finished socket disk l b x o).pool := by
  have told : SameLinks (leaveBusy l b o.pool) _ :=
    errorIf_sameLinks (l := l) socket disk (o.onPool (leaveBusy l b))
  exact ((told.unlink b x).trans ((SameLinks.backendError x).takeRequest b)).trans (.close b)

theorem finished_wellFormed (w : WellFormed limit none o.pool)
    (linked : (o.pool.backend b).http = some x) (home : (o.pool.backend b).backendList = some l) :
    WellFormed limit none (finished socket disk l b x o).pool := by
  have taken : WellFormed limit (some b) (unlink b x o.pool) := w.hold.unlink linked
  exact (finished_sameLinks socket disk l b x o).wellFormed ((taken.leaveBusy (.inl rfl)).release (by simp)
    (taken.not_mem_leaveBusy (by simpa using home)))

variable (socket disk) in
theorem finished_list (l : ListId) (b : BackendId) (x : HttpId) (o : Origin ι) :
    ((finished socket disk l b x o).pool.list l).pending = (o.pool.list l).pending ∧
      ((finished socket disk l b x o).pool.list l).busy = (o.pool.list l).busy.erase b := by
  rw [(finished_sameLinks socket disk l b x o).list]
  constructor
  · simp
  · simp [leaveBusy]

variable (socket disk) in
theorem finished_told (last : (o.pool.list l).busy.erase b = [])
    (queue : (o.pool.list l).pending = [h]) :
    Ending socket disk h o (finished socket disk l b x o) ∧
      ((finished socket disk l b x o).pool.http h).isAlive = (o.pool.http h).isAlive := by
  have queue' : ((o.onPool (leaveBusy l b)).pool.list l).pending = [h] := by
    simpa [Origin.onPool] using queue
  have deserted : (o.onPool (leaveBusy l b)).deserted l = true := by
    simp [Origin.deserted, Origin.onPool, leaveBusy, last, queue]
  have told : (o.onPool (leaveBusy l b)).errorPending socket disk l =
      (o.onPool (leaveBusy l b)).fail socket disk h := by
    rw [Origin.errorPending, queue']
    rfl
  have ending : Ending socket disk h o ((o.onPool (leaveBusy l b)).fail socket disk h) :=
    ((Untouched.refl h o).onPool _).fail
  unfold finished
  dsimp only
  rw [if_pos deserted, told]
  constructor
  · exact ((ending.onPool _).backendError x).onPool _
  · change ((Pool.backendError x (setHttp x ({ · with backend := none }) (Pool.disconnectFrontend h
      (Pool.backendError h (leaveBusy l b o.pool))))).http h).isAlive = _
    rw [backendError_isAlive, setHttp_backend_isAlive, disconnectFrontend_isAlive,
      backendError_isAlive, leaveBusy_http]

end Finishing

section Results

variable {ι : Type} {socket : ClientId → Schedule} {disk : ι → Bytes}
variable {disconnect : HttpId → Pool → Option Pool} {limit : ℕ} {missing : Option HttpId}
variable {o o' : Origin ι} {b : BackendId} {h : HttpId} {l : ListId}

/-- The clients of a queued download have got the error and have left it, no path
leads to it, and it is scheduled for deletion. -/
structure Failed (o o' : Origin ι) (h : HttpId) : Prop where
  told : ∀ client ∈ (o.pool.http h).clientsList,
    (h, client, problem) ∈ o'.errors.drop o.errors.length
  left : (o'.clients h).slots.live = [] ∧ ∀ client, ((o'.clients h).state client).http = false
  unregistered : ∀ https path, o'.pool.pathTo https path ≠ some h
  scheduled : h ∈ o'.pool.toDelete

def FailsAll (l : ListId) (o o' : Origin ι) : Prop :=
  (o'.pool.list l).pending = [] ∧ ∀ h ∈ (o.pool.list l).pending, Failed o o' h

/-- At most one download is queued; it has its host and uri, and at most two clients. -/
def Few (l : ListId) (p : Pool) : Prop :=
  (p.list l).pending.length ≤ 1 ∧ ∀ h ∈ (p.list l).pending,
    (p.http h).isAlive = true ∧ (p.http h).clientsList.length ≤ 2

/-- The pool is well formed, its path maps are right, and the clients that a
queued download lists are those that point to it. -/
structure Sound (limit : ℕ) (missing : Option HttpId) (l : ListId) (o : Origin ι) : Prop where
  wellFormed : WellFormed limit none o.pool
  filed : Filed missing o.pool
  tied : ∀ h ∈ (o.pool.list l).pending, Tied Client.http (o.clients h)
  listed : ∀ h ∈ (o.pool.list l).pending,
    (o.clients h).slots.live = (o.pool.http h).clientsList

variable (socket disk) in
theorem failsAll_iff (sound : Sound limit missing l o) (sheds : Sheds none o.pool o'.pool)
    (left : (o'.pool.list l).pending = skipped (o.pool.list l).pending)
    (single : ∀ h, (o.pool.list l).pending = [h] → Dismissed socket disk h o o') :
    FailsAll l o o' ↔ Few l o.pool := by
  have alone (few : (o.pool.list l).pending.length ≤ 1) (h : HttpId)
      (queued : h ∈ (o.pool.list l).pending) : Dismissed socket disk h o o' := by
    refine single h ?_
    obtain ⟨x, only⟩ := List.length_eq_one_iff.mp
      (Nat.le_antisymm few (List.length_pos_of_mem queued))
    rw [only, List.mem_singleton] at queued
    rw [only, queued]
  unfold FailsAll Few
  rw [left, skipped_eq_nil_iff]
  refine and_congr_right fun few => ?_
  refine forall₂_congr fun h queued => ?_
  have dismissed := alone few h queued
  have ended := dismissed.ending.all_iff (sound.tied h queued)
  rw [sound.listed h queued] at ended
  constructor
  · intro failed
    exact ⟨dismissed.toDelete.mp failed.scheduled, ended.mp ⟨failed.told, failed.left⟩⟩
  · rintro ⟨alive, two⟩
    obtain ⟨told, gone⟩ := ended.mpr two
    refine ⟨told, gone, ?_, dismissed.toDelete.mpr alive⟩
    intro https path listed
    have named := (sound.filed.sheds sheds).consistent.named h (https, path) listed
    rw [(name_eq_none_iff o'.pool h).mpr dismissed.cachePath] at named
    cases named

variable (socket disk) in
theorem remoteSocketClosed_failsAll (system : System) (d : Dismisses disconnect)
    (ends : Ends disconnect) (sound : Sound limit missing l o) (leaves : b ∈ (o.pool.list l).busy)
    (last : (o.pool.list l).busy.erase b = [])
    (unanswered : (o.pool.backend b).wasTCPConnected = false) :
    ∃ o', o.remoteSocketClosed socket disk disconnect l b = some o' ∧
      (o'.pool.list l).pending = skipped (o.pool.list l).pending ∧
      (FailsAll l o o' ↔ Few l o.pool) := by
  have home := sound.wellFormed.home l b (List.mem_append_left _ leaves)
  obtain ⟨o', run, left⟩ := remoteSocketClosed_pending socket disk d sound.wellFormed last
  have erased : (o.remoteSocketClosed socket disk disconnect l b).map Origin.pool =
      Pool.remoteSocketClosed disconnect system b o.pool :=
    remoteSocketClosed_pool socket disk home unanswered
  rw [run] at erased
  refine ⟨o', run, left, ?_⟩
  refine failsAll_iff socket disk sound
    (remoteSocketClosed_sheds ends erased.symm) left ?_
  intro h queue
  exact remoteSocketClosed_dismisses d sound.wellFormed last queue (.inl (.refl h o)) rfl run

variable (socket disk) in
theorem downloadFinished_failsAll (system : System) (d : Dismisses disconnect)
    (ends : Ends disconnect) (sound : Sound limit missing l o) (leaves : b ∈ (o.pool.list l).busy)
    (last : (o.pool.list l).busy.erase b = [])
    (unanswered : (o.pool.backend b).wasTCPConnected = false) :
    ∃ o', o.downloadFinished socket disk disconnect l b = some o' ∧
      (o'.pool.list l).pending = skipped (o.pool.list l).pending ∧
      (FailsAll l o o' ↔ Few l o.pool) := by
  have home := sound.wellFormed.home l b (List.mem_append_left _ leaves)
  obtain ⟨x, linked, -⟩ := sound.wellFormed.busy l b leaves (Option.some_ne_none _).symm
  let q := finished socket disk l b x o
  have wq : WellFormed limit none q.pool := finished_wellFormed sound.wellFormed linked home
  obtain ⟨queue, busy⟩ := finished_list socket disk l b x o
  have last' : (q.pool.list l).busy.erase b = [] := by
    rw [busy, last, List.erase_nil]
  obtain ⟨o', run, left⟩ := remoteSocketClosed_pending socket disk d wq last'
  rw [queue] at left
  have erased : (o.downloadFinished socket disk disconnect l b).map Origin.pool =
      Pool.downloadFinished disconnect system b o.pool :=
    downloadFinished_pool socket disk home unanswered
  have run' := (downloadFinished_eq linked).trans run
  rw [run'] at erased
  refine ⟨o', run', left, ?_⟩
  refine failsAll_iff socket disk sound
    (downloadFinished_sheds ends erased.symm) left ?_
  intro h only
  obtain ⟨told, alive⟩ := finished_told (x := x) socket disk last only
  exact remoteSocketClosed_dismisses d wq last' (queue.trans only) (.inr told) alive run

/-- A pool that has been reached is sound with the clients that point to its downloads. -/
theorem reach_sound {hostsubfolder : Bool} {XXH3_64bits : Bytes → UInt64} (positive : 1 ≤ limit)
    (reached : Reach Step (Asked hostsubfolder XXH3_64bits) (· = initial limit) o.pool)
    (tied : ∀ h ∈ (o.pool.list l).pending, Tied Client.http (o.clients h))
    (listed : ∀ h ∈ (o.pool.list l).pending,
      (o.clients h).slots.live = (o.pool.http h).clientsList) :
    Sound limit none l o where
  wellFormed := reach_wellFormed positive reached
  filed := reach_filed reached
  tied := tied
  listed := listed

/-- When the last connection of an address ends without an answer, all that is
queued is failed exactly if at most one download is queued, and if that one has
its host and uri and at most two clients. -/
theorem dead_origin_fails_all_iff (socket : ClientId → Schedule) (disk : ι → Bytes)
    (system : System) (depth : ℕ) (sound : Sound limit missing l o)
    (leaves : b ∈ (o.pool.list l).busy) (last : (o.pool.list l).busy.erase b = [])
    (unanswered : (o.pool.backend b).wasTCPConnected = false) :
    let disconnect := disconnectBackend system (depth + 1) false
    (∃ o', o.remoteSocketClosed socket disk disconnect l b = some o' ∧
      (FailsAll l o o' ↔ Few l o.pool)) ∧
    ∃ o', o.downloadFinished socket disk disconnect l b = some o' ∧
      (FailsAll l o o' ↔ Few l o.pool) := by
  have d : Dismisses (disconnectBackend system (depth + 1) false) :=
    disconnectBackend_dismisses depth
  have ends : Ends (disconnectBackend system (depth + 1) false) :=
    ends_disconnectBackend (depth + 1) false
  constructor
  · obtain ⟨o', run, -, fails⟩ := remoteSocketClosed_failsAll socket disk system d ends sound leaves
      last unanswered
    exact ⟨o', run, fails⟩
  · obtain ⟨o', run, -, fails⟩ := downloadFinished_failsAll socket disk system d ends sound leaves
      last unanswered
    exact ⟨o', run, fails⟩

end Results

def attached (p : Pool) : Origin Unit where
  pool := p
  clients h := {
    slots := ⟨(p.http h).clientsList, []⟩
    state c := { Client.new with http := decide (c ∈ (p.http h).clientsList), isPartial := true } }
  errors := []

theorem attached_tied {p : Pool} {h : HttpId} (distinct : (p.http h).clientsList.Nodup) :
    Tied Client.http ((attached p).clients h) where
  distinct := distinct
  back client := by simp [attached]

def connecting : System := ⟨fun _ => .started, 1000000⟩

def requested : List Request → Pool
  | [] => initial 1
  | r :: before => started connecting r ⟨.zero, 80⟩ (requested before)

theorem requested_pathTo {path : Bytes} (rs : List Request) (free : ∀ r ∈ rs, r.path ≠ path)
    (https : Bool) : (requested rs).pathTo https path = none := by
  induction rs with
  | nil => rfl
  | cons r before ih =>
    rw [requested, started_pathTo, if_neg]
    · exact ih fun r' member => free r' (List.mem_cons_of_mem r member)
    · rintro ⟨-, same⟩
      exact free r List.mem_cons_self same.symm

theorem requested_reached (rs : List Request)
    (asked : ∀ r ∈ rs, Asks true CacheKeys.XXH3_len_0to16_64b r)
    (distinct : rs.Pairwise fun r r' => r'.path ≠ r.path) :
    Reach Step (Asked true CacheKeys.XXH3_len_0to16_64b) (· = initial 1) (requested rs) := by
  induction rs with
  | nil => exact .start rfl
  | cons r before ih =>
    rw [List.pairwise_cons] at distinct
    have reached := ih (fun r' member => asked r' (List.mem_cons_of_mem r member)) distinct.2
    exact .next (e := (connecting, .dnsRight r ⟨.zero, 80⟩)) reached
      (asked r List.mem_cons_self) (started_step (requested_pathTo before distinct.1 r.https) _)

theorem attached_sound {p : Pool} {l : ListId}
    (reached : Reach Step (Asked true CacheKeys.XXH3_len_0to16_64b) (· = initial 1) p)
    (distinct : ∀ h ∈ (p.list l).pending, (p.http h).clientsList.Nodup) :
    Sound 1 none l (attached p) :=
  reach_sound (o := attached p) Nat.one_pos reached
    (fun h queued => attached_tied (distinct h queued)) fun _ _ => rfl

theorem one_waits : ∃ p, Reach Step (Asked true CacheKeys.XXH3_len_0to16_64b) (· = initial 1) p ∧
    (p.list 0).busy = [0] ∧ (p.list 0).pending = [1] ∧ (p.backend 0).wasTCPConnected = false ∧
    (p.http 1).isAlive = true ∧ (p.http 1).clientsList = [8] := by
  let pages := [page (ascii "/y") 8, page (ascii "/x") 7]
  have reached := requested_reached pages (by simp [pages, Asks, page])
    (by simp [pages, page_path_ne.symm])
  exact ⟨requested pages, reached, by decide +kernel⟩

theorem two_wait : ∃ p, Reach Step (Asked true CacheKeys.XXH3_len_0to16_64b) (· = initial 1) p ∧
    (p.list 0).busy = [0] ∧ (p.list 0).pending = [1, 2] ∧
    (p.backend 0).wasTCPConnected = false ∧ (p.http 1).clientsList = [8] ∧
    (p.http 2).clientsList = [9] := by
  let pages := [page (ascii "/z") 9, page (ascii "/y") 8, page (ascii "/x") 7]
  have others : (page (ascii "/x") 7).path ≠ (page (ascii "/z") 9).path ∧
      (page (ascii "/y") 8).path ≠ (page (ascii "/z") 9).path := by
    decide
  have reached := requested_reached pages (by simp [pages, Asks, page])
    (by simp [pages, page_path_ne.symm, others])
  exact ⟨requested pages, reached, by decide +kernel⟩

theorem one_waiting_download_fails : ∃ o : Origin Unit, (o.pool.list 0).pending = [1] ∧
    let disconnect := disconnectBackend connecting 1 false
    (∃ o', o.remoteSocketClosed FanOut.ready (fun _ => []) disconnect 0 0 = some o' ∧
      FailsAll 0 o o') ∧
    ∃ o', o.downloadFinished FanOut.ready (fun _ => []) disconnect 0 0 = some o' ∧
      FailsAll 0 o o' := by
  obtain ⟨p, reached, busy, queue, unanswered, alive, client⟩ := one_waits
  have only (h : HttpId) (queued : h ∈ (p.list 0).pending) : h = 1 := by simpa [queue] using queued
  have sound : Sound 1 none 0 (attached p) := by
    refine attached_sound reached fun h queued => ?_
    rw [only h queued, client]
    decide
  have few : Few 0 p := by
    refine ⟨by rw [queue]; exact Nat.le_refl 1, fun h queued => ?_⟩
    rw [only h queued, client]
    exact ⟨alive, by decide⟩
  have leaves : 0 ∈ (p.list 0).busy := by simp [busy]
  have last : (p.list 0).busy.erase 0 = [] := by simp [busy]
  obtain ⟨⟨o', closed, fails⟩, o'', finished, fails'⟩ :=
    dead_origin_fails_all_iff FanOut.ready (fun _ => []) connecting 0 sound leaves last unanswered
  exact ⟨attached p, queue, ⟨o', closed, fails.mpr few⟩, o'', finished, fails'.mpr few⟩

/-- The first of two waiting downloads is failed, and the second stays queued. -/
theorem second_waiting_download_stays : ∃ o : Origin Unit, Sound 1 none 0 o ∧
    (o.pool.list 0).busy = [0] ∧ (o.pool.list 0).pending = [1, 2] ∧
    (o.pool.backend 0).wasTCPConnected = false ∧
    let disconnect := disconnectBackend connecting 1 false
    (∃ o', o.remoteSocketClosed FanOut.ready (fun _ => []) disconnect 0 0 = some o' ∧
      (o'.pool.list 0).pending = [2] ∧ ¬FailsAll 0 o o') ∧
    ∃ o', o.downloadFinished FanOut.ready (fun _ => []) disconnect 0 0 = some o' ∧
      (o'.pool.list 0).pending = [2] ∧ ¬FailsAll 0 o o' := by
  obtain ⟨p, reached, busy, queue, unanswered, first, second⟩ := two_wait
  have sound : Sound 1 none 0 (attached p) := by
    refine attached_sound reached fun h queued => ?_
    rw [queue] at queued
    obtain rfl | rfl : h = 1 ∨ h = 2 := by simpa using queued
    · rw [first]
      decide
    · rw [second]
      decide
  have leaves : 0 ∈ (p.list 0).busy := by simp [busy]
  have last : (p.list 0).busy.erase 0 = [] := by simp [busy]
  have d : Dismisses (disconnectBackend connecting 1 false) := disconnectBackend_dismisses 0
  have ends : Ends (disconnectBackend connecting 1 false) := ends_disconnectBackend 1 false
  have many : ¬Few 0 p := by
    intro few
    have size := few.1
    rw [queue] at size
    exact absurd size (by decide)
  obtain ⟨o', closed, left, fails⟩ := remoteSocketClosed_failsAll FanOut.ready (fun _ => [])
    connecting d ends sound leaves last unanswered
  obtain ⟨o'', finished, left', fails'⟩ := downloadFinished_failsAll FanOut.ready (fun _ => [])
    connecting d ends sound leaves last unanswered
  have passed : skipped (p.list 0).pending = [2] := by rw [queue]; rfl
  exact ⟨attached p, sound, busy, queue, unanswered,
    ⟨o', closed, left.trans passed, mt fails.mp many⟩,
    o'', finished, left'.trans passed, mt fails'.mp many⟩

end FastCgiCdn.DeadOrigin
