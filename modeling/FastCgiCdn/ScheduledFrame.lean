import Mathlib.Data.List.Basic
import FastCgiCdn.PoolModel

/-! No call reads which objects are scheduled for deletion, and none takes one off the
schedule but a deletion: an event does the same to the pool whatever else is scheduled. -/

namespace FastCgiCdn.ScheduledFrame

open DnsModel PoolModel Pool

variable {t : List HttpId} {p : Pool} {system : System}
variable {disconnect : HttpId → Pool → Option Pool}

theorem insert_union (h : HttpId) (s t : List HttpId) : s.insert h ∪ t = (s ∪ t).insert h := by
  by_cases member : h ∈ s
  · rw [List.insert_of_mem member, List.insert_of_mem (List.mem_union_iff.mpr (.inl member))]
  · rw [List.insert_of_not_mem member, List.cons_union]

/-- The pool with more objects scheduled. -/
def extend (t : List HttpId) (p : Pool) : Pool := { p with toDelete := p.toDelete ∪ t }

@[simp] theorem extend_http : (extend t p).http = p.http := rfl

@[simp] theorem extend_backend : (extend t p).backend = p.backend := rfl

@[simp] theorem extend_list : (extend t p).list = p.list := rfl

@[simp] theorem extend_newBackend : (extend t p).newBackend = p.newBackend := rfl

@[simp] theorem extend_newHttp : (extend t p).newHttp = p.newHttp := rfl

@[simp] theorem extend_maxBackend : (extend t p).maxBackend = p.maxBackend := rfl

@[simp] theorem extend_addressTo : (extend t p).addressTo = p.addressTo := rfl

@[simp] theorem extend_pathTo : (extend t p).pathTo = p.pathTo := rfl

@[simp] theorem setHttp_extend (h : HttpId) (f : Http → Http) :
    setHttp h f (extend t p) = extend t (setHttp h f p) := rfl

@[simp] theorem setBackend_extend (b : BackendId) (f : Backend → Backend) :
    setBackend b f (extend t p) = extend t (setBackend b f p) := rfl

@[simp] theorem setList_extend (l : ListId) (f : BackendList → BackendList) :
    setList l f (extend t p) = extend t (setList l f p) := rfl

@[simp] theorem setPath_extend (https : Bool) (path : Bytes) (h : Option HttpId) :
    setPath https path h (extend t p) = extend t (setPath https path h p) := rfl

@[simp] theorem setAddress_extend (https : Bool) (addr : In6Addr) (l : Option ListId) :
    setAddress https addr l (extend t p) = extend t (setAddress https addr l p) := rfl

@[simp] theorem close_extend (b : BackendId) : close b (extend t p) = extend t (close b p) := rfl

@[simp] theorem disconnectFrontend_extend (h : HttpId) :
    disconnectFrontend h (extend t p) = extend t (disconnectFrontend h p) := rfl

@[simp] theorem leaveBusy_extend (l : ListId) (b : BackendId) :
    leaveBusy l b (extend t p) = extend t (leaveBusy l b p) := rfl

@[simp] theorem leaveIdle_extend (l : ListId) (b : BackendId) :
    leaveIdle l b (extend t p) = extend t (leaveIdle l b p) := rfl

@[simp] theorem link_extend (b : BackendId) (h : HttpId) :
    link b h (extend t p) = extend t (link b h p) := rfl

@[simp] theorem enterBusy_extend (l : ListId) (b : BackendId) :
    enterBusy l b (extend t p) = extend t (enterBusy l b p) := rfl

@[simp] theorem allocBackend_extend (l : ListId) :
    allocBackend system l (extend t p) = extend t (allocBackend system l p) := rfl

@[simp] theorem allocHttp_extend (https : Bool) (path : Bytes) :
    allocHttp system https path (extend t p) = extend t (allocHttp system https path p) := rfl

@[simp] theorem unregister_extend (h : HttpId) :
    unregister h (extend t p) = extend t (unregister h p) := by
  unfold unregister
  rw [extend_http]
  split <;> rfl

@[simp] theorem backendError_extend (h : HttpId) :
    backendError h (extend t p) = extend t (backendError h p) := by
  simp [backendError]

@[simp] theorem readyToWrite_extend (h : HttpId) :
    readyToWrite system h (extend t p) = extend t (readyToWrite system h p) := by
  unfold readyToWrite
  rw [extend_http]
  split <;> rfl

@[simp] theorem addClient_extend (h : HttpId) (client : ClientId) :
    addClient h client (extend t p) = extend t (addClient h client p) := by
  unfold addClient
  rw [extend_http]
  split <;> rfl

@[simp] theorem shut_extend (b : BackendId) : shut b (extend t p) = extend t (shut b p) := by
  unfold shut resetRequestSended
  rw [extend_backend]
  split
  · rfl
  · rw [close_extend, extend_http]
    split <;> rfl

@[simp] theorem park_extend (l : ListId) (b : BackendId) :
    park l b (extend t p) = extend t (park l b p) := by
  unfold park
  rw [extend_backend]
  split <;> rfl

@[simp] theorem leavePending_extend (h : HttpId) :
    leavePending h (extend t p) = extend t (leavePending h p) := by
  unfold leavePending
  rw [extend_http]
  split <;> rfl

@[simp] theorem errorPending_extend (l : ListId) :
    errorPending l (extend t p) = extend t (errorPending l p) := by
  unfold errorPending
  rw [extend_list]
  generalize (p.list l).pending = waiting
  induction waiting generalizing p with
  | nil => rfl
  | cons h waiting ih => simp [ih]

@[simp] theorem dropEmptyList_extend (l : ListId) :
    dropEmptyList l (extend t p) = extend t (dropEmptyList l p) := by
  unfold dropEmptyList
  rw [extend_list]
  split <;> rfl

@[simp] theorem retire_extend (fromDestructor : Bool) (h : HttpId) :
    retire fromDestructor h (extend t p) = extend t (retire fromDestructor h p) := by
  have scheduled (q : Pool) : { extend t q with toDelete := (extend t q).toDelete.insert h } =
      extend t { q with toDelete := q.toDelete.insert h } := by
    unfold extend
    rw [insert_union]
  unfold retire
  dsimp only
  rw [setHttp_extend, extend_http]
  split
  · refine (congrArg (fun q => setHttp h _ (unregister h q)) (scheduled _)).trans ?_
    rw [unregister_extend, setHttp_extend]
  · rw [unregister_extend, setHttp_extend]

@[simp] theorem reassign_extend (l : ListId) (b : BackendId) (h : HttpId) :
    reassign system l b h (extend t p) = extend t (reassign system l b h p) := by
  unfold reassign
  dsimp only
  rw [setHttp_extend, extend_list]
  split
  · simp
  · rw [extend_newBackend, allocBackend_extend, link_extend, enterBusy_extend, setBackend_extend]
    split <;> rfl

section reentrance

/-- The call does the same whatever else is scheduled. -/
def Frames (t : List HttpId) (disconnect : HttpId → Pool → Option Pool) : Prop :=
  ∀ h p, disconnect h (extend t p) = (disconnect h p).map (extend t)

theorem failPending_extend (frames : Frames t disconnect) (l : ListId) (fuel index : ℕ) :
    failPending disconnect l fuel index (extend t p) =
      (failPending disconnect l fuel index p).map (extend t) := by
  induction fuel generalizing index p with
  | zero => rfl
  | succ fuel ih =>
    unfold failPending
    rw [extend_list]
    split
    · rfl
    · rw [backendError_extend, disconnectFrontend_extend, frames, Option.bind_map,
        Option.map_bind]
      exact congrArg _ (funext fun q => ih (index + 1))

theorem remoteSocketClosed_extend (frames : Frames t disconnect) (b : BackendId) :
    remoteSocketClosed disconnect system b (extend t p) =
      (remoteSocketClosed disconnect system b p).map (extend t) := by
  unfold remoteSocketClosed
  dsimp only
  rw [shut_extend, extend_backend, extend_list]
  split
  · rfl
  · rename_i l _
    split
    · rw [leaveBusy_extend, extend_list, failPending_extend frames]
      split
      · rw [Option.map_map, Option.map_map]
        refine congrArg (Option.map · _) (funext fun q => ?_)
        simp only [Function.comp_apply, extend_backend]
        split <;> rfl
      · simp only [Option.map_some, extend_backend]
        split <;> rfl
    · split
      · rw [leaveBusy_extend, extend_backend]
        split
        · rw [reassign_extend, Option.map_some]
        · rw [dropEmptyList_extend, setBackend_extend, Option.map_some]
      · rw [leaveIdle_extend, Option.map_some]

theorem serveNext_extend (frames : Frames t disconnect) (b : BackendId) (l : ListId) (fuel : ℕ) :
    serveNext disconnect system b l fuel (extend t p) =
      (serveNext disconnect system b l fuel p).map fun r => (r.1, extend t r.2) := by
  induction fuel generalizing p with
  | zero => rfl
  | succ fuel ih =>
    unfold serveNext
    rw [extend_list]
    split
    · rfl
    · rename_i h rest queue
      dsimp only
      rw [setList_extend, setHttp_extend, extend_http]
      split
      · rw [link_extend, readyToWrite_extend, Option.map_some]
      · rw [backendError_extend, disconnectFrontend_extend, frames, Option.bind_map,
          Option.map_bind]
        refine congrArg _ (funext fun q => ?_)
        rw [Function.comp_apply, Function.comp_apply, extend_list]
        by_cases empty : (q.list l).pending.isEmpty
        · rw [if_pos empty, if_pos empty, Option.map_some]
        · rw [if_neg empty, if_neg empty, ih]

theorem downloadFinished_extend (frames : Frames t disconnect) (b : BackendId) :
    downloadFinished disconnect system b (extend t p) =
      (downloadFinished disconnect system b p).map (extend t) := by
  unfold downloadFinished
  rw [extend_backend]
  split
  · rfl
  · rename_i l _
    dsimp only
    split
    · have emptied : (if (!((leaveBusy l b (extend t p)).list l).pending.isEmpty &&
            ((leaveBusy l b (extend t p)).list l).busy.isEmpty) = true then
            errorPending l (leaveBusy l b (extend t p)) else leaveBusy l b (extend t p)) =
          extend t (if (!((leaveBusy l b p).list l).pending.isEmpty &&
            ((leaveBusy l b p).list l).busy.isEmpty) = true then
            errorPending l (leaveBusy l b p) else leaveBusy l b p) := by
        rw [leaveBusy_extend, extend_list]
        split
        · rw [errorPending_extend]
        · rfl
      rw [emptied, extend_backend]
      split
      · rfl
      · rw [setHttp_extend, backendError_extend, setBackend_extend, close_extend,
          remoteSocketClosed_extend frames]
    · split
      · rfl
      · rw [extend_list]
        split
        · rw [leaveBusy_extend, park_extend, setHttp_extend, setBackend_extend, Option.map_some]
        · rw [setHttp_extend, setBackend_extend, extend_list, serveNext_extend frames,
            Option.map_map, Option.map_map]
          refine congrArg (Option.map · _) (funext fun r => ?_)
          rw [Function.comp_apply, Function.comp_apply]
          dsimp only
          rw [leaveBusy_extend, park_extend]
          split <;> rfl

end reentrance

theorem disconnectBackend_extend (depth : ℕ) (fromDestructor : Bool) (h : HttpId) :
    disconnectBackend system depth fromDestructor h (extend t p) =
      (disconnectBackend system depth fromDestructor h p).map (extend t) := by
  induction depth generalizing fromDestructor h p with
  | zero => rfl
  | succ depth ih =>
    have retired : retire fromDestructor h ∘ extend t = extend t ∘ retire fromDestructor h :=
      funext fun _ => retire_extend fromDestructor h
    unfold disconnectBackend
    rw [extend_http]
    split
    · rw [downloadFinished_extend (fun h p => ih false h), Option.map_map, Option.map_map, retired]
    · rw [leavePending_extend, Option.map_some, Option.map_some, Option.map_some, retire_extend]

theorem disconnectBackend_frames (depth : ℕ) : Frames t (disconnectBackend system depth false) :=
  fun h _ => disconnectBackend_extend depth false h

@[simp] theorem tryConnectInternalList_extend (https : Bool) (s : SockAddr) (h : HttpId) :
    tryConnectInternalList system https s h (extend t p) =
      (extend t (tryConnectInternalList system https s h p).1,
        (tryConnectInternalList system https s h p).2) := by
  unfold tryConnectInternalList
  rw [extend_addressTo]
  split
  · dsimp only
    rw [setHttp_extend, extend_list]
    split
    · rw [setList_extend, link_extend, readyToWrite_extend]
    · rw [extend_maxBackend]
      split
      · rw [extend_newBackend, allocBackend_extend, link_extend, enterBusy_extend]
        split <;> rfl
      · rfl
  · dsimp only
    have connected (q : Pool) (l : ListId) :
        (if system.connect (extend t q).newBackend = .started then
          (setAddress https s.sin6_addr (some l) (enterBusy l (extend t q).newBackend
            (link (extend t q).newBackend h (allocBackend system l (extend t q)))),
            some (extend t q).newBackend)
        else (allocBackend system l (extend t q), none)) =
        Prod.map (extend t) id (if system.connect q.newBackend = .started then
          (setAddress https s.sin6_addr (some l) (enterBusy l q.newBackend
            (link q.newBackend h (allocBackend system l q))), some q.newBackend)
        else (allocBackend system l q, none)) := by
      rw [extend_newBackend, allocBackend_extend, link_extend, enterBusy_extend,
        setAddress_extend]
      split <;> rfl
    exact connected (setHttp h ({ · with backendList := some p.newList })
      { setList p.newList (fun _ => ⟨[], [], [], s⟩) p with newList := p.newList + 1 }) p.newList

theorem startDownload_extend (r : Request) (s : SockAddr) :
    startDownload system r s (extend t p) = (startDownload system r s p).map (extend t) := by
  have connected : tryConnect system s r.host r.uri r.etag (extend t p).newHttp
      (allocHttp system r.https r.path (extend t p)) = extend t (tryConnect system s r.host r.uri
        r.etag p.newHttp (allocHttp system r.https r.path p)) := by
    unfold tryConnect
    dsimp only
    rw [allocHttp_extend, setHttp_extend, extend_http, tryConnectInternalList_extend,
      setHttp_extend]
    rfl
  unfold startDownload
  dsimp only
  rw [connected, extend_pathTo]
  split
  · rfl
  · rw [setPath_extend, extend_newHttp, addClient_extend, Option.map_some]

theorem joinDownload_extend (depth : ℕ) (r : Request) :
    joinDownload system depth r (extend t p) =
      (joinDownload system depth r p).map fun found => (found.1, extend t found.2) := by
  unfold joinDownload
  rw [extend_pathTo]
  split
  · rfl
  · rw [extend_http]
    split
    · rw [addClient_extend, Option.map_some]
    · rw [setPath_extend, disconnectFrontend_extend, disconnectBackend_extend, Option.map_map,
        Option.map_map]
      rfl

theorem dnsRight_extend (depth : ℕ) (r : Request) (s : SockAddr) :
    dnsRight system depth r s (extend t p) = (dnsRight system depth r s p).map (extend t) := by
  unfold dnsRight
  rw [joinDownload_extend, Option.bind_map, Option.map_bind]
  refine congrArg _ (funext fun found => ?_)
  rw [Function.comp_apply, Function.comp_apply]
  dsimp only
  split
  · rw [Option.map_some]
  · rw [startDownload_extend]

@[simp] theorem statusLine_extend (h : HttpId) (http_code : ℕ) :
    statusLine h http_code (extend t p) = extend t (statusLine h http_code p) := by
  unfold statusLine
  dsimp only
  rw [setHttp_extend, extend_http]
  split <;> rfl

theorem backendTimeout_extend (depth : ℕ) (b : BackendId) :
    backendTimeout system depth b (extend t p) =
      (backendTimeout system depth b p).map (extend t) := by
  unfold backendTimeout
  rw [extend_backend]
  split
  · rfl
  · dsimp only
    split
    · rfl
    · rw [backendError_extend, disconnectFrontend_extend, disconnectBackend_extend,
        Option.bind_map, Option.map_bind]
      refine congrArg _ (funext fun q => ?_)
      rw [Function.comp_apply, Function.comp_apply, close_extend,
        remoteSocketClosed_extend (disconnectBackend_frames depth)]

theorem httpTimeout_extend (depth : ℕ) (h : HttpId) :
    httpTimeout system depth h (extend t p) = (httpTimeout system depth h p).map (extend t) := by
  unfold httpTimeout
  dsimp only
  rw [extend_http]
  generalize (if (p.http h).pending = true then 30 else 5) = secondForTimeout
  split
  · rfl
  · rw [disconnectFrontend_extend, extend_http]
    split
    · rfl
    · rw [disconnectBackend_extend]

@[simp] theorem deleteBackend_extend (b : BackendId) :
    deleteBackend b (extend t p) = extend t (deleteBackend b p) := by
  unfold deleteBackend
  dsimp only
  rw [close_extend, extend_backend]
  generalize close b p = q
  cases (q.backend b).http with
  | none =>
    dsimp only
    rw [extend_backend]
    cases (q.backend b).backendList <;> rfl
  | some h =>
    dsimp only
    rw [setHttp_extend, setBackend_extend, extend_backend]
    generalize setBackend b _ _ = q'
    cases (q'.backend b).backendList <;> rfl

theorem perform_extend {e : Event} (keeps : ∀ h, e ≠ .deleteHttp h) (depth : ℕ) :
    perform system depth e (extend t p) = (perform system depth e p).map (extend t) := by
  cases e with
  | dnsRight r s => exact dnsRight_extend depth r s
  | loadUrl r =>
    rw [perform, perform, joinDownload_extend, Option.map_map, Option.map_map]
    rfl
  | removeClient h client => rfl
  | statusLine h http_code => exact congrArg some (statusLine_extend h http_code)
  | readyToWrite h => exact congrArg some (readyToWrite_extend h)
  | disconnectFrontend h => rfl
  | flushRead h =>
    rw [perform, perform, disconnectBackend_extend, Option.map_map, Option.map_map]
    rfl
  | endOfBody h =>
    rw [perform, perform, disconnectFrontend_extend, disconnectBackend_extend]
  | remoteSocketClosed b => exact remoteSocketClosed_extend (disconnectBackend_frames depth) b
  | startHttpsFails b => rfl
  | backendTimeout b => exact backendTimeout_extend depth b
  | httpTimeout h => exact httpTimeout_extend depth h
  | deleteBackend b => exact congrArg some (deleteBackend_extend b)
  | deleteHttp h => exact absurd rfl (keeps h)

end FastCgiCdn.ScheduledFrame
