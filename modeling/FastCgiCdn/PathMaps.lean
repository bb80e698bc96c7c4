import FastCgiCdn.ClientModel
import FastCgiCdn.GuardedRuns
import FastCgiCdn.NameRegistry
import FastCgiCdn.PoolInvariant

/-! The maps from cache paths to downloads. The pool is seen through the names of
its Http objects: every call but the registration of a new download only takes
names away, together with their entries, and with the name go the clients. -/

namespace FastCgiCdn.PathMaps

open GuardedRuns DnsModel PoolModel Pool PoolInvariant NameRegistry

/-- The names of the Http objects. An object whose `cachePath` is empty has none. -/
def names (p : Pool) : Registry HttpId (Bool × Bytes) where
  name h := if (p.http h).cachePath = [] then none else some ((p.http h).https, (p.http h).cachePath)
  table k := p.pathTo k.1 k.2

/-- The key that goes with a path. -/
def shadow (k : Bool × Bytes) : Bool × Bytes := (k.1, k.2 ++ tmp)

theorem name_eq_none_iff (p : Pool) (h : HttpId) :
    (names p).name h = none ↔ (p.http h).cachePath = [] := by
  simp [names]

theorem name_eq_some_iff (p : Pool) (h : HttpId) (https : Bool) (path : Bytes) :
    (names p).name h = some (https, path) ↔
      path ≠ [] ∧ (p.http h).https = https ∧ (p.http h).cachePath = path := by
  simp only [names]
  split
  · rename_i nameless
    simp only [reduceCtorEq, false_iff, nameless]
    rintro ⟨wrong, -, same⟩
    exact wrong same.symm
  · rename_i named
    rw [Option.some_inj, Prod.mk_inj]
    constructor
    · rintro ⟨scheme, rfl⟩
      exact ⟨named, scheme, rfl⟩
    · rintro ⟨-, scheme, same⟩
      exact ⟨scheme, same⟩

theorem names_congr {p p' : Pool} (https : ∀ x, (p'.http x).https = (p.http x).https)
    (cachePath : ∀ x, (p'.http x).cachePath = (p.http x).cachePath)
    (pathTo : p'.pathTo = p.pathTo) : names p' = names p := by
  simp only [names, https, cachePath, pathTo]

structure Keeps (p p' : Pool) : Prop where
  https : ∀ x, (p'.http x).https = (p.http x).https
  cachePath : ∀ x, (p'.http x).cachePath = (p.http x).cachePath
  clientsList : ∀ x, (p'.http x).clientsList = (p.http x).clientsList
  pathTo : p'.pathTo = p.pathTo
  newHttp : p'.newHttp = p.newHttp
  toDelete : p'.toDelete = p.toDelete

namespace Keeps

variable {p p' p'' : Pool}

theorem refl (p : Pool) : Keeps p p :=
  ⟨fun _ => rfl, fun _ => rfl, fun _ => rfl, rfl, rfl, rfl⟩

theorem trans (first : Keeps p p') (second : Keeps p' p'') : Keeps p p'' where
  https x := (second.https x).trans (first.https x)
  cachePath x := (second.cachePath x).trans (first.cachePath x)
  clientsList x := (second.clientsList x).trans (first.clientsList x)
  pathTo := second.pathTo.trans first.pathTo
  newHttp := second.newHttp.trans first.newHttp
  toDelete := second.toDelete.trans first.toDelete

theorem names (keeps : Keeps p p') : names p' = names p :=
  names_congr keeps.https keeps.cachePath keeps.pathTo

theorem setField (h : HttpId) {f : Http → Http} (https : ∀ x, (f x).https = x.https)
    (cachePath : ∀ x, (f x).cachePath = x.cachePath)
    (clients : ∀ x, (f x).clientsList = x.clientsList) : Keeps p (setHttp h f p) := by
  have kept {α : Type} (field : Http → α) (same : ∀ x, field (f x) = field x) (x : HttpId) :
      field ((setHttp h f p).http x) = field (p.http x) := by
    rw [setHttp_http]
    split
    · rename_i own
      rw [same, own]
    · rfl
  exact ⟨kept Http.https https, kept Http.cachePath cachePath, kept Http.clientsList clients,
    rfl, rfl, rfl⟩

theorem setBackend (b : BackendId) (f : Backend → Backend) : Keeps p (Pool.setBackend b f p) :=
  ⟨fun _ => rfl, fun _ => rfl, fun _ => rfl, rfl, rfl, rfl⟩

theorem setList (l : ListId) (f : BackendList → BackendList) : Keeps p (Pool.setList l f p) :=
  ⟨fun _ => rfl, fun _ => rfl, fun _ => rfl, rfl, rfl, rfl⟩

theorem setAddress (https : Bool) (addr : In6Addr) (l : Option ListId) :
    Keeps p (Pool.setAddress https addr l p) :=
  ⟨fun _ => rfl, fun _ => rfl, fun _ => rfl, rfl, rfl, rfl⟩

theorem allocBackend (system : System) (l : ListId) : Keeps p (Pool.allocBackend system l p) :=
  ⟨fun _ => rfl, fun _ => rfl, fun _ => rfl, rfl, rfl, rfl⟩

theorem close (b : BackendId) : Keeps p (Pool.close b p) := setBackend b _

theorem readyToWrite (system : System) (h : HttpId) : Keeps p (Pool.readyToWrite system h p) := by
  unfold Pool.readyToWrite
  split
  · exact refl p
  · exact setField h (fun _ => rfl) (fun _ => rfl) (fun _ => rfl)

theorem shut (b : BackendId) : Keeps p (Pool.shut b p) := by
  have closed : Keeps p (Pool.close b p) := close b
  unfold Pool.shut
  split
  · exact closed
  · refine closed.trans ?_
    unfold Pool.resetRequestSended
    split
    · exact refl _
    · exact setField _ (fun _ => rfl) (fun _ => rfl) (fun _ => rfl)

theorem link (b : BackendId) (h : HttpId) : Keeps p (Pool.link b h p) := by
  have linked : Keeps p (Pool.setBackend b ({ · with http := some h }) p) := setBackend b _
  exact linked.trans (setField h (fun _ => rfl) (fun _ => rfl) (fun _ => rfl))

theorem park (l : ListId) (b : BackendId) : Keeps p (Pool.park l b p) := by
  unfold Pool.park
  split
  · exact setList l _
  · exact refl p

theorem leavePending (h : HttpId) : Keeps p (Pool.leavePending h p) := by
  unfold Pool.leavePending
  split
  · exact refl p
  · exact setList _ _

theorem dropEmptyList (l : ListId) : Keeps p (Pool.dropEmptyList l p) := by
  unfold Pool.dropEmptyList
  split
  · exact setAddress _ _ _
  · exact refl p

theorem reassign {system : System} {l : ListId} {b : BackendId} {h : HttpId} :
    Keeps p (Pool.reassign system l b h p) := by
  have unsent : Keeps p (setHttp h ({ · with requestSended := false }) p) :=
    setField h (fun _ => rfl) (fun _ => rfl) (fun _ => rfl)
  unfold Pool.reassign
  simp only
  split
  · rename_i backend last
    have taken := unsent.trans
      (setList l fun x => { x with idle := x.idle.dropLast, busy := x.busy ++ [backend] })
    exact ((taken.trans (link backend h)).trans (readyToWrite system h)).trans (setBackend b _)
  · have opened := unsent.trans (allocBackend system l)
    split
    · exact ((opened.trans (link p.newBackend h)).trans (setList l _)).trans (setBackend b _)
    · exact opened

theorem tryConnectInternalList (system : System) (h : HttpId) (https : Bool) (s : SockAddr) :
    Keeps p (Pool.tryConnectInternalList system https s h p).1 := by
  have homed (l : ListId) (q : Pool) : Keeps q (setHttp h ({ · with backendList := some l }) q) :=
    setField h (fun _ => rfl) (fun _ => rfl) (fun _ => rfl)
  unfold Pool.tryConnectInternalList
  split
  · rename_i l found
    dsimp only
    split
    · rename_i backend last
      have taken := (homed l p).trans
        (setList l fun x => { x with idle := x.idle.dropLast, busy := x.busy ++ [backend] })
      exact (taken.trans (link backend h)).trans (readyToWrite system h)
    · split
      · have opened := (homed l p).trans (allocBackend system l)
        split
        · dsimp only
          exact (opened.trans (link p.newBackend h)).trans (setList l _)
        · exact opened
      · have waits : Keeps _ (setHttp h ({ · with pending := true }) _) :=
          (homed l p).trans (setField h (fun _ => rfl) (fun _ => rfl) (fun _ => rfl))
        dsimp only
        exact waits.trans (setList l _)
  · let opened := { Pool.setList p.newList (fun _ => ⟨[], [], [], s⟩) p with newList := p.newList + 1 }
    have listed : Keeps p opened := ⟨fun _ => rfl, fun _ => rfl, fun _ => rfl, rfl, rfl, rfl⟩
    have started := (listed.trans (homed p.newList opened)).trans (allocBackend system p.newList)
    dsimp only
    split
    · dsimp only
      have busy := (started.trans (link p.newBackend h)).trans
        (setList p.newList fun x => { x with busy := x.busy ++ [p.newBackend] })
      exact busy.trans (setAddress https s.sin6_addr (some p.newList))
    · exact started

theorem tryConnect {system : System} {h : HttpId} (s : SockAddr) (host uri etag : Bytes) :
    Keeps p (Pool.tryConnect system s host uri etag h p) := by
  let q := setHttp h ({ · with host := host, uri := uri, etagBackend := etag }) p
  have addressed : Keeps p q := setField h (fun _ => rfl) (fun _ => rfl) (fun _ => rfl)
  let r := Pool.tryConnectInternalList system (q.http h).https s h q
  have connected : Keeps p r.1 := addressed.trans (tryConnectInternalList system h _ s)
  exact connected.trans
    (setField h (f := ({ · with backend := r.2 })) (fun _ => rfl) (fun _ => rfl) (fun _ => rfl))

end Keeps

/-- What a call takes away: names with their entries, and clients. Only the
exempt object may lose its name and keep its clients. -/
structure Sheds (exempt : Option HttpId) (p p' : Pool) : Prop where
  names : (names p).Loses shadow (names p')
  newHttp : p'.newHttp = p.newHttp
  clients : ∀ x, (p'.http x).clientsList ⊆ (p.http x).clientsList
  quiet : ∀ x, exempt ≠ some x → (p.http x).cachePath ≠ [] → (p'.http x).cachePath = [] →
    (p'.http x).clientsList = []
  toDelete : ∀ x ∈ p'.toDelete, x ∈ p.toDelete ∨ (p'.http x).cachePath = []

namespace Sheds

variable {exempt : Option HttpId} {p p' p'' : Pool} {h : HttpId}

theorem stays_nameless (sheds : Sheds exempt p p') (nameless : (p.http h).cachePath = []) :
    (p'.http h).cachePath = [] := by
  rw [← name_eq_none_iff] at nameless ⊢
  exact sheds.names.stays_nameless nameless

theorem stays_alone (sheds : Sheds exempt p p') (alone : (p.http h).clientsList = []) :
    (p'.http h).clientsList = [] := by
  have fewer := sheds.clients h
  rw [alone] at fewer
  exact List.subset_nil.mp fewer

theorem trans (first : Sheds exempt p p') (second : Sheds exempt p' p'') : Sheds exempt p p'' where
  names := first.names.trans second.names
  newHttp := second.newHttp.trans first.newHttp
  clients x := List.Subset.trans (second.clients x) (first.clients x)
  quiet x ordinary named nameless := by
    by_cases between : (p'.http x).cachePath = []
    · exact second.stays_alone (first.quiet x ordinary named between)
    · exact second.quiet x ordinary between nameless
  toDelete x member := by
    rcases second.toDelete x member with before | nameless
    · exact (first.toDelete x before).imp_right second.stays_nameless
    · exact .inr nameless

theorem weaken (sheds : Sheds none p p') : Sheds exempt p p' :=
  ⟨sheds.names, sheds.newHttp, sheds.clients,
    fun x _ => sheds.quiet x (Option.some_ne_none x).symm, sheds.toDelete⟩

end Sheds

theorem Keeps.sheds {exempt : Option HttpId} {p p' : Pool} (keeps : Keeps p p') :
    Sheds exempt p p' := by
  refine ⟨keeps.names ▸ .refl _, keeps.newHttp, ?_, ?_, ?_⟩
  · intro x
    rw [keeps.clientsList]
    exact fun _ member => member
  · intro x _ named nameless
    rw [keeps.cachePath] at nameless
    exact absurd nameless named
  · intro x member
    rw [keeps.toDelete] at member
    exact .inl member

theorem Sheds.refl {exempt : Option HttpId} (p : Pool) : Sheds exempt p p := (Keeps.refl p).sheds

section Clients

variable {p : Pool} {h : HttpId} (left : List ClientId → List ClientId)

theorem setClients_cachePath (x : HttpId) :
    ((setHttp h (fun y => { y with clientsList := left y.clientsList }) p).http x).cachePath =
      (p.http x).cachePath := by
  rw [setHttp_http]
  split
  · rename_i own
    rw [own]
  · rfl

theorem setClients_https (x : HttpId) :
    ((setHttp h (fun y => { y with clientsList := left y.clientsList }) p).http x).https =
      (p.http x).https := by
  rw [setHttp_http]
  split
  · rename_i own
    rw [own]
  · rfl

theorem setClients_names :
    names (setHttp h (fun y => { y with clientsList := left y.clientsList }) p) = names p :=
  names_congr (setClients_https left) (setClients_cachePath left) rfl

theorem Sheds.setClients {exempt : Option HttpId} (h : HttpId) (fewer : ∀ all, left all ⊆ all) :
    Sheds exempt p (setHttp h (fun y => { y with clientsList := left y.clientsList }) p) := by
  refine ⟨setClients_names left ▸ .refl _, rfl, ?_, ?_, fun x member => .inl member⟩
  · intro x
    rw [setHttp_http]
    split
    · rename_i own
      rw [own]
      exact fewer _
    · exact fun _ member => member
  · intro x _ named nameless
    rw [setClients_cachePath] at nameless
    exact absurd nameless named

end Clients

section Names

variable {exempt : Option HttpId} {p q : Pool} {h : HttpId}

theorem names_unregister {f : Http → Http} (https : (f (p.http h)).https = (p.http h).https)
    (emptied : (f (p.http h)).cachePath = []) :
    names (setHttp h f (unregister h p)) = (names p).drop shadow h := by
  have objects : (unregister h p).http = p.http := by
    unfold unregister
    split <;> rfl
  have others (x : HttpId) (other : x ≠ h) :
      (setHttp h f (unregister h p)).http x = p.http x := by
    rw [setHttp_http, if_neg other, objects]
  have own : (names (setHttp h f (unregister h p))).name h = none := by
    rw [name_eq_none_iff, setHttp_http, if_pos rfl, objects]
    exact emptied
  by_cases nameless : (p.http h).cachePath = []
  · rw [Registry.drop_none ((name_eq_none_iff p h).mpr nameless)]
    refine names_congr ?_ ?_ ?_
    · intro x
      by_cases same : x = h
      · rw [same, setHttp_http, if_pos rfl, objects, https]
      · rw [others x same]
    · intro x
      by_cases same : x = h
      · rw [same, setHttp_http, if_pos rfl, objects, emptied, nameless]
      · rw [others x same]
    · change (unregister h p).pathTo = p.pathTo
      rw [unregister, if_pos (by simp [nameless])]
  · have named : (names p).name h = some ((p.http h).https, (p.http h).cachePath) :=
      (name_eq_some_iff p h _ _).mpr ⟨nameless, rfl, rfl⟩
    have erased : (unregister h p).pathTo = Function.update (p.pathTo) (p.http h).https
        (Function.update (Function.update (p.pathTo (p.http h).https) (p.http h).cachePath none)
          ((p.http h).cachePath ++ tmp) none) := by
      rw [unregister, if_neg (by simp [nameless])]
      simp [setPath]
    have name : (names (setHttp h f (unregister h p))).name =
        ((names p).drop shadow h).name := by
      rw [Registry.drop_name named]
      funext x
      by_cases same : x = h
      · rw [same, own, Function.update_self]
      · rw [Function.update_of_ne same]
        simp only [names, others x same]
    have table : (names (setHttp h f (unregister h p))).table =
        ((names p).drop shadow h).table := by
      rw [Registry.drop_table named]
      funext ⟨https, path⟩
      change (unregister h p).pathTo https path = _
      rw [erased]
      by_cases scheme : https = (p.http h).https
      · subst scheme
        simp only [Function.update_self, Function.update_apply, shadow, Prod.mk.injEq, true_and]
        rfl
      · rw [Function.update_of_ne scheme, Function.update_of_ne, Function.update_of_ne]
        · rfl
        · exact fun same => scheme (congrArg Prod.fst same)
        · exact fun same => scheme (congrArg Prod.fst same)
    exact congrArg₂ Registry.mk name table

theorem Sheds.unname {f : Http → Http} (http : q.http = p.http) (pathTo : q.pathTo = p.pathTo)
    (newHttp : q.newHttp = p.newHttp) (toDelete : ∀ x ∈ q.toDelete, x ∈ p.toDelete ∨ x = h)
    (https : (f (p.http h)).https = (p.http h).https) (emptied : (f (p.http h)).cachePath = [])
    (clients : (f (p.http h)).clientsList ⊆ (p.http h).clientsList)
    (alone : exempt = some h ∨ (f (p.http h)).clientsList = []) :
    Sheds exempt p (Pool.setHttp h f (unregister h q)) := by
  have objects : (unregister h q).http = p.http := by
    rw [← http]
    unfold unregister
    split <;> rfl
  have own : (Pool.setHttp h f (unregister h q)).http h = f (p.http h) := by
    rw [setHttp_http, if_pos rfl, objects]
  have others (x : HttpId) (other : x ≠ h) :
      (Pool.setHttp h f (unregister h q)).http x = p.http x := by
    rw [setHttp_http, if_neg other, objects]
  refine ⟨?_, ?_, ?_, ?_, ?_⟩
  · rw [names_unregister (by rw [http]; exact https) (by rw [http]; exact emptied),
      names_congr (fun x => by rw [http]) (fun x => by rw [http]) pathTo]
    exact Registry.loses_drop _ _
  · change (unregister h q).newHttp = _
    rw [← newHttp]
    unfold unregister
    split <;> rfl
  · intro x
    by_cases same : x = h
    · rw [same, own]
      exact clients
    · rw [others x same]
      exact fun _ member => member
  · intro x ordinary named nameless
    by_cases same : x = h
    · subst same
      rw [own]
      exact alone.resolve_left ordinary
    · rw [others x same] at nameless
      exact absurd nameless named
  · intro x member
    have member' : x ∈ q.toDelete := by
      change x ∈ (unregister h q).toDelete at member
      unfold unregister at member
      split at member <;> exact member
    rcases toDelete x member' with before | rfl
    · exact .inl before
    · rw [own]
      exact .inr emptied

theorem Sheds.disconnectFrontend (h : HttpId) : Sheds exempt p (Pool.disconnectFrontend h p) :=
  .setClients (fun _ => []) h List.nil_subset

theorem Sheds.backendError (h : HttpId) : Sheds exempt p (Pool.backendError h p) := by
  have dismissed : Sheds exempt p (Pool.disconnectFrontend h p) := .disconnectFrontend h
  refine dismissed.trans (.unname rfl rfl rfl (fun x member => .inl member) rfl rfl (fun _ => id) (.inr ?_))
  rw [Pool.disconnectFrontend, setHttp_http, if_pos rfl]

theorem Sheds.retire (fromDestructor : Bool) (alone : exempt = some h ∨ (p.http h).clientsList = []) :
    Sheds exempt p (Pool.retire fromDestructor h p) := by
  have first : Sheds exempt p (Pool.setHttp h ({ · with backend := none, backendList := none }) p) :=
    (Keeps.setField h (f := ({ · with backend := none, backendList := none }))
      (fun _ => rfl) (fun _ => rfl) (fun _ => rfl)).sheds
  refine first.trans ?_
  have left : exempt = some h ∨
      ((Pool.setHttp h ({ · with backend := none, backendList := none }) p).http h).clientsList = [] := by
    refine alone.imp_right ?_
    intro alone
    rw [setHttp_http, if_pos rfl]
    exact alone
  unfold Pool.retire
  simp only
  split
  · refine .unname rfl rfl rfl ?_ rfl rfl (fun _ => id) left
    intro x member
    exact (List.mem_insert_iff.mp member).symm
  · exact .unname rfl rfl rfl (fun x member => .inl member) rfl rfl (fun _ => id) left

theorem retire_nameless (fromDestructor : Bool) :
    ((Pool.retire fromDestructor h p).http h).cachePath = [] := by
  unfold Pool.retire
  simp only [setHttp_http, if_pos]

end Names

section Calls

variable {system : System} {disconnect : HttpId → Pool → Option Pool}
variable {exempt : Option HttpId} {p p' : Pool} {b : BackendId} {h : HttpId} {l : ListId}

/-- What a nested `disconnectBackend` is asked for: it ends an object that has no
clients left. -/
def Ends (disconnect : HttpId → Pool → Option Pool) : Prop :=
  ∀ {h p p'}, (p.http h).clientsList = [] → disconnect h p = some p' → Sheds none p p'

theorem backendError_alone (h : HttpId) (p : Pool) :
    ((Pool.disconnectFrontend h p).http h).clientsList = [] := by
  rw [Pool.disconnectFrontend, setHttp_http, if_pos rfl]

theorem Ends.dismissed (ends : Ends disconnect)
    (done : disconnect h (disconnectFrontend h (backendError h p)) = some p') : Sheds none p p' := by
  have answered : Sheds none p (disconnectFrontend h (backendError h p)) :=
    (Sheds.backendError h).trans (.disconnectFrontend h)
  exact answered.trans (ends (backendError_alone h _) done)

theorem failPending_sheds (ends : Ends disconnect) (fuel : ℕ) : ∀ {index : ℕ} {p p' : Pool},
    failPending disconnect l fuel index p = some p' → Sheds none p p' := by
  induction fuel with
  | zero =>
    intro index p p' done
    cases done
  | succ fuel ih =>
    intro index p p' done
    unfold failPending at done
    split at done
    · obtain rfl := Option.some.inj done
      exact .refl p
    · obtain ⟨q, dismissed, rest⟩ := Option.bind_eq_some_iff.mp done
      exact (ends.dismissed dismissed).trans (ih rest)

theorem errorPending_sheds : Sheds none p (errorPending l p) := by
  unfold errorPending
  generalize (p.list l).pending = waiting
  induction waiting generalizing p with
  | nil => exact .refl p
  | cons h waiting ih =>
    have answered : Sheds none p (disconnectFrontend h (backendError h p)) :=
      (Sheds.backendError h).trans (.disconnectFrontend h)
    exact answered.trans ih

theorem remoteSocketClosed_sheds (ends : Ends disconnect)
    (done : remoteSocketClosed disconnect system b p = some p') : Sheds none p p' := by
  have shut : Keeps p (shut b p) := .shut b
  unfold remoteSocketClosed at done
  simp only at done
  split at done
  · obtain rfl := Option.some.inj done
    exact shut.sheds
  · rename_i l home
    have left : Keeps p (leaveBusy l b (Pool.shut b p)) := shut.trans (.setList l _)
    split at done
    · obtain ⟨q, failed, rfl⟩ := Option.map_eq_some_iff.mp done
      have failed' : Sheds none p q := by
        split at failed
        · exact left.sheds.trans (failPending_sheds ends _ failed)
        · obtain rfl := Option.some.inj failed
          exact left.sheds
      split
      · exact failed'
      · exact failed'.trans (Keeps.setField _ (f := ({ · with backend := none }))
          (fun _ => rfl) (fun _ => rfl) (fun _ => rfl)).sheds
    · split at done
      · split at done
        · obtain rfl := Option.some.inj done
          exact (left.trans .reassign).sheds
        · obtain rfl := Option.some.inj done
          exact ((left.trans (.dropEmptyList l)).trans (.setBackend b _)).sheds
      · obtain rfl := Option.some.inj done
        exact (shut.trans (.setList l _)).sheds

theorem serveNext_sheds (ends : Ends disconnect) (fuel : ℕ) : ∀ {p p' : Pool} {found : Bool},
    serveNext disconnect system b l fuel p = some (found, p') → Sheds none p p' := by
  induction fuel with
  | zero =>
    intro p p' found done
    cases done
  | succ fuel ih =>
    intro p p' found done
    unfold serveNext at done
    split at done
    · cases done
    · rename_i h rest queue
      have popped : Keeps p (setHttp h ({ · with pending := true })
          (setList l ({ · with pending := rest }) p)) :=
        (Keeps.setList l _).trans (.setField h (fun _ => rfl) (fun _ => rfl) (fun _ => rfl))
      simp only at done
      split at done
      · obtain ⟨-, rfl⟩ := Prod.mk.inj (Option.some.inj done)
        exact ((popped.trans (.link b h)).trans (.readyToWrite system h)).sheds
      · obtain ⟨q, dismissed, rest⟩ := Option.bind_eq_some_iff.mp done
        have gone := popped.sheds.trans (ends.dismissed dismissed)
        split at rest
        · obtain ⟨-, rfl⟩ := Prod.mk.inj (Option.some.inj rest)
          exact gone
        · exact gone.trans (ih rest)

theorem downloadFinished_sheds (ends : Ends disconnect)
    (done : downloadFinished disconnect system b p = some p') : Sheds none p p' := by
  have free (h : HttpId) (q : Pool) : Keeps q (setHttp h ({ · with backend := none }) q) :=
    .setField h (fun _ => rfl) (fun _ => rfl) (fun _ => rfl)
  unfold downloadFinished at done
  split at done
  · obtain rfl := Option.some.inj done
    exact (Keeps.setBackend b _).sheds
  · rename_i l home
    simp only at done
    split at done
    · have left : Keeps p (leaveBusy l b p) := .setList l _
      have failed : Sheds none p (if (!((leaveBusy l b p).list l).pending.isEmpty &&
          ((leaveBusy l b p).list l).busy.isEmpty) = true then errorPending l (leaveBusy l b p)
          else leaveBusy l b p) := by
        split
        · exact left.sheds.trans errorPending_sheds
        · exact left.sheds
      split at done
      · cases done
      · rename_i h linked
        have answered := (failed.trans (free h _).sheds).trans (.backendError h)
        have closed := (answered.trans (Keeps.setBackend b ({ · with http := none })).sheds).trans
          (Keeps.close b).sheds
        exact closed.trans (remoteSocketClosed_sheds ends done)
    · split at done
      · cases done
      · rename_i h linked
        split at done
        · obtain rfl := Option.some.inj done
          have parked := (Keeps.setList l _ : Keeps p (leaveBusy l b p)).trans (.park l b)
          exact ((parked.trans (free h _)).trans (.setBackend b _)).sheds
        · obtain ⟨⟨found, q⟩, served, rfl⟩ := Option.map_eq_some_iff.mp done
          have taken := (free h p).trans (.setBackend b ({ · with http := none }))
          have searched := taken.sheds.trans (serveNext_sheds ends _ served)
          split
          · exact searched
          · have parked := (Keeps.setList l _ : Keeps q (leaveBusy l b q)).trans (.park l b)
            exact searched.trans parked.sheds

theorem disconnectBackend_sheds (depth : ℕ) : ∀ {fromDestructor : Bool} {h : HttpId} {p p' : Pool},
    (exempt = some h ∨ (p.http h).clientsList = []) →
    disconnectBackend system depth fromDestructor h p = some p' →
    Sheds exempt p p' ∧ (p'.http h).cachePath = [] := by
  induction depth generalizing exempt with
  | zero =>
    intro fromDestructor h p p' alone done
    cases done
  | succ depth ih =>
    intro fromDestructor h p p' alone done
    have ends : Ends (disconnectBackend system depth false) := by
      intro h p p' alone done
      exact (ih (.inr alone) done).1
    obtain ⟨q, released, rfl⟩ := Option.map_eq_some_iff.mp done
    have released' : Sheds none p q := by
      split at released
      · exact downloadFinished_sheds ends released
      · obtain rfl := Option.some.inj released
        exact (Keeps.leavePending h).sheds
    refine ⟨released'.weaken.trans (.retire fromDestructor ?_), retire_nameless fromDestructor⟩
    exact alone.imp_right released'.stays_alone

theorem ends_disconnectBackend (depth : ℕ) (fromDestructor : Bool) :
    Ends (disconnectBackend system depth fromDestructor) := by
  intro h p p' alone done
  exact (disconnectBackend_sheds depth (.inr alone) done).1

end Calls

end FastCgiCdn.PathMaps
