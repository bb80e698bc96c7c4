import FastCgiCdn.CacheKeys
import FastCgiCdn.PathMaps
import FastCgiCdn.PoolWellFormed

/-! At most one download for each cache path. The paths that requests are given
never end in ".tmp", so that no download erases the entry of another one, and a
download is registered only where the map has no entry. -/

namespace FastCgiCdn.SingleFlight

open GuardedRuns DnsModel PoolModel Pool PoolInvariant PoolWellFormed NameRegistry PathMaps

section Paths

theorem lut_ne : ∀ d < 16, Common.lut d ≠ 112 := by decide

theorem mem_binarytoHexa {c : Byte} {data : Bytes} (member : c ∈ Common.binarytoHexa data) :
    c ≠ 112 := by
  obtain ⟨d, -, digit⟩ := List.mem_flatMap.mp member
  have bound := d.toNat_lt
  rcases List.mem_cons.mp digit with rfl | digit
  · exact lut_ne _ (by omega)
  · rw [List.mem_singleton.mp digit]
    exact lut_ne _ (by omega)

theorem append_hexa_ne (start path data : Bytes) (filled : data ≠ []) :
    start ++ Common.binarytoHexa data ≠ path ++ tmp := by
  have filled' : Common.binarytoHexa data ≠ [] := by
    obtain ⟨c, rest, rfl⟩ := List.exists_cons_of_ne_nil filled
    exact List.cons_ne_nil _ _
  intro same
  have last := congrArg List.getLast? same
  rw [List.getLast?_append_of_ne_nil _ filled', List.getLast?_append_of_ne_nil _ (by decide),
    List.getLast?_eq_some_getLast filled'] at last
  exact mem_binarytoHexa (List.getLast_mem filled') (Option.some.inj last)

theorem cachePath_ne_tmp (hostsubfolder : Bool) (XXH3_64bits : Bytes → UInt64)
    (r : ClientModel.Request) (path : Bytes) :
    ClientModel.cachePath hostsubfolder XXH3_64bits r ≠ path ++ tmp := by
  cases hostsubfolder with
  | true =>
    unfold ClientModel.cachePath
    rw [if_pos rfl, ← List.append_assoc]
    exact append_hexa_ne _ _ _ (List.cons_ne_nil _ _)
  | false =>
    unfold ClientModel.cachePath
    rw [if_neg Bool.false_ne_true]
    exact append_hexa_ne _ _ _ (List.cons_ne_nil _ _)

theorem cachePath_ne_nil (hostsubfolder : Bool) (XXH3_64bits : Bytes → UInt64)
    (r : ClientModel.Request) : ClientModel.cachePath hostsubfolder XXH3_64bits r ≠ [] :=
  List.append_ne_nil_of_left_ne_nil (by decide) _

end Paths

/-- The names and the maps agree, but for an object that may be missing from its
map. An object without a name has no clients, and no name hides another's shadow. -/
structure Filed (missing : Option HttpId) (p : Pool) : Prop where
  consistent : (names p).Consistent missing
  allocated : ∀ h, (p.http h).cachePath ≠ [] → h < p.newHttp
  quiet : ∀ h, (p.http h).cachePath = [] → (p.http h).clientsList = []
  plain : ∀ h path, (p.http h).cachePath ≠ path ++ tmp

namespace Filed

variable {system : System} {depth : ℕ} {missing : Option HttpId} {p p' : Pool} {h : HttpId}

theorem cachePath_kept {exempt : Option HttpId} (sheds : Sheds exempt p p')
    (named : (p'.http h).cachePath ≠ []) : (p'.http h).cachePath = (p.http h).cachePath := by
  have after := (name_eq_some_iff p' h _ _).mpr ⟨named, rfl, rfl⟩
  exact ((name_eq_some_iff p h _ _).mp (sheds.names.named_before after)).2.2.symm

theorem sheds (filed : Filed missing p) (sheds : Sheds none p p') :
    Filed missing p' where
  consistent := by
    refine sheds.names.consistent ?_ filed.consistent
    rintro h ⟨https, path⟩ k' named same
    obtain ⟨-, -, path⟩ := (name_eq_some_iff p h _ _).mp named
    exact filed.plain h k'.2 (path.trans (congrArg Prod.snd same))
  allocated h named := by
    rw [sheds.newHttp]
    exact filed.allocated h (cachePath_kept sheds named ▸ named)
  quiet h nameless := by
    by_cases before : (p.http h).cachePath = []
    · exact sheds.stays_alone (filed.quiet h before)
    · exact sheds.quiet h (Option.some_ne_none h).symm before nameless
  plain h path same := by
    have named : (p'.http h).cachePath ≠ [] := by
      rw [same]
      exact List.append_ne_nil_of_right_ne_nil _ (by decide)
    rw [cachePath_kept sheds named] at same
    exact filed.plain h path same

theorem found (filed : Filed (some h) p) (nameless : (p.http h).cachePath = []) :
    Filed none p := by
  refine ⟨filed.consistent.whole ?_, filed.allocated, filed.quiet, filed.plain⟩
  intro x absent
  obtain rfl := Option.some.inj absent
  exact (name_eq_none_iff p h).mpr nameless

theorem addClient (filed : Filed missing p) (named : (p.http h).cachePath ≠ [])
    (client : ClientId) : Filed missing (Pool.addClient h client p) := by
  unfold Pool.addClient
  split
  · exact filed
  · have cachePath := setClients_cachePath (p := p) (h := h) (fun left => left ++ [client])
    refine ⟨?_, ?_, ?_, ?_⟩
    · rw [setClients_names (p := p) (h := h) (fun left => left ++ [client])]
      exact filed.consistent
    · intro x named
      rw [cachePath] at named
      exact filed.allocated x named
    · intro x nameless
      rw [cachePath] at nameless
      have other : x ≠ h := by
        rintro rfl
        exact named nameless
      rw [setHttp_http, if_neg other]
      exact filed.quiet x nameless
    · intro x path
      rw [cachePath]
      exact filed.plain x path

theorem unlist (filed : Filed none p) {https : Bool} {path : Bytes}
    (listed : p.pathTo https path = some h) :
    Filed (some h) (setPath https path none p) := by
  refine ⟨?_, filed.allocated, filed.quiet, filed.plain⟩
  have erased : names (setPath https path none p) = (names p).unlist (https, path) := by
    refine congrArg (Registry.mk (names p).name) ?_
    funext ⟨https', path'⟩
    change Function.update p.pathTo https (Function.update (p.pathTo https) path none) https' path' =
      Function.update (names p).table (https, path) none (https', path')
    by_cases scheme : https' = https
    · subst scheme
      simp only [Function.update_self, Function.update_apply, Prod.mk.injEq, true_and]
      rfl
    · rw [Function.update_of_ne scheme, Function.update_of_ne]
      · rfl
      · exact fun same => scheme (congrArg Prod.fst same)
  rw [erased]
  exact filed.consistent.unlist listed

end Filed

section Requests

variable {system : System} {depth : ℕ} {p p' : Pool} {r : Request}

theorem joinDownload_cases {found : Bool}
    (done : joinDownload system depth r p = some (found, p')) :
    (p.pathTo r.https r.path = none ∧ found = false ∧ p' = p) ∨
    (∃ h, p.pathTo r.https r.path = some h ∧ found = true ∧ p' = addClient h r.client p) ∨
    ∃ h, p.pathTo r.https r.path = some h ∧ found = false ∧
      Sheds none (setPath r.https r.path none p) p' ∧ (p'.http h).cachePath = [] := by
  unfold joinDownload at done
  split at done
  · rename_i free
    obtain ⟨rfl, rfl⟩ := Prod.mk.inj (Option.some.inj done)
    exact .inl ⟨free, rfl, rfl⟩
  · rename_i h listed
    split at done
    · obtain ⟨rfl, rfl⟩ := Prod.mk.inj (Option.some.inj done)
      exact .inr (.inl ⟨h, listed, rfl, rfl⟩)
    · obtain ⟨q, ended, result⟩ := Option.map_eq_some_iff.mp done
      obtain ⟨rfl, rfl⟩ := Prod.mk.inj result
      have left : Sheds none (setPath r.https r.path none p)
          (disconnectFrontend h (setPath r.https r.path none p)) := .disconnectFrontend h
      obtain ⟨sheds, nameless⟩ := disconnectBackend_sheds depth
        (.inr (backendError_alone h _) : none = some h ∨ _) ended
      exact .inr (.inr ⟨h, listed, rfl, left.trans sheds, nameless⟩)

theorem joinDownload_filed (filed : Filed none p) {found : Bool}
    (done : joinDownload system depth r p = some (found, p')) :
    Filed none p' ∧ (found = false → p'.pathTo r.https r.path = none) := by
  rcases joinDownload_cases done with ⟨free, rfl, rfl⟩ | ⟨h, listed, rfl, rfl⟩ |
    ⟨h, listed, rfl, sheds, nameless⟩
  · exact ⟨filed, fun _ => free⟩
  · have named := filed.consistent.named h (r.https, r.path) listed
    obtain ⟨nonempty, -, path⟩ := (name_eq_some_iff p h _ _).mp named
    refine ⟨filed.addClient ?_ r.client, fun wrong => by cases wrong⟩
    rw [path]
    exact nonempty
  · refine ⟨((filed.unlist listed).sheds sheds).found nameless, fun _ => ?_⟩
    have free : (names (setPath r.https r.path none p)).table (r.https, r.path) = none := by
      change Function.update p.pathTo r.https _ r.https r.path = none
      rw [Function.update_self, Function.update_self]
    exact sheds.names.stays_free free

theorem setPath_pathTo (https : Bool) (path : Bytes) (h : Option HttpId) (p : Pool) (https' : Bool)
    (path' : Bytes) : (setPath https path h p).pathTo https' path' =
      if https' = https ∧ path' = path then h else p.pathTo https' path' := by
  unfold setPath
  by_cases scheme : https' = https
  · subst scheme
    simp only [Function.update_self, Function.update_apply, true_and]
  · simp only [Function.update_of_ne scheme, scheme, false_and, if_false]

theorem allocHttp_http (system : System) (https : Bool) (path : Bytes) (p : Pool) (x : HttpId) :
    (allocHttp system https path p).http x = if x = p.newHttp then
      ⟨https, path, [], system.currentTime, 0, [], [], [], false, false, none, none⟩
    else p.http x := by
  simp [allocHttp, setHttp, Function.update_apply]

theorem names_allocHttp (nonempty : r.path ≠ []) :
    names (setPath r.https r.path (some p.newHttp) (allocHttp system r.https r.path p)) =
      (names p).file p.newHttp (r.https, r.path) := by
  have name : (names (setPath r.https r.path (some p.newHttp)
      (allocHttp system r.https r.path p))).name =
      ((names p).file p.newHttp (r.https, r.path)).name := by
    funext x
    change (if ((allocHttp system r.https r.path p).http x).cachePath = [] then none else some
      (((allocHttp system r.https r.path p).http x).https,
        ((allocHttp system r.https r.path p).http x).cachePath)) = _
    rw [allocHttp_http]
    by_cases new : x = p.newHttp
    · rw [if_pos new, if_neg nonempty, new, Registry.file_name_self]
    · rw [if_neg new, Registry.file_name_of_ne new]
      rfl
  have table : (names (setPath r.https r.path (some p.newHttp)
      (allocHttp system r.https r.path p))).table =
      ((names p).file p.newHttp (r.https, r.path)).table := by
    funext ⟨https, path⟩
    change (setPath r.https r.path (some p.newHttp)
      (allocHttp system r.https r.path p)).pathTo https path = _
    rw [setPath_pathTo]
    by_cases own : https = r.https ∧ path = r.path
    · obtain ⟨rfl, rfl⟩ := own
      rw [if_pos ⟨rfl, rfl⟩, Registry.file_table_self]
    · rw [if_neg own, Registry.file_table_of_ne (by rwa [Ne, Prod.mk.injEq])]
      rfl
  exact congrArg₂ Registry.mk name table

theorem allocHttp_filed (filed : Filed none p) (free : p.pathTo r.https r.path = none)
    (nonempty : r.path ≠ []) (plain : ∀ path, r.path ≠ path ++ tmp) :
    Filed none (setPath r.https r.path (some p.newHttp) (allocHttp system r.https r.path p)) := by
  have nameless : (names p).name p.newHttp = none := by
    rw [name_eq_none_iff]
    by_contra named
    exact Nat.lt_irrefl _ (filed.allocated _ named)
  have object := allocHttp_http system r.https r.path p
  refine ⟨?_, ?_, ?_, ?_⟩
  · rw [names_allocHttp nonempty]
    exact filed.consistent.file nameless free
  · intro x named
    change ((allocHttp system r.https r.path p).http x).cachePath ≠ [] at named
    change x < p.newHttp + 1
    rw [object] at named
    split at named
    · rename_i new
      rw [new]
      exact Nat.lt_succ_self _
    · exact Nat.lt_succ_of_lt (filed.allocated x named)
  · intro x nameless
    change ((allocHttp system r.https r.path p).http x).cachePath = [] at nameless
    change ((allocHttp system r.https r.path p).http x).clientsList = []
    rw [object] at nameless ⊢
    split at nameless
    · exact absurd nameless nonempty
    · rename_i old
      rw [if_neg old]
      exact filed.quiet x nameless
  · intro x path
    change ((allocHttp system r.https r.path p).http x).cachePath ≠ path ++ tmp
    rw [object]
    split
    · exact plain path
    · exact filed.plain x path

theorem Filed.keeps {missing : Option HttpId} (filed : Filed missing p) (keeps : Keeps p p') :
    Filed missing p' :=
  filed.sheds keeps.sheds

/-- The pool that a new download is registered in. -/
def connected (system : System) (r : Request) (s : SockAddr) (p : Pool) : Pool :=
  tryConnect system s r.host r.uri r.etag p.newHttp (allocHttp system r.https r.path p)

theorem connected_keeps (system : System) (r : Request) (s : SockAddr) (p : Pool) :
    Keeps (allocHttp system r.https r.path p) (connected system r s p) :=
  .tryConnect s r.host r.uri r.etag

def started (system : System) (r : Request) (s : SockAddr) (p : Pool) : Pool :=
  addClient p.newHttp r.client (setPath r.https r.path (some p.newHttp) (connected system r s p))

theorem startDownload_eq (s : SockAddr) : startDownload system r s p =
    if ((connected system r s p).pathTo r.https r.path).isSome then none
    else some (started system r s p) := rfl

/-- The registration finds no entry, so it does not abort. -/
theorem startDownload_returns (free : p.pathTo r.https r.path = none) (s : SockAddr) :
    startDownload system r s p = some (started system r s p) := by
  have absent : (connected system r s p).pathTo r.https r.path = none := by
    rw [(connected_keeps system r s p).pathTo]
    exact free
  rw [startDownload_eq, if_neg (by simp [absent])]

theorem started_http (system : System) (r : Request) (s : SockAddr) (p : Pool) (x : HttpId) :
    ((started system r s p).http x).https = (if x = p.newHttp then r.https else (p.http x).https) ∧
    ((started system r s p).http x).cachePath =
      if x = p.newHttp then r.path else (p.http x).cachePath := by
  have kept : ((started system r s p).http x).https = ((connected system r s p).http x).https ∧
      ((started system r s p).http x).cachePath = ((connected system r s p).http x).cachePath := by
    unfold started addClient
    split
    · exact ⟨rfl, rfl⟩
    · exact ⟨setClients_https (fun left => left ++ [r.client]) x,
        setClients_cachePath (fun left => left ++ [r.client]) x⟩
  rw [kept.1, kept.2, (connected_keeps system r s p).https, (connected_keeps system r s p).cachePath,
    allocHttp_http]
  split <;> exact ⟨rfl, rfl⟩

theorem started_toDelete (system : System) (r : Request) (s : SockAddr) (p : Pool) :
    (started system r s p).toDelete = p.toDelete := by
  have kept : (started system r s p).toDelete = (connected system r s p).toDelete := by
    unfold started addClient
    split <;> rfl
  rw [kept, (connected_keeps system r s p).toDelete]
  rfl

theorem started_pathTo (system : System) (r : Request) (s : SockAddr) (p : Pool) (https : Bool)
    (path : Bytes) : (started system r s p).pathTo https path =
      if https = r.https ∧ path = r.path then some p.newHttp else p.pathTo https path := by
  have kept : (started system r s p).pathTo =
      (setPath r.https r.path (some p.newHttp) (connected system r s p)).pathTo := by
    unfold started addClient
    split <;> rfl
  rw [kept, setPath_pathTo, (connected_keeps system r s p).pathTo]
  rfl

theorem started_step (free : p.pathTo r.https r.path = none) (s : SockAddr) :
    Step (system, .dnsRight r s) p (started system r s p) := by
  refine ⟨trivial, 0, fun more => ?_⟩
  change (joinDownload system (0 + more) r p).bind _ = _
  unfold joinDownload
  rw [free]
  exact startDownload_returns free s

theorem startDownload_filed (filed : Filed none p) (free : p.pathTo r.https r.path = none)
    (nonempty : r.path ≠ []) (plain : ∀ path, r.path ≠ path ++ tmp) (s : SockAddr) :
    Filed none (started system r s p) := by
  let fresh := allocHttp system r.https r.path p
  have keeps := connected_keeps system r s p
  have registered : Keeps (setPath r.https r.path (some p.newHttp) fresh)
      (setPath r.https r.path (some p.newHttp) (connected system r s p)) := by
    refine ⟨keeps.https, keeps.cachePath, keeps.clientsList, ?_, keeps.newHttp, keeps.toDelete⟩
    simp only [setPath]
    rw [keeps.pathTo]
  refine ((allocHttp_filed filed free nonempty plain).keeps registered).addClient ?_ r.client
  rw [registered.cachePath]
  change ((allocHttp system r.https r.path p).http p.newHttp).cachePath ≠ []
  simpa [allocHttp, setHttp] using nonempty

end Requests

section Events

variable {system : System} {depth : ℕ} {p p' : Pool}

theorem emptied {h : HttpId} (sheds : Sheds (some h) p p') : Sheds none p (disconnectFrontend h p') := by
  have left : Sheds (some h) p (disconnectFrontend h p') := sheds.trans (.disconnectFrontend h)
  refine ⟨left.names, left.newHttp, left.clients, ?_, left.toDelete⟩
  intro x _ named nameless
  by_cases own : x = h
  · rw [own]
    exact backendError_alone h p'
  · exact left.quiet x (fun same => own (Option.some.inj same).symm) named nameless

theorem httpTimeout_sheds {h : HttpId} (done : httpTimeout system depth h p = some p') :
    Sheds none p p' := by
  unfold httpTimeout at done
  dsimp only at done
  generalize (if (p.http h).pending = true then 30 else 5) = secondForTimeout at done
  split at done
  · obtain rfl := Option.some.inj done
    exact (Keeps.setField h (f := ({ · with
        lastReceivedBytesTimestamps := min (p.http h).lastReceivedBytesTimestamps system.currentTime }))
      (fun _ => rfl) (fun _ => rfl) (fun _ => rfl)).sheds
  · have left : Sheds none p (disconnectFrontend h p) := .disconnectFrontend h
    split at done
    · obtain rfl := Option.some.inj done
      exact left.trans (Keeps.close _).sheds
    · exact left.trans (ends_disconnectBackend depth false (backendError_alone h p) done)

theorem backendTimeout_sheds {b : BackendId} (done : backendTimeout system depth b p = some p') :
    Sheds none p p' := by
  unfold backendTimeout at done
  split at done
  · obtain rfl := Option.some.inj done
    exact .refl p
  · simp only at done
    split at done
    · obtain rfl := Option.some.inj done
      exact (Keeps.setBackend b _).sheds
    · obtain ⟨q, dismissed, closed⟩ := Option.bind_eq_some_iff.mp done
      have gone := Ends.dismissed (ends_disconnectBackend depth false) dismissed
      exact (gone.trans (Keeps.close b).sheds).trans
        (remoteSocketClosed_sheds (ends_disconnectBackend depth false) closed)

theorem deleteBackend_keeps (b : BackendId) : Keeps p (deleteBackend b p) := by
  have closed : Keeps p (close b p) := .close b
  unfold deleteBackend
  cases linked : ((close b p).backend b).http with
  | none =>
    simp only [linked]
    split
    · exact closed
    · exact (closed.trans (.setList _ _)).trans (.setList _ _)
  | some h =>
    have free := (closed.trans (.setField h (f := ({ · with backend := none }))
      (fun _ => rfl) (fun _ => rfl) (fun _ => rfl))).trans (.setBackend b ({ · with http := none }))
    simp only [linked]
    split
    · exact free
    · exact (free.trans (.setList _ _)).trans (.setList _ _)

theorem deleteHttp_sheds {h : HttpId} (done : deleteHttp system depth h p = some p') :
    Sheds none p p' := by
  obtain ⟨q, ended, rfl⟩ := Option.map_eq_some_iff.mp done
  have left : Sheds none p (disconnectFrontend h p) := .disconnectFrontend h
  have gone := left.trans (ends_disconnectBackend depth true (backendError_alone h p) ended)
  refine ⟨gone.names, gone.newHttp, gone.clients, gone.quiet, ?_⟩
  intro x member
  exact gone.toDelete x (List.mem_of_mem_erase member)

theorem statusLine_keeps (h : HttpId) (http_code : ℕ) : Keeps p (statusLine h http_code p) := by
  have coded : Keeps p (setHttp h ({ · with http_code := http_code }) p) :=
    .setField h (fun _ => rfl) (fun _ => rfl) (fun _ => rfl)
  unfold statusLine
  simp only
  split
  · exact coded
  · exact coded.trans (.setBackend _ _)

def Asks (hostsubfolder : Bool) (XXH3_64bits : Bytes → UInt64) (r : Request) : Prop :=
  r.path = ClientModel.cachePath hostsubfolder XXH3_64bits ⟨r.https, r.host, r.uri, []⟩

def Asked (hostsubfolder : Bool) (XXH3_64bits : Bytes → UInt64) (e : System × Event) (_ : Pool) :
    Prop :=
  match e.2 with
  | .dnsRight r _ => Asks hostsubfolder XXH3_64bits r
  | .loadUrl r => Asks hostsubfolder XXH3_64bits r
  | _ => True

theorem perform_cases {e : Event} (done : perform system depth e p = some p') :
    (∃ r s found q, e = .dnsRight r s ∧ joinDownload system depth r p = some (found, q) ∧
      if found then p' = q else startDownload system r s q = some p') ∨
    (∃ r found, e = .loadUrl r ∧ joinDownload system depth r p = some (found, p')) ∨
    Sheds none p p' := by
  cases e with
  | dnsRight r s =>
    obtain ⟨⟨found, q⟩, looked, rest⟩ := Option.bind_eq_some_iff.mp done
    refine .inl ⟨r, s, found, q, rfl, looked, ?_⟩
    cases found with
    | true => exact (Option.some.inj rest).symm
    | false => exact rest
  | loadUrl r =>
    obtain ⟨⟨found, q⟩, looked, rfl⟩ := Option.map_eq_some_iff.mp done
    exact .inr (.inl ⟨r, found, rfl, looked⟩)
  | removeClient h client =>
    obtain rfl := Option.some.inj done
    exact .inr (.inr (.setClients _ h fun _ => List.filter_subset_self _))
  | statusLine h http_code =>
    obtain rfl := Option.some.inj done
    exact .inr (.inr (statusLine_keeps h http_code).sheds)
  | readyToWrite h =>
    obtain rfl := Option.some.inj done
    exact .inr (.inr (Keeps.readyToWrite system h).sheds)
  | disconnectFrontend h =>
    obtain rfl := Option.some.inj done
    exact .inr (.inr (.disconnectFrontend h))
  | flushRead h =>
    obtain ⟨q, ended, rfl⟩ := Option.map_eq_some_iff.mp done
    exact .inr (.inr (emptied (disconnectBackend_sheds depth (.inl rfl) ended).1))
  | endOfBody h =>
    have left : Sheds none p (disconnectFrontend h p) := .disconnectFrontend h
    exact .inr (.inr (left.trans (ends_disconnectBackend depth false (backendError_alone h p) done)))
  | remoteSocketClosed b =>
    exact .inr (.inr (remoteSocketClosed_sheds (ends_disconnectBackend depth false) done))
  | startHttpsFails b =>
    obtain rfl := Option.some.inj done
    exact .inr (.inr (Keeps.close b).sheds)
  | backendTimeout b => exact .inr (.inr (backendTimeout_sheds done))
  | httpTimeout h => exact .inr (.inr (httpTimeout_sheds done))
  | deleteBackend b =>
    obtain rfl := Option.some.inj done
    exact .inr (.inr (deleteBackend_keeps b).sheds)
  | deleteHttp h => exact .inr (.inr (deleteHttp_sheds done))

theorem perform_filed {hostsubfolder : Bool} {XXH3_64bits : Bytes → UInt64} (filed : Filed none p)
    {e : Event} (asked : Asked hostsubfolder XXH3_64bits (system, e) p)
    (done : perform system depth e p = some p') : Filed none p' := by
  rcases perform_cases done with ⟨r, s, found, q, rfl, looked, rest⟩ | ⟨r, found, -, looked⟩ | sheds
  · obtain ⟨filed', free⟩ := joinDownload_filed filed looked
    cases found with
    | true =>
      obtain rfl : p' = q := rest
      exact filed'
    | false =>
      have path : r.path = ClientModel.cachePath hostsubfolder XXH3_64bits ⟨r.https, r.host, r.uri, []⟩ :=
        asked
      obtain rfl := Option.some.inj ((startDownload_returns (free rfl) s).symm.trans rest)
      refine startDownload_filed filed' (free rfl) ?_ ?_ s
      · rw [path]
        exact cachePath_ne_nil _ _ _
      · rw [path]
        exact cachePath_ne_tmp _ _ _
  · exact (joinDownload_filed filed looked).1
  · exact filed.sheds sheds

theorem initial_filed (maxBackend : ℕ) : Filed none (initial maxBackend) where
  consistent := by
    refine ⟨?_, ?_, ?_⟩
    · intro h k listed
      cases listed
    · intro h k _ named
      cases named
    · intro h h' k named
      cases named
  allocated h named := absurd rfl named
  quiet _ _ := rfl
  plain h path same := by
    have longer := congrArg List.length same
    simp [initial, tmp] at longer

theorem reach_filed {hostsubfolder : Bool} {XXH3_64bits : Bytes → UInt64} {maxBackend : ℕ}
    (reached : Reach Step (Asked hostsubfolder XXH3_64bits) (· = initial maxBackend) p) :
    Filed none p := by
  refine reached.invariant (fun _ start => start ▸ initial_filed maxBackend) ?_
  intro e p p' filed asked taken
  obtain ⟨-, depth, returns⟩ := taken
  exact perform_filed filed asked (returns 0)

/-- A download that waits for its deletion has no path left, so that its destructor,
which no longer knows the map of an `Https`, erases nothing. -/
theorem deleted_has_no_path {limit : ℕ} (positive : 1 ≤ limit) {ok : System × Event → Pool → Prop}
    (reached : Reach Step ok (· = initial limit) p) :
    ∀ h ∈ p.toDelete, (p.http h).cachePath = [] := by
  induction reached with
  | start first =>
    subst first
    intro h member
    cases member
  | @next p p' e before _ taken ih =>
    have shed {q q' : Pool} (retired : ∀ h ∈ q.toDelete, (q.http h).cachePath = [])
        (sheds : Sheds none q q') : ∀ h ∈ q'.toDelete, (q'.http h).cachePath = [] := by
      intro h member
      exact (sheds.toDelete h member).elim (fun old => sheds.stays_nameless (retired h old)) id
    have looked {r : Request} {found : Bool} {q : Pool} {depth : ℕ}
        (done : joinDownload e.1 depth r p = some (found, q)) :
        ∀ h ∈ q.toDelete, (q.http h).cachePath = [] := by
      rcases joinDownload_cases done with ⟨-, -, rfl⟩ | ⟨h, -, -, rfl⟩ | ⟨h, -, -, sheds, -⟩
      · exact ih
      · unfold addClient
        split
        · exact ih
        · intro x member
          rw [setClients_cachePath (fun left => left ++ [r.client])]
          exact ih x member
      · exact shed (q := setPath r.https r.path none p) ih sheds
    obtain ⟨-, depth, returns⟩ := taken
    rcases perform_cases (returns 2) with ⟨r, s, found, q, -, joined, rest⟩ | ⟨r, found, -, joined⟩ |
      sheds
    · cases found with
      | true =>
        obtain rfl : p' = q := rest
        exact looked joined
      | false =>
        obtain ⟨found, q', joined', w⟩ := joinDownload_returns e.1 (reach_wellFormed positive before)
          depth r
        obtain ⟨-, rfl⟩ := Prod.mk.inj (Option.some.inj (joined.symm.trans joined'))
        rw [if_neg Bool.false_ne_true, startDownload_eq] at rest
        split at rest
        · cases rest
        · obtain rfl := Option.some.inj rest
          intro h member
          rw [started_toDelete] at member
          rw [(started_http ..).2, if_neg (Nat.ne_of_lt (w.scheduled h member))]
          exact looked joined h member
    · exact looked joined
    · exact shed ih sheds

end Events

/-- A download that has its name still, or a client. -/
def Live (h : Http) : Prop := h.cachePath ≠ [] ∨ h.clientsList ≠ []

theorem Filed.named {p : Pool} (filed : Filed none p) {h : HttpId} (live : Live (p.http h)) :
    (p.http h).cachePath ≠ [] :=
  live.elim id fun clients nameless => clients (filed.quiet h nameless)

/-- In every reachable state the maps lead to every download by its protocol and
its path, no live download shares its path with another one of its protocol, and
`dnsRight` registers a new download without meeting an entry. -/
theorem one_download_per_path (hostsubfolder : Bool) (XXH3_64bits : Bytes → UInt64)
    (maxBackend : ℕ) {p : Pool}
    (reached : Reach Step (Asked hostsubfolder XXH3_64bits) (· = initial maxBackend) p) :
    (∀ https path h, p.pathTo https path = some h →
      (p.http h).https = https ∧ (p.http h).cachePath = path) ∧
    (∀ h, (p.http h).cachePath ≠ [] → ∀ https path, p.pathTo https path = some h ↔
      https = (p.http h).https ∧ path = (p.http h).cachePath) ∧
    (∀ h h', Live (p.http h) → h ≠ h' → (p.http h).https = (p.http h').https →
      (p.http h).cachePath ≠ (p.http h').cachePath) ∧
    ∀ system depth r s q, joinDownload system depth r p = some (false, q) →
      startDownload system r s q ≠ none := by
  have filed := reach_filed reached
  have entry (https : Bool) (path : Bytes) (h : HttpId) (listed : p.pathTo https path = some h) :
      (p.http h).https = https ∧ (p.http h).cachePath = path :=
    ((name_eq_some_iff p h _ _).mp (filed.consistent.named h (https, path) listed)).2
  refine ⟨entry, ?_, ?_, ?_⟩
  · intro h named https path
    constructor
    · intro listed
      obtain ⟨scheme, same⟩ := entry https path h listed
      exact ⟨scheme.symm, same.symm⟩
    · rintro ⟨rfl, rfl⟩
      exact filed.consistent.listed h _ (Option.some_ne_none h).symm
        ((name_eq_some_iff p h _ _).mpr ⟨named, rfl, rfl⟩)
  · intro h h' live other scheme same
    have named := filed.named live
    have first := (name_eq_some_iff p h _ _).mpr ⟨named, rfl, rfl⟩
    have second := (name_eq_some_iff p h' _ _).mpr ⟨same ▸ named, scheme.symm, same.symm⟩
    exact other (filed.consistent.unique h h' _ first second)
  · intro system depth r s q looked
    rw [startDownload_returns ((joinDownload_filed filed looked).2 rfl)]
    exact Option.some_ne_none _

def page (uri : Bytes) (client : ClientId) : Request :=
  ⟨false, ClientModel.cachePath true CacheKeys.XXH3_len_0to16_64b ⟨false, ascii "a.com", uri, []⟩,
    ascii "a.com", uri, [], client⟩

theorem page_path_ne : (page (ascii "/y") 8).path ≠ (page (ascii "/x") 7).path := by decide

theorem two_pages_have_two_downloads : ∃ p,
    Reach Step (Asked true CacheKeys.XXH3_len_0to16_64b) (· = initial 4) p ∧
    (p.http 0).cachePath ≠ [] ∧ (p.http 0).cachePath ≠ (p.http 1).cachePath := by
  let system : System := ⟨fun _ => .started, 1000000⟩
  let first := started system (page (ascii "/x") 7) ⟨.zero, 80⟩ (initial 4)
  let second := started system (page (ascii "/y") 8) ⟨.zero, 80⟩ first
  have free : first.pathTo false (page (ascii "/y") 8).path = none := by
    rw [started_pathTo, if_neg fun same => page_path_ne same.2]
    rfl
  have reached : Reach Step (Asked true CacheKeys.XXH3_len_0to16_64b) (· = initial 4) second :=
    .next (e := (system, .dnsRight (page (ascii "/y") 8) ⟨.zero, 80⟩))
      (.next (e := (system, .dnsRight (page (ascii "/x") 7) ⟨.zero, 80⟩)) (.start rfl) rfl
        (started_step rfl _)) rfl (started_step free _)
  have named : (second.http 0).cachePath ≠ [] := by
    rw [(started_http ..).2, if_neg (by decide), (started_http ..).2, if_pos (by decide)]
    exact cachePath_ne_nil _ _ _
  have scheme : (second.http 0).https = (second.http 1).https := by
    rw [(started_http ..).1, (started_http ..).1, (started_http ..).1]
    decide
  exact ⟨second, reached, named,
    (one_download_per_path true CacheKeys.XXH3_len_0to16_64b 4 reached).2.2.1 0 1 (.inl named)
      Nat.zero_ne_one scheme⟩

end FastCgiCdn.SingleFlight
