import FastCgiCdn.PoolMoves
import FastCgiCdn.TimeoutPass

/-! The limit on the connections of one origin. A connection that has carried a
request or an answer is found in `busy` or `idle` of its list for as long as its
socket is open, a list in use is registered under the address it connects to, and so
`--maxBackend` bounds the open connections of every origin. -/

namespace FastCgiCdn.ConnectionLimit

open GuardedRuns DnsModel PoolModel Pool PoolInvariant PoolWellFormed PoolOutcomes PoolMoves

/-- The backend is in one of the two lists of its own `BackendList`. -/
def Listed (b : BackendId) (p : Pool) : Prop := ∃ l, b ∈ (p.list l).busy ++ (p.list l).idle

/-- Every open connection that was answered is listed, and every list in use is
registered under its own address. -/
structure Accounted (p : Pool) : Prop where
  answered : ∀ b, (p.backend b).isValid = true → (p.backend b).wasTCPConnected = true → Listed b p
  registered : ∀ l, (p.list l).busy ++ (p.list l).idle ≠ [] →
    ∃ https addr, p.addressTo https addr = some l
  address : ∀ https addr l, p.addressTo https addr = some l →
    l < p.newList ∧ (p.list l).s.sin6_addr = addr

variable {limit n : ℕ} {engaged : BackendId → Prop} {system : System} {p p' q : Pool} {b c : BackendId} {h : HttpId} {l : ListId}

namespace Accounted

theorem of_same (a : Accounted p) (backend : p'.backend = p.backend) (list : p'.list = p.list)
    (addressTo : p'.addressTo = p.addressTo) (newList : p'.newList = p.newList) :
    Accounted p' where
  answered b valid connected := by
    rw [backend] at valid connected
    obtain ⟨l, member⟩ := a.answered b valid connected
    exact ⟨l, by rw [list]; exact member⟩
  registered l := by
    rw [list, addressTo]
    exact a.registered l
  address https addr l := by
    rw [addressTo, newList, list]
    exact a.address https addr l

theorem setHttp (a : Accounted p) (f : Http → Http) : Accounted (setHttp h f p) :=
  a.of_same rfl rfl rfl rfl

theorem setBackend (a : Accounted p) {f : Backend → Backend}
    (listed : (f (p.backend b)).isValid = true → (f (p.backend b)).wasTCPConnected = true →
      Listed b p) : Accounted (setBackend b f p) where
  answered c valid connected := by
    by_cases own : c = b
    · subst own
      simp only [setBackend_backend, if_true] at valid connected
      exact listed valid connected
    · simp only [setBackend_backend, if_neg own] at valid connected
      exact a.answered c valid connected
  registered := a.registered
  address := a.address

theorem setList (a : Accounted p) {f : BackendList → BackendList}
    (kept : ∀ b ∈ (p.list l).busy ++ (p.list l).idle, (p.backend b).isValid = true →
      (p.backend b).wasTCPConnected = true → b ∈ (f (p.list l)).busy ++ (f (p.list l)).idle)
    (used : (f (p.list l)).busy ++ (f (p.list l)).idle ≠ [] →
      (p.list l).busy ++ (p.list l).idle ≠ [])
    (s : (f (p.list l)).s = (p.list l).s) : Accounted (Pool.setList l f p) where
  answered b valid connected := by
    obtain ⟨l', member⟩ := a.answered b valid connected
    refine ⟨l', ?_⟩
    by_cases own : l' = l
    · subst own
      simpa using kept b member valid connected
    · simpa [own] using member
  registered l' some_left := by
    by_cases own : l' = l
    · subst own
      exact a.registered l' (used (by simpa using some_left))
    · exact a.registered l' (by simpa [own] using some_left)
  address https addr l' found := by
    obtain ⟨old, address⟩ := a.address https addr l' found
    refine ⟨old, ?_⟩
    by_cases own : l' = l
    · subst own
      simpa [s] using address
    · simpa [own] using address

theorem setQueue (a : Accounted p) (f : List HttpId → List HttpId) :
    Accounted (Pool.setList l (fun x => { x with pending := f x.pending }) p) :=
  a.setList (fun _ member _ _ => member) id rfl

theorem leaveBusy (a : Accounted p)
    (spent : (p.backend b).isValid = false ∨ (p.backend b).wasTCPConnected = false) :
    Accounted (leaveBusy l b p) := by
  refine a.setList (fun c member valid connected => ?_) (fun some_left => ?_) rfl
  · have other : c ≠ b := by
      rintro rfl
      simp [valid, connected] at spent
    rw [List.mem_append] at member ⊢
    exact member.imp_left (List.mem_erase_of_ne other).mpr
  · contrapose! some_left
    rw [List.append_eq_nil_iff] at some_left ⊢
    simp [some_left]

theorem leaveIdle (a : Accounted p) (closed : (p.backend b).isValid = false) :
    Accounted (leaveIdle l b p) := by
  refine a.setList (fun c member valid _ => ?_) (fun some_left => ?_) rfl
  · have other : c ≠ b := by
      rintro rfl
      simp [valid] at closed
    rw [List.mem_append] at member ⊢
    exact member.imp_right (List.mem_erase_of_ne other).mpr
  · contrapose! some_left
    rw [List.append_eq_nil_iff] at some_left ⊢
    simp [some_left]

theorem rest (a : Accounted p) (busy : (p.backend b).isValid = true → b ∈ (p.list l).busy) :
    Accounted (park l b (Pool.leaveBusy l b p)) := by
  unfold park
  split
  · rename_i valid
    rw [leaveBusy_backend] at valid
    have both : Pool.setList l (fun x => { x with idle := x.idle ++ [b] }) (Pool.leaveBusy l b p) =
        Pool.setList l (fun x => { x with busy := x.busy.erase b, idle := x.idle ++ [b] }) p := by
      simp [Pool.leaveBusy, Pool.setList]
    rw [both]
    refine a.setList (fun c member _ _ => ?_) (fun _ => ?_) rfl
    · by_cases own : c = b
      · simp [own]
      · simp only [List.mem_append, List.mem_erase_of_ne own] at member ⊢
        exact member.imp_right .inl
    · exact List.append_ne_nil_of_left_ne_nil (List.ne_nil_of_mem (busy valid)) _
  · rename_i closed
    rw [leaveBusy_backend] at closed
    exact a.leaveBusy (.inl (Bool.eq_false_iff.mpr closed))

theorem allocBackend (a : Accounted p) : Accounted (allocBackend system l p) := by
  have set : Accounted (Pool.setBackend p.newBackend (fun _ => ⟨none,
      system.connect p.newBackend ≠ .closed, false, system.currentTime, some l⟩) p) :=
    a.setBackend fun _ wrong => by cases wrong
  exact set.of_same rfl rfl rfl rfl

theorem link (a : Accounted p) (h : HttpId) : Accounted (link b h p) :=
  (a.setBackend (a.answered b)).setHttp _

theorem readyToWrite (a : Accounted p) (system : System) (h : HttpId) :
    Accounted (readyToWrite system h p) :=
  a.of_same readyToWrite_keeps.1 (SameLinks.readyToWrite system h).list readyToWrite_keeps.2.1
    (SameLinks.readyToWrite system h).newList

theorem takeIdle (a : Accounted p) (last : (p.list l).idle.getLast? = some c) :
    Accounted (Pool.setList l (fun x => { x with
      idle := x.idle.dropLast, busy := x.busy ++ [c] }) p) := by
  obtain ⟨front, whole⟩ := List.getLast?_eq_some_iff.mp last
  refine a.setList (fun b member _ _ => ?_) (fun _ => ?_) rfl
  · simp only [whole, List.dropLast_concat, List.mem_append, List.mem_singleton] at member ⊢
    tauto
  · rw [whole]
    simp

theorem enterBusy (a : Accounted p) (known : ∃ https addr, p.addressTo https addr = some l) :
    Accounted (enterBusy l b p) where
  answered c valid connected := by
    obtain ⟨l', member⟩ := a.answered c valid connected
    refine ⟨l', ?_⟩
    by_cases own : l' = l
    · subst own
      simp only [Pool.enterBusy, setList_list, if_true, List.mem_append] at member ⊢
      tauto
    · simpa [Pool.enterBusy, own] using member
  registered l' some_left := by
    by_cases own : l' = l
    · exact own ▸ known
    · exact a.registered l' (by simpa [Pool.enterBusy, own] using some_left)
  address https addr l' found := by
    obtain ⟨old, address⟩ := a.address https addr l' found
    refine ⟨old, ?_⟩
    by_cases own : l' = l
    · subst own
      simpa [Pool.enterBusy] using address
    · simpa [Pool.enterBusy, own] using address

theorem replace (a : Accounted p) (busy : b ∈ (p.list l).busy)
    (closed : (p.backend b).isValid = false) (apart : b ∉ (p.list l).idle)
    (old : b < p.newBackend) : Accounted (reassign system l b h (Pool.leaveBusy l b p)) := by
  have known := a.registered l (List.append_ne_nil_of_left_ne_nil (List.ne_nil_of_mem busy) _)
  have unsent : Accounted (Pool.setHttp h ({ · with requestSended := false })
      (Pool.leaveBusy l b p)) := (a.leaveBusy (.inl closed)).setHttp _
  have left (q : Pool) (aq : Accounted q) (closed : (q.backend b).isValid = false) :
      Accounted (Pool.setBackend b ({ · with http := none }) q) :=
    aq.setBackend fun valid _ => by
      rw [closed] at valid
      cases valid
  unfold reassign
  dsimp only
  split
  · rename_i c last
    refine left _ (((unsent.takeIdle last).link h).readyToWrite system h) ?_
    have other : b ≠ c := by
      rintro rfl
      rw [setHttp_list, leaveBusy_idle] at last
      exact apart (List.mem_of_getLast? last)
    rw [readyToWrite_keeps.1]
    simpa [other] using closed
  · split
    · refine left _ ((unsent.allocBackend.link h).enterBusy known) ?_
      have other : b ≠ p.newBackend := Nat.ne_of_lt old
      change ((Pool.link p.newBackend h _).backend b).isValid = false
      rw [link_backend, if_neg other, allocBackend_backend]
      refine (congrArg Backend.isValid (if_neg ?_)).trans closed
      exact other
    · exact unsent.allocBackend

theorem openList (a : Accounted p) (s : SockAddr) :
    Accounted { Pool.setList p.newList (fun _ => ⟨[], [], [], s⟩) p with
      newList := p.newList + 1 } := by
  have other {l : ListId} (some_left : (p.list l).busy ++ (p.list l).idle ≠ []) :
      l ≠ p.newList := by
    obtain ⟨https, addr, found⟩ := a.registered l some_left
    exact Nat.ne_of_lt (a.address https addr l found).1
  constructor
  · intro b valid connected
    obtain ⟨l, member⟩ := a.answered b valid connected
    refine ⟨l, ?_⟩
    simpa [other (List.ne_nil_of_mem member)] using member
  · intro l some_left
    by_cases own : l = p.newList
    · simp [own] at some_left
    · exact a.registered l (by simpa [own] using some_left)
  · intro https addr l found
    obtain ⟨old, address⟩ := a.address https addr l found
    refine ⟨Nat.lt_succ_of_lt old, ?_⟩
    simpa [Nat.ne_of_lt old] using address

theorem setAddress (a : Accounted p) {https : Bool} {addr : In6Addr}
    (unknown : p.addressTo https addr = none) (old : l < p.newList)
    (address : (p.list l).s.sin6_addr = addr) :
    Accounted (setAddress https addr (some l) p) where
  answered := a.answered
  registered l' some_left := by
    obtain ⟨https', addr', found⟩ := a.registered l' some_left
    refine ⟨https', addr', ?_⟩
    rw [EmptyLists.setAddress_addressTo, if_neg]
    · exact found
    · rintro ⟨rfl, rfl⟩
      rw [unknown] at found
      cases found
  address https' addr' l' found := by
    rw [EmptyLists.setAddress_addressTo] at found
    split at found
    · rename_i own
      rw [← Option.some_inj.mp found, own.2]
      exact ⟨old, address⟩
    · exact a.address https' addr' l' found

theorem connect (a : Accounted p) (https : Bool) (s : SockAddr) (h : HttpId) :
    Accounted (tryConnectInternalList system https s h p).1 := by
  unfold tryConnectInternalList
  split
  · rename_i l found
    have homed : Accounted (Pool.setHttp h ({ · with backendList := some l }) p) := a.setHttp _
    dsimp only
    split
    · rename_i c last
      exact ((homed.takeIdle last).link h).readyToWrite system h
    · split
      · split
        · exact (homed.allocBackend.link h).enterBusy ⟨https, s.sin6_addr, found⟩
        · exact homed.allocBackend
      · exact (homed.setHttp _).setQueue (fun queue => queue ++ [h])
  · rename_i unknown
    have opened := (a.openList s).setHttp (h := h) ({ · with backendList := some p.newList })
    dsimp only
    split
    · have linked : Accounted (Pool.link p.newBackend h (Pool.allocBackend system p.newList _)) :=
        opened.allocBackend.link h
      refine Accounted.enterBusy (p := Pool.setAddress https s.sin6_addr (some p.newList) _)
        (linked.setAddress unknown (Nat.lt_succ_self _) ?_) ⟨https, s.sin6_addr, ?_⟩
      · simp
      · simp [Pool.setAddress]
    · exact opened.allocBackend

theorem initial (maxBackend : ℕ) : Accounted (Pool.initial maxBackend) where
  answered b valid := by cases valid
  registered l some_left := absurd rfl some_left
  address https addr l found := by cases found

end Accounted

theorem move_accounted (move : Move system n engaged p p') (a : Accounted p) : Accounted p' := by
  cases move with
  | http h f less => exact a.setHttp f
  | backend b f weaker =>
    refine a.setBackend fun valid connected => a.answered b (weaker.isValid valid) ?_
    rw [← weaker.wasTCPConnected]
    exact connected
  | path https path => exact a.of_same rfl rfl rfl rfl
  | join h client alive => exact a.setHttp _
  | answered b busy =>
    refine a.setBackend fun valid _ => ?_
    obtain ⟨l, member⟩ := busy valid
    exact ⟨l, List.mem_append_left _ member⟩
  | leaveBusy l b spent => exact a.leaveBusy spent
  | leaveIdle l b closed => exact a.leaveIdle closed
  | rest l b busy => exact a.rest busy
  | replace busy closed own apart old => exact a.replace busy closed apart old
  | dequeue l h => exact a.setQueue (·.erase h)
  | @serve l b h rest queue carrier =>
    exact (((a.setQueue fun _ => rest).setHttp _).link h).readyToWrite system h
  | schedule h f alive less dead =>
    have kept : Accounted (setHttp h f p) := a.setHttp f
    exact kept.of_same rfl rfl rfl rfl
  | bury h => exact a.of_same rfl rfl rfl rfl
  | alloc https path old _ => exact a.of_same rfl rfl rfl rfl
  | young h f young _ _ => exact a.setHttp f
  | connect https s h young _ => exact a.connect https s h
  | enlist https path h young free => exact a.of_same rfl rfl rfl rfl

theorem reach_accounted {maxBackend : ℕ} (positive : 1 ≤ maxBackend)
    {ok : System × Event → Pool → Prop} (reached : Reach Step ok (· = initial maxBackend) p) :
    Accounted p := by
  induction reached with
  | start first => exact first ▸ .initial maxBackend
  | next before _ taken ih =>
    exact (step_chain (reach_wellFormed positive before) taken).keeps
      (fun _ _ => move_accounted) ih

/-- The backend carries a request, or has been answered. -/
def Used (b : BackendId) (p : Pool) : Prop :=
  (p.backend b).http ≠ none ∨ (p.backend b).wasTCPConnected = true

def Serves (https : Bool) (addr : In6Addr) (b : BackendId) (p : Pool) : Prop :=
  ∃ l, (p.backend b).backendList = some l ∧ p.addressTo https addr = some l

theorem open_listed (w : WellFormed limit none p) (a : Accounted p)
    (valid : (p.backend b).isValid = true) (used : Used b p) : Listed b p := by
  obtain linked | connected := used
  · obtain ⟨h, linked⟩ := Option.ne_none_iff_exists'.mp linked
    obtain ⟨l, busy⟩ := w.carried b h linked valid (Option.some_ne_none _).symm
    exact ⟨l, List.mem_append_left _ busy⟩
  · exact a.answered b valid connected

/-- No `connect` is refused at once with its socket left open. -/
def Unrefused (e : System × Event) (_ : Pool) : Prop := ∀ b, e.1.connect b ≠ .refused

def Employed (p : Pool) : Prop := ∀ b, (p.backend b).isValid = true → Used b p

namespace Employed

theorem of_same (e : Employed p) (backend : p'.backend = p.backend) : Employed p' := by
  unfold Employed Used
  rw [backend]
  exact e

theorem setBackend (e : Employed p) {f : Backend → Backend}
    (used : (f (p.backend b)).isValid = true →
      (f (p.backend b)).http ≠ none ∨ (f (p.backend b)).wasTCPConnected = true) :
    Employed (setBackend b f p) := by
  intro c valid
  unfold Used
  by_cases own : c = b
  · subst own
    simp only [setBackend_backend, if_true] at valid ⊢
    exact used valid
  · simp only [setBackend_backend, if_neg own] at valid ⊢
    exact e c valid

theorem link (e : Employed p) (h : HttpId) : Employed (link b h p) :=
  (e.setBackend (f := ({ · with http := some h }))
    fun _ => .inl (Option.some_ne_none h)).of_same rfl

theorem readyToWrite (e : Employed p) (system : System) (h : HttpId) :
    Employed (readyToWrite system h p) :=
  e.of_same readyToWrite_keeps.1

theorem allocLinked (e : Employed p) (system : System) (l : ListId) (h : HttpId) :
    Employed (Pool.link p.newBackend h (Pool.allocBackend system l p)) := by
  intro c valid
  unfold Used
  by_cases new : c = p.newBackend
  · rw [link_backend, if_pos new]
    exact .inl (Option.some_ne_none h)
  · simp only [link_backend, allocBackend_backend, if_neg new] at valid ⊢
    exact e c valid

theorem allocClosed (e : Employed p) (l : ListId)
    (unrefused : ∀ b, system.connect b ≠ .refused)
    (failed : system.connect p.newBackend ≠ .started) :
    Employed (Pool.allocBackend system l p) := by
  have closed : system.connect p.newBackend = .closed := by
    cases result : system.connect p.newBackend with
    | started => exact absurd result failed
    | closed => rfl
    | refused => exact absurd result (unrefused _)
  refine Employed.of_same (p := Pool.setBackend p.newBackend _ p) (e.setBackend (f := fun _ =>
    ⟨none, system.connect p.newBackend ≠ .closed, false, system.currentTime, some l⟩) ?_) rfl
  simp [closed]

theorem replace (e : Employed p) (unrefused : ∀ b, system.connect b ≠ .refused)
    (closed : (p.backend b).isValid = false) (apart : b ∉ (p.list l).idle)
    (old : b < p.newBackend) : Employed (reassign system l b h p) := by
  have unsent : Employed (setHttp h ({ · with requestSended := false }) p) := e.of_same rfl
  have left (q : Pool) (eq : Employed q) (closed : (q.backend b).isValid = false) :
      Employed (Pool.setBackend b ({ · with http := none }) q) :=
    eq.setBackend fun valid => by
      rw [closed] at valid
      cases valid
  unfold reassign
  dsimp only
  split
  · rename_i c last
    have taken : Employed (setList l (fun x => { x with
        idle := x.idle.dropLast, busy := x.busy ++ [c] })
        (setHttp h ({ · with requestSended := false }) p)) := unsent.of_same rfl
    refine left _ ((taken.link h).readyToWrite system h) ?_
    have other : b ≠ c := by
      rintro rfl
      exact apart (List.mem_of_getLast? last)
    rw [readyToWrite_keeps.1]
    simpa [other] using closed
  · split
    · refine left _ ((unsent.allocLinked system l h).of_same rfl) ?_
      have other : b ≠ p.newBackend := Nat.ne_of_lt old
      change ((Pool.link p.newBackend h _).backend b).isValid = false
      rw [link_backend, if_neg other, allocBackend_backend]
      exact (congrArg Backend.isValid (if_neg other)).trans closed
    · rename_i failed
      exact unsent.allocClosed l unrefused failed

theorem connect (e : Employed p) (unrefused : ∀ b, system.connect b ≠ .refused) (https : Bool)
    (s : SockAddr) (h : HttpId) : Employed (tryConnectInternalList system https s h p).1 := by
  unfold tryConnectInternalList
  split
  · rename_i l found
    have homed : Employed (setHttp h ({ · with backendList := some l }) p) := e.of_same rfl
    dsimp only
    split
    · rename_i c last
      have taken : Employed (setList l (fun x => { x with
          idle := x.idle.dropLast, busy := x.busy ++ [c] })
          (setHttp h ({ · with backendList := some l }) p)) := homed.of_same rfl
      exact (taken.link h).readyToWrite system h
    · split
      · split
        · exact (homed.allocLinked system l h).of_same rfl
        · rename_i failed
          exact homed.allocClosed l unrefused failed
      · exact homed.of_same rfl
  · have opened : Employed (setHttp h ({ · with backendList := some p.newList })
        { setList p.newList (fun _ => ⟨[], [], [], s⟩) p with newList := p.newList + 1 }) :=
      e.of_same rfl
    dsimp only
    split
    · exact (opened.allocLinked system p.newList h).of_same rfl
    · rename_i failed
      exact opened.allocClosed p.newList unrefused failed

end Employed

theorem move_employed (unrefused : ∀ b, system.connect b ≠ .refused)
    (move : Move system n engaged p p') (e : Employed p) : Employed p' := by
  cases move with
  | http h f less => exact e.of_same rfl
  | backend b f weaker =>
    refine e.setBackend fun valid => ?_
    obtain kept | ⟨-, closed | connected⟩ := weaker.http
    · rw [kept, weaker.wasTCPConnected]
      exact e b (weaker.isValid valid)
    · rw [closed] at valid
      cases valid
    · exact .inr (weaker.wasTCPConnected.trans connected)
  | path https path => exact e.of_same rfl
  | join h client alive => exact e.of_same rfl
  | answered b busy => exact e.setBackend fun _ => .inr rfl
  | leaveBusy l b spent => exact e.of_same rfl
  | leaveIdle l b closed => exact e.of_same rfl
  | rest l b busy => exact e.of_same park_keeps.1
  | @replace l b h busy closed own apart old =>
    have left : Employed (leaveBusy l b p) := e.of_same rfl
    exact left.replace unrefused closed (by rwa [leaveBusy_idle]) old
  | dequeue l h => exact e.of_same rfl
  | @serve l b h rest queue carrier =>
    have popped : Employed (setHttp h ({ · with pending := true })
        (setList l ({ · with pending := rest }) p)) := e.of_same rfl
    exact (popped.link h).readyToWrite system h
  | schedule h f alive less dead => exact e.of_same rfl
  | bury h => exact e.of_same rfl
  | alloc https path old _ => exact e.of_same rfl
  | young h f young _ _ => exact e.of_same rfl
  | connect https s h young _ => exact e.connect unrefused https s h
  | enlist https path h young free => exact e.of_same rfl

theorem reach_employed {maxBackend : ℕ} (positive : 1 ≤ maxBackend)
    (reached : Reach Step Unrefused (· = initial maxBackend) p) : Employed p := by
  induction reached with
  | start first =>
    subst first
    intro b valid
    cases valid
  | next before unrefused taken ih =>
    exact (step_chain (reach_wellFormed positive before) taken).keeps
      (fun _ _ => move_employed unrefused) ih

/-- The connections of one origin that are open and used number at most `--maxBackend`,
each of them is in `busy` or `idle` of a list registered under the address it connects
to, and where no `connect` is refused at once every open connection is used. -/
theorem connections_bounded {maxBackend : ℕ} (positive : 1 ≤ maxBackend) {p : Pool}
    (reached : Reach Step anyStep (· = initial maxBackend) p) :
    (∀ b, (p.backend b).isValid = true → Used b p → ∃ https addr l,
      p.addressTo https addr = some l ∧ (p.list l).s.sin6_addr = addr ∧
      (p.backend b).backendList = some l ∧ b ∈ (p.list l).busy ++ (p.list l).idle) ∧
    (∀ https addr (sockets : List BackendId), sockets.Nodup →
      (∀ b ∈ sockets, (p.backend b).isValid = true ∧ Used b p ∧ Serves https addr b p) →
      sockets.length ≤ maxBackend) ∧
    (Reach Step Unrefused (· = initial maxBackend) p →
      ∀ b, (p.backend b).isValid = true → Used b p) := by
  have w := reach_wellFormed positive reached
  have a := reach_accounted positive reached
  refine ⟨fun b valid used => ?_, fun https addr sockets once all => ?_, reach_employed positive⟩
  · obtain ⟨l, member⟩ := open_listed w a valid used
    obtain ⟨https, addr, found⟩ := a.registered l (List.ne_nil_of_mem member)
    exact ⟨https, addr, l, found, (a.address https addr l found).2, w.home l b member, member⟩
  · cases found : p.addressTo https addr with
    | none =>
      have nobody : sockets = [] := by
        refine List.eq_nil_iff_forall_not_mem.mpr fun b member => ?_
        obtain ⟨-, -, l, -, known⟩ := all b member
        rw [found] at known
        cases known
      simp [nobody]
    | some l =>
      have inside : sockets ⊆ (p.list l).busy ++ (p.list l).idle := by
        intro b member
        obtain ⟨valid, used, l', home, known⟩ := all b member
        obtain rfl : l = l' := Option.some_inj.mp (found.symm.trans known)
        obtain ⟨l', listed⟩ := open_listed w a valid used
        have home' := w.home l' b listed
        rw [home, Option.some_inj] at home'
        exact home' ▸ listed
      have fewer := (List.subperm_of_subset once inside).length_le
      have slots := w.slots l
      rw [List.length_append] at fewer
      rw [w.maxBackend.1] at slots
      exact Nat.le_trans fewer slots

theorem one_connection_bounded : ∃ p, Reach Step anyStep (· = initial 1) p ∧
    (p.backend 0).isValid = true ∧ Used 0 p ∧ Serves false .zero 0 p ∧
    ∀ sockets : List BackendId, sockets.Nodup →
      (∀ b ∈ sockets, (p.backend b).isValid = true ∧ Used b p ∧ Serves false .zero b p) →
      sockets.length ≤ 1 := by
  have reached : Reach Step anyStep (· = initial 1) _ :=
    .next (e := (DeadOrigin.connecting, .dnsRight ⟨false, [100], [97], [48], [], 8⟩ ⟨.zero, 80⟩))
      (.next (e := (DeadOrigin.connecting,
          .dnsRight ⟨false, [99], [97], [47], [], 7⟩ ⟨.zero, 80⟩))
        (.start rfl) trivial ⟨trivial, 0, fun _ => rfl⟩)
      trivial ⟨trivial, 0, fun _ => rfl⟩
  refine ⟨_, reached, rfl, .inl ?_, ⟨0, rfl, rfl⟩,
    (connections_bounded (Nat.le_refl 1) reached).2.1 false .zero⟩
  exact Option.some_ne_none 0

end FastCgiCdn.ConnectionLimit
