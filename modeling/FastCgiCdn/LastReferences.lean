import FastCgiCdn.PoolMoves
import FastCgiCdn.QueueOrder

/-! What the pool has let go it never takes up again: an Http that no list of it leads to
gets no reference any more, and neither does a closed backend that is in no list and
carries no request. -/

namespace FastCgiCdn.LastReferences

open GuardedRuns DnsModel PoolModel Pool PoolInvariant PoolWellFormed PoolOutcomes PoolMoves

variable {limit n : ℕ} {engaged : BackendId → Prop} {system : System} {p p' q : Pool}
variable {b c : BackendId} {h x : HttpId} {l : ListId}

/-- The request `h` is handed to an idle or to a new backend, or queued. -/
structure Hands (h : HttpId) (p p' : Pool) : Prop where
  http : ∀ x, x ≠ h → p'.http x = p.http x
  backend : ∀ b, (p'.backend b).http = (p.backend b).http ∨ (p'.backend b).http = some h ∨
    (p'.backend b).http = none
  busy : ∀ l, ∀ b ∈ (p'.list l).busy, b ∈ (p.list l).busy ∨ (p'.backend b).http = some h ∨
    (p'.backend b).http = none
  pending : ∀ l, ∀ x ∈ (p'.list l).pending, x ∈ (p.list l).pending ∨ x = h
  pathTo : p'.pathTo = p.pathTo
  newBackend : p.newBackend ≤ p'.newBackend
  isValid : ∀ b < p.newBackend, (p'.backend b).isValid = (p.backend b).isValid
  listed : ∀ l, ∀ b ∈ (p'.list l).busy ++ (p'.list l).idle,
    b ∈ (p.list l).busy ++ (p.list l).idle ∨ p.newBackend ≤ b
  linked : ∀ b, (p'.http h).backend = some b → (p.http h).backend = some b ∨
    (∃ l, b ∈ (p.list l).idle) ∨ p.newBackend ≤ b

namespace Hands

theorem of_setHttp {f : Http → Http} (hands : Hands h (setHttp h f p) p')
    (kept : (f (p.http h)).backend = (p.http h).backend) : Hands h p p' where
  http x other := by rw [hands.http x other, setHttp_http, if_neg other]
  backend := hands.backend
  busy := hands.busy
  pending := hands.pending
  pathTo := hands.pathTo
  newBackend := hands.newBackend
  isValid := hands.isValid
  listed := hands.listed
  linked b own := by
    have before := hands.linked b own
    rwa [setHttp_http, if_pos rfl, kept] at before

theorem readyToWrite (hands : Hands h p p') (system : System) :
    Hands h p (readyToWrite system h p') := by
  have same : SameLinks p' (Pool.readyToWrite system h p') := .readyToWrite system h
  have backends : (Pool.readyToWrite system h p').backend = p'.backend := readyToWrite_keeps.1
  refine ⟨fun x other => ?_, ?_, ?_, ?_, ?_, ?_, ?_, ?_, fun b own => ?_⟩
  · rw [← hands.http x other]
    unfold Pool.readyToWrite
    split
    · rfl
    · rw [setHttp_http, if_neg other]
  · rw [backends]
    exact hands.backend
  · rw [backends, same.list]
    exact hands.busy
  · rw [same.list]
    exact hands.pending
  · rw [← hands.pathTo]
    exact (PathMaps.Keeps.readyToWrite system h).pathTo
  · rw [same.newBackend]
    exact hands.newBackend
  · rw [backends]
    exact hands.isValid
  · rw [same.list]
    exact hands.listed
  · rw [readyToWrite_backend] at own
    exact hands.linked b own

theorem takeIdle (last : (p.list l).idle.getLast? = some c) :
    Hands h p (link c h (setList l (fun x => { x with
      idle := x.idle.dropLast, busy := x.busy ++ [c] }) p)) := by
  have idle : c ∈ (p.list l).idle := List.mem_of_getLast? last
  refine ⟨?_, ?_, ?_, ?_, rfl, Nat.le_refl _, ?_, ?_, ?_⟩
  · intro x other
    simp [other]
  · intro b
    by_cases own : b = c <;> simp [own]
  · intro l' b member
    by_cases own : b = c
    · simp [own]
    · left
      by_cases here : l' = l
      · simpa [own, here] using member
      · simpa [own, here] using member
  · intro l' x member
    by_cases here : l' = l
    · simpa [here] using Or.inl member
    · simpa [here] using Or.inl member
  · intro b _
    by_cases own : b = c <;> simp [own]
  · intro l' b member
    left
    by_cases here : l' = l
    · subst here
      simp only [link_list, setList_list, if_true, List.mem_append, List.mem_singleton] at member ⊢
      rcases member with (member | rfl) | member
      · exact .inl member
      · exact .inr idle
      · exact .inr (List.dropLast_subset _ member)
    · simpa [here] using member
  · intro b own
    simp only [link_http, if_true, Option.some.injEq] at own
    exact .inr (.inl ⟨l, own ▸ idle⟩)

theorem openNew (system : System) (l : ListId) :
    Hands h p (enterBusy l p.newBackend (link p.newBackend h (allocBackend system l p))) := by
  refine ⟨?_, ?_, ?_, ?_, rfl, Nat.le_succ _, ?_, ?_, ?_⟩
  · intro x other
    simp [enterBusy, other]
  · intro b
    by_cases own : b = p.newBackend <;> simp [enterBusy, own]
  · intro l' b member
    by_cases own : b = p.newBackend
    · simp [enterBusy, own]
    · left
      by_cases here : l' = l
      · simpa [enterBusy, own, here] using member
      · simpa [enterBusy, own, here] using member
  · intro l' x member
    by_cases here : l' = l <;> simpa [enterBusy, here] using Or.inl member
  · intro b old
    simp [enterBusy, Nat.ne_of_lt old]
  · intro l' b member
    by_cases here : l' = l
    · subst here
      simp only [enterBusy, setList_list, if_true, link_list, allocBackend_list, List.mem_append,
        List.mem_singleton] at member ⊢
      rcases member with (member | rfl) | member
      · exact .inl (.inl member)
      · exact .inr (Nat.le_refl _)
      · exact .inl (.inr member)
    · left
      simpa [enterBusy, here] using member
  · intro b own
    simp only [enterBusy, setList_http, link_http, if_true, Option.some.injEq] at own
    exact .inr (.inr own.le)

theorem failNew (system : System) (l : ListId) : Hands h p (allocBackend system l p) := by
  refine ⟨fun _ _ => rfl, ?_, fun _ _ member => .inl member, fun _ _ member => .inl member, rfl,
    Nat.le_succ _, ?_, fun _ _ member => .inl member, fun _ own => .inl own⟩
  · intro b
    by_cases own : b = p.newBackend <;> simp [own]
  · intro b old
    simp [Nat.ne_of_lt old]

theorem enqueue (l : ListId) :
    Hands h p (setList l (fun x => { x with pending := x.pending ++ [h] }) p) := by
  refine ⟨fun _ _ => rfl, fun _ => .inl rfl, ?_, ?_, rfl, Nat.le_refl _, fun _ _ => rfl, ?_,
    fun _ own => .inl own⟩
  · intro l' b member
    by_cases here : l' = l <;> simpa [here] using Or.inl member
  · intro l' x member
    by_cases here : l' = l
    · simpa [here] using member
    · left
      simpa [here] using member
  · intro l' b member
    by_cases here : l' = l <;> simpa [here] using Or.inl member

theorem free (hands : Hands h p p') (b : BackendId) :
    Hands h p (setBackend b ({ · with http := none }) p') where
  http := hands.http
  backend c := by
    by_cases own : c = b
    · simp [own]
    · simpa [own] using hands.backend c
  busy l c member := by
    by_cases own : c = b
    · simp [own]
    · simpa [own] using hands.busy l c member
  pending := hands.pending
  pathTo := hands.pathTo
  newBackend := hands.newBackend
  isValid c old := by
    rw [← hands.isValid c old]
    by_cases own : c = b <;> simp [own]
  listed := hands.listed
  linked := hands.linked

theorem reassign : Hands h p (reassign system l b h p) := by
  unfold Pool.reassign
  dsimp only
  split
  · rename_i c last
    exact ((takeIdle last).of_setHttp rfl).readyToWrite system |>.free b
  · split
    · exact ((openNew system l).of_setHttp rfl).free b
    · exact (failNew system l).of_setHttp rfl

theorem of_openList {s : SockAddr}
    (hands : Hands h { setList p.newList (fun _ => ⟨[], [], [], s⟩) p with
      newList := p.newList + 1 } p') : Hands h p p' where
  http := hands.http
  backend := hands.backend
  busy l b member := by
    refine (hands.busy l b member).imp_left fun before => ?_
    by_cases new : l = p.newList
    · simp [new] at before
    · simpa [new] using before
  pending l x member := by
    refine (hands.pending l x member).imp_left fun before => ?_
    by_cases new : l = p.newList
    · simp [new] at before
    · simpa [new] using before
  pathTo := hands.pathTo
  newBackend := hands.newBackend
  isValid := hands.isValid
  listed l b member := by
    refine (hands.listed l b member).imp_left fun before => ?_
    by_cases new : l = p.newList
    · simp [new] at before
    · simpa [new] using before
  linked b own := by
    refine (hands.linked b own).imp_right (.imp_left ?_)
    rintro ⟨l, before⟩
    refine ⟨l, ?_⟩
    by_cases new : l = p.newList
    · simp [new] at before
    · simpa [new] using before

theorem setAddress (hands : Hands h p p') (https : Bool) (addr : In6Addr) (l : Option ListId) :
    Hands h p (setAddress https addr l p') :=
  ⟨hands.http, hands.backend, hands.busy, hands.pending, hands.pathTo, hands.newBackend,
    hands.isValid, hands.listed, hands.linked⟩

theorem connect (https : Bool) (s : SockAddr) :
    Hands h p (tryConnectInternalList system https s h p).1 := by
  unfold tryConnectInternalList
  split
  · dsimp only
    split
    · rename_i l found c last
      exact ((takeIdle last).of_setHttp rfl).readyToWrite system
    · split
      · split
        · exact (openNew system _).of_setHttp rfl
        · exact (failNew system _).of_setHttp rfl
      · exact ((enqueue _).of_setHttp rfl).of_setHttp rfl
  · dsimp only
    split
    · exact (((openNew system p.newList).of_setHttp rfl).setAddress https s.sin6_addr _).of_openList
    · exact ((failNew system p.newList).of_setHttp rfl).of_openList

theorem named (hands : Hands x p p') (other : h ≠ x) (named : (p'.backend b).http = some h) :
    (p.backend b).http = some h := by
  obtain kept | given | free := hands.backend b
  · exact kept.symm.trans named
  · rw [named] at given
    exact absurd (Option.some_inj.mp given) other
  · rw [named] at free
    cases free

end Hands

/-- Nothing leads to the Http, and it is not asked for anything. -/
structure Forgotten (h : HttpId) (p : Pool) : Prop where
  dead : (p.http h).isAlive = false
  backend : (p.http h).backend = none
  backendList : (p.http h).backendList = none
  clientsList : (p.http h).clientsList = []
  unqueued : ∀ l, h ∉ (p.list l).pending
  uncarried : ∀ l, ∀ b ∈ (p.list l).busy, (p.backend b).http ≠ some h
  unlisted : ∀ https path, p.pathTo https path ≠ some h

namespace Forgotten

theorem setHttp (forgotten : Forgotten h p) {f : Http → Http}
    (less : x = h → Less (p.http h) (f (p.http h))) : Forgotten h (setHttp x f p) := by
  have object : Less (p.http h) ((Pool.setHttp x f p).http h) := by
    by_cases own : h = x
    · rw [setHttp_http, if_pos own, ← own]
      exact less own.symm
    · rw [setHttp_http, if_neg own]
      exact .of_note rfl rfl rfl (List.Subset.refl _) rfl
  obtain ⟨backend, backendList, alive, clients, -⟩ := object
  rw [forgotten.backend, or_self] at backend
  rw [forgotten.backendList, or_self] at backendList
  rw [forgotten.clientsList] at clients
  refine ⟨?_, backend, backendList, List.subset_nil.mp clients, forgotten.unqueued,
    forgotten.uncarried, forgotten.unlisted⟩
  rw [Bool.eq_false_iff]
  intro wrong
  rw [forgotten.dead] at alive
  cases alive wrong

theorem of_objects (forgotten : Forgotten h p) (http : p'.http h = p.http h)
    (unqueued : ∀ l, h ∉ (p'.list l).pending)
    (uncarried : ∀ l, ∀ b ∈ (p'.list l).busy, (p'.backend b).http ≠ some h)
    (pathTo : p'.pathTo = p.pathTo) : Forgotten h p' := by
  refine ⟨?_, ?_, ?_, ?_, unqueued, uncarried, ?_⟩
  · rw [http]
    exact forgotten.dead
  · rw [http]
    exact forgotten.backend
  · rw [http]
    exact forgotten.backendList
  · rw [http]
    exact forgotten.clientsList
  · rw [pathTo]
    exact forgotten.unlisted

theorem hands (forgotten : Forgotten h p) (hands : Hands x p p') (other : h ≠ x) :
    Forgotten h p' := by
  refine forgotten.of_objects (hands.http h other) ?_ ?_ hands.pathTo
  · intro l member
    exact (hands.pending l h member).elim (forgotten.unqueued l) other
  · intro l b member carried
    have given : (p'.backend b).http ≠ some x := by
      rw [carried]
      exact fun same => other (Option.some_inj.mp same)
    obtain before | wrong | wrong := hands.busy l b member
    · exact forgotten.uncarried l b before (hands.named other carried)
    · exact given wrong
    · rw [carried] at wrong
      cases wrong

theorem fewer (forgotten : Forgotten h p) (http : p'.http = p.http) (pathTo : p'.pathTo = p.pathTo)
    (backend : ∀ b, (p'.backend b).http = some h → (p.backend b).http = some h)
    (busy : ∀ l, (p'.list l).busy ⊆ (p.list l).busy)
    (pending : ∀ l, (p'.list l).pending ⊆ (p.list l).pending) : Forgotten h p' :=
  forgotten.of_objects (congrFun http h) (fun l member => forgotten.unqueued l (pending l member))
    (fun l b member carried => forgotten.uncarried l b (busy l member) (backend b carried)) pathTo

theorem serve (forgotten : Forgotten h p) {rest : List HttpId}
    (queue : (p.list l).pending = x :: rest) : Forgotten h (serve system l b x rest p) := by
  have other : h ≠ x := by
    rintro rfl
    exact forgotten.unqueued l (by simp [queue])
  have lists : (PoolOutcomes.serve system l b x rest p).list = _ := serve_list rest
  have backends : (PoolOutcomes.serve system l b x rest p).backend = _ := serve_backend rest
  refine forgotten.of_objects (TimedOut.serve_http other) ?_ ?_ ?_
  · intro l' member
    rw [lists] at member
    by_cases own : l' = l
    · rw [own, Function.update_self] at member
      exact forgotten.unqueued l (by simp [queue, member])
    · rw [Function.update_of_ne own] at member
      exact forgotten.unqueued l' member
  · intro l' c member carried
    rw [lists] at member
    rw [backends] at carried
    have busy : c ∈ (p.list l').busy := by
      by_cases own : l' = l
      · rw [own, Function.update_self] at member
        exact own ▸ member
      · rwa [Function.update_of_ne own] at member
    by_cases own : c = b
    · rw [own, Function.update_self] at carried
      exact other (Option.some_inj.mp carried).symm
    · rw [Function.update_of_ne own] at carried
      exact forgotten.uncarried l' c busy carried
  · exact (PathMaps.Keeps.readyToWrite system x).pathTo

end Forgotten

theorem leaveBusy_busy (l' : ListId) :
    ((leaveBusy l b p).list l').busy ⊆ (p.list l').busy := by
  by_cases own : l' = l
  · simpa [leaveBusy, own] using List.erase_subset
  · simp [leaveBusy, own]

theorem park_busy (l' : ListId) : ((park l b p).list l').busy = (p.list l').busy := by
  unfold park
  split
  · by_cases own : l' = l <;> simp [own]
  · rfl

/-- No move takes a forgotten Http up again, nor makes a backend name it. -/
theorem move_forgotten (old : h < n) (move : Move system n engaged p p')
    (forgotten : Forgotten h p) : Forgotten h p' ∧
      ∀ b, (p'.backend b).http = some h → (p.backend b).http = some h := by
  have young {x : HttpId} (young : n ≤ x) : h ≠ x := Nat.ne_of_lt (Nat.lt_of_lt_of_le old young)
  cases move with
  | http x f less => exact ⟨forgotten.setHttp fun own => own ▸ less, fun _ named => named⟩
  | backend b f weaker =>
    have kept (c : BackendId) (named : ((setBackend b f p).backend c).http = some h) :
        (p.backend c).http = some h := by
      by_cases own : c = b
      · subst own
        rw [setBackend_backend, if_pos rfl] at named
        obtain same | ⟨free, -⟩ := weaker.http
        · rwa [← same]
        · rw [named] at free
          cases free
      · rwa [setBackend_backend, if_neg own] at named
    exact ⟨forgotten.fewer rfl rfl kept (fun _ => List.Subset.refl _)
      (fun _ => List.Subset.refl _), kept⟩
  | path https path =>
    refine ⟨{ forgotten with unlisted := fun https' path' => ?_ }, fun _ named => named⟩
    rw [SingleFlight.setPath_pathTo]
    split
    · exact (Option.some_ne_none h).symm
    · exact forgotten.unlisted https' path'
  | join x client alive =>
    have other : x ≠ h := by
      rintro rfl
      rw [forgotten.dead] at alive
      cases alive
    exact ⟨forgotten.setHttp fun own => absurd own other, fun _ named => named⟩
  | answered b busy =>
    have kept (c : BackendId)
        (named : ((setBackend b ({ · with wasTCPConnected := true }) p).backend c).http = some h) :
        (p.backend c).http = some h := by
      by_cases own : c = b
      · subst own
        rwa [setBackend_backend, if_pos rfl] at named
      · rwa [setBackend_backend, if_neg own] at named
    exact ⟨forgotten.fewer rfl rfl kept (fun _ => List.Subset.refl _)
      (fun _ => List.Subset.refl _), kept⟩
  | leaveBusy l b spent =>
    exact ⟨forgotten.fewer rfl rfl (fun _ named => named) leaveBusy_busy fun l' => by
      rw [leaveBusy_pending]
      exact List.Subset.refl _, fun _ named => named⟩
  | leaveIdle l b closed =>
    refine ⟨forgotten.fewer rfl rfl (fun _ named => named) (fun l' => ?_) fun l' => ?_,
      fun _ named => named⟩
    · by_cases own : l' = l <;> simp [leaveIdle, own]
    · by_cases own : l' = l <;> simp [leaveIdle, own]
  | rest l b busy =>
    refine ⟨forgotten.fewer (funext fun x => by rw [park_http, leaveBusy_http]) ?_
      (fun c named => by rwa [park_backend, leaveBusy_backend] at named) (fun l' => ?_) fun l' => ?_,
      fun c named => by rwa [park_backend, leaveBusy_backend] at named⟩
    · exact (PathMaps.Keeps.park l b).pathTo
    · rw [park_busy]
      exact leaveBusy_busy l'
    · rw [park_pending, leaveBusy_pending]
      exact List.Subset.refl _
  | @replace l b x busy closed own apart old =>
    have other : h ≠ x := by
      rintro rfl
      rw [forgotten.backend] at own
      cases own
    have left : Forgotten h (leaveBusy l b p) :=
      forgotten.fewer rfl rfl (fun _ named => named) leaveBusy_busy fun l' => by
        rw [leaveBusy_pending]
        exact List.Subset.refl _
    have hands : Hands x (leaveBusy l b p) (reassign system l b x (leaveBusy l b p)) := .reassign
    exact ⟨left.hands hands other, fun c named => hands.named other named⟩
  | dequeue l x =>
    refine ⟨forgotten.fewer rfl rfl (fun _ named => named) (fun l' => ?_) fun l' => ?_,
      fun _ named => named⟩
    · by_cases own : l' = l <;> simp [own]
    · by_cases own : l' = l
      · simpa [own] using List.erase_subset
      · simp [own]
  | @serve l b x rest queue carrier =>
    refine ⟨forgotten.serve queue, fun c named => ?_⟩
    have backends : (serve system l b x rest p).backend = _ := serve_backend rest
    rw [backends] at named
    by_cases own : c = b
    · rw [own, Function.update_self] at named
      rw [Option.some_inj] at named
      exact absurd (by simp [queue, named]) (forgotten.unqueued l)
    · rwa [Function.update_of_ne own] at named
  | schedule x f alive less dead =>
    have left : Forgotten h (setHttp x f p) := forgotten.setHttp fun own => own ▸ less
    exact ⟨{ left with }, fun _ named => named⟩
  | bury x => exact ⟨{ forgotten with }, fun _ named => named⟩
  | alloc https path grown _ =>
    refine ⟨forgotten.of_objects ?_ forgotten.unqueued forgotten.uncarried rfl,
      fun _ named => named⟩
    rw [SingleFlight.allocHttp_http, if_neg (young grown)]
  | young x f fresh _ _ =>
    exact ⟨forgotten.setHttp fun own => absurd own.symm (young fresh), fun _ named => named⟩
  | connect https s x fresh _ =>
    have hands : Hands x p (tryConnectInternalList system https s x p).1 := .connect https s
    exact ⟨forgotten.hands hands (young fresh), fun c named => hands.named (young fresh) named⟩
  | enlist https path x fresh free =>
    refine ⟨{ forgotten with unlisted := fun https' path' => ?_ }, fun _ named => named⟩
    rw [SingleFlight.setPath_pathTo]
    split
    · exact fun same => young fresh (Option.some_inj.mp same).symm
    · exact forgotten.unlisted https' path'

/-- A closed backend that is in no list and carries no request. -/
structure Discarded (b : BackendId) (p : Pool) : Prop where
  old : b < p.newBackend
  closed : (p.backend b).isValid = false
  gone : ∀ l, b ∉ (p.list l).busy ++ (p.list l).idle
  unlinked : ∀ h, (p.http h).backend ≠ some b

namespace Discarded

theorem setHttp (discarded : Discarded b p) {f : Http → Http}
    (less : (f (p.http h)).backend = (p.http h).backend ∨ (f (p.http h)).backend = none) :
    Discarded b (setHttp h f p) where
  old := discarded.old
  closed := discarded.closed
  gone := discarded.gone
  unlinked x := by
    by_cases own : x = h
    · subst own
      rw [setHttp_http, if_pos rfl]
      obtain kept | free := less
      · rw [kept]
        exact discarded.unlinked x
      · rw [free]
        exact (Option.some_ne_none b).symm
    · rw [setHttp_http, if_neg own]
      exact discarded.unlinked x

theorem setBackend (discarded : Discarded b p) {f : Backend → Backend}
    (isValid : (f (p.backend c)).isValid = true → (p.backend c).isValid = true) :
    Discarded b (setBackend c f p) where
  old := discarded.old
  closed := by
    by_cases own : b = c
    · subst own
      rw [setBackend_backend, if_pos rfl, Bool.eq_false_iff]
      intro valid
      rw [discarded.closed] at isValid
      cases isValid valid
    · rw [setBackend_backend, if_neg own]
      exact discarded.closed
  gone := discarded.gone
  unlinked := discarded.unlinked

theorem relist (discarded : Discarded b p) (http : ∀ x, p'.http x = p.http x)
    (backend : p'.backend b = p.backend b) (newBackend : p'.newBackend = p.newBackend)
    (listed : ∀ l, b ∈ (p'.list l).busy ++ (p'.list l).idle →
      b ∈ (p.list l).busy ++ (p.list l).idle) : Discarded b p' where
  old := by
    rw [newBackend]
    exact discarded.old
  closed := by
    rw [backend]
    exact discarded.closed
  gone l member := discarded.gone l (listed l member)
  unlinked x := by
    rw [http]
    exact discarded.unlinked x

theorem hands (discarded : Discarded b p) (hands : Hands h p p') : Discarded b p' where
  old := Nat.lt_of_lt_of_le discarded.old hands.newBackend
  closed := by
    rw [hands.isValid b discarded.old]
    exact discarded.closed
  gone l member := by
    obtain before | late := hands.listed l b member
    · exact discarded.gone l before
    · exact absurd discarded.old (Nat.not_lt.mpr late)
  unlinked x linked := by
    by_cases own : x = h
    · subst own
      obtain before | ⟨l, idle⟩ | late := hands.linked b linked
      · exact discarded.unlinked x before
      · exact discarded.gone l (List.mem_append_right _ idle)
      · exact absurd discarded.old (Nat.not_lt.mpr late)
    · rw [hands.http x own] at linked
      exact discarded.unlinked x linked

theorem leaveBusy (discarded : Discarded b p) : Discarded b (leaveBusy l c p) := by
  refine discarded.relist (fun _ => rfl) rfl rfl fun l' member => ?_
  rw [List.mem_append, leaveBusy_idle] at member
  exact List.mem_append.mpr (member.imp_left fun busy => leaveBusy_busy l' busy)

end Discarded

theorem move_discarded (free : ¬engaged b) (move : Move system n engaged p p')
    (discarded : Discarded b p) : Discarded b p' := by
  cases move with
  | http x f less => exact discarded.setHttp less.backend
  | backend c f weaker => exact discarded.setBackend weaker.isValid
  | path https path => exact { discarded with }
  | join x client alive => exact discarded.setHttp (.inl rfl)
  | answered c busy => exact discarded.setBackend id
  | leaveBusy l c spent => exact discarded.leaveBusy
  | leaveIdle l c closed =>
    refine discarded.relist (fun _ => rfl) rfl rfl fun l' member => ?_
    by_cases own : l' = l
    · subst own
      simp only [leaveIdle, setList_list, if_true, List.mem_append] at member ⊢
      exact member.imp_right List.mem_of_mem_erase
    · simpa [leaveIdle, own] using member
  | rest l c busy =>
    have left : Discarded b (leaveBusy l c p) := discarded.leaveBusy
    unfold park
    split
    · rename_i valid
      have other : b ≠ c := by
        rintro rfl
        rw [left.closed] at valid
        cases valid
      refine left.relist (fun _ => rfl) rfl rfl fun l' member => ?_
      by_cases own : l' = l
      · subst own
        simpa [other] using member
      · simpa [own] using member
    · exact left
  | replace busy closed own apart old => exact discarded.leaveBusy.hands .reassign
  | dequeue l x =>
    refine discarded.relist (fun _ => rfl) rfl rfl fun l' member => ?_
    by_cases own : l' = l
    · simpa [own] using member
    · simpa [own] using member
  | @serve l c x rest queue carrier =>
    have other : b ≠ c := by
      rintro rfl
      exact free carrier
    have lists : (serve system l c x rest p).list = _ := serve_list rest
    have backends : (serve system l c x rest p).backend = _ := serve_backend rest
    refine ⟨?_, ?_, fun l' member => ?_, fun y linked => ?_⟩
    · have same : SameLinks _ (serve system l c x rest p) := .readyToWrite system x
      rw [same.newBackend]
      exact discarded.old
    · rw [backends, Function.update_of_ne other]
      exact discarded.closed
    · rw [lists] at member
      refine discarded.gone l' ?_
      by_cases own : l' = l
      · simpa [own] using member
      · simpa [own] using member
    · by_cases own : y = x
      · subst own
        unfold serve at linked
        rw [readyToWrite_backend, link_http, if_pos rfl] at linked
        exact other (Option.some_inj.mp linked).symm
      · rw [TimedOut.serve_http own] at linked
        exact discarded.unlinked y linked
  | schedule x f alive less dead =>
    have left : Discarded b (setHttp x f p) := discarded.setHttp less.backend
    exact { left with }
  | bury x => exact { discarded with }
  | alloc https path grown _ =>
    refine ⟨discarded.old, discarded.closed, discarded.gone, fun y linked => ?_⟩
    rw [SingleFlight.allocHttp_http] at linked
    split at linked
    · cases linked
    · exact discarded.unlinked y linked
  | young x f fresh _ kept => exact discarded.setHttp (.inl kept)
  | connect https s x fresh _ => exact discarded.hands (.connect https s)
  | enlist https path x fresh absent => exact { discarded with }

section schedule

theorem readyToWrite_alive (x : HttpId) :
    ((readyToWrite system h p).http x).isAlive = (p.http x).isAlive := by
  unfold readyToWrite
  split
  · rfl
  · by_cases own : x = h <;> simp [Http.isAlive, own]

theorem link_alive (x : HttpId) : ((link b h p).http x).isAlive = (p.http x).isAlive := by
  by_cases own : x = h <;> simp [Http.isAlive, own]

theorem reassign_alive (x : HttpId) :
    ((reassign system l b h p).http x).isAlive = (p.http x).isAlive := by
  have noted : ((setHttp h ({ · with requestSended := false }) p).http x).isAlive =
      (p.http x).isAlive := by
    by_cases own : x = h <;> simp [Http.isAlive, own]
  unfold reassign
  dsimp only
  split
  · rw [setBackend_http, readyToWrite_alive, link_alive, setList_http, noted]
  · split
    · rw [setBackend_http, enterBusy, setList_http, link_alive, allocBackend_http, noted]
    · rw [allocBackend_http, noted]

theorem serve_alive {rest : List HttpId} (x : HttpId) :
    ((serve system l b h rest p).http x).isAlive = (p.http x).isAlive := by
  unfold serve
  rw [readyToWrite_alive, link_alive]
  by_cases own : x = h <;> simp [Http.isAlive, own]

theorem move_toDelete (move : Move system n engaged p p') : p'.toDelete = p.toDelete ∨
    (∃ h, (p.http h).isAlive = true ∧ (p'.http h).isAlive = false ∧
      p'.toDelete = p.toDelete.insert h) ∨ ∃ h, p'.toDelete = p.toDelete.erase h := by
  cases move with
  | rest l b busy =>
    left
    unfold park
    split <;> rfl
  | replace busy closed own apart old => exact .inl TimedOut.reassign_toDelete
  | @serve l b h rest queue carrier => exact .inl (SameLinks.readyToWrite system h).toDelete
  | schedule h f alive less dead =>
    refine .inr (.inl ⟨h, alive, ?_, rfl⟩)
    rw [setHttp_http, if_pos rfl]
    exact dead
  | bury h => exact .inr (.inr ⟨h, rfl⟩)
  | connect https s h young _ =>
    exact .inl (PathMaps.Keeps.tryConnectInternalList system h https s).toDelete
  | _ => exact .inl rfl

theorem move_dead (move : Move system n engaged p p') (old : h < n ∨ h ∈ p.toDelete)
    (dead : (p.http h).isAlive = false) : (p'.http h).isAlive = false := by
  have lost {x : HttpId} {f : Http → Http} (less : Less (p.http x) (f (p.http x))) :
      ((setHttp x f p).http h).isAlive = false := by
    rw [setHttp_http]
    split
    · rename_i own
      rw [own] at dead
      rw [Bool.eq_false_iff]
      intro alive
      rw [less.alive alive] at dead
      cases dead
    · exact dead
  have apart {x : HttpId} (young : n ≤ x) (unscheduled : x ∉ p.toDelete) : h ≠ x := by
    rintro rfl
    exact old.elim (Nat.not_lt.mpr young) unscheduled
  cases move with
  | http x f less => exact lost less
  | join x client alive =>
    rw [setHttp_http]
    split
    · rename_i own
      exact own ▸ dead
    · exact dead
  | rest l b busy => rwa [park_http, leaveBusy_http]
  | replace busy closed own apart old => rwa [reassign_alive, leaveBusy_http]
  | serve queue carrier => rwa [serve_alive]
  | schedule x f alive less dead' => exact lost less
  | alloc https path grown unscheduled =>
    rwa [SingleFlight.allocHttp_http, if_neg (apart grown unscheduled)]
  | young x f fresh unscheduled kept => rwa [setHttp_http, if_neg (apart fresh unscheduled)]
  | connect https s x fresh unscheduled =>
    have hands : Hands x p (tryConnectInternalList system https s x p).1 := .connect https s
    rwa [hands.http h (apart fresh unscheduled)]
  | _ => exact dead

structure Finished (p : Pool) : Prop where
  nodup : p.toDelete.Nodup
  dead : ∀ h ∈ p.toDelete, (p.http h).isAlive = false

theorem move_finished (move : Move system n engaged p p') (ended : Finished p) : Finished p' := by
  have kept {x : HttpId} (member : x ∈ p.toDelete) : (p'.http x).isAlive = false :=
    move_dead move (.inr member) (ended.dead x member)
  obtain same | ⟨h, -, dead, grown⟩ | ⟨h, shrunk⟩ := move_toDelete move
  · refine ⟨same ▸ ended.nodup, fun x member => kept (same ▸ member)⟩
  · refine ⟨grown ▸ ended.nodup.insert, fun x member => ?_⟩
    rw [grown, List.mem_insert_iff] at member
    obtain rfl | before := member
    · exact dead
    · exact kept before
  · refine ⟨shrunk ▸ ended.nodup.erase h, fun x member => kept ?_⟩
    rw [shrunk] at member
    exact List.mem_of_mem_erase member

theorem move_unscheduled (old : h < n) (move : Move system n engaged p p')
    (dead : (p.http h).isAlive = false) (unscheduled : h ∉ p.toDelete) :
    (p'.http h).isAlive = false ∧ h ∉ p'.toDelete := by
  refine ⟨move_dead move (.inl old) dead, fun member => ?_⟩
  obtain same | ⟨x, alive, -, grown⟩ | ⟨x, shrunk⟩ := move_toDelete move
  · exact unscheduled (same ▸ member)
  · rw [grown, List.mem_insert_iff] at member
    obtain rfl | before := member
    · rw [dead] at alive
      cases alive
    · exact unscheduled before
  · rw [shrunk] at member
    exact unscheduled (List.mem_of_mem_erase member)

end schedule

theorem move_closed (move : Move system n engaged p p') : p.newBackend ≤ p'.newBackend ∧
    ∀ b < p.newBackend, (p.backend b).isValid = false → (p'.backend b).isValid = false := by
  have handed {q : Pool} {x : HttpId} (hands : Hands x q p') (newBackend : q.newBackend = p.newBackend)
      (backend : q.backend = p.backend) : p.newBackend ≤ p'.newBackend ∧
      ∀ b < p.newBackend, (p.backend b).isValid = false → (p'.backend b).isValid = false := by
    refine ⟨newBackend ▸ hands.newBackend, fun b old closed => ?_⟩
    rwa [hands.isValid b (newBackend ▸ old), backend]
  cases move with
  | backend c f weaker =>
    refine ⟨Nat.le_refl _, fun b _ closed => ?_⟩
    rw [setBackend_backend]
    split
    · rename_i own
      rw [own] at closed
      rw [Bool.eq_false_iff]
      intro valid
      rw [weaker.isValid valid] at closed
      cases closed
    · exact closed
  | answered c busy =>
    refine ⟨Nat.le_refl _, fun b _ closed => ?_⟩
    rw [setBackend_backend]
    split
    · rename_i own
      exact own ▸ closed
    · exact closed
  | rest l c busy =>
    unfold park
    split <;> exact ⟨Nat.le_refl _, fun _ _ closed => closed⟩
  | replace busy closed own apart old => exact handed .reassign rfl rfl
  | @serve l c x rest queue carrier =>
    have same : SameLinks _ (serve system l c x rest p) := .readyToWrite system x
    refine ⟨same.newBackend.ge, fun b _ closed => ?_⟩
    rw [serve_backend rest, Function.update_apply]
    split
    · rename_i own
      exact own ▸ closed
    · exact closed
  | connect https s x fresh _ => exact handed (.connect https s) rfl rfl
  | _ => exact ⟨Nat.le_refl _, fun _ _ closed => closed⟩

theorem step_newBackend {e : System × Event} (w : WellFormed limit none p)
    (taken : Step e p p') : p.newBackend ≤ p'.newBackend :=
  (step_chain w taken).keeps (P := fun q => p.newBackend ≤ q.newBackend)
    (fun _ _ move before => before.trans (move_closed move).1) (Nat.le_refl _)

theorem step_closed {e : System × Event} (w : WellFormed limit none p) (taken : Step e p p')
    (old : b < p.newBackend) (closed : (p.backend b).isValid = false) :
    (p'.backend b).isValid = false :=
  ((step_chain w taken).keeps
    (P := fun q => b < q.newBackend ∧ (q.backend b).isValid = false)
    (fun _ _ move before => ⟨Nat.lt_of_lt_of_le before.1 (move_closed move).1,
      (move_closed move).2 b before.1 before.2⟩) ⟨old, closed⟩).2

theorem step_finished {e : System × Event} (w : WellFormed limit none p) (taken : Step e p p')
    (ended : Finished p) : Finished p' :=
  (step_chain w taken).keeps (fun _ _ => move_finished) ended

theorem step_unscheduled {e : System × Event} (w : WellFormed limit none p)
    (taken : Step e p p') (old : h < p.newHttp) (dead : (p.http h).isAlive = false)
    (unscheduled : h ∉ p.toDelete) : h ∉ p'.toDelete :=
  ((step_chain w taken).keeps
    (P := fun q => (q.http h).isAlive = false ∧ h ∉ q.toDelete)
    (fun _ _ move before => move_unscheduled old move before.1 before.2) ⟨dead, unscheduled⟩).2

theorem step_forgotten {e : System × Event} (w : WellFormed limit none p) (taken : Step e p p')
    (old : h < p.newHttp) (forgotten : Forgotten h p) : Forgotten h p' ∧
      ∀ b, (p'.backend b).http = some h → (p.backend b).http = some h := by
  have kept := (step_chain w taken).keeps (P := fun q => Forgotten h q ∧
    ∀ b, (q.backend b).http = some h → (p.backend b).http = some h) ?_ ⟨forgotten, fun _ => id⟩
  · exact kept
  · intro q q' move before
    obtain ⟨after, fewer⟩ := move_forgotten old move before.1
    exact ⟨after, fun b named => before.2 b (fewer b named)⟩

theorem step_discarded {e : System × Event} (w : WellFormed limit none p) (taken : Step e p p')
    (discarded : Discarded b p) : Discarded b p' :=
  (step_chain w taken).keeps
    (fun _ _ => move_discarded fun ⟨h, own⟩ => discarded.unlinked h own) discarded

end FastCgiCdn.LastReferences
