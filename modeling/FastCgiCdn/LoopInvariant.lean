import FastCgiCdn.MainLoop

/-! The lists of main and the pool. What main has collected the pool has let go for
good, and no list of the pool that an event can have read leads to a deleted object. Each
step of main keeps this. -/

namespace FastCgiCdn.LoopInvariant

open GuardedRuns DnsModel PoolModel Pool PoolInvariant PoolWellFormed PoolOutcomes PoolMoves SingleFlight
open ScheduledFrame QueueOrder LastReferences MainLoop

variable {limit maxBackend : ℕ} {hostsubfolder : Bool} {XXH3_64bits : Bytes → UInt64}
variable {system : System} {p p' q : Pool} {b : BackendId} {h : HttpId} {rest : List HttpId}
variable {m m' : Main} {label : Label}

section pool

theorem reach_finished (positive : 1 ≤ maxBackend) {ok : System × Event → Pool → Prop}
    (reached : Reach Pool.Step ok (· = Pool.initial maxBackend) p) : Finished p := by
  induction reached with
  | start first => exact first ▸ ⟨List.nodup_nil, fun h member => by cases member⟩
  | next before _ taken ih => exact step_finished (reach_wellFormed positive before) taken ih

structure Sound (limit : ℕ) (p : Pool) : Prop where
  wellFormed : WellFormed limit none p
  filed : Filed none p
  dead : ∀ h ∈ p.toDelete, (p.http h).isAlive = false
  nameless : ∀ h ∈ p.toDelete, (p.http h).cachePath = []

theorem reach_sound (positive : 1 ≤ maxBackend)
    (reached : Reach Pool.Step (SingleFlight.Asked hostsubfolder XXH3_64bits)
      (· = Pool.initial maxBackend) p) : Sound maxBackend p :=
  ⟨reach_wellFormed positive reached, reach_filed reached, (reach_finished positive reached).dead,
    deleted_has_no_path positive reached⟩

namespace Sound

theorem shrink (sound : Sound limit (extend rest p)) : Sound limit p := by
  have kept (h : HttpId) (member : h ∈ p.toDelete) : h ∈ (extend rest p).toDelete :=
    List.mem_union_iff.mpr (.inl member)
  obtain ⟨w, filed, dead, nameless⟩ := sound
  refine ⟨?_, ?_, fun h member => dead h (kept h member),
    fun h member => nameless h (kept h member)⟩
  · exact { w with
      retired := fun h member => w.retired h (kept h member)
      scheduled := fun h member => w.scheduled h (kept h member) }
  · exact ⟨filed.consistent, filed.allocated, filed.quiet, filed.plain⟩

theorem forgotten (sound : Sound limit p) (member : h ∈ p.toDelete) : Forgotten h p where
  dead := sound.dead h member
  backend := (sound.wellFormed.retired h member).1
  backendList := (sound.wellFormed.retired h member).2
  clientsList := sound.filed.quiet h (sound.nameless h member)
  unqueued l queued := by
    have home := (sound.wellFormed.pending l h queued).2
    rw [(sound.wellFormed.retired h member).2] at home
    cases home
  uncarried l b busy carried := by
    obtain ⟨x, named, own⟩ := sound.wellFormed.busy l b busy (Option.some_ne_none b).symm
    obtain rfl : x = h := Option.some_inj.mp (named.symm.trans carried)
    rw [(sound.wellFormed.retired x member).1] at own
    cases own
  unlisted https path listed := by
    have named := sound.filed.consistent.named h (https, path) listed
    obtain ⟨filled, -, same⟩ := (PathMaps.name_eq_some_iff p h https path).mp named
    exact filled (same.symm.trans (sound.nameless h member))

theorem pathless (sound : Sound limit p) (forgotten : Forgotten h p) :
    (p.http h).cachePath = [] := by
  by_contra filled
  have named : (PathMaps.names p).name h = some ((p.http h).https, (p.http h).cachePath) :=
    (PathMaps.name_eq_some_iff p h _ _).mpr ⟨filled, rfl, rfl⟩
  exact forgotten.unlisted _ _ (sound.filed.consistent.listed h _ (Option.some_ne_none h).symm named)

theorem leads_old (sound : Sound limit p) {item : Item} (leads : Leads item h p) :
    h < p.newHttp := by
  have filled : (p.http h).cachePath ≠ [] → h < p.newHttp := sound.filed.allocated h
  rcases leads with ⟨https, path, listed⟩ | ⟨l, queued⟩ | clients | ⟨l, b, -, named⟩ |
    ⟨b, -, named⟩
  · have named := sound.filed.consistent.named h (https, path) listed
    obtain ⟨nonempty, -, same⟩ := (PathMaps.name_eq_some_iff p h https path).mp named
    exact filled (same ▸ nonempty)
  · by_contra late
    have home := (sound.wellFormed.pending l h queued).2
    rw [(sound.wellFormed.newHttp h (Nat.not_lt.mp late)).2.1] at home
    cases home
  · exact filled fun nameless => clients (sound.filed.quiet h nameless)
  · exact sound.wellFormed.http b h named
  · exact sound.wellFormed.http b h named

theorem listed_old (sound : Sound limit p) {l : ListId}
    (listed : b ∈ (p.list l).busy ++ (p.list l).idle) : b < p.newBackend := by
  by_contra late
  have home := sound.wellFormed.home l b listed
  rw [(sound.wellFormed.newBackend b (Nat.not_lt.mp late)).2] at home
  cases home

theorem linked_old (sound : Sound limit p) (own : (p.http h).backend = some b) :
    b < p.newBackend := by
  by_contra late
  have named := sound.wellFormed.back h b own
  rw [(sound.wellFormed.newBackend b (Nat.not_lt.mp late)).1] at named
  cases named

end Sound

theorem deleteBackend_list (l : ListId) :
    ((deleteBackend b p).list l).busy ++ ((deleteBackend b p).list l).idle =
      if (p.backend b).backendList = some l then (p.list l).busy.erase b ++ (p.list l).idle.erase b
      else (p.list l).busy ++ (p.list l).idle := by
  have left (q : Pool) (x : ListId) : ((leaveIdle x b (leaveBusy x b q)).list l).busy ++
      ((leaveIdle x b (leaveBusy x b q)).list l).idle =
        if some x = some l then (q.list l).busy.erase b ++ (q.list l).idle.erase b
        else (q.list l).busy ++ (q.list l).idle := by
    by_cases own : l = x
    · simp [leaveIdle, leaveBusy, own]
    · simp [leaveIdle, leaveBusy, own, Ne.symm own]
  have home : ((close b p).backend b).backendList = (p.backend b).backendList := by simp [close]
  unfold deleteBackend
  dsimp only
  cases ((close b p).backend b).http with
  | none =>
    dsimp only
    rw [home]
    cases (p.backend b).backendList with
    | none => rfl
    | some x => exact left _ x
  | some h =>
    dsimp only
    rw [setBackend_backend, if_pos rfl, setHttp_backend, home]
    cases (p.backend b).backendList with
    | none => rfl
    | some x => exact left _ x

theorem deleteBackend_backend :
    ((deleteBackend b p).backend b).http = none ∧ ((deleteBackend b p).backend b).isValid = false ∧
      (deleteBackend b p).newBackend = p.newBackend ∧
      (deleteBackend b p).toDelete = p.toDelete := by
  unfold deleteBackend
  dsimp only
  cases named : ((close b p).backend b).http with
  | none =>
    dsimp only
    split
    · exact ⟨named, by simp [close], rfl, rfl⟩
    · exact ⟨named, by simp [close, leaveIdle], rfl, rfl⟩
  | some h =>
    dsimp only
    split
    · exact ⟨by simp, by simp [close], rfl, rfl⟩
    · exact ⟨by simp [leaveIdle], by simp [close, leaveIdle], rfl, rfl⟩

theorem deleteBackend_discards (w : WellFormed limit none p) (old : b < p.newBackend) :
    Discarded b (deleteBackend b p) := by
  obtain ⟨free, closed, newBackend, -⟩ := deleteBackend_backend (b := b) (p := p)
  refine ⟨newBackend ▸ old, closed, fun l member => ?_, fun h own => ?_⟩
  · rw [deleteBackend_list] at member
    split at member
    · have nodup := List.nodup_append.mp (w.nodup l)
      rcases List.mem_append.mp member with busy | idle
      · exact nodup.1.not_mem_erase busy
      · exact nodup.2.1.not_mem_erase idle
    · rename_i elsewhere
      exact elsewhere (w.home l b member)
  · have after : WellFormed limit none (deleteBackend b p) := deleteBackend_wellFormed w
    rw [after.back h b own] at free
    cases free

theorem setHttp_setHttp (f g : Http → Http) :
    setHttp h g (setHttp h f p) = setHttp h (fun x => g (f x)) p := by
  simp [setHttp]

theorem destroys_forgotten (sound : Sound limit p) (forgotten : Forgotten h p)
    (destroyed : Destroys system h p p') :
    ∃ f : Http → Http, p' = setHttp h f p ∧ Less (p.http h) (f (p.http h)) := by
  obtain ⟨depth, returns⟩ := destroyed
  have run := returns 1
  have backend : ((disconnectFrontend h p).http h).backend = none := by
    simpa [disconnectFrontend] using forgotten.backend
  have stays : leavePending h (disconnectFrontend h p) = disconnectFrontend h p := by
    unfold leavePending
    rw [show ((disconnectFrontend h p).http h).backendList = none by
      simpa [disconnectFrontend] using forgotten.backendList]
  have unnamed (q : Pool) (nameless : (q.http h).cachePath = []) : unregister h q = q := by
    unfold unregister
    rw [nameless]
    rfl
  rw [disconnectBackend_waiting depth true backend, Option.some.injEq, stays] at run
  unfold retire disconnectFrontend at run
  dsimp only at run
  rw [Bool.not_true, Bool.and_false, if_neg Bool.false_ne_true, setHttp_setHttp,
    unnamed _ (by simpa using sound.pathless forgotten), setHttp_setHttp] at run
  exact ⟨_, run.symm, .inr rfl, .inr rfl, fun alive => by simp [Http.isAlive] at alive,
    List.nil_subset _, .inr rfl⟩

end pool

/-- What has been collected, in the order of its collection up to the last step. -/
def collectedBackend (m : Main) : List BackendId :=
  m.deletedBackend ++ m.oldDeleteBackend ++ m.newDeleteBackend

def collectedHttp (m : Main) : List HttpId := m.deletedHttp ++ m.oldDeleteHttp ++ m.newDeleteHttp

/-- What leads to the objects of a round in one of its states. -/
structure Present (m : Main) (p : Pool) : Prop where
  discarded : ∀ b ∈ m.deletedBackend, Discarded b p
  forgotten : ∀ h ∈ collectedHttp m, Forgotten h p
  atHand : ∀ b, .backend b ∈ m.phase.items → ∀ h, (p.backend b).http = some h →
    h ∉ collectedHttp m

theorem Present.relist (present : Present m p) (deleted : m'.deletedBackend ⊆ m.deletedBackend)
    (collected : collectedHttp m' ⊆ collectedHttp m) (items : m'.phase.items ⊆ m.phase.items) :
    Present m' p where
  discarded b member := present.discarded b (deleted member)
  forgotten h member := present.forgotten h (collected member)
  atHand b item h named member := present.atHand b (items item) h named (collected member)

structure Recent (limit : ℕ) (m : Main) (p : Pool) : Prop where
  sound : Sound limit p
  newHttp : p.newHttp ≤ m.pool.newHttp
  newBackend : p.newBackend ≤ m.pool.newBackend
  present : Present m p

/-- The lists of main and the pool agree. A closed backend may still have the Http it
has lost, which is deleted after it. -/
structure Safe (limit : ℕ) (m : Main) : Prop where
  finished : Finished m.pool
  settled : m.phase.quiet = true → m.pool.toDelete = []
  emptied : m.phase.quiet = false → m.newDeleteHttp = []
  backends : (collectedBackend m).Nodup
  closed : ∀ b ∈ collectedBackend m,
    b < m.pool.newBackend ∧ (m.pool.backend b).isValid = false
  items : m.phase.items.Nodup
  upcoming : ∀ b, .backend b ∈ m.phase.items → b < m.pool.newBackend ∧ b ∉ collectedBackend m
  https : (collectedHttp m).Nodup
  unscheduled : ∀ h ∈ collectedHttp m, h < m.pool.newHttp ∧ h ∉ m.pool.toDelete
  present : Present m m.pool
  newPointer : ∀ b ∈ m.newDeleteBackend, ∀ h, (m.pool.backend b).http = some h →
    h ∉ m.deletedHttp ++ m.oldDeleteHttp
  oldPointer : ∀ b ∈ m.oldDeleteBackend, ∀ h, (m.pool.backend b).http = some h →
    h ∉ m.deletedHttp
  seen : m.phase.quiet = false → ∀ p ∈ m.seen, Recent limit m p

theorem initial_safe (limit maxBackend : ℕ) : Safe limit (Main.initial maxBackend) where
  finished := ⟨List.nodup_nil, fun h member => by cases member⟩
  settled _ := rfl
  emptied _ := rfl
  backends := List.nodup_nil
  closed b member := by cases member
  items := List.nodup_nil
  upcoming b member := by cases member
  https := List.nodup_nil
  unscheduled h member := by cases member
  present := {
    discarded := fun b member => by cases member
    forgotten := fun h member => by cases member
    atHand := fun b member => by cases member }
  newPointer b member := by cases member
  oldPointer b member := by cases member
  seen moving := by cases moving

/-- What a change of the pool takes up again: nothing. -/
structure Advances (p p' : Pool) : Prop where
  newHttp : p.newHttp ≤ p'.newHttp
  newBackend : p.newBackend ≤ p'.newBackend
  closed : ∀ b < p.newBackend, (p.backend b).isValid = false → (p'.backend b).isValid = false
  discarded : ∀ b, Discarded b p → Discarded b p'
  forgotten : ∀ h < p.newHttp, Forgotten h p → Forgotten h p' ∧
    ∀ b, (p'.backend b).http = some h → (p.backend b).http = some h
  unscheduled : ∀ h < p.newHttp, Forgotten h p → h ∉ p.toDelete → h ∉ p'.toDelete
  finished : Finished p → Finished p'

theorem Advances.of_step {e : System × Event} (w : WellFormed limit none p)
    (taken : Pool.Step e p p') : Advances p p' where
  newHttp := chain_newHttp (step_chain w taken)
  newBackend := step_newBackend w taken
  closed _ old closed := step_closed w taken old closed
  discarded _ discarded := step_discarded w taken discarded
  forgotten _ old forgotten := step_forgotten w taken old forgotten
  unscheduled _ old forgotten unscheduled := step_unscheduled w taken old forgotten.dead unscheduled
  finished finished := step_finished w taken finished

theorem Advances.setHttp {f : Http → Http} (less : Less (p.http h) (f (p.http h))) :
    Advances p (Pool.setHttp h f p) where
  newHttp := Nat.le_refl _
  newBackend := Nat.le_refl _
  closed _ _ closed := closed
  discarded _ discarded := discarded.setHttp less.backend
  forgotten _ _ forgotten := ⟨forgotten.setHttp fun own => own ▸ less, fun _ named => named⟩
  unscheduled _ _ _ unscheduled := unscheduled
  finished := by
    have move : Move ⟨fun _ => .closed, 0⟩ 0 (fun _ => True) p (Pool.setHttp h f p) :=
      .http h f less
    exact move_finished move

namespace Safe

theorem present_advance (safe : Safe limit m) {pool : Pool} (advances : Advances m.pool pool) :
    Present m pool where
  discarded b member := advances.discarded b (safe.present.discarded b member)
  forgotten h member :=
    (advances.forgotten h (safe.unscheduled h member).1 (safe.present.forgotten h member)).1
  atHand b item h named member := by
    have before := (advances.forgotten h (safe.unscheduled h member).1
      (safe.present.forgotten h member)).2 b named
    exact safe.present.atHand b item h before member

theorem advance (safe : Safe limit m) {pool : Pool} (advances : Advances m.pool pool)
    (settled : m.phase.quiet = true → pool.toDelete = []) :
    Safe limit { m with pool := pool } where
  finished := advances.finished safe.finished
  settled := settled
  emptied := safe.emptied
  backends := safe.backends
  closed b member := by
    obtain ⟨old, closed⟩ := safe.closed b member
    exact ⟨Nat.lt_of_lt_of_le old advances.newBackend, advances.closed b old closed⟩
  items := safe.items
  upcoming b item :=
    ⟨Nat.lt_of_lt_of_le (safe.upcoming b item).1 advances.newBackend, (safe.upcoming b item).2⟩
  https := safe.https
  unscheduled h member := by
    obtain ⟨old, unscheduled⟩ := safe.unscheduled h member
    exact ⟨Nat.lt_of_lt_of_le old advances.newHttp,
      advances.unscheduled h old (safe.present.forgotten h member) unscheduled⟩
  present := (safe.present_advance advances).relist (List.Subset.refl _) (List.Subset.refl _)
    (List.Subset.refl _)
  newPointer b collected h named member := by
    have member' : h ∈ collectedHttp m := List.mem_append_left _ member
    have before := (advances.forgotten h (safe.unscheduled h member').1
      (safe.present.forgotten h member')).2 b named
    exact safe.newPointer b collected h before member
  oldPointer b collected h named member := by
    have member' : h ∈ collectedHttp m := List.mem_append_left _ (List.mem_append_left _ member)
    have before := (advances.forgotten h (safe.unscheduled h member').1
      (safe.present.forgotten h member')).2 b named
    exact safe.oldPointer b collected h before member
  seen moving p member := by
    obtain ⟨sound, newHttp, newBackend, present⟩ := safe.seen moving p member
    exact ⟨sound, newHttp.trans advances.newHttp, newBackend.trans advances.newBackend,
      present.relist (List.Subset.refl _) (List.Subset.refl _) (List.Subset.refl _)⟩

theorem wait (safe : Safe limit m) (sound : Sound limit m.pool) {events : List Item}
    (phase : m.phase = .waiting) (once : events.Nodup)
    (opened : ∀ b, .backend b ∈ events →
      b < m.pool.newBackend ∧ (m.pool.backend b).isValid = true) :
    Safe limit { m with phase := .deleting events } where
  finished := safe.finished
  settled _ := safe.settled (phase ▸ rfl)
  emptied moving := by cases moving
  backends := safe.backends
  closed := safe.closed
  items := once
  upcoming b item := by
    refine ⟨(opened b item).1, fun member => ?_⟩
    have closed := (safe.closed b member).2
    rw [(opened b item).2] at closed
    cases closed
  https := safe.https
  unscheduled := safe.unscheduled
  present := by
    refine ⟨safe.present.discarded, safe.present.forgotten, fun b item h named member => ?_⟩
    -- an open backend with a request is busy with it
    obtain ⟨l, busy⟩ := sound.wellFormed.carried b h named (opened b item).2
      (Option.some_ne_none b).symm
    exact (safe.present.forgotten h member).uncarried l b busy named
  newPointer := safe.newPointer
  oldPointer := safe.oldPointer
  seen moving := by cases moving

theorem deleteBackend (safe : Safe limit m) (sound : Sound limit m.pool) {events : List Item}
    {rest : List BackendId} (phase : m.phase = .deleting events)
    (first : m.oldDeleteBackend = b :: rest)
    (advances : Advances m.pool (Pool.deleteBackend b m.pool)) :
    Safe limit { m with
      pool := Pool.deleteBackend b m.pool
      oldDeleteBackend := rest
      deletedBackend := m.deletedBackend ++ [b] } := by
  have safe' := safe.advance advances fun quiet =>
    deleteBackend_backend.2.2.2.trans (safe.settled quiet)
  have same : (m.deletedBackend ++ [b] ++ rest ++ m.newDeleteBackend).Perm (collectedBackend m) :=
    .of_eq (by simp [collectedBackend, first])
  have discarded : Discarded b (Pool.deleteBackend b m.pool) :=
    deleteBackend_discards sound.wellFormed (safe.closed b (by simp [collectedBackend, first])).1
  refine ⟨safe'.finished, safe'.settled, safe'.emptied, ?_, ?_, safe'.items, ?_, safe'.https,
    safe'.unscheduled, ⟨?_, safe'.present.forgotten, safe'.present.atHand⟩, safe'.newPointer, ?_, ?_⟩
  · exact same.nodup_iff.mpr safe.backends
  · intro c member
    exact safe'.closed c (same.subset member)
  · intro c item
    exact ⟨(safe'.upcoming c item).1,
      fun member => (safe'.upcoming c item).2 (same.subset member)⟩
  · intro c member
    rcases List.mem_append.mp member with before | last
    · exact safe'.present.discarded c before
    · exact List.mem_singleton.mp last ▸ discarded
  · intro c member
    exact safe'.oldPointer c (first ▸ List.mem_cons_of_mem b member)
  · intro moving
    rw [phase] at moving
    cases moving

theorem deleteHttp (safe : Safe limit m) (sound : Sound limit m.pool) {events : List Item}
    {pool : Pool} (phase : m.phase = .deleting events) (backends : m.oldDeleteBackend = [])
    (member : h ∈ m.oldDeleteHttp) (destroyed : Destroys system h m.pool pool) :
    Safe limit { m with
      pool := pool
      oldDeleteHttp := m.oldDeleteHttp.erase h
      deletedHttp := m.deletedHttp ++ [h] } := by
  have collected : h ∈ collectedHttp m := by simp [collectedHttp, member]
  obtain ⟨f, rfl, less⟩ := destroys_forgotten sound (safe.present.forgotten h collected) destroyed
  have safe' := safe.advance (.setHttp less) safe.settled
  have moved : (m.deletedHttp ++ [h] ++ m.oldDeleteHttp.erase h).Perm
      (m.deletedHttp ++ m.oldDeleteHttp) := by
    rw [List.append_assoc]
    exact (List.perm_cons_erase member).symm.append_left _
  have same : (m.deletedHttp ++ [h] ++ m.oldDeleteHttp.erase h ++ m.newDeleteHttp).Perm
      (collectedHttp m) := moved.append_right _
  refine ⟨safe'.finished, safe'.settled, safe'.emptied, safe'.backends, safe'.closed,
    safe'.items, safe'.upcoming, same.nodup_iff.mpr safe.https, ?_, ?_, ?_, ?_, ?_⟩
  · intro x member
    exact safe'.unscheduled x (same.mem_iff.mp member)
  · exact safe'.present.relist (List.Subset.refl _) same.subset (List.Subset.refl _)
  · intro b new x named member
    exact safe'.newPointer b new x named (moved.mem_iff.mp member)
  · intro b old
    rw [backends] at old
    cases old
  · intro moving
    rw [phase] at moving
    cases moving

theorem rotate (safe : Safe limit m) (sound : Sound limit m.pool) {events : List Item}
    (phase : m.phase = .deleting events) (backends : m.oldDeleteBackend = [])
    (https : m.oldDeleteHttp = []) :
    Safe limit { m with
      oldDeleteBackend := m.newDeleteBackend
      newDeleteBackend := []
      oldDeleteHttp := m.newDeleteHttp
      newDeleteHttp := []
      phase := .dispatching events
      seen := [m.pool] } := by
  have sameBackends : (m.deletedBackend ++ m.newDeleteBackend ++ []).Perm (collectedBackend m) :=
    .of_eq (by simp [collectedBackend, backends])
  have sameHttps : (m.deletedHttp ++ m.newDeleteHttp ++ []).Perm (collectedHttp m) :=
    .of_eq (by simp [collectedHttp, https])
  have items : events = m.phase.items := by
    rw [phase]
    rfl
  have present (m' : Main) (deleted : m'.deletedBackend = m.deletedBackend)
      (collected : (collectedHttp m').Perm (collectedHttp m)) (still : m'.phase.items = events) :
      Present m' m.pool := by
    refine safe.present.relist ?_ collected.subset ?_
    · rw [deleted]
      exact List.Subset.refl _
    · rw [still, items]
      exact List.Subset.refl _
  refine ⟨safe.finished, (fun quiet => by cases quiet), fun _ => rfl, ?_, ?_, ?_, ?_, ?_, ?_, ?_,
    (fun b member => by cases member), ?_, ?_⟩
  · exact sameBackends.nodup_iff.mpr safe.backends
  · intro b member
    exact safe.closed b (sameBackends.subset member)
  · exact items ▸ safe.items
  · intro b item
    obtain ⟨old, uncollected⟩ := safe.upcoming b (items ▸ item)
    exact ⟨old, fun member => uncollected (sameBackends.subset member)⟩
  · exact sameHttps.nodup_iff.mpr safe.https
  · intro h member
    exact safe.unscheduled h (sameHttps.subset member)
  · exact present _ rfl sameHttps rfl
  · intro b member h named deleted
    exact safe.newPointer b member h named (List.mem_append_left _ deleted)
  · intro _ p member
    obtain rfl := List.mem_singleton.mp member
    exact ⟨sound, Nat.le_refl _, Nat.le_refl _, present _ rfl sameHttps rfl⟩

theorem next (safe : Safe limit m) {item : Item} {events : List Item}
    (phase : m.phase = .dispatching (item :: events)) :
    Safe limit { m with phase := .running item events } := by
  have items : m.phase.items = item :: events := by
    rw [phase]
    rfl
  have moving : m.phase.quiet = false := by
    rw [phase]
    rfl
  have relist {p : Pool} (present : Present m p) :
      Present { m with phase := .running item events } p :=
    present.relist (List.Subset.refl _) (List.Subset.refl _) fun _ => items.symm ▸ id
  refine ⟨safe.finished, (fun quiet => by cases quiet), fun _ => safe.emptied moving, safe.backends,
    safe.closed, ?_, fun b item => safe.upcoming b (items ▸ item), safe.https,
    safe.unscheduled, relist safe.present, safe.newPointer, safe.oldPointer, fun _ p member => ?_⟩
  · change (item :: events).Nodup
    exact items ▸ safe.items
  · obtain ⟨sound, newHttp, newBackend, present⟩ := safe.seen moving p member
    exact ⟨sound, newHttp, newBackend, relist present⟩

theorem see (safe : Safe limit m) (sound : Sound limit m.pool) :
    Safe limit { m with seen := m.seen ++ [m.pool] } := by
  have relist {p : Pool} (present : Present m p) :
      Present { m with seen := m.seen ++ [m.pool] } p :=
    present.relist (List.Subset.refl _) (List.Subset.refl _) (List.Subset.refl _)
  refine ⟨safe.finished, safe.settled, safe.emptied, safe.backends, safe.closed, safe.items,
    safe.upcoming, safe.https, safe.unscheduled, relist safe.present, safe.newPointer,
    safe.oldPointer, fun moving p member => ?_⟩
  rcases List.mem_append.mp member with before | last
  · obtain ⟨sound, newHttp, newBackend, present⟩ := safe.seen moving p before
    exact ⟨sound, newHttp, newBackend, relist present⟩
  · obtain rfl := List.mem_singleton.mp last
    exact ⟨sound, Nat.le_refl _, Nat.le_refl _, relist safe.present⟩

theorem finish (safe : Safe limit m) {item : Item} {events : List Item}
    (phase : m.phase = .running item events) :
    Safe limit { m with newDeleteBackend := collected item m, phase := .dispatching events } := by
  have items : m.phase.items = item :: events := by
    rw [phase]
    rfl
  have moving : m.phase.quiet = false := by
    rw [phase]
    rfl
  have nodup : item ∉ events ∧ events.Nodup := List.nodup_cons.mp (items ▸ safe.items)
  have later {i : Item} (member : i ∈ events) : i ∈ m.phase.items :=
    items ▸ List.mem_cons_of_mem item member
  have closing {b : BackendId} (new : b ∈ collected item m) : b ∈ m.newDeleteBackend ∨
      item = .backend b ∧ (m.pool.backend b).isValid = false := by
    unfold collected at new
    split at new
    · split at new
      · exact .inl new
      · rename_i c invalid
        rcases List.mem_append.mp new with before | last
        · exact .inl before
        · obtain rfl := List.mem_singleton.mp last
          exact .inr ⟨rfl, Bool.eq_false_iff.mpr invalid⟩
    · exact .inl new
  have collecting {b : BackendId}
      (member : b ∈ m.deletedBackend ++ m.oldDeleteBackend ++ collected item m) :
      b ∈ collectedBackend m ∨ item = .backend b ∧ (m.pool.backend b).isValid = false := by
    rcases List.mem_append.mp member with before | new
    · exact .inl (List.mem_append_left _ before)
    · exact (closing new).imp_left fun before => List.mem_append_right _ before
  have own {b : BackendId} (same : item = .backend b) : .backend b ∈ m.phase.items :=
    items ▸ same ▸ List.mem_cons_self
  have relist {p : Pool} (present : Present m p) :
      Present { m with newDeleteBackend := collected item m, phase := .dispatching events } p :=
    present.relist (List.Subset.refl _) (List.Subset.refl _) fun _ => later
  refine ⟨safe.finished, (fun quiet => by cases quiet), fun _ => safe.emptied moving, ?_, ?_,
    nodup.2, ?_, safe.https, safe.unscheduled, relist safe.present, ?_, safe.oldPointer, ?_⟩
  · change (m.deletedBackend ++ m.oldDeleteBackend ++ collected item m).Nodup
    unfold collected
    split
    · split
      · exact safe.backends
      · rename_i b invalid
        rw [← List.append_assoc, ← List.concat_eq_append]
        exact safe.backends.concat (safe.upcoming b (own rfl)).2
    · exact safe.backends
  · intro b member
    rcases collecting member with before | ⟨same, closed⟩
    · exact safe.closed b before
    · exact ⟨(safe.upcoming b (own same)).1, closed⟩
  · intro b member
    obtain ⟨old, uncollected⟩ := safe.upcoming b (later member)
    refine ⟨old, fun wrong => ?_⟩
    rcases collecting wrong with before | ⟨same, -⟩
    · exact uncollected before
    · exact nodup.1 (same ▸ member)
  · intro b new h named
    rcases closing new with before | ⟨same, -⟩
    · exact safe.newPointer b before h named
    · intro wrong
      exact safe.present.atHand b (own same) h named (List.mem_append_left _ wrong)
  · intro _ p member
    obtain ⟨sound, newHttp, newBackend, present⟩ := safe.seen moving p member
    exact ⟨sound, newHttp, newBackend, relist present⟩

theorem turn (safe : Safe limit m) (sound : Sound limit m.pool) (phase : m.phase = .dispatching []) :
    Safe limit { m with
      newDeleteHttp := m.newDeleteHttp ∪ m.pool.toDelete
      pool := { m.pool with toDelete := [] }
      phase := .waiting } := by
  have emptied : m.newDeleteHttp = [] := safe.emptied (by rw [phase]; rfl)
  have before : collectedHttp m = m.deletedHttp ++ m.oldDeleteHttp := by
    simp [collectedHttp, emptied]
  have now : m.newDeleteHttp ∪ m.pool.toDelete = m.pool.toDelete := by
    rw [emptied]
    rfl
  have cases {h : HttpId}
      (member : h ∈ m.deletedHttp ++ m.oldDeleteHttp ++ (m.newDeleteHttp ∪ m.pool.toDelete)) :
      h ∈ collectedHttp m ∨ h ∈ m.pool.toDelete := by
    rw [now, ← before] at member
    exact List.mem_append.mp member
  refine ⟨⟨List.nodup_nil, fun h member => by cases member⟩, fun _ => rfl,
    (fun moving => by cases moving), safe.backends, safe.closed, List.nodup_nil,
    (fun b member => by cases member), ?_, ?_, ⟨fun b member => { safe.present.discarded b member with }, ?_,
    (fun b member => by cases member)⟩, safe.newPointer, safe.oldPointer,
    (fun moving => by cases moving)⟩
  · change (m.deletedHttp ++ m.oldDeleteHttp ++ (m.newDeleteHttp ∪ m.pool.toDelete)).Nodup
    rw [now, ← before, List.nodup_append']
    exact ⟨safe.https, safe.finished.nodup, fun h member => (safe.unscheduled h member).2⟩
  · intro h member
    refine ⟨?_, List.not_mem_nil⟩
    rcases cases member with collected | scheduled
    · exact (safe.unscheduled h collected).1
    · exact sound.wellFormed.scheduled h scheduled
  · intro h member
    have forgotten : Forgotten h m.pool := by
      rcases cases member with collected | scheduled
      · exact safe.present.forgotten h collected
      · exact sound.forgotten scheduled
    exact { forgotten with }

end Safe

/-- A pointer that an event has read leads to an object that exists. -/
theorem enabled_of_callable (safe : Safe limit m) {item : Item} {events : List Item}
    (phase : m.phase = .running item events) {e : Event} (callable : Callable m item e) :
    Enabled m.pool e := by
  have moving : m.phase.quiet = false := by
    rw [phase]
    rfl
  have http {h : HttpId} (read : ∃ p ∈ m.seen, Leads item h p) : h < m.pool.newHttp := by
    obtain ⟨p, member, leads⟩ := read
    have recent := safe.seen moving p member
    exact Nat.lt_of_lt_of_le (recent.sound.leads_old leads) recent.newHttp
  have backend {b : BackendId} (read : ∃ p ∈ m.seen, LeadsBackend item b p) :
      b < m.pool.newBackend := by
    obtain ⟨p, member, same | ⟨l, listed⟩ | ⟨h, -, own⟩⟩ := read
    · refine (safe.upcoming b ?_).1
      rw [phase, same]
      exact List.mem_cons_self
    · have recent := safe.seen moving p member
      exact Nat.lt_of_lt_of_le (recent.sound.listed_old listed) recent.newBackend
    · have recent := safe.seen moving p member
      exact Nat.lt_of_lt_of_le (recent.sound.linked_old own) recent.newBackend
  cases e with
  | dnsRight r s => trivial
  | loadUrl r => trivial
  | statusLine h http_code => exact ⟨http callable.1, callable.2⟩
  | remoteSocketClosed b => exact backend callable
  | startHttpsFails b => exact backend callable
  | backendTimeout b => exact backend callable
  | deleteBackend b => exact callable.elim
  | deleteHttp h => exact callable.elim
  | removeClient h client => exact http callable
  | readyToWrite h => exact http callable
  | disconnectFrontend h => exact http callable
  | flushRead h => exact http callable
  | endOfBody h => exact http callable
  | httpTimeout h => exact http callable

theorem Advances.refl (p : Pool) : Advances p p :=
  ⟨Nat.le_refl _, Nat.le_refl _, fun _ _ closed => closed, fun _ discarded => discarded,
    fun _ _ forgotten => ⟨forgotten, fun _ named => named⟩, fun _ _ _ unscheduled => unscheduled, id⟩

/-- No step of main takes anything up again. -/
theorem step_advances (safe : Safe limit m) (sound : Sound limit m.pool)
    (taken : MainLoop.Step label m m') : Advances m.pool m'.pool := by
  -- what a deletion asks of the system does not matter
  let system : System := ⟨fun _ => .closed, 0⟩
  cases taken with
  | @deleteClient _ events client h phase member =>
    have leads : Leads (.client client) h m.pool :=
      .inr (.inr (.inl (List.ne_nil_of_mem member)))
    have left : Pool.Step (system, .removeClient h client) m.pool (removeClient h client m.pool) :=
      ⟨sound.leads_old leads, 0, fun _ => rfl⟩
    exact .of_step sound.wellFormed left
  | @deleteBackend _ events b old phase first =>
    have left : Pool.Step (system, .deleteBackend b) m.pool (Pool.deleteBackend b m.pool) :=
      ⟨safe.closed b (by simp [collectedBackend, first]), 0, fun _ => rfl⟩
    exact .of_step sound.wellFormed left
  | @deleteHttp _ events system h pool phase backends member destroyed =>
    have forgotten := safe.present.forgotten h (by simp [collectedHttp, member])
    obtain ⟨f, rfl, less⟩ := destroys_forgotten sound forgotten destroyed
    exact .setHttp less
  | call phase callable returns =>
    exact .of_step sound.wellFormed ⟨enabled_of_callable safe phase callable, returns⟩
  | turn phase =>
    obtain ⟨newHttp, newBackend, closed, discarded, forgotten, -, -⟩ := Advances.refl m.pool
    refine ⟨newHttp, newBackend, closed, fun b before => { before with },
      fun h _ before => ⟨{ before with }, fun _ named => named⟩, fun _ _ _ _ => List.not_mem_nil,
      fun _ => ⟨List.nodup_nil, fun h member => by cases member⟩⟩
  | _ => exact .refl _

end FastCgiCdn.LoopInvariant
