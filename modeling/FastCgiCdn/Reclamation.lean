import FastCgiCdn.LoopInvariant

/-! What main deletes, over whole runs. The pool inside main runs as it does by itself,
so that whatever holds of the pool holds under main. No list and no event leads to what has
been deleted, nothing is deleted twice, and what has been collected is deleted two rounds
later. -/

namespace FastCgiCdn.Reclamation

open GuardedRuns DnsModel PoolModel Pool PoolInvariant PoolWellFormed SingleFlight
open ScheduledFrame LastReferences MainLoop LoopInvariant

variable {maxBackend : ℕ} {hostsubfolder : Bool} {XXH3_64bits : Bytes → UInt64}
variable {p p' q : Pool} {b : BackendId} {h : HttpId} {rest : List HttpId}
variable {m m' : Main} {label : Label}

/-- The pool of main, with what main has collected counted as scheduled. -/
def Shows (q : Pool) (m : Main) : Prop :=
  ∃ rest : List HttpId, q = extend rest m.pool ∧
    ∀ h, h ∈ rest ↔ h ∈ m.newDeleteHttp ∨ h ∈ m.oldDeleteHttp

theorem step_extend {e : System × Event} (kept : ∀ h, e.2 ≠ .deleteHttp h)
    (taken : Pool.Step e p p') : Pool.Step e (extend rest p) (extend rest p') := by
  obtain ⟨enabled, depth, returns⟩ := taken
  refine ⟨?_, depth, fun more => ?_⟩
  · obtain ⟨system, e⟩ := e
    cases e with
    | deleteHttp h => exact absurd rfl (kept h)
    | _ => exact enabled
  · rw [perform_extend kept, returns more, Option.map_some]

theorem step_deleteHttp (sound : Sound limit p) (settled : p.toDelete = [])
    (forgotten : Forgotten h p) (member : h ∈ rest) (destroyed : Destroys system h p p') :
    Pool.Step (system, .deleteHttp h) (extend rest p) (extend (rest.erase h) p') := by
  obtain ⟨f, rfl, -⟩ := destroys_forgotten sound forgotten destroyed
  obtain ⟨depth, returns⟩ := destroyed
  refine ⟨?_, depth, fun more => ?_⟩
  · exact List.mem_union_iff.mpr (.inr member)
  · rw [perform, Pool.deleteHttp, disconnectFrontend_extend, disconnectBackend_extend,
      returns more, Option.map_some, Option.map_some]
    have scheduled : ((setHttp h f p).toDelete ∪ rest).erase h =
        (setHttp h f p).toDelete ∪ rest.erase h := by
      rw [show (setHttp h f p).toDelete = [] from settled]
      rfl
    unfold extend
    rw [← scheduled]

/-- The pool of main is one that the pool reaches by itself, and its lists are safe. -/
def Follows (hostsubfolder : Bool) (XXH3_64bits : Bytes → UInt64) (maxBackend : ℕ) (m : Main) :
    Prop :=
  Safe maxBackend m ∧ ∃ q, Reach Pool.Step (SingleFlight.Asked hostsubfolder XXH3_64bits)
    (· = Pool.initial maxBackend) q ∧ Shows q m

theorem waiting_ends (system : System) (waits : (p.http h).backend = none) :
    Returns (system, .endOfBody h) p
      (retire false h (leavePending h (disconnectFrontend h p))) := by
  refine ⟨1, fun more => ?_⟩
  rw [Nat.add_comm]
  exact disconnectBackend_waiting more false (by simpa [disconnectFrontend] using waits)

theorem waiting_destroyed (system : System) (waits : (p.http h).backend = none) :
    Destroys system h p (retire true h (leavePending h (disconnectFrontend h p))) := by
  refine ⟨1, fun more => ?_⟩
  rw [Nat.add_comm]
  exact disconnectBackend_waiting more true (by simpa [disconnectFrontend] using waits)

/-- A step of main is one step of the pool, or none. -/
theorem step_follows (positive : 1 ≤ maxBackend)
    (follows : Follows hostsubfolder XXH3_64bits maxBackend m)
    (asked : MainLoop.Asked hostsubfolder XXH3_64bits label m) (taken : MainLoop.Step label m m') :
    Follows hostsubfolder XXH3_64bits maxBackend m' := by
  obtain ⟨safe, q, reached, rest, rfl, collected⟩ := follows
  have own : Sound maxBackend m.pool := (reach_sound positive reached).shrink
  have advances := step_advances safe own taken
  -- what a deletion asks of the system does not matter
  let system : System := ⟨fun _ => .closed, 0⟩
  cases taken with
  | wait phase once opened =>
    exact ⟨safe.wait own phase once opened, _, reached, rest, rfl, collected⟩
  | @deleteClient _ events client h phase member =>
    have leads : Leads (.client client) h m.pool :=
      .inr (.inr (.inl (List.ne_nil_of_mem member)))
    have left : Pool.Step (system, .removeClient h client) m.pool (removeClient h client m.pool) :=
      ⟨own.leads_old leads, 0, fun _ => rfl⟩
    refine ⟨safe.advance advances safe.settled, _, ?_, rest, rfl, collected⟩
    exact reached.next (e := (system, .removeClient h client)) trivial
      (step_extend (fun _ => Event.noConfusion) left)
  | @deleteBackend _ events b old phase first =>
    have closed := safe.closed b (by simp [collectedBackend, first])
    have left : Pool.Step (system, .deleteBackend b) m.pool (Pool.deleteBackend b m.pool) :=
      ⟨closed, 0, fun _ => rfl⟩
    refine ⟨safe.deleteBackend own phase first advances, _, ?_, rest, rfl,
      collected⟩
    exact reached.next (e := (system, .deleteBackend b)) trivial
      (step_extend (fun _ => Event.noConfusion) left)
  | @deleteHttp _ events system h pool phase backends member destroyed =>
    have forgotten := safe.present.forgotten h (by simp [collectedHttp, member])
    have settled : m.pool.toDelete = [] := safe.settled (by rw [phase]; rfl)
    have nodup : (m.pool.toDelete ∪ rest).Nodup := (reach_finished positive reached).nodup
    rw [settled, List.nil_union] at nodup
    have https := List.nodup_append'.mp safe.https
    have left := step_deleteHttp own settled forgotten ((collected h).mpr (.inr member)) destroyed
    refine ⟨safe.deleteHttp own phase backends member destroyed, _,
      reached.next (e := (system, .deleteHttp h)) trivial left, rest.erase h, rfl, fun x => ?_⟩
    have apart : h ∉ m.newDeleteHttp := https.2.2 (List.mem_append_right _ member)
    rw [nodup.mem_erase_iff, (List.nodup_append'.mp https.1).2.1.mem_erase_iff, collected]
    constructor
    · intro left
      exact left.2.imp_right fun old => ⟨left.1, old⟩
    · intro member
      cases member with
      | inl new => exact ⟨fun same => apart (same ▸ new), .inl new⟩
      | inr old => exact ⟨old.1, .inr old.2⟩
  | rotate phase backends https =>
    refine ⟨safe.rotate own phase backends https, _, reached, rest, rfl, fun h => ?_⟩
    rw [collected, https]
    simp
  | next phase => exact ⟨safe.next phase, _, reached, rest, rfl, collected⟩
  | @call _ item events e pool phase callable returns =>
    have called : Pool.Step e m.pool pool := ⟨enabled_of_callable safe phase callable, returns⟩
    have kept (h : HttpId) : e.2 ≠ .deleteHttp h := by
      intro same
      rw [same] at callable
      exact callable
    have reached' := reached.next asked (step_extend kept called)
    have safe' := safe.advance advances fun quiet => by
      rw [phase] at quiet
      cases quiet
    exact ⟨safe'.see (reach_sound positive reached').shrink, _, reached', rest, rfl, collected⟩
  | finish phase => exact ⟨safe.finish phase, _, reached, rest, rfl, collected⟩
  | turn phase =>
    refine ⟨safe.turn own phase, _, reached, m.pool.toDelete ∪ rest, rfl, fun h => ?_⟩
    rw [List.mem_union_iff, collected, List.mem_union_iff]
    tauto

theorem reach_follows (positive : 1 ≤ maxBackend)
    (reached : Reach MainLoop.Step (MainLoop.Asked hostsubfolder XXH3_64bits)
      (· = Main.initial maxBackend) m) : Follows hostsubfolder XXH3_64bits maxBackend m := by
  induction reached with
  | start first =>
    subst first
    exact ⟨initial_safe maxBackend maxBackend, _, .start rfl, [], rfl, by simp [Main.initial]⟩
  | next _ asked taken ih => exact step_follows positive ih asked taken

abbrev Runs (hostsubfolder : Bool) (XXH3_64bits : Bytes → UInt64) (maxBackend : ℕ) : Main → Prop :=
  Reach MainLoop.Step (MainLoop.Asked hostsubfolder XXH3_64bits) (· = Main.initial maxBackend)

inductive Rounds : ℕ → Main → Main → Prop
  | refl (m : Main) : Rounds 0 m m
  | step {n : ℕ} {m m' m'' : Main} {label : Label} (before : Rounds n m m')
      (other : label ≠ .turn) (taken : MainLoop.Step label m' m'') : Rounds n m m''
  | turn {n : ℕ} {m m' m'' : Main} (before : Rounds n m m') (taken : MainLoop.Step .turn m' m'') :
      Rounds (n + 1) m m''

theorem Rounds.trans {n k : ℕ} {m'' : Main} (first : Rounds n m m') (last : Rounds k m' m'') :
    Rounds (n + k) m m'' := by
  induction last with
  | refl => exact first
  | step _ other taken ih => exact (ih first).step other taken
  | turn _ taken ih => exact (ih first).turn taken

theorem Rounds.single (other : label ≠ .turn) (taken : MainLoop.Step label m m') :
    Rounds 0 m m' := (Rounds.refl m).step other taken

abbrev Short : Main → Prop := Runs true CacheKeys.XXH3_len_0to16_64b 1

/-- A run with the rounds that have ended since one of its states. -/
def Since (n : ℕ) (m m' : Main) : Prop := Short m' ∧ Rounds n m m'

theorem Since.step {n : ℕ} {m'' : Main} (run : Since n m m') (e : Label) (other : e ≠ .turn)
    (asked : MainLoop.Asked true CacheKeys.XXH3_len_0to16_64b e m')
    (taken : MainLoop.Step e m' m'') : Since n m m'' :=
  ⟨run.1.next asked taken, run.2.step other taken⟩

theorem Since.turn {n : ℕ} {m'' : Main} (run : Since n m m')
    (taken : MainLoop.Step .turn m' m'') : Since (n + 1) m m'' :=
  ⟨run.1.next (e := .turn) trivial taken, run.2.turn taken⟩

def refusing : System := ⟨fun _ => .closed, 1000000⟩

theorem failed_page_is_deleted : ∃ m m' m'', Short m ∧ m.phase = .running .dns [] ∧
    m.pool.toDelete = [0] ∧ (∃ p ∈ m.seen, Leads .dns 0 p) ∧ Short m' ∧ m'.oldDeleteHttp = [0] ∧
    Since 3 m m'' := by
  obtain ⟨c, cs, path⟩ := List.exists_cons_of_ne_nil
    (cachePath_ne_nil true CacheKeys.XXH3_len_0to16_64b ⟨false, [97], [47], []⟩)
  let r : Request := ⟨false, c :: cs, [97], [47], [], 7⟩
  have waited : Short _ := .next (e := .wait [.dns]) (.start rfl) trivial
    (.wait rfl (List.nodup_singleton _) fun b item => by cases item with | tail _ none => cases none)
  have rotated : Short _ := waited.next (e := .rotate) trivial (.rotate rfl rfl rfl)
  have running : Short _ := rotated.next (e := .next) trivial (.next rfl)
  have asked : Short _ := running.next (e := .call (refusing, .dnsRight r ⟨.zero, 80⟩)) path.symm
    (.call rfl trivial ⟨0, fun _ => rfl⟩)
  have leads {p : Pool} (follows : (p.http 0).clientsList = [7]) : Leads .dns 0 p :=
    .inr (.inr (.inl (follows ▸ List.cons_ne_nil 7 [])))
  have ended : Short _ := asked.next (e := .call (refusing, .endOfBody 0)) trivial
    (.call rfl ⟨_, List.mem_append_right _ (List.mem_singleton.mpr rfl), leads rfl⟩
      (waiting_ends refusing rfl))
  have finished : Since 0 _ _ := .step ⟨ended, .refl _⟩ .finish Label.noConfusion trivial
    (.finish rfl)
  have first : Since 1 _ _ := finished.turn (.turn rfl)
  have waited' : Since 1 _ _ := first.step (.wait []) Label.noConfusion trivial
    (.wait rfl List.nodup_nil fun b item => by cases item)
  have rotated' : Since 1 _ _ := waited'.step .rotate Label.noConfusion trivial
    (.rotate rfl rfl rfl)
  have second : Since 2 _ _ := rotated'.turn (.turn rfl)
  have deleting : Since 2 _ _ := second.step (.wait []) Label.noConfusion trivial
    (.wait rfl List.nodup_nil fun b item => by cases item)
  have deleted : Since 2 _ _ := deleting.step (.deleteHttp refusing 0) Label.noConfusion trivial
    (.deleteHttp rfl rfl List.mem_cons_self (waiting_destroyed refusing rfl))
  have rotated'' : Since 2 _ _ := deleted.step .rotate Label.noConfusion trivial
    (.rotate rfl rfl rfl)
  exact ⟨_, _, _, ended, rfl, rfl, ⟨_, List.mem_append_left _ (List.mem_append_right _
    (List.mem_singleton.mpr rfl)), leads (by rfl)⟩, deleting.1, rfl, rotated''.turn (.turn rfl)⟩

/-- The pool inside main runs as it does by itself, if an Http counts as scheduled from
the end of its download to its deletion. -/
theorem main_runs_pool (positive : 1 ≤ maxBackend)
    (reached : Reach MainLoop.Step (MainLoop.Asked hostsubfolder XXH3_64bits)
      (· = Main.initial maxBackend) m) :
    ∃ q, Reach Pool.Step (SingleFlight.Asked hostsubfolder XXH3_64bits)
        (· = Pool.initial maxBackend) q ∧
      m.pool = { q with toDelete := m.pool.toDelete } ∧
      ∀ h, h ∈ q.toDelete ↔
        h ∈ m.pool.toDelete ∨ h ∈ m.newDeleteHttp ∨ h ∈ m.oldDeleteHttp := by
  obtain ⟨-, q, alone, rest, rfl, collected⟩ := reach_follows positive reached
  refine ⟨_, alone, rfl, fun h => ?_⟩
  rw [← collected]
  exact List.mem_union_iff

theorem old_page_is_scheduled : ∃ m q, Short m ∧ m.oldDeleteHttp = [0] ∧
    Reach Pool.Step (SingleFlight.Asked true CacheKeys.XXH3_len_0to16_64b) (· = Pool.initial 1) q ∧
    0 ∈ q.toDelete := by
  obtain ⟨-, m, -, -, -, -, -, reached, old, -⟩ := failed_page_is_deleted
  obtain ⟨q, alone, -, scheduled⟩ := main_runs_pool (Nat.le_refl 1) reached
  exact ⟨m, q, reached, old, alone, (scheduled 0).mpr (.inr (.inr (old ▸ List.mem_cons_self)))⟩

/-- No event of a batch, no list of the pool that its handling can have read and no pointer
of a closed backend leads to a deleted object, and nothing is collected twice. -/
theorem no_deleted_object_is_listed (positive : 1 ≤ maxBackend)
    (reached : Reach MainLoop.Step (MainLoop.Asked hostsubfolder XXH3_64bits)
      (· = Main.initial maxBackend) m) :
    (∀ b, .backend b ∈ m.phase.items → b ∉ m.deletedBackend) ∧
    (∀ item events, m.phase = .running item events → ∀ p ∈ m.seen,
      (∀ h, Leads item h p → h ∉ m.deletedHttp) ∧
      ∀ b, LeadsBackend item b p → b ∉ m.deletedBackend) ∧
    (∀ b ∈ m.oldDeleteBackend, ∀ h, (m.pool.backend b).http = some h → h ∉ m.deletedHttp) ∧
    (m.deletedBackend ++ m.oldDeleteBackend ++ m.newDeleteBackend).Nodup ∧
    (m.deletedHttp ++ m.oldDeleteHttp ++ m.newDeleteHttp ++ m.pool.toDelete).Nodup := by
  obtain ⟨safe, -⟩ := reach_follows positive reached
  have spared {b : BackendId} (item : .backend b ∈ m.phase.items) : b ∉ m.deletedBackend :=
    fun deleted => (safe.upcoming b item).2
      (List.mem_append_left _ (List.mem_append_left _ deleted))
  refine ⟨fun b => spared, ?_, safe.oldPointer, safe.backends, ?_⟩
  · intro item events phase p member
    have moving : m.phase.quiet = false := by
      rw [phase]
      rfl
    have current : item ∈ m.phase.items := by
      rw [phase]
      exact List.mem_cons_self
    have present := (safe.seen moving p member).present
    constructor
    · intro h leads deleted
      have collected : h ∈ collectedHttp m :=
        List.mem_append_left _ (List.mem_append_left _ deleted)
      have forgotten := present.forgotten h collected
      rcases leads with ⟨https, path, listed⟩ | ⟨l, queued⟩ | clients | ⟨l, b, busy, named⟩ |
        ⟨b, rfl, named⟩
      · exact forgotten.unlisted https path listed
      · exact forgotten.unqueued l queued
      · exact clients forgotten.clientsList
      · exact forgotten.uncarried l b busy named
      · exact present.atHand b current h named collected
    · rintro b (rfl | ⟨l, listed⟩ | ⟨h, -, own⟩) deleted
      · exact spared current deleted
      · exact (present.discarded b deleted).gone l listed
      · exact (present.discarded b deleted).unlinked h own
  · exact List.nodup_append'.mpr
      ⟨safe.https, safe.finished.nodup, fun h member => (safe.unscheduled h member).2⟩

theorem ended_page_is_there : ∃ m, Short m ∧ m.phase = .running .dns [] ∧ m.pool.toDelete = [0] ∧
    0 ∉ m.deletedHttp := by
  obtain ⟨m, -, -, reached, phase, scheduled, ⟨p, member, leads⟩, -⟩ := failed_page_is_deleted
  obtain ⟨-, read, -⟩ := no_deleted_object_is_listed (Nat.le_refl 1) reached
  exact ⟨m, reached, phase, scheduled, (read .dns [] phase p member).1 0 leads⟩

/-- When main deletes an Http, what `~Http` asserts of the pool under `DEBUGFASTCGI` holds: no
map, no queue and no backend in use leads to it. It has no client in its list, and the
destructor returns and changes nothing but the object. -/
theorem deleted_http_is_forgotten (positive : 1 ≤ maxBackend)
    (reached : Reach MainLoop.Step (MainLoop.Asked hostsubfolder XXH3_64bits)
      (· = Main.initial maxBackend) m) (member : h ∈ m.oldDeleteHttp) :
    (∀ https path, m.pool.pathTo https path ≠ some h) ∧
    (m.pool.http h).clientsList = [] ∧ (m.pool.http h).backend = none ∧
    (∀ l, h ∉ (m.pool.list l).pending) ∧
    (∀ l, ∀ b ∈ (m.pool.list l).busy, (m.pool.backend b).http ≠ some h) ∧
    h ∉ m.pool.toDelete ∧
    ∀ system, ∃ p, Destroys system h m.pool p ∧
      p = { m.pool with http := Function.update m.pool.http h (p.http h) } := by
  obtain ⟨safe, q, alone, rest, rfl, -⟩ := reach_follows positive reached
  have collected : h ∈ collectedHttp m := List.mem_append_left _ (List.mem_append_right _ member)
  have forgotten := safe.present.forgotten h collected
  refine ⟨forgotten.unlisted, forgotten.clientsList, forgotten.backend, forgotten.unqueued,
    forgotten.uncarried, (safe.unscheduled h collected).2, fun system => ?_⟩
  have destroyed := waiting_destroyed system forgotten.backend
  obtain ⟨f, same, -⟩ := destroys_forgotten (reach_sound positive alone).shrink forgotten destroyed
  refine ⟨_, destroyed, ?_⟩
  rw [same]
  simp [setHttp]

theorem old_page_is_forgotten : ∃ m, Short m ∧ m.oldDeleteHttp = [0] ∧
    (m.pool.http 0).clientsList = [] ∧ (m.pool.http 0).backend = none := by
  obtain ⟨-, m, -, -, -, -, -, reached, old, -⟩ := failed_page_is_deleted
  obtain ⟨-, clients, backend, -⟩ :=
    deleted_http_is_forgotten (Nat.le_refl 1) reached (old ▸ List.mem_cons_self)
  exact ⟨m, reached, old, clients, backend⟩

section deadline

variable {α : Type*} {x : α} {fresh new old deleted : List α} {k : ℕ}

/-- The object is deleted before `k` more rounds have ended. -/
def Due (quiet : Bool) (fresh new old deleted : List α) (x : α) (k : ℕ) : Prop :=
  x ∈ deleted ∨ (x ∈ old ∧ (if quiet then 1 else 2) ≤ k) ∨
    (x ∈ new ∧ (if quiet then 2 else 3) ≤ k) ∨ x ∈ fresh ∧ 3 ≤ k

namespace Due

theorem mono {quiet : Bool} {fresh' new' old' deleted' : List α}
    (due : Due quiet fresh new old deleted x k) (fresh'' : fresh ⊆ fresh') (new'' : new ⊆ new')
    (old'' : ∀ y ∈ old, y ∈ old' ∨ y ∈ deleted') (deleted'' : deleted ⊆ deleted') :
    Due quiet fresh' new' old' deleted' x k := by
  rcases due with gone | ⟨member, soon⟩ | ⟨member, soon⟩ | ⟨member, soon⟩
  · exact .inl (deleted'' gone)
  · exact (old'' x member).elim (fun still => .inr (.inl ⟨still, soon⟩)) .inl
  · exact .inr (.inr (.inl ⟨new'' member, soon⟩))
  · exact .inr (.inr (.inr ⟨fresh'' member, soon⟩))

theorem rotate (due : Due true fresh new [] deleted x k) : Due false fresh [] new deleted x k := by
  rcases due with gone | ⟨member, -⟩ | ⟨member, soon⟩ | late
  · exact .inl gone
  · cases member
  · exact .inr (.inl ⟨member, soon⟩)
  · exact .inr (.inr (.inr late))

theorem turn (due : Due false fresh new old deleted x (k + 1)) {new' : List α}
    (collected : fresh ⊆ new') (kept : new ⊆ new') : Due true [] new' old deleted x k := by
  rcases due with gone | ⟨member, soon⟩ | ⟨member, soon⟩ | ⟨member, soon⟩
  · exact .inl gone
  · exact .inr (.inl ⟨member, Nat.le_of_succ_le_succ soon⟩)
  · exact .inr (.inr (.inl ⟨kept member, Nat.le_of_succ_le_succ soon⟩))
  · exact .inr (.inr (.inl ⟨collected member, Nat.le_of_succ_le_succ soon⟩))

theorem deleted_of_zero {quiet : Bool} (due : Due quiet fresh new old deleted x 0) :
    x ∈ deleted := by
  rcases due with gone | ⟨-, soon⟩ | ⟨-, soon⟩ | ⟨-, soon⟩
  · exact gone
  · split at soon <;> omega
  · split at soon <;> omega
  · omega

end Due

end deadline

theorem scheduled_kept {e : Event} {system : System} {depth : ℕ} (kept : ∀ h, e ≠ .deleteHttp h)
    (done : perform system depth e p = some p') : p.toDelete ⊆ p'.toDelete := by
  have whole : extend p.toDelete { p with toDelete := [] } = p := rfl
  rw [← whole, perform_extend kept] at done
  obtain ⟨q, -, rfl⟩ := Option.map_eq_some_iff.mp done
  exact fun h member => List.mem_union_iff.mpr (.inr member)

theorem destroyed_kept {system : System} (destroyed : Destroys system h p p') :
    p.toDelete ⊆ p'.toDelete := by
  have whole : extend p.toDelete { p with toDelete := [] } = p := rfl
  obtain ⟨depth, returns⟩ := destroyed
  have done := returns 0
  rw [← whole, disconnectFrontend_extend, disconnectBackend_extend] at done
  obtain ⟨q, -, rfl⟩ := Option.map_eq_some_iff.mp done
  exact fun h member => List.mem_union_iff.mpr (.inr member)

def HttpDue (h : HttpId) (k : ℕ) (m : Main) : Prop :=
  Due m.phase.quiet m.pool.toDelete m.newDeleteHttp m.oldDeleteHttp m.deletedHttp h k

def BackendDue (b : BackendId) (k : ℕ) (m : Main) : Prop :=
  Due m.phase.quiet [] m.newDeleteBackend m.oldDeleteBackend m.deletedBackend b k

theorem erased_or_deleted {α : Type*} [DecidableEq α] (x : α) (old deleted : List α) :
    ∀ y ∈ old, y ∈ old.erase x ∨ y ∈ deleted ++ [x] := by
  intro y member
  by_cases same : y = x
  · exact .inr (List.mem_append_right _ (List.mem_singleton.mpr same))
  · exact .inl ((List.mem_erase_of_ne same).mpr member)

theorem step_due {k : ℕ} (other : label ≠ .turn) (taken : MainLoop.Step label m m') :
    (HttpDue h k m → HttpDue h k m') ∧ (BackendDue b k m → BackendDue b k m') := by
  have all {α : Type} (l : List α) : l ⊆ l := List.Subset.refl l
  unfold HttpDue BackendDue
  cases taken with
  | wait phase once opened => rw [phase]; exact ⟨id, id⟩
  | deleteClient phase follows => exact ⟨id, id⟩
  | @deleteBackend _ events c rest phase first =>
    refine ⟨fun due => due.mono ?_ (all _) (fun _ => .inl) (all _), fun due => ?_⟩
    · rw [(deleteBackend_backend (b := c) (p := m.pool)).2.2.2]
      exact all _
    · refine due.mono (all _) (all _) (fun y member => ?_) (List.subset_append_left _ _)
      rw [first, List.mem_cons] at member
      exact member.symm.imp_right fun same =>
        List.mem_append_right _ (List.mem_singleton.mpr same)
  | deleteHttp phase backends member destroyed =>
    exact ⟨fun due => due.mono (destroyed_kept destroyed) (all _) (erased_or_deleted _ _ _)
      (List.subset_append_left _ _), id⟩
  | rotate phase backends https =>
    rw [phase, backends, https]
    exact ⟨Due.rotate, Due.rotate⟩
  | next phase => rw [phase]; exact ⟨id, id⟩
  | @call _ item events e pool phase callable returns =>
    obtain ⟨depth, returns⟩ := returns
    have kept (h : HttpId) : e.2 ≠ .deleteHttp h := by
      intro same
      rw [same] at callable
      exact callable
    exact ⟨fun due => due.mono (scheduled_kept kept (returns 0)) (all _) (fun _ => .inl) (all _), id⟩
  | @finish _ item events phase =>
    have grown : m.newDeleteBackend ⊆ collected item m := by
      unfold collected
      split
      · split
        · exact all _
        · exact List.subset_append_left _ _
      · exact all _
    rw [phase]
    exact ⟨id, fun due => due.mono (all _) grown (fun _ => .inl) (all _)⟩
  | turn phase => exact absurd rfl other

theorem turn_due {k : ℕ} (taken : MainLoop.Step .turn m m') :
    (HttpDue h (k + 1) m → HttpDue h k m') ∧ (BackendDue b (k + 1) m → BackendDue b k m') := by
  unfold HttpDue BackendDue
  cases taken with
  | turn phase =>
    rw [phase]
    refine ⟨fun due => due.turn ?_ ?_, fun due => due.turn (List.nil_subset _) (List.Subset.refl _)⟩
    · exact fun h member => List.mem_union_iff.mpr (.inr member)
    · exact fun h member => List.mem_union_iff.mpr (.inl member)

theorem rounds_due {n k : ℕ} (rounds : Rounds n m m') :
    (HttpDue h (n + k) m → HttpDue h k m') ∧ (BackendDue b (n + k) m → BackendDue b k m') := by
  induction rounds generalizing k with
  | refl => simp only [Nat.zero_add]; exact ⟨id, id⟩
  | step _ other taken ih =>
    have step := step_due (h := h) (b := b) (k := k) other taken
    exact ⟨fun due => step.1 (ih.1 due), fun due => step.2 (ih.2 due)⟩
  | @turn n _ _ _ _ taken ih =>
    have turn := turn_due (h := h) (b := b) (k := k) taken
    rw [Nat.add_right_comm, Nat.add_assoc]
    exact ⟨fun due => turn.1 (ih.1 due), fun due => turn.2 (ih.2 due)⟩

section progress

def Ends (hostsubfolder : Bool) (XXH3_64bits : Bytes → UInt64) (maxBackend : ℕ) (m : Main) : Prop :=
  ∃ m', Runs hostsubfolder XXH3_64bits maxBackend m' ∧ Rounds 1 m m'

theorem Ends.before (other : label ≠ .turn) (taken : MainLoop.Step label m m')
    (ends : Ends hostsubfolder XXH3_64bits maxBackend m') :
    Ends hostsubfolder XXH3_64bits maxBackend m := by
  obtain ⟨last, reached, rounds⟩ := ends
  have whole := (Rounds.single other taken).trans rounds
  rw [Nat.zero_add] at whole
  exact ⟨last, reached, whole⟩

theorem dispatching_ends (events : List Item)
    (reached : Runs hostsubfolder XXH3_64bits maxBackend m) (phase : m.phase = .dispatching events) :
    Ends hostsubfolder XXH3_64bits maxBackend m := by
  induction events generalizing m with
  | nil =>
    have last := MainLoop.Step.turn phase
    exact ⟨_, reached.next (e := .turn) trivial last, (Rounds.refl m).turn last⟩
  | cons item events ih =>
    have first := MainLoop.Step.next phase
    have second : MainLoop.Step .finish { m with phase := .running item events } _ := .finish rfl
    have running : Runs hostsubfolder XXH3_64bits maxBackend _ :=
      reached.next (e := .next) trivial first
    have later := ih (running.next (e := .finish) trivial second) rfl
    exact (later.before Label.noConfusion second).before Label.noConfusion first

theorem https_end (positive : 1 ≤ maxBackend) {events : List Item} {count : ℕ}
    (length : m.oldDeleteHttp.length = count)
    (reached : Runs hostsubfolder XXH3_64bits maxBackend m) (phase : m.phase = .deleting events)
    (backends : m.oldDeleteBackend = []) : Ends hostsubfolder XXH3_64bits maxBackend m := by
  induction count generalizing m with
  | zero =>
    have next := MainLoop.Step.rotate phase backends (List.length_eq_zero_iff.mp length)
    exact (dispatching_ends events (reached.next (e := .rotate) trivial next) rfl).before
      Label.noConfusion next
  | succ count ih =>
    obtain ⟨h, member⟩ := List.exists_mem_of_length_eq_add_one length
    have backend := (deleted_http_is_forgotten positive reached member).2.2.1
    let system : System := ⟨fun _ => .closed, 0⟩
    have next := MainLoop.Step.deleteHttp phase backends member (waiting_destroyed system backend)
    refine (ih ?_ (reached.next (e := .deleteHttp system h) trivial next) phase backends).before
      Label.noConfusion next
    rw [List.length_erase_of_mem member, length, Nat.add_sub_cancel]

theorem deleting_ends (positive : 1 ≤ maxBackend) {events : List Item} (old : List BackendId)
    (reached : Runs hostsubfolder XXH3_64bits maxBackend m) (phase : m.phase = .deleting events)
    (first : m.oldDeleteBackend = old) : Ends hostsubfolder XXH3_64bits maxBackend m := by
  induction old generalizing m with
  | nil => exact https_end positive rfl reached phase first
  | cons b rest ih =>
    have next := MainLoop.Step.deleteBackend phase first
    exact (ih (reached.next (e := .deleteBackend b) trivial next) phase rfl).before
      Label.noConfusion next

/-- Main can end its round from every state that it reaches. -/
theorem round_ends (positive : 1 ≤ maxBackend)
    (reached : Runs hostsubfolder XXH3_64bits maxBackend m) :
    Ends hostsubfolder XXH3_64bits maxBackend m := by
  cases phase : m.phase with
  | waiting =>
    have next : MainLoop.Step (.wait []) m _ :=
      .wait phase List.nodup_nil fun b member => by cases member
    exact (deleting_ends positive _ (reached.next (e := .wait []) trivial next) rfl rfl).before
      Label.noConfusion next
  | deleting events => exact deleting_ends positive _ reached phase rfl
  | dispatching events => exact dispatching_ends events reached phase
  | running item events =>
    have next := MainLoop.Step.finish phase
    exact (dispatching_ends events (reached.next (e := .finish) trivial next) rfl).before
      Label.noConfusion next

/-- Main can always go on for three rounds, and when it has, everything that was collected
or scheduled has been deleted. -/
theorem three_rounds_delete (positive : 1 ≤ maxBackend)
    (reached : Reach MainLoop.Step (MainLoop.Asked hostsubfolder XXH3_64bits)
      (· = Main.initial maxBackend) m) :
    (∃ m', Rounds 3 m m') ∧ ∀ m', Rounds 3 m m' →
      (∀ h ∈ m.pool.toDelete ++ m.newDeleteHttp ++ m.oldDeleteHttp, h ∈ m'.deletedHttp) ∧
      ∀ b ∈ m.newDeleteBackend ++ m.oldDeleteBackend, b ∈ m'.deletedBackend := by
  constructor
  · obtain ⟨first, reached', one⟩ := round_ends positive reached
    obtain ⟨second, reached'', two⟩ := round_ends positive reached'
    obtain ⟨third, -, three⟩ := round_ends positive reached''
    exact ⟨third, (one.trans two).trans three⟩
  · intro m' rounds
    constructor
    · intro h member
      refine ((rounds_due (h := h) (b := 0) (k := 0) rounds).1 ?_).deleted_of_zero
      simp only [List.mem_append] at member
      rcases member with (fresh | new) | old
      · exact .inr (.inr (.inr ⟨fresh, Nat.le_refl 3⟩))
      · exact .inr (.inr (.inl ⟨new, by split <;> omega⟩))
      · exact .inr (.inl ⟨old, by split <;> omega⟩)
    · intro b member
      refine ((rounds_due (h := 0) (b := b) (k := 0) rounds).2 ?_).deleted_of_zero
      rcases List.mem_append.mp member with new | old
      · exact .inr (.inr (.inl ⟨new, by split <;> omega⟩))
      · exact .inr (.inl ⟨old, by split <;> omega⟩)

theorem page_is_deleted_in_three_rounds : ∃ m m', Short m ∧ m.pool.toDelete = [0] ∧
    Rounds 3 m m' ∧ 0 ∈ m'.deletedHttp := by
  obtain ⟨m, -, m', reached, -, scheduled, -, -, -, -, rounds⟩ := failed_page_is_deleted
  obtain ⟨-, deleted⟩ := three_rounds_delete (Nat.le_refl 1) reached
  exact ⟨m, m', reached, scheduled, rounds, (deleted m' rounds).1 0 (by simp [scheduled])⟩

end progress

/-- A closed backend that main has not collected and that has no event left. -/
structure Missed (b : BackendId) (m : Main) : Prop where
  old : b < m.pool.newBackend
  closed : (m.pool.backend b).isValid = false
  handled : .backend b ∉ m.phase.items
  uncollected : b ∉ collectedBackend m

theorem Missed.relist (missed : Missed b m) (advances : Advances m.pool m'.pool)
    (handled : .backend b ∈ m'.phase.items → .backend b ∈ m.phase.items)
    (collected : b ∈ collectedBackend m' → b ∈ collectedBackend m) : Missed b m' where
  old := Nat.lt_of_lt_of_le missed.old advances.newBackend
  closed := advances.closed b missed.old missed.closed
  handled item := missed.handled (handled item)
  uncollected member := missed.uncollected (collected member)

/-- Epoll reports open sockets only, so no later step collects it. -/
theorem step_missed (safe : Safe maxBackend m) (sound : Sound maxBackend m.pool)
    (taken : MainLoop.Step label m m') (missed : Missed b m) : Missed b m' := by
  have advances := step_advances safe sound taken
  cases taken with
  | @wait _ events phase once opened =>
    refine ⟨missed.old, missed.closed, fun item => ?_, missed.uncollected⟩
    have valid := (opened b item).2
    rw [missed.closed] at valid
    cases valid
  | deleteClient phase follows => exact missed.relist advances id id
  | @deleteBackend _ events c rest phase first =>
    refine missed.relist advances id fun member => ?_
    simpa [collectedBackend, first] using member
  | deleteHttp phase backends member destroyed => exact missed.relist advances id id
  | rotate phase backends https =>
    refine missed.relist advances (fun item => ?_) fun member => ?_
    · rw [phase]
      exact item
    · simpa [collectedBackend, backends] using member
  | next phase =>
    refine missed.relist advances (fun item => ?_) id
    rw [phase]
    exact item
  | call phase callable returns => exact missed.relist advances id id
  | @finish _ item events phase =>
    refine missed.relist advances (fun later => ?_) fun member => ?_
    · rw [phase]
      exact List.mem_cons_of_mem item later
    · rcases List.mem_append.mp member with before | new
      · exact List.mem_append_left _ before
      · unfold collected at new
        split at new
        · split at new
          · exact List.mem_append_right _ new
          · rcases List.mem_append.mp new with before | last
            · exact List.mem_append_right _ before
            · refine absurd ?_ missed.handled
              rw [phase, List.mem_singleton.mp last]
              exact List.mem_cons_self
        · exact List.mem_append_right _ new
  | turn phase => exact missed.relist advances (fun item => by cases item) id

/-- A backend that is closed elsewhere than in its own event, as by the timer, is never
deleted: once the events of the batch that concern it are over, main misses it for good. -/
theorem missed_backend_is_kept (positive : 1 ≤ maxBackend)
    (reached : Reach MainLoop.Step (MainLoop.Asked hostsubfolder XXH3_64bits)
      (· = Main.initial maxBackend) m) (old : b < m.pool.newBackend)
    (closed : (m.pool.backend b).isValid = false) (handled : .backend b ∉ m.phase.items)
    (uncollected : b ∉ m.deletedBackend ++ m.oldDeleteBackend ++ m.newDeleteBackend)
    (later : Reach MainLoop.Step (MainLoop.Asked hostsubfolder XXH3_64bits) (· = m) m') :
    b ∉ m'.deletedBackend ++ m'.oldDeleteBackend ++ m'.newDeleteBackend := by
  have kept : Runs hostsubfolder XXH3_64bits maxBackend m' ∧ Missed b m' := by
    induction later with
    | start same => exact same ▸ ⟨reached, old, closed, handled, uncollected⟩
    | next _ asked taken ih =>
      obtain ⟨safe, q, alone, rest, rfl, -⟩ := reach_follows positive ih.1
      exact ⟨ih.1.next asked taken,
        step_missed safe (reach_sound positive alone).shrink taken ih.2⟩
  exact kept.2.uncollected

theorem timer_closes {system : System} (overdue : Pool.HttpOverdue system h p)
    (own : (p.http h).backend = some b) :
    Returns (system, .httpTimeout h) p (close b (disconnectFrontend h p)) := by
  refine ⟨0, fun more => ?_⟩
  rw [perform, PoolOutcomes.httpTimeout_overdue overdue, own]

theorem silent_backend_is_closed : ∃ m, Short m ∧ m.phase = .waiting ∧ 0 < m.pool.newBackend ∧
    (m.pool.backend 0).isValid = false ∧ collectedBackend m = [] := by
  obtain ⟨c, cs, path⟩ := List.exists_cons_of_ne_nil
    (cachePath_ne_nil true CacheKeys.XXH3_len_0to16_64b ⟨false, [97], [47], []⟩)
  let r : Request := ⟨false, c :: cs, [97], [47], [], 7⟩
  let early : System := ⟨fun _ => .started, 1000000⟩
  let late : System := ⟨fun _ => .started, 1006000⟩
  have waited : Short _ := .next (e := .wait [.dns, .timer]) (.start rfl) trivial
    (.wait rfl (by decide) fun b item => by
      cases item with
      | tail _ item => cases item with
        | tail _ none => cases none)
  have rotated : Short _ := waited.next (e := .rotate) trivial (.rotate rfl rfl rfl)
  have running : Short _ := rotated.next (e := .next) trivial (.next rfl)
  have asked : Short _ := running.next (e := .call (early, .dnsRight r ⟨.zero, 80⟩)) path.symm
    (.call rfl trivial ⟨0, fun _ => rfl⟩)
  have finished : Short _ := asked.next (e := .finish) trivial (.finish rfl)
  have timer : Short _ := finished.next (e := .next) trivial (.next rfl)
  have leads {p : Pool} (follows : (p.http 0).clientsList = [7]) : Leads .timer 0 p :=
    .inr (.inr (.inl (follows ▸ List.cons_ne_nil 7 [])))
  have overdue {p : Pool} (last : (p.http 0).lastReceivedBytesTimestamps = 1000000)
      (served : (p.http 0).pending = false) : Pool.HttpOverdue late 0 p := by
    rw [Pool.HttpOverdue, last, served]
    decide
  have silent : Short _ := timer.next (e := .call (late, .httpTimeout 0)) trivial
    (.call rfl ⟨_, List.mem_append_right _ (List.mem_singleton.mpr rfl), leads (by rfl)⟩
      (timer_closes (overdue (by rfl) (by rfl)) (by rfl)))
  have handled : Short _ := silent.next (e := .finish) trivial (.finish rfl)
  have turned : Short _ := handled.next (e := .turn) trivial (.turn rfl)
  exact ⟨_, turned, rfl, Nat.zero_lt_one, rfl, rfl⟩

theorem silent_backend_is_kept : ∃ m m', Short m ∧ (m.pool.backend 0).isValid = false ∧
    Reach MainLoop.Step (MainLoop.Asked true CacheKeys.XXH3_len_0to16_64b) (· = m) m' ∧
    m'.phase = .deleting [] ∧
    0 ∉ m'.deletedBackend ++ m'.oldDeleteBackend ++ m'.newDeleteBackend := by
  obtain ⟨m, reached, phase, old, closed, uncollected⟩ := silent_backend_is_closed
  have later : Reach MainLoop.Step (MainLoop.Asked true CacheKeys.XXH3_len_0to16_64b) (· = m)
      { m with phase := .deleting [] } :=
    .next (e := .wait []) (.start rfl) trivial
      (.wait phase List.nodup_nil fun b item => by cases item)
  have handled : .backend 0 ∉ m.phase.items := by
    rw [phase]
    exact List.not_mem_nil
  have uncollected' : 0 ∉ collectedBackend m := uncollected ▸ List.not_mem_nil
  exact ⟨m, _, reached, closed, later, rfl, missed_backend_is_kept (Nat.le_refl 1) reached old
    closed handled uncollected' later⟩

end FastCgiCdn.Reclamation
