import Mathlib.Data.List.Nodup
import FastCgiCdn.PoolModel

/-! The pool invariant. `Linked held` is the invariant with one backend exempt,
the one whose request has just been taken away and that a caller still holds.
Every operation is reduced to a few moves on the links, and each move is shown
to keep the invariant once. -/

namespace FastCgiCdn.PoolInvariant

open DnsModel PoolModel Pool

section fields

variable (p : Pool) (b : BackendId) (h : HttpId) (l : ListId)

@[simp, grind =] theorem setBackend_backend (f : Backend → Backend) (x : BackendId) :
    (setBackend b f p).backend x = if x = b then f (p.backend b) else p.backend x := by
  simp [setBackend, Function.update_apply]

@[simp, grind =] theorem setHttp_http (f : Http → Http) (x : HttpId) :
    (setHttp h f p).http x = if x = h then f (p.http h) else p.http x := by
  simp [setHttp, Function.update_apply]

@[simp, grind =] theorem setList_list (f : BackendList → BackendList) (x : ListId) :
    (setList l f p).list x = if x = l then f (p.list l) else p.list x := by
  simp [setList, Function.update_apply]

@[simp, grind =] theorem setBackend_http (f : Backend → Backend) (x : HttpId) :
    (setBackend b f p).http x = p.http x := rfl

@[simp, grind =] theorem setBackend_list (f : Backend → Backend) (x : ListId) :
    (setBackend b f p).list x = p.list x := rfl

@[simp, grind =] theorem setHttp_backend (f : Http → Http) (x : BackendId) :
    (setHttp h f p).backend x = p.backend x := rfl

@[simp, grind =] theorem setHttp_list (f : Http → Http) (x : ListId) :
    (setHttp h f p).list x = p.list x := rfl

@[simp, grind =] theorem setList_backend (f : BackendList → BackendList) (x : BackendId) :
    (setList l f p).backend x = p.backend x := rfl

@[simp, grind =] theorem setList_http (f : BackendList → BackendList) (x : HttpId) :
    (setList l f p).http x = p.http x := rfl

@[simp] theorem leaveBusy_backend (x : BackendId) : (leaveBusy l b p).backend x = p.backend x := rfl

@[simp] theorem leaveBusy_http (x : HttpId) : (leaveBusy l b p).http x = p.http x := rfl

@[simp] theorem leaveBusy_pending (x : ListId) :
    ((leaveBusy l b p).list x).pending = (p.list x).pending := by
  by_cases own : x = l <;> simp [leaveBusy, own]

@[simp] theorem leaveBusy_idle (x : ListId) :
    ((leaveBusy l b p).list x).idle = (p.list x).idle := by
  by_cases own : x = l <;> simp [leaveBusy, own]

@[simp] theorem leaveBusy_maxBackend : (leaveBusy l b p).maxBackend = p.maxBackend := rfl

@[simp] theorem park_backend (x : BackendId) : (park l b p).backend x = p.backend x := by
  unfold park
  split <;> rfl

@[simp] theorem park_http (x : HttpId) : (park l b p).http x = p.http x := by
  unfold park
  split <;> rfl

@[simp] theorem park_pending (x : ListId) :
    ((park l b p).list x).pending = (p.list x).pending := by
  unfold park
  split
  · by_cases own : x = l <;> simp [own]
  · rfl

end fields

structure Linked (held : Option BackendId) (p : Pool) : Prop where
  nodup : ∀ l, ((p.list l).busy ++ (p.list l).idle).Nodup
  home : ∀ l, ∀ b ∈ (p.list l).busy ++ (p.list l).idle, (p.backend b).backendList = some l
  busy : ∀ l, ∀ b ∈ (p.list l).busy, held ≠ some b →
    ∃ h, (p.backend b).http = some h ∧ (p.http h).backend = some b
  idle : ∀ l, ∀ b ∈ (p.list l).idle,
    (p.backend b).http = none ∧ (p.backend b).wasTCPConnected = true
  slots : ∀ l, (p.list l).busy.length + (p.list l).idle.length ≤ p.maxBackend
  pending_nodup : ∀ l, (p.list l).pending.Nodup
  pending : ∀ l, ∀ h ∈ (p.list l).pending,
    (p.http h).backend = none ∧ (p.http h).backendList = some l
  retired : ∀ h ∈ p.toDelete, (p.http h).backend = none ∧ (p.http h).backendList = none
  back : ∀ h b, (p.http h).backend = some b → (p.backend b).http = some h
  /-- The Http of a backend points back, or has been left by it for good. -/
  stale : ∀ b h, (p.backend b).http = some h → (p.http h).backend = some b ∨
    ((p.http h).backend = none ∧ ∀ l, h ∉ (p.list l).pending)
  /-- A backend with a request is busy or closed. -/
  carried : ∀ b h, (p.backend b).http = some h → (p.backend b).isValid = true → held ≠ some b →
    ∃ l, b ∈ (p.list l).busy

structure Allocated (limit : ℕ) (p : Pool) : Prop where
  maxBackend : p.maxBackend = limit ∧ 1 ≤ limit
  newBackend : ∀ b, p.newBackend ≤ b → (p.backend b).http = none ∧ (p.backend b).backendList = none
  newHttp : ∀ h, p.newHttp ≤ h → (p.http h).backend = none ∧ (p.http h).backendList = none ∧
    (p.http h).isAlive = false
  newList : ∀ l, p.newList ≤ l →
    (p.list l).busy = [] ∧ (p.list l).idle = [] ∧ (p.list l).pending = []
  http : ∀ b h, (p.backend b).http = some h → h < p.newHttp
  backendList : ∀ b l, (p.backend b).backendList = some l → l < p.newList
  homed : ∀ b h, (p.backend b).http = some h → ∃ l, (p.backend b).backendList = some l
  scheduled : ∀ h ∈ p.toDelete, h < p.newHttp
  addressTo : ∀ https addr l, p.addressTo https addr = some l → l < p.newList

structure WellFormed (limit : ℕ) (held : Option BackendId) (p : Pool) : Prop extends
  Linked held p, Allocated limit p

/-- Somebody still counts on the object. -/
def Wanted (h : Http) : Prop := h.isAlive = true ∨ h.clientsList ≠ []

/-- The links are as before. Sockets may have closed, connections may have been
established, and clients, paths and flags may differ. -/
structure SameLinks (p p' : Pool) : Prop where
  maxBackend : p'.maxBackend = p.maxBackend
  newBackend : p'.newBackend = p.newBackend
  newHttp : p'.newHttp = p.newHttp
  newList : p'.newList = p.newList
  addressTo : p'.addressTo = p.addressTo
  toDelete : p'.toDelete = p.toDelete
  list : p'.list = p.list
  backend : ∀ b, (p'.backend b).http = (p.backend b).http ∧
    (p'.backend b).backendList = (p.backend b).backendList ∧
    ((p'.backend b).isValid → (p.backend b).isValid) ∧
    ((p.backend b).wasTCPConnected → (p'.backend b).wasTCPConnected)
  http : ∀ h, (p'.http h).backend = (p.http h).backend ∧
    (p'.http h).backendList = (p.http h).backendList ∧
    ((p'.http h).isAlive → (p.http h).isAlive) ∧ (Wanted (p'.http h) → Wanted (p.http h))

variable {limit : ℕ}

namespace SameLinks

variable {p p' p'' : Pool}

theorem refl (p : Pool) : SameLinks p p :=
  ⟨rfl, rfl, rfl, rfl, rfl, rfl, rfl, fun _ => ⟨rfl, rfl, id, id⟩, fun _ => ⟨rfl, rfl, id, id⟩⟩

theorem trans (s : SameLinks p p') (t : SameLinks p' p'') : SameLinks p p'' where
  maxBackend := t.maxBackend.trans s.maxBackend
  newBackend := t.newBackend.trans s.newBackend
  newHttp := t.newHttp.trans s.newHttp
  newList := t.newList.trans s.newList
  addressTo := t.addressTo.trans s.addressTo
  toDelete := t.toDelete.trans s.toDelete
  list := t.list.trans s.list
  backend b := by
    obtain ⟨http, home, valid, connected⟩ := s.backend b
    obtain ⟨http', home', valid', connected'⟩ := t.backend b
    exact ⟨http'.trans http, home'.trans home, valid ∘ valid', connected' ∘ connected⟩
  http h := by
    obtain ⟨backend, home, alive, wanted⟩ := s.http h
    obtain ⟨backend', home', alive', wanted'⟩ := t.http h
    exact ⟨backend'.trans backend, home'.trans home, alive ∘ alive', wanted ∘ wanted'⟩

theorem wellFormed {held : Option BackendId} (s : SameLinks p p') (w : WellFormed limit held p) :
    WellFormed limit held p' where
  nodup l := by
    rw [s.list]
    exact w.nodup l
  home l b member := by
    rw [s.list] at member
    rw [(s.backend b).2.1]
    exact w.home l b member
  busy l b member free := by
    rw [s.list] at member
    obtain ⟨h, http, backend⟩ := w.busy l b member free
    exact ⟨h, by rw [(s.backend b).1, http], by rw [(s.http h).1, backend]⟩
  idle l b member := by
    rw [s.list] at member
    obtain ⟨http, connected⟩ := w.idle l b member
    exact ⟨by rw [(s.backend b).1, http], (s.backend b).2.2.2 connected⟩
  slots l := by
    rw [s.list, s.maxBackend]
    exact w.slots l
  pending_nodup l := by
    rw [s.list]
    exact w.pending_nodup l
  pending l h member := by
    rw [s.list] at member
    rw [(s.http h).1, (s.http h).2.1]
    exact w.pending l h member
  retired h member := by
    rw [s.toDelete] at member
    rw [(s.http h).1, (s.http h).2.1]
    exact w.retired h member
  back h b link := by
    rw [(s.http h).1] at link
    rw [(s.backend b).1]
    exact w.back h b link
  stale b h link := by
    rw [(s.backend b).1] at link
    rw [(s.http h).1, s.list]
    exact w.stale b h link
  carried b h link valid free := by
    rw [(s.backend b).1] at link
    rw [s.list]
    exact w.carried b h link ((s.backend b).2.2.1 valid) free
  newBackend b fresh := by
    rw [s.newBackend] at fresh
    rw [(s.backend b).1, (s.backend b).2.1]
    exact w.newBackend b fresh
  newHttp h fresh := by
    rw [s.newHttp] at fresh
    obtain ⟨waits, homeless, dead⟩ := w.newHttp h fresh
    rw [(s.http h).1, (s.http h).2.1]
    refine ⟨waits, homeless, Bool.eq_false_iff.mpr fun alive => ?_⟩
    rw [(s.http h).2.2.1 alive] at dead
    cases dead
  newList l fresh := by
    rw [s.newList] at fresh
    rw [s.list]
    exact w.newList l fresh
  http b h link := by
    rw [(s.backend b).1] at link
    rw [s.newHttp]
    exact w.http b h link
  backendList b l link := by
    rw [(s.backend b).2.1] at link
    rw [s.newList]
    exact w.backendList b l link
  homed b h link := by
    rw [(s.backend b).1] at link
    rw [(s.backend b).2.1]
    exact w.homed b h link
  scheduled h member := by
    rw [s.toDelete] at member
    rw [s.newHttp]
    exact w.scheduled h member
  maxBackend := by
    rw [s.maxBackend]
    exact w.maxBackend
  addressTo https addr l link := by
    rw [s.addressTo] at link
    rw [s.newList]
    exact w.addressTo https addr l link

theorem setHttp {h : HttpId} {f : Http → Http} (keeps : (f (p.http h)).backend = (p.http h).backend ∧
    (f (p.http h)).backendList = (p.http h).backendList ∧
    ((f (p.http h)).isAlive → (p.http h).isAlive) ∧
    (Wanted (f (p.http h)) → Wanted (p.http h))) : SameLinks p (Pool.setHttp h f p) where
  toDelete := rfl
  http x := by
    by_cases own : x = h
    · subst own
      simpa using keeps
    · simp [own]
  __ := refl p

theorem setBackend {b : BackendId} {f : Backend → Backend}
    (keeps : (f (p.backend b)).http = (p.backend b).http ∧
      (f (p.backend b)).backendList = (p.backend b).backendList ∧
      ((f (p.backend b)).isValid → (p.backend b).isValid) ∧
      ((p.backend b).wasTCPConnected → (f (p.backend b)).wasTCPConnected)) :
    SameLinks p (Pool.setBackend b f p) where
  toDelete := rfl
  backend x := by
    by_cases own : x = b
    · subst own
      simpa using keeps
    · simp [own]
  __ := refl p

theorem setPath (https : Bool) (path : Bytes) (h : Option HttpId) :
    SameLinks p (Pool.setPath https path h p) where
  toDelete := rfl
  __ := refl p

theorem unregister (h : HttpId) : SameLinks p (Pool.unregister h p) := by
  unfold Pool.unregister
  split
  · exact refl p
  · exact (setPath ..).trans (setPath ..)

theorem setClients (h : HttpId) : SameLinks p (Pool.setHttp h ({ · with clientsList := [] }) p) :=
  setHttp ⟨rfl, rfl, id, fun wanted => .inl (wanted.resolve_right (absurd rfl ·))⟩

theorem backendError (h : HttpId) : SameLinks p (Pool.backendError h p) :=
  ((setClients h).trans (unregister h)).trans (setHttp ⟨rfl, rfl, id, id⟩)

theorem disconnectFrontend (h : HttpId) : SameLinks p (Pool.disconnectFrontend h p) :=
  setClients h

theorem resetRequestSended (h : HttpId) : SameLinks p (Pool.resetRequestSended h p) := by
  unfold Pool.resetRequestSended
  split
  · exact refl p
  · exact setHttp ⟨rfl, rfl, id, id⟩

theorem readyToWrite (system : System) (h : HttpId) :
    SameLinks p (Pool.readyToWrite system h p) := by
  unfold Pool.readyToWrite
  split
  · exact refl p
  · exact setHttp ⟨rfl, rfl, id, id⟩

theorem addClient (h : HttpId) (client : ClientId) : SameLinks p (Pool.addClient h client p) := by
  unfold Pool.addClient
  split
  · exact refl p
  · rename_i joins
    refine setHttp ⟨rfl, rfl, id, fun _ => .inl ?_⟩
    simp only [Bool.or_eq_true, not_or] at joins
    simpa using joins.1

theorem removeClient (h : HttpId) (client : ClientId) :
    SameLinks p (Pool.removeClient h client p) := by
  refine setHttp ⟨rfl, rfl, id, Or.imp_right fun some_left none_there => some_left ?_⟩
  simp [none_there]

theorem close (b : BackendId) : SameLinks p (Pool.close b p) :=
  setBackend ⟨rfl, rfl, by simp, id⟩

theorem statusLine (h : HttpId) (http_code : ℕ) :
    SameLinks p (Pool.statusLine h http_code p) := by
  unfold Pool.statusLine
  refine (setHttp (h := h) (f := ({ · with http_code := http_code })) ⟨rfl, rfl, id, id⟩).trans ?_
  dsimp only
  split
  · exact refl _
  · exact setBackend ⟨rfl, rfl, id, fun _ => rfl⟩

theorem errorPending (l : ListId) : SameLinks p (Pool.errorPending l p) := by
  unfold Pool.errorPending
  generalize (p.list l).pending = waiting
  induction waiting generalizing p with
  | nil => exact refl p
  | cons h waiting ih => exact ((backendError h).trans (disconnectFrontend h)).trans ih

end SameLinks

/-! The moves on the links. -/

section moves

variable {p : Pool} {held : Option BackendId} {b : BackendId} {h : HttpId} {l : ListId}

/-- Taking the request away from a backend, which is then held. -/
def unlink (b : BackendId) (h : HttpId) (p : Pool) : Pool :=
  setBackend b ({ · with http := none }) (setHttp h ({ · with backend := none }) p)

@[simp, grind =] theorem unlink_backend (x : BackendId) : (unlink b h p).backend x =
    if x = b then { p.backend b with http := none } else p.backend x := by
  simp [unlink]

@[simp, grind =] theorem unlink_http (x : HttpId) : (unlink b h p).http x =
    if x = h then { p.http h with backend := none } else p.http x := by
  simp [unlink]

@[simp, grind =] theorem unlink_list (x : ListId) : (unlink b h p).list x = p.list x := rfl

@[simp, grind =] theorem link_backend (x : BackendId) : (link b h p).backend x =
    if x = b then { p.backend b with http := some h } else p.backend x := by
  simp [link]

@[simp, grind =] theorem link_http (x : HttpId) : (link b h p).http x =
    if x = h then { p.http h with backend := some b } else p.http x := by
  simp [link]

@[simp, grind =] theorem link_list (x : ListId) : (link b h p).list x = p.list x := rfl

theorem WellFormed.unlink (w : WellFormed limit (some b) p) (link : (p.backend b).http = some h) :
    WellFormed limit (some b) (unlink b h p) where
  nodup := w.nodup
  slots := w.slots
  pending_nodup := w.pending_nodup
  newList := w.newList
  scheduled := w.scheduled
  addressTo := w.addressTo
  maxBackend := w.maxBackend
  home l' x member := by
    have := w.home l' x member
    grind
  busy l' x member free := by
    have := w.busy l' x member
    have := w.stale b h link
    grind
  idle l' x member := by
    have := w.idle l' x member
    grind
  pending l' x member := by
    have := w.pending l' x member
    grind
  retired x member := by
    have := w.retired x member
    grind
  back x y linked := by
    have := w.back x y
    have := w.stale b h link
    grind
  stale x y linked := by
    have := w.stale x y
    have := w.stale b h link
    have := w.pending
    grind
  carried x y linked valid free := by
    have := w.carried x y
    simp only [unlink_list]
    grind
  newBackend x fresh := by
    have := w.newBackend x fresh
    grind
  newHttp x fresh := by
    have := w.newHttp x fresh
    grind [Http.isAlive]
  http x y linked := by
    refine w.http x y ?_
    grind
  backendList x l' linked := by
    refine w.backendList x l' ?_
    grind
  homed x y linked := by
    have := w.homed x y
    grind

/-- An Http that nothing refers to. -/
structure Loose (h : HttpId) (p : Pool) : Prop where
  waits : (p.http h).backend = none
  alone : ∀ b, (p.backend b).http ≠ some h
  unqueued : ∀ l, h ∉ (p.list l).pending
  kept : h ∉ p.toDelete
  old : h < p.newHttp

theorem WellFormed.link (w : WellFormed limit (some b) p) (free : (p.backend b).http = none)
    (homed : (p.backend b).backendList = some l) (notIdle : b ∉ (p.list l).idle)
    (carried : b ∈ (p.list l).busy ∨ (p.backend b).isValid = false)
    (loose : Loose h p) :
    WellFormed limit none (link b h p) where
  nodup := w.nodup
  slots := w.slots
  pending_nodup := w.pending_nodup
  newList := w.newList
  scheduled := w.scheduled
  addressTo := w.addressTo
  maxBackend := w.maxBackend
  home l' x member := by
    have := w.home l' x member
    grind
  busy l' x member _ := by
    by_cases own : x = b
    · exact ⟨h, by simp [own], by simp [own]⟩
    · obtain ⟨y, http, backend⟩ := w.busy l' x member (by simpa [eq_comm] using own)
      have other : y ≠ h := by
        rintro rfl
        exact loose.alone x http
      exact ⟨y, by simp [own, http], by simp [other, backend]⟩
  idle l' x member := by
    have := w.idle l' x member
    have := w.home l' x (List.mem_append_right _ member)
    grind
  pending l' x member := by
    have := w.pending l' x member
    have := loose.unqueued l'
    grind
  retired x member := by
    have other : x ≠ h := by
      rintro rfl
      exact loose.kept member
    simpa [other] using w.retired x member
  back x y linked := by
    have := w.back x y
    have := loose.waits
    grind
  stale x y linked := by
    have := w.stale x y
    have := loose.alone x
    grind
  carried x y linked valid _ := by
    by_cases own : x = b
    · subst own
      refine ⟨l, carried.resolve_right ?_⟩
      simpa using valid
    · simp only [link_backend, if_neg own] at linked valid
      exact w.carried x y linked valid (by simpa [eq_comm] using own)
  newBackend x fresh := by
    have other : x ≠ b := by
      rintro rfl
      simpa [homed] using w.newBackend x fresh
    simpa [other] using w.newBackend x fresh
  newHttp x fresh := by
    have other : x ≠ h := by
      rintro rfl
      exact absurd loose.old (not_lt.mpr fresh)
    simpa [other] using w.newHttp x fresh
  http x y linked := by
    by_cases own : x = b
    · obtain rfl : h = y := by simpa [own] using linked
      exact loose.old
    · simp only [link_backend, if_neg own] at linked
      exact w.http x y linked
  backendList x l' linked := by
    refine w.backendList x l' ?_
    grind
  homed x y linked := by
    have := w.homed x y
    grind

structure Fits (held : Option BackendId) (p : Pool) (l : ListId) (x : BackendList) : Prop where
  nodup : (x.busy ++ x.idle).Nodup
  home : ∀ b ∈ x.busy ++ x.idle, (p.backend b).backendList = some l
  busy : ∀ b ∈ x.busy, held ≠ some b →
    ∃ h, (p.backend b).http = some h ∧ (p.http h).backend = some b
  idle : ∀ b ∈ x.idle, (p.backend b).http = none ∧ (p.backend b).wasTCPConnected = true
  slots : x.busy.length + x.idle.length ≤ p.maxBackend
  pending_nodup : x.pending.Nodup
  pending : ∀ h ∈ x.pending, (p.http h).backend = none ∧ (p.http h).backendList = some l
  alone : ∀ h ∈ x.pending, ∀ b, (p.backend b).http ≠ some h
  kept : ∀ b h, b ∈ (p.list l).busy → (p.backend b).http = some h → (p.backend b).isValid = true →
    held ≠ some b → b ∈ x.busy
  newList : p.newList ≤ l → x.busy = [] ∧ x.idle = [] ∧ x.pending = []

theorem WellFormed.setList (w : WellFormed limit held p) {f : BackendList → BackendList}
    (fits : Fits held p l (f (p.list l))) : WellFormed limit held (setList l f p) where
  back := w.back
  retired := w.retired
  newBackend := w.newBackend
  newHttp := w.newHttp
  http := w.http
  backendList := w.backendList
  homed := w.homed
  scheduled := w.scheduled
  addressTo := w.addressTo
  maxBackend := w.maxBackend
  nodup l' := by
    by_cases own : l' = l
    · simpa [own] using fits.nodup
    · simpa [own] using w.nodup l'
  home l' := by
    by_cases own : l' = l
    · simpa [own] using fits.home
    · simpa [own] using w.home l'
  busy l' := by
    by_cases own : l' = l
    · simpa [own] using fits.busy
    · simpa [own] using w.busy l'
  idle l' := by
    by_cases own : l' = l
    · simpa [own] using fits.idle
    · simpa [own] using w.idle l'
  slots l' := by
    change _ ≤ p.maxBackend
    by_cases own : l' = l
    · simpa [own] using fits.slots
    · simpa [own] using w.slots l'
  pending_nodup l' := by
    by_cases own : l' = l
    · simpa [own] using fits.pending_nodup
    · simpa [own] using w.pending_nodup l'
  pending l' := by
    by_cases own : l' = l
    · simpa [own] using fits.pending
    · simpa [own] using w.pending l'
  stale b h linked := by
    refine (w.stale b h linked).imp_right fun left => ⟨left.1, fun l' => ?_⟩
    by_cases own : l' = l
    · simp only [setList_list, if_pos own]
      exact fun member => fits.alone h member b linked
    · simpa [own] using left.2 l'
  carried b h linked valid free := by
    obtain ⟨l', member⟩ := w.carried b h linked valid free
    refine ⟨l', ?_⟩
    by_cases own : l' = l
    · subst own
      simpa using fits.kept b h member linked valid free
    · simpa [own] using member
  newList l' fresh := by
    by_cases own : l' = l
    · subst own
      simpa using fits.newList fresh
    · simpa [own] using w.newList l' fresh

theorem WellFormed.alone (w : WellFormed limit held p) (member : h ∈ (p.list l).pending) (b : BackendId) :
    (p.backend b).http ≠ some h := by
  intro linked
  obtain own | left := w.stale b h linked
  · rw [(w.pending l h member).1] at own
    cases own
  · exact left.2 l member

theorem WellFormed.fits_of_sublist (w : WellFormed limit held p) {x : BackendList}
    (busy : x.busy.Sublist (p.list l).busy) (idle : x.idle.Sublist (p.list l).idle)
    (pending : x.pending.Sublist (p.list l).pending)
    (kept : ∀ b h, b ∈ (p.list l).busy → (p.backend b).http = some h →
      (p.backend b).isValid = true → held ≠ some b → b ∈ x.busy) : Fits held p l x where
  nodup := (w.nodup l).sublist (busy.append idle)
  home b member := w.home l b ((busy.append idle).subset member)
  busy b member := w.busy l b (busy.subset member)
  idle b member := w.idle l b (idle.subset member)
  slots := le_trans (Nat.add_le_add busy.length_le idle.length_le) (w.slots l)
  pending_nodup := (w.pending_nodup l).sublist pending
  pending h member := w.pending l h (pending.subset member)
  alone h member := w.alone (pending.subset member)
  kept := kept
  newList fresh := by
    obtain ⟨noBusy, noIdle, noPending⟩ := w.newList l fresh
    rw [noBusy] at busy
    rw [noIdle] at idle
    rw [noPending] at pending
    exact ⟨List.sublist_nil.mp busy, List.sublist_nil.mp idle, List.sublist_nil.mp pending⟩

theorem WellFormed.leaveBusy (w : WellFormed limit held p)
    (spent : held = some b ∨ (p.backend b).isValid = false ∨ (p.backend b).http = none) :
    WellFormed limit held (leaveBusy l b p) := by
  refine w.setList (w.fits_of_sublist List.erase_sublist (.refl _) (.refl _) ?_)
  intro x h member linked valid free
  have other : x ≠ b := by
    rintro rfl
    simp [linked, valid, free] at spent
  exact (List.mem_erase_of_ne other).mpr member

theorem WellFormed.leaveIdle (w : WellFormed limit held p) : WellFormed limit held (leaveIdle l b p) :=
  w.setList (w.fits_of_sublist (.refl _) List.erase_sublist (.refl _) fun _ _ member _ _ _ => member)

theorem WellFormed.setPending (w : WellFormed limit held p) {waiting : List HttpId}
    (fewer : waiting.Sublist (p.list l).pending) :
    WellFormed limit held (Pool.setList l ({ · with pending := waiting }) p) :=
  w.setList (w.fits_of_sublist (.refl _) (.refl _) fewer fun _ _ member _ _ _ => member)

theorem WellFormed.leavePending (w : WellFormed limit held p) : WellFormed limit held (leavePending h p) := by
  unfold Pool.leavePending
  split
  · exact w
  · exact w.setList (w.fits_of_sublist (.refl _) (.refl _) List.erase_sublist
      fun _ _ member _ _ _ => member)

theorem WellFormed.hold (w : WellFormed limit none p) : WellFormed limit held p where
  busy l b member _ := w.busy l b member (Option.some_ne_none _).symm
  carried b h linked valid _ := w.carried b h linked valid (Option.some_ne_none _).symm
  __ := w

theorem WellFormed.release (w : WellFormed limit (some b) p) (free : (p.backend b).http = none)
    (left : ∀ l, b ∉ (p.list l).busy) : WellFormed limit none p where
  busy l x member _ := by
    refine w.busy l x member ?_
    rintro ⟨⟩
    exact left l member
  carried x h linked valid _ := by
    refine w.carried x h linked valid ?_
    rintro ⟨⟩
    simp [free] at linked
  __ := w

theorem WellFormed.not_mem_of_home (w : WellFormed limit held p) (home : (p.backend b).backendList = some l)
    {l' : ListId} (other : l' ≠ l) : b ∉ (p.list l').busy ++ (p.list l').idle := by
  intro member
  rw [w.home l' b member] at home
  exact other (Option.some_inj.mp home)

theorem WellFormed.not_mem_leaveBusy (w : WellFormed limit held p)
    (home : (p.backend b).backendList = some l) (l' : ListId) :
    b ∉ ((Pool.leaveBusy l b p).list l').busy := by
  by_cases own : l' = l
  · have := (List.nodup_append.mp (w.nodup l)).1
    simpa [Pool.leaveBusy, own] using this.not_mem_erase
  · intro member
    simp only [Pool.leaveBusy, setList_list, if_neg own] at member
    exact w.not_mem_of_home home own (List.mem_append_left _ member)

theorem WellFormed.park (w : WellFormed limit none p) (free : (p.backend b).http = none)
    (connected : (p.backend b).wasTCPConnected = true)
    (home : (p.backend b).backendList = some l)
    (apart : b ∉ (p.list l).busy ++ (p.list l).idle)
    (room : (p.backend b).isValid = true →
      (p.list l).busy.length + (p.list l).idle.length < p.maxBackend) :
    WellFormed limit none (park l b p) := by
  unfold Pool.park
  split
  · rename_i valid
    refine w.setList ?_
    refine ⟨?_, ?_, fun x member => w.busy l x member, ?_, ?_, w.pending_nodup l, w.pending l,
      fun h member => w.alone member, fun x h member _ _ _ => member, ?_⟩
    · rw [← List.append_assoc, List.nodup_append]
      refine ⟨w.nodup l, List.nodup_singleton b, fun x member y own => ?_⟩
      rintro rfl
      exact apart (List.mem_singleton.mp own ▸ member)
    · intro x member
      rw [← List.append_assoc, List.mem_append, List.mem_singleton] at member
      obtain member | rfl := member
      · exact w.home l x member
      · exact home
    · intro x member
      rw [List.mem_append, List.mem_singleton] at member
      obtain member | rfl := member
      · exact w.idle l x member
      · exact ⟨free, connected⟩
    · simp only [List.length_append, List.length_singleton]
      have := room valid
      omega
    · intro fresh
      exact absurd (w.backendList b l home) (not_lt.mpr fresh)
  · exact w

theorem WellFormed.enterBusy (w : WellFormed limit none p) (home : (p.backend b).backendList = some l)
    (apart : b ∉ (p.list l).busy ++ (p.list l).idle)
    (room : (p.list l).busy.length + (p.list l).idle.length < p.maxBackend) :
    WellFormed limit (some b) (enterBusy l b p) := by
  refine w.hold.setList ?_
  refine ⟨?_, ?_, ?_, w.idle l, ?_, w.pending_nodup l, w.pending l, fun h member => w.alone member,
    fun x h member _ _ _ => List.mem_append_left _ member, ?_⟩
  · rw [List.append_assoc, List.singleton_append, List.nodup_middle, List.nodup_cons]
    exact ⟨apart, w.nodup l⟩
  · intro x member
    simp only [List.mem_append, List.mem_singleton] at member
    obtain (member | rfl) | member := member
    · exact w.home l x (List.mem_append_left _ member)
    · exact home
    · exact w.home l x (List.mem_append_right _ member)
  · intro x member free
    simp only [List.mem_append, List.mem_singleton] at member
    obtain member | rfl := member
    · exact w.busy l x member (Option.some_ne_none _).symm
    · exact absurd rfl free
  · simp only [List.length_append, List.length_singleton]
    omega
  · intro fresh
    exact absurd (w.backendList b l home) (not_lt.mpr fresh)

theorem WellFormed.takeIdle (w : WellFormed limit none p) (last : (p.list l).idle.getLast? = some b) :
    WellFormed limit (some b) (Pool.setList l (fun x => { x with
      idle := x.idle.dropLast, busy := x.busy ++ [b] }) p) := by
  have split : (p.list l).idle.dropLast ++ [b] = (p.list l).idle := by
    obtain ⟨front, whole⟩ := List.getLast?_eq_some_iff.mp last
    simp [whole]
  have moved : ((p.list l).busy ++ [b] ++ (p.list l).idle.dropLast).Perm
      ((p.list l).busy ++ (p.list l).idle) := by
    conv_rhs => rw [← split]
    rw [List.append_assoc]
    exact List.perm_append_comm.append_left _
  refine w.hold.setList ?_
  refine ⟨?_, ?_, ?_, ?_, ?_, w.pending_nodup l, w.pending l, fun h member => w.alone member,
    fun x h member _ _ _ => List.mem_append_left _ member, ?_⟩
  · exact moved.nodup_iff.mpr (w.nodup l)
  · intro x member
    exact w.home l x (moved.subset member)
  · intro x member free
    simp only [List.mem_append, List.mem_singleton] at member
    obtain member | rfl := member
    · exact w.busy l x member (Option.some_ne_none _).symm
    · exact absurd rfl free
  · intro x member
    exact w.idle l x (List.dropLast_subset _ member)
  · have := moved.length_eq
    simp only [List.length_append] at this ⊢
    rw [this]
    exact w.slots l
  · intro fresh
    rw [(w.newList l fresh).2.1] at last
    cases last

theorem WellFormed.enqueue (w : WellFormed limit none p) (waits : (p.http h).backend = none)
    (home : (p.http h).backendList = some l) (apart : h ∉ (p.list l).pending)
    (alone : ∀ b, (p.backend b).http ≠ some h) (old : l < p.newList) :
    WellFormed limit none (Pool.setList l (fun x => { x with pending := x.pending ++ [h] }) p) := by
  refine w.setList ?_
  refine ⟨w.nodup l, w.home l, w.busy l, w.idle l, w.slots l, ?_, ?_, ?_,
    fun x h member _ _ _ => member, fun fresh => absurd old (not_lt.mpr fresh)⟩
  · rw [List.nodup_append]
    refine ⟨w.pending_nodup l, List.nodup_singleton h, fun x member y own => ?_⟩
    rintro rfl
    exact apart (List.mem_singleton.mp own ▸ member)
  · intro x member
    rw [List.mem_append, List.mem_singleton] at member
    obtain member | rfl := member
    · exact w.pending l x member
    · exact ⟨waits, home⟩
  · intro x member
    rw [List.mem_append, List.mem_singleton] at member
    obtain member | rfl := member
    · exact w.alone member
    · exact alone

theorem WellFormed.forget (w : WellFormed limit none p) (linked : (p.backend b).http = some h)
    (spent : ∀ l, b ∉ (p.list l).busy) :
    WellFormed limit none (setHttp h ({ · with backend := none }) p) where
  nodup := w.nodup
  home := w.home
  idle := w.idle
  slots := w.slots
  pending_nodup := w.pending_nodup
  carried := w.carried
  newBackend := w.newBackend
  newList := w.newList
  http := w.http
  backendList := w.backendList
  homed := w.homed
  scheduled := w.scheduled
  addressTo := w.addressTo
  maxBackend := w.maxBackend
  busy l x member free := by
    obtain ⟨y, http, backend⟩ := w.busy l x member free
    have other : y ≠ h := by
      rintro rfl
      have := w.stale b y linked
      rw [backend] at this
      obtain own | ⟨⟨⟩, -⟩ := this
      exact spent l (Option.some_inj.mp own ▸ member)
    exact ⟨y, http, by simp [other, backend]⟩
  pending l x member := by
    have := w.pending l x member
    grind
  retired x member := by
    have := w.retired x member
    grind
  back x y own := by
    have := w.back x y
    grind
  stale x y own := by
    have := w.stale x y own
    have := w.pending
    grind
  newHttp x fresh := by
    have := w.newHttp x fresh
    grind [Http.isAlive]

theorem WellFormed.setHome (w : WellFormed limit held p) {f : Http → Http}
    (waits : (p.http h).backend = none) (unqueued : ∀ l, h ∉ (p.list l).pending)
    (same : (f (p.http h)).backend = none)
    (homeless : h ∈ p.toDelete → (f (p.http h)).backendList = none)
    (old : p.newHttp ≤ h → (f (p.http h)).backendList = none ∧ (f (p.http h)).isAlive = false) :
    WellFormed limit held (setHttp h f p) where
  nodup := w.nodup
  home := w.home
  idle := w.idle
  slots := w.slots
  pending_nodup := w.pending_nodup
  carried := w.carried
  newBackend := w.newBackend
  newList := w.newList
  http := w.http
  backendList := w.backendList
  homed := w.homed
  scheduled := w.scheduled
  addressTo := w.addressTo
  maxBackend := w.maxBackend
  busy l x member free := by
    have := w.busy l x member free
    grind
  pending l x member := by
    have := w.pending l x member
    have := unqueued l
    grind
  retired x member := by
    by_cases own : x = h
    · subst own
      simpa using ⟨same, homeless member⟩
    · simpa [own] using w.retired x member
  back x y own := by
    have := w.back x y
    grind
  stale x y own := by
    have := w.stale x y own
    grind
  newHttp x fresh := by
    by_cases own : x = h
    · subst own
      simpa using ⟨same, old fresh⟩
    · simpa [own] using w.newHttp x fresh

theorem WellFormed.schedule (w : WellFormed limit held p) (waits : (p.http h).backend = none)
    (homeless : (p.http h).backendList = none) (old : h < p.newHttp) :
    WellFormed limit held { p with toDelete := p.toDelete.insert h } where
  retired x member := by
    obtain rfl | member := List.mem_insert_iff.mp member
    · exact ⟨waits, homeless⟩
    · exact w.retired x member
  scheduled x member := by
    obtain rfl | member := List.mem_insert_iff.mp member
    · exact old
    · exact w.scheduled x member
  __ := w

theorem WellFormed.retire (w : WellFormed limit held p) (waits : (p.http h).backend = none)
    (unqueued : ∀ l, h ∉ (p.list l).pending) (fromDestructor : Bool) :
    WellFormed limit held (retire fromDestructor h p) := by
  unfold Pool.retire
  have left : WellFormed limit held (setHttp h ({ · with backend := none, backendList := none }) p) :=
    w.setHome waits unqueued rfl (fun _ => rfl) fun fresh => ⟨rfl, (w.newHttp h fresh).2.2⟩
  dsimp only
  split
  · rename_i alive
    refine ((SameLinks.unregister h).trans (.setHttp ⟨rfl, rfl, ?_, ?_⟩)).wellFormed
      (left.schedule (by simp) (by simp) ?_)
    · simp [Http.isAlive]
    · exact fun wanted => .inr (wanted.resolve_left (by simp [Http.isAlive]))
    · by_contra fresh
      have := (w.newHttp h (not_lt.mp fresh)).2.2
      simp only [Http.isAlive] at this alive
      simp [this] at alive
  · refine ((SameLinks.unregister h).trans (.setHttp ⟨rfl, rfl, ?_, ?_⟩)).wellFormed left
    · simp [Http.isAlive]
    · exact fun wanted => .inr (wanted.resolve_left (by simp [Http.isAlive]))

@[simp, grind =] theorem allocBackend_backend (system : System) (x : BackendId) :
    (allocBackend system l p).backend x = if x = p.newBackend then
      ⟨none, system.connect p.newBackend ≠ .closed, false, system.currentTime, some l⟩
    else p.backend x := by
  simp only [Pool.allocBackend, setBackend_backend]

@[simp, grind =] theorem allocBackend_http (system : System) (x : HttpId) :
    (allocBackend system l p).http x = p.http x := rfl

@[simp, grind =] theorem allocBackend_list (system : System) (x : ListId) :
    (allocBackend system l p).list x = p.list x := rfl

theorem WellFormed.not_mem_new (w : WellFormed limit held p) (l' : ListId) :
    p.newBackend ∉ (p.list l').busy ++ (p.list l').idle := by
  intro member
  have := w.home l' _ member
  rw [(w.newBackend _ le_rfl).2] at this
  cases this

theorem WellFormed.allocBackend (w : WellFormed limit none p) (system : System) (old : l < p.newList) :
    WellFormed limit none (allocBackend system l p) where
  nodup := w.nodup
  slots := w.slots
  pending_nodup := w.pending_nodup
  pending := w.pending
  retired := w.retired
  newHttp := w.newHttp
  newList := w.newList
  scheduled := w.scheduled
  addressTo := w.addressTo
  maxBackend := w.maxBackend
  home l' x member := by
    have other : x ≠ p.newBackend := fun own => w.not_mem_new l' (own ▸ member)
    simpa [other] using w.home l' x member
  busy l' x member free := by
    have other : x ≠ p.newBackend := fun own =>
      w.not_mem_new l' (own ▸ List.mem_append_left _ member)
    simpa [other] using w.busy l' x member free
  idle l' x member := by
    have other : x ≠ p.newBackend := fun own =>
      w.not_mem_new l' (own ▸ List.mem_append_right _ member)
    simpa [other] using w.idle l' x member
  back x y own := by
    have other : y ≠ p.newBackend := by
      rintro rfl
      have := w.back x _ own
      rw [(w.newBackend _ le_rfl).1] at this
      cases this
    simpa [other] using w.back x y own
  stale x y own := by
    have := w.stale x y
    simp only [allocBackend_list, allocBackend_http]
    grind
  carried x y own valid free := by
    have := w.carried x y
    simp only [allocBackend_list]
    grind
  newBackend x fresh := by
    have other : x ≠ p.newBackend := Nat.ne_of_gt fresh
    simpa [other] using w.newBackend x (Nat.le_of_lt fresh)
  http x y own := by
    refine w.http x y ?_
    grind
  backendList x l' own := by
    by_cases new : x = p.newBackend
    · obtain rfl : l = l' := by simpa [new] using own
      exact old
    · simp only [allocBackend_backend, if_neg new] at own
      exact w.backendList x l' own
  homed x y own := by
    have := w.homed x y
    grind

theorem WellFormed.allocHttp (w : WellFormed limit none p) (system : System) (https : Bool)
    (path : Bytes) : WellFormed limit none (allocHttp system https path p) := by
  have set : WellFormed limit none (setHttp p.newHttp (fun _ => ⟨https, path, [], system.currentTime, 0,
      [], [], [], false, false, none, none⟩) p) := by
    obtain ⟨waits, homeless, -⟩ := w.newHttp _ le_rfl
    refine w.setHome waits (fun l member => ?_) rfl (fun _ => rfl) fun _ => ⟨rfl, rfl⟩
    have := (w.pending l _ member).2
    rw [homeless] at this
    cases this
  exact {
    __ := set
    newHttp := fun x fresh => set.newHttp x (Nat.le_of_lt fresh)
    http := fun b x linked => Nat.lt_succ_of_lt (set.http b x linked)
    scheduled := fun x member => Nat.lt_succ_of_lt (set.scheduled x member) }

theorem WellFormed.allocList (w : WellFormed limit none p) (s : SockAddr) :
    WellFormed limit none { Pool.setList p.newList (fun _ => ⟨[], [], [], s⟩) p with
      newList := p.newList + 1 } := by
  obtain ⟨noBusy, noIdle, noPending⟩ := w.newList _ le_rfl
  have set : WellFormed limit none (Pool.setList p.newList (fun _ => ⟨[], [], [], s⟩) p) := by
    refine w.setList (w.fits_of_sublist ?_ ?_ ?_ fun b h member _ _ _ => ?_)
    · exact List.nil_sublist _
    · exact List.nil_sublist _
    · exact List.nil_sublist _
    · rw [noBusy] at member
      exact member
  exact {
    __ := set
    newList := fun l fresh => set.newList l (Nat.le_of_lt fresh)
    backendList := fun b l home => Nat.lt_succ_of_lt (set.backendList b l home)
    addressTo := fun https addr l found => Nat.lt_succ_of_lt (set.addressTo https addr l found) }

theorem WellFormed.setAddress (w : WellFormed limit held p) (https : Bool) (addr : In6Addr)
    (old : l < p.newList) : WellFormed limit held (setAddress https addr (some l) p) where
  addressTo https' addr' l' found := by
    by_cases own : https' = https ∧ addr' = addr
    · obtain ⟨rfl, rfl⟩ := own
      obtain rfl : l = l' := by simpa [Pool.setAddress] using found
      exact old
    · refine w.addressTo https' addr' l' ?_
      simp only [Pool.setAddress, Function.update_apply] at found
      grind
  __ := w

theorem leavePending_list (x : ListId) : ((leavePending h p).list x).busy = (p.list x).busy ∧
    ((leavePending h p).list x).idle = (p.list x).idle ∧
    ((leavePending h p).list x).pending =
      if (p.http h).backendList = some x then (p.list x).pending.erase h else (p.list x).pending := by
  unfold leavePending
  split
  · simp_all
  · rename_i l home
    by_cases own : x = l
    · simp [own, home]
    · simp [own, home, Ne.symm own]

@[simp] theorem leavePending_http (x : HttpId) : (leavePending h p).http x = p.http x := by
  unfold leavePending
  split <;> rfl

@[simp] theorem leavePending_backend (x : BackendId) :
    (leavePending h p).backend x = p.backend x := by
  unfold leavePending
  split <;> rfl

theorem WellFormed.not_mem_leavePending (w : WellFormed limit held p) (l : ListId) :
    h ∉ ((Pool.leavePending h p).list l).pending := by
  rw [(leavePending_list l).2.2]
  split
  · exact (w.pending_nodup l).not_mem_erase
  · rename_i home
    exact fun member => home (w.pending l h member).2

theorem WellFormed.leave (w : WellFormed limit held p) (waits : (p.http h).backend = none)
    (fromDestructor : Bool) :
    WellFormed limit held (Pool.retire fromDestructor h (Pool.leavePending h p)) :=
  w.leavePending.retire (by simpa using waits) w.not_mem_leavePending fromDestructor

def dismiss (h : HttpId) (p : Pool) : Pool :=
  retire false h (leavePending h (disconnectFrontend h (backendError h p)))

theorem SameLinks.dismissed (h : HttpId) :
    SameLinks p (Pool.disconnectFrontend h (Pool.backendError h p)) :=
  (SameLinks.backendError h).trans (SameLinks.disconnectFrontend h)

theorem WellFormed.dismiss (w : WellFormed limit held p) (waits : (p.http h).backend = none) :
    WellFormed limit held (dismiss h p) := by
  have same : SameLinks p _ := SameLinks.dismissed h
  refine (same.wellFormed w).leave ?_ false
  rw [(same.http h).1, waits]

theorem WellFormed.unqueued (w : WellFormed limit held p) (homeless : (p.http h).backendList = none) :
    h ∉ (p.list l).pending := by
  intro queued
  rw [(w.pending l h queued).2] at homeless
  cases homeless

theorem WellFormed.pending_unique (w : WellFormed limit held p) {x : ListId}
    (queued : h ∈ (p.list l).pending) (member : h ∈ (p.list x).pending) : x = l := by
  have home := (w.pending x h member).2
  rw [(w.pending l h queued).2] at home
  exact (Option.some_inj.mp home).symm

theorem WellFormed.loose_front (w : WellFormed limit held p) {rest : List HttpId}
    (queue : (p.list l).pending = h :: rest) : Loose h
      (Pool.setHttp h ({ · with pending := true }) (Pool.setList l ({ · with pending := rest }) p)) := by
  have queued : h ∈ (p.list l).pending := by simp [queue]
  refine ⟨by simpa using (w.pending l h queued).1, w.alone queued, ?_, ?_, ?_⟩
  · intro x member
    have once := w.pending_nodup l
    rw [queue, List.nodup_cons] at once
    by_cases own : x = l
    · exact once.1 (by simpa [own] using member)
    · exact own (w.pending_unique queued (by simpa [own] using member))
  · exact fun scheduled => w.unqueued (w.retired h scheduled).2 queued
  · by_contra fresh
    exact w.unqueued (w.newHttp h (not_lt.mp fresh)).2.1 queued

theorem WellFormed.finish (w : WellFormed limit (some b) p) (free : (p.backend b).http = none)
    (connected : (p.backend b).wasTCPConnected = true)
    (home : (p.backend b).backendList = some l) (notIdle : b ∉ (p.list l).idle)
    (carried : b ∈ (p.list l).busy ∨ (p.backend b).isValid = false) :
    WellFormed limit none (Pool.park l b (Pool.leaveBusy l b p)) := by
  have left := w.leaveBusy (l := l) (.inl rfl)
  refine (left.release free (w.not_mem_leaveBusy home)).park free connected home ?_ ?_
  · rw [List.mem_append, not_or]
    exact ⟨w.not_mem_leaveBusy home l, by simpa [Pool.leaveBusy] using notIdle⟩
  · intro valid
    have member : b ∈ (p.list l).busy := carried.resolve_right (by simpa [Pool.leaveBusy] using valid)
    have slots := w.slots l
    have positive := List.length_pos_of_mem member
    change _ < p.maxBackend
    simp only [Pool.leaveBusy, setList_list, if_true, List.length_erase_of_mem member]
    omega

theorem WellFormed.of_linked (w : WellFormed limit none p) (linked : (p.backend b).http = some h)
    (home : (p.backend b).backendList = some l) :
    b ∉ (p.list l).idle ∧ (b ∈ (p.list l).busy ∨ (p.backend b).isValid = false) := by
  refine ⟨fun member => ?_, ?_⟩
  · rw [(w.idle l b member).1] at linked
    cases linked
  · cases valid : (p.backend b).isValid with
    | false => exact .inr rfl
    | true =>
      obtain ⟨l', member⟩ := w.carried b h linked valid (Option.some_ne_none _).symm
      have := w.home l' b (List.mem_append_left _ member)
      rw [home] at this
      obtain rfl : l = l' := Option.some_inj.mp this
      exact .inl member

theorem SameLinks.takeRequest {p' : Pool} (same : SameLinks p p') (b : BackendId) :
    SameLinks (Pool.setBackend b ({ · with http := none }) p)
      (Pool.setBackend b ({ · with http := none }) p') where
  maxBackend := same.maxBackend
  newBackend := same.newBackend
  newHttp := same.newHttp
  newList := same.newList
  addressTo := same.addressTo
  toDelete := same.toDelete
  list := same.list
  http := same.http
  backend x := by
    by_cases own : x = b
    · subst own
      simpa using (same.backend x).2
    · simpa [own] using same.backend x

theorem SameLinks.shut (b : BackendId) : SameLinks p (Pool.shut b p) := by
  unfold Pool.shut
  split
  · exact close b
  · exact (close b).trans (resetRequestSended _)

theorem SameLinks.unlink {p' : Pool} (s : SameLinks p p') (b : BackendId) (h : HttpId) :
    SameLinks (unlink b h p) (unlink b h p') := by
  refine SameLinks.takeRequest ?_ b
  exact {
    maxBackend := s.maxBackend
    newBackend := s.newBackend
    newHttp := s.newHttp
    newList := s.newList
    addressTo := s.addressTo
    toDelete := s.toDelete
    list := s.list
    backend := s.backend
    http := fun x => by
      by_cases own : x = h
      · subst own
        simp only [setHttp_http, if_true]
        exact ⟨trivial, (s.http x).2⟩
      · simpa [own] using s.http x }

theorem WellFormed.serveIdle (w : WellFormed limit none p) (loose : Loose h p)
    (last : (p.list l).idle.getLast? = some b) :
    WellFormed limit none (Pool.link b h (Pool.setList l (fun x => { x with
      idle := x.idle.dropLast, busy := x.busy ++ [b] }) p)) := by
  have member : b ∈ (p.list l).idle := List.mem_of_getLast? last
  have taken := w.takeIdle last
  have apart := taken.nodup l
  refine taken.link (l := l) (w.idle l b member).1 (w.home l b (List.mem_append_right _ member))
    ?_ (.inl (by simp)) ⟨loose.waits, loose.alone, fun x queued => ?_, loose.kept, loose.old⟩
  · simp only [setList_list, if_true, List.append_assoc, List.singleton_append] at apart ⊢
    rw [List.nodup_middle, List.nodup_cons] at apart
    exact fun still => apart.1 (List.mem_append_right _ still)
  · refine loose.unqueued x ?_
    by_cases own : x = l <;> simpa [own] using queued

theorem WellFormed.serveNew (w : WellFormed limit none p) (loose : Loose h p)
    (free : (p.backend b).http = none) (home : (p.backend b).backendList = some l)
    (apart : b ∉ (p.list l).busy ++ (p.list l).idle)
    (room : (p.list l).busy.length + (p.list l).idle.length < p.maxBackend) :
    WellFormed limit none (Pool.enterBusy l b (Pool.link b h p)) := by
  have entered := w.enterBusy home apart room
  refine entered.link (l := l) free home ?_ (.inl ?_)
    ⟨loose.waits, loose.alone, fun x queued => ?_, loose.kept, loose.old⟩
  · simpa [Pool.enterBusy] using fun member => apart (List.mem_append_right _ member)
  · simp [Pool.enterBusy]
  · refine loose.unqueued x ?_
    by_cases own : x = l <;> simpa [Pool.enterBusy, own] using queued

theorem WellFormed.loose_unlink (w : WellFormed limit none p) (linked : (p.backend b).http = some h)
    (back : (p.http h).backend = some b) : Loose h (Pool.setBackend b ({ · with http := none })
      (setHttp h ({ · with backend := none }) p)) where
  waits := by simp
  alone x := by
    by_cases own : x = b
    · simp [own]
    · intro named
      simp only [setBackend_backend, if_neg own, setHttp_backend] at named
      have := w.stale x h named
      rw [back] at this
      obtain same | ⟨⟨⟩, -⟩ := this
      exact own (Option.some_inj.mp same).symm
  unqueued l member := by
    rw [(w.pending l h member).1] at back
    cases back
  kept member := by
    rw [(w.retired h member).1] at back
    cases back
  old := w.http b h linked

theorem WellFormed.setLoose (w : WellFormed limit none p) (loose : Loose h p) {f : Http → Http}
    (waits : (f (p.http h)).backend = none) :
    WellFormed limit none (Pool.setHttp h f p) ∧ Loose h (Pool.setHttp h f p) := by
  refine ⟨w.setHome loose.waits loose.unqueued waits (fun member => ?_) fun fresh => ?_,
    by simpa using waits, loose.alone, loose.unqueued, loose.kept, loose.old⟩
  · exact absurd member loose.kept
  · exact absurd loose.old (not_lt.mpr fresh)

theorem Loose.allocBackend {system : System} (loose : Loose h p) : Loose h (Pool.allocBackend system l p) where
  waits := loose.waits
  alone x := by
    by_cases new : x = p.newBackend
    · simp [new]
    · simpa [new] using loose.alone x
  unqueued := loose.unqueued
  kept := loose.kept
  old := loose.old

theorem WellFormed.openNew (w : WellFormed limit none p) (loose : Loose h p) (old : l < p.newList)
    (room : (p.list l).busy.length + (p.list l).idle.length < p.maxBackend) :
    WellFormed limit none (Pool.enterBusy l p.newBackend
      (Pool.link p.newBackend h (Pool.allocBackend system l p))) :=
  (w.allocBackend system old).serveNew loose.allocBackend (by simp) (by simp) (w.not_mem_new l) room

theorem WellFormed.loose_new (w : WellFormed limit none p) (https : Bool) (path : Bytes) :
    Loose p.newHttp (Pool.allocHttp system https path p) where
  waits := by simp [Pool.allocHttp]
  alone b named := absurd (w.http b _ named) (lt_irrefl _)
  unqueued l member := by
    have := (w.pending l _ member).2
    rw [(w.newHttp _ le_rfl).2.1] at this
    cases this
  kept member := absurd (w.scheduled _ member) (lt_irrefl _)
  old := Nat.lt_succ_self _

end moves

end FastCgiCdn.PoolInvariant
