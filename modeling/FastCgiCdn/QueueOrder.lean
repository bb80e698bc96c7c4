import FastCgiCdn.EmptyLists
import FastCgiCdn.PoolMoves
import FastCgiCdn.TimedOut
import FastCgiCdn.WaitingLine

/-! The requests that wait for a backend of one origin are served in the order in
which they were queued. -/

namespace FastCgiCdn.QueueOrder

open GuardedRuns DnsModel PoolModel Pool PoolInvariant PoolWellFormed PoolOutcomes PoolMoves WaitingLine

variable {limit n : ℕ} {engaged : BackendId → Prop} {system : System} {p p' : Pool} {b : BackendId} {h x y : HttpId}
variable {l l' : ListId}

section connecting

theorem connect_http (https : Bool) (s : SockAddr) (other : x ≠ h) :
    (tryConnectInternalList system https s h p).1.http x = p.http x := by
  unfold tryConnectInternalList
  split
  · dsimp only
    split
    · rw [show ∀ q : Pool, (readyToWrite system h q).http x = q.http x by
        intro q
        unfold readyToWrite
        split <;> simp [other]]
      simp [other]
    · split
      · split <;> simp [enterBusy, other]
      · simp [other]
  · dsimp only
    split <;> simp [setAddress, enterBusy, other, setList, setHttp, link, allocBackend, setBackend]

variable (system h p) in
theorem connect_pending (https : Bool) (s : SockAddr) (l : ListId) :
    ((tryConnectInternalList system https s h p).1.list l).pending = (p.list l).pending ∨
    ((tryConnectInternalList system https s h p).1.list l).pending = (p.list l).pending ++ [h] ∨
    ((tryConnectInternalList system https s h p).1.list l).pending = [] := by
  cases known : p.addressTo https s.sin6_addr with
  | some l' =>
    rw [(EmptyLists.tryConnectInternalList_known system h known).2]
    by_cases own : l = l'
    · subst own
      rw [Function.update_self]
      unfold EmptyLists.connectedList
      split
      · exact .inl rfl
      · split
        · split <;> exact .inl rfl
        · exact .inr (.inl rfl)
    · rw [Function.update_of_ne own]
      exact .inl rfl
  | none =>
    by_cases new : l = p.newList
    · refine .inr (.inr ?_)
      unfold tryConnectInternalList
      rw [known]
      dsimp only
      split <;> simp [new, setAddress, enterBusy, setList, setHttp, link, allocBackend, setBackend]
    · rw [(EmptyLists.tryConnectInternalList_unknown system h known).1 l new]
      exact .inl rfl

end connecting

/-- While `x` waits in the list, `y` has not been served before it. -/
def Unpassed (l : ListId) (x y : HttpId) (p : Pool) : Prop :=
  x ∈ (p.list l).pending → Ahead x y (p.list l).pending ∧ (p.http y).backend = none ∧
    ∀ l', l' ≠ l → y ∉ (p.list l').pending

namespace Unpassed

theorem of_same (u : Unpassed l x y p) (list : ∀ l', (p'.list l').pending = (p.list l').pending)
    (http : (p.http y).backend = none → (p'.http y).backend = none) : Unpassed l x y p' := by
  intro waits
  rw [list] at waits ⊢
  obtain ⟨ahead, unserved, elsewhere⟩ := u waits
  exact ⟨ahead, http unserved, fun l' other => by rw [list]; exact elsewhere l' other⟩

theorem setHttp (u : Unpassed l x y p) {f : Http → Http}
    (kept : h = y → (p.http y).backend = none → (f (p.http y)).backend = none) :
    Unpassed l x y (setHttp h f p) := by
  refine u.of_same (fun _ => rfl) fun unserved => ?_
  by_cases own : y = h
  · subst own
    rw [setHttp_http, if_pos rfl]
    exact kept rfl unserved
  · rw [setHttp_http, if_neg own]
    exact unserved

theorem lose (u : Unpassed l x y p) {f : Http → Http} (less : Less (p.http h) (f (p.http h))) :
    Unpassed l x y (Pool.setHttp h f p) := by
  refine u.setHttp fun own unserved => ?_
  subst own
  obtain kept | gone := less.backend
  · rw [kept, unserved]
  · exact gone

theorem reassign (u : Unpassed l x y p) (own : (p.http h).backend = some b) :
    Unpassed l x y (reassign system l' b h p) := by
  refine u.of_same (fun l'' => ?_) fun unserved => ?_
  · rw [reassign_list]
    by_cases own : l'' = l'
    · subst own
      rw [Function.update_self]
      unfold reassignedList
      split
      · rfl
      · split <;> rfl
    · rw [Function.update_of_ne own]
  · have other : y ≠ h := by
      rintro rfl
      rw [own] at unserved
      cases unserved
    rw [TimedOut.reassign_http other]
    exact unserved

theorem erase (u : Unpassed l x y p) (l' : ListId) (h : HttpId) :
    Unpassed l x y (setList l' (fun z => { z with pending := z.pending.erase h }) p) := by
  intro waits
  by_cases own : l = l'
  · subst own
    simp only [setList_list, if_true] at waits ⊢
    obtain ⟨ahead, unserved, elsewhere⟩ := u (List.mem_of_mem_erase waits)
    refine ⟨ahead.erase waits, unserved, fun l' other => ?_⟩
    rw [if_neg other]
    exact elsewhere l' other
  · simp only [setList_list, if_neg own] at waits ⊢
    obtain ⟨ahead, unserved, elsewhere⟩ := u waits
    refine ⟨ahead, unserved, fun l'' other member => ?_⟩
    split at member
    · rename_i same
      subst same
      exact elsewhere l'' other (List.mem_of_mem_erase member)
    · exact elsewhere l'' other member

theorem serve (u : Unpassed l x y p) (apart : x ≠ y) {rest : List HttpId}
    (queue : (p.list l').pending = h :: rest) : Unpassed l x y (serve system l' b h rest p) := by
  have popped : setList l' ({ · with pending := rest }) p =
      setList l' (fun z => { z with pending := z.pending.erase h }) p := by
    simp [setList, queue]
  have left : Unpassed l x y (setList l' ({ · with pending := rest }) p) := by
    rw [popped]
    exact u.erase l' h
  intro waits
  have lists : (PoolOutcomes.serve system l' b h rest p).list =
      (setList l' ({ · with pending := rest }) p).list := serve_list rest
  rw [lists] at waits ⊢
  obtain ⟨ahead, unserved, elsewhere⟩ := left waits
  refine ⟨ahead, ?_, elsewhere⟩
  have other : y ≠ h := by
    rintro rfl
    have before : x ∈ (p.list l).pending := by
      rw [popped] at waits
      by_cases own : l = l'
      · subst own
        simp only [setList_list, if_true] at waits
        exact List.mem_of_mem_erase waits
      · simpa only [setList_list, if_neg own] using waits
    obtain ⟨ahead', -, elsewhere'⟩ := u before
    by_cases own : l' = l
    · subst own
      rw [queue] at ahead'
      exact ahead'.head_ne apart rfl
    · exact elsewhere' l' own (by simp [queue])
  unfold PoolOutcomes.serve
  rw [readyToWrite_backend]
  simpa [other] using unserved

theorem connect (u : Unpassed l x y p) (https : Bool) (s : SockAddr) (notFirst : x ≠ h)
    (notLast : y ≠ h) : Unpassed l x y (tryConnectInternalList system https s h p).1 := by
  have before (l' : ListId) (z : HttpId) (other : z ≠ h)
      (member : z ∈ ((tryConnectInternalList system https s h p).1.list l').pending) :
      z ∈ (p.list l').pending := by
    obtain same | longer | none_left := connect_pending system p h https s l'
    · rwa [same] at member
    · rw [longer, List.mem_append, List.mem_singleton] at member
      exact member.resolve_right other
    · rw [none_left] at member
      cases member
  intro waits
  obtain ⟨ahead, unserved, elsewhere⟩ := u (before l x notFirst waits)
  refine ⟨?_, ?_, fun l' other member => elsewhere l' other (before l' y notLast member)⟩
  · obtain same | longer | none_left := connect_pending system p h https s l
    · rw [same]
      exact ahead
    · rw [longer]
      exact ahead.append notFirst
    · rw [none_left] at waits
      cases waits
  · rw [connect_http https s notLast]
    exact unserved

end Unpassed

theorem move_unpassed (apart : x ≠ y) (first : x < n) (last : y < n)
    (move : Move system n engaged p p') (u : Unpassed l x y p) : Unpassed l x y p' := by
  cases move with
  | http h f less => exact u.lose less
  | backend b f weaker => exact u.of_same (fun _ => rfl) id
  | path https path => exact u.of_same (fun _ => rfl) id
  | join h client alive => exact u.setHttp fun _ unserved => unserved
  | answered b busy => exact u.of_same (fun _ => rfl) id
  | leaveBusy l' b spent => exact u.of_same (leaveBusy_pending p b l') id
  | leaveIdle l' b closed =>
    refine u.of_same (fun l'' => ?_) id
    by_cases own : l'' = l' <;> simp [leaveIdle, own]
  | rest l' b busy =>
    refine u.of_same (fun l'' => ?_) fun unserved => ?_
    · rw [park_pending, leaveBusy_pending]
    · rw [park_http]
      exact unserved
  | @replace l' b h busy closed own apart' old =>
    have left : Unpassed l x y (leaveBusy l' b p) := u.of_same (leaveBusy_pending p b l') id
    exact left.reassign own
  | dequeue l' h => exact u.erase l' h
  | serve queue carrier => exact u.serve apart queue
  | schedule h f alive less dead =>
    have lost : Unpassed l x y (setHttp h f p) := u.lose less
    exact lost.of_same (fun _ => rfl) id
  | bury h => exact u.of_same (fun _ => rfl) id
  | alloc https path old _ =>
    refine u.of_same (fun _ => rfl) fun unserved => ?_
    have other : y ≠ p.newHttp := Nat.ne_of_lt (Nat.lt_of_lt_of_le last old)
    rw [SingleFlight.allocHttp_http, if_neg other]
    exact unserved
  | young h f young _ _ =>
    refine u.setHttp fun own _ => ?_
    rw [own] at young
    exact absurd last (Nat.not_lt.mpr young)
  | connect https s h young _ =>
    exact u.connect https s (Nat.ne_of_lt (Nat.lt_of_lt_of_le first young))
      (Nat.ne_of_lt (Nat.lt_of_lt_of_le last young))
  | enlist https path h young free => exact u.of_same (fun _ => rfl) id

theorem move_newHttp (move : Move system n engaged p p') : p.newHttp ≤ p'.newHttp := by
  cases move with
  | alloc https path old _ => exact Nat.le_succ _
  | rest l b busy =>
    unfold park
    split <;> exact Nat.le_refl _
  | @replace l b h busy closed own apart old =>
    have kept : PathMaps.Keeps (leaveBusy l b p) (reassign system l b h (leaveBusy l b p)) :=
      .reassign
    exact kept.newHttp.ge
  | @serve l b h rest queue carrier =>
    have kept : SameLinks _ (serve system l b h rest p) := .readyToWrite system h
    exact kept.newHttp.ge
  | connect https s h young _ =>
    exact (PathMaps.Keeps.tryConnectInternalList system h https s).newHttp.ge
  | _ => exact Nat.le_refl _

theorem chain_newHttp (chain : Chain system n engaged p p') : p.newHttp ≤ p'.newHttp :=
  chain.keeps (P := fun q => p.newHttp ≤ q.newHttp)
    (fun _ _ move le => Nat.le_trans le (move_newHttp move)) (Nat.le_refl _)

/-- A request that is queued behind another one for the same origin is not given a
backend while the other one waits, whatever happens to either of them. -/
theorem nobody_overtakes {maxBackend : ℕ} (positive : 1 ≤ maxBackend) {p p' : Pool}
    (reached : Reach Step anyStep (· = initial maxBackend) p) {l : ListId} {x y : HttpId}
    (order : [x, y].Sublist (p.list l).pending) (later : Reach Step anyStep (· = p) p')
    (waits : x ∈ (p'.list l).pending) : (p'.http y).backend = none := by
  have w := reach_wellFormed positive reached
  have old (z : HttpId) (queued : z ∈ (p.list l).pending) : z < p.newHttp := by
    by_contra fresh
    have homeless := (w.newHttp z (Nat.not_lt.mp fresh)).2.1
    rw [(w.pending l z queued).2] at homeless
    cases homeless
  have first := order.subset (List.mem_cons_self)
  have last := order.subset (List.mem_cons_of_mem x List.mem_cons_self)
  have apart : x ≠ y := by
    have once := (w.pending_nodup l).sublist order
    simpa using once
  have base : Unpassed l x y p := by
    intro _
    refine ⟨ahead_of_sublist (w.pending_nodup l) order, (w.pending l y last).1, ?_⟩
    intro l' other queued
    have home := (w.pending l y last).2
    rw [(w.pending l' y queued).2] at home
    exact other (Option.some_inj.mp home)
  have kept : WellFormed maxBackend none p' ∧ p.newHttp ≤ p'.newHttp ∧ Unpassed l x y p' := by
    clear waits
    induction later with
    | start same =>
      subst same
      exact ⟨w, Nat.le_refl _, base⟩
    | next _ _ taken ih =>
      obtain ⟨w', grown, u⟩ := ih
      have chain := step_chain w' taken
      refine ⟨step_wellFormed w' taken, Nat.le_trans grown (chain_newHttp chain), ?_⟩
      refine chain.keeps (fun _ _ => move_unpassed apart ?_ ?_) u
      · exact Nat.lt_of_lt_of_le (old x first) grown
      · exact Nat.lt_of_lt_of_le (old y last) grown
  exact (kept.2.2 waits).2.1

def visit (page : Byte) (client : ClientId) : System × Event :=
  (DeadOrigin.connecting, .dnsRight ⟨false, [99, page], [97], [47], [], client⟩ ⟨.zero, 80⟩)

theorem third_page_waits : ∃ p p', Reach Step anyStep (· = initial 1) p ∧
    Reach Step anyStep (· = p) p' ∧ (p.list 0).pending = [1, 2] ∧
    (p'.list 0).pending = [1, 2, 3] ∧ (p'.http 2).backend = none := by
  have reached : Reach Step anyStep (· = initial 1) _ :=
    .next (e := visit 3 9) (.next (e := visit 2 8) (.next (e := visit 1 7) (.start rfl) trivial
      ⟨trivial, 0, fun _ => rfl⟩) trivial ⟨trivial, 0, fun _ => rfl⟩) trivial
      ⟨trivial, 0, fun _ => rfl⟩
  refine ⟨_, _, reached, .next (e := visit 4 10) (.start rfl) trivial
    ⟨trivial, 0, fun _ => rfl⟩, rfl, rfl, ?_⟩
  exact nobody_overtakes (Nat.le_refl 1) reached (l := 0) (x := 1) (y := 2) (.refl _)
    (.next (e := visit 4 10) (.start rfl) trivial ⟨trivial, 0, fun _ => rfl⟩) List.mem_cons_self

end FastCgiCdn.QueueOrder
