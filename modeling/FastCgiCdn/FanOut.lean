import FastCgiCdn.ClientOutput
import FastCgiCdn.RangeFor

/-! The loops of a download over its clients. A client that ends takes itself out
of `clientsList` through `disconnectFromHttp`, so the loops that end clients reach
all of them exactly when there are at most two, and the loops that let them read
reach all exactly when none before the last two ends in its turn. -/

namespace FastCgiCdn.FanOut

open HttpModel ClientOutput RangeFor

/-- The clients of a download with `clientsList`. -/
abbrev Clients (ι κ : Type) := Fan κ (Client ι)

/-- What a loop leaves, and the clients it visits. -/
abbrev Looped (ι κ : Type) := Clients ι κ × List κ

inductive NonHttpError
  | alreadySend
  | timeout
  | unknown
  deriving DecidableEq, Repr

def NonHttpError.text : NonHttpError → Bytes
  | alreadySend => ascii "Tcp request already send (internal error)"
  | timeout => ascii "Http timeout, too many time without data (internal error)"
  | unknown => ascii "Unknown non HTTP error"

section Loops

variable {ι κ : Type} [DecidableEq κ] (socket : κ → Schedule) (disk : ι → Bytes)

def forEach (f : κ → Client ι → Client ι) (w : Clients ι κ) : Looped ι κ := loop Client.http f w

def Looped.clear (r : Looped ι κ) : Looped ι κ := ({ r.1 with slots := r.1.slots.clear }, r.2)

def httpErrors (errorString : Bytes) (w : Clients ι κ) : Looped ι κ :=
  forEach (fun i => Client.httpError (socket i) disk errorString) w

def disconnectFrontend (w : Clients ι κ) : Looped ι κ :=
  (forEach (fun i c => (c.writeEnd (socket i) disk).disconnect) w).clear

def backendError (errorString : Bytes) (w : Clients ι κ) : Looped ι κ :=
  (httpErrors socket disk errorString w).clear

/-- The texts are those of the three branches; none of them clears the list. -/
def parseNonHttpError (error : NonHttpError) (w : Clients ι κ) : Looped ι κ :=
  httpErrors socket disk error.text w

def startReads (opening : κ → Opening ι) (isPartial : Bool) (w : Clients ι κ) : Looped ι κ :=
  forEach (fun i => Client.startRead (socket i) disk (opening i) isPartial) w

/-- The loop of `Http::write` after each write to the cache file. -/
def resumeReads (w : Clients ι κ) : Looped ι κ :=
  forEach (fun i => Client.tryResumeReadAfterEndOfFile (socket i) disk) w

/-- What an event of its own does to one client. -/
def act (f : Client ι → Client ι) (i : κ) (w : Clients ι κ) : Clients ι κ :=
  visit Client.http (fun _ => f) i w

/-- `addClient` of a live download, with the client that has just been pointed to
it. A client that comes after the head starts to read. -/
def addClient (started : Option (Opening ι)) (i : κ) (w : Clients ι κ) : Clients ι κ :=
  let w : Clients ι κ :=
    ⟨w.slots.push i, Function.update w.state i { w.state i with http := true }⟩
  match started with
  | none => w
  | some o => act (Client.startRead (socket i) disk o true) i w

/-- `ok` says that the old cache file was there and could be marked as checked. -/
def HttpReturnCode (errorCode : ℕ) (ok : Bool) (opening : κ → Opening ι) (w : Clients ι κ) :
    Looped ι κ × Bool :=
  if errorCode = 200 then ((w, []), true)
  else if errorCode = 304 && ok then (startReads socket disk opening false w, false)
  else ((httpErrors socket disk (ascii "Http " ++ Common.toDecimal errorCode) w).clear, false)

end Loops

variable {ι κ : Type} [DecidableEq κ] {socket : κ → Schedule} {disk : ι → Bytes}
  {w : Clients ι κ}

/-- Each client has been ended once, the list is empty, and no client points to
the download. -/
def Ended (w : Clients ι κ) (r : Looped ι κ) : Prop :=
  (∀ i ∈ w.slots.live, r.2.count i = 1) ∧ r.1.slots.live = [] ∧ ∀ i, (r.1.state i).http = false

def VisitedOnce (w : Clients ι κ) (r : Looped ι κ) : Prop :=
  ∀ i ∈ w.slots.live, r.2.count i = 1

/-- No client but the last two ends in its turn. -/
def Stay (f : κ → Client ι → Client ι) (w : Clients ι κ) : Prop := Steady Client.http f w

theorem forEach_ended_iff {f : κ → Client ι → Client ι} (tied : Tied Client.http w)
    (leaves : ∀ i c, (f i c).http = false) :
    Ended w (forEach f w) ↔ w.slots.live.length ≤ 2 := by
  constructor
  · intro ended
    exact (loop_empties_iff tied leaves).mp ended.2.2
  · intro few
    refine ⟨?_, loop_live_eq_nil tied leaves few, (loop_empties_iff tied leaves).mpr few⟩
    apply (loop_visits_iff tied.distinct fun i listed => (tied.back i).mp listed).mpr
    intro k a _ early
    omega

theorem clear_ended_iff {f : κ → Client ι → Client ι} (tied : Tied Client.http w)
    (leaves : ∀ i c, (f i c).http = false) :
    Ended w (forEach f w).clear ↔ w.slots.live.length ≤ 2 := by
  constructor
  · intro ended
    exact (loop_empties_iff tied leaves).mp ended.2.2
  · intro few
    have ended := (forEach_ended_iff tied leaves).mpr few
    exact ⟨ended.1, rfl, ended.2.2⟩

theorem forEach_visited_iff (f : κ → Client ι → Client ι) (tied : Tied Client.http w) :
    VisitedOnce w (forEach f w) ↔ Stay f w :=
  loop_visits_iff tied.distinct fun i listed => (tied.back i).mp listed

theorem httpError_http (s : Schedule) (errorString : Bytes) (c : Client ι) :
    (c.httpError s disk errorString).http = false := rfl

theorem ending_http (s : Schedule) (c : Client ι) :
    (c.writeEnd s disk).disconnect.http = false := rfl

/-- The loops that end clients reach all exactly when there are at most two; those
that let them read, exactly when none but the last two ends in its turn. -/
theorem fan_out_reaches_every_client_iff (socket : κ → Schedule) (disk : ι → Bytes)
    (w : Clients ι κ) (tied : Tied Client.http w) :
    (Ended w (disconnectFrontend socket disk w) ↔ w.slots.live.length ≤ 2) ∧
      (∀ errorString, Ended w (backendError socket disk errorString w) ↔
        w.slots.live.length ≤ 2) ∧
      (∀ errorCode ok opening, errorCode ≠ 200 → ¬(errorCode = 304 ∧ ok = true) →
        (Ended w (HttpReturnCode socket disk errorCode ok opening w).1 ↔
          w.slots.live.length ≤ 2)) ∧
      (∀ error, Ended w (parseNonHttpError socket disk error w) ↔ w.slots.live.length ≤ 2) ∧
      (∀ opening, VisitedOnce w (HttpReturnCode socket disk 304 true opening w).1 ↔
        Stay (fun i => Client.startRead (socket i) disk (opening i) false) w) ∧
      (VisitedOnce w (resumeReads socket disk w) ↔
        Stay (fun i => Client.tryResumeReadAfterEndOfFile (socket i) disk) w) := by
  refine ⟨?_, ?_, ?_, ?_, ?_, ?_⟩
  · exact clear_ended_iff tied fun i c => ending_http (socket i) c
  · intro errorString
    exact clear_ended_iff tied fun i c => httpError_http (socket i) errorString c
  · intro errorCode ok opening failed changed
    simp only [HttpReturnCode, failed, if_false, Bool.and_eq_true, decide_eq_true_eq, changed]
    exact clear_ended_iff tied fun i c => httpError_http (socket i) _ c
  · intro error
    exact forEach_ended_iff tied fun i c => httpError_http (socket i) error.text c
  · intro opening
    exact forEach_visited_iff _ tied
  · exact forEach_visited_iff _ tied

def attached (n : ℕ) : Clients Unit ℕ where
  slots := ⟨List.range n, []⟩
  state i := { Client.new with http := decide (i < n), isPartial := true }

theorem attached_tied (n : ℕ) : Tied Client.http (attached n) where
  distinct := List.nodup_range
  back b := by simp [attached]

def ready : ℕ → Schedule := fun _ _ => ⟨.whole, none, 0⟩

theorem two_clients_are_ended :
    Ended (attached 2) (disconnectFrontend ready (fun _ => []) (attached 2)) :=
  (fan_out_reaches_every_client_iff ready (fun _ => []) (attached 2) (attached_tied 2)).1.mpr
    (by decide)

/-- The first of three ends, the second moves into its place, and the third is
visited in the place of the second, and once more. -/
theorem third_client_hides_the_second :
    Tied Client.http (attached 3) ∧
      (disconnectFrontend ready (fun _ => []) (attached 3)).2 = [0, 2, 2] ∧
      ¬Ended (attached 3) (disconnectFrontend ready (fun _ => []) (attached 3)) := by
  refine ⟨attached_tied 3, by decide, ?_⟩
  intro ended
  have free := ended.2.2 1
  revert free
  decide

end FastCgiCdn.FanOut
