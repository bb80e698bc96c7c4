import FastCgiCdn.EmptyLists
import FastCgiCdn.Sweep
import FastCgiCdn.TimeoutTurns
import Mathlib.Data.List.TakeWhile

/-! A run of `CheckTimeout::exec`: `detectTimeout` is called by a range-for over each
`busy`, from which every expired backend takes itself out while the range-for stands
at its place. -/

namespace FastCgiCdn.TimeoutPass

open GuardedRuns DnsModel PoolModel Pool PoolInvariant PoolWellFormed PoolOutcomes TimeoutTurns Sweep

/-- What the system answers during one call of `detectTimeout`, which opens one
socket at most. -/
structure Turn where
  connect : Connect
  currentTime : ℕ

def Turn.system (turn : Turn) : System := ⟨fun _ => turn.connect, turn.currentTime⟩

def checkBusy (turns : ℕ → Turn) (depth : ℕ) (l : ListId) (p : Pool) :
    Option (List BackendId × Pool) :=
  sweep (fun p => (p.list l).busy) (fun k b => backendTimeout (turns k).system depth b)
    (p.list l).busy.length 0 [] p

def checkLists (turns : ListId → ℕ → Turn) (depth : ℕ) :
    List ListId → Pool → Option (List BackendId × Pool)
  | [], p => some ([], p)
  | l :: lists, p => (checkBusy (turns l) depth l p).bind fun (seen, p) =>
    (checkLists turns depth lists p).map fun (later, p) => (seen ++ later, p)

def checkDownloads (depth : ℕ) : List (System × HttpId) → Pool → Option Pool
  | [], p => some p
  | (system, h) :: downloads, p =>
    (httpTimeout system depth h p).bind (checkDownloads depth downloads)

/-- The lists in the order in which the two maps are walked. No call enters an address. -/
def listsOf (http https : List In6Addr) (p : Pool) : List ListId :=
  http.filterMap (p.addressTo false) ++ https.filterMap (p.addressTo true)

def disconnectClients (clients : List (HttpId × ClientId)) (p : Pool) : Pool :=
  clients.foldl (fun p (h, client) => removeClient h client p) p

/-- The busy backends of all lists, then the clients that are disconnected, then the
downloads in the order of the two path maps. -/
def exec (turns : ListId → ℕ → Turn) (depth : ℕ) (http https : List In6Addr)
    (clients : List (HttpId × ClientId)) (downloads : List (System × HttpId)) (p : Pool) :
    Option (List BackendId × Pool) :=
  (checkLists turns depth (listsOf http https p) p).bind fun (seen, p) =>
    (checkDownloads depth downloads (disconnectClients clients p)).map fun p => (seen, p)

variable {limit : ℕ} {system : System} {p p' q : Pool} {b c : BackendId} {h : HttpId} {l : ListId}

section turns

/-- A backend that times out now has another one take over a queued request. -/
def Replaced (turn : Turn) (b : BackendId) (l : ListId) (p : Pool) : Prop :=
  (p.backend b).wasTCPConnected = true ∧
    (∃ h ∈ (p.list l).pending, (p.http h).haveUrlAndFrontendConnected = true) ∧
    ((p.list l).idle ≠ [] ∨ turn.connect = .started)

/-- A backend of a list that has timed out is the last of it, or the one before it and
not replaced. -/
def Steady (turns : ℕ → Turn) (l : ListId) (p : Pool) : Prop :=
  ∀ k b, (p.list l).busy[k]? = some b → k + 2 ≤ (p.list l).busy.length →
    Overdue (turns k).system b p →
      k + 2 = (p.list l).busy.length ∧ ¬Replaced (turns k) b l p

theorem replacement_eq_nil_iff {turn : Turn} :
    replacement turn.system p b (p.list l) = [] ↔ ¬Replaced turn b l p := by
  have served : unserved p (p.list l).pending ≠ [] ↔
      ∃ h ∈ (p.list l).pending, (p.http h).haveUrlAndFrontendConnected = true := by
    rw [unserved, ne_eq, List.dropWhile_eq_nil_iff]
    simp
  unfold replacement Replaced
  rw [← served]
  by_cases serves : (p.backend b).wasTCPConnected = true ∧ unserved p (p.list l).pending ≠ []
  · rw [if_pos serves]
    cases last : (p.list l).idle.getLast? with
    | some c =>
      have some_idle : (p.list l).idle ≠ [] := List.ne_nil_of_mem (List.mem_of_getLast? last)
      simp [serves, some_idle]
    | none =>
      rw [List.getLast?_eq_none_iff] at last
      by_cases started : turn.connect = .started <;> simp [serves, last, Turn.system, started]
  · rw [if_neg serves]
    simp only [true_iff]
    rintro ⟨connected, waiting, -⟩
    exact serves ⟨connected, waiting⟩

theorem replacement_length (y : BackendList) : (replacement system p b y).length ≤ 1 := by
  unfold replacement
  split
  · split
    · exact Nat.le_refl 1
    · split
      · exact Nat.le_refl 1
      · exact Nat.zero_le 1
  · exact Nat.zero_le 1

theorem replacement_fresh (w : WellFormed limit none p)
    (member : c ∈ replacement system p b (p.list l)) : c ∉ (p.list l).busy := by
  unfold replacement at member
  intro busy
  split at member
  · split at member
    · rename_i d last
      rw [List.mem_singleton.mp member] at busy
      exact (List.nodup_append.mp (w.nodup l)).2.2 d busy d (List.mem_of_getLast? last) rfl
    · split at member
      · have home := w.home l c (List.mem_append_left _ busy)
        rw [List.mem_singleton.mp member, (w.newBackend _ (Nat.le_refl _)).2] at home
        cases home
      · cases member
  · cases member

theorem nextBusy_edits (w : WellFormed limit none p) :
    Edits b (p.list l).busy (nextBusy system l b p) := by
  unfold nextBusy
  split
  · rename_i expired
    exact .inr ⟨expired.1, _, replacement_length _, fun c => replacement_fresh w, rfl⟩
  · exact .inl rfl

theorem nextBusy_ne_iff (w : WellFormed limit none p) :
    nextBusy system l b p ≠ (p.list l).busy ↔ b ∈ (p.list l).busy ∧ Overdue system b p := by
  unfold nextBusy
  split
  · rename_i expired
    simp only [expired, and_self, iff_true]
    intro same
    have distinct : (p.list l).busy.Nodup := (List.nodup_append.mp (w.nodup l)).1
    have busy := expired.1
    rw [← same, List.mem_append] at busy
    exact busy.elim distinct.not_mem_erase fun new => replacement_fresh w new expired.1
  · rename_i calm
    simp [calm]

theorem nextBusy_congr (list : p'.list l = p.list l) (newBackend : p'.newBackend = p.newBackend)
    (http : p'.http = p.http) (backend : p'.backend b = p.backend b) :
    nextBusy system l b p' = nextBusy system l b p := by
  simp only [nextBusy, replacement, unserved, Overdue, list, newBackend, http, backend]
  exact if_congr Iff.rfl rfl rfl

variable {turns : ℕ → Turn} {depth : ℕ}

theorem orderly (turns : ℕ → Turn) (depth : ℕ) (l : ListId) :
    Orderly (fun p : Pool => (p.list l).busy)
      (fun k b => backendTimeout (turns k).system (depth + 2) b)
      (fun k b => nextBusy (turns k).system l b) (fun p => WellFormed limit none p) where
  distinct p w := (List.nodup_append.mp (w.nodup l)).1
  keeps k b p p' w run := backendTimeout_wellFormed w depth run
  moves k b p p' w run := turn_busy w l depth run
  edits k b p w := nextBusy_edits w
  apart k b p p' w busy run same := by
    intro j c other
    -- A call that keeps `busy` as it is moves only the time of its own backend.
    have calm : ¬Overdue (turns k).system b p := by
      intro overdue
      exact (nextBusy_ne_iff w).mpr ⟨busy, overdue⟩ same
    obtain ⟨h, linked, -⟩ := w.busy l b busy (Option.some_ne_none _).symm
    rw [backendTimeout_early linked calm, Option.some.injEq] at run
    rw [← run]
    exact nextBusy_congr rfl rfl rfl (by simp [other])
  leaves k b p p' w run := by
    intro j c other busy leaves
    obtain ⟨-, overdue⟩ := (nextBusy_ne_iff w).mp leaves
    have w' : WellFormed limit none p' := backendTimeout_wellFormed w depth run
    have old := allocated_of_home w (w.home l c (List.mem_append_left _ busy))
    refine (nextBusy_ne_iff w').mpr ⟨?_, ?_⟩
    · rw [turn_busy w l depth run]
      exact (nextBusy_edits (b := b) w).mem (v := ⟨(p.list l).busy, []⟩) other busy
    · rw [Overdue, ((turn_kept w depth run).2 c old).2.2 other]
      exact overdue

theorem regular_iff_steady (w : WellFormed limit none p) :
    Regular (fun p : Pool => (p.list l).busy) (fun k b => nextBusy (turns k).system l b) 0 p ↔
      Steady turns l p := by
  have shorter : ∀ k b, b ∈ (p.list l).busy → Overdue (turns k).system b p →
      ((nextBusy (turns k).system l b p).length < (p.list l).busy.length ↔
        ¬Replaced (turns k) b l p) := by
    intro k b busy overdue
    have positive : 0 < (p.list l).busy.length := List.length_pos_of_mem busy
    rw [nextBusy, if_pos ⟨busy, overdue⟩, List.length_append, List.length_erase_of_mem busy,
      ← replacement_eq_nil_iff, ← List.length_eq_zero_iff]
    omega
  constructor
  · intro regular k b at_k early overdue
    have busy := List.mem_of_getElem? at_k
    obtain ⟨last, short⟩ := regular k b (Nat.zero_le k) at_k early
      ((nextBusy_ne_iff w).mpr ⟨busy, overdue⟩)
    exact ⟨last, (shorter k b busy overdue).mp short⟩
  · intro steady k b _ at_k early leaves
    obtain ⟨busy, overdue⟩ := (nextBusy_ne_iff w).mp leaves
    obtain ⟨last, kept⟩ := steady k b at_k early overdue
    exact ⟨last, (shorter k b busy overdue).mpr kept⟩

end turns

section apart

/-- What the loops over some lists leave alone. -/
structure Apart (touched : List ListId) (p p' : Pool) : Prop where
  addressTo : p'.addressTo = p.addressTo
  newBackend : p.newBackend ≤ p'.newBackend
  list : ∀ l ∉ touched, p'.list l = p.list l
  backendList : ∀ c < p.newBackend, (p'.backend c).backendList = (p.backend c).backendList
  connected : ∀ c < p.newBackend, (p'.backend c).wasTCPConnected = (p.backend c).wasTCPConnected
  last : ∀ c < p.newBackend, ∀ l ∉ touched, (p.backend c).backendList = some l →
    (p'.backend c).lastReceivedBytesTimestamps = (p.backend c).lastReceivedBytesTimestamps
  http : ∀ l ∉ touched, ∀ h ∈ (p.list l).pending, p'.http h = p.http h
  gone : ∀ c < p.newBackend, Gone c p → Gone c p'

variable {touched more : List ListId}

theorem Apart.refl (touched : List ListId) (p : Pool) : Apart touched p p where
  addressTo := rfl
  newBackend := Nat.le_refl _
  list _ _ := rfl
  backendList _ _ := rfl
  connected _ _ := rfl
  last _ _ _ _ _ := rfl
  http _ _ _ _ := rfl
  gone _ _ gone := gone

theorem Apart.trans (a : Apart touched p q) (a' : Apart touched q p') : Apart touched p p' where
  addressTo := a'.addressTo.trans a.addressTo
  newBackend := Nat.le_trans a.newBackend a'.newBackend
  list l out := (a'.list l out).trans (a.list l out)
  backendList c old := (a'.backendList c (Nat.lt_of_lt_of_le old a.newBackend)).trans
    (a.backendList c old)
  connected c old := (a'.connected c (Nat.lt_of_lt_of_le old a.newBackend)).trans
    (a.connected c old)
  last c old l out home := by
    have later := a'.last c (Nat.lt_of_lt_of_le old a.newBackend) l out
      ((a.backendList c old).trans home)
    exact later.trans (a.last c old l out home)
  http l out h queued := by
    have later := a'.http l out h (by rw [a.list l out]; exact queued)
    exact later.trans (a.http l out h queued)
  gone c old gone := a'.gone c (Nat.lt_of_lt_of_le old a.newBackend) (a.gone c old gone)

theorem Apart.mono (a : Apart touched p p') (subset : touched ⊆ more) : Apart more p p' where
  addressTo := a.addressTo
  newBackend := a.newBackend
  list l out := a.list l fun member => out (subset member)
  backendList := a.backendList
  connected := a.connected
  last c old l out := a.last c old l fun member => out (subset member)
  http l out := a.http l fun member => out (subset member)
  gone := a.gone

theorem Apart.home (a : Apart touched p p') (w : WellFormed limit none p)
    (home : (p.backend b).backendList = some l) : (p'.backend b).backendList = some l := by
  rw [a.backendList b (allocated_of_home w home), home]

theorem turn_apart (w : WellFormed limit none p) (home : (p.backend b).backendList = some l)
    (depth : ℕ) (run : backendTimeout system (depth + 2) b p = some p') : Apart [l] p p' := by
  obtain ⟨addressTo, lists⟩ := turn_others w home depth run
  obtain ⟨newBackend, kept⟩ := turn_kept w depth run
  refine ⟨addressTo, newBackend, fun l' out => ?_, fun c old => (kept c old).1,
    fun c old => (kept c old).2.1, fun c old l' out home' => ?_, fun l' out h queued => ?_,
    fun c old gone => turn_gone w old gone depth run⟩
  · exact lists l' (by simpa using out)
  · apply (kept c old).2.2
    rintro rfl
    rw [home, Option.some_inj] at home'
    exact out (by simp [home'])
  · exact turn_waiting w home depth run (by simpa using out) queued

/-- The loops over some lists decide nothing about another list. -/
theorem Apart.steady_iff {turns : ℕ → Turn} (a : Apart touched p p') (w : WellFormed limit none p)
    (out : l ∉ touched) : Steady turns l p' ↔ Steady turns l p := by
  unfold Steady
  rw [a.list l out]
  have same : ∀ k b, b ∈ (p.list l).busy →
      (Overdue (turns k).system b p' ↔ Overdue (turns k).system b p) ∧
        (Replaced (turns k) b l p' ↔ Replaced (turns k) b l p) := by
    intro k b busy
    have home := w.home l b (List.mem_append_left _ busy)
    have old := allocated_of_home w home
    constructor
    · rw [Overdue, Overdue, a.last b old l out home]
    · rw [Replaced, Replaced, a.list l out, a.connected b old]
      have waiting : (∃ h ∈ (p.list l).pending, (p'.http h).haveUrlAndFrontendConnected = true) ↔
          ∃ h ∈ (p.list l).pending, (p.http h).haveUrlAndFrontendConnected = true := by
        apply exists_congr
        intro h
        apply and_congr_right
        intro queued
        rw [a.http l out h queued]
      rw [waiting]
  constructor
  · intro steady k b at_k early overdue
    obtain ⟨late, replaced⟩ := same k b (List.mem_of_getElem? at_k)
    rw [← replaced]
    exact steady k b at_k early (late.mpr overdue)
  · intro steady k b at_k early overdue
    obtain ⟨late, replaced⟩ := same k b (List.mem_of_getElem? at_k)
    rw [replaced]
    exact steady k b at_k early (late.mp overdue)

end apart

section loops

/-- What the loops over some lists have called, and left. -/
structure Swept (limit : ℕ) (turns : ListId → ℕ → Turn) (lists : List ListId) (p : Pool)
    (seen : List BackendId) (p' : Pool) : Prop where
  wellFormed : WellFormed limit none p'
  apart : Apart lists p p'
  homes : ∀ b ∈ seen, ∃ l ∈ lists, (p'.backend b).backendList = some l
  stays : ∀ l ∈ lists, ∀ b ∈ (p.list l).busy, b ∉ seen → b ∈ (p'.list l).busy
  once : (∀ l ∈ lists, ∀ b ∈ (p.list l).busy, seen.count b = 1) ↔
    ∀ l ∈ lists, Steady (turns l) l p
  gone : (∀ l ∈ lists, Steady (turns l) l p) → ∀ l ∈ lists, ∀ k b,
    (p.list l).busy[k]? = some b → Overdue (turns l k).system b p → Gone b p'

variable {turns : ListId → ℕ → Turn} {lists : List ListId}

theorem Swept.nil (w : WellFormed limit none p) : Swept limit turns [] p [] p where
  wellFormed := w
  apart := .refl [] p
  homes b member := by cases member
  stays l member := by cases member
  once := by simp
  gone _ l member := by cases member

theorem Swept.uncalled {seen : List BackendId} (s : Swept limit turns lists p seen p')
    (w : WellFormed limit none p) (home : (p.backend b).backendList = some l) (out : l ∉ lists) :
    seen.count b = 0 := by
  apply List.count_eq_zero.mpr
  intro called
  obtain ⟨l', member, homed⟩ := s.homes b called
  rw [s.apart.home w home, Option.some_inj] at homed
  exact out (homed ▸ member)

theorem turn_settled (w : WellFormed limit none p) (depth : ℕ)
    (leaves : nextBusy system l b p ≠ (p.list l).busy)
    (run : backendTimeout system (depth + 2) b p = some p') : b < p'.newBackend ∧ Gone b p' := by
  obtain ⟨busy, overdue⟩ := (nextBusy_ne_iff w).mp leaves
  obtain ⟨h, linked, -⟩ := w.busy l b busy (Option.some_ne_none _).symm
  have old := allocated_of_home w (w.home l b (List.mem_append_left _ busy))
  exact ⟨Nat.lt_of_lt_of_le old (turn_kept w depth run).1, overdue_gone w linked overdue depth run⟩

variable (turns) in
theorem checkBusy_swept (w : WellFormed limit none p) (l : ListId) (depth : ℕ) :
    ∃ seen p', checkBusy (turns l) (depth + 2) l p = some (seen, p') ∧
      Swept limit turns [l] p seen p' := by
  have o : Orderly (fun p : Pool => (p.list l).busy)
      (fun k b => backendTimeout (turns l k).system (depth + 2) b)
      (fun k b => nextBusy (turns l k).system l b) (fun p => WellFormed limit none p) :=
    orderly (turns l) depth l
  obtain ⟨seen, p', run, w'⟩ : ∃ seen p', checkBusy (turns l) (depth + 2) l p = some (seen, p') ∧
      WellFormed limit none p' :=
    sweep_returns (fun k b p w => backendTimeout_returns w depth) w (by simp)
  obtain ⟨-, apart, homes⟩ := sweep_frame (C := fun b p => (p.backend b).backendList = some l)
    (Apart.refl [l]) (fun _ _ _ => Apart.trans)
    (fun k b p p' w home run => ⟨o.keeps k b p p' w run, turn_apart w home depth run⟩)
    (fun b p p' w a home => (a.backendList b (allocated_of_home w home)).trans home)
    (fun p w b busy => w.home l b (List.mem_append_left _ busy)) w (by simp) run
  have once := (o.once_iff w run).trans (regular_iff_steady w)
  refine ⟨seen, p', run, w', apart, fun b called => ⟨l, List.mem_singleton_self l, homes b called⟩,
    ?_, ?_, ?_⟩
  · intro l' own b busy unseen
    rw [List.mem_singleton.mp own] at busy ⊢
    exact o.stays w busy run unseen
  · simpa using once
  · intro held l' own k b at_k overdue
    obtain rfl := List.mem_singleton.mp own
    have steady := held l' own
    have busy := List.mem_of_getElem? at_k
    have settled : b < p'.newBackend ∧ Gone b p' := by
      apply o.settles (Q := fun p => b < p.newBackend ∧ Gone b p) _ _ w (Nat.zero_add _)
        ((regular_iff_steady w).mpr steady) (Nat.zero_le k) at_k
        ((nextBusy_ne_iff w).mpr ⟨busy, overdue⟩) run
      · intro j c p p' w gone run
        exact ⟨Nat.lt_of_lt_of_le gone.1 (turn_kept w depth run).1,
          turn_gone w gone.1 gone.2 depth run⟩
      · intro p p' w leaves run
        exact turn_settled w depth leaves run
    exact settled.2

section cons

variable {first later : List BackendId}

theorem Swept.steady_iff (s : Swept limit turns [l] p first q) (w : WellFormed limit none p)
    (new : l ∉ lists) :
    (∀ l' ∈ lists, Steady (turns l') l' q) ↔ ∀ l' ∈ lists, Steady (turns l') l' p := by
  apply forall₂_congr
  intro l' member
  have other : l' ∉ [l] := by
    rw [List.mem_singleton]
    exact ne_of_mem_of_not_mem member new
  exact s.apart.steady_iff w other

theorem Swept.once_cons (s : Swept limit turns [l] p first q)
    (s' : Swept limit turns lists q later p') (w : WellFormed limit none p) (new : l ∉ lists) :
    (∀ l' ∈ l :: lists, ∀ b ∈ (p.list l').busy, (first ++ later).count b = 1) ↔
      ∀ l' ∈ l :: lists, Steady (turns l') l' p := by
  have own := s.once
  simp only [List.mem_singleton, forall_eq] at own
  rw [List.forall_mem_cons, List.forall_mem_cons, ← s.steady_iff w new, ← s'.once, ← own]
  have home : ∀ {l' b}, b ∈ (p.list l').busy → (p.backend b).backendList = some l' :=
    fun busy => w.home _ _ (List.mem_append_left _ busy)
  apply and_congr
  · apply forall₂_congr
    intro b busy
    rw [List.count_append, s'.uncalled s.wellFormed (s.apart.home w (home busy)) new, Nat.add_zero]
  · apply forall₂_congr
    intro l' member
    have other : l' ∉ [l] := by
      rw [List.mem_singleton]
      exact ne_of_mem_of_not_mem member new
    rw [s.apart.list l' other]
    apply forall₂_congr
    intro b busy
    rw [List.count_append, s.uncalled w (home busy) other, Nat.zero_add]

theorem Swept.gone_cons (s : Swept limit turns [l] p first q)
    (s' : Swept limit turns lists q later p') (w : WellFormed limit none p) (new : l ∉ lists)
    (steady : ∀ l' ∈ l :: lists, Steady (turns l') l' p) {l' : ListId} (member : l' ∈ l :: lists)
    {k : ℕ} (at_k : (p.list l').busy[k]? = some b) (overdue : Overdue (turns l' k).system b p) :
    Gone b p' := by
  have home := w.home l' b (List.mem_append_left _ (List.mem_of_getElem? at_k))
  have old := allocated_of_home w home
  obtain ⟨own, rest⟩ := List.forall_mem_cons.mp steady
  obtain rfl | member := List.mem_cons.mp member
  · have left := s.gone (by simpa using own) l' (List.mem_singleton_self l') k b at_k overdue
    exact s'.apart.gone b (Nat.lt_of_lt_of_le old s.apart.newBackend) left
  · have other : l' ∉ [l] := by
      rw [List.mem_singleton]
      exact ne_of_mem_of_not_mem member new
    apply s'.gone ((s.steady_iff w new).mpr rest) l' member k b
    · rw [s.apart.list l' other]
      exact at_k
    · rw [Overdue, s.apart.last b old l' other home]
      exact overdue

theorem Swept.cons (s : Swept limit turns [l] p first q)
    (s' : Swept limit turns lists q later p') (w : WellFormed limit none p) (new : l ∉ lists) :
    Swept limit turns (l :: lists) p (first ++ later) p' where
  wellFormed := s'.wellFormed
  apart := (s.apart.mono (by simp)).trans (s'.apart.mono (List.subset_cons_self l lists))
  homes b called := by
    obtain here | there := List.mem_append.mp called
    · obtain ⟨l₁, own, homed⟩ := s.homes b here
      rw [List.mem_singleton.mp own] at homed
      exact ⟨l, List.mem_cons_self, s'.apart.home s.wellFormed homed⟩
    · obtain ⟨l₁, member, homed⟩ := s'.homes b there
      exact ⟨l₁, List.mem_cons_of_mem l member, homed⟩
  stays l' member b busy unseen := by
    rw [List.mem_append, not_or] at unseen
    obtain rfl | member := List.mem_cons.mp member
    · rw [s'.apart.list l' new]
      exact s.stays l' (List.mem_singleton_self l') b busy unseen.1
    · apply s'.stays l' member b _ unseen.2
      rw [s.apart.list l' (by simpa using ne_of_mem_of_not_mem member new)]
      exact busy
  once := s.once_cons s' w new
  gone steady _ member _ _ at_k overdue := s.gone_cons s' w new steady member at_k overdue

end cons

variable (turns) in
theorem checkLists_swept (w : WellFormed limit none p) (distinct : lists.Nodup) (depth : ℕ) :
    ∃ seen p', checkLists turns (depth + 2) lists p = some (seen, p') ∧
      Swept limit turns lists p seen p' := by
  induction lists generalizing p with
  | nil => exact ⟨[], p, rfl, .nil w⟩
  | cons l lists ih =>
    obtain ⟨new, distinct⟩ := List.nodup_cons.mp distinct
    obtain ⟨first, q, called, s⟩ := checkBusy_swept turns w l depth
    obtain ⟨later, p', rest, s'⟩ := ih s.wellFormed distinct
    refine ⟨first ++ later, p', ?_, s.cons s' w new⟩
    rw [checkLists, called, Option.bind_some]
    dsimp only
    rw [rest]
    rfl

end loops

section registered

def Walks (addresses : List In6Addr) (addressTo : In6Addr → Option ListId) : Prop :=
  addresses.Nodup ∧ ∀ addr, addr ∈ addresses ↔ addressTo addr ≠ none

def Single (p : Pool) : Prop := ∀ https addr https' addr' l, p.addressTo https addr = some l →
  p.addressTo https' addr' = some l → https = https' ∧ addr = addr'

/-- One address at most is entered, with a list that has none yet. -/
def Enters (p p' : Pool) : Prop := p'.addressTo = p.addressTo ∨
  ∃ https addr l, (∀ https' addr', p.addressTo https' addr' ≠ some l) ∧
    p'.addressTo = (setAddress https addr (some l) p).addressTo

theorem Enters.single (e : Enters p p') (s : Single p) : Single p' := by
  obtain same | ⟨https, addr, l, unused, entered⟩ := e
  · unfold Single
    rw [same]
    exact s
  · intro https₁ addr₁ https₂ addr₂ l' found₁ found₂
    rw [entered, EmptyLists.setAddress_addressTo] at found₁ found₂
    split at found₁
    · rename_i own₁
      split at found₂
      · rename_i own₂
        exact ⟨own₁.1.trans own₂.1.symm, own₁.2.trans own₂.2.symm⟩
      · rw [← found₁] at found₂
        exact absurd found₂ (unused https₂ addr₂)
    · split at found₂
      · rw [← found₂] at found₁
        exact absurd found₁ (unused https₁ addr₁)
      · exact s https₁ addr₁ https₂ addr₂ l' found₁ found₂

theorem startDownload_enters (w : WellFormed limit none p) {r : Request} {s : SockAddr}
    (done : startDownload system r s p = some p') : Enters p p' := by
  obtain ⟨q, -, -, newList, addressTo, -, addresses, -⟩ := EmptyLists.startDownload_connects done
  unfold Enters
  rw [addresses, ← addressTo]
  cases known : q.addressTo r.https s.sin6_addr with
  | some l => exact .inl (EmptyLists.tryConnectInternalList_known system p.newHttp known).1
  | none =>
    obtain kept | ⟨entered, -⟩ :=
      (EmptyLists.tryConnectInternalList_unknown system p.newHttp known).2
    · exact .inl kept
    · refine .inr ⟨r.https, s.sin6_addr, q.newList, fun https addr found => ?_, ?_⟩
      · rw [newList, addressTo] at found
        exact absurd (w.addressTo https addr _ found) (Nat.lt_irrefl _)
      · rw [entered]
        funext https addr
        rw [EmptyLists.setAddress_addressTo, EmptyLists.setAddress_addressTo, addressTo]

theorem step_enters {e : System × Event} (w : WellFormed limit none p) (taken : Step e p p') :
    Enters p p' := by
  obtain ⟨enabled, depth, returns⟩ := taken
  have run := returns 2
  obtain ⟨system, e⟩ := e
  cases e with
  | dnsRight r s =>
    obtain ⟨⟨found, q⟩, joined, rest⟩ := Option.bind_eq_some_iff.mp run
    obtain ⟨addressTo, -⟩ := EmptyLists.joinDownload_vacates w depth r joined
    have wq : WellFormed limit none q := joinDownload_wellFormed w depth joined
    cases found with
    | true => exact .inl (Option.some_inj.mp rest ▸ addressTo)
    | false =>
      have enters := startDownload_enters wq rest
      unfold Enters at enters ⊢
      simp only [EmptyLists.setAddress_addressTo, funext_iff] at enters ⊢
      rwa [addressTo] at enters
  | loadUrl r =>
    obtain ⟨⟨found, q⟩, joined, rfl⟩ := Option.map_eq_some_iff.mp run
    exact .inl (EmptyLists.joinDownload_vacates w depth r joined).1
  | removeClient h client =>
    exact .inl (Option.some_inj.mp run ▸ (SameLinks.removeClient h client).addressTo)
  | statusLine h code => exact .inl (Option.some_inj.mp run ▸ (SameLinks.statusLine h code).addressTo)
  | readyToWrite h =>
    exact .inl (Option.some_inj.mp run ▸ (SameLinks.readyToWrite system h).addressTo)
  | disconnectFrontend h =>
    exact .inl (Option.some_inj.mp run ▸ (SameLinks.disconnectFrontend h).addressTo)
  | flushRead h =>
    obtain ⟨q, ended, rfl⟩ := Option.map_eq_some_iff.mp run
    exact .inl (EmptyLists.disconnectBackend_empty_iff w depth false ended).1
  | endOfBody h =>
    have same : SameLinks p (Pool.disconnectFrontend h p) := .disconnectFrontend h
    exact .inl (EmptyLists.disconnectBackend_empty_iff (same.wellFormed w) depth false run).1
  | remoteSocketClosed b =>
    exact .inl (EmptyLists.remoteSocketClosed_empty_iff
      (disconnectBackend_dismisses (depth + 1)) w run).1
  | startHttpsFails b => exact .inl (Option.some_inj.mp run ▸ rfl)
  | backendTimeout b =>
    cases linked : (p.backend b).http with
    | none =>
      rw [perform, backendTimeout, linked, Option.some.injEq] at run
      exact .inl (run ▸ rfl)
    | some h =>
      obtain ⟨l, home⟩ := w.homed b h linked
      exact .inl (turn_others w home depth run).1
  | httpTimeout h => exact .inl (EmptyLists.httpTimeout_empty_iff w depth run).1
  | deleteBackend b => exact .inl (Option.some_inj.mp run ▸ EmptyLists.deleteBackend_empty_iff.1)
  | deleteHttp h =>
    obtain ⟨q, ended, rfl⟩ := Option.map_eq_some_iff.mp run
    have same : SameLinks p (Pool.disconnectFrontend h p) := .disconnectFrontend h
    exact .inl (EmptyLists.disconnectBackend_empty_iff (same.wellFormed w) depth true ended).1

theorem reach_single {maxBackend : ℕ} (positive : 1 ≤ maxBackend)
    (reached : Reach Step anyStep (· = initial maxBackend) p) : Single p := by
  induction reached with
  | start first =>
    subst first
    intro _ _ _ _ _ found
    cases found
  | next before _ taken ih => exact (step_enters (reach_wellFormed positive before) taken).single ih

variable {http https : List In6Addr}

theorem listsOf_nodup (s : Single p) (walks : Walks http (p.addressTo false))
    (walks' : Walks https (p.addressTo true)) : (listsOf http https p).Nodup := by
  have distinct : ∀ secure addr addr' l, p.addressTo secure addr = some l →
      p.addressTo secure addr' = some l → addr = addr' := by
    intro secure addr addr' l found found'
    exact (s secure addr secure addr' l found found').2
  apply List.nodup_append.mpr
  refine ⟨walks.1.filterMap (distinct false), walks'.1.filterMap (distinct true), ?_⟩
  rintro l plain _ secure rfl
  obtain ⟨addr, -, found⟩ := List.mem_filterMap.mp plain
  obtain ⟨addr', -, found'⟩ := List.mem_filterMap.mp secure
  exact Bool.false_ne_true (s false addr true addr' l found found').1

theorem mem_listsOf_iff (walks : Walks http (p.addressTo false))
    (walks' : Walks https (p.addressTo true)) :
    l ∈ listsOf http https p ↔ ∃ secure addr, p.addressTo secure addr = some l := by
  have own : ∀ {addresses : List In6Addr} {secure : Bool},
      Walks addresses (p.addressTo secure) →
        (l ∈ addresses.filterMap (p.addressTo secure) ↔
          ∃ addr, p.addressTo secure addr = some l) := by
    intro addresses secure walks
    rw [List.mem_filterMap]
    apply exists_congr
    intro addr
    rw [and_iff_right_of_imp]
    intro found
    rw [walks.2, found]
    exact Option.some_ne_none l
  rw [listsOf, List.mem_append, own walks, own walks', Bool.exists_bool]

end registered

section downloads

theorem disconnectClients_same (clients : List (HttpId × ClientId)) :
    SameLinks p (disconnectClients clients p) := by
  induction clients generalizing p with
  | nil => exact .refl p
  | cons pair clients ih => exact (SameLinks.removeClient pair.1 pair.2).trans ih

theorem httpTimeout_lists (depth : ℕ) (run : httpTimeout system (depth + 2) h p = some p')
    (l : ListId) : (p'.list l).busy = (p.list l).busy ∧ (p'.list l).idle = (p.list l).idle := by
  by_cases overdue : HttpOverdue system h p
  · rw [httpTimeout_overdue overdue] at run
    cases own : (p.http h).backend with
    | some b =>
      rw [own, Option.some.injEq] at run
      rw [← run]
      exact ⟨rfl, rfl⟩
    | none =>
      rw [own] at run
      have waits : ((disconnectFrontend h p).http h).backend = none := by
        rw [((SameLinks.disconnectFrontend h).http h).1, own]
      obtain ⟨-, -, -, list⟩ := disconnectBackend_queued system waits (depth + 1) false run
      rw [list]
      have kept := leavePending_list (h := h) (p := disconnectFrontend h p) l
      exact ⟨kept.1, kept.2.1⟩
  · rw [httpTimeout_early overdue, Option.some.injEq] at run
    rw [← run]
    exact ⟨rfl, rfl⟩

theorem checkDownloads_lists (w : WellFormed limit none p) (depth : ℕ)
    (downloads : List (System × HttpId)) :
    ∃ p', checkDownloads (depth + 2) downloads p = some p' ∧
      ∀ l, (p'.list l).busy = (p.list l).busy ∧ (p'.list l).idle = (p.list l).idle := by
  induction downloads generalizing p with
  | nil => exact ⟨p, rfl, fun _ => ⟨rfl, rfl⟩⟩
  | cons pair downloads ih =>
    obtain ⟨system, h⟩ := pair
    obtain ⟨q, timed, wq⟩ : ∃ q, httpTimeout system (depth + 2) h p = some q ∧ _ :=
      httpTimeout_returns w depth
    obtain ⟨p', rest, kept⟩ := ih wq
    refine ⟨p', ?_, fun l => ?_⟩
    · rw [checkDownloads, timed, Option.bind_some, rest]
    · have first := httpTimeout_lists depth timed l
      exact ⟨(kept l).1.trans first.1, (kept l).2.trans first.2⟩

end downloads

section pass

variable {maxBackend : ℕ} {turns : ListId → ℕ → Turn} {http https : List In6Addr}

structure Checked (turns : ListId → ℕ → Turn) (p : Pool) (seen : List BackendId) (p' : Pool) :
    Prop where
  once : ∀ https addr l, p.addressTo https addr = some l → ∀ b ∈ (p.list l).busy,
    seen.count b = 1
  removed : ∀ https addr l, p.addressTo https addr = some l → ∀ k b,
    (p.list l).busy[k]? = some b → (p.backend b).http ≠ none → Overdue (turns l k).system b p →
      ∀ l', b ∉ (p'.list l').busy

/-- A backend that is not called stays busy, and the pass checks all of them exactly if
every one that has timed out is the last of its list, or the one before it and not
replaced. -/
theorem timeout_pass_checks_all_iff (positive : 1 ≤ maxBackend)
    (reached : Reach Step anyStep (· = initial maxBackend) p)
    (walks : Walks http (p.addressTo false)) (walks' : Walks https (p.addressTo true))
    (turns : ListId → ℕ → Turn) (depth : ℕ) (clients : List (HttpId × ClientId))
    (downloads : List (System × HttpId)) :
    ∃ seen p', exec turns (depth + 2) http https clients downloads p = some (seen, p') ∧
      (∀ https addr l, p.addressTo https addr = some l → ∀ b ∈ (p.list l).busy, b ∉ seen →
        b ∈ (p'.list l).busy) ∧
      (Checked turns p seen p' ↔
        ∀ https addr l, p.addressTo https addr = some l → Steady (turns l) l p) := by
  have w : WellFormed maxBackend none p := reach_wellFormed positive reached
  have registered : ∀ {l}, l ∈ listsOf http https p ↔
      ∃ secure addr, p.addressTo secure addr = some l := mem_listsOf_iff walks walks'
  obtain ⟨seen, q, called, swept⟩ := checkLists_swept turns w
    (listsOf_nodup (reach_single positive reached) walks walks') depth
  have same : SameLinks q (disconnectClients clients q) := disconnectClients_same clients
  obtain ⟨p', ended, kept⟩ :=
    checkDownloads_lists (same.wellFormed swept.wellFormed) depth downloads
  rw [same.list] at kept
  refine ⟨seen, p', ?_, ?_, ?_⟩
  · rw [exec, called, Option.bind_some]
    dsimp only
    rw [ended]
    rfl
  · intro secure addr l found b busy unseen
    rw [(kept l).1]
    exact swept.stays l (registered.mpr ⟨secure, addr, found⟩) b busy unseen
  · constructor
    · intro checked secure addr l found
      refine swept.once.mp (fun l' member => ?_) l (registered.mpr ⟨secure, addr, found⟩)
      obtain ⟨secure', addr', found'⟩ := registered.mp member
      exact checked.once secure' addr' l' found'
    · intro steady
      have all : ∀ l ∈ listsOf http https p, Steady (turns l) l p := by
        intro l member
        obtain ⟨secure, addr, found⟩ := registered.mp member
        exact steady secure addr l found
      refine ⟨fun secure addr l found => ?_, fun secure addr l found k b at_k _ late l' => ?_⟩
      · exact swept.once.mpr all l (registered.mpr ⟨secure, addr, found⟩)
      · rw [(kept l').1]
        exact (swept.gone all l (registered.mpr ⟨secure, addr, found⟩) k b at_k late l').1

theorem walks_single (addr : In6Addr) (l : ListId) :
    Walks [addr] (Function.update (fun _ => none) addr (some l)) := by
  refine ⟨List.nodup_singleton addr, fun addr' => ?_⟩
  rw [List.mem_singleton, Function.update_apply]
  simp

theorem walks_none : Walks [] fun _ => none := ⟨List.nodup_nil, by simp⟩

def tenLater : ListId → ℕ → Turn := fun _ _ => ⟨.started, 1010000⟩

theorem two_silent_connections : ∃ p, Reach Step anyStep (· = initial 2) p ∧
    p.addressTo false = Function.update (fun _ => none) .zero (some 0) ∧
    (p.addressTo true = fun _ => none) ∧ (p.list 0).busy = [0, 1] ∧
    (p.backend 0).wasTCPConnected = false := by
  have reached : Reach Step anyStep (· = initial 2) _ :=
    .next (e := (DeadOrigin.connecting, .dnsRight ⟨false, [100], [97], [48], [], 8⟩ ⟨.zero, 80⟩))
      (.next (e := (DeadOrigin.connecting, .dnsRight ⟨false, [99], [97], [47], [], 7⟩ ⟨.zero, 80⟩))
        (.start rfl) trivial ⟨trivial, 0, fun _ => rfl⟩)
      trivial ⟨trivial, 0, fun _ => rfl⟩
  exact ⟨_, reached, rfl, rfl, rfl, rfl⟩

/-- The first of them is not replaced, so that both are checked. -/
theorem two_silent_connections_checked : ∃ p seen p', Reach Step anyStep (· = initial 2) p ∧
    (p.list 0).busy = [0, 1] ∧ exec tenLater 2 [.zero] [] [] [] p = some (seen, p') ∧
    Checked tenLater p seen p' := by
  obtain ⟨p, reached, plain, secure, busy, unanswered⟩ := two_silent_connections
  obtain ⟨seen, p', run, -, checked⟩ := timeout_pass_checks_all_iff (by decide) reached
    (plain ▸ walks_single .zero 0) (secure ▸ walks_none) tenLater 0 [] []
  refine ⟨p, seen, p', reached, busy, run, checked.mpr fun https addr l found => ?_⟩
  have only : l = 0 := by
    cases https with
    | false =>
      rw [plain, Function.update_apply] at found
      split at found
      · exact (Option.some_inj.mp found).symm
      · cases found
    | true =>
      rw [secure] at found
      cases found
  subst only
  intro k b at_k early _
  rw [busy] at at_k early ⊢
  obtain rfl : k = 0 := Nat.le_zero.mp (Nat.le_of_add_le_add_right early)
  obtain rfl : 0 = b := Option.some_inj.mp at_k
  refine ⟨rfl, fun replaced => ?_⟩
  rw [Replaced, unanswered] at replaced
  exact Bool.false_ne_true replaced.1

/-- Of three such connections the one in the middle is passed over. -/
theorem middle_connection_unchecked : ∃ p p', Reach Step anyStep (· = initial 3) p ∧
    p.addressTo false = Function.update (fun _ => none) .zero (some 0) ∧
    (p.addressTo true = fun _ => none) ∧ (p.list 0).busy = [0, 1, 2] ∧
    (p.backend 1).http = some 1 ∧ Overdue (tenLater 0 1).system 1 p ∧
    exec tenLater 2 [.zero] [] [] [] p = some ([0, 2, 2], p') ∧ (p'.list 0).busy = [1] ∧
    ¬Checked tenLater p [0, 2, 2] p' := by
  have reached : Reach Step anyStep (· = initial 3) _ :=
    .next (e := (DeadOrigin.connecting, .dnsRight ⟨false, [101], [97], [49], [], 9⟩ ⟨.zero, 80⟩))
      (.next (e := (DeadOrigin.connecting, .dnsRight ⟨false, [100], [97], [48], [], 8⟩ ⟨.zero, 80⟩))
        (.next (e := (DeadOrigin.connecting, .dnsRight ⟨false, [99], [97], [47], [], 7⟩ ⟨.zero, 80⟩))
          (.start rfl) trivial ⟨trivial, 0, fun _ => rfl⟩)
        trivial ⟨trivial, 0, fun _ => rfl⟩)
      trivial ⟨trivial, 0, fun _ => rfl⟩
  refine ⟨_, _, reached, rfl, rfl, rfl, rfl, ?_, rfl, rfl, fun checked => ?_⟩
  · rw [Overdue]
    decide
  · have count := checked.once false .zero 0 rfl 1 (.tail 0 (.head [2]))
    cases count

end pass

end FastCgiCdn.TimeoutPass
