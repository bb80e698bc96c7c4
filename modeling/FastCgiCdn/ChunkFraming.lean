import Mathlib.Data.Int.Notation
import Mathlib.Data.List.Basic

/-! Chunked framing as an automaton that reads one symbol at a time: size lines
ended by CR, LF or both, then as many data symbols as the size line announces,
until a size line of value zero. The alphabet, its two line ends and the meaning
of a size line are parameters. Reading is a fold, so it composes over
concatenation; that is all that independence of cuts needs. -/

namespace FastCgiCdn.ChunkFraming

structure Grammar (β : Type*) where
  cr : β
  lf : β
  lineValue : List β → ℤ

/-- Where the reader stands. The data states count the symbols to come beyond
the first of them, and `line` records the negative value `-(k + 1)` that was set
last, so that no state can promise an empty or a negative amount of data. -/
inductive Phase (β : Type*)
  | line (k : ℕ) (seen : List β)
  | opened (afterCr : Bool) (n : ℕ)
  | inside (n : ℕ)
  | done
  deriving DecidableEq, Repr

variable {β : Type*} [DecidableEq β] (g : Grammar β)

namespace Phase

def start (afterCr : Bool) : ℤ → Phase β
  | .ofNat 0 => .done
  | .ofNat (n + 1) => .opened afterCr n
  | .negSucc k => .line k []

/-- The state after one of `n + 1` data symbols. -/
def taken : ℕ → Phase β
  | 0 => .line 0 []
  | n + 1 => .inside n

def next : Phase β → β → Phase β
  | line k seen, b =>
    if b = g.lf ∨ b = g.cr then
      if seen = [] then line k [] else start (b = g.cr) (g.lineValue seen)
    else line k (seen ++ [b])
  | opened afterCr n, b => if afterCr ∧ b = g.lf then opened false n else taken n
  | inside n, _ => taken n
  | done, _ => done

def emit : Phase β → β → List β
  | opened afterCr _, b => if afterCr ∧ b = g.lf then [] else [b]
  | inside _, b => [b]
  | _, _ => []

def after : Phase β → List β → Phase β
  | φ, [] => φ
  | φ, b :: bs => after (φ.next g b) bs

def emitted : Phase β → List β → List β
  | _, [] => []
  | φ, b :: bs => φ.emit g b ++ emitted (φ.next g b) bs

/-- A place where the input may be cut before the symbol `b`: no size line and
no run of data is under way, and `b` is not the LF of a CR LF just begun. -/
def mayCut : Phase β → β → Prop
  | line _ seen, _ => seen = []
  | opened afterCr _, b => ¬(afterCr ∧ b = g.lf)
  | inside _, _ => False
  | done, _ => True

instance : (φ : Phase β) → (b : β) → Decidable (φ.mayCut g b)
  | line _ seen, _ => inferInstanceAs (Decidable (seen = []))
  | opened afterCr _, b => inferInstanceAs (Decidable ¬(afterCr ∧ b = g.lf))
  | inside _, _ => inferInstanceAs (Decidable False)
  | done, _ => inferInstanceAs (Decidable True)

/-- Every cut between two consecutive pieces lies where the input may be cut. -/
def cleanCuts : Phase β → List (List β) → Prop
  | _, [] => True
  | _, [_] => True
  | φ, d :: e :: rest => (∀ b ∈ e.head?, (φ.after g d).mayCut g b) ∧
      cleanCuts (φ.after g d) (e :: rest)

instance instDecidableCleanCuts :
    (φ : Phase β) → (pieces : List (List β)) → Decidable (φ.cleanCuts g pieces)
  | _, [] => inferInstanceAs (Decidable True)
  | _, [_] => inferInstanceAs (Decidable True)
  | φ, d :: e :: rest =>
    have := instDecidableCleanCuts (φ.after g d) (e :: rest)
    inferInstanceAs (Decidable ((∀ b ∈ e.head?, (φ.after g d).mayCut g b) ∧
      (φ.after g d).cleanCuts g (e :: rest)))

@[simp] theorem after_nil (φ : Phase β) : φ.after g [] = φ := rfl

@[simp] theorem emitted_nil (φ : Phase β) : φ.emitted g [] = [] := rfl

theorem after_cons (φ : Phase β) (b : β) (bs : List β) :
    φ.after g (b :: bs) = (φ.next g b).after g bs := rfl

theorem emitted_cons (φ : Phase β) (b : β) (bs : List β) :
    φ.emitted g (b :: bs) = φ.emit g b ++ (φ.next g b).emitted g bs := rfl

theorem after_append (φ : Phase β) (bs cs : List β) :
    φ.after g (bs ++ cs) = (φ.after g bs).after g cs := by
  induction bs generalizing φ with
  | nil => rfl
  | cons b bs ih => exact ih _

theorem emitted_append (φ : Phase β) (bs cs : List β) :
    φ.emitted g (bs ++ cs) = φ.emitted g bs ++ (φ.after g bs).emitted g cs := by
  induction bs generalizing φ with
  | nil => rfl
  | cons b bs ih =>
    simp only [List.cons_append, emitted, after]
    rw [ih, List.append_assoc]

@[simp] theorem after_done (bs : List β) : (done : Phase β).after g bs = done := by
  induction bs with
  | nil => rfl
  | cons b bs ih => exact ih

@[simp] theorem emitted_done (bs : List β) : (done : Phase β).emitted g bs = [] := by
  induction bs with
  | nil => rfl
  | cons b bs ih => exact ih

theorem cleanCuts_append {φ : Phase β} {before : List (List β)} (some_before : before ≠ [])
    {e : List β} {rest : List (List β)} (clean : φ.cleanCuts g (before ++ e :: rest)) :
    (∀ b ∈ e.head?, (φ.after g before.flatten).mayCut g b) ∧
      (φ.after g before.flatten).cleanCuts g (e :: rest) := by
  induction before generalizing φ with
  | nil => exact absurd rfl some_before
  | cons d before ih =>
    rw [List.flatten_cons, after_append]
    cases before with
    | nil => exact clean
    | cons d' before => exact ih (List.cons_ne_nil _ _) clean.2

theorem after_inside_short (n : ℕ) (bs : List β) (short : bs.length ≤ n) :
    (inside n : Phase β).after g bs = inside (n - bs.length) ∧
      (inside n : Phase β).emitted g bs = bs := by
  induction bs generalizing n with
  | nil => simp
  | cons b bs ih =>
    cases n with
    | zero => simp at short
    | succ n =>
      have rest := ih n (by simpa using short)
      simp only [after, emitted, next, taken, emit, rest, List.length_cons]
      constructor
      · congr 1
        omega
      · rfl

theorem after_inside_full (n : ℕ) (bs cs : List β) (full : bs.length = n + 1) :
    (inside n : Phase β).after g (bs ++ cs) = (line 0 [] : Phase β).after g cs ∧
      (inside n : Phase β).emitted g (bs ++ cs) = bs ++ (line 0 [] : Phase β).emitted g cs := by
  induction n generalizing bs with
  | zero =>
    obtain ⟨b, rfl⟩ := List.length_eq_one_iff.mp full
    exact ⟨rfl, rfl⟩
  | succ n ih =>
    cases bs with
    | nil => simp at full
    | cons b bs =>
      have rest := ih bs (by simpa using full)
      simp only [List.cons_append, after, emitted, next, taken, emit, rest, List.nil_append]
      exact ⟨trivial, trivial⟩

theorem opened_eq_inside (afterCr : Bool) (n : ℕ) (b : β) (bs : List β)
    (data : ¬(afterCr ∧ b = g.lf)) :
    (opened afterCr n : Phase β).after g (b :: bs) = (inside n : Phase β).after g (b :: bs) ∧
      (opened afterCr n : Phase β).emitted g (b :: bs) =
        (inside n : Phase β).emitted g (b :: bs) := by
  simp only [after, emitted, next, emit, if_neg data]
  exact ⟨trivial, trivial⟩

theorem emitted_length_le (φ : Phase β) (bs : List β) : (φ.emitted g bs).length ≤ bs.length := by
  induction bs generalizing φ with
  | nil => exact Nat.le_refl _
  | cons b bs ih =>
    have here : (φ.emit g b).length ≤ 1 := by
      unfold emit
      split
      · split <;> simp
      · simp
      · simp
    have later := ih (φ.next g b)
    simp only [emitted, List.length_append, List.length_cons]
    omega

theorem line_plain (k : ℕ) (seen bs : List β) (plain : ∀ b ∈ bs, b ≠ g.lf ∧ b ≠ g.cr) :
    (line k seen).after g bs = line k (seen ++ bs) ∧ (line k seen).emitted g bs = [] := by
  induction bs generalizing seen with
  | nil => simp
  | cons b bs ih =>
    have here := plain b (List.mem_cons_self ..)
    have rest := ih (seen ++ [b]) fun c member => plain c (List.mem_cons_of_mem _ member)
    simp only [after, emitted, next, emit, if_neg (not_or.mpr here)]
    simpa using rest

end Phase

/-- A chunked body and its data. What a size line may be and mean is a
parameter; behind the last one anything may stand. -/
inductive Coded (valid : List β → ℕ → Prop) : List β → List β → Prop
  | last {size : List β} (rest : List β) : valid size 0 →
      Coded valid (size ++ g.cr :: g.lf :: rest) []
  | chunk {size data rest payload : List β} : valid size data.length → data ≠ [] →
      Coded valid rest payload →
      Coded valid (size ++ g.cr :: g.lf :: (data ++ g.cr :: g.lf :: rest)) (data ++ payload)

/-- The automaton reads a coded body to its end and emits its data. -/
theorem Coded.read {valid : List β → ℕ → Prop} (sound : ∀ size n, valid size n → size ≠ [] ∧
    (∀ b ∈ size, b ≠ g.lf ∧ b ≠ g.cr) ∧ g.lineValue size = n) {body payload : List β}
    (coded : Coded g valid body payload) :
    (Phase.line 0 []).after g body = .done ∧ (Phase.line 0 []).emitted g body = payload := by
  have line {size : List β} {n : ℕ} (announced : valid size n) (rest : List β) :
      (Phase.line 0 []).after g (size ++ g.cr :: rest) = (Phase.start true n).after g rest ∧
        (Phase.line 0 []).emitted g (size ++ g.cr :: rest) =
          (Phase.start true n : Phase β).emitted g rest := by
    obtain ⟨nonempty, plain, value⟩ := sound _ _ announced
    have read := Phase.line_plain g 0 [] size plain
    have ended : (Phase.line 0 size).next g g.cr = .start true n := by
      simp [Phase.next, nonempty, value]
    rw [List.nil_append] at read
    rw [Phase.after_append, Phase.emitted_append, read.1, read.2, Phase.after_cons, Phase.emitted_cons,
      ended]
    exact ⟨rfl, rfl⟩
  induction coded with
  | last rest zero =>
    rw [(line zero _).1, (line zero _).2]
    exact ⟨Phase.after_done g _, Phase.emitted_done g _⟩
  | @chunk size data rest payload announced some_data coded ih =>
    obtain ⟨b, bs, rfl⟩ := List.exists_cons_of_ne_nil some_data
    have opens : (Phase.start true ((b :: bs).length : ℕ) : Phase β) = .opened true bs.length := rfl
    have begins : (Phase.opened true bs.length : Phase β).next g g.lf = .opened false bs.length := by
      simp [Phase.next]
    have silent : (Phase.opened true bs.length : Phase β).emit g g.lf = [] := by
      simp [Phase.emit]
    have inside := Phase.opened_eq_inside g false bs.length b (bs ++ g.cr :: g.lf :: rest) (by simp)
    have full := Phase.after_inside_full g bs.length (b :: bs) (g.cr :: g.lf :: rest) rfl
    have blank (c : β) (lineEnd : c = g.lf ∨ c = g.cr) : (Phase.line 0 []).next g c = .line 0 [] := by
      simp [Phase.next, lineEnd]
    rw [(line announced _).1, (line announced _).2, opens, Phase.after_cons, Phase.emitted_cons, begins,
      silent]
    rw [List.cons_append] at full ⊢
    rw [inside.1, inside.2, full.1, full.2]
    simp only [Phase.after_cons, Phase.emitted_cons, blank g.cr (.inr rfl), blank g.lf (.inl rfl), ih]
    exact ⟨trivial, rfl⟩

end FastCgiCdn.ChunkFraming
