import FastCgiCdn.ChunkFraming
import FastCgiCdn.HttpModel
import Mathlib.Data.List.GetD

/-! The chunked body decoder of `Http::write` against the automaton of chunked
framing: on a piece that starts outside every size line and every run of data,
one call stores what the automaton emits and stops where the automaton stops. -/

namespace FastCgiCdn.ChunkDecoder

open ChunkFraming HttpModel MeasuredLoop

def sizeValue (line : Bytes) : ℤ := Common.toInt64 (Common.hexaTo64Bits line)

def grammar : Grammar Byte where
  cr := CR
  lf := LF
  lineValue := sizeValue

/-- The decoder state that survives between two calls. -/
structure View where
  endDetected : Bool
  chunkLength : ℤ
  chunkHeader : Bytes
  deriving DecidableEq, Repr

def view (h : Http) : View := ⟨h.endDetected, h.chunkLength, h.chunkHeader⟩

/-- What a call leaves of a state of the automaton: inside a chunk the rest of
its length is lost. -/
def image : Phase Byte → View
  | .line k seen => ⟨false, .negSucc k, seen⟩
  | .opened _ n => ⟨false, n + 1, []⟩
  | .inside _ => ⟨false, -1, []⟩
  | .done => ⟨true, 0, []⟩

theorem image_ended (φ : Phase Byte) : (image φ).endDetected = true ↔ φ = .done := by
  cases φ <;> simp [image]

/-- Where the automaton leaves the decoder after some bytes, and what it emits. -/
def reading (φ : Phase Byte) (bs : Bytes) : View × Bytes :=
  (image (φ.after grammar bs), φ.emitted grammar bs)

def fed (h : Http) (writes : List Bytes) (v : View) (contentwritten : ℤ) : Http :=
  { h with
    tempCache := h.tempCache.map fun c => { c with writes := c.writes ++ writes }
    contentwritten := contentwritten
    chunkLength := v.chunkLength
    chunkHeader := v.chunkHeader }

def settle (v : View) (h : Http) : Http := if v.endDetected then h.endDownload else h

/-- `r` is `h` after the bytes of a reading. -/
def Receives (h : Http) (read : View × Bytes) (r : Http) : Prop :=
  ∃ writes contentwritten, writes.flatten = read.2 ∧
    r = settle read.1 (fed h writes read.1 contentwritten)

theorem fed_fed (h : Http) (ws ws' : List Bytes) (v v' : View) (w w' : ℤ) :
    fed (fed h ws v w) ws' v' w' = fed h (ws ++ ws') v' w' := by
  unfold fed
  cases h.tempCache <;> simp

theorem Receives.after_fed {h r : Http} {ws : List Bytes} {v : View} {w : ℤ} {read : View × Bytes}
    (later : Receives (fed h ws v w) read r) : Receives h (read.1, ws.flatten ++ read.2) r := by
  obtain ⟨ws', w', stored, rfl⟩ := later
  refine ⟨ws ++ ws', w', ?_, ?_⟩
  · rw [List.flatten_append, stored]
  · rw [fed_fed]

section Reading

variable (k : ℕ) (seen bs : Bytes) {b : Byte}

theorem reading_char (char : ¬(b = LF ∨ b = CR)) :
    reading (.line k seen) (b :: bs) = reading (.line k (seen ++ [b])) bs := by
  simp [reading, Phase.after, Phase.emitted, Phase.next, Phase.emit, grammar, char]

theorem reading_blank (lineEnd : b = LF ∨ b = CR) :
    reading (.line k []) (b :: bs) = reading (.line k []) bs := by
  simp [reading, Phase.after, Phase.emitted, Phase.next, Phase.emit, grammar, lineEnd]

theorem reading_lineEnd (lineEnd : b = LF ∨ b = CR) (some_seen : seen ≠ []) :
    reading (.line k seen) (b :: bs) = reading (.start (b = CR) (sizeValue seen)) bs := by
  simp only [reading, Phase.after, Phase.emitted, Phase.next, Phase.emit, grammar, if_pos lineEnd,
    if_neg some_seen]
  rfl

theorem reading_done : reading .done bs = (⟨true, 0, []⟩, []) := by
  simp [reading, image]

theorem reading_afterCr (n : ℤ) (data : ∀ c ∈ bs.head?, c ≠ LF) :
    reading (.start true n) bs = reading (.start false n) bs := by
  rcases n with (_ | n) | k
  · rfl
  · cases bs with
    | nil => rfl
    | cons c bs =>
      have other : c ≠ LF := data c rfl
      have cr := Phase.opened_eq_inside grammar true n c bs (by simpa [grammar] using other)
      have plain := Phase.opened_eq_inside grammar false n c bs (by simp)
      simp [reading, Phase.start, cr, plain]
  · rfl

theorem reading_afterCrLf (n : ℤ) :
    reading (.start true n) (LF :: bs) = reading (.start false n) bs := by
  rcases n with (_ | n) | k
  · simp [Phase.start, reading_done]
  · simp [reading, Phase.start, Phase.after, Phase.emitted, Phase.next, Phase.emit, grammar]
  · exact reading_blank k bs (.inl rfl)

end Reading

section Piece

variable (p : Piece)

theorem drop_of_lt {pos : ℕ} (inside : pos < p.size) :
    p.data.drop pos = p.byte pos :: p.data.drop (pos + 1) := by
  unfold Piece.byte
  rw [List.getD_eq_getElem _ _ inside]
  exact List.drop_eq_getElem_cons inside

theorem drop_of_le {pos : ℕ} (outside : p.size ≤ pos) : p.data.drop pos = [] :=
  List.drop_eq_nil_of_le outside

theorem slice_self (pos : ℕ) : p.slice pos pos = [] := by
  simp [Piece.slice]

theorem slice_size (pos : ℕ) {stop : ℕ} (outside : p.size ≤ stop) :
    p.slice pos stop = p.data.drop pos := by
  simp [Piece.slice, List.take_of_length_le outside]

theorem slice_succ {start pos : ℕ} (order : start ≤ pos) (inside : pos < p.size) :
    p.slice start (pos + 1) = p.slice start pos ++ [p.byte pos] := by
  have bound : start ≤ (p.data.take pos).length := by
    simp only [List.length_take]
    have : pos ≤ p.data.length := Nat.le_of_lt inside
    omega
  unfold Piece.slice Piece.byte
  rw [List.take_succ_eq_append_getElem inside, List.drop_append_of_le_length bound,
    List.getD_eq_getElem _ _ inside]

theorem slice_ne_nil {start pos : ℕ} (order : start < pos) (inside : pos ≤ p.size) :
    p.slice start pos ≠ [] := by
  unfold Piece.slice
  have : pos ≤ p.data.length := inside
  simp only [ne_eq, List.drop_eq_nil_iff, List.length_take]
  omega

theorem drop_skipEnd {pos : ℕ} (inside : pos < p.size) :
    p.data.drop pos = p.byte pos :: p.data.drop (p.skipEnd pos) ∧
        (p.byte pos = CR → ∀ c ∈ (p.data.drop (p.skipEnd pos)).head?, c ≠ LF) ∨
      p.byte pos = CR ∧ p.data.drop pos = CR :: LF :: p.data.drop (p.skipEnd pos) := by
  unfold Piece.skipEnd
  split
  · rename_i cr
    split
    · rename_i lf
      by_cases within : pos + 1 < p.size
      · right
        refine ⟨cr, ?_⟩
        rw [drop_of_lt p inside, drop_of_lt p within, cr, lf]
      · left
        rw [drop_of_lt p inside, drop_of_le p (by omega), drop_of_le p (by omega)]
        exact ⟨rfl, fun _ c member => by simp at member⟩
    · rename_i other
      left
      refine ⟨drop_of_lt p inside, fun _ c member => ?_⟩
      by_cases within : pos + 1 < p.size
      · rw [drop_of_lt p within] at member
        simpa [← Option.some.inj member] using other
      · simp [drop_of_le p (Nat.le_of_not_lt within)] at member
  · rename_i other
    left
    exact ⟨drop_of_lt p inside, fun cr => absurd cr other⟩

theorem reading_skip_blank (k : ℕ) {pos : ℕ} (inside : pos < p.size)
    (lineEnd : p.byte pos = LF ∨ p.byte pos = CR) :
    reading (.line k []) (p.data.drop pos) =
      reading (.line k []) (p.data.drop (p.skipEnd pos)) := by
  rcases drop_skipEnd p inside with ⟨split, -⟩ | ⟨-, split⟩
  · rw [split, reading_blank k _ lineEnd]
  · rw [split, reading_blank k _ (.inr rfl), reading_blank k _ (.inl rfl)]

theorem reading_skip_line (k : ℕ) (seen : Bytes) {pos : ℕ} (inside : pos < p.size)
    (lineEnd : p.byte pos = LF ∨ p.byte pos = CR) (some_seen : seen ≠ []) :
    reading (.line k seen) (p.data.drop pos) =
      reading (.start false (sizeValue seen)) (p.data.drop (p.skipEnd pos)) := by
  rcases drop_skipEnd p inside with ⟨split, alone⟩ | ⟨-, split⟩
  · rw [split, reading_lineEnd k seen _ lineEnd some_seen]
    by_cases cr : p.byte pos = CR
    · simpa [cr] using reading_afterCr _ _ (alone cr)
    · simp [cr]
  · rw [split, reading_lineEnd k seen _ (.inr rfl) some_seen]
    simpa using reading_afterCrLf _ _

end Piece

/-- How the inner loop ends: the piece breaks a size line off, or one of value
`n` is complete and the reading goes on behind it. -/
inductive SizeLineRead (p : Piece) (h : Http) (k : ℕ) (read : View × Bytes) (t : Http.Scan) : Prop
  | broken : t.http = h → p.size ≤ t.pos → t.pos2 ≤ t.pos →
      read = (⟨false, .negSucc k, p.data.drop t.pos2⟩, []) → SizeLineRead p h k read t
  | complete (n : ℤ) : t.http = { h with chunkLength := n } → t.pos2 = t.pos →
      read = reading (.start false n) (p.data.drop t.pos) → SizeLineRead p h k read t

theorem sizeLine_read (p : Piece) (h : Http) (k : ℕ) (empty : h.chunkHeader = []) (s : Http.Scan) :
    s.http = h → s.pos2 ≤ s.pos → (s.pos ≤ p.size ∨ s.pos2 = s.pos) →
      SizeLineRead p h k (reading (.line k (p.slice s.pos2 s.pos)) (p.data.drop s.pos))
        ((Http.sizeLine p).run s) := by
  apply Http.sizeLine_rule p (P := fun s t => s.http = h → s.pos2 ≤ s.pos →
    (s.pos ≤ p.size ∨ s.pos2 = s.pos) →
    SizeLineRead p h k (reading (.line k (p.slice s.pos2 s.pos)) (p.data.drop s.pos)) t)
  case outside =>
    intro s outside same order bound
    refine .broken same (by omega) order ?_
    rw [drop_of_le p (by omega), slice_size p _ (by omega)]
    simp [reading, image]
  case complete =>
    intro s inside lineEnd apart same order bound
    have some_seen : p.slice s.pos2 s.pos ≠ [] :=
      slice_ne_nil p (by omega) (Nat.le_of_lt inside)
    refine .complete (sizeValue (p.slice s.pos2 s.pos)) ?_ rfl ?_
    · rw [same, Http.readSize, if_pos empty]
      rfl
    · exact reading_skip_line p k _ inside lineEnd some_seen
  case blank =>
    intro s t inside lineEnd together later same order bound
    have next := later same le_rfl (.inr rfl)
    rw [slice_self] at next
    rw [together, slice_self, reading_skip_blank p k inside lineEnd]
    exact next
  case char =>
    intro s t inside plain later same order bound
    have next := later same (by simp only; omega) (.inl inside)
    rw [slice_succ p order inside] at next
    rw [drop_of_lt p inside, reading_char k _ _ plain]
    exact next

theorem fed_nil (h : Http) (v : View) : fed h [] v h.contentwritten =
    { h with chunkLength := v.chunkLength, chunkHeader := v.chunkHeader } := by
  unfold fed
  cases h.tempCache <;> simp

theorem reading_opened_short (n : ℕ) (bs : Bytes) (some_bytes : bs ≠ []) (short : bs.length ≤ n) :
    reading (.opened false n) bs = (⟨false, -1, []⟩, bs) := by
  obtain ⟨b, bs, rfl⟩ := List.exists_cons_of_ne_nil some_bytes
  have same := Phase.opened_eq_inside grammar false n b bs (by simp)
  have inside := Phase.after_inside_short grammar n (b :: bs) short
  simp only [reading, same, inside, image]

theorem reading_opened_full (n : ℕ) (bs cs : Bytes) (full : bs.length = n + 1) :
    reading (.opened false n) (bs ++ cs) =
      ((reading (.line 0 []) cs).1, bs ++ (reading (.line 0 []) cs).2) := by
  obtain ⟨b, bs, rfl⟩ := List.exists_cons_of_ne_nil (List.ne_nil_of_length_eq_add_one full)
  have same := Phase.opened_eq_inside grammar false n b (bs ++ cs) (by simp)
  have inside := Phase.after_inside_full grammar n (b :: bs) cs full
  rw [List.cons_append] at inside
  simp only [reading, List.cons_append, same, inside]

inductive Resting : Phase Byte → Prop
  | line (k : ℕ) : Resting (.line k [])
  | opened (n : ℕ) : Resting (.opened false n)

theorem resting_start {n : ℤ} (nonzero : n ≠ 0) : Resting (.start false n) := by
  rcases n with (_ | n) | k
  · exact absurd rfl nonzero
  · exact .opened n
  · exact .line k

theorem image_start {n : ℤ} (nonzero : n ≠ 0) : image (.start false n) = ⟨false, n, []⟩ := by
  rcases n with (_ | n) | k
  · exact absurd rfl nonzero
  · rfl
  · rfl

theorem chunks_end (p : Piece) {s : Http.Scan} (outside : p.size ≤ s.pos) :
    (Http.chunks p).run s = s.http := by
  apply (Http.chunks p).run_stop
  rw [Http.chunks_body, Http.chunksBody, if_neg (by omega)]

theorem takeChunk_short (p : Piece) (s : Http.Scan)
    (short : (p.size - s.pos : ℕ) < s.http.chunkLength) :
    Http.takeChunk p s = ⟨fed s.http [p.data.drop s.pos] ⟨false, -1, s.http.chunkHeader⟩
      (s.http.contentwritten + p.size), p.size, p.size⟩ := by
  rw [Http.takeChunk, if_pos short, slice_size p _ le_rfl]
  rfl

theorem takeChunk_full (p : Piece) (n : ℕ) (s : Http.Scan) (length : s.http.chunkLength = n + 1)
    (full : ¬(p.size - s.pos : ℕ) < s.http.chunkLength) :
    Http.takeChunk p s = ⟨fed s.http [(p.data.drop s.pos).take (n + 1)]
      ⟨false, -1, s.http.chunkHeader⟩ (s.http.contentwritten + s.http.chunkLength),
      s.pos + (n + 1), s.pos + (n + 1)⟩ := by
  have value : s.http.chunkLength.toNat = n + 1 := by omega
  rw [Http.takeChunk, if_neg full, value, Piece.slice, List.drop_take, Nat.add_sub_cancel_left]
  rfl

theorem chunksBody_sizeLine (p : Piece) (s : Http.Scan) (inside : s.pos < p.size)
    (negative : s.http.chunkLength < 0) {t : Http.Scan} (found : (Http.sizeLine p).run s = t) :
    (Http.chunks p).body s =
      if t.http.chunkLength = 0 then .stop t.http.endDownload else .again (Http.keepHeader p t) := by
  rw [Http.chunks_body, Http.chunksBody, if_pos inside, if_neg (by omega), found]

/-- From a scan on, the rest of a piece is read as the phase says. -/
def Resumes (p : Piece) (s : Http.Scan) : Prop :=
  ∀ φ, Resting φ → view s.http = image φ → s.pos2 = s.pos →
    Receives s.http (reading φ (p.data.drop s.pos)) ((Http.chunks p).run s)

theorem resting_detected {φ : Phase Byte} (rests : Resting φ) : (image φ).endDetected = false := by
  cases rests <;> rfl

theorem resumes_end (p : Piece) (s : Http.Scan) (outside : p.size ≤ s.pos) : Resumes p s := by
  intro φ rests same _
  have detected := resting_detected rests
  rw [chunks_end p outside, drop_of_le p outside]
  refine ⟨[], s.http.contentwritten, rfl, ?_⟩
  have kept : reading φ [] = (view s.http, []) := by rw [same]; rfl
  have alive : (view s.http).endDetected = false := by rw [same, detected]
  rw [kept, fed_nil, settle, if_neg (by simp [alive])]
  rfl

theorem receive_opened {p : Piece} {s : Http.Scan} (later : ∀ t, s.pos < t.pos → Resumes p t) (n : ℕ)
    (same : view s.http = image (.opened false n)) (inside : s.pos < p.size) :
    Receives s.http (reading (.opened false n) (p.data.drop s.pos)) ((Http.chunks p).run s) := by
  have size : p.size = p.data.length := rfl
  have detected : s.http.endDetected = false := congrArg View.endDetected same
  have empty : s.http.chunkHeader = [] := congrArg View.chunkHeader same
  have length : s.http.chunkLength = n + 1 := congrArg View.chunkLength same
  have taken : (Http.chunks p).body s = .again (Http.takeChunk p s) := by
    rw [Http.chunks_body, Http.chunksBody, if_pos inside, if_pos (by omega)]
  rw [(Http.chunks p).run_again taken]
  by_cases short : (p.size - s.pos : ℕ) < s.http.chunkLength
  · rw [takeChunk_short p s short, chunks_end p le_rfl, empty]
    rw [reading_opened_short n _ (by simp; omega) (by simp; omega)]
    exact ⟨_, _, by simp, rfl⟩
  · have cut := List.take_append_drop (n + 1) (p.data.drop s.pos)
    rw [List.drop_drop] at cut
    have full := takeChunk_full p n s length short
    have next := later (Http.takeChunk p s) (by rw [full]; exact Nat.lt_add_of_pos_right (Nat.succ_pos n))
      (.line 0 []) (.line 0) (by
        rw [full, empty]
        exact congrArg (View.mk · (-1) []) detected)
      (by rw [full])
    rw [full, empty] at next ⊢
    rw [← cut, reading_opened_full n _ _ (by simp; omega), cut]
    simpa using next.after_fed

theorem receive_line {p : Piece} {s : Http.Scan} (later : ∀ t, s.pos < t.pos → Resumes p t) (k : ℕ)
    (same : view s.http = image (.line k [])) (together : s.pos2 = s.pos) (inside : s.pos < p.size) :
    Receives s.http (reading (.line k []) (p.data.drop s.pos)) ((Http.chunks p).run s) := by
  have detected : s.http.endDetected = false := congrArg View.endDetected same
  have empty : s.http.chunkHeader = [] := congrArg View.chunkHeader same
  have negative : s.http.chunkLength = .negSucc k := congrArg View.chunkLength same
  have read := sizeLine_read p s.http k empty s rfl (by omega) (.inr together)
  have moved := Http.lt_sizeLine_pos p s inside
  rw [together, slice_self] at read
  have body := chunksBody_sizeLine p s inside (by omega) rfl
  generalize (Http.sizeLine p).run s = t at read moved body
  cases read with
  | broken kept outside order read =>
    rw [kept, if_neg (by omega)] at body
    rw [(Http.chunks p).run_again body, chunks_end p (by simpa using outside), read]
    refine ⟨[], s.http.contentwritten, rfl, ?_⟩
    rw [fed_nil, Http.keepHeader, kept, empty, ← negative]
    by_cases apart : t.pos2 < t.pos
    · rw [if_pos ⟨outside, by omega, apart⟩, if_pos rfl, slice_size p _ le_rfl]
      rfl
    · rw [if_neg (by omega), kept, drop_of_le p (by omega)]
      simp [settle, ← empty]
  | complete n stored joined read =>
    rw [stored] at body
    have same' : { s.http with chunkLength := n } =
        fed s.http [] ⟨false, n, []⟩ s.http.contentwritten := by
      rw [fed_nil, ← empty]
    by_cases zero : n = 0
    · rw [if_pos zero] at body
      rw [(Http.chunks p).run_stop body, read, same', zero]
      exact ⟨[], s.http.contentwritten, by simp [Phase.start, reading_done],
        by simp [Phase.start, reading_done, settle]; rfl⟩
    · rw [if_neg zero] at body
      have kept : Http.keepHeader p t = t := by
        rw [Http.keepHeader, if_neg (by omega)]
      have next := later t (by omega) _ (resting_start zero) (by
        rw [stored, image_start zero, ← empty]
        exact congrArg (View.mk · n _) detected) joined
      rw [(Http.chunks p).run_again body, kept, read]
      rw [stored, same'] at next
      simpa using next.after_fed

theorem chunks_receive (p : Piece) (s : Http.Scan) : ∀ φ, Resting φ → view s.http = image φ →
    s.pos2 = s.pos →
    Receives s.http (reading φ (p.data.drop s.pos)) ((Http.chunks p).run s) := by
  change Resumes p s
  generalize rounds : p.size - s.pos = left
  induction left using Nat.strongRecOn generalizing s with
  | ind left ih =>
    by_cases inside : s.pos < p.size
    · have later (t : Http.Scan) (moved : s.pos < t.pos) : Resumes p t :=
        ih (p.size - t.pos) (by omega) t rfl
      intro φ rests same together
      cases rests with
      | opened n => exact receive_opened later n same inside
      | line k => exact receive_line later k same together inside
    · exact resumes_end p s (Nat.not_lt.mp inside)

/-- A chunked body is being stored. -/
structure Live (h : Http) : Prop where
  going : h.endDetected = false
  stored : h.tempCache.isSome
  answered : h.http_code ≠ 0
  unsized : h.contentsize < 0

def Undecoded (h : Http) : Prop := h.endDetected = true ∨ h.tempCache = none ∨ h.http_code = 0

theorem live_of_decoded {h : Http} (unsized : h.contentsize < 0) (decoded : ¬Undecoded h) :
    Live h := by
  simp only [Undecoded, not_or] at decoded
  exact ⟨by simpa using decoded.1, Option.isSome_iff_ne_none.mpr decoded.2.1, decoded.2.2, unsized⟩

theorem write_undecoded {h : Http} (unsized : h.contentsize < 0) (alone : Undecoded h) (p : Piece) :
    (h.write p).1 = h := by
  unfold Http.write
  rcases alone with ended | closed | unanswered
  · rw [if_pos ended]
  · rw [closed]
    split <;> rfl
  · split
    · rfl
    · split
      · rfl
      · rw [if_neg (by omega), if_neg (by simpa using unanswered)]

theorem write_live {h : Http} (live : Live h) (p : Piece) :
    (h.write p).1 = (Http.chunks p).run ⟨h, 0, 0⟩ := by
  obtain ⟨c, stored⟩ := Option.isSome_iff_exists.mp live.stored
  have unsized := live.unsized
  unfold Http.write
  rw [if_neg (by simp [live.going]), stored]
  simp only
  rw [if_neg (by omega), if_pos live.answered]

theorem write_receives {h : Http} (live : Live h) {φ : Phase Byte} (rests : Resting φ)
    (same : view h = image φ) (p : Piece) : Receives h (reading φ p.data) (h.write p).1 := by
  rw [write_live live]
  simpa using chunks_receive p ⟨h, 0, 0⟩ φ rests same rfl

section Receives

variable {h r : Http} {read : View × Bytes}

theorem settle_asked (v : View) (m : Http) :
    (settle v m).tempCache.map Cache.asked = m.tempCache.map Cache.asked := by
  unfold settle
  split
  · exact Http.endDownload_asked m
  · rfl

theorem Receives.view_eq (received : Receives h read r) (live : Live h) : view r = read.1 := by
  obtain ⟨ws, w, -, rfl⟩ := received
  have going : (fed h ws read.1 w).endDetected = false := live.going
  obtain ⟨⟨ended, length, header⟩, out⟩ := read
  cases ended with
  | true => rfl
  | false => exact congrArg (View.mk · length header) going

theorem Receives.asked (received : Receives h read r) :
    r.tempCache.map Cache.asked = (h.tempCache.map Cache.asked).map (· ++ read.2) := by
  obtain ⟨ws, w, stored, rfl⟩ := received
  rw [settle_asked, ← stored]
  simp only [fed, Option.map_map]
  congr 1
  funext c
  simp [Cache.asked]

theorem Receives.contentsize (received : Receives h read r) : r.contentsize = h.contentsize := by
  obtain ⟨ws, w, -, rfl⟩ := received
  unfold settle
  split <;> rfl

theorem Receives.live (received : Receives h read r) (live : Live h)
    (going : read.1.endDetected = false) : Live r := by
  obtain ⟨ws, w, -, rfl⟩ := received
  rw [settle, if_neg (by simp [going])]
  exact ⟨live.going, by simpa [fed] using live.stored, live.answered, live.unsized⟩

theorem Receives.trans {r' : Http} {read' : View × Bytes} (first : Receives h read r)
    (going : read.1.endDetected = false) (second : Receives r read' r') :
    Receives h (read'.1, read.2 ++ read'.2) r' := by
  obtain ⟨ws, w, stored, rfl⟩ := first
  rw [settle, if_neg (by simp [going])] at second
  rw [← stored]
  exact second.after_fed

end Receives

theorem reading_append (φ : Phase Byte) (bs cs : Bytes) :
    reading φ (bs ++ cs) = ((reading (φ.after grammar bs) cs).1,
      (reading φ bs).2 ++ (reading (φ.after grammar bs) cs).2) := by
  simp only [reading, Phase.after_append, Phase.emitted_append]

/-- A size line as HTTP has it: hexadecimal digits, and extensions behind a
semicolon. -/
structure SizeLine (line : Bytes) (n : ℕ) : Prop where
  parts : ∃ digits extensions, line = digits ++ extensions ∧ digits ≠ [] ∧
    (∀ c ∈ digits, (Common.hexToDecUnit c).isSome) ∧ Common.digitsValue 16 0 digits = n ∧
    (∀ c ∈ extensions.head?, c = 59) ∧ ∀ c ∈ extensions, c ≠ LF ∧ c ≠ CR
  small : n < 2 ^ 63

def Chunked (body payload : Bytes) : Prop := Coded grammar SizeLine body payload

theorem SizeLine.sound (line : Bytes) (n : ℕ) (valid : SizeLine line n) : line ≠ [] ∧
    (∀ b ∈ line, b ≠ LF ∧ b ≠ CR) ∧ sizeValue line = n := by
  obtain ⟨⟨digits, extensions, rfl, nonempty, hex, rfl, stop, plain⟩, small⟩ := valid
  refine ⟨List.append_ne_nil_of_left_ne_nil nonempty _, ?_, ?_⟩
  · intro b member
    rcases List.mem_append.mp member with digit | extension
    · exact (Common.hexDigit_facts (hex b digit)).2.2.2.2.2.2
    · exact plain b extension
  · rw [sizeValue, Common.hexaTo64Bits, Common.strtoull16_digits digits extensions nonempty hex stop
      (Nat.lt_trans small (by decide)), Common.toInt64, if_pos small]

theorem Chunked.read {body payload : Bytes} (chunked : Chunked body payload) :
    (Phase.line 0 []).after grammar body = .done ∧
      (Phase.line 0 []).emitted grammar body = payload :=
  Coded.read grammar SizeLine.sound chunked

end FastCgiCdn.ChunkDecoder
