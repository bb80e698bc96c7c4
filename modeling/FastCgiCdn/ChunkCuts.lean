import FastCgiCdn.ChunkDecoder

/-! Cutting a chunked body into pieces: where a cut leaves the result of the
calls of `Http::write` as it is, and what it does everywhere else. -/

namespace FastCgiCdn.ChunkCuts

open ChunkFraming HttpModel ChunkDecoder MeasuredLoop

def writes (h : Http) (pieces : List Piece) : Http :=
  pieces.foldl (fun h p => (h.write p).1) h

/-- The decoder states that calls of `write` reach, whatever else the object
holds. -/
inductive Reached : Http → Prop
  | start (h : Http) : h.endDetected = false → h.chunkLength = -1 → h.chunkHeader = [] → Reached h
  | write (h : Http) (p : Piece) : Reached h → Reached (h.write p).1

def SameDecoding (a b : Http) : Prop :=
  view a = view b ∧ a.tempCache.map Cache.asked = b.tempCache.map Cache.asked

/-- The state of the automaton in which a piece starts when no size line is
kept. -/
def phaseOf (h : Http) : Phase Byte := .start false h.chunkLength

theorem writes_undecoded {h : Http} (unsized : h.contentsize < 0) (alone : Undecoded h)
    (pieces : List Piece) : writes h pieces = h := by
  induction pieces with
  | nil => rfl
  | cons p pieces ih =>
    rw [writes, List.foldl_cons, write_undecoded unsized alone]
    exact ih

theorem resting_of_mayCut {φ : Phase Byte} {b : Byte} (clean : φ.mayCut grammar b)
    (going : φ ≠ .done) : ∃ ψ, Resting ψ ∧ image ψ = image φ ∧
      ∀ bs, φ.after grammar (b :: bs) = ψ.after grammar (b :: bs) ∧
        φ.emitted grammar (b :: bs) = ψ.emitted grammar (b :: bs) := by
  cases φ with
  | line k seen =>
    obtain rfl : seen = [] := clean
    exact ⟨_, .line k, rfl, fun _ => ⟨rfl, rfl⟩⟩
  | opened afterCr n =>
    refine ⟨_, .opened n, rfl, fun bs => ?_⟩
    have cr := Phase.opened_eq_inside grammar afterCr n b bs clean
    have plain := Phase.opened_eq_inside grammar false n b bs (by simp)
    exact ⟨cr.1.trans plain.1.symm, cr.2.trans plain.2.symm⟩
  | inside n => exact clean.elim
  | done => exact absurd rfl going

theorem cleanCuts_congr {φ ψ : Phase Byte} {b : Byte} {bs : Bytes} {rest : List Bytes}
    (same : φ.after grammar (b :: bs) = ψ.after grammar (b :: bs)) :
    φ.cleanCuts grammar ((b :: bs) :: rest) ↔ ψ.cleanCuts grammar ((b :: bs) :: rest) := by
  cases rest with
  | nil => exact Iff.rfl
  | cons e rest => simp only [Phase.cleanCuts, same]

/-- Behind a clean cut that does not end the body the download rests in a state
of the automaton that reads what is left as the state before the cut does. -/
theorem write_rests {h : Http} {φ : Phase Byte} (live : Live h) (rests : Resting φ)
    (same : view h = image φ) {p q : Piece} {pieces : List Piece} {b : Byte} {bs : Bytes}
    (whole : q.data = b :: bs) (clean : φ.cleanCuts grammar ((p :: q :: pieces).map Piece.data))
    (going : φ.after grammar p.data ≠ .done) :
    ∃ ψ, Resting ψ ∧ Live (h.write p).1 ∧ view (h.write p).1 = image ψ ∧
      ψ.cleanCuts grammar ((q :: pieces).map Piece.data) ∧
      ∀ cs, (φ.after grammar p.data).after grammar (b :: cs) = ψ.after grammar (b :: cs) ∧
        (φ.after grammar p.data).emitted grammar (b :: cs) = ψ.emitted grammar (b :: cs) := by
  have first := write_receives live rests same p
  obtain ⟨here, later⟩ := clean
  obtain ⟨ψ, rests', same', agree⟩ := resting_of_mayCut (here b (by simp [whole])) going
  have open_end : (image (φ.after grammar p.data)).endDetected = false := by
    rw [← same']
    cases rests' <;> rfl
  refine ⟨ψ, rests', first.live live open_end, (first.view_eq live).trans same'.symm, ?_, agree⟩
  change Phase.cleanCuts _ _ (q.data :: pieces.map Piece.data) at later
  change Phase.cleanCuts _ _ (q.data :: pieces.map Piece.data)
  rw [whole] at later ⊢
  exact (cleanCuts_congr (agree bs).1).mp later

theorem writes_receive (pieces : List Piece) : ∀ (h : Http) (φ : Phase Byte), Live h →
    Resting φ → view h = image φ → (∀ p ∈ pieces, p.data ≠ []) →
    φ.cleanCuts grammar (pieces.map Piece.data) →
    Receives h (reading φ (pieces.map Piece.data).flatten) (writes h pieces) := by
  induction pieces with
  | nil =>
    intro h φ live rests same _ _
    have nothing := write_receives live rests same ⟨[], 0⟩
    rwa [write_live live, chunks_end _ le_rfl] at nothing
  | cons p pieces ih =>
    intro h φ live rests same nonempty clean
    have first := write_receives live rests same p
    cases pieces with
    | nil => simpa [writes] using first
    | cons q pieces =>
      obtain ⟨b, bs, whole⟩ := List.exists_cons_of_ne_nil (nonempty q (by simp))
      have joined : ((p :: q :: pieces).map Piece.data).flatten =
          p.data ++ ((q :: pieces).map Piece.data).flatten := rfl
      rw [joined, reading_append]
      by_cases ended : φ.after grammar p.data = .done
      · have atEnd : (h.write p).1.endDetected = true :=
          congrArg View.endDetected ((first.view_eq live).trans (congrArg image ended))
        have kept : writes h (p :: q :: pieces) = (h.write p).1 := by
          change writes (h.write p).1 (q :: pieces) = _
          exact writes_undecoded (first.contentsize ▸ live.unsized) (.inl atEnd) _
        rw [kept, ended, reading_done]
        simpa [reading, ended, image] using first
      · obtain ⟨ψ, rests', live', same', clean', agree⟩ :=
          write_rests live rests same whole clean ended
        have second := ih (h.write p).1 ψ live' rests' same'
          (fun q member => nonempty q (List.mem_cons_of_mem _ member)) clean'
        have seen : view (h.write p).1 = image (φ.after grammar p.data) := first.view_eq live
        have going : (image (φ.after grammar p.data)).endDetected = false :=
          (congrArg View.endDetected seen).symm.trans live'.going
        have rest : ((q :: pieces).map Piece.data).flatten =
            b :: (bs ++ (pieces.map Piece.data).flatten) := by
          rw [List.map_cons, List.flatten_cons, whole, List.cons_append]
        have after : reading ψ ((q :: pieces).map Piece.data).flatten =
            reading (φ.after grammar p.data) ((q :: pieces).map Piece.data).flatten := by
          have same_reading := agree (bs ++ (pieces.map Piece.data).flatten)
          rw [rest, reading, reading, same_reading.1, same_reading.2]
        rw [after] at second
        exact first.trans going second

theorem chunks_chunkLength (p : Piece) (s : Http.Scan) :
    s.http.chunkLength ≠ 0 → ((Http.chunks p).run s).endDetected = false →
      ((Http.chunks p).run s).chunkLength ≠ 0 := by
  apply Http.chunks_rule p (P := fun s r =>
    s.http.chunkLength ≠ 0 → r.endDetected = false → r.chunkLength ≠ 0)
  case outside => exact fun _ _ nonzero _ => nonzero
  case last =>
    intro s _ _ _ going
    cases going
  case chunk =>
    intro s r _ _ later _
    apply later
    unfold Http.takeChunk
    split <;> simp
  case line =>
    intro s r _ incomplete later _
    apply later
    unfold Http.keepHeader
    split
    · split <;> exact incomplete
    · exact incomplete

theorem Reached.chunkLength {h : Http} (reached : Reached h) :
    h.endDetected = false → h.chunkLength ≠ 0 := by
  induction reached with
  | start h _ length _ => simp [length]
  | write h p _ ih =>
    unfold Http.write
    split
    · exact ih
    · rename_i going
      split
      · exact ih
      · split
        · unfold Http.writeSized
          split
          · intro ended
            cases ended
          · exact fun _ => ih (by simpa using going)
        · split
          · exact chunks_chunkLength p ⟨h, 0, 0⟩ (ih (by simpa using going))
          · exact ih

theorem view_of_reached {h : Http} (reached : Reached h) (live : Live h)
    (empty : h.chunkHeader = []) : Resting (phaseOf h) ∧ view h = image (phaseOf h) := by
  have nonzero := reached.chunkLength live.going
  refine ⟨resting_start nonzero, ?_⟩
  rw [phaseOf, image_start nonzero, view, live.going, empty]

theorem sameDecoding_of_receives {h r r' : Http} {read : View × Bytes} (live : Live h)
    (one : Receives h read r) (other : Receives h read r') : SameDecoding r r' :=
  ⟨(one.view_eq live).trans (other.view_eq live).symm, one.asked.trans other.asked.symm⟩

theorem write_kept {h : Http} (live : Live h) (kept : h.chunkHeader ≠ [])
    (negative : h.chunkLength < 0) (b c : Byte) : (h.write ⟨[b], c⟩).1 = h := by
  have line : ∃ t, (Http.sizeLine ⟨[b], c⟩).run ⟨h, 0, 0⟩ = t ∧ t.http = h ∧ 1 ≤ t.pos := by
    have size : Piece.size ⟨[b], c⟩ = 1 := rfl
    have atEnd (t : Http.Scan) (outside : 1 ≤ t.pos) : (Http.sizeLine ⟨[b], c⟩).run t = t := by
      apply (Http.sizeLine _).run_stop
      rw [Http.sizeLine_body, Http.sizeLineBody, if_neg (by omega)]
    by_cases lineEnd : b = LF ∨ b = CR
    · have skipped := Http.lt_skipEnd ⟨[b], c⟩ 0
      refine ⟨⟨h, Piece.skipEnd ⟨[b], c⟩ 0, Piece.skipEnd ⟨[b], c⟩ 0⟩, ?_, rfl, skipped⟩
      rw [(Http.sizeLine _).run_again (t := ⟨h, Piece.skipEnd ⟨[b], c⟩ 0, Piece.skipEnd ⟨[b], c⟩ 0⟩)]
      · exact atEnd _ skipped
      · rw [Http.sizeLine_body, Http.sizeLineBody, if_pos (by simp [Piece.size]), if_pos (by simpa [Piece.byte] using lineEnd),
          if_pos rfl]
    · refine ⟨⟨h, 1, 0⟩, ?_, rfl, le_rfl⟩
      rw [(Http.sizeLine _).run_again (t := ⟨h, 1, 0⟩)]
      · exact atEnd _ le_rfl
      · rw [Http.sizeLine_body, Http.sizeLineBody, if_pos (by simp [Piece.size]), if_neg (by simpa [Piece.byte] using lineEnd)]
  obtain ⟨t, run, same, outside⟩ := line
  have body := chunksBody_sizeLine ⟨[b], c⟩ ⟨h, 0, 0⟩ (by simp [Piece.size]) negative run
  rw [same, if_neg (by omega)] at body
  rw [write_live live, (Http.chunks _).run_again body, chunks_end _ (by simpa [Piece.size] using outside),
    Http.keepHeader, same, if_neg kept]
  split <;> exact same

theorem length_asked {a b : Http} (same : SameDecoding a b) {x y : Bytes}
    (left : a.tempCache.map Cache.asked = some x) (right : b.tempCache.map Cache.asked = some y) :
    x.length = y.length := by
  have equal := same.2
  rw [left, right] at equal
  rw [Option.some.inj equal]

theorem reading_line_header (k : ℕ) {seen : Bytes} (kept : seen ≠ []) (b : Byte) :
    seen ≠ (reading (.line k seen) [b]).1.chunkHeader := by
  by_cases lineEnd : b = LF ∨ b = CR
  · rw [reading_lineEnd k seen [] lineEnd kept]
    rcases sizeValue seen with (_ | n) | k <;> exact kept
  · rw [reading_char k seen [] lineEnd]
    simp [reading, image]

/-- A cut before the byte `b` shows in that very byte, unless the automaton
allows it. -/
theorem cut_before_byte {h : Http} (live : Live h) {φ : Phase Byte} (rests : Resting φ)
    (same : view h = image φ) (d : Piece) (nonempty : d.data ≠ []) (b c c' : Byte) :
    SameDecoding (writes h [d, ⟨[b], c⟩]) (h.write ⟨d.data ++ [b], c'⟩).1 ↔
      (φ.after grammar d.data).mayCut grammar b := by
  have first := write_receives live rests same d
  have whole := write_receives live rests same ⟨d.data ++ [b], c'⟩
  constructor
  · intro equal
    obtain ⟨cache, stored⟩ := Option.isSome_iff_exists.mp live.stored
    have wholeView := whole.view_eq live
    have wholeAsked := whole.asked
    rw [reading_append] at wholeView wholeAsked
    have cutView := first.view_eq live
    have cutAsked := first.asked
    rw [stored] at wholeAsked cutAsked
    change SameDecoding ((h.write d).1.write ⟨[b], c⟩).1 _ at equal
    change view _ = image (φ.after grammar d.data) at cutView
    have liveCut : (image (φ.after grammar d.data)).endDetected = false → Live (h.write d).1 :=
      first.live live
    generalize φ.after grammar d.data = ψ at wholeView wholeAsked cutView liveCut
    cases ψ with
    | line k seen =>
      by_contra kept
      have header : (h.write d).1.chunkHeader = seen := congrArg View.chunkHeader cutView
      have length : (h.write d).1.chunkLength = .negSucc k := congrArg View.chunkLength cutView
      rw [write_kept (liveCut rfl) (header ▸ kept) (by omega)] at equal
      have headers := congrArg View.chunkHeader ((cutView.symm.trans equal.1).trans wholeView)
      exact reading_line_header k kept b headers
    | opened afterCr n =>
      rintro ⟨rfl, lf⟩
      obtain rfl : b = LF := lf
      have second := (write_receives (liveCut rfl) (.opened n) cutView ⟨[LF], c⟩).asked
      have emitted : (reading (.opened false n) [LF]).2 = [LF] := by
        simp [reading, Phase.emitted, Phase.emit]
      have silent : (reading (.opened true n) [LF]).2 = [] := by
        simp [reading, Phase.emitted, Phase.emit, grammar]
      rw [silent] at wholeAsked
      rw [emitted, cutAsked] at second
      simpa using length_asked equal second wholeAsked
    | inside n =>
      have second := (write_receives (liveCut rfl) (.line 0) cutView ⟨[b], c⟩).asked
      have silent : (reading (.line 0 []) [b]).2 = [] := by
        simp [reading, Phase.emitted, Phase.emit]
      have emitted : (reading (.inside n) [b]).2 = [b] := by
        simp [reading, Phase.emitted, Phase.emit]
      rw [emitted] at wholeAsked
      rw [silent, cutAsked] at second
      simpa using length_asked equal second wholeAsked
    | done => trivial
  · intro clean
    have apart := writes_receive [d, ⟨[b], c⟩] h φ live rests same
      (by simpa using nonempty) ⟨by simpa using clean, trivial⟩
    exact sameDecoding_of_receives live (by simpa using apart) whole

/-- The calls of `write` agree with one call when every cut lies where the
automaton allows it, and a single cut anywhere else is wrong at once. -/
theorem chunk_decoding_of_cuts (h : Http) (reached : Reached h) (unsized : h.contentsize < 0) :
    (∀ (pieces : List Piece) (whole : Piece), (∀ p ∈ pieces, p.data ≠ []) →
      whole.data = (pieces.map Piece.data).flatten →
      (Undecoded h ∨ h.chunkHeader = [] ∧
        (phaseOf h).cleanCuts grammar (pieces.map Piece.data)) →
      SameDecoding (writes h pieces) (h.write whole).1) ∧
    (¬Undecoded h → h.chunkHeader = [] → ∀ (d : Piece) (b c c' : Byte), d.data ≠ [] →
      (SameDecoding (writes h [d, ⟨[b], c⟩]) (h.write ⟨d.data ++ [b], c'⟩).1 ↔
        ((phaseOf h).after grammar d.data).mayCut grammar b)) := by
  constructor
  · intro pieces whole nonempty joined condition
    by_cases alone : Undecoded h
    · rw [writes_undecoded unsized alone, write_undecoded unsized alone]
      exact ⟨rfl, rfl⟩
    · have live := live_of_decoded unsized alone
      obtain ⟨empty, clean⟩ := condition.resolve_left alone
      obtain ⟨rests, same⟩ := view_of_reached reached live empty
      have apart := writes_receive pieces h _ live rests same nonempty clean
      have together := write_receives live rests same whole
      rw [joined] at together
      exact sameDecoding_of_receives live apart together
  · intro decoded empty d b c c' nonempty
    have live := live_of_decoded unsized decoded
    obtain ⟨rests, same⟩ := view_of_reached reached live empty
    exact cut_before_byte live rests same d nonempty b c c'

def storing : Http :=
  { Http.new false (ascii "cache/0") with
    http_code := 200, tempCache := some ⟨true, 25, fun _ => 4096, []⟩ }

theorem storing_reached : Reached storing := .start _ rfl rfl rfl

theorem cut_between_chunks_is_harmless :
    SameDecoding (writes storing [⟨ascii "5\r\nhello\r\n", 0⟩, ⟨ascii "0\r\n\r\n", 0⟩])
      (storing.write ⟨ascii "5\r\nhello\r\n0\r\n\r\n", 0⟩).1 :=
  (chunk_decoding_of_cuts storing storing_reached (by decide)).1 _ _ (by decide) (by decide)
    (.inr ⟨rfl, by decide⟩)

/-- Cut inside the chunk, its last three bytes are taken for a size line. -/
theorem cut_inside_chunk_loses_data : Reached storing ∧ storing.contentsize < 0 ∧
    ¬SameDecoding (writes storing [⟨ascii "5\r\nhe", 0⟩, ⟨ascii "llo\r\n0\r\n\r\n", 0⟩])
      (storing.write ⟨ascii "5\r\nhello\r\n0\r\n\r\n", 0⟩).1 := by
  refine ⟨storing_reached, by decide, fun same => ?_⟩
  have asked := same.2
  revert asked
  decide

end FastCgiCdn.ChunkCuts
