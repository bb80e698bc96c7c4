import FastCgiCdn.HeadCuts

/-! Heads whose lines are any bytes: with a colon or without one, with an empty
name or an empty value. A line without a colon is passed over; behind a colon
two bytes are passed over unseen, and since the line ends with CR and LF the
second of them is its line feed at most. -/

namespace FastCgiCdn.HeadLines

open HeadCuts HeadReading HeldValues HttpModel MeasuredLoop

structure Line where
  text : Bytes
  nonempty : text ≠ []
  clean : ∀ c ∈ text, c ≠ CR ∧ c ≠ LF

namespace Line

def bytes (l : Line) : Bytes := l.text ++ [CR, LF]

def name (l : Line) : Bytes := l.text.takeWhile (· ≠ 58)

def rest (l : Line) : Bytes := (l.text.dropWhile (· ≠ 58)).tail

/-- The line cut at its first colon. -/
def field (l : Line) : Field where
  name := l.name
  rest := l.rest
  name_clean c member :=
    have clean := l.clean c ((List.takeWhile_prefix _).subset member)
    ⟨by simpa using List.all_eq_true.mp List.all_takeWhile c member, clean.1, clean.2⟩
  rest_clean c member :=
    l.clean c ((List.dropWhile_suffix _).subset (List.mem_of_mem_tail member))

theorem cut_at_colon (text : Bytes) (colon : 58 ∈ text) :
    text.takeWhile (· ≠ 58) ++ 58 :: (text.dropWhile (· ≠ 58)).tail = text := by
  induction text with
  | nil => cases colon
  | cons c text ih =>
    by_cases here : c = 58
    · rw [here]
      rfl
    · have later : 58 ∈ text := by simpa [Ne.symm here] using colon
      rw [List.takeWhile_cons_of_pos (by simpa using here),
        List.dropWhile_cons_of_pos (by simpa using here), List.cons_append, ih later]

theorem field_bytes (l : Line) (colon : 58 ∈ l.text) : l.field.bytes = l.bytes := by
  change l.text.takeWhile (· ≠ 58) ++ 58 :: (l.text.dropWhile (· ≠ 58)).tail ++ [CR, LF] = _
  rw [cut_at_colon l.text colon, bytes]

end Line

def takeLine (env : Surroundings) (h : Http) (l : Line) : Http :=
  if 58 ∈ l.text then takeField env h l.field else h

section Read

variable (env : Surroundings) (size : ℕ) {buffer : Buffer}

theorem plain_read (h : Http) (start : h.parsing = .headerVar) (pos : ℕ) (l : Line)
    (plain : 58 ∉ l.text) (holds : Holds buffer pos l.bytes) (inside : pos + l.bytes.length ≤ size)
    (small : pos + l.bytes.length < 65536) :
    Leads (Http.headBody env buffer size) (l.text.length + 1) ⟨h, pos, pos⟩
      ⟨h, pos + l.bytes.length, pos + l.bytes.length⟩ := by
  have length : l.bytes.length = l.text.length + 2 := by
    simp only [Line.bytes, List.length_append, List.length_cons, List.length_nil]
  rw [Line.bytes, holds_append] at holds
  obtain ⟨text, crlf⟩ := holds
  have toEnd := field_skip env size h pos pos l.text text (by omega) (by omega)
    (fun c member => ⟨(l.clean c member).1, (l.clean c member).2, fun colon => by
      rw [colon] at member
      exact absurd member plain⟩)
  have some_text := List.length_pos_of_ne_nil l.nonempty
  have step : Http.headBody env buffer size ⟨h, pos + l.text.length, pos⟩ =
      .again ⟨h, pos + l.bytes.length, pos + l.bytes.length⟩ := by
    have colon : ¬(CR = 58 ∧ h.parsing = .headerVar) := fun both => absurd both.1 (by decide)
    have ended : Http.lineEnd CR = true := rfl
    have long : ¬(pos + l.text.length = pos ∧ h.parsing = .headerVar) := fun both => by omega
    have sound : Http.throws ⟨h, pos + l.text.length, pos⟩ = false := by
      simp [Http.throws, start]
    have same : { Http.takeValue env (span buffer pos (pos + l.text.length)) h with
        parsing := .headerVar } = h := by
      simp only [Http.takeValue, start]
      rw [← start]
    rw [Http.headBody, if_pos (show pos + l.text.length < size by omega)]
    simp only [crlf.1, if_neg colon, if_pos ended, if_neg long, sound, Bool.false_eq_true, if_false,
      same, skipLineEnd_crlf (show pos + l.text.length + 2 < 65536 by omega) crlf, length,
      Nat.add_assoc]
  exact toEnd.trans (.one step)

theorem line_read (h : Http) (start : h.parsing = .headerVar) (pos : ℕ) (l : Line)
    (holds : Holds buffer pos l.bytes) (inside : pos + l.bytes.length ≤ size)
    (small : pos + l.bytes.length < 65536) : ∃ n ≤ l.bytes.length,
    Leads (Http.headBody env buffer size) n ⟨h, pos, pos⟩
      ⟨takeLine env h l, pos + l.bytes.length, pos + l.bytes.length⟩ := by
  unfold takeLine
  split
  · rename_i colon
    have same := l.field_bytes colon
    rw [← same] at holds inside small ⊢
    exact field_read env size h start pos l.field holds inside small
  · rename_i plain
    refine ⟨_, ?_, plain_read env size h start pos l plain holds inside small⟩
    simp only [Line.bytes, List.length_append, List.length_cons, List.length_nil]
    omega

theorem takeLine_parsing (h : Http) (start : h.parsing = .headerVar) (l : Line) :
    (takeLine env h l).parsing = .headerVar := by
  unfold takeLine
  split
  · rfl
  · exact start

theorem lines_parsing (lines : List Line) (h : Http) (start : h.parsing = .headerVar) :
    (lines.foldl (takeLine env) h).parsing = .headerVar := by
  induction lines generalizing h with
  | nil => exact start
  | cons l lines ih => exact ih _ (takeLine_parsing env h start l)

/-- All lines, one after the other: the loop stands at the start of a line, in
the state for one, whatever the line before was. -/
theorem lines_read (lines : List Line) (h : Http) (start : h.parsing = .headerVar) (pos : ℕ)
    (holds : Holds buffer pos (lines.flatMap Line.bytes))
    (inside : pos + (lines.flatMap Line.bytes).length ≤ size)
    (small : pos + (lines.flatMap Line.bytes).length < 65536) :
    ∃ n ≤ (lines.flatMap Line.bytes).length,
      Leads (Http.headBody env buffer size) n ⟨h, pos, pos⟩
        ⟨lines.foldl (takeLine env) h, pos + (lines.flatMap Line.bytes).length,
          pos + (lines.flatMap Line.bytes).length⟩ := by
  induction lines generalizing h pos with
  | nil => exact ⟨0, le_rfl, .refl _⟩
  | cons l lines ih =>
    rw [List.flatMap_cons, List.length_append] at inside small ⊢
    rw [List.flatMap_cons, holds_append] at holds
    obtain ⟨n, bound, first⟩ := line_read env size h start pos l holds.1 (by omega) (by omega)
    obtain ⟨m, bound', others⟩ := ih (takeLine env h l) (takeLine_parsing env h start l)
      (pos + l.bytes.length) holds.2 (by omega) (by omega)
    rw [Nat.add_assoc] at others
    exact ⟨n + m, by omega, first.trans others⟩

end Read

/-- A head with the code 200 and any lines. -/
structure LineHead where
  version : Bytes
  reason : Bytes
  lines : List Line
  version_clean : ∀ c ∈ version, c ≠ 32 ∧ c ≠ LF
  reason_clean : ∀ c ∈ reason, c ≠ CR ∧ c ≠ LF

namespace LineHead

def status (head : LineHead) : Head where
  version := head.version
  code := ascii "200"
  reason := head.reason
  fields := []
  version_clean := head.version_clean
  code_digits := ok_digits
  reason_clean := head.reason_clean

def bytes (head : LineHead) : Bytes :=
  head.status.statusLine ++ head.lines.flatMap Line.bytes ++ [CR, LF]

def taken (env : Surroundings) (h : Http) (head : LineHead) : Http :=
  { head.lines.foldl (takeLine env)
      { answered h head.status.code with parsing := .headerVar } with parsing := .content }

theorem bytes_length (head : LineHead) : head.bytes.length =
    head.status.statusLine.length + (head.lines.flatMap Line.bytes).length + 2 := by
  simp only [bytes, List.length_append, List.length_cons, List.length_nil]

end LineHead

theorem takeLine_frame (env : Surroundings) (h : Http) (l : Line) :
    (takeLine env h l).endDetected = h.endDetected := by
  unfold takeLine
  split
  · unfold takeField Http.takeValue
    split <;> rfl
  · rfl

theorem taken_going (env : Surroundings) (h : Http) (head : LineHead) :
    (head.taken env h).endDetected = h.endDetected := by
  have lines (ls : List Line) (g : Http) :
      (ls.foldl (takeLine env) g).endDetected = g.endDetected := by
    induction ls generalizing g with
    | nil => rfl
    | cons l ls ih => rw [List.foldl_cons, ih, takeLine_frame]
  exact lines head.lines _

theorem lines_parsed (env : Surroundings) (h : Http) (unread : h.http_code = 0) (head : LineHead)
    (r : Read) (rest : Bytes) (stands : r.data = head.bytes ++ rest)
    (small : head.bytes.length < 65536) {fuel : ℕ} (enough : head.bytes.length ≤ fuel) : ∃ s,
    rounds (Http.statusBody env r.data.length) fuel ⟨h, r.buffer [], 0, none⟩ = some (.line s) ∧
      s.http.http_code = 200 ∧ span s.buffer head.bytes.length r.data.length = rest ∧
      rounds (Http.headBody env s.buffer r.data.length) fuel
        ⟨{ s.http with parsing := .headerVar }, bump s.pos, bump s.pos⟩ =
        some (Http.openCache env (head.taken env h) head.bytes.length (head.bytes.length - 2)) := by
  have length := head.bytes_length
  have size : r.data.length = head.bytes.length + rest.length := by
    rw [stands, List.length_append]
  obtain ⟨status, tail⟩ := status_parsed env h unread head.status rfl r
    (head.lines.flatMap Line.bytes ++ ([CR, LF] ++ rest))
    (by rw [stands, LineHead.bytes, List.append_assoc, List.append_assoc])
    (by omega) (show head.status.statusLine.length ≤ fuel by omega)
  rw [holds_append, holds_append] at tail
  obtain ⟨lines, crlf, content⟩ := tail
  obtain ⟨n, bound, toEnd⟩ := lines_read env r.data.length head.lines
    { answered h head.status.code with parsing := .headerVar } rfl _ lines (by omega) (by omega)
  have last := empty_line env r.data.length _ (lines_parsing env head.lines
    { answered h head.status.code with parsing := .headerVar } rfl) _ crlf (by omega) (by omega)
  refine ⟨_, status, rfl, ?_, ?_⟩
  · rw [List.length_cons, List.length_singleton, ← length] at content
    rw [size]
    exact span_of_holds _ content
  · simp only [bump_statusLine head.status (show head.status.statusLine.length < 65536 by omega)]
    have whole := rounds_mono (show n + 1 ≤ fuel by omega) (toEnd.stop last)
    rw [← length, show head.status.statusLine.length + (head.lines.flatMap Line.bytes).length =
      head.bytes.length - 2 by omega] at whole
    exact whole

/-- The header loop stops behind the first empty line, and what follows it is
what `write` is given. -/
theorem end_of_head_found (env : Surroundings) (h : Http) (unread : h.http_code = 0)
    (fresh : h.parsing ≠ .content) (going : h.endDetected = false) (head : LineHead)
    (small : head.bytes.length < 65535) (r : Read) (rest : Bytes)
    (stands : r.data = head.bytes ++ rest) (ready : Ready env (head.taken env h)) :
    ∃ fuel s t behind,
      rounds (Http.statusBody env r.data.length) fuel ⟨h, r.buffer [], 0, none⟩ = some (.line s) ∧
      rounds (Http.headBody env s.buffer r.data.length) fuel
        ⟨{ s.http with parsing := .headerVar }, bump s.pos, bump s.pos⟩ = some (.parsed t) ∧
      t.http.parsing = .content ∧ t.pos = head.bytes.length ∧
      h.readOne env fuel [] r = some (firstRound t.http rest behind) := by
  obtain ⟨s, status, code, content, fields⟩ :=
    lines_parsed env h unread head r rest stands (by omega) (le_refl head.bytes.length)
  have size : r.data.length = head.bytes.length + rest.length := by
    rw [stands, List.length_append]
  rw [openCache_ready ready] at fields
  have alive : (opened env (head.taken env h)).endDetected = false :=
    (taken_going env h head).trans going
  refine ⟨_, s, _, s.buffer r.data.length, status, fields, rfl, rfl, ?_⟩
  simp only [Http.readOne, if_neg fresh, if_pos unread, status, Option.bind_some,
    if_neg (not_not.mpr code), fields, Option.map_some]
  exact congrArg some (afterHead_body alive rfl s.buffer content size)

set_option maxRecDepth 2048 in
def oddLines : LineHead where
  version := ascii "HTTP/1.1"
  reason := ascii "OK"
  lines := [⟨ascii "abc", by decide, by decide⟩, ⟨ascii ":", by decide, by decide⟩,
    ⟨ascii "a:", by decide, by decide⟩, ⟨ascii "ETag:b:", by decide, by decide⟩]
  version_clean := version_clean
  reason_clean := ok_clean

set_option maxRecDepth 2048 in
theorem end_of_odd_head_found : ∃ fuel s t behind,
    rounds (Http.statusBody roomy (received (oddLines.bytes ++ ascii "body")).data.length) fuel
        ⟨requested, (received (oddLines.bytes ++ ascii "body")).buffer [], 0, none⟩ =
        some (.line s) ∧
      rounds (Http.headBody roomy s.buffer (received (oddLines.bytes ++ ascii "body")).data.length)
        fuel ⟨{ s.http with parsing := .headerVar }, bump s.pos, bump s.pos⟩ = some (.parsed t) ∧
      t.http.parsing = .content ∧ t.pos = oddLines.bytes.length ∧
      requested.readOne roomy fuel [] (received (oddLines.bytes ++ ascii "body")) =
        some (firstRound t.http (ascii "body") behind) :=
  end_of_head_found roomy requested rfl (by decide) rfl oddLines (by decide) (received _) (ascii "body")
    rfl ⟨rfl, rfl, rfl, by decide⟩

end FastCgiCdn.HeadLines
