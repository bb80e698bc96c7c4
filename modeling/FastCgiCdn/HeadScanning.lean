import FastCgiCdn.DownloadModel

/-! Whether the two loops over a response head end. Their position is a
`uint16_t`, the receive buffer holds 1048576 bytes: a read of at most 65534
bytes is scanned from left to right, and behind that the position can come back
to the start of the buffer and go round for ever. -/

namespace FastCgiCdn.HeadScanning

open DownloadModel GuardedRuns HeadCuts HeadReading HeldValues HttpModel MeasuredLoop

/-- The objects with which a round of the reading loop can begin: those between
events, and those that a round of the same call leaves. -/
inductive Begins : Http → Prop
  | event {d : Download} : Reach Download.Step anyStep Download.Initial d → Begins d.http
  | round {env : Surroundings} {fuel : ℕ} {kept passed : Bytes} {h h' : Http} {r : Read} :
    Begins h → h.readOne env fuel kept r = some (.goesOn h' passed) → Begins h'
  | nested {env : Surroundings} {fuel : ℕ} {kept : Bytes} {h h' : Http} {r : Read} :
    Begins h → h.readOne env fuel kept r = some (.recurses h') → Begins h'

/-- The loop over the status line and the one over the header lines both end. -/
def LoopsEnd (env : Surroundings) (kept : Bytes) (h : Http) (r : Read) : Prop :=
  ∃ fuel e, h.readOne env fuel kept r = some e

section Ends

variable (env : Surroundings) {size : ℕ}

theorem statusBody_advances (small : size < 65536) {s t : Http.StatusScan}
    (taken : Http.statusBody env size s = .again t) : size - t.pos < size - s.pos := by
  unfold Http.statusBody at taken
  split at taken
  · rename_i going
    have next : bump s.pos = s.pos + 1 := bump_of_lt (by omega)
    split at taken
    · split at taken
      · obtain rfl := Outcome.again.inj taken
        simp only
        omega
      · dsimp only at taken
        split at taken
        · obtain rfl := Outcome.again.inj taken
          simp only
          omega
        · cases taken
    · obtain rfl := Outcome.again.inj taken
      simp only
      omega
  · cases taken

theorem lt_skipLineEnd (buffer : Buffer) {pos : ℕ} (small : pos + 2 < 65536) :
    pos < skipLineEnd buffer pos := by
  have one : bump pos = pos + 1 := bump_of_lt (by omega)
  have two : bump (pos + 1) = pos + 2 := bump_of_lt (by omega)
  rw [skipLineEnd, one, two]
  split <;> omega

theorem headBody_advances (buffer : Buffer) (small : size < 65535) {s t : Http.HeadScan}
    (taken : Http.headBody env buffer size s = .again t) : size - t.pos < size - s.pos := by
  unfold Http.headBody at taken
  split at taken
  · rename_i going
    have one : bump s.pos = s.pos + 1 := bump_of_lt (by omega)
    have two : bump (s.pos + 1) = s.pos + 2 := bump_of_lt (by omega)
    have line := lt_skipLineEnd buffer (show s.pos + 2 < 65536 by omega)
    split at taken
    · obtain rfl := Outcome.again.inj taken
      simp only [one, two]
      omega
    · split at taken
      · split at taken
        · cases taken
        · split at taken
          · cases taken
          · obtain rfl := Outcome.again.inj taken
            simp only
            omega
      · obtain rfl := Outcome.again.inj taken
        simp only
        omega
  · cases taken

/-- Short reads are scanned to their end, whatever the object and the buffer. -/
theorem loopsEnd_short (kept : Bytes) (h : Http) (r : Read) (small : r.data.length < 65535) :
    LoopsEnd env kept h r := by
  by_cases body : h.parsing = .content
  · exact ⟨0, _, if_pos body⟩
  · have status (start : Http.StatusScan) : ∃ fuel e,
        (if h.http_code = 0 then rounds (Http.statusBody env r.data.length) fuel start
          else some (.line start)) = some e := by
      split
      · exact rounds_end _ (fun _ _ => statusBody_advances env (by omega)) start
      · exact ⟨0, _, rfl⟩
    obtain ⟨n, e, ended⟩ := status ⟨h, r.buffer kept, 0, none⟩
    cases e with
    | refused g =>
      refine ⟨n, .flushes g, ?_⟩
      simp only [Http.readOne, if_neg body, ended, Option.bind_some]
    | line s =>
      obtain ⟨m, e', ended'⟩ := rounds_end _ (fun _ _ => headBody_advances env s.buffer small)
        ⟨{ s.http with parsing := .headerVar }, bump s.pos, bump s.pos⟩
      have line : (if h.http_code = 0 then rounds (Http.statusBody env r.data.length) (max n m)
          ⟨h, r.buffer kept, 0, none⟩ else some (.line ⟨h, r.buffer kept, 0, none⟩)) =
          some (.line s) := by
        by_cases unread : h.http_code = 0
        · rw [if_pos unread] at ended ⊢
          exact rounds_mono (Nat.le_max_left n m) ended
        · rw [if_neg unread] at ended ⊢
          exact ended
      have fields := rounds_mono (Nat.le_max_right n m) ended'
      by_cases other : s.http.http_code ≠ 200
      · refine ⟨max n m, .flushes s.http, ?_⟩
        simp only [Http.readOne, if_neg body, line, Option.bind_some, if_pos other]
      · simp only [LoopsEnd, Http.readOne, if_neg body]
        refine ⟨max n m, ?_⟩
        rw [line, Option.bind_some]
        simp only [if_neg other, fields, Option.map_some]
        exact ⟨_, rfl⟩

end Ends

/-- A status line with the code 200, then a header line whose name reaches up to
the position 65534. -/
def longName (name rest : Bytes) : Bytes := ascii "a 200 \r\n" ++ (name ++ 58 :: rest)

theorem longName_length (name rest : Bytes) :
    (longName name rest).length = 8 + name.length + 1 + rest.length := by
  have line : (ascii "a 200 \r\n").length = 8 := rfl
  simp only [longName, List.length_append, List.length_cons, line]
  omega

set_option maxRecDepth 2048 in
theorem a_clean : ∀ c ∈ ascii "a", c ≠ 32 ∧ c ≠ LF := by decide

theorem nothing_clean : ∀ c ∈ ([] : Bytes), c ≠ CR ∧ c ≠ LF :=
  fun _ member => absurd member List.not_mem_nil

def shortLine : Head where
  version := ascii "a"
  code := ascii "200"
  reason := []
  fields := []
  version_clean := a_clean
  code_digits := ok_digits
  reason_clean := nothing_clean

theorem fieldParsing_long {name : Bytes} (long : 14 < name.length) :
    Http.fieldParsing name = .headerVal := by
  have apart (word : Bytes) (short : word.length ≤ 14) : name.map Common.tolower ≠ word := by
    intro same
    have length := congrArg List.length same
    rw [List.length_map] at length
    omega
  rw [Http.fieldParsing, if_neg (apart _ (by decide)), if_neg (apart _ (by decide)),
    if_neg (apart _ (by decide))]

section Circle

variable (env : Surroundings) {size : ℕ} {name : Bytes}

/-- Behind the colon the position is 0, and the status line is read as the rest
of the header line. -/
theorem header_circle (buffer : Buffer) (h : Http) (start : h.parsing = .headerVar)
    (long : 65535 ≤ size)
    (line : Holds buffer 0 ([97, 32, 50, 48, 48, 0] ++ [CR, LF]))
    (stands : Holds buffer 8 (name ++ [58])) (width : name.length = 65526)
    (clean : ∀ c ∈ name, c ≠ CR ∧ c ≠ LF ∧ c ≠ 58) :
    ∃ n, Leads (Http.headBody env buffer size) (n + 1) ⟨h, 8, 8⟩ ⟨h, 8, 8⟩ := by
  rw [holds_append] at line stands
  obtain ⟨plain, crlf⟩ := line
  obtain ⟨letters, colon, -⟩ := stands
  change Holds buffer 6 [CR, LF] at crlf
  have toColon := field_skip env size h 8 8 name letters (by omega) (by omega)
    (fun c member => ⟨(clean c member).1, (clean c member).2.1,
      fun wrong => absurd wrong (clean c member).2.2⟩)
  have named : Http.fieldParsing (span buffer 8 (8 + name.length)) = .headerVal := by
    rw [span_of_holds buffer letters]
    exact fieldParsing_long (by omega)
  have back : bump (bump (8 + name.length)) = 0 := by
    rw [width]
    rfl
  have step : Http.headBody env buffer size ⟨h, 8 + name.length, 8⟩ =
      .again ⟨{ h with parsing := .headerVal }, 0, 0⟩ := by
    simp only [Http.headBody, if_pos (show 8 + name.length < size by omega), colon, start, and_self,
      if_true, named, back]
  have skipped := field_skip env size { h with parsing := .headerVal } 0 0 _ plain
    (by simp only [List.length_cons, List.length_nil]; omega) (by decide)
    (fun c member => by
      refine ⟨?_, ?_, fun _ => by simp⟩
      · rintro rfl
        exact absurd member (by decide)
      · rintro rfl
        exact absurd member (by decide))
  change Leads _ 6 _ (Http.HeadScan.mk _ 6 0) at skipped
  have ended := value_end env size { h with parsing := .headerVal } 6 0 (span buffer 0 6)
    (by omega) (Nat.zero_le _) (by rw [crlf.1]; rfl) (by simp) rfl
  rw [skipLineEnd_crlf (by omega) crlf] at ended
  have same : { Http.takeValue env (span buffer 0 6) { h with parsing := .headerVal } with
      parsing := .headerVar } = h := by
    rw [← start]
    rfl
  rw [same] at ended
  exact ⟨_, ((toColon.trans (.one step)).trans skipped).trans ended⟩

theorem longName_never_ends (h : Http) (unread : h.http_code = 0) (fresh : h.parsing ≠ .content)
    (rest : Bytes) (stale : ℕ → Byte) (width : name.length = 65526)
    (clean : ∀ c ∈ name, c ≠ CR ∧ c ≠ LF ∧ c ≠ 58) :
    ¬LoopsEnd env [] h ⟨longName name rest, stale⟩ := by
  rintro ⟨fuel, e, ended⟩
  have length := longName_length name rest
  have holds := holds_read ⟨longName name rest, stale⟩
  change Holds _ 0 (shortLine.statusLine ++ (name ++ ([58] ++ rest))) at holds
  rw [← List.append_assoc name, holds_append, holds_append] at holds
  obtain ⟨line, letters, -⟩ := holds
  have status := status_read env (longName name rest).length h unread shortLine line
    (show 8 ≤ _ by omega) (by decide) (by decide)
    (show shortLine.statusLine.length ≤ fuel + 8 from Nat.le_add_left 8 fuel)
  change Holds _ 8 (name ++ [58]) at letters
  have marked : Holds (Function.update (Read.buffer [] ⟨longName name rest, stale⟩) 5 0) 0
      ([97, 32, 50, 48, 48, 0] ++ [CR, LF]) := by
    change Holds _ 0 ([97, 32, 50, 48, 48] ++ ([32] ++ [CR, LF])) at line
    change Holds _ 0 ([97, 32, 50, 48, 48] ++ ([0] ++ [CR, LF]))
    rw [holds_append, holds_append] at line ⊢
    exact ⟨(holds_update _ 0 5 0 _ (.inr le_rfl)).mpr line.1, ⟨Function.update_self .., trivial⟩,
      (holds_update _ 6 5 0 _ (.inl (by decide))).mpr line.2.2⟩
  obtain ⟨n, circle⟩ := header_circle env
    (Function.update (Read.buffer [] ⟨longName name rest, stale⟩) 5 0)
    { answered h shortLine.code with parsing := .headerVar } rfl
    (show 65535 ≤ (longName name rest).length by omega) marked
    ((holds_update _ 8 5 0 _ (.inl (by decide))).mpr letters) width clean
  have never := circle.circle (fuel + 8)
  have more := Http.readOne_mono (Nat.le_add_right fuel 8) ended
  have code : (answered h shortLine.code).http_code = 200 := rfl
  change rounds _ _ _ = some (Http.StatusEnd.line ⟨_, Function.update _ 5 0, 7, _⟩) at status
  simp only [Http.readOne, if_neg fresh, if_pos unread, status, Option.bind_some,
    if_neg (not_not.mpr code), show bump 7 = 8 from rfl] at more
  rw [never] at more
  cases more

/-- A read without a line feed or a blank at any position sends the loop over
the status line round. -/
theorem letters_never_end (h : Http) (unread : h.http_code = 0) (fresh : h.parsing ≠ .content)
    (letters : Bytes) (last : Byte) (stale : ℕ → Byte) (width : letters.length = 65535)
    (clean : ∀ c ∈ letters ++ [last], c ≠ LF ∧ c ≠ 32) :
    ¬LoopsEnd env [] h ⟨letters ++ [last], stale⟩ := by
  rintro ⟨fuel, e, ended⟩
  have length : (letters ++ [last]).length = 65536 := by
    rw [List.length_append, List.length_singleton, width]
  have holds := holds_read ⟨letters ++ [last], stale⟩
  rw [holds_append, Nat.zero_add] at holds
  have toLast := status_skip env 65536 h none 0 letters holds.1 (by omega) (by omega)
    (fun c member =>
      have plain := clean c (List.mem_append_left _ member)
      ⟨plain.1, fun blank => absurd blank plain.2⟩)
  have plain := clean last (by simp)
  have round : bump letters.length = 0 := by
    rw [width]
    rfl
  have step : Http.statusBody env 65536
      ⟨h, Read.buffer [] ⟨letters ++ [last], stale⟩, letters.length, none⟩ =
      .again ⟨h, Read.buffer [] ⟨letters ++ [last], stale⟩, 0, none⟩ := by
    have going : letters.length < 65536 ∧ last ≠ LF := ⟨by omega, plain.1⟩
    have other : ¬(h.http_code = 0 ∧ last = 32) := fun both => plain.2 both.2
    simp only [Http.statusBody, holds.2.1, if_pos going, if_neg other, round]
  rw [Nat.zero_add] at toLast
  have never := (toLast.trans (.one step)).circle fuel
  simp only [Http.readOne, if_neg fresh, if_pos unread, length, never, Option.bind_none] at ended
  cases ended

end Circle

theorem long_letters (n : ℕ) : ∃ letters : Bytes, letters.length = n ∧
    ∀ c ∈ letters, c ≠ CR ∧ c ≠ LF ∧ c ≠ 58 := by
  refine ⟨List.replicate n 120, List.length_replicate .., fun c member => ?_⟩
  rw [List.eq_of_mem_replicate member]
  decide

def asked : Download := (Download.created false [] [] [] []).connect ⟨false⟩ (.other [])

theorem begins_asked : Begins asked.http :=
  .event (.start ⟨false, [], [], [], [], .inr (.inr ⟨⟨false⟩, .other [], rfl⟩)⟩)

/-- The loops end for every content of the buffer and every state of the object
exactly when the read has at most 65534 bytes. -/
theorem head_scanning_ends_iff (size : ℕ) :
    (∀ h, Begins h → h.parsing ≠ .content → ∀ env kept r, r.data.length = size →
      LoopsEnd env kept h r) ↔ size ≤ 65534 := by
  constructor
  · intro ends
    by_contra long
    obtain ⟨name, width, clean⟩ := long_letters 65526
    obtain ⟨rest, tail, -⟩ := long_letters (size - 65535)
    have length := longName_length name rest
    have never := longName_never_ends roomy asked.http rfl (by decide) rest (fun _ => 0) width clean
    exact never (ends asked.http begins_asked (by decide) roomy [] ⟨longName name rest, fun _ => 0⟩
      (show (longName name rest).length = size by omega))
  · intro short h _ _ env kept r length
    exact loopsEnd_short env kept h r (by omega)

/-- 65536 letters and no line feed. -/
theorem letters_only_never_end : Begins asked.http ∧ asked.http.parsing ≠ .content ∧
    ¬LoopsEnd roomy [] asked.http (received (List.replicate 65535 97 ++ [97])) := by
  refine ⟨begins_asked, by decide, letters_never_end roomy asked.http rfl (by decide) _ _ _
    (List.length_replicate ..) fun c member => ?_⟩
  have letter : c = 97 := by
    rcases List.mem_append.mp member with first | last
    · exact List.eq_of_mem_replicate first
    · exact List.mem_singleton.mp last
  rw [letter]
  decide

end FastCgiCdn.HeadScanning
