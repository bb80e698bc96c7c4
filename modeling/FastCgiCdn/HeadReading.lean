import FastCgiCdn.HeadModel
import FastCgiCdn.HeldValues

/-! What the parser of `readyToRead` makes of a well-formed response head that
stands in the receive buffer as a whole: the status line gives the code, every
header line is taken over on its own, and the empty line opens the cache file
with the position right behind the head. -/

namespace FastCgiCdn.HeadReading

open HeldValues HttpModel MeasuredLoop

/-- A header line: everything behind the colon is `rest`, its first byte
included. -/
structure Field where
  name : Bytes
  rest : Bytes
  name_clean : ∀ c ∈ name, c ≠ 58 ∧ c ≠ CR ∧ c ≠ LF
  rest_clean : ∀ c ∈ rest, c ≠ CR ∧ c ≠ LF

def Field.bytes (f : Field) : Bytes := f.name ++ 58 :: f.rest ++ [CR, LF]

structure Head where
  version : Bytes
  code : Bytes
  reason : Bytes
  fields : List Field
  version_clean : ∀ c ∈ version, c ≠ 32 ∧ c ≠ LF
  code_digits : ∀ c ∈ code, 48 ≤ c ∧ c ≤ 57
  reason_clean : ∀ c ∈ reason, c ≠ CR ∧ c ≠ LF

namespace Head

def statusLine (head : Head) : Bytes :=
  head.version ++ 32 :: head.code ++ 32 :: head.reason ++ [CR, LF]

def bytes (head : Head) : Bytes :=
  head.statusLine ++ head.fields.flatMap Field.bytes ++ [CR, LF]

end Head

set_option maxRecDepth 2048 in
theorem ok_digits : ∀ c ∈ ascii "200", 48 ≤ c ∧ c ≤ 57 := by decide

set_option maxRecDepth 2048 in
theorem ok_clean : ∀ c ∈ ascii "OK", c ≠ CR ∧ c ≠ LF := by decide

set_option maxRecDepth 2048 in
theorem version_clean : ∀ c ∈ ascii "HTTP/1.1", c ≠ 32 ∧ c ≠ LF := by decide

/-- The object after a header line. The first byte behind the colon is lost. -/
def takeField (env : Surroundings) (h : Http) (f : Field) : Http :=
  { Http.takeValue env (f.rest.drop 1) { h with parsing := Http.fieldParsing f.name } with
    parsing := .headerVar }

section Buffer

variable (buffer : Buffer)

theorem span_self (pos : ℕ) : span buffer pos pos = [] := by
  simp [span]

theorem span_cons {start stop : ℕ} (order : start < stop) :
    span buffer start stop = buffer start :: span buffer (start + 1) stop := by
  unfold span
  rw [show stop - start = stop - (start + 1) + 1 by omega, List.range'_succ, List.map_cons]

theorem span_of_holds {pos : ℕ} {bs : Bytes} (holds : Holds buffer pos bs) :
    span buffer pos (pos + bs.length) = bs := by
  induction bs generalizing pos with
  | nil => exact span_self buffer pos
  | cons b bs ih =>
    rw [List.length_cons, span_cons buffer (by omega), holds.1]
    rw [show pos + (bs.length + 1) = pos + 1 + bs.length by omega, ih holds.2]

theorem span_append {start middle stop : ℕ} (order : start ≤ middle) (order' : middle ≤ stop) :
    span buffer start stop = span buffer start middle ++ span buffer middle stop := by
  unfold span
  rw [← List.map_append, show stop - start = (middle - start) + (stop - middle) by omega,
    ← List.range'_append_1, Nat.add_sub_cancel' order]

theorem holds_read (r : Read) : Holds (r.buffer []) 0 r.data := by
  apply holds_getElem
  intro i inside
  simp [Read.buffer, inside]

end Buffer

theorem bump_of_lt {pos : ℕ} (small : pos + 1 < 65536) : bump pos = pos + 1 :=
  Nat.mod_eq_of_lt small

section Status

variable (env : Surroundings) (size : ℕ) {buffer : Buffer}

theorem status_skip (h : Http) (fh : Option ℕ) (pos : ℕ) (bs : Bytes)
    (holds : Holds buffer pos bs) (inside : pos + bs.length ≤ size)
    (small : pos + bs.length < 65536)
    (plain : ∀ c ∈ bs, c ≠ LF ∧ (c = 32 → h.http_code ≠ 0)) :
    Leads (Http.statusBody env size) bs.length ⟨h, buffer, pos, fh⟩
      ⟨h, buffer, pos + bs.length, fh⟩ := by
  induction bs generalizing pos with
  | nil => exact .refl _
  | cons b bs ih =>
    rw [List.length_cons] at inside small ⊢
    have here := plain b (List.mem_cons_self ..)
    have value : buffer pos = b := holds.1
    have taken : Http.statusBody env size ⟨h, buffer, pos, fh⟩ =
        .again ⟨h, buffer, pos + 1, fh⟩ := by
      have going : pos < size ∧ b ≠ LF := ⟨by omega, here.1⟩
      have other : ¬(h.http_code = 0 ∧ b = 32) := fun both => here.2 both.2 both.1
      simp only [Http.statusBody, value, if_pos going, if_neg other,
        bump_of_lt (show pos + 1 < 65536 by omega)]
    have rest := ih (pos + 1) holds.2 (by omega) (by omega)
      (fun c member => plain c (List.mem_cons_of_mem _ member))
    rw [show pos + (bs.length + 1) = pos + 1 + bs.length by omega,
      show bs.length + 1 = 1 + bs.length by omega]
    exact (Leads.one taken).trans rest

/-- The object once the code of the status line is read. -/
def answered (h : Http) (code : Bytes) : Http :=
  { h with
    http_code := Common.atoi16 code
    backend := h.backend.map ({ · with wasTCPConnected := true }) }

/-- The position of the second blank of the status line. -/
def blankPos (head : Head) : ℕ := head.version.length + 1 + head.code.length

theorem statusLine_length (head : Head) :
    head.statusLine.length = blankPos head + head.reason.length + 3 := by
  simp only [Head.statusLine, blankPos, List.length_append, List.length_cons, List.length_nil]
  omega

structure CodeParts (buffer : Buffer) (head : Head) : Prop where
  version : Holds buffer 0 head.version
  firstBlank : buffer head.version.length = 32
  code : Holds buffer (head.version.length + 1) head.code
  secondBlank : buffer (blankPos head) = 32

structure StatusParts (buffer : Buffer) (head : Head) : Prop extends CodeParts buffer head where
  reason : Holds buffer (blankPos head + 1) (head.reason ++ [CR])
  lineFeed : buffer (head.statusLine.length - 1) = LF

def Head.codeLine (head : Head) : Bytes := head.version ++ 32 :: head.code ++ [32]

theorem codeLine_length (head : Head) : head.codeLine.length = blankPos head + 1 := by
  simp only [Head.codeLine, blankPos, List.length_append, List.length_cons, List.length_nil]
  omega

theorem codeParts (head : Head) (holds : Holds buffer 0 head.codeLine) : CodeParts buffer head := by
  simp only [Head.codeLine, holds_append, Holds, List.length_append, List.length_cons,
    Nat.zero_add, and_true] at holds
  obtain ⟨⟨version, firstBlank, code⟩, secondBlank⟩ := holds
  refine ⟨version, firstBlank, code, ?_⟩
  rw [← secondBlank, blankPos]
  congr 1
  omega

theorem statusLine_parts (head : Head) :
    head.statusLine = head.codeLine ++ (head.reason ++ [CR] ++ [LF]) := by
  simp [Head.statusLine, Head.codeLine]

theorem statusParts (head : Head) (holds : Holds buffer 0 head.statusLine) :
    StatusParts buffer head := by
  have length := statusLine_length head
  rw [statusLine_parts, holds_append, holds_append, codeLine_length, Nat.zero_add] at holds
  obtain ⟨start, reason, lf⟩ := holds
  refine ⟨codeParts head start, reason, ?_⟩
  rw [← lf.1]
  congr 1
  rw [length, List.length_append, List.length_singleton]
  omega

theorem atoi16_span (head : Head) (parts : CodeParts buffer head)
    (inside : head.code.length + 1 ≤ size) :
    Common.atoi16 (span (Function.update buffer (blankPos head) 0) (head.version.length + 1)
      (head.version.length + 1 + size)) = Common.atoi16 head.code := by
  have code : Holds (Function.update buffer (blankPos head) 0) (head.version.length + 1) head.code :=
    (holds_update buffer _ _ 0 _ (.inr le_rfl)).mpr parts.code
  have read : span (Function.update buffer (blankPos head) 0) (head.version.length + 1)
      (blankPos head) = head.code := span_of_holds _ code
  have place : blankPos head = head.version.length + 1 + head.code.length := rfl
  rw [span_append _ (show head.version.length + 1 ≤ blankPos head by omega) (by omega),
    span_cons _ (show blankPos head < _ by omega), Function.update_self, read]
  exact Common.atoi16_stop _ _ head.code_digits

theorem digit_plain {c : Byte} (digit : 48 ≤ c ∧ c ≤ 57) : c ≠ LF ∧ c ≠ 32 := by
  have lower : 48 ≤ c.toNat := digit.1
  constructor
  · rintro rfl
    exact absurd lower (by decide)
  · rintro rfl
    exact absurd lower (by decide)

theorem to_second_blank (h : Http) (unread : h.http_code = 0) (head : Head)
    (parts : CodeParts buffer head) (inside : blankPos head < size) (small : blankPos head < 65536) :
    Leads (Http.statusBody env size) (blankPos head) ⟨h, buffer, 0, none⟩
      ⟨h, buffer, blankPos head, some (head.version.length + 1)⟩ := by
  have place : blankPos head = head.version.length + 1 + head.code.length := rfl
  have version := status_skip env size h none 0 head.version parts.version
    (by omega) (by omega) (fun c member =>
      ⟨(head.version_clean c member).2, fun blank => absurd blank (head.version_clean c member).1⟩)
  rw [Nat.zero_add] at version
  have first : Http.statusBody env size ⟨h, buffer, head.version.length, none⟩ =
      .again ⟨h, buffer, head.version.length + 1, some (head.version.length + 1)⟩ := by
    have going : head.version.length < size ∧ (32 : Byte) ≠ LF := ⟨by omega, by decide⟩
    simp only [Http.statusBody, parts.firstBlank, if_pos going, unread, and_self, if_true,
      bump_of_lt (show head.version.length + 1 < 65536 by omega)]
  have code := status_skip env size h (some (head.version.length + 1))
    (head.version.length + 1) head.code parts.code (by omega) (by omega) (fun c member =>
      ⟨(digit_plain (head.code_digits c member)).1,
        fun blank => absurd blank (digit_plain (head.code_digits c member)).2⟩)
  exact (version.trans (.one first)).trans code

theorem code_refused (h : Http) (unread : h.http_code = 0) (head : Head)
    (parts : CodeParts buffer head) (inside : blankPos head < size) (small : blankPos head < 65536)
    (refused : Common.atoi16 head.code ≠ 200) {fuel : ℕ} (enough : blankPos head < fuel) :
    rounds (Http.statusBody env size) fuel ⟨h, buffer, 0, none⟩ =
      some (.refused ((answered h head.code).HttpReturnCode env).1) := by
  have place : blankPos head = head.version.length + 1 + head.code.length := rfl
  have blank : blankPos head < size ∧ (32 : Byte) ≠ LF := ⟨by omega, by decide⟩
  have value := atoi16_span size head parts (show head.code.length + 1 ≤ size by omega)
  have turned : ((answered h head.code).HttpReturnCode env).2 = false := by
    unfold Http.HttpReturnCode
    rw [if_neg (by simpa [answered] using refused)]
    split <;> rfl
  have same : { h with
      http_code := Common.atoi16 head.code
      backend := h.backend.map ({ · with wasTCPConnected := true }) } =
    answered h head.code := rfl
  have second : Http.statusBody env size
      ⟨h, buffer, blankPos head, some (head.version.length + 1)⟩ =
      .stop (.refused ((answered h head.code).HttpReturnCode env).1) := by
    simp only [Http.statusBody, parts.secondBlank, if_pos blank, unread, and_self, if_true, value,
      same, turned, Bool.false_eq_true, if_false]
  exact rounds_mono enough ((to_second_blank env size h unread head parts inside small).stop second)

theorem status_read (h : Http) (unread : h.http_code = 0) (head : Head)
    (holds : Holds buffer 0 head.statusLine) (inside : head.statusLine.length ≤ size)
    (small : head.statusLine.length < 65536) (accepted : Common.atoi16 head.code = 200) {fuel : ℕ}
    (enough : head.statusLine.length ≤ fuel) :
    rounds (Http.statusBody env size) fuel ⟨h, buffer, 0, none⟩ =
      some (.line ⟨answered h head.code, Function.update buffer (blankPos head) 0,
        head.statusLine.length - 1, some (head.version.length + 1)⟩) := by
  have parts := statusParts head holds
  have length := statusLine_length head
  have place : blankPos head = head.version.length + 1 + head.code.length := rfl
  have toBlank := to_second_blank env size h unread head parts.toCodeParts (by omega) (by omega)
  have blank : blankPos head < size ∧ (32 : Byte) ≠ LF := ⟨by omega, by decide⟩
  have value := atoi16_span size head parts.toCodeParts (show head.code.length + 1 ≤ size by omega)
  have second : Http.statusBody env size
      ⟨h, buffer, blankPos head, some (head.version.length + 1)⟩ =
      .again ⟨answered h head.code, Function.update buffer (blankPos head) 0,
        blankPos head + 1, some (head.version.length + 1)⟩ := by
    simp only [Http.statusBody, parts.secondBlank, if_pos blank, unread, and_self, if_true, value,
      bump_of_lt (show blankPos head + 1 < 65536 by omega), Http.HttpReturnCode, accepted]
    rw [answered, accepted]
  have reason := status_skip env size (answered h head.code)
    (some (head.version.length + 1)) (blankPos head + 1) (head.reason ++ [CR])
    ((holds_update buffer _ _ 0 _ (.inl (Nat.lt_succ_self _))).mpr parts.reason)
    (by simp only [List.length_append, List.length_singleton]; omega)
    (by simp only [List.length_append, List.length_singleton]; omega)
    (fun c member => by
      refine ⟨?_, fun _ => by simp [answered, accepted]⟩
      rcases List.mem_append.mp member with inner | last
      · exact (head.reason_clean c inner).2
      · rw [List.mem_singleton.mp last]
        decide)
  have place' : blankPos head + 1 + (head.reason ++ [CR]).length = head.statusLine.length - 1 := by
    simp only [List.length_append, List.length_singleton]
    omega
  rw [place'] at reason
  have lf : Function.update buffer (blankPos head) 0 (head.statusLine.length - 1) = LF := by
    rw [Function.update_of_ne (by omega), parts.lineFeed]
  have stopped : Http.statusBody env size ⟨answered h head.code,
      Function.update buffer (blankPos head) 0, head.statusLine.length - 1,
      some (head.version.length + 1)⟩ = .stop (.line ⟨answered h head.code,
        Function.update buffer (blankPos head) 0, head.statusLine.length - 1,
        some (head.version.length + 1)⟩) := by
    rw [Http.statusBody, if_neg (fun both => both.2 lf)]
  apply rounds_mono _ (((toBlank.trans (.one second)).trans reason).stop stopped)
  simp only [List.length_append, List.length_singleton]
  omega

end Status

section Fields

variable (env : Surroundings) (size : ℕ) {buffer : Buffer}

theorem field_skip (h : Http) (pos pos2 : ℕ) (bs : Bytes) (holds : Holds buffer pos bs)
    (inside : pos + bs.length ≤ size) (small : pos + bs.length < 65536)
    (plain : ∀ c ∈ bs, c ≠ CR ∧ c ≠ LF ∧ (c = 58 → h.parsing ≠ .headerVar)) :
    Leads (Http.headBody env buffer size) bs.length ⟨h, pos, pos2⟩ ⟨h, pos + bs.length, pos2⟩ := by
  induction bs generalizing pos with
  | nil => exact .refl _
  | cons b bs ih =>
    rw [List.length_cons] at inside small ⊢
    have value : buffer pos = b := holds.1
    have here := plain b (List.mem_cons_self ..)
    have taken : Http.headBody env buffer size ⟨h, pos, pos2⟩ = .again ⟨h, pos + 1, pos2⟩ := by
      have colon : ¬(b = 58 ∧ h.parsing = .headerVar) := fun both => here.2.2 both.1 both.2
      have going : ¬(Http.lineEnd b = true) := by simp [Http.lineEnd, here.1, here.2.1]
      simp only [Http.headBody, value, if_pos (show pos < size by omega), if_neg colon,
        if_neg going, bump_of_lt (show pos + 1 < 65536 by omega)]
    have rest := ih (pos + 1) holds.2 (by omega) (by omega)
      (fun c member => plain c (List.mem_cons_of_mem _ member))
    rw [show pos + (bs.length + 1) = pos + 1 + bs.length by omega,
      show bs.length + 1 = 1 + bs.length by omega]
    exact (Leads.one taken).trans rest

theorem skipLineEnd_crlf {pos : ℕ} (small : pos + 2 < 65536) (crlf : Holds buffer pos [CR, LF]) :
    skipLineEnd buffer pos = pos + 2 := by
  have lf : buffer (bump pos) = LF := by
    rw [bump_of_lt (by omega)]
    exact crlf.2.1
  rw [skipLineEnd, if_pos ⟨crlf.1, lf⟩]
  simp only [bump_of_lt (show pos + 1 < 65536 by omega), bump_of_lt small]

theorem skipLineEnd_lf {pos : ℕ} (small : pos + 1 < 65536) (lf : buffer pos = LF) :
    skipLineEnd buffer pos = pos + 1 := by
  rw [skipLineEnd, if_neg (by simp [lf, CR, LF]), bump_of_lt small]

theorem value_end (h : Http) (pos pos2 : ℕ) (value : Bytes) (inside : pos < size)
    (order : pos2 ≤ pos) (ended : Http.lineEnd (buffer pos) = true) (field : h.parsing ≠ .headerVar)
    (stands : span buffer pos2 pos = value) :
    Leads (Http.headBody env buffer size) 1 ⟨h, pos, pos2⟩
      ⟨{ Http.takeValue env value h with parsing := .headerVar },
        skipLineEnd buffer pos, skipLineEnd buffer pos⟩ := by
  apply Leads.one
  have colon : ¬(buffer pos = 58 ∧ h.parsing = .headerVar) := fun both => field both.2
  have blank : ¬(pos = pos2 ∧ h.parsing = .headerVar) := fun both => field both.2
  have sound : Http.throws ⟨h, pos, pos2⟩ = false := by
    simp [Http.throws, show ¬pos < pos2 by omega]
  simp only [Http.headBody, if_pos inside, if_neg colon, if_pos ended, if_neg blank, sound, stands,
    Bool.false_eq_true, if_false]

theorem fieldParsing_ne (name : Bytes) : Http.fieldParsing name ≠ .headerVar := by
  unfold Http.fieldParsing
  split
  · decide
  · split
    · decide
    · split <;> decide

theorem field_read (h : Http) (start : h.parsing = .headerVar) (pos : ℕ) (f : Field)
    (holds : Holds buffer pos f.bytes) (inside : pos + f.bytes.length ≤ size)
    (small : pos + f.bytes.length < 65536) : ∃ n ≤ f.bytes.length,
    Leads (Http.headBody env buffer size) n ⟨h, pos, pos⟩
      ⟨takeField env h f, pos + f.bytes.length, pos + f.bytes.length⟩ := by
  have length : f.bytes.length = f.name.length + 1 + f.rest.length + 2 := by
    simp only [Field.bytes, List.length_append, List.length_cons, List.length_nil]
    omega
  rw [Field.bytes, holds_append, holds_append] at holds
  obtain ⟨⟨name, colon, rest⟩, ending⟩ := holds
  have toColon := field_skip env size h pos pos f.name name (by omega) (by omega)
    (fun c member => ⟨(f.name_clean c member).2.1, (f.name_clean c member).2.2,
      fun same => absurd same (f.name_clean c member).1⟩)
  have step : Http.headBody env buffer size ⟨h, pos + f.name.length, pos⟩ =
      .again ⟨{ h with parsing := Http.fieldParsing f.name },
        pos + f.name.length + 2, pos + f.name.length + 2⟩ := by
    simp only [Http.headBody, colon, start, if_pos (show pos + f.name.length < size by omega),
      and_self, if_true, span_of_holds buffer name,
      bump_of_lt (show pos + f.name.length + 1 < 65536 by omega),
      bump_of_lt (show pos + f.name.length + 1 + 1 < 65536 by omega)]
  have toValue := toColon.trans (.one step)
  have field := fieldParsing_ne f.name
  have crlf : Holds buffer (pos + f.name.length + 1 + f.rest.length) [CR, LF] := by
    rw [show pos + f.name.length + 1 + f.rest.length = pos + (f.name ++ 58 :: f.rest).length by
      simp only [List.length_append, List.length_cons]
      omega]
    exact ending
  have result (value : Bytes) (same : f.rest.drop 1 = value) :
      { Http.takeValue env value { h with parsing := Http.fieldParsing f.name } with
        parsing := .headerVar } = takeField env h f := by
    rw [takeField, same]
  cases parts : f.rest with
  | nil =>
    rw [parts, List.length_nil] at crlf length
    have lf : buffer (pos + f.name.length + 2) = LF := crlf.2.1
    have ended := value_end env size { h with parsing := Http.fieldParsing f.name }
      (pos + f.name.length + 2) (pos + f.name.length + 2) [] (by omega) le_rfl
      (by rw [lf]; rfl) field (span_self buffer _)
    rw [result [] (by rw [parts]; rfl), skipLineEnd_lf (by omega) lf,
      show pos + f.name.length + 2 + 1 = pos + f.bytes.length by omega] at ended
    exact ⟨_, by omega, toValue.trans ended⟩
  | cons c value =>
    rw [parts, List.length_cons] at crlf length
    rw [parts] at rest
    have skipped := field_skip env size
      { h with parsing := Http.fieldParsing f.name } (pos + f.name.length + 2)
      (pos + f.name.length + 2) value rest.2 (by omega) (by omega) (fun d member =>
        have clean := f.rest_clean d (parts ▸ List.mem_cons_of_mem _ member)
        ⟨clean.1, clean.2, fun _ => field⟩)
    rw [show pos + f.name.length + 1 + (value.length + 1) =
      pos + f.name.length + 2 + value.length by omega] at crlf
    have ended := value_end env size { h with parsing := Http.fieldParsing f.name }
      (pos + f.name.length + 2 + value.length) (pos + f.name.length + 2) value
      (by omega) (by omega) (by rw [crlf.1]; rfl) field (span_of_holds buffer rest.2)
    rw [result value (by rw [parts]; rfl), skipLineEnd_crlf (by omega) crlf,
      show pos + f.name.length + 2 + value.length + 2 = pos + f.bytes.length by omega] at ended
    exact ⟨_, by omega, (toValue.trans skipped).trans ended⟩

theorem fields_read (fields : List Field) (h : Http) (start : h.parsing = .headerVar) (pos : ℕ)
    (holds : Holds buffer pos (fields.flatMap Field.bytes))
    (inside : pos + (fields.flatMap Field.bytes).length ≤ size)
    (small : pos + (fields.flatMap Field.bytes).length < 65536) :
    ∃ n ≤ (fields.flatMap Field.bytes).length,
      Leads (Http.headBody env buffer size) n ⟨h, pos, pos⟩
        ⟨fields.foldl (takeField env) h, pos + (fields.flatMap Field.bytes).length,
          pos + (fields.flatMap Field.bytes).length⟩ := by
  induction fields generalizing h pos with
  | nil => exact ⟨0, le_rfl, .refl _⟩
  | cons f fields ih =>
    rw [List.flatMap_cons, List.length_append] at inside small ⊢
    rw [List.flatMap_cons, holds_append] at holds
    obtain ⟨n, bound, first⟩ := field_read env size h start pos f holds.1
      (by omega) (by omega)
    obtain ⟨m, bound', others⟩ := ih (takeField env h f) rfl (pos + f.bytes.length) holds.2
      (by omega) (by omega)
    rw [Nat.add_assoc] at others
    exact ⟨n + m, by omega, first.trans others⟩

theorem foldl_takeField_parsing (fields : List Field) (h : Http) (start : h.parsing = .headerVar) :
    (fields.foldl (takeField env) h).parsing = .headerVar := by
  induction fields generalizing h with
  | nil => exact start
  | cons f fields ih => exact ih _ rfl

theorem empty_line (h : Http) (start : h.parsing = .headerVar) (pos : ℕ)
    (crlf : Holds buffer pos [CR, LF]) (inside : pos < size) (small : pos + 2 < 65536) :
    Http.headBody env buffer size ⟨h, pos, pos⟩ =
      .stop (Http.openCache env { h with parsing := .content } (pos + 2) pos) := by
  have colon : ¬(CR = 58 ∧ h.parsing = .headerVar) := fun both => absurd both.1 (by decide)
  have ended : Http.lineEnd CR = true := rfl
  rw [Http.headBody, if_pos (by simpa using inside)]
  simp only [crlf.1]
  rw [if_neg colon, if_pos ended, if_pos (by simpa using start), skipLineEnd_crlf small crlf]

theorem headers_read (head : Head) (h : Http) (start : h.parsing = .headerVar) (pos : ℕ)
    (holds : Holds buffer pos (head.fields.flatMap Field.bytes ++ [CR, LF]))
    (inside : pos + (head.fields.flatMap Field.bytes).length + 2 ≤ size)
    (small : pos + (head.fields.flatMap Field.bytes).length + 2 < 65536) {fuel : ℕ}
    (enough : (head.fields.flatMap Field.bytes).length + 1 ≤ fuel) :
    rounds (Http.headBody env buffer size) fuel ⟨h, pos, pos⟩ =
      some (Http.openCache env
        { head.fields.foldl (takeField env) h with parsing := .content }
        (pos + (head.fields.flatMap Field.bytes).length + 2)
        (pos + (head.fields.flatMap Field.bytes).length)) := by
  rw [holds_append] at holds
  obtain ⟨n, bound, lines⟩ := fields_read env size head.fields h start pos holds.1
    (by omega) (by omega)
  exact rounds_mono (by omega) (lines.stop (empty_line env size _
    (foldl_takeField_parsing env head.fields h start) _ holds.2 (by omega) (by omega)))

end Fields

def headed (env : Surroundings) (h : Http) (head : Head) : Http :=
  { head.fields.foldl (takeField env) { answered h head.code with parsing := .headerVar } with
    parsing := .content }

def opened (env : Surroundings) (h : Http) : Http :=
  { h with
    headerWriten := true
    tempCache := some ⟨true, h.contentPos, env.disk, [h.header env]⟩ }

/-- The file system takes the temporary file and its header. -/
structure Ready (env : Surroundings) (h : Http) : Prop where
  created : env.created = true
  fields : env.fieldsStored = true
  once : h.headerWriten = false
  header : (h.header env).length ≤ env.disk 0

theorem openCache_ready {env : Surroundings} {h : Http} (ready : Ready env h) (pos pos2 : ℕ) :
    Http.openCache env h pos pos2 = .parsed ⟨opened env h, pos, pos2⟩ := by
  have stored : ¬env.disk 0 < (h.header env).length := not_lt.mpr ready.header
  simp only [Http.openCache, ready.created, ready.fields, ready.once, Bool.not_true,
    Bool.false_eq_true, if_false, if_neg stored]
  rfl

theorem headed_frame (env : Surroundings) (h : Http) (head : Head) :
    headed env h head = { answered h head.code with
      parsing := .content
      contentsize := (headed env h head).contentsize
      contenttype := (headed env h head).contenttype
      etagBackend := (headed env h head).etagBackend } := by
  have fields (fs : List Field) (g : Http) : fs.foldl (takeField env) g = { g with
      parsing := (fs.foldl (takeField env) g).parsing
      contentsize := (fs.foldl (takeField env) g).contentsize
      contenttype := (fs.foldl (takeField env) g).contenttype
      etagBackend := (fs.foldl (takeField env) g).etagBackend } := by
    induction fs generalizing g with
    | nil => rfl
    | cons f fs ih =>
      rw [List.foldl_cons, ih (takeField env g f)]
      have one : ∃ s t e, takeField env g f =
          { g with parsing := .headerVar, contentsize := s, contenttype := t, etagBackend := e } := by
        unfold takeField Http.takeValue
        split <;> exact ⟨_, _, _, rfl⟩
      obtain ⟨s, t, e, same⟩ := one
      rw [same]
  unfold headed
  rw [fields head.fields]

def firstRound (h : Http) (body : Bytes) (behind : Byte) : Http.ReadEnd :=
  if body = [] then .returns h []
  else if (h.write ⟨body, behind⟩).1.endDetected then .returns (h.write ⟨body, behind⟩).1 body
  else .goesOn (h.write ⟨body, behind⟩).1 body

theorem write_value {h : Http} (going : h.endDetected = false) (p : Piece) :
    (h.write p).2 = p.size := by
  unfold Http.write
  rw [if_neg (by simp [going])]
  split
  · rfl
  · split
    · rfl
    · split <;> rfl

theorem Head.statusLine_le (head : Head) : head.bytes.length =
    head.statusLine.length + (head.fields.flatMap Field.bytes).length + 2 := by
  simp only [Head.bytes, List.length_append, List.length_cons, List.length_nil]

theorem readOne_refused (env : Surroundings) (h : Http) (unread : h.http_code = 0)
    (fresh : h.parsing ≠ .content) (head : Head) (refused : Common.atoi16 head.code ≠ 200)
    (r : Read) (stands : head.codeLine <+: r.data) (small : blankPos head < 65536) {fuel : ℕ}
    (enough : blankPos head < fuel) :
    h.readOne env fuel [] r = some (.flushes ((answered h head.code).HttpReturnCode env).1) := by
  obtain ⟨rest, whole⟩ := stands
  have holds := holds_read r
  have length := codeLine_length head
  rw [← whole, holds_append] at holds
  have status := code_refused env r.data.length h unread head (codeParts head holds.1)
    (by rw [← whole, List.length_append]; omega) small refused enough
  simp only [Http.readOne, if_neg fresh, if_pos unread, status, Option.bind_some]

theorem status_parsed (env : Surroundings) (h : Http) (unread : h.http_code = 0) (head : Head)
    (accepted : Common.atoi16 head.code = 200) (r : Read) (tail : Bytes)
    (stands : r.data = head.statusLine ++ tail) (small : head.statusLine.length < 65536) {fuel : ℕ}
    (enough : head.statusLine.length ≤ fuel) :
    rounds (Http.statusBody env r.data.length) fuel ⟨h, r.buffer [], 0, none⟩ =
        some (.line ⟨answered h head.code, Function.update (r.buffer []) (blankPos head) 0,
          head.statusLine.length - 1, some (head.version.length + 1)⟩) ∧
      Holds (Function.update (r.buffer []) (blankPos head) 0) head.statusLine.length tail := by
  have line := statusLine_length head
  have place : blankPos head < head.statusLine.length := by omega
  have holds := holds_read r
  rw [stands, holds_append, Nat.zero_add] at holds
  have inside : head.statusLine.length ≤ r.data.length := by
    rw [stands, List.length_append]
    omega
  exact ⟨status_read env r.data.length h unread head holds.1 inside small accepted enough,
    (holds_update (r.buffer []) head.statusLine.length (blankPos head) 0 _ (.inl place)).mpr holds.2⟩

theorem bump_statusLine (head : Head) (small : head.statusLine.length < 65536) :
    bump (head.statusLine.length - 1) = head.statusLine.length := by
  have line := statusLine_length head
  rw [bump_of_lt (by omega)]
  omega

theorem head_parsed (env : Surroundings) (h : Http) (unread : h.http_code = 0) (head : Head)
    (accepted : Common.atoi16 head.code = 200) (r : Read) (body : Bytes)
    (stands : r.data = head.bytes ++ body) (small : head.bytes.length < 65536) {fuel : ℕ}
    (enough : head.bytes.length ≤ fuel) : ∃ s,
    rounds (Http.statusBody env r.data.length) fuel ⟨h, r.buffer [], 0, none⟩ = some (.line s) ∧
      s.http = answered h head.code ∧
      span s.buffer head.bytes.length r.data.length = body ∧
      rounds (Http.headBody env s.buffer r.data.length) fuel
        ⟨{ s.http with parsing := .headerVar }, bump s.pos, bump s.pos⟩ =
        some (Http.openCache env (headed env h head) head.bytes.length (head.bytes.length - 2)) := by
  have length := head.statusLine_le
  have size : r.data.length = head.bytes.length + body.length := by
    rw [stands, List.length_append]
  obtain ⟨status, rest⟩ := status_parsed env h unread head accepted r
    (head.fields.flatMap Field.bytes ++ [CR, LF] ++ body)
    (by rw [stands, Head.bytes, List.append_assoc, List.append_assoc, List.append_assoc])
    (by omega) (show head.statusLine.length ≤ fuel by omega)
  rw [holds_append] at rest
  have headers := headers_read env r.data.length head
    { answered h head.code with parsing := .headerVar } rfl head.statusLine.length rest.1
    (by omega) (by omega) (show (head.fields.flatMap Field.bytes).length + 1 ≤ fuel by omega)
  rw [← headed, ← length, show head.statusLine.length +
    (head.fields.flatMap Field.bytes).length = head.bytes.length - 2 by omega] at headers
  refine ⟨_, status, rfl, ?_, ?_⟩
  · have tail := rest.2
    rw [List.length_append, List.length_cons, List.length_singleton, ← Nat.add_assoc, ← length] at tail
    rw [size]
    exact span_of_holds _ tail
  · simp only [bump_statusLine head (show head.statusLine.length < 65536 by omega)]
    exact headers

theorem readOne_headed (env : Surroundings) (h : Http) (unread : h.http_code = 0)
    (fresh : h.parsing ≠ .content) (head : Head) (accepted : Common.atoi16 head.code = 200)
    (r : Read) (body : Bytes) (stands : r.data = head.bytes ++ body)
    (small : head.bytes.length < 65536) {fuel : ℕ} (enough : head.bytes.length ≤ fuel) :
    ∃ buffer, span buffer head.bytes.length r.data.length = body ∧
      h.readOne env fuel [] r = some
        (match Http.openCache env (headed env h head) head.bytes.length (head.bytes.length - 2) with
          | .parsed t => Http.afterHead buffer r.data.length t
          | .returned h => .returns h []) := by
  obtain ⟨s, status, taken, content, headers⟩ :=
    head_parsed env h unread head accepted r body stands small enough
  have code : s.http.http_code = 200 := by
    rw [taken]
    exact accepted
  refine ⟨s.buffer, content, ?_⟩
  simp only [Http.readOne, if_neg fresh, if_pos unread, status, Option.bind_some,
    if_neg (not_not.mpr code)]
  exact congrArg (Option.map _) headers

theorem afterHead_body {h : Http} (going : h.endDetected = false) (parsing : h.parsing = .content)
    (buffer : Buffer) {size pos pos2 : ℕ} {body : Bytes} (content : span buffer pos size = body)
    (length : size = pos + body.length) :
    Http.afterHead buffer size ⟨h, pos, pos2⟩ = firstRound h body (buffer size) := by
  simp only [Http.afterHead, parsing, content, firstRound, write_value going, Piece.size]
  by_cases none_left : body = []
  · rw [if_pos none_left, if_pos (by simp [length, none_left])]
  · have some_left := List.length_pos_of_ne_nil none_left
    rw [if_neg none_left, if_neg (by omega)]
    have exactly : ¬((body.length : ℤ) ≠ (size : ℤ) - pos) := by omega
    simp only [exactly, or_false]

theorem readOne_accepted (env : Surroundings) (h : Http) (unread : h.http_code = 0)
    (fresh : h.parsing ≠ .content) (head : Head) (accepted : Common.atoi16 head.code = 200)
    (ready : Ready env (headed env h head)) (going : h.endDetected = false)
    (r : Read) (body : Bytes) (stands : r.data = head.bytes ++ body)
    (small : head.bytes.length < 65536) {fuel : ℕ} (enough : head.bytes.length ≤ fuel) :
    ∃ behind, h.readOne env fuel [] r =
      some (firstRound (opened env (headed env h head)) body behind) := by
  obtain ⟨buffer, content, round⟩ := readOne_headed env h unread fresh head accepted r body stands
    small enough
  have size : r.data.length = head.bytes.length + body.length := by
    rw [stands, List.length_append]
  have alive : (opened env (headed env h head)).endDetected = false := by
    rw [opened, headed_frame]
    exact going
  refine ⟨buffer r.data.length, ?_⟩
  rw [round, openCache_ready ready]
  exact congrArg some (afterHead_body alive rfl buffer content size)

end FastCgiCdn.HeadReading
