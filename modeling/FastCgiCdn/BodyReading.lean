import FastCgiCdn.ChunkCuts
import FastCgiCdn.HeadReading

/-! The reads behind the head: every one of them is handed to `write` as a whole
until the body has ended, and `write` changes nothing but the cache file and its
own counters before it ends the download. -/

namespace FastCgiCdn.BodyReading

open HttpModel ChunkCuts ChunkDecoder HeadReading MeasuredLoop

/-- `m` is `h` but for the cache file and the counters of `write`. -/
def Edited (h m : Http) : Prop :=
  m = { h with
    tempCache := m.tempCache
    contentwritten := m.contentwritten
    chunkLength := m.chunkLength
    chunkHeader := m.chunkHeader }

theorem Edited.refl (h : Http) : Edited h h := rfl

theorem Edited.trans {h m n : Http} (first : Edited h m) (second : Edited m n) : Edited h n := by
  unfold Edited at *
  rw [second, first]

theorem sizeLine_edited (p : Piece) (s : Http.Scan) :
    Edited s.http ((Http.sizeLine p).run s).http := by
  apply Http.sizeLine_rule p (P := fun s t => Edited s.http t.http)
  case outside => exact fun s _ => .refl s.http
  case complete =>
    intro s _ _ _
    unfold Http.readSize
    split <;> rfl
  case blank => exact fun _ _ _ _ _ later => later
  case char => exact fun _ _ _ _ later => later

theorem takeChunk_edited (p : Piece) (s : Http.Scan) : Edited s.http (Http.takeChunk p s).http := by
  unfold Http.takeChunk
  split <;> rfl

theorem keepHeader_edited (p : Piece) (s : Http.Scan) :
    Edited s.http (Http.keepHeader p s).http := by
  unfold Http.keepHeader
  split
  · split <;> rfl
  · rfl

theorem chunks_edited (p : Piece) (s : Http.Scan) :
    ∃ m, Edited s.http m ∧
      ((Http.chunks p).run s = m ∨ (Http.chunks p).run s = m.endDownload) := by
  apply Http.chunks_rule p (P := fun s r => ∃ m, Edited s.http m ∧ (r = m ∨ r = m.endDownload))
  case outside => exact fun s _ => ⟨_, .refl s.http, .inl rfl⟩
  case last => exact fun s _ _ => ⟨_, sizeLine_edited p s, .inr rfl⟩
  case chunk =>
    rintro s r - - ⟨m, edited, ended⟩
    exact ⟨m, (takeChunk_edited p s).trans edited, ended⟩
  case line =>
    rintro s r - - ⟨m, edited, ended⟩
    have kept := (sizeLine_edited p s).trans (keepHeader_edited p _)
    exact ⟨m, kept.trans edited, ended⟩

theorem write_edited {h : Http} (going : h.endDetected = false) (p : Piece) :
    ∃ m, Edited h m ∧ ((h.write p).1 = m ∨ (h.write p).1 = m.endDownload) := by
  unfold Http.write
  rw [if_neg (by simp [going])]
  split
  · exact ⟨h, .refl h, .inl rfl⟩
  · split
    · refine ⟨h.count p, rfl, ?_⟩
      unfold Http.writeSized
      split
      · exact .inr rfl
      · exact .inl rfl
    · split
      · exact chunks_edited p ⟨h, 0, 0⟩
      · exact ⟨h, .refl h, .inl rfl⟩

theorem write_going {h : Http} (going : h.endDetected = false) {p : Piece}
    (still : (h.write p).1.endDetected = false) : Edited h (h.write p).1 := by
  obtain ⟨m, edited, same | ended⟩ := write_edited going p
  · rwa [same]
  · rw [ended] at still
    cases still

def piece (r : Read) : Piece := ⟨r.data, r.buffer [] r.data.length⟩

/-- The reads of a body, one call of `write` each. -/
def feed : Http → List Read → Http.Progress
  | h, [] => ⟨h, [], []⟩
  | h, r :: reads =>
    if (h.write (piece r)).1.endDetected then ⟨(h.write (piece r)).1, reads, r.data⟩
    else
      let rest := feed (h.write (piece r)).1 reads
      ⟨rest.http, rest.unread, r.data ++ rest.passed⟩

structure Reading (h : Http) : Prop where
  going : h.endDetected = false
  linked : h.backend.isSome
  body : h.parsing = .content
  nothing : h.headerBuff = []

theorem Reading.edited {h m : Http} (reading : Reading h) (edited : Edited h m) : Reading m := by
  rw [edited]
  exact ⟨reading.going, reading.linked, reading.body, reading.nothing⟩

theorem readLoop_feed (env : Surroundings) (fuel : ℕ) (reads : List Read) : ∀ (budget : ℕ) (h : Http),
    reads.length < budget → Reading h →
    Http.readLoop env fuel budget [] h reads = some (feed h reads) := by
  induction reads with
  | nil =>
    intro budget h enough reading
    obtain ⟨n, rfl⟩ : ∃ n, budget = n + 1 := ⟨budget - 1, by omega⟩
    rfl
  | cons r reads ih =>
    intro budget h enough reading
    obtain ⟨n, rfl⟩ : ∃ n, budget = n + 1 := ⟨budget - 1, by omega⟩
    have linked := reading.linked
    have content : span (r.buffer []) 0 r.data.length = r.data := by
      simpa using span_of_holds _ (holds_read r)
    rw [Http.readLoop, if_neg (by simp [Option.isSome_iff_ne_none.mp linked]), Http.readOne,
      if_pos reading.body, content]
    change (Option.bind (some (if (h.write (piece r)).1.endDetected = true then _ else _)) _) = _
    rw [feed]
    split
    · rfl
    · rename_i still
      have edited := write_going reading.going (by simpa using still)
      have rest := ih n (h.write (piece r)).1 (by simpa using enough) (reading.edited edited)
      rw [Option.bind_some]
      change Option.map _ (Http.readLoop env fuel n [] (h.write (piece r)).1 reads) = _
      rw [rest]
      rfl

theorem readyToRead_feed (env : Surroundings) (fuel : ℕ) {h : Http} (reading : Reading h)
    (reads : List Read) : h.readyToRead env fuel reads = some (feed h reads) := by
  rw [Http.readyToRead, if_neg (by simp [reading.going]), reading.nothing]
  exact readLoop_feed env fuel reads _ h (Nat.lt_succ_self _) reading

section Sized

theorem writes_cons (h : Http) (p : Piece) (pieces : List Piece) :
    writes h (p :: pieces) = writes (h.write p).1 pieces := rfl

theorem writes_ended {h : Http} (ended : h.endDetected = true) (pieces : List Piece) :
    writes h pieces = h := by
  induction pieces with
  | nil => rfl
  | cons p pieces ih => rw [writes_cons, Http.write, if_pos ended, ih]

theorem write_eq_writeSized {h : Http} (going : h.endDetected = false) (stored : h.tempCache.isSome)
    (sized : 0 ≤ h.contentsize) (p : Piece) : (h.write p).1 = h.writeSized p := by
  obtain ⟨c, some_cache⟩ := Option.isSome_iff_exists.mp stored
  unfold Http.write
  rw [if_neg (by simp [going]), some_cache]
  simp only [if_pos sized]

theorem count_stored {h : Http} (stored : h.tempCache.isSome) (p : Piece) :
    (h.count p).tempCache.isSome := by
  simpa [Http.count, Http.store] using stored

theorem length_piece (p : Piece) : (([p].map Piece.data).flatten.length : ℤ) = p.size := by
  simp [Piece.size]

/-- The pieces up to the one that brings the byte number `n`. -/
def reaching : ℤ → List Piece → List Piece
  | _, [] => []
  | n, p :: pieces => if n ≤ p.size then [p] else p :: reaching (n - p.size) pieces

theorem reaching_short (pieces : List Piece) : ∀ n : ℤ,
    (pieces.length ≤ 1 ∨ ((pieces.map Piece.data).dropLast.flatten.length : ℤ) < n) →
    reaching n pieces = pieces := by
  induction pieces with
  | nil => exact fun _ _ => rfl
  | cons p pieces ih =>
    intro n short
    cases pieces with
    | nil => simp [reaching]
    | cons q pieces =>
      have room : (p.size : ℤ) +
          (((q :: pieces).map Piece.data).dropLast.flatten.length : ℤ) < n := by
        rcases short with alone | short
        · simp at alone
        · simpa [Piece.size] using short
      rw [reaching, if_neg (by omega), ih (n - p.size) (.inr (by omega))]

/-- Of a body whose length is declared the pieces up to the one that reaches it are stored,
and this one ends the download. -/
theorem writes_sized (pieces : List Piece) : ∀ h : Http, h.endDetected = false →
    h.tempCache.isSome → 0 ≤ h.contentsize → ∃ e,
      (e = true ↔ pieces ≠ [] ∧
        h.contentsize ≤ h.contentwritten + ((pieces.map Piece.data).flatten.length : ℤ)) ∧
      writes h pieces = settle ⟨e, h.chunkLength, h.chunkHeader⟩
        (fed h ((reaching (h.contentsize - h.contentwritten) pieces).map Piece.data)
          ⟨e, h.chunkLength, h.chunkHeader⟩ (h.contentwritten +
            (((reaching (h.contentsize - h.contentwritten) pieces).map
              Piece.data).flatten.length : ℤ))) := by
  induction pieces with
  | nil =>
    intro h going stored sized
    refine ⟨false, by simp, ?_⟩
    simp only [reaching, List.map_nil, List.flatten_nil, List.length_nil, Int.ofNat_zero,
      Int.add_zero, fed_nil]
    rfl
  | cons p pieces ih =>
    intro h going stored sized
    rw [writes_cons, write_eq_writeSized going stored sized p, Http.writeSized, reaching]
    by_cases reached : h.contentsize ≤ h.contentwritten + p.size
    · rw [if_pos reached, if_pos (by omega), writes_ended rfl, length_piece]
      refine ⟨true, ?_, rfl⟩
      have size : p.size = p.data.length := rfl
      simp only [true_iff, ne_eq, reduceCtorEq, not_false_eq_true, true_and, List.map_cons,
        List.flatten_cons, List.length_append]
      omega
    · rw [if_neg reached, if_neg (by omega)]
      obtain ⟨e, ended, result⟩ := ih (h.count p) going (count_stored stored p) sized
      have counted : h.count p = fed h [p.data] ⟨e, h.chunkLength, h.chunkHeader⟩
        (h.contentwritten + p.size) := rfl
      have left : (h.count p).contentsize - (h.count p).contentwritten =
          h.contentsize - h.contentwritten - p.size := by
        simp only [Http.count, Http.store]
        omega
      rw [left] at result
      refine ⟨e, ended.trans ?_, ?_⟩
      · have size : p.size = p.data.length := rfl
        simp only [Http.count, Http.store, ne_eq, reduceCtorEq, not_false_eq_true, true_and,
          List.map_cons, List.flatten_cons, List.length_append]
        constructor
        · rintro ⟨-, enough⟩
          omega
        · intro enough
          refine ⟨?_, by omega⟩
          rintro rfl
          simp only [List.map_nil, List.flatten_nil, List.length_nil] at enough
          omega
      · have total (rest : List Piece) :
            (h.count p).contentwritten + ((rest.map Piece.data).flatten.length : ℤ) =
              h.contentwritten + (((p :: rest).map Piece.data).flatten.length : ℤ) := by
          simp [Http.count, Http.store, Piece.size, Int.add_assoc]
        rw [result, total, counted, fed_fed]
        rfl

theorem ended_sized {h : Http} {pieces : List Piece} (going : h.endDetected = false)
    (stored : h.tempCache.isSome) (sized : 0 ≤ h.contentsize) :
    (writes h pieces).endDetected = true ↔ pieces ≠ [] ∧
      h.contentsize ≤ h.contentwritten + ((pieces.map Piece.data).flatten.length : ℤ) := by
  obtain ⟨e, ended, result⟩ := writes_sized pieces h going stored sized
  rw [← ended, result]
  cases e with
  | false => exact iff_of_false (by simp [settle, fed, going]) (by decide)
  | true => exact iff_of_true rfl rfl

end Sized

end FastCgiCdn.BodyReading
