import FastCgiCdn.HttpModel

/-! The two loops of `Http::write` end on every input, look at most one byte
behind it, and hand the cache file stretches of it that stand one behind the
other. -/

namespace FastCgiCdn.DecoderProgress

open HttpModel MeasuredLoop

/-- Stretches of a list, each behind the one before it, between two positions. -/
inductive Successive : ℕ → ℕ → List (ℕ × ℕ) → Prop
  | nil (lo hi : ℕ) : Successive lo hi []
  | cons {lo hi start stop : ℕ} {cuts : List (ℕ × ℕ)} (after : lo ≤ start) (order : start ≤ stop)
      (within : stop ≤ hi) (rest : Successive stop hi cuts) :
      Successive lo hi ((start, stop) :: cuts)

def stretch {α : Type*} (xs : List α) (cut : ℕ × ℕ) : List α := (xs.take cut.2).drop cut.1

section Stretches

variable {α : Type*} {lo hi : ℕ} {cuts : List (ℕ × ℕ)}

theorem Successive.weaken {start : ℕ} (cutting : Successive start hi cuts) (before : lo ≤ start) :
    Successive lo hi cuts := by
  cases cutting with
  | nil => exact .nil _ _
  | cons after order within rest => exact .cons (Nat.le_trans before after) order within rest

theorem stretch_length_le (xs : List α) (cut : ℕ × ℕ) :
    (stretch xs cut).length ≤ cut.2 - cut.1 := by
  simp only [stretch, List.length_drop, List.length_take]
  omega

theorem Successive.length_le (xs : List α) (cutting : Successive lo hi cuts) :
    (cuts.map (stretch xs)).flatten.length ≤ hi - lo := by
  induction cutting with
  | nil => exact Nat.zero_le _
  | @cons lo hi start stop cuts after order within rest ih =>
    have first := stretch_length_le xs (start, stop)
    rw [List.map_cons, List.flatten_cons, List.length_append]
    simp only at first
    omega

theorem take_stretch (xs : List α) (start stop n : ℕ) :
    (stretch xs (start, stop)).take n = stretch xs (start, min stop (start + n)) := by
  simp only [stretch]
  rw [List.take_drop, List.take_take, Nat.min_comm]

theorem Successive.shorten (xs : List α) (kept : ℕ → ℕ) (cutting : Successive lo hi cuts) :
    ∃ stored, Successive lo hi stored ∧
      (cuts.map (stretch xs)).mapIdx (fun i part => part.take (kept i)) =
        stored.map (stretch xs) := by
  induction cutting generalizing kept with
  | nil lo hi => exact ⟨[], .nil _ _, rfl⟩
  | @cons lo hi start stop cuts after order within rest ih =>
    have later := ih fun i => kept (i + 1)
    obtain ⟨stored, successive, same⟩ := later
    refine ⟨(start, min stop (start + kept 0)) :: stored, ?_, ?_⟩
    · exact .cons after (by omega) (by omega) (successive.weaken (by omega))
    · rw [List.map_cons, List.mapIdx_cons, List.map_cons, take_stretch, same]

end Stretches

def Appends (parts : List Bytes) (h r : Http) : Prop :=
  ∃ still : Bool, r.tempCache = h.tempCache.map fun c =>
    { c with writes := c.writes ++ parts, isOpen := c.isOpen && still }

theorem Appends.of_same {h r : Http} (same : r.tempCache = h.tempCache) : Appends [] h r := by
  refine ⟨true, ?_⟩
  rw [same]
  cases h.tempCache <;> simp

theorem Appends.trans {first second : List Bytes} {h m r : Http} (former : Appends first h m)
    (latter : Appends second m r) : Appends (first ++ second) h r := by
  obtain ⟨still, cache⟩ := former
  obtain ⟨yet, final⟩ := latter
  refine ⟨still && yet, ?_⟩
  rw [final, cache, Option.map_map]
  simp [Function.comp_def, Bool.and_assoc]

theorem appends_store (data : Bytes) (h : Http) : Appends [data] h (h.store data) := by
  refine ⟨true, ?_⟩
  simp only [Http.store, Bool.and_true]
  rfl

theorem appends_endDownload (h : Http) : Appends [] h h.endDownload := by
  refine ⟨false, ?_⟩
  change h.tempCache.map Cache.close = _
  simp only [List.append_nil, Bool.and_false]
  rfl

theorem sizeLine_tempCache (p : Piece) (s : Http.Scan) :
    ((Http.sizeLine p).run s).http.tempCache = s.http.tempCache := by
  apply Http.sizeLine_rule p (P := fun s t => t.http.tempCache = s.http.tempCache)
  case outside => exact fun s _ => rfl
  case complete =>
    intro s _ _ _
    unfold Http.readSize
    split <;> rfl
  case blank => exact fun _ _ _ _ _ later => later
  case char => exact fun _ _ _ _ later => later

theorem keepHeader_tempCache (p : Piece) (s : Http.Scan) :
    (Http.keepHeader p s).http.tempCache = s.http.tempCache := by
  unfold Http.keepHeader
  split
  · split <;> rfl
  · rfl

/-- The stretch that a chunk takes, and that the reading goes on behind it. -/
theorem takeChunk_appends (p : Piece) {s : Http.Scan} (inside : s.pos < p.size)
    (chunk : 0 < s.http.chunkLength) :
    ∃ stop, s.pos ≤ stop ∧ stop ≤ p.size ∧ (Http.takeChunk p s).pos = stop ∧
      Appends [stretch p.data (s.pos, stop)] s.http (Http.takeChunk p s).http := by
  unfold Http.takeChunk
  split
  · exact ⟨p.size, by omega, le_rfl, rfl, appends_store _ _⟩
  · exact ⟨s.pos + s.http.chunkLength.toNat, by omega, by omega, rfl, appends_store _ _⟩

theorem chunks_appends (p : Piece) (s : Http.Scan) :
    ∃ cuts, Successive s.pos p.size cuts ∧
      Appends (cuts.map (stretch p.data)) s.http ((Http.chunks p).run s) := by
  apply Http.chunks_rule p (P := fun s r => ∃ cuts, Successive s.pos p.size cuts ∧
    Appends (cuts.map (stretch p.data)) s.http r)
  case outside => exact fun s _ => ⟨[], .nil _ _, .of_same rfl⟩
  case last =>
    intro s _ _
    have same := Appends.of_same (sizeLine_tempCache p s)
    exact ⟨[], .nil _ _, same.trans (appends_endDownload _)⟩
  case chunk =>
    intro s r inside positive later
    obtain ⟨cuts, successive, appends⟩ := later
    obtain ⟨stop, order, within, position, taken⟩ := takeChunk_appends p inside positive
    rw [position] at successive
    exact ⟨(s.pos, stop) :: cuts, .cons le_rfl order within successive, taken.trans appends⟩
  case line =>
    intro s r inside _ later
    obtain ⟨cuts, successive, appends⟩ := later
    have further := Http.le_sizeLine_pos p s
    have same := (keepHeader_tempCache p _).trans (sizeLine_tempCache p s)
    rw [Http.keepHeader_pos] at successive
    exact ⟨cuts, successive.weaken further, (Appends.of_same same).trans appends⟩

theorem write_appends (h : Http) (p : Piece) :
    ∃ cuts, Successive 0 p.size cuts ∧
      Appends (cuts.map (stretch p.data)) h (h.write p).1 := by
  have none_written : ∃ cuts, Successive 0 p.size cuts ∧
      Appends (cuts.map (stretch p.data)) h h := ⟨[], .nil _ _, .of_same rfl⟩
  unfold Http.write
  split
  · exact none_written
  · split
    · exact none_written
    · split
      · have whole : stretch p.data (0, p.size) = p.data := List.take_length
        have counted : Appends [p.data] h (h.count p) := appends_store p.data h
        refine ⟨[(0, p.size)], .cons le_rfl (Nat.zero_le _) le_rfl (.nil _ _), ?_⟩
        rw [List.map_singleton, whole]
        unfold Http.writeSized
        split
        · exact counted.trans (appends_endDownload _)
        · exact counted
      · split
        · exact chunks_appends p ⟨h, 0, 0⟩
        · exact none_written

theorem skipEnd_le (p : Piece) {pos : ℕ} (inside : pos < p.size) :
    p.skipEnd pos ≤ p.size + 1 := by
  unfold Piece.skipEnd
  split
  · split <;> omega
  · omega

theorem sizeLineBody_pos (p : Piece) {s t : Http.Scan} (bound : s.pos ≤ p.size + 1)
    (taken : (Http.sizeLine p).body s = .again t ∨ (Http.sizeLine p).body s = .stop t) :
    t.pos ≤ p.size + 1 := by
  rw [Http.sizeLine_body, Http.sizeLineBody] at taken
  split at taken
  · rename_i inside
    have behind := skipEnd_le p inside
    split at taken
    · split at taken
      · simp only [Outcome.again.injEq, reduceCtorEq, or_false] at taken
        rwa [← taken]
      · simp only [Outcome.stop.injEq, reduceCtorEq, false_or] at taken
        rwa [← taken]
    · simp only [Outcome.again.injEq, reduceCtorEq, or_false] at taken
      rw [← taken]
      simp only
      omega
  · simp only [Outcome.stop.injEq, reduceCtorEq, false_or] at taken
    rwa [← taken]

theorem sizeLine_pos_le (p : Piece) (s : Http.Scan) :
    s.pos ≤ p.size + 1 → ((Http.sizeLine p).run s).pos ≤ p.size + 1 := by
  apply (Http.sizeLine p).run_induct
    (P := fun s t => s.pos ≤ p.size + 1 → t.pos ≤ p.size + 1)
  case stops => exact fun s t taken bound => sizeLineBody_pos p bound (.inr taken)
  case goes => exact fun s t taken later bound => later (sizeLineBody_pos p bound (.inl taken))

theorem chunksBody_pos (p : Piece) {s t : Http.Scan} (bound : s.pos ≤ p.size + 1)
    (taken : (Http.chunks p).body s = .again t) : t.pos ≤ p.size + 1 := by
  rw [Http.chunks_body, Http.chunksBody] at taken
  split at taken
  · rename_i inside
    split at taken
    · rename_i positive
      obtain ⟨stop, -, within, position, -⟩ := takeChunk_appends p inside positive
      rw [← Outcome.again.inj taken, position]
      omega
    · split at taken
      · cases taken
      · rw [← Outcome.again.inj taken, Http.keepHeader_pos]
        exact sizeLine_pos_le p s bound
  · cases taken

/-- From any state, and whatever the bytes are. -/
theorem write_progresses (h : Http) (p : Piece) :
    rounds (Http.chunksBody p) (p.size + 1) ⟨h, 0, 0⟩ = some ((Http.chunks p).run ⟨h, 0, 0⟩) ∧
    (∀ s, (Http.chunks p).Visits ⟨h, 0, 0⟩ s → s.pos ≤ p.size + 1 ∧
      rounds (Http.sizeLineBody p) (p.size + 1) s = some ((Http.sizeLine p).run s) ∧
      ((Http.sizeLine p).run s).pos ≤ p.size + 1 ∧
      ∀ t, (Http.sizeLine p).Visits s t → t.pos ≤ p.size + 1) ∧
    ∃ cuts, Successive 0 p.size cuts ∧ Appends (cuts.map (stretch p.data)) h (h.write p).1 ∧
      (cuts.map (stretch p.data)).flatten.length ≤ p.size ∧
      ∀ c ∈ h.tempCache, ∀ c' ∈ (h.write p).1.tempCache, ∃ stored, Successive 0 p.size stored ∧
        c'.content = c.content ++ (stored.map (stretch p.data)).flatten := by
  refine ⟨rounds_run (Http.chunks p) (Nat.lt_succ_of_le (Nat.sub_le _ _)), ?_, ?_⟩
  · intro s visits
    have bound : s.pos ≤ p.size + 1 :=
      visits.keeps (P := fun s => s.pos ≤ p.size + 1)
        (fun _ _ bound taken => chunksBody_pos p bound taken) (Nat.zero_le _)
    refine ⟨bound, ?_, sizeLine_pos_le p s bound, ?_⟩
    · exact rounds_run (Http.sizeLine p) (Nat.lt_succ_of_le (Nat.sub_le _ _))
    · intro t visits
      exact visits.keeps (P := fun t => t.pos ≤ p.size + 1)
        (fun _ _ bound taken => sizeLineBody_pos p bound (.inl taken)) bound
  · obtain ⟨cuts, successive, appends⟩ := write_appends h p
    refine ⟨cuts, successive, appends, successive.length_le p.data, ?_⟩
    intro c former c' latter
    obtain ⟨still, grown⟩ := appends
    rw [Option.mem_def.mp former, Option.mem_def.mp latter, Option.map_some] at grown
    obtain ⟨stored, order, same⟩ :=
      successive.shorten p.data fun i => c.disk (c.writes.length + i)
    refine ⟨stored, order, ?_⟩
    rw [Option.some.inj grown, ← same]
    simp only [Cache.content, List.mapIdx_append, List.flatten_append]
    simp only [Nat.add_comm]

end FastCgiCdn.DecoderProgress
