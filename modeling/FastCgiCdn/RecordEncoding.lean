import FastCgiCdn.ClientModel
import FastCgiCdn.HeadReading

/-! The records of a request as a web server writes them, and what the parsing makes
of them where they stand as a whole in the bytes of a read. A record with parameters
holds whole pairs. A size up to 127 may be written with four bytes as well. -/

namespace FastCgiCdn.RecordEncoding

open HttpModel MeasuredLoop HeadReading FastCgiRecords ClientModel HeldValues RecordFormat

structure Pair where
  name : Bytes
  value : Bytes
  nameLong : Bool
  valueLong : Bool

namespace Pair

def bytes (p : Pair) : Bytes := pairBytes p.nameLong p.valueLong p.name p.value

def take (p : Pair) (q : Request) : Request :=
  if p.name = ascii "HTTP_HOST" then { q with host := p.value }
  else if p.name = ascii "REQUEST_URI" then { q with uri := p.value }
  else if p.name = ascii "REQUEST_SCHEME" ∧ p.value = ascii "https" then { q with https := true }
  else if p.name = ascii "HTTP_IF_NONE_MATCH" ∧ p.value.length = 8 then
    { q with ifNoneMatch := p.value }
  else q

def Marked (p : Pair) : Prop :=
  p.name = ascii "EPNOERFT" ∧ p.value.length = 8 ∧ p.value.take 5 = (ascii "ysff43Uy").take 5

instance (p : Pair) : Decidable p.Marked := inferInstanceAs (Decidable (_ ∧ _ ∧ _))

end Pair

inductive Part
  | begin (body : Bytes)
  | params (pairs : List Pair)
  | stdin (data : Bytes)

namespace Part

def kind : Part → Byte
  | begin _ => 1
  | params _ => 4
  | stdin _ => 5

def content : Part → Bytes
  | begin body => body
  | params pairs => pairs.flatMap Pair.bytes
  | stdin data => data

def pairs : Part → List Pair
  | params pairs => pairs
  | _ => []

end Part

structure Record where
  part : Part
  padding : Bytes
  reserved : Byte
  sized : part.content.length < 65536
  padded : padding.length < 256

def Record.bytes (id : ℕ) (r : Record) : Bytes :=
  recordBytes r.part.kind id r.part.content r.padding r.reserved

def asked (s : Scan) : Request := ⟨s.client.https, s.client.host, s.client.uri, s.ifNoneMatch⟩

def fill (q : Request) (s : Scan) : Scan :=
  { s with
    client := { s.client with https := q.https, uri := q.uri, host := q.host }
    ifNoneMatch := q.ifNoneMatch }

section Pairs

variable {b : Buffer} {n m pos : ℕ} {bs : Bytes} {c : Byte} {p : Pair}

theorem read8Bits_holds (holds : Holds b pos [c]) (inside : pos + 1 ≤ n) :
    read8Bits b n pos = some (c.toNat, pos + 1) := by
  rw [read8Bits, if_neg (by omega), holds.1]

theorem read16Bits_holds (holds : Holds b pos [UInt8.ofNat (m / 256), UInt8.ofNat m])
    (small : m < 65536) (inside : pos + 2 ≤ n) : read16Bits b n pos = some (m, pos + 2) := by
  rw [read16Bits, if_neg (by omega), holds.1, holds.2.1, high_low small]

theorem readSize_holds {long : Bool} (holds : Holds b pos (sizeBytes long m)) (small : m < 2 ^ 24)
    (inside : pos + (sizeBytes long m).length ≤ n) :
    readSize b n pos = some (m, pos + (sizeBytes long m).length) := by
  unfold sizeBytes at holds inside ⊢
  split at holds
  case isTrue four =>
    rw [if_pos four] at inside ⊢
    obtain ⟨first, second, third, fourth, -⟩ := holds
    have marker : (b pos).toNat = 128 := by
      rw [first, Nat.div_eq_of_lt small]
      rfl
    have value : (UInt8.ofNat (m / 65536)).toNat * 65536 + (UInt8.ofNat (m / 256)).toNat * 256 +
        (UInt8.ofNat m).toNat = m := by
      rw [UInt8.toNat_ofNat', UInt8.toNat_ofNat', UInt8.toNat_ofNat']
      omega
    have rest : read24Bits b n (pos + 1) = some (m, pos + 1 + 3) := by
      rw [read24Bits, if_neg (by simp only [List.length_cons, List.length_nil] at inside; omega),
        second, third, fourth, value]
    rw [readSize, read8Bits, if_neg (by simp only [List.length_cons, List.length_nil] at inside; omega),
      Option.bind_some, marker]
    exact rest
  case isFalse one =>
    rw [if_neg one] at inside ⊢
    have value : (UInt8.ofNat m).toNat = m := by
      rw [UInt8.toNat_ofNat']
      omega
    rw [readSize, read8Bits_holds holds inside, Option.bind_some, value]
    exact if_neg (by omega)

theorem readSizes_holds (holds : Holds b pos (sizeBytes p.nameLong p.name.length ++
      sizeBytes p.valueLong p.value.length)) (named : p.name.length < 2 ^ 24)
    (valued : p.value.length < 2 ^ 24)
    (inside : pos + (sizeBytes p.nameLong p.name.length).length +
      (sizeBytes p.valueLong p.value.length).length ≤ n) :
    readSizes b n pos = some (p.name.length, p.value.length,
      pos + (sizeBytes p.nameLong p.name.length).length +
        (sizeBytes p.valueLong p.value.length).length) := by
  obtain ⟨first, second⟩ := (holds_append b pos _ _).mp holds
  rw [readSizes, readSize_holds first named (by omega), Option.bind_some]
  dsimp only
  rw [readSize_holds second valued inside, Option.map_some]

theorem named_eq {name : Bytes} (text : Bytes) {k : ℕ} (length : text.length = k)
    (here : Holds b pos name) :
    (decide (name.length = k) && holds b pos text) = decide (name = text) := by
  by_cases same : name.length = k
  · rw [decide_eq_true same, Bool.true_and, FastCgiRecords.holds, length, ← same,
      span_of_holds b here]
  · have other : name ≠ text := fun eq => same (eq ▸ length)
    rw [decide_eq_false same, Bool.false_and, decide_eq_false other]

theorem takeParam_eq (name : Holds b pos p.name) (value : Holds b (pos + p.name.length) p.value)
    (s : Scan) : takeParam b pos p.name.length p.value.length s = fill (p.take (asked s)) s := by
  have read : span b (pos + p.name.length) (pos + p.name.length + p.value.length) = p.value :=
    span_of_holds b value
  unfold takeParam Pair.take
  have scheme := named_eq (ascii "https") (k := 5) (by decide) value
  rw [read, named_eq _ (by decide) name, named_eq _ (by decide) name, named_eq _ (by decide) name,
    named_eq _ (by decide) name, Bool.and_assoc (decide (p.name = ascii "REQUEST_SCHEME")), scheme]
  simp only [decide_eq_true_eq, Bool.and_eq_true]
  rw [apply_ite (fill · s), apply_ite (fill · s), apply_ite (fill · s), apply_ite (fill · s)]
  rfl

theorem span_take {k : ℕ} (here : Holds b pos bs) (inside : k ≤ bs.length) :
    span b pos (pos + k) = bs.take k := by
  rw [← List.take_append_drop k bs, holds_append] at here
  have front := span_of_holds b here.1
  rw [List.length_take, Nat.min_eq_left inside] at front
  exact front

theorem antiLoop_eq (name : Holds b pos p.name) (value : Holds b (pos + p.name.length) p.value) :
    antiLoop b pos p.name.length p.value.length = decide p.Marked := by
  unfold antiLoop
  rw [named_eq _ (by decide) name, Bool.and_assoc]
  by_cases sized : p.value.length = 8
  · have five : ((ascii "ysff43Uy").take 5).length = 5 := by decide
    rw [decide_eq_true sized, Bool.true_and, FastCgiRecords.holds, five,
      span_take value (by omega), ← Bool.decide_and]
    exact decide_eq_decide.mpr ⟨fun both => ⟨both.1, sized, both.2⟩, fun mark => ⟨mark.1, mark.2.2⟩⟩
  · rw [decide_eq_false sized, Bool.false_and, Bool.and_false]
    exact (decide_eq_false fun mark => sized mark.2.1).symm

theorem Pair.length_bytes (p : Pair) : p.bytes.length =
    (sizeBytes p.nameLong p.name.length).length + (sizeBytes p.valueLong p.value.length).length +
      (p.name.length + p.value.length) := by
  simp only [Pair.bytes, pairBytes, List.length_append]
  omega

theorem paramsBody_holds {abs : ℕ} {s : Scan} (holds : Holds b s.pos p.bytes)
    (here : s.pos + p.bytes.length ≤ abs) (inside : abs ≤ n) (small : p.bytes.length < 65536) :
    paramsBody b n abs s = if p.Marked then .stop .antiLoop
      else .again { fill (p.take (asked s)) s with pos := s.pos + p.bytes.length } := by
  have length := p.length_bytes
  have some_size := sizeBytes_pos p.nameLong p.name.length
  rw [Pair.bytes, pairBytes, ← List.append_assoc, holds_append, List.length_append] at holds
  obtain ⟨sizes, contents⟩ := holds
  rw [holds_append, ← Nat.add_assoc] at contents
  have read := readSizes_holds (n := n) sizes (by omega) (by omega) (by omega)
  have added : canAddToPos n (s.pos + (sizeBytes p.nameLong p.name.length).length +
      (sizeBytes p.valueLong p.value.length).length) (p.name.length + p.value.length) =
        some (s.pos + p.bytes.length) := by
    rw [canAddToPos, if_neg (by omega)]
    exact congrArg some (by omega)
  unfold paramsBody
  rw [if_pos (by omega), read]
  dsimp only
  rw [antiLoop_eq contents.1 contents.2, takeParam_eq contents.1 contents.2, added]
  by_cases mark : p.Marked
  · rw [decide_eq_true mark, if_pos rfl, if_pos mark]
  · rw [decide_eq_false mark, if_neg mark]
    rfl

/-- The fields behind a list of pairs. -/
def takeAll (ps : List Pair) (q : Request) : Request := ps.foldl (fun q p => p.take q) q

theorem params_holds {abs : ℕ} (ps : List Pair) (s : Scan)
    (holds : Holds b s.pos (ps.flatMap Pair.bytes))
    (here : s.pos + (ps.flatMap Pair.bytes).length = abs) (inside : abs ≤ n)
    (small : (ps.flatMap Pair.bytes).length < 65536) :
    (params b n abs).run s = if ∃ p ∈ ps, p.Marked then .antiLoop
      else .parsed { fill (takeAll ps (asked s)) s with pos := abs } := by
  induction ps generalizing s with
  | nil =>
    have last : s.pos = abs := here
    have stops : (params b n abs).body s = .stop (.parsed s) := if_neg (by omega)
    rw [(params b n abs).run_stop stops, if_neg fun wrong => by simp at wrong, ← last]
    rfl
  | cons p ps ih =>
    rw [List.flatMap_cons, List.length_append] at here small
    rw [List.flatMap_cons, holds_append] at holds
    have body := paramsBody_holds holds.1 (show _ ≤ abs by omega) inside (by omega)
    by_cases mark : p.Marked
    · rw [if_pos mark] at body
      rw [(params b n abs).run_stop body, if_pos ⟨p, List.mem_cons_self, mark⟩]
    · rw [if_neg mark] at body
      have rest := ih { fill (p.take (asked s)) s with pos := s.pos + p.bytes.length } holds.2
        (show s.pos + p.bytes.length + _ = abs by omega) (by omega)
      rw [(params b n abs).run_again body, rest]
      have same : (∃ q ∈ p :: ps, q.Marked) ↔ ∃ q ∈ ps, q.Marked := by
        simp only [List.mem_cons, exists_eq_or_imp, mark, false_or]
      rw [if_congr same rfl rfl]
      rfl

end Pairs

section Records

variable {b : Buffer} {n id pos : ℕ} {client : Client} {r : Record} {s : Scan}

/-- A record that the client is ready for: the first one begins the request. -/
def Record.Accepted (id : ℕ) (client : Client) (r : Record) : Prop :=
  client.fastcgiid = if r.part.kind = 1 then none else some id

def Record.apply (id : ℕ) (r : Record) (s : Scan) : Scan :=
  let t :=
    match r.part with
    | .begin _ => { s with client := { s.client with fastcgiid := some id } }
    | .params pairs => fill (takeAll pairs (asked s)) s
    | .stdin _ => { s with client := { s.client with fullyParsed := true } }
  { t with pos := s.pos + (r.bytes id).length }

def Record.Marked (r : Record) : Prop := ∃ p ∈ r.part.pairs, p.Marked

instance (r : Record) : Decidable r.Marked := inferInstanceAs (Decidable (∃ p ∈ _, _))

theorem Record.length_bytes (id : ℕ) (r : Record) :
    (r.bytes id).length = 8 + (r.part.content.length + r.padding.length) :=
  length_recordBytes ..

theorem recordStart_holds (accepted : r.Accepted id client)
    (holds : Holds b pos [1, r.part.kind, UInt8.ofNat (id / 256), UInt8.ofNat id])
    (small : id < 65536) (inside : pos + 4 ≤ n) :
    recordStart b n client pos =
      some ({ client with fastcgiid := some id }, r.part.kind.toNat, pos + 4) := by
  obtain ⟨version, kind, number⟩ := holds
  have first := read8Bits_holds (n := n) (show Holds b pos [1] from ⟨version, trivial⟩) (by omega)
  have second := read8Bits_holds (n := n)
    (show Holds b (pos + 1) [r.part.kind] from ⟨kind, trivial⟩) (by omega)
  have third := read16Bits_holds (n := n) number small (by omega)
  have one : ¬(1 : Byte).toNat ≠ 1 := by decide
  unfold recordStart
  rw [first, Option.bind_some]
  dsimp only
  rw [if_neg one, second, Option.bind_some]
  dsimp only
  unfold Record.Accepted at accepted
  by_cases begins : r.part.kind = 1
  · rw [if_pos begins] at accepted
    have kind_one : ¬r.part.kind.toNat ≠ 1 := by
      rw [begins]
      decide
    rw [accepted]
    dsimp only
    rw [if_neg kind_one, third]
    rfl
  · rw [if_neg begins] at accepted
    have four_or_five : ¬(r.part.kind.toNat ≠ 4 ∧ r.part.kind.toNat ≠ 5) := by
      cases part : r.part with
      | begin body =>
        rw [part] at begins
        exact absurd rfl begins
      | params pairs => exact fun wrong => wrong.1 rfl
      | stdin data => exact fun wrong => wrong.2 rfl
    have same : client = { client with fastcgiid := some id } := by rw [← accepted]
    rw [accepted]
    dsimp only
    rw [if_neg four_or_five, third, Option.bind_some]
    dsimp only
    rw [if_neg (not_not.mpr rfl), ← same]

theorem recordHeader_holds (accepted : r.Accepted id client) (holds : Holds b pos (r.bytes id))
    (small : id < 65536) (inside : pos + 8 ≤ n) :
    recordHeader b n client pos = some ⟨{ client with fastcgiid := some id }, r.part.kind.toNat,
      r.part.content.length, r.padding.length, pos + 8⟩ := by
  obtain ⟨header, -⟩ := (holds_append b pos _ _).mp holds
  obtain ⟨version, kind, high, low, sizes, sizes', padding, -, -⟩ := header
  have started := recordStart_holds accepted (n := n) ⟨version, kind, high, low, trivial⟩ small
    (by omega)
  have content := read16Bits_holds (n := n)
    (show Holds b (pos + 4) [_, _] from ⟨sizes, sizes', trivial⟩) r.sized (by omega)
  have padded := read8Bits_holds (n := n)
    (show Holds b (pos + 6) [_] from ⟨padding, trivial⟩) (by omega)
  have size : (UInt8.ofNat r.padding.length).toNat = r.padding.length := by
    rw [UInt8.toNat_ofNat']
    exact Nat.mod_eq_of_lt r.padded
  have reserved : canAddToPos n (pos + 7) 1 = some (pos + 8) := by
    rw [canAddToPos, if_neg (by omega)]
  rw [size] at padded
  unfold recordHeader
  rw [started, Option.bind_some]
  dsimp only
  rw [content, Option.bind_some]
  dsimp only
  rw [padded, Option.bind_some]
  dsimp only
  rw [reserved]
  rfl

theorem record_params {h : Header} (header : recordHeader b n s.client s.pos = some h)
    (four : h.var8 = 4) : record b n s =
      match (params b n (h.contentLenght + h.pos)).run { s with client := h.client, pos := h.pos } with
      | .parsed t =>
        match canAddToPos n t.pos h.paddingLength with
        | none => .refused
        | some pos => .parsed { t with pos := pos }
      | fault => fault := by
  unfold record
  rw [header]
  exact if_pos four

theorem record_other {h : Header} (last : Bool)
    (header : recordHeader b n s.client s.pos = some h) (other : h.var8 ≠ 4)
    (fifth : decide (h.var8 = 5) = last) : record b n s =
      match canAddToPos n h.pos (h.contentLenght + h.paddingLength) with
      | none => .refused
      | some pos => .parsed { s with
          client := { h.client with fullyParsed := h.client.fullyParsed || last }
          pos := pos } := by
  unfold record
  rw [header, ← fifth]
  exact if_neg other

theorem record_holds (accepted : r.Accepted id s.client) (holds : Holds b s.pos (r.bytes id))
    (small : id < 65536) (inside : s.pos + (r.bytes id).length ≤ n) :
    record b n s = if r.Marked then .antiLoop else .parsed (r.apply id s) := by
  have length := r.length_bytes id
  have header := recordHeader_holds accepted holds small (n := n) (by omega)
  have content : Holds b (s.pos + 8) r.part.content :=
    ((holds_append b _ _ _).mp ((holds_append b s.pos _ _).mp holds).2).1
  have skipped : canAddToPos n (s.pos + 8) (r.part.content.length + r.padding.length) =
      some (s.pos + (r.bytes id).length) := by
    rw [canAddToPos, if_neg (by omega)]
    exact congrArg some (by omega)
  have padded : canAddToPos n (r.part.content.length + (s.pos + 8)) r.padding.length =
      some (s.pos + (r.bytes id).length) := by
    rw [canAddToPos, if_neg (by omega)]
    exact congrArg some (by omega)
  obtain ⟨part, padding, reserved, sized, short⟩ := r
  cases part with
  | begin body =>
    have unmarked : ¬Record.Marked ⟨.begin body, padding, reserved, sized, short⟩ :=
      fun mark => mark.elim fun p member => absurd member.1 List.not_mem_nil
    rw [record_other false header (show (1 : Byte).toNat ≠ 4 by decide) rfl, skipped,
      if_neg unmarked]
    dsimp only [Record.apply]
    rw [Bool.or_false]
  | params pairs =>
    have own : s.client.fastcgiid = some id := accepted
    have same : s.client = { s.client with fastcgiid := some id } := by rw [← own]
    have read := params_holds pairs { s with pos := s.pos + 8 } content
      (Nat.add_comm (s.pos + 8) (Part.params pairs).content.length)
      (show (Part.params pairs).content.length + (s.pos + 8) ≤ n by dsimp only at length; omega)
      sized
    rw [record_params header rfl]
    dsimp only
    rw [← same, read]
    by_cases mark : ∃ p ∈ pairs, p.Marked
    · rw [if_pos mark]
      exact (if_pos mark).symm
    · rw [if_neg mark]
      dsimp only at padded ⊢
      rw [padded]
      exact (if_neg mark).symm
  | stdin data =>
    have own : s.client.fastcgiid = some id := accepted
    have unmarked : ¬Record.Marked ⟨.stdin data, padding, reserved, sized, short⟩ :=
      fun mark => mark.elim fun p member => absurd member.1 List.not_mem_nil
    rw [record_other true header (show (5 : Byte).toNat ≠ 4 by decide) rfl, skipped,
      if_neg unmarked]
    dsimp only [Record.apply]
    rw [Bool.or_true, own]

end Records

section Lists

variable {b : Buffer} {n id : ℕ} {r : Record} {rs : List Record} {s : Scan}

def bytesOf (id : ℕ) (rs : List Record) : Bytes := rs.flatMap (Record.bytes id)

def pairsOf (rs : List Record) : List Pair := rs.flatMap fun r => r.part.pairs

def applyAll (id : ℕ) (rs : List Record) (s : Scan) : Scan := rs.foldl (fun s r => r.apply id s) s

def Record.IsStdin (r : Record) : Prop := r.part.kind = 5

instance (r : Record) : Decidable r.IsStdin := inferInstanceAs (Decidable (_ = _))

def Expected (id : ℕ) : Option ℕ → List Record → Prop
  | _, [] => True
  | fastcgiid, r :: rs =>
    (fastcgiid = if r.part.kind = 1 then none else some id) ∧ Expected id (some id) rs

theorem apply_pos : (r.apply id s).pos = s.pos + (r.bytes id).length := rfl

theorem apply_isValid : (r.apply id s).client.isValid = s.client.isValid := by
  unfold Record.apply
  cases r.part <;> rfl

theorem apply_fastcgiid (accepted : r.Accepted id s.client) :
    (r.apply id s).client.fastcgiid = some id := by
  unfold Record.Accepted at accepted
  unfold Record.apply
  cases part : r.part with
  | begin body => rfl
  | params pairs =>
    rw [part] at accepted
    exact accepted
  | stdin data =>
    rw [part] at accepted
    exact accepted

theorem apply_fullyParsed :
    (r.apply id s).client.fullyParsed = (s.client.fullyParsed || decide r.IsStdin) := by
  obtain ⟨part, padding, reserved, sized, short⟩ := r
  cases part with
  | begin body => exact (Bool.or_false _).symm
  | params pairs => exact (Bool.or_false _).symm
  | stdin data => exact (Bool.or_true _).symm

theorem asked_apply : asked (r.apply id s) = takeAll r.part.pairs (asked s) := by
  unfold Record.apply
  cases r.part <;> rfl

/-- The state behind a list of records. -/
structure Applied (id : ℕ) (rs : List Record) (s t : Scan) : Prop where
  pos : t.pos = s.pos + (bytesOf id rs).length
  isValid : t.client.isValid = s.client.isValid
  fullyParsed : t.client.fullyParsed = true ↔ s.client.fullyParsed = true ∨ ∃ r ∈ rs, r.IsStdin
  asked : asked t = takeAll (pairsOf rs) (asked s)
  fastcgiid : t.client.fastcgiid = some id ∨ rs = [] ∧ t.client.fastcgiid = s.client.fastcgiid

theorem applyAll_applied (expected : Expected id s.client.fastcgiid rs) :
    Applied id rs s (applyAll id rs s) := by
  induction rs generalizing s with
  | nil => exact ⟨rfl, rfl, by simp [applyAll], rfl, .inr ⟨rfl, rfl⟩⟩
  | cons r rs ih =>
    obtain ⟨accepted, rest⟩ := expected
    have numbered := apply_fastcgiid (s := s) accepted
    have later := ih (s := r.apply id s) (numbered ▸ rest)
    constructor
    case pos =>
      change (applyAll id rs (r.apply id s)).pos = _
      rw [later.pos, apply_pos, bytesOf, bytesOf, List.flatMap_cons, List.length_append, Nat.add_assoc]
    case isValid => exact later.isValid.trans apply_isValid
    case fullyParsed =>
      rw [show applyAll id (r :: rs) s = applyAll id rs (r.apply id s) from rfl, later.fullyParsed,
        apply_fullyParsed, Bool.or_eq_true, decide_eq_true_iff, or_assoc]
      simp only [List.mem_cons, exists_eq_or_imp]
    case asked =>
      rw [show applyAll id (r :: rs) s = applyAll id rs (r.apply id s) from rfl, later.asked,
        asked_apply, takeAll, takeAll, takeAll, pairsOf, pairsOf, List.flatMap_cons,
        List.foldl_append]
    case fastcgiid =>
      rcases later.fastcgiid with numbered' | ⟨-, same⟩
      · exact .inl numbered'
      · exact .inl (same.trans numbered)

theorem records_holds (accepted : r.Accepted id s.client) (holds : Holds b s.pos (r.bytes id))
    (small : id < 65536) (inside : s.pos + (r.bytes id).length ≤ n) :
    (records b n).run s = if r.Marked then .antiLoop
      else if s.pos + (r.bytes id).length < n then (records b n).run (r.apply id s)
      else .parsed (r.apply id s) := by
  have read := record_holds accepted holds small inside
  by_cases mark : r.Marked
  · rw [if_pos mark] at read ⊢
    have stops : (records b n).body s = .stop .antiLoop := by
      change recordsBody b n s = _
      rw [recordsBody, read]
    exact (records b n).run_stop stops
  · rw [if_neg mark] at read ⊢
    by_cases more : s.pos + (r.bytes id).length < n
    · rw [if_pos more]
      have goes : (records b n).body s = .again (r.apply id s) := by
        change recordsBody b n s = _
        rw [recordsBody, read]
        dsimp only
        exact if_pos more
      exact (records b n).run_again goes
    · rw [if_neg more]
      have stops : (records b n).body s = .stop (.parsed (r.apply id s)) := by
        change recordsBody b n s = _
        rw [recordsBody, read]
        dsimp only
        exact if_neg more
      exact (records b n).run_stop stops

theorem records_front (expected : Expected id s.client.fastcgiid rs) (filled : rs ≠ [])
    (holds : Holds b s.pos (bytesOf id rs)) (small : id < 65536)
    (inside : s.pos + (bytesOf id rs).length ≤ n) : (records b n).run s =
      if ∃ r ∈ rs, r.Marked then .antiLoop
      else if s.pos + (bytesOf id rs).length < n then (records b n).run (applyAll id rs s)
      else .parsed (applyAll id rs s) := by
  induction rs generalizing s with
  | nil => exact absurd rfl filled
  | cons r rs ih =>
    obtain ⟨accepted, rest⟩ := expected
    rw [bytesOf, List.flatMap_cons, List.length_append] at inside ⊢
    rw [bytesOf, List.flatMap_cons, holds_append] at holds
    rw [records_holds accepted holds.1 small (by omega)]
    by_cases mark : r.Marked
    · rw [if_pos mark, if_pos ⟨r, List.mem_cons_self, mark⟩]
    · have same : (∃ q ∈ r :: rs, q.Marked) ↔ ∃ q ∈ rs, q.Marked := by
        simp only [List.mem_cons, exists_eq_or_imp, mark, false_or]
      rw [if_neg mark, if_congr same rfl rfl]
      cases rs with
      | nil =>
        have unmarked : ¬∃ q ∈ ([] : List Record), q.Marked := by simp
        rw [if_neg unmarked]
        rfl
      | cons r' rs =>
        have numbered := apply_fastcgiid (s := s) accepted
        have some_bytes := r'.length_bytes id
        have more : 0 < ((r' :: rs).flatMap (Record.bytes id)).length := by
          rw [List.flatMap_cons, List.length_append]
          omega
        have later := ih (s := r.apply id s) (numbered ▸ rest) (List.cons_ne_nil _ _) holds.2
          (show s.pos + (r.bytes id).length + ((r' :: rs).flatMap (Record.bytes id)).length ≤ n by
            omega)
        rw [if_pos (by omega), later, apply_pos, Nat.add_assoc]
        rfl

theorem records_ahead (expected : Expected id s.client.fastcgiid rs)
    (holds : Holds b s.pos (bytesOf id rs)) (small : id < 65536)
    (inside : s.pos + (bytesOf id rs).length < n) : (records b n).run s =
      if ∃ r ∈ rs, r.Marked then .antiLoop else (records b n).run (applyAll id rs s) := by
  by_cases filled : rs = []
  · subst filled
    exact (if_neg fun wrong => by simp at wrong).symm
  · rw [records_front expected filled holds small (Nat.le_of_lt inside), if_pos inside]

theorem records_whole (expected : Expected id s.client.fastcgiid rs) (filled : rs ≠ [])
    (holds : Holds b s.pos (bytesOf id rs)) (small : id < 65536)
    (inside : s.pos + (bytesOf id rs).length = n) : (records b n).run s =
      if ∃ r ∈ rs, r.Marked then .antiLoop else .parsed (applyAll id rs s) := by
  rw [records_front expected filled holds small (Nat.le_of_eq inside),
    if_neg (Nat.not_lt.mpr (Nat.le_of_eq inside.symm))]

end Lists

end FastCgiCdn.RecordEncoding
