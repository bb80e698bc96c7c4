import FastCgiCdn.DnsAddressGuard
import FastCgiCdn.DnsVerdict
import FastCgiCdn.GuardedRuns
import FastCgiCdn.HeldValues

/-! Well-formed replies, as bytes, and what the parser makes of them. A reply
echoes one question for an IPv6 address and carries any number of records whose
owner is a compression pointer; the other sections are an unread tail. It is
received whole, and the memory after its last byte is arbitrary. -/

namespace FastCgiCdn.DnsReplies

open DnsAddressGuard DnsModel Dns DnsVerdict GuardedRuns HeldValues

def bigEndian16 (n : ℕ) : Bytes := [UInt8.ofNat (n / 256), UInt8.ofNat n]

def bigEndian32 (n : ℕ) : Bytes := bigEndian16 (n / 65536) ++ bigEndian16 n

/-- A record of the answer section. An address record belongs to the Internet
class and holds 16 bytes. -/
structure Record where
  pointer : ℕ
  type : ℕ
  classIn : ℕ
  ttl : ℕ
  data : Bytes
  compressed : 0xC000 ≤ pointer ∧ pointer < 65536
  typed : 0 < type ∧ type < 65536
  classed : classIn < 65536
  timed : ttl < 2 ^ 32
  sized : data.length < 65536
  address : type = 0x001c → classIn = 0x0001 ∧ data.length = 16

def Record.bytes (r : Record) : Bytes :=
  bigEndian16 r.pointer ++ (bigEndian16 r.type ++ (bigEndian16 r.classIn ++ (bigEndian32 r.ttl ++
    (bigEndian16 r.data.length ++ r.data))))

@[simp] theorem bigEndian16_length (n : ℕ) : (bigEndian16 n).length = 2 := rfl

@[simp] theorem bigEndian32_length (n : ℕ) : (bigEndian32 n).length = 4 := rfl

theorem Record.bytes_length (r : Record) : r.bytes.length = 12 + r.data.length := by
  simp only [Record.bytes, List.length_append, bigEndian16_length, bigEndian32_length]
  omega

def nameBytes (labels : List Bytes) : Bytes :=
  labels.flatMap (fun label => UInt8.ofNat label.length :: label) ++ [0]

structure Reply where
  id : ℕ
  flags : ℕ
  labels : List Bytes
  records : List Record
  authorities : ℕ
  additionals : ℕ
  tail : Bytes
  numbered : id < 65536
  response : 0x8000 ≤ flags ∧ flags < 65536
  labelled : ∀ label ∈ labels, 0 < label.length ∧ label.length ≤ 63
  named : (nameBytes labels).length ≤ 255
  counted : records.length < 65536

/-- The id stands in the order of the machine that chose it. -/
def Reply.header (r : Reply) : Bytes :=
  [UInt8.ofNat r.id, UInt8.ofNat (r.id / 256)] ++ (bigEndian16 r.flags ++ (bigEndian16 1 ++
    (bigEndian16 r.records.length ++ (bigEndian16 r.authorities ++ bigEndian16 r.additionals))))

def Reply.answers (r : Reply) : Bytes := r.records.flatMap Record.bytes

def Reply.bytes (r : Reply) : Bytes :=
  r.header ++ (nameBytes r.labels ++ (bigEndian16 0x001c ++ (bigEndian16 0x0001 ++
    (r.answers ++ r.tail))))

section reading

variable {buffer : Memory} {size pos : ℕ}

theorem read16Bits_value {n : ℕ} (holds : Holds buffer pos (bigEndian16 n)) (small : n < 65536)
    (inside : pos + 2 ≤ size) : read16Bits buffer size pos = (n, pos + 2) := by
  obtain ⟨high, low, -⟩ := holds
  rw [read16Bits, if_neg (by omega), high, low, UInt8.toNat_ofNat', UInt8.toNat_ofNat']
  congr 1
  omega

theorem read32Bits_some (inside : pos + 4 ≤ size) :
    ∃ ttl, read32Bits buffer size pos = some (ttl, pos + 4) := by
  rw [read32Bits, if_neg (by omega)]
  exact ⟨_, rfl⟩

theorem canAddToPos_getD {i : ℕ} (inside : pos + i ≤ size) :
    (canAddToPos i size pos).getD pos = pos + i := by
  rw [canAddToPos, if_neg (by omega)]
  rfl

theorem skipName_root {labels : List Bytes}
    (labelled : ∀ label ∈ labels, 0 < label.length ∧ label.length ≤ 63) :
    ∀ {offs fuel : ℕ}, Holds buffer (pos + offs) (nameBytes labels) →
      offs + (nameBytes labels).length ≤ 255 → pos + offs + (nameBytes labels).length ≤ size →
      labels.length < fuel →
      skipName buffer size pos fuel offs = some (offs + (nameBytes labels).length - 1) := by
  induction labels with
  | nil =>
    intro offs fuel holds short inside enough
    obtain ⟨fuel, rfl⟩ := Nat.exists_eq_succ_of_ne_zero (by omega : fuel ≠ 0)
    rw [skipName, if_neg (fun more => more.2 holds.1)]
    rfl
  | cons label labels ih =>
    intro offs fuel holds short inside enough
    obtain ⟨fuel, rfl⟩ := Nat.exists_eq_succ_of_ne_zero (by omega : fuel ≠ 0)
    have split : nameBytes (label :: labels) =
        (UInt8.ofNat label.length :: label) ++ nameBytes labels := by
      simp [nameBytes]
    have length : (nameBytes (label :: labels)).length =
        label.length + 1 + (nameBytes labels).length := by
      rw [split, List.length_append, List.length_cons]
    rw [split, holds_append, List.length_cons] at holds
    obtain ⟨⟨first, -⟩, rest⟩ := holds
    have bounds := labelled label List.mem_cons_self
    have value : (buffer (pos + offs)).toNat = label.length := by
      rw [first, UInt8.toNat_ofNat']
      omega
    have step : (offs + ((buffer (pos + offs)).toNat + 1)) % 256 = offs + (label.length + 1) := by
      rw [value]
      omega
    have nonzero : buffer (pos + offs) ≠ 0 := by
      intro zero
      rw [zero] at value
      simp at value
      omega
    rw [skipName, if_pos ⟨by omega, nonzero⟩, step]
    rw [ih (fun l member => labelled l (List.mem_cons_of_mem _ member)) (by
      rw [← Nat.add_assoc]; exact rest) (by omega) (by omega) (by
      rw [List.length_cons] at enough; omega)]
    congr 1
    omega

theorem Record.fields {r : Record} (holds : Holds buffer pos r.bytes)
    (inside : pos + r.bytes.length ≤ size) :
    read16Bits buffer size pos = (r.pointer, pos + 2) ∧
    read16Bits buffer size (pos + 2) = (r.type, pos + 4) ∧
    read16Bits buffer size (pos + 4) = (r.classIn, pos + 6) ∧
    read16Bits buffer size (pos + 10) = (r.data.length, pos + 12) ∧
    pos + 12 + r.data.length ≤ size := by
  rw [r.bytes_length] at inside
  simp only [Record.bytes, holds_append, bigEndian16_length, bigEndian32_length] at holds
  obtain ⟨owner, type, classIn, -, datasize, -⟩ := holds
  exact ⟨read16Bits_value owner r.compressed.2 (by omega),
    read16Bits_value type r.typed.2 (by omega), read16Bits_value classIn r.classed (by omega),
    read16Bits_value datasize r.sized (by omega), by omega⟩

/-- A record of another type is passed by its length, unless that reads as 0. -/
theorem Record.passed {r : Record} (holds : Holds buffer pos r.bytes)
    (inside : pos + r.bytes.length ≤ size) (other : r.type ≠ 0x001c) (left : ℕ) :
    answersOutcome buffer size (left + 1) pos =
      if r.data = [] then none else answersOutcome buffer size left (pos + r.bytes.length) := by
  obtain ⟨owner, type, -, datasize, fits⟩ := Record.fields holds inside
  have named : r.pointer ≠ 0 := by have := r.compressed; omega
  have typed : r.type ≠ 0 := by have := r.typed; omega
  have fixed : (canAddToPos (2 + 4) size (pos + 4)).getD (pos + 4) = pos + 10 :=
    canAddToPos_getD (by omega)
  have skipped : (canAddToPos r.data.length size (pos + 12)).getD (pos + 12) =
      pos + r.bytes.length := by
    rw [canAddToPos_getD fits, r.bytes_length]
    omega
  simp only [answersOutcome, owner, named, if_false, type, typed, other, fixed, datasize, skipped,
    List.length_eq_zero_iff]

/-- An address record settles the query. -/
theorem Record.settles {r : Record} (holds : Holds buffer pos r.bytes)
    (inside : pos + r.bytes.length ≤ size) (aaaa : r.type = 0x001c) (left : ℕ) :
    ∃ ttl, answersOutcome buffer size (left + 1) pos =
      some (.address ttl (.ofMemory buffer (pos + 12))) := by
  obtain ⟨owner, type, classIn, datasize, fits⟩ := Record.fields holds inside
  have named : r.pointer ≠ 0 := by have := r.compressed; omega
  obtain ⟨internet, sixteen⟩ := r.address aaaa
  obtain ⟨ttl, timed⟩ : ∃ ttl, read32Bits buffer size (pos + 6) = some (ttl, pos + 6 + 4) :=
    read32Bits_some (by omega)
  refine ⟨ttl, ?_⟩
  rw [aaaa] at type
  rw [internet] at classIn
  rw [sixteen] at datasize
  simp only [answersOutcome, owner, named, if_false, type, classIn, timed, datasize]
  simp

def preceding (records : List Record) : List Record :=
  records.takeWhile fun r => r.type ≠ 0x001c

/-- The walk over the records ends early on an empty record before the first
address, and otherwise with an address or without any. -/
theorem answersOutcome_records (records : List Record) :
    ∀ {pos : ℕ}, Holds buffer pos (records.flatMap Record.bytes) →
      pos + (records.flatMap Record.bytes).length ≤ size →
      ((answersOutcome buffer size records.length pos).isSome ↔
        ∀ r ∈ preceding records, r.data ≠ []) ∧
      ((∀ r ∈ records, r.type ≠ 0x001c) → ∀ o ∈ answersOutcome buffer size records.length pos,
        o = .unanswered) := by
  induction records with
  | nil =>
    intro pos holds inside
    simp [preceding, answersOutcome]
  | cons r records ih =>
    intro pos holds inside
    rw [List.flatMap_cons, holds_append] at holds
    rw [List.flatMap_cons, List.length_append] at inside
    by_cases aaaa : r.type = 0x001c
    · have fits : pos + r.bytes.length ≤ size := by omega
      obtain ⟨ttl, settled⟩ := Record.settles holds.1 fits aaaa records.length
      rw [List.length_cons, settled]
      refine ⟨by simp [preceding, aaaa], fun none => ?_⟩
      exact absurd aaaa (none r List.mem_cons_self)
    · obtain ⟨ends, unanswered⟩ := ih holds.2 (by omega)
      rw [List.length_cons, Record.passed holds.1 (by omega) aaaa]
      have head : preceding (r :: records) = r :: preceding records := by
        simp [preceding, aaaa]
      by_cases empty : r.data = []
      · simp [head, empty]
      · rw [if_neg empty, head]
        refine ⟨by simp [ends, empty], fun none => ?_⟩
        exact unanswered fun x member => none x (List.mem_cons_of_mem _ member)

theorem labels_lt {labels : List Bytes} : labels.length < (nameBytes labels).length := by
  induction labels with
  | nil => decide
  | cons label labels ih =>
    simp only [nameBytes, List.flatMap_cons, List.append_assoc, List.length_append,
      List.length_cons] at ih ⊢
    omega

theorem Reply.parsed {r : Reply} (holds : Holds buffer 0 r.bytes) (whole : r.bytes.length = size) :
    ∃ pos, Holds buffer pos r.answers ∧ pos + r.answers.length ≤ size ∧
      parseHeader buffer size =
        .ok (if r.records = [] then none else some ⟨r.id, r.flags, r.records.length, pos⟩) := by
  have length : r.bytes.length = 16 + (nameBytes r.labels).length + r.answers.length +
      r.tail.length := by
    simp only [Reply.bytes, Reply.header, List.length_append, bigEndian16_length, List.length_cons,
      List.length_nil]
    omega
  rw [whole] at length
  simp only [Reply.bytes, Reply.header, holds_append, bigEndian16_length, List.length_append,
    List.length_cons, List.length_nil, Nat.zero_add, Nat.reduceAdd] at holds
  obtain ⟨⟨⟨low, high, -⟩, flags, questions, answers, -, -⟩, name, type, classIn, records, -⟩ := holds
  refine ⟨_, records, by omega, ?_⟩
  have id : read16BitsRaw buffer size 0 = some (r.id, 2) := by
    rw [read16BitsRaw, if_neg (by omega), low, high, UInt8.toNat_ofNat', UInt8.toNat_ofNat']
    have := r.numbered
    congr 2
    omega
  have flagged : r.flags ≠ 0 := by have := r.response; omega
  have fewer : (nameBytes r.labels).length ≤ 255 := r.named
  have root : r.labels.length < (nameBytes r.labels).length := labels_lt
  have skipped : skipName buffer size 12 256 0 = some (0 + (nameBytes r.labels).length - 1) :=
    skipName_root r.labelled name (by omega) (by omega) (by omega)
  have after : 12 + (0 + (nameBytes r.labels).length - 1) + 1 = 12 + (nameBytes r.labels).length := by
    omega
  have question : canAddToPos (2 + 2) size 8 = some 12 := by rw [canAddToPos, if_neg (by omega)]
  rw [parseHeader, id]
  simp only [read16Bits_value flags r.response.2 (by omega : 2 + 2 ≤ size), flagged, if_false,
    read16Bits_value questions (by omega) (by omega : 4 + 2 ≤ size), Nat.one_ne_zero,
    read16Bits_value answers r.counted (by omega : 6 + 2 ≤ size)]
  by_cases none : r.records = []
  · simp [none]
  · simp only [List.length_eq_zero_iff, none, if_false, question, skipped, after,
      read16Bits_value type (by omega) (by omega : _ + 2 ≤ size),
      read16Bits_value classIn (by omega) (by omega : _ + 2 ≤ size), ne_eq, not_true]

end reading

/-- The query is gone and each of its clients was called once, with an error
when the reply is one or has no address. -/
def Answered (r : Reply) (q : Query) (d d' : Dns) : Prop :=
  r.id ∉ d'.queryList ∧ ∃ made, d'.calls = d.calls ++ made ∧
    made.map calledClient = q.http ++ q.https ∧
    ((r.flags &&& 0x000F ≠ 0 ∨ ∀ x ∈ r.records, x.type ≠ 0x001c) → made = callEach q .dnsError)

/-- A reply with a record is settled by its header, or by records of which none
before the first address is empty. -/
def Settling (r : Reply) : Prop :=
  r.records ≠ [] ∧ (r.flags &&& 0xFA0F ≠ 0x8000 ∨ ∀ x ∈ preceding r.records, x.data ≠ [])

theorem no_error_code {flags : ℕ} (plain : flags &&& 0xFA0F = 0x8000) : flags &&& 0x000F = 0 := by
  have masked : flags &&& 0x000F = (flags &&& 0xFA0F) &&& 0x000F := by
    rw [Nat.and_assoc]
    rfl
  rw [masked, plain]
  rfl

section answering

variable {r : Reply} {buffer : Memory} {size : ℕ} {d : Dns} {q : Query}

theorem Reply.outcome_isSome (r : Reply) {pos : ℕ} (holds : Holds buffer pos r.answers)
    (inside : pos + r.answers.length ≤ size) :
    let o := outcome buffer size ⟨r.id, r.flags, r.records.length, pos⟩
    (o.isSome ↔ r.flags &&& 0xFA0F ≠ 0x8000 ∨ ∀ x ∈ preceding r.records, x.data ≠ []) ∧
    ((r.flags &&& 0x000F ≠ 0 ∨ ∀ x ∈ r.records, x.type ≠ 0x001c) → ∀ answer ∈ o,
      ∀ q d, answerCalls answer q d = callEach q .dnsError) := by
  obtain ⟨ends, unanswered⟩ := answersOutcome_records r.records holds inside
  simp only [outcome]
  by_cases plain : r.flags &&& 0xFA0F = 0x8000
  · have none : r.flags &&& 0x000F = 0 := no_error_code plain
    rw [if_neg (by omega), if_neg (by simp [plain])]
    refine ⟨by simp [ends, plain], fun error answer decided q d => ?_⟩
    have absent := error.resolve_left (by simp [none])
    rw [unanswered absent answer decided]
    rfl
  · split
    · refine ⟨by simp [plain], fun _ answer decided q d => ?_⟩
      rw [← Option.some_inj.mp decided]
      rfl
    · refine ⟨by simp [plain], fun _ answer decided q d => ?_⟩
      rw [← Option.some_inj.mp decided]
      rfl

theorem Reply.settled_eq (holds : Holds buffer 0 r.bytes) (whole : r.bytes.length = size)
    (found : d.queryList.lookup r.id = some q) (waiting : q.http ++ q.https ≠ []) :
    ((settled buffer size d).isSome ↔ Settling r) ∧
    ∀ id q' o, settled buffer size d = some (id, q', o) → id = r.id ∧ q' = q ∧
      ((r.flags &&& 0x000F ≠ 0 ∨ ∀ x ∈ r.records, x.type ≠ 0x001c) →
        ∀ d, answerCalls o q d = callEach q .dnsError) := by
  obtain ⟨pos, answers, inside, parsed⟩ := Reply.parsed holds whole
  have busy : (q.http.isEmpty && q.https.isEmpty) = false := by
    rw [Bool.and_eq_false_iff]
    by_contra none
    simp only [not_or, Bool.not_eq_false, List.isEmpty_iff] at none
    exact waiting (by rw [none.1, none.2]; rfl)
  by_cases empty : r.records = []
  · have dropped : settled buffer size d = none := by simp [settled, parsed, empty]
    simp [dropped, Settling, empty]
  · obtain ⟨some, errors⟩ := r.outcome_isSome answers inside
    have decided : settled buffer size d =
        (outcome buffer size ⟨r.id, r.flags, r.records.length, pos⟩).map (r.id, q, ·) := by
      simp [settled, parsed, empty, found, busy]
    rw [decided]
    refine ⟨by rw [Option.isSome_map, some, Settling]; simp [empty], fun id q' o mapped => ?_⟩
    obtain ⟨answer, chosen, same⟩ := Option.map_eq_some_iff.mp mapped
    cases same
    exact ⟨rfl, rfl, fun error d => errors error o chosen q d⟩

/-- A well-formed reply to a query with waiting clients settles it, with one
callback to each, exactly when it has a record, and its header or its records
up to the first address let the parser come to a result. -/
theorem reply_settles_query_iff (r : Reply) (buffer : Memory) (time : Readings) (d : Dns) (q : Query)
    (holds : Holds buffer 0 r.bytes) (found : d.queryList.lookup r.id = some q)
    (waiting : q.http ++ q.https ≠ []) :
    (∃ d', parseEvent true buffer r.bytes.length time d = .ok d' ∧ Answered r q d d') ↔
      r.records ≠ [] ∧
        (r.flags &&& 0xFA0F ≠ 0x8000 ∨ ∀ x ∈ preceding r.records, x.data ≠ []) := by
  obtain ⟨pos, answers, inside, parsed⟩ := Reply.parsed holds rfl
  obtain ⟨settling, which⟩ := Reply.settled_eq holds rfl found waiting
  rw [parseEvent_server time d parsed]
  change _ ↔ Settling r
  rw [← settling]
  cases decided : settled buffer r.bytes.length d with
  | none =>
    simp only [concludeSettled, Option.isSome_none, Bool.false_eq_true, iff_false]
    rintro ⟨d', same, gone, -⟩
    cases same
    exact gone (by rw [← AList.lookup_isSome]; simp [uncount, found])
  | some answer =>
    obtain ⟨id, q', o⟩ := answer
    obtain ⟨rfl, rfl, errors⟩ := which id q' o decided
    obtain ⟨d', concluded, c⟩ := conclude_ok o (time 0) r.id (d := uncount d) found
    simp only [Option.isSome_some, iff_true]
    refine ⟨d', concluded, ?_, answerCalls o q' (uncount d), c.calls, answerCalls_clients .., ?_⟩
    · rw [c.queryList]
      exact fun member => (AList.mem_erase.mp member).1 rfl
    · exact fun error => errors error (uncount d)

end answering

def received (bytes : Bytes) : Memory := fun i => bytes.getD i 0

theorem holds_received (bytes : Bytes) : Holds (received bytes) 0 bytes := by
  apply holds_getElem
  intro i inside
  simp [received, inside]

def waiting : Dns := (Dns.get 7 [97] false (fun _ => 100) .initial).1

def waitingQuery : Query := ⟨[97], [7], [], 0, 105, encodeQuery 1 [97]⟩

def replyTo (flags : ℕ) (response : 0x8000 ≤ flags ∧ flags < 65536) (records : List Record)
    (few : records.length < 65536) : Reply where
  id := 1
  flags := flags
  labels := [[97]]
  records := records
  authorities := 0
  additionals := 0
  tail := []
  numbered := by decide
  response := response
  labelled := by decide
  named := by decide
  counted := few

def addressRecord : Record where
  pointer := 0xC00C
  type := 0x001c
  classIn := 0x0001
  ttl := 300
  data := insideAddress.s6_addr
  compressed := by decide
  typed := by decide
  classed := by decide
  timed := by decide
  sized := by decide
  address := by decide

theorem address_reply_settles_query :
    let r := replyTo 0x8180 (by decide) [addressRecord] (by decide)
    ∃ d', parseEvent true (received r.bytes) r.bytes.length (fun _ => 101) waiting = .ok d' ∧
      Answered r waitingQuery waiting d' := by
  intro r
  refine (reply_settles_query_iff r (received r.bytes) (fun _ => 101) waiting waitingQuery
    (holds_received _) rfl (by decide)).mpr ⟨List.cons_ne_nil _ _, .inr ?_⟩
  intro x member
  have none : preceding r.records = [] := by simp [r, replyTo, preceding, addressRecord]
  rw [none] at member
  cases member

/-- A reply that the name does not exist leaves the query waiting. -/
theorem nonexistent_name_settles_nothing :
    let r := replyTo 0x8183 (by decide) [] (by decide)
    Reach Dns.Step anyStep (· = Dns.initial) waiting ∧
    waiting.queryList.lookup r.id = some waitingQuery ∧ waitingQuery.http = [7] ∧
    ∀ d', parseEvent true (received r.bytes) r.bytes.length (fun _ => 101) waiting = .ok d' →
      r.id ∈ d'.queryList ∧ d'.calls = waiting.calls := by
  refine ⟨.next (e := .get 7 [97] false fun _ => 100) (.start rfl) trivial rfl, rfl, rfl, ?_⟩
  intro d' done
  have left : uncount waiting = d' := Except.ok.inj done
  rw [← left]
  exact ⟨by decide, rfl⟩

end FastCgiCdn.DnsReplies
