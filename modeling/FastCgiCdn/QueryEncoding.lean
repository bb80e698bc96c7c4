import FastCgiCdn.DnsReplies
import FastCgiCdn.HeadReading

/-! The datagram of a query as `Dns::get` writes it into its buffer, label by label, and
as a server reads it. A reply that echoes the question is passed to its type field. -/

namespace FastCgiCdn.QueryEncoding

open DnsModel Dns DnsReplies MeasuredLoop HeldValues

section Writing

structure Writing where
  buffer : Memory
  pos : ℕ

def store (buffer : Memory) (pos : ℕ) : Bytes → Memory
  | [] => buffer
  | b :: bytes => store (Function.update buffer pos b) (pos + 1) bytes

def Writing.put (w : Writing) (bytes : Bytes) : Writing :=
  ⟨store w.buffer w.pos bytes, w.pos + bytes.length⟩

variable {buffer : Memory} {pos i : ℕ}

theorem store_append (bytes more : Bytes) :
    store buffer pos (bytes ++ more) = store (store buffer pos bytes) (pos + bytes.length) more := by
  induction bytes generalizing buffer pos with
  | nil => rfl
  | cons b bytes ih =>
    rw [List.cons_append, store, store, ih, List.length_cons, Nat.add_assoc, Nat.add_comm 1]

theorem put_put (w : Writing) (bytes more : Bytes) : (w.put bytes).put more = w.put (bytes ++ more) := by
  unfold Writing.put
  rw [store_append, List.length_append, Nat.add_assoc]

theorem store_front (bytes : Bytes) (front : i < pos) : store buffer pos bytes i = buffer i := by
  induction bytes generalizing buffer pos with
  | nil => rfl
  | cons b bytes ih =>
    rw [store, ih (Nat.lt_succ_of_lt front), Function.update_of_ne (Nat.ne_of_lt front)]

theorem store_behind (bytes : Bytes) (behind : pos + bytes.length ≤ i) :
    store buffer pos bytes i = buffer i := by
  induction bytes generalizing buffer pos with
  | nil => rfl
  | cons b bytes ih =>
    rw [List.length_cons] at behind
    rw [store, ih (by omega), Function.update_of_ne (by omega)]

theorem store_span (bytes : Bytes) :
    HttpModel.span (store buffer pos bytes) pos (pos + bytes.length) = bytes := by
  induction bytes generalizing buffer pos with
  | nil => exact HeadReading.span_self _ pos
  | cons b bytes ih =>
    have rest := @ih (Function.update buffer pos b) (pos + 1)
    rw [List.length_cons, HeadReading.span_cons _ (by omega), store, store_front _ (Nat.lt_succ_self pos),
      Function.update_self, Nat.add_comm bytes.length, ← Nat.add_assoc, rest]

end Writing

section Host

variable (host : Bytes)

def findDot (start : ℕ) : Option ℕ := ((host.drop start).findIdx? (· = 46)).map (start + ·)

/-- A label with its length, which is cut to a byte. -/
def labelBytes (part : Bytes) : Bytes := UInt8.ofNat part.length :: part

structure Walk where
  writing : Writing
  hostprevpos : ℕ

def hostBody (w : Walk) : Outcome Walk Writing :=
  match findDot host w.hostprevpos with
  | none => .stop (w.writing.put (labelBytes (host.drop w.hostprevpos)))
  | some hostpos => .again
    ⟨w.writing.put (labelBytes ((host.drop w.hostprevpos).take (hostpos - w.hostprevpos))), hostpos + 1⟩

variable {host}

theorem findDot_none {start : ℕ} (none : findDot host start = none) : 46 ∉ host.drop start := by
  intro member
  have wrong := List.findIdx?_eq_none_iff.mp (Option.map_eq_none_iff.mp none) 46 member
  exact absurd wrong (by decide)

theorem findDot_some {start hostpos : ℕ} (found : findDot host start = some hostpos) :
    start ≤ hostpos ∧ hostpos < host.length ∧
      host.drop start = (host.drop start).take (hostpos - start) ++ 46 :: host.drop (hostpos + 1) ∧
      46 ∉ (host.drop start).take (hostpos - start) := by
  obtain ⟨k, index, rfl⟩ := Option.map_eq_some_iff.mp found
  obtain ⟨inside, here, before⟩ := List.findIdx?_eq_some_iff_getElem.mp index
  rw [Nat.add_sub_cancel_left]
  have length := List.length_drop (i := start) (l := host)
  have dot : (host.drop start)[k] = 46 := of_decide_eq_true here
  refine ⟨by omega, by omega, ?_, fun member => ?_⟩
  · have split := List.take_append_drop k (host.drop start)
    rw [List.drop_eq_getElem_cons inside, dot, List.drop_drop] at split
    rw [Nat.add_assoc]
    exact split.symm
  · obtain ⟨j, bound, same⟩ := List.mem_iff_getElem.mp member
    rw [List.length_take] at bound
    rw [List.getElem_take] at same
    exact before j (by omega) (decide_eq_true same)

theorem hostBody_decreases (s t : Walk) (taken : hostBody host s = .again t) :
    host.length - t.hostprevpos < host.length - s.hostprevpos := by
  unfold hostBody at taken
  split at taken
  · cases taken
  · rename_i hostpos found
    obtain ⟨behind, inside, -, -⟩ := findDot_some found
    obtain rfl := Outcome.again.inj taken
    dsimp only
    omega

end Host

def hostLoop (host : Bytes) : Loop Walk Writing where
  body := hostBody host
  measure w := host.length - w.hostprevpos
  decreases := hostBody_decreases

theorem hostLoop_run (host : Bytes) (w : Walk) : (hostLoop host).run w =
    w.writing.put (((host.drop w.hostprevpos).splitOn 46).flatMap labelBytes) := by
  apply (hostLoop host).run_induct (P := fun w r =>
    r = w.writing.put (((host.drop w.hostprevpos).splitOn 46).flatMap labelBytes))
  case stops =>
    intro s r taken
    change hostBody host s = _ at taken
    unfold hostBody at taken
    split at taken
    · rename_i none
      obtain rfl := Outcome.stop.inj taken
      rw [List.splitOn_eq_singleton (findDot_none none), List.flatMap_singleton]
    · cases taken
  case goes =>
    intro s t taken later
    change hostBody host s = _ at taken
    unfold hostBody at taken
    split at taken
    · cases taken
    · rename_i hostpos found
      obtain ⟨-, -, split, plain⟩ := findDot_some found
      obtain rfl := Outcome.again.inj taken
      rw [later, put_put]
      conv_rhs => rw [split, List.splitOn_append_cons_self_of_not_mem plain, List.flatMap_cons]

/-- The id, which stands as the machine stores it, the flags and the four counts. -/
def queryHeader (id : ℕ) : Bytes :=
  [UInt8.ofNat id, UInt8.ofNat (id / 256), 0x01, 0x20, 0, 1, 0, 0, 0, 0, 0, 0]

def writeQuery (id : ℕ) (host : Bytes) (buffer : Memory) : Writing :=
  ((((((hostLoop host).run ⟨(⟨buffer, 0⟩ : Writing).put (queryHeader id), 0⟩).put [0x00]).put [0x00]).put
    [0x1c]).put [0x00]).put [0x01]

def datagram (id : ℕ) (host : Bytes) (buffer : Memory) : Bytes :=
  HttpModel.span (writeQuery id host buffer).buffer 0 (writeQuery id host buffer).pos

theorem writeQuery_eq (id : ℕ) (host : Bytes) (buffer : Memory) :
    writeQuery id host buffer = (⟨buffer, 0⟩ : Writing).put (encodeQuery id host) := by
  unfold writeQuery
  rw [hostLoop_run, put_put, put_put, put_put, put_put, put_put, put_put]
  congr 1
  unfold encodeQuery encodeHost queryHeader labelBytes
  simp only [List.append_assoc, List.drop_zero]
  rfl

theorem datagram_eq (id : ℕ) (host : Bytes) (buffer : Memory) :
    datagram id host buffer = encodeQuery id host := by
  have held := @store_span buffer 0 (encodeQuery id host)
  unfold datagram
  rw [writeQuery_eq]
  exact held

section Reading

structure Message where
  id : ℕ
  flags : ℕ
  questions : ℕ
  answers : ℕ
  authorities : ℕ
  additionals : ℕ
  labels : List Bytes
  type : ℕ
  classIn : ℕ
  deriving DecidableEq

def readName : ℕ → Bytes → Option (List Bytes × Bytes)
  | 0, _ => none
  | _ + 1, [] => none
  | rounds + 1, len :: rest =>
    if len = 0 then some ([], rest)
    else if 63 < len.toNat ∨ rest.length < len.toNat then none
    else (readName rounds (rest.drop len.toNat)).map fun (labels, behind) =>
      (rest.take len.toNat :: labels, behind)

def readBig (high low : UInt8) : ℕ := 256 * high.toNat + low.toNat

def readQuery : Bytes → Option Message
  | i₀ :: i₁ :: f₀ :: f₁ :: q₀ :: q₁ :: a₀ :: a₁ :: u₀ :: u₁ :: d₀ :: d₁ :: rest =>
    (readName rest.length rest).bind fun (labels, question) =>
      match question with
      | [t₀, t₁, c₀, c₁] => some ⟨readBig i₁ i₀, readBig f₀ f₁, readBig q₀ q₁, readBig a₀ a₁,
          readBig u₀ u₁, readBig d₀ d₁, labels, readBig t₀ t₁, readBig c₀ c₁⟩
      | _ => none
  | _ => none

theorem nameBytes_cons (label : Bytes) (labels : List Bytes) :
    nameBytes (label :: labels) = UInt8.ofNat label.length :: (label ++ nameBytes labels) := by
  unfold nameBytes
  rw [List.flatMap_cons, List.append_assoc]
  rfl

theorem readName_labels {labels : List Bytes}
    (labelled : ∀ label ∈ labels, 0 < label.length ∧ label.length ≤ 63) (behind : Bytes) (rounds : ℕ)
    (enough : labels.length < rounds) :
    readName rounds (nameBytes labels ++ behind) = some (labels, behind) := by
  induction labels generalizing rounds with
  | nil =>
    obtain ⟨rounds, rfl⟩ := Nat.exists_eq_succ_of_ne_zero (Nat.ne_of_gt enough)
    rfl
  | cons label labels ih =>
    rw [List.length_cons] at enough
    obtain ⟨rounds, rfl⟩ := Nat.exists_eq_succ_of_ne_zero (by omega : rounds ≠ 0)
    have bounds := labelled label List.mem_cons_self
    have value : (UInt8.ofNat label.length).toNat = label.length := by
      rw [UInt8.toNat_ofNat']
      omega
    have nonzero : UInt8.ofNat label.length ≠ 0 := by
      intro zero
      rw [zero] at value
      change 0 = label.length at value
      omega
    have rest := ih (fun l member => labelled l (List.mem_cons_of_mem _ member)) rounds (by omega)
    rw [nameBytes_cons, List.cons_append, readName, if_neg nonzero, value, List.append_assoc,
      List.drop_left, List.take_left, if_neg, rest]
    · rfl
    · rw [List.length_append]
      omega

end Reading

section Length

theorem length_labels {parts : List Bytes} (filled : parts ≠ []) :
    (parts.flatMap labelBytes).length = (([46] : Bytes).intercalate parts).length + 1 := by
  induction parts with
  | nil => exact absurd rfl filled
  | cons part parts ih =>
    cases parts with
    | nil => simp [labelBytes]
    | cons next parts =>
      have rest := ih (List.cons_ne_nil next parts)
      rw [List.flatMap_cons, List.length_append, rest, List.intercalate_cons_cons, List.length_append,
        List.length_append]
      simp only [labelBytes, List.length_cons, List.length_nil]
      omega

theorem length_encodeHost (host : Bytes) : (encodeHost host).length = host.length + 2 := by
  have labels := length_labels (List.splitOn_ne_nil 46 host)
  rw [List.intercalate_splitOn] at labels
  unfold encodeHost
  rw [List.length_append]
  exact congrArg (· + 1) labels

theorem length_encodeQuery (id : ℕ) (host : Bytes) :
    (encodeQuery id host).length = host.length + 18 := by
  unfold encodeQuery
  rw [List.length_append, List.length_append, length_encodeHost]
  simp only [List.length_cons, List.length_nil]
  omega

end Length

theorem encodeHost_labels {labels : List Bytes} (filled : labels ≠ [])
    (plain : ∀ label ∈ labels, 46 ∉ label) :
    encodeHost (([46] : Bytes).intercalate labels) = nameBytes labels := by
  unfold encodeHost nameBytes
  rw [List.splitOn_intercalate 46 plain filled]

/-- The query of a host with labels is read as one question with these labels. -/
theorem encodeQuery_read (id : ℕ) {labels : List Bytes} (filled : labels ≠ [])
    (labelled : ∀ label ∈ labels, 0 < label.length ∧ label.length ≤ 63)
    (plain : ∀ label ∈ labels, 46 ∉ label) :
    readQuery (encodeQuery id (([46] : Bytes).intercalate labels)) =
      some ⟨id % 65536, 0x0120, 1, 0, 0, 0, labels, 0x001c, 0x0001⟩ := by
  have root : labels.length < (nameBytes labels).length := labels_lt
  have named := readName_labels labelled [0x00, 0x1c, 0x00, 0x01]
    (nameBytes labels ++ [0x00, 0x1c, 0x00, 0x01]).length (by rw [List.length_append]; omega)
  have number : readBig (UInt8.ofNat (id / 256)) (UInt8.ofNat id) = id % 65536 := by
    unfold readBig
    rw [UInt8.toNat_ofNat', UInt8.toNat_ofNat']
    omega
  unfold encodeQuery
  rw [encodeHost_labels filled plain, List.append_assoc]
  simp only [readQuery, List.cons_append, List.nil_append, named, Option.bind_some, number]
  rfl

/-- A reply that echoes the question is passed to the type of the question. -/
theorem question_skipped {labels : List Bytes}
    (labelled : ∀ label ∈ labels, 0 < label.length ∧ label.length ≤ 63)
    (short : (nameBytes labels).length ≤ 255) {reply : Memory} {size : ℕ}
    (echoed : Holds reply 12 (nameBytes labels ++ [0x00, 0x1c, 0x00, 0x01]))
    (inside : 12 + ((nameBytes labels).length + 4) ≤ size) :
    ∃ offs, skipName reply size 12 256 0 = some offs ∧
      12 + offs + 1 = 12 + (nameBytes labels).length ∧
      Holds reply (12 + offs + 1) [0x00, 0x1c, 0x00, 0x01] := by
  have root : labels.length < (nameBytes labels).length := labels_lt
  obtain ⟨name, fields⟩ := (holds_append reply 12 _ _).mp echoed
  have skipped : skipName reply size 12 256 0 = some (0 + (nameBytes labels).length - 1) :=
    skipName_root labelled name (by omega) (by omega) (by omega)
  have behind : 12 + (0 + (nameBytes labels).length - 1) + 1 = 12 + (nameBytes labels).length := by omega
  refine ⟨_, skipped, behind, ?_⟩
  rw [behind]
  exact fields

/-- The datagram of a query is one question for the addresses of the host, and a reply
that echoes it is passed to the type of the question. -/
theorem query_and_reply_agree (client : ClientId) (https : Bool) (now : ℕ) (d : Dns) (buffer : Memory)
    {labels : List Bytes} (filled : labels ≠ [])
    (labelled : ∀ label ∈ labels, 0 < label.length ∧ label.length ≤ 63)
    (plain : ∀ label ∈ labels, 46 ∉ label)
    (short : (([46] : Bytes).intercalate labels).length ≤ 253) :
    ∃ query, query = datagram d.increment (([46] : Bytes).intercalate labels) buffer ∧
      (sendQuery client (([46] : Bytes).intercalate labels) https now d).sent = d.sent ++ [query] ∧
      readQuery query = some ⟨d.increment % 65536, 0x0120, 1, 0, 0, 0, labels, 0x001c, 0x0001⟩ ∧
      ∀ (reply : Memory) (size : ℕ), Holds reply 12 (query.drop 12) → query.length ≤ size →
        ∃ offs, skipName reply size 12 256 0 = some offs ∧ 12 + offs + 1 + 4 = query.length ∧
          Holds reply (12 + offs + 1) [0x00, 0x1c, 0x00, 0x01] := by
  have length : (nameBytes labels).length = (([46] : Bytes).intercalate labels).length + 2 := by
    rw [← encodeHost_labels filled plain, length_encodeHost]
  refine ⟨_, rfl, ?_, ?_, fun reply size echoed inside => ?_⟩
  · rw [datagram_eq]
    rfl
  · rw [datagram_eq]
    exact encodeQuery_read d.increment filled labelled plain
  · rw [datagram_eq, length_encodeQuery] at inside
    have question : (encodeQuery d.increment (([46] : Bytes).intercalate labels)).drop 12 =
        nameBytes labels ++ [0x00, 0x1c, 0x00, 0x01] := by
      unfold encodeQuery
      rw [encodeHost_labels filled plain, List.append_assoc]
      rfl
    rw [datagram_eq, question] at echoed
    have fits : 12 + ((nameBytes labels).length + 4) ≤ size := by omega
    obtain ⟨offs, skipped, type, fields⟩ := question_skipped labelled (by omega) echoed fits
    rw [datagram_eq, length_encodeQuery]
    exact ⟨offs, skipped, by omega, fields⟩

theorem query_of_two_labels : ∃ query, query = datagram 1 (ascii "cdn.org") (fun _ => 0) ∧
    (sendQuery 7 (ascii "cdn.org") false 100 .initial).sent = [] ++ [query] ∧
    readQuery query = some ⟨1, 0x0120, 1, 0, 0, 0, [ascii "cdn", ascii "org"], 0x001c, 0x0001⟩ ∧
    ∀ (reply : Memory) (size : ℕ), Holds reply 12 (query.drop 12) → query.length ≤ size →
      ∃ offs, skipName reply size 12 256 0 = some offs ∧ 12 + offs + 1 + 4 = query.length ∧
        Holds reply (12 + offs + 1) [0x00, 0x1c, 0x00, 0x01] :=
  @query_and_reply_agree 7 false 100 .initial (fun _ => 0) [ascii "cdn", ascii "org"]
    (by decide) (by decide) (by decide) (by decide)

end FastCgiCdn.QueryEncoding
