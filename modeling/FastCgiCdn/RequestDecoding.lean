import FastCgiCdn.RecordCuts
import Mathlib.Data.List.Induction

/-! What a request that is read as a whole leaves in a client: the fields of the last
parameters of their names. A parameter is a pair of any bytes. -/

namespace FastCgiCdn.RequestDecoding

open ClientModel FastCgiRecords HttpModel RecordCuts RecordEncoding

section Last

variable {α β : Type*} {p : α × β} {ps : List (α × β)}

def lastValue (kind : α × β → Bool) (ps : List (α × β)) : Option β :=
  (ps.filter kind).getLast?.map Prod.snd

theorem lastValue_append (kind : α × β → Bool) :
    lastValue kind (ps ++ [p]) = if kind p then some p.2 else lastValue kind ps := by
  unfold lastValue
  rw [List.filter_append]
  by_cases found : kind p = true
  · rw [List.filter_singleton, if_pos found]
    simp [found]
  · simp [found]

end Last

abbrev Param := Bytes × Bytes

def pairOf (p : Param) : Pair := ⟨p.1, p.2, false, false⟩

def named (name : String) (p : Param) : Bool := p.1 = ascii name

def namesTag (p : Param) : Bool := named "HTTP_IF_NONE_MATCH" p && p.2.length = 8

/-- What a list of parameters asks for. -/
def requested (ps : List Param) : Request where
  https := decide ((ascii "REQUEST_SCHEME", ascii "https") ∈ ps)
  host := (lastValue (named "HTTP_HOST") ps).getD []
  uri := (lastValue (named "REQUEST_URI") ps).getD []
  ifNoneMatch := (lastValue namesTag ps).getD []

theorem requested_append (ps : List Param) (p : Param) :
    requested (ps ++ [p]) = (pairOf p).take (requested ps) := by
  obtain ⟨name, value⟩ := p
  have host_uri : ascii "HTTP_HOST" ≠ ascii "REQUEST_URI" := by decide
  have host_scheme : ascii "HTTP_HOST" ≠ ascii "REQUEST_SCHEME" := by decide
  have host_tag : ascii "HTTP_HOST" ≠ ascii "HTTP_IF_NONE_MATCH" := by decide
  have uri_scheme : ascii "REQUEST_URI" ≠ ascii "REQUEST_SCHEME" := by decide
  have uri_tag : ascii "REQUEST_URI" ≠ ascii "HTTP_IF_NONE_MATCH" := by decide
  have scheme_tag : ascii "REQUEST_SCHEME" ≠ ascii "HTTP_IF_NONE_MATCH" := by decide
  unfold requested Pair.take pairOf
  dsimp only
  by_cases host : name = ascii "HTTP_HOST"
  · subst host
    simp [lastValue_append, named, namesTag, host_uri, host_scheme.symm, host_tag]
  by_cases uri : name = ascii "REQUEST_URI"
  · subst uri
    simp [lastValue_append, named, namesTag, host, uri_scheme.symm, uri_tag]
  by_cases scheme : name = ascii "REQUEST_SCHEME" ∧ value = ascii "https"
  · obtain ⟨rfl, rfl⟩ := scheme
    simp [lastValue_append, named, namesTag, host, uri, scheme_tag]
  have insecure : ¬(ascii "REQUEST_SCHEME" = name ∧ ascii "https" = value) :=
    fun same => scheme ⟨same.1.symm, same.2.symm⟩
  by_cases tag : name = ascii "HTTP_IF_NONE_MATCH" ∧ value.length = 8
  · obtain ⟨rfl, eight⟩ := tag
    simp [lastValue_append, named, namesTag, host, uri, scheme_tag.symm, scheme_tag, eight]
  · simp [lastValue_append, named, namesTag, host, uri, scheme, insecure, tag]

theorem takeAll_eq (ps : List Param) : takeAll (ps.map pairOf) nothing = requested ps := by
  induction ps using List.reverseRecOn with
  | nil => rfl
  | append_singleton ps p ih =>
    rw [takeAll, List.map_append, List.foldl_append, requested_append, ← ih]
    rfl

/-- The records of a request with these parameters, none of which crosses a record. -/
def Carries (ps : List Param) (rs : List Record) : Prop :=
  ∃ first params empty stdin, rs = first :: (params ++ [empty, stdin]) ∧ first.part.kind = 1 ∧
    (∀ r ∈ params, r.part.kind = 4) ∧ empty.part = .params [] ∧ stdin.IsStdin ∧
    pairsOf params = ps.map pairOf

theorem Carries.isRequest {ps : List Param} {rs : List Record} (carries : Carries ps rs) :
    IsRequest rs := by
  obtain ⟨first, params, empty, stdin, rfl, begins, fourth, bare, fifth, -⟩ := carries
  refine ⟨first, params ++ [empty], [stdin], by simp, begins, fun r member => ?_, fun r member => ?_,
    List.cons_ne_nil _ _⟩
  · rcases List.mem_append.mp member with param | last
    · exact fourth r param
    · rw [List.mem_singleton.mp last, bare]
      rfl
  · rw [List.mem_singleton.mp member]
    exact fifth

theorem Carries.pairs {ps : List Param} {rs : List Record} (carries : Carries ps rs) :
    pairsOf rs = ps.map pairOf := by
  obtain ⟨first, params, empty, stdin, rfl, begins, -, bare, fifth, carried⟩ := carries
  have none_first : first.part.pairs = [] := by
    cases part : first.part with
    | begin body => rfl
    | stdin data => rfl
    | params pairs =>
      rw [part] at begins
      cases begins
  have none_last : stdin.part.pairs = [] := by
    cases part : stdin.part with
    | begin body => rfl
    | stdin data => rfl
    | params pairs =>
      unfold Record.IsStdin at fifth
      rw [part] at fifth
      cases fifth
  rw [← carried, pairsOf, List.flatMap_cons, List.flatMap_append, List.flatMap_cons, none_first,
    List.flatMap_singleton, none_last, bare]
  exact (List.nil_append _).trans (List.append_nil _)

/-- A request that is read as a whole is parsed to its id and its parameters. -/
theorem decoding_undoes_encoding {id : ℕ} (small : id < 65536) {ps : List Param} {rs : List Record}
    (carries : Carries ps rs) (unmarked : ∀ p ∈ ps, p.1 ≠ ascii "EPNOERFT") (stale : Buffer) :
    ∃ s, parse .new ⟨bytesOf id rs, stale⟩ = some (.parsed s) ∧ s.client.fullyParsed = true ∧
      s.client.fastcgiid = some id ∧ asked s = requested ps := by
  have request := carries.isRequest
  obtain ⟨filled, body⟩ := request_body request
  have ready : Ready id .new rs := ready_new request
  have clean : ¬∃ r ∈ rs, r.Marked := by
    rintro ⟨r, member, pair, among, marked, -⟩
    have all : pair ∈ pairsOf rs := List.mem_flatMap.mpr ⟨r, member, among⟩
    rw [carries.pairs] at all
    obtain ⟨p, listed, rfl⟩ := List.mem_map.mp all
    exact unmarked p listed marked
  rw [← List.append_nil rs] at ready
  have parsed := parse_whole ready small filled
    (show (⟨bytesOf id rs, stale⟩ : Read).data = bytesOf id rs from rfl)
  rw [if_neg clean] at parsed
  have applied := applyAll_applied (s := start .new) (expected_append.mp ready.expected).1
  refine ⟨_, parsed, applied.fullyParsed.mpr (.inr body), ?_, ?_⟩
  · rcases applied.fastcgiid with numbered | ⟨empty, -⟩
    · exact numbered
    · exact absurd empty filled
  · rw [applied.asked, carries.pairs]
    exact takeAll_eq ps

theorem pageRequest_carries : Carries
    [(ascii "HTTP_HOST", ascii "x"), (ascii "REQUEST_URI", ascii "/a.com/x")] pageRequest := by
  refine ⟨_, [bare _ pagePairs_sized], _, _, rfl, rfl, fun r member => ?_, rfl, rfl, rfl⟩
  rw [List.mem_singleton.mp member]
  rfl

theorem page_request_decoded : ∃ s, parse .new ⟨bytesOf 7 pageRequest, fun _ => 0⟩ =
    some (.parsed s) ∧ s.client.fullyParsed = true ∧ s.client.fastcgiid = some 7 ∧
    asked s = ⟨false, ascii "x", ascii "/a.com/x", []⟩ :=
  decoding_undoes_encoding (by decide) pageRequest_carries (by decide) _

end FastCgiCdn.RequestDecoding
