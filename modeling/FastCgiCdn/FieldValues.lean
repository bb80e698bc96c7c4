import FastCgiCdn.HeadCuts
import FastCgiCdn.Numerals

/-! The values of the three header fields that the parser knows. A legal field
has blanks of its own choice in front of its value and behind it; the parser
passes over exactly one byte behind the colon and takes the rest of the line. -/

namespace FastCgiCdn.FieldValues

open Common HeadCuts HeadReading HttpModel MeasuredLoop Numerals

def etagName : Bytes := ascii "etag"
def lengthName : Bytes := ascii "content-length"
def typeName : Bytes := ascii "content-type"

def isBlank (c : Byte) : Prop := c = 32 ∨ c = 9

structure Spaced where
  name : Bytes
  before : Bytes
  value : Bytes
  after : Bytes
  name_clean : ∀ c ∈ name, c ≠ 58 ∧ c ≠ CR ∧ c ≠ LF
  before_blank : ∀ c ∈ before, isBlank c
  after_blank : ∀ c ∈ after, isBlank c
  value_clean : ∀ c ∈ value, c ≠ CR ∧ c ≠ LF
  /-- The value does not begin with a blank. -/
  front : ∀ c ∈ value.head?, ¬isBlank c
  /-- Nor does it end with one. -/
  back : ∀ c ∈ value.getLast?, ¬isBlank c
  empty : value = [] → after = []

theorem isBlank_plain {c : Byte} (blank : isBlank c) : (c ≠ CR ∧ c ≠ LF) ∧ isSpace c = true := by
  rcases blank with rfl | rfl
  · decide
  · decide

theorem isBlank_not_digit {c : Byte} (blank : isBlank c) : hexToDecUnit c = none := by
  rcases blank with rfl | rfl
  · decide
  · decide

namespace Spaced

variable (f : Spaced)

def field : Field where
  name := f.name
  rest := f.before ++ f.value ++ f.after
  name_clean := f.name_clean
  rest_clean c member := by
    rcases List.mem_append.mp member with front | back
    · rcases List.mem_append.mp front with blank | inner
      · exact (isBlank_plain (f.before_blank c blank)).1
      · exact f.value_clean c inner
    · exact (isBlank_plain (f.after_blank c back)).1

def isNamed (word : Bytes) : Bool := f.name.map tolower = word

/-- Exactly one blank in front of the value and none behind it, or nothing at
all behind the colon. -/
def Snug : Prop := (f.before.length = 1 ∧ f.after = []) ∨ (f.before = [] ∧ f.value = [])

/-- The byte that is passed over is a blank in front of the value, or a zero that
does not matter. -/
def Sized : Prop :=
  numeral 10 f.value < 2 ^ 63 ∧ (f.before ≠ [] ∨ ∃ ds, f.value = 48 :: ds ∧ ds ≠ [])

/-- What the parser stores of the value. -/
def stored : Bytes := f.field.rest.drop 1

theorem stored_eq_iff : f.stored = f.value ↔ f.Snug := by
  change (f.before ++ f.value ++ f.after).drop 1 = f.value ↔ _
  constructor
  · intro same
    have length := congrArg List.length same
    simp only [List.length_drop, List.length_append] at length
    cases before : f.before with
    | cons b bs =>
      rw [before, List.length_cons] at length
      have one : bs = [] := List.eq_nil_of_length_eq_zero (by omega)
      have nothing : f.after = [] := List.eq_nil_of_length_eq_zero (by omega)
      exact .inl ⟨by rw [before, one]; rfl, nothing⟩
    | nil =>
      rw [before, List.length_nil] at length
      rcases value : f.value with _ | ⟨c, cs⟩
      · exact .inr ⟨before, value⟩
      · -- A value moved by one byte would begin as it ends.
        rw [value, List.length_cons] at length
        have one : f.after.length = 1 := by omega
        obtain ⟨d, after⟩ := List.length_eq_one_iff.mp one
        rw [before, value, after, List.nil_append, List.cons_append, List.drop_succ_cons,
          List.drop_zero] at same
        have last : (c :: cs).getLast? = some d := by
          rw [← same]
          exact List.getLast?_concat ..
        exact absurd (f.after_blank d (by rw [after]; exact List.mem_singleton_self d))
          (f.back d (by rw [value]; exact last))
  · rintro (⟨one, nothing⟩ | ⟨none_before, none_inside⟩)
    · obtain ⟨b, before⟩ := List.length_eq_one_iff.mp one
      rw [before, nothing, List.append_nil]
      rfl
    · rw [none_before, none_inside, f.empty none_inside]
      rfl

def size (env : Surroundings) : ℤ := toInt64 ((streamToUInt64 f.stored).getD env.uninitialised)

theorem stop_after : ∀ c ∈ f.after.head?, hexToDecUnit c = none := fun c member =>
  isBlank_not_digit (f.after_blank c (List.mem_of_mem_head? member))

theorem size_of_blank (env : Surroundings) (digits : ∀ c ∈ f.value, 48 ≤ c ∧ c ≤ 57)
    (some_digits : f.value ≠ []) (blank : f.before ≠ []) :
    f.size env = toInt64 (toUInt64 false (numeral 10 f.value)) := by
  obtain ⟨b, bs, before⟩ := List.exists_cons_of_ne_nil blank
  have space : ∀ c ∈ bs, isSpace c = true := fun c member =>
    (isBlank_plain (f.before_blank c (by rw [before]; exact List.mem_cons_of_mem b member))).2
  unfold size stored field
  simp only
  rw [before, List.cons_append, List.cons_append, List.drop_succ_cons, List.drop_zero,
    stream_digits f.after space some_digits digits f.stop_after, Option.getD_some]

theorem size_of_one (env : Surroundings) {d : Byte} (before : f.before = []) (value : f.value = [d]) :
    f.size env = toInt64 env.uninitialised := by
  have space : ∀ c ∈ f.after, isSpace c = true := fun c member =>
    (isBlank_plain (f.after_blank c member)).2
  unfold size stored field
  simp only
  rw [before, value, List.nil_append, List.cons_append, List.drop_succ_cons, List.drop_zero,
    List.nil_append, stream_blank space]
  rfl

theorem size_of_more (env : Surroundings) {d : Byte} {ds : Bytes}
    (digits : ∀ c ∈ f.value, 48 ≤ c ∧ c ≤ 57) (before : f.before = []) (value : f.value = d :: ds)
    (more : ds ≠ []) : f.size env = toInt64 (toUInt64 false (numeral 10 ds)) := by
  have none_before : ∀ c ∈ ([] : Bytes), isSpace c = true := by simp
  have rest := stream_digits f.after none_before more
    (fun c member => digits c (by rw [value]; exact List.mem_cons_of_mem d member)) f.stop_after
  rw [List.nil_append] at rest
  unfold size stored field
  simp only
  rw [before, value, List.nil_append, List.cons_append, List.drop_succ_cons, List.drop_zero, rest,
    Option.getD_some]

theorem size_read (digits : ∀ c ∈ f.value, 48 ≤ c ∧ c ≤ 57) (some_digits : f.value ≠ []) :
    (∀ env, f.size env = (numeral 10 f.value : ℤ)) ↔ f.Sized := by
  unfold Sized
  by_cases blank : f.before ≠ []
  · simp only [f.size_of_blank _ digits some_digits blank, toInt64_read, blank, true_and, true_or,
      and_true, ne_eq, not_false_eq_true]
    exact ⟨fun all => all roomy, fun small _ => small⟩
  · have before : f.before = [] := not_not.mp blank
    obtain ⟨d, ds, value⟩ := List.exists_cons_of_ne_nil some_digits
    by_cases alone : ds = []
    · rw [alone] at value
      simp only [f.size_of_one _ before value]
      constructor
      · intro all
        have negative : toInt64 (2 ^ 63) = _ := all { roomy with uninitialised := 2 ^ 63 }
        rw [show toInt64 (2 ^ 63) = -2 ^ 63 by decide] at negative
        omega
      · rintro ⟨-, wrong | ⟨ds', same, some_left⟩⟩
        · exact absurd before wrong
        · rw [value] at same
          exact absurd (List.cons.inj same).2.symm some_left
    · simp only [f.size_of_more _ digits before value alone]
      rw [value] at digits ⊢
      simp only [toInt64_read]
      have power : 0 < 10 ^ ds.length := Nat.pow_pos (by decide)
      have whole := numeral_cons 10 d ds
      have first := digits d (List.mem_cons_self ..)
      rw [(isDigit_ten first).1, Option.getD_some] at whole
      have low : 48 ≤ d.toNat := first.1
      constructor
      · intro all
        obtain ⟨same, small⟩ := all roomy
        have product : (d.toNat - 48) * 10 ^ ds.length = 0 := by omega
        have zero : d.toNat = 48 := by
          rcases Nat.mul_eq_zero.mp product with zero | zero
          · omega
          · omega
        exact ⟨small, .inr ⟨ds, by rw [← UInt8.toNat_inj.mp (show d.toNat = (48 : Byte).toNat from zero)],
          alone⟩⟩
      · rintro ⟨small, wrong | ⟨ds', same, -⟩⟩
        · exact absurd before wrong
        · obtain ⟨rfl, -⟩ := List.cons.inj same
          exact fun _ => ⟨by rw [whole]; simp, small⟩

end Spaced

/-- A head with the code 200 and legal fields, none of the three known names
twice. -/
structure SpacedHead where
  version : Bytes
  reason : Bytes
  fields : List Spaced
  version_clean : ∀ c ∈ version, c ≠ 32 ∧ c ≠ LF
  reason_clean : ∀ c ∈ reason, c ≠ CR ∧ c ≠ LF
  once : ∀ word ∈ [etagName, lengthName, typeName],
    fields.Pairwise fun f g => ¬(f.isNamed word ∧ g.isNamed word)
  sized : ∀ f ∈ fields, f.isNamed lengthName → f.value ≠ [] ∧ ∀ c ∈ f.value, 48 ≤ c ∧ c ≤ 57

namespace SpacedHead

def parsed (head : SpacedHead) : Head where
  version := head.version
  code := ascii "200"
  reason := head.reason
  fields := head.fields.map Spaced.field
  version_clean := head.version_clean
  code_digits := ok_digits
  reason_clean := head.reason_clean

def field? (head : SpacedHead) (word : Bytes) : Option Spaced := head.fields.find? (·.isNamed word)

end SpacedHead

section Fold

variable (env : Surroundings) {word : Bytes} {α : Type*} (get : Http → α) (value : Spaced → α)

theorem foldl_unnamed
    (other : ∀ h (f : Spaced), f.isNamed word = false → get (takeField env h f.field) = get h)
    (fields : List Spaced) (h : Http) (unnamed : ∀ f ∈ fields, f.isNamed word = false) :
    get ((fields.map Spaced.field).foldl (takeField env) h) = get h := by
  induction fields generalizing h with
  | nil => rfl
  | cons f fields ih =>
    rw [List.map_cons, List.foldl_cons, ih _ fun g member => unnamed g (List.mem_cons_of_mem f member)]
    exact other h f (unnamed f (List.mem_cons_self ..))

theorem foldl_named
    (own : ∀ h (f : Spaced), f.isNamed word = true → get (takeField env h f.field) = value f)
    (other : ∀ h (f : Spaced), f.isNamed word = false → get (takeField env h f.field) = get h)
    (fields : List Spaced) (h : Http)
    (once : fields.Pairwise fun f g => ¬(f.isNamed word ∧ g.isNamed word)) :
    get ((fields.map Spaced.field).foldl (takeField env) h) =
      ((fields.find? (·.isNamed word)).map value).getD (get h) := by
  induction fields generalizing h with
  | nil => rfl
  | cons f fields ih =>
    obtain ⟨apart, later⟩ := List.pairwise_cons.mp once
    rw [List.map_cons, List.foldl_cons]
    cases named : f.isNamed word with
    | true =>
      have unnamed : ∀ g ∈ fields, g.isNamed word = false := by
        intro g member
        simpa [named] using apart g member
      rw [foldl_unnamed env get other fields _ unnamed, show (f :: fields).find? (·.isNamed word) = some f from List.find?_cons_of_pos named]
      exact own h f named
    | false =>
      rw [ih _ later, other h f named, show (f :: fields).find? (·.isNamed word) =
        fields.find? (·.isNamed word) from List.find?_cons_of_neg (by simp [named])]

end Fold

section Known

variable (env : Surroundings) (h : Http) (f : Spaced)

theorem fieldParsing_size : Http.fieldParsing f.name = .contentLength ↔ f.isNamed lengthName := by
  have apart : lengthName ≠ ascii "etag" := by decide
  simp only [Http.fieldParsing, Spaced.isNamed, decide_eq_true_eq]
  split
  · rename_i other
    simpa [other] using apart.symm
  · split
    · simpa [lengthName] using ‹_›
    · rename_i other
      split <;> simpa [lengthName] using other

theorem fieldParsing_type : Http.fieldParsing f.name = .contentType ↔ f.isNamed typeName := by
  have apart : typeName ≠ ascii "etag" ∧ typeName ≠ ascii "content-length" := by decide
  simp only [Http.fieldParsing, Spaced.isNamed, decide_eq_true_eq]
  split
  · rename_i other
    simpa [other] using apart.1.symm
  · split
    · rename_i other
      simpa [other] using apart.2.symm
    · split
      · simpa [typeName] using ‹_›
      · rename_i other
        simpa [typeName] using other

theorem fieldParsing_etag : Http.fieldParsing f.name = .etag ↔ f.isNamed etagName := by
  simp only [Http.fieldParsing, Spaced.isNamed, decide_eq_true_eq]
  split
  · simpa [etagName] using ‹_›
  · rename_i other
    split
    · simpa [etagName] using other
    · split <;> simpa [etagName] using other

theorem takeField_size : (takeField env h f.field).contentsize =
    if f.isNamed lengthName then f.size env else h.contentsize := by
  rw [← if_congr (fieldParsing_size f) rfl rfl]
  change (Http.takeValue env f.stored { h with parsing := Http.fieldParsing f.name }).contentsize = _
  generalize Http.fieldParsing f.name = parsing
  cases parsing <;> rfl

theorem takeField_type : (takeField env h f.field).contenttype =
    if f.isNamed typeName then f.stored else h.contenttype := by
  rw [← if_congr (fieldParsing_type f) rfl rfl]
  change (Http.takeValue env f.stored { h with parsing := Http.fieldParsing f.name }).contenttype = _
  generalize Http.fieldParsing f.name = parsing
  cases parsing <;> rfl

theorem takeField_etag : (takeField env h f.field).etagBackend =
    if f.isNamed etagName then f.stored else h.etagBackend := by
  rw [← if_congr (fieldParsing_etag f) rfl rfl]
  change (Http.takeValue env f.stored { h with parsing := Http.fieldParsing f.name }).etagBackend = _
  generalize Http.fieldParsing f.name = parsing
  cases parsing <;> rfl

end Known

section Head

variable (env : Surroundings) (h : Http) (head : SpacedHead)

theorem headed_size : (headed env h head.parsed).contentsize =
    ((head.field? lengthName).map fun f => f.size env).getD h.contentsize :=
  foldl_named env Http.contentsize (fun f => f.size env)
    (fun g f named => by rw [takeField_size, if_pos named])
    (fun g f other => by rw [takeField_size, if_neg (by simp [other])]) head.fields _
    (head.once lengthName (by decide))

theorem headed_type : (headed env h head.parsed).contenttype =
    ((head.field? typeName).map Spaced.stored).getD h.contenttype :=
  foldl_named env Http.contenttype Spaced.stored
    (fun g f named => by rw [takeField_type, if_pos named])
    (fun g f other => by rw [takeField_type, if_neg (by simp [other])]) head.fields _
    (head.once typeName (by decide))

theorem headed_etag : (headed env h head.parsed).etagBackend =
    ((head.field? etagName).map Spaced.stored).getD h.etagBackend :=
  foldl_named env Http.etagBackend Spaced.stored
    (fun g f named => by rw [takeField_etag, if_pos named])
    (fun g f other => by rw [takeField_etag, if_neg (by simp [other])]) head.fields _
    (head.once etagName (by decide))

structure Agrees (h : Http) (head : SpacedHead) : Prop where
  size : h.contentsize = (head.field? lengthName).elim (-1) fun f => (numeral 10 f.value : ℤ)
  type : ∀ f ∈ head.field? typeName, h.contenttype = f.value
  etag : ∀ f ∈ head.field? etagName, h.etagBackend = f.value

structure SpacedHead.Readable (head : SpacedHead) : Prop where
  size : ∀ f ∈ head.field? lengthName, f.Sized
  type : ∀ f ∈ head.field? typeName, f.Snug
  etag : ∀ f ∈ head.field? etagName, f.Snug

theorem size_agrees (unsized : h.contentsize = -1) :
    (∀ env, (headed env h head.parsed).contentsize =
      (head.field? lengthName).elim (-1) fun f => (numeral 10 f.value : ℤ)) ↔
    ∀ f ∈ head.field? lengthName, f.Sized := by
  simp only [headed_size, unsized]
  cases found : head.field? lengthName with
  | none => simp
  | some f =>
    have legal := head.sized f (List.mem_of_find?_eq_some found)
      (List.find?_some (p := (Spaced.isNamed · lengthName)) found)
    simp only [Option.map_some, Option.getD_some, Option.elim_some, Option.mem_some_iff,
      forall_eq']
    exact f.size_read legal.2 legal.1

theorem value_agrees (word old : Bytes) :
    (∀ f ∈ head.field? word, ((head.field? word).map Spaced.stored).getD old = f.value) ↔
      ∀ f ∈ head.field? word, f.Snug := by
  cases head.field? word with
  | none => simp
  | some f =>
    simp only [Option.map_some, Option.getD_some, Option.mem_some_iff, forall_eq']
    exact f.stored_eq_iff

/-- Both loops end over a read, the second one at the empty line with an object:
`openCache` sets up the cache file from it, with its ETag. -/
def TakenOver (env : Surroundings) (h : Http) (head : Head) (r : Read) (g : Http) : Prop :=
  ∃ fuel s,
    rounds (Http.statusBody env r.data.length) fuel ⟨h, r.buffer [], 0, none⟩ = some (.line s) ∧
    rounds (Http.headBody env s.buffer r.data.length) fuel
      ⟨{ s.http with parsing := .headerVar }, bump s.pos, bump s.pos⟩ =
      some (Http.openCache env g head.bytes.length (head.bytes.length - 2))

theorem takenOver_headed (unread : h.http_code = 0) (small : head.parsed.bytes.length < 65536)
    (r : Read) (body : Bytes) (stands : r.data = head.parsed.bytes ++ body) :
    TakenOver env h head.parsed r (headed env h head.parsed) := by
  obtain ⟨s, status, -, -, fields⟩ :=
    head_parsed env h unread head.parsed rfl r body stands small (le_refl _)
  exact ⟨_, s, status, fields⟩

/-- A head that stands in one read is taken over field by field, and the object
then agrees with it whatever the memory held exactly when it is readable. -/
theorem spaced_head_read_iff (unread : h.http_code = 0) (unsized : h.contentsize = -1)
    (small : head.parsed.bytes.length < 65536) (r : Read) (body : Bytes)
    (stands : r.data = head.parsed.bytes ++ body) :
    (∀ env, TakenOver env h head.parsed r (headed env h head.parsed)) ∧
      ((∀ env, Agrees (headed env h head.parsed) head) ↔ head.Readable) := by
  refine ⟨fun env => takenOver_headed env h head unread small r body stands, ?_⟩
  have type := value_agrees head typeName h.contenttype
  have etag := value_agrees head etagName h.etagBackend
  constructor
  · intro all
    refine ⟨(size_agrees h head unsized).mp fun env => (all env).size, type.mp ?_, etag.mp ?_⟩
    · rw [← headed_type roomy]
      exact (all roomy).type
    · rw [← headed_etag roomy]
      exact (all roomy).etag
  · intro readable env
    refine ⟨(size_agrees h head unsized).mpr readable.size env, ?_, ?_⟩
    · rw [headed_type]
      exact type.mpr readable.type
    · rw [headed_etag]
      exact etag.mpr readable.etag

/-- The ETag that goes into the new cache file is the one of the response, or
empty when it has none, exactly when the response has one with snug spacing or
the request was made without one. -/
theorem stored_etag_is_own_iff (unread : h.http_code = 0) (old : Bytes)
    (asked : h.etagBackend = old) (small : head.parsed.bytes.length < 65536) (r : Read)
    (body : Bytes) (stands : r.data = head.parsed.bytes ++ body) :
    TakenOver env h head.parsed r (headed env h head.parsed) ∧
      ((headed env h head.parsed).etagBackend =
          ((head.field? etagName).map Spaced.value).getD [] ↔
        (∃ f ∈ head.field? etagName, f.Snug) ∨ (head.field? etagName = none ∧ old = [])) := by
  refine ⟨takenOver_headed env h head unread small r body stands, ?_⟩
  rw [headed_etag, asked]
  cases head.field? etagName with
  | none => simp
  | some f => simp [f.stored_eq_iff]

end Head

theorem one_blank : ∀ c ∈ [32], isBlank c := by simp [isBlank]

def lengthHead (before value : Bytes) (blank : ∀ c ∈ before, isBlank c)
    (digits : ∀ c ∈ value, 48 ≤ c ∧ c ≤ 57) (some_digits : value ≠ []) : SpacedHead where
  version := ascii "HTTP/1.1"
  reason := ascii "OK"
  fields := [{
    name := ascii "Content-Length"
    before := before
    value := value
    after := []
    name_clean := contentLength_clean
    before_blank := blank
    after_blank := by simp
    value_clean := fun c member => by
      have low : 48 ≤ c.toNat := (digits c member).1
      constructor <;> (rintro rfl; exact absurd low (by decide))
    front := fun c first blank => by
      have digit := digits c (List.mem_of_mem_head? first)
      rcases blank with rfl | rfl
      · exact absurd digit (by decide)
      · exact absurd digit (by decide)
    back := fun c last blank => by
      have digit := digits c (List.mem_of_mem_getLast? last)
      rcases blank with rfl | rfl
      · exact absurd digit (by decide)
      · exact absurd digit (by decide)
    empty := fun _ => rfl }]
  version_clean := version_clean
  reason_clean := ok_clean
  once := fun _ _ => List.pairwise_singleton _ _
  sized := fun g member _ => by
    rw [List.mem_singleton.mp member]
    exact ⟨some_digits, digits⟩

set_option maxRecDepth 2048 in
def fifteen (before : Bytes) (blank : ∀ c ∈ before, isBlank c) : SpacedHead :=
  lengthHead before (ascii "15") blank (by decide) (by decide)

def tight : SpacedHead := fifteen [] (by simp)

def usual : SpacedHead := fifteen [32] one_blank

set_option maxRecDepth 2048 in
theorem usual_head_is_read :
    (∀ env, TakenOver env requested usual.parsed (received (usual.parsed.bytes ++ ascii "body"))
      (headed env requested usual.parsed)) ∧
    ((∀ env, Agrees (headed env requested usual.parsed) usual) ↔ usual.Readable) :=
  spaced_head_read_iff requested usual rfl rfl (by decide) (received _) (ascii "body") rfl

set_option maxRecDepth 2048 in
/-- Without a blank in front of it the first digit is lost. -/
theorem tight_length_loses_digit :
    TakenOver roomy requested tight.parsed (received (tight.parsed.bytes ++ ascii "body"))
      (headed roomy requested tight.parsed) ∧
    (headed roomy requested tight.parsed).contentsize = 5 ∧
    ¬Agrees (headed roomy requested tight.parsed) tight := by
  have length : (headed roomy requested tight.parsed).contentsize = 5 := by decide
  refine ⟨takenOver_headed roomy requested tight rfl (by decide) (received _) (ascii "body") rfl,
    length, fun agrees => ?_⟩
  have fifteen : (5 : ℤ) = 15 := length.symm.trans agrees.size
  omega

def conditional : Http := { requested with etagBackend := ascii "old" }

set_option maxRecDepth 2048 in
theorem conditional_answer_is_read :
    TakenOver roomy conditional usual.parsed (received (usual.parsed.bytes ++ ascii "body"))
      (headed roomy conditional usual.parsed) ∧
    ((headed roomy conditional usual.parsed).etagBackend =
        ((usual.field? etagName).map Spaced.value).getD [] ↔
      (∃ f ∈ usual.field? etagName, f.Snug) ∨ (usual.field? etagName = none ∧ ascii "old" = [])) :=
  stored_etag_is_own_iff roomy conditional usual rfl (ascii "old") rfl (by decide) (received _)
    (ascii "body") rfl

set_option maxRecDepth 2048 in
/-- An answer without an ETag is stored with the one of the file it replaces. -/
theorem answer_without_etag_keeps_old_one :
    TakenOver roomy conditional usual.parsed (received (usual.parsed.bytes ++ ascii "body"))
      (headed roomy conditional usual.parsed) ∧
    (headed roomy conditional usual.parsed).etagBackend = ascii "old" ∧
    usual.field? etagName = none :=
  ⟨takenOver_headed roomy conditional usual rfl (by decide) (received _) (ascii "body") rfl,
    by decide, by decide⟩

/-- A head that is cut in front of its ETag loses it: the first byte of the line that a call
goes on with is skipped. -/
example : (deliver roomy 64 conditional []
    [[received (ascii "HTTP/1.1 200 OK\r\n")], [received (ascii "ETag: newer\r\n\r\n")]]).map
      (fun p => p.http.etagBackend) = some (ascii "old") := by
  decide +kernel

end FastCgiCdn.FieldValues
