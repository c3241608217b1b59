import RustLake.ObjectStore.Path
import RustLake.Scheduler.Provenance

/-! Where executions of tables and versions write, and what the names read under which their output
is registered. -/
namespace RustLake.Scheduler
open ObjectStore Text

/-- The prefix of the objects of a version. -/
def dataPrefix (table : String) (version : UInt32) : String :=
  "executable_tables/" ++ sanitized table ++ "/v" ++ toString version ++ "/data"

def dataUri (bucket table : String) (version : UInt32) : String :=
  "s3://" ++ bucket ++ "/" ++ dataPrefix table version ++ "/"

/-- The name that an execution of a kind registers. -/
def execName (table : String) (version : UInt32) : ExecutionKind → String
  | .current => "exec_" ++ sanitized table
  | .version => "exec_" ++ sanitized table ++ "_v" ++ toString version

/-- DataFusion: the table that a name stands for, and the objects that a table over a URI reads. -/
structure TableReader (Key : Type) where
  tableReference : String → Key
  reads : String → Path → Bool

/-- The output of a version that is to be registered. -/
structure Output where
  kind : ExecutionKind
  table : String
  version : UInt32
deriving DecidableEq

/-- An execution with the files that it writes below the prefix, and whether it then registers its
output and DataFusion takes it; a restore registers the output of a version again. -/
inductive OutputRequest where
  | run (output : Output) (files : List String) (registers : Option Bool)
  | restore (table : String) (version : UInt32) (accepted : Bool)

structure OutputObject where
  path : Path
  table : String
  version : UInt32

/-- The objects that executions have put, the tables with their URIs, and what was to be registered. -/
structure OutputLake (Key : Type) where
  objects : List OutputObject
  catalog : List (Key × String)
  attempts : List Output

section Requests
variable {Key : Type} [DecidableEq Key] (reader : TableReader Key) (bucket : String)

def Output.name (o : Output) : String := execName o.table o.version o.kind

/-- `register_table` refuses a name that is there. -/
def OutputLake.register (s : OutputLake Key) (o : Output) (accepted : Bool) : OutputLake Key :=
  { s with
    attempts := s.attempts ++ [o]
    catalog :=
      if accepted ∧ reader.tableReference o.name ∉ s.catalog.map Prod.fst then
        s.catalog ++ [(reader.tableReference o.name, dataUri bucket o.table o.version)]
      else s.catalog }

def OutputObject.of (o : Output) (file : String) : OutputObject :=
  ⟨Path.ofText (dataPrefix o.table o.version ++ "/" ++ file), o.table, o.version⟩

def OutputLake.handle (s : OutputLake Key) : OutputRequest → OutputLake Key
  | .run o files registers =>
    let written := { s with objects := s.objects ++ files.map (OutputObject.of o) }
    match registers with
    | some accepted => written.register reader bucket o accepted
    | none => written
  | .restore table version accepted => s.register reader bucket ⟨.version, table, version⟩ accepted

def OutputRequest.output : OutputRequest → Output
  | .run o _ _ => o
  | .restore table version _ => ⟨.version, table, version⟩

/-- The lake after some requests. -/
def lakeAfter (requests : List OutputRequest) : OutputLake Key :=
  requests.foldl (OutputLake.handle reader bucket) ⟨[], [], []⟩

/-- Executions of different versions of the tables write below different prefixes, none registers
the name of another one, but for the name of a table by executions of its versions, and a name reads
only what executions of its table have written, and of its version. -/
structure Isolated (tables : List String) (s : OutputLake Key) : Prop where
  writes : ∀ object ∈ s.objects, ∀ table ∈ tables, ∀ version,
    object.path.isUnder (Path.ofText (dataPrefix table version)) = true →
      object.table = table ∧ object.version = version
  names : ∀ a ∈ s.attempts, ∀ b ∈ s.attempts,
    reader.tableReference a.name = reader.tableReference b.name →
      a.table = b.table ∧ a.kind = b.kind ∧ (a.kind = .version → a.version = b.version)
  reads : ∀ o : Output, o.table ∈ tables → 0 < o.version → ∀ uri, (reader.tableReference o.name, uri) ∈ s.catalog →
    ∀ object ∈ s.objects, reader.reads uri object.path = true →
      object.table = o.table ∧ (o.kind = .version → object.version = o.version)

end Requests

def lowercased (s : String) : List Char := s.toList.map Char.toLower

/-- A name of letters and digits, with hyphens, blanks and underscores. -/
structure PlainName (table : String) : Prop where
  nonempty : table ≠ ""
  chars : ∀ c ∈ table.toList, c.isAlphanum = true ∨ c = '-' ∨ c = ' ' ∨ c = '_'

/-- A word of letters, digits and underscores that begins with a letter. -/
def IsIdentifier (s : String) : Prop :=
  (∃ c rest, s.toList = c :: rest ∧ c.isAlpha = true) ∧
    ∀ c ∈ s.toList, c.isAlphanum = true ∨ c = '_'

/-- The names of different tables stay different when they are sanitized, in any case of letters,
and none is the name of another one with a version. -/
structure ClashFree (tables : List String) : Prop where
  distinct : ∀ a ∈ tables, ∀ b ∈ tables, lowercased (sanitized a) = lowercased (sanitized b) → a = b
  versions : ∀ a ∈ tables, ∀ b ∈ tables, ∀ version : UInt32, 0 < version →
    lowercased (sanitized a) ≠ lowercased (sanitized b ++ "_v" ++ toString version)

section Names
variable {table table' : String} {version version' : UInt32}

theorem toList_sanitized (table : String) : (sanitized table).toList =
    table.toList.map fun c => if c = '-' || c = ' ' then '_' else c := String.toList_ofList

theorem PlainName.sanitized_chars (h : PlainName table) {c : Char}
    (hc : c ∈ (sanitized table).toList) : c.isAlphanum = true ∨ c = '_' := by
  rw [toList_sanitized, List.mem_map] at hc
  obtain ⟨d, hd, rfl⟩ := hc
  have hchar := h.chars d hd
  split
  · exact Or.inr rfl
  · rename_i hplain
    simp only [Bool.or_eq_true, decide_eq_true_eq, not_or] at hplain
    rcases hchar with halpha | hhyphen | hblank | hunder
    · exact Or.inl halpha
    · exact absurd hhyphen hplain.1
    · exact absurd hblank hplain.2
    · exact Or.inr hunder

theorem PlainName.sanitized_ne_nil (h : PlainName table) : (sanitized table).toList ≠ [] := by
  rw [toList_sanitized]
  intro hnil
  apply h.nonempty
  apply String.toList_injective
  simpa using hnil

theorem isDigit_of_mem_version {c : Char} (h : c ∈ (toString version).toList) :
    c.isDigit = true := by
  have htext : (toString version).toList = Nat.toDigits 10 version.toNat := Nat.toList_repr
  rw [htext] at h
  exact Nat.isDigit_of_mem_toDigits (by decide) (by decide) h

theorem isAlphanum_of_isDigit {c : Char} (h : c.isDigit = true) : c.isAlphanum = true := by
  simp [Char.isAlphanum, h]

theorem PlainName.isIdentifier (h : PlainName table) (version : UInt32) (kind : ExecutionKind) :
    IsIdentifier (execName table version kind) := by
  have hexec : ∀ c ∈ "exec_".toList, c.isAlphanum = true ∨ c = '_' := by simp
  have hv : ∀ c ∈ "_v".toList, c.isAlphanum = true ∨ c = '_' := by simp
  have hdigits : ∀ c ∈ (toString version).toList, c.isAlphanum = true ∨ c = '_' :=
    fun c hc => Or.inl (isAlphanum_of_isDigit (isDigit_of_mem_version hc))
  cases kind with
  | current =>
    refine ⟨⟨'e', "xec_".toList ++ (sanitized table).toList, ?_, rfl⟩, ?_⟩
    · simp [execName]
    · intro c hc
      rw [execName, String.toList_append, List.mem_append] at hc
      exact hc.elim (hexec c) h.sanitized_chars
  | version =>
    refine ⟨⟨'e', "xec_".toList ++ (sanitized table).toList ++ "_v".toList ++
      (toString version).toList, ?_, rfl⟩, ?_⟩
    · simp [execName]
    · intro c hc
      rw [execName, String.toList_append, String.toList_append, String.toList_append,
        List.mem_append, List.mem_append, List.mem_append] at hc
      rcases hc with ((hc | hc) | hc) | hc
      · exact hexec c hc
      · exact h.sanitized_chars hc
      · exact hv c hc
      · exact hdigits c hc

theorem encodes_of_word {c : Char} (h : c.isAlphanum = true ∨ c = '_') : encodes c = false := by
  have hrange : 48 ≤ c.toNat ∧ c.toNat ≤ 57 ∨ 65 ≤ c.toNat ∧ c.toNat ≤ 90 ∨
      97 ≤ c.toNat ∧ c.toNat ≤ 122 ∨ c.toNat = 95 := by
    rcases h with halpha | rfl
    · have within (lo hi : Char) (h : lo.val ≤ c.val ∧ c.val ≤ hi.val) :
          lo.toNat ≤ c.toNat ∧ c.toNat ≤ hi.toNat :=
        ⟨UInt32.le_iff_toNat_le.mp h.1, UInt32.le_iff_toNat_le.mp h.2⟩
      rcases Bool.or_eq_true_iff.mp halpha with hletter | hdigit
      · rcases Bool.or_eq_true_iff.mp hletter with hupper | hlower
        · exact Or.inr (Or.inl (within 'A' 'Z' (of_decide_eq_true hupper)))
        · obtain ⟨hlo, hhi⟩ := Bool.and_eq_true_iff.mp hlower
          have hsmall := within 'a' 'z' ⟨of_decide_eq_true hlo, of_decide_eq_true hhi⟩
          exact Or.inr (Or.inr (Or.inl hsmall))
      · obtain ⟨hlo, hhi⟩ := Bool.and_eq_true_iff.mp hdigit
        exact Or.inl (within '0' '9' ⟨of_decide_eq_true hlo, of_decide_eq_true hhi⟩)
    · exact Or.inr (Or.inr (Or.inr rfl))
  have hall : ∀ n < 123, (48 ≤ n ∧ n ≤ 57 ∨ 65 ≤ n ∧ n ≤ 90 ∨ 97 ≤ n ∧ n ≤ 122 ∨ n = 95) →
      (decide (n < 32) || decide (127 ≤ n) ||
        [34, 35, 37, 42, 47, 60, 62, 63, 91, 92, 93, 94, 96, 123, 124, 125, 126].contains n) =
          false := by decide
  exact hall _ (by omega) hrange

theorem encodeSegment_word {word : List Char}
    (hchars : ∀ c ∈ word, c.isAlphanum = true ∨ c = '_') : encodeSegment word = word := by
  have hdot : '.' ∉ word := fun hmem => absurd (hchars _ hmem) (by decide)
  rw [encodeSegment_of_plain fun c hc => encodes_of_word (hchars c hc)]
  · rintro rfl
    exact hdot (by simp)
  · rintro rfl
    exact hdot (by simp)

theorem segments_word {word : List Char} (hchars : ∀ c ∈ word, c.isAlphanum = true ∨ c = '_')
    (hne : word ≠ []) : segments word = [word] := by
  have hslash : '/' ∉ word := fun hmem => absurd (hchars _ hmem) (by decide)
  rw [segments_of_notMem hslash hne, encodeSegment_word hchars]

theorem isAlphanum_version (version : UInt32) :
    ∀ c ∈ 'v' :: (toString version).toList, c.isAlphanum = true ∨ c = '_' := by
  intro c hc
  rcases List.mem_cons.mp hc with rfl | hdigit
  · exact Or.inl rfl
  · exact Or.inl (isAlphanum_of_isDigit (isDigit_of_mem_version hdigit))

theorem segments_dataPrefix_eq (table : String) (version : UInt32) :
    segments (dataPrefix table version).toList = "executable_tables".toList ::
      (segments (sanitized table).toList ++ ['v' :: (toString version).toList, "data".toList]) := by
  have htext : (dataPrefix table version).toList = "executable_tables".toList ++
      '/' :: ((sanitized table).toList ++ '/' :: (('v' :: (toString version).toList) ++
        '/' :: "data".toList)) := by
    have hfirst : "executable_tables/".toList = "executable_tables".toList ++ ['/'] := rfl
    have hv : "/v".toList = ['/', 'v'] := rfl
    have hdata : "/data".toList = '/' :: "data".toList := rfl
    unfold dataPrefix
    rw [String.toList_append, String.toList_append, String.toList_append, String.toList_append,
      hfirst, hv, hdata]
    simp only [List.append_assoc, List.cons_append, List.nil_append]
  have hdir : segments "executable_tables".toList = ["executable_tables".toList] :=
    segments_word (by simp) (by simp)
  have hdata : segments "data".toList = ["data".toList] := segments_word (by simp) (by simp)
  rw [htext, segments_append, segments_append, segments_append, hdir, hdata,
    segments_word (isAlphanum_version version) (List.cons_ne_nil _ _)]
  rfl

theorem segments_dataPrefix (h : PlainName table) (version : UInt32) :
    segments (dataPrefix table version).toList = ["executable_tables".toList,
      (sanitized table).toList, 'v' :: (toString version).toList, "data".toList] := by
  rw [segments_dataPrefix_eq, segments_word (fun c hc => h.sanitized_chars hc) h.sanitized_ne_nil]
  rfl

theorem toString_version_inj (h : (toString version).toList = (toString version').toList) :
    version = version' := by
  have hnat : toString version.toNat = toString version'.toNat := String.toList_injective h
  exact UInt32.toNat_inj.mp (toString_nat_inj hnat)

/-- An object of one version is not below the prefix of another one. -/
theorem eq_of_isUnder (h : PlainName table) (h' : PlainName table') {file : String}
    (hunder : Path.isUnder (Path.ofText (dataPrefix table version ++ "/" ++ file))
      (Path.ofText (dataPrefix table' version')) = true) :
    sanitized table = sanitized table' ∧ version = version' := by
  have hpfx := segments_prefix_of_isUnder hunder
  have htext : (dataPrefix table version ++ "/" ++ file).toList =
      (dataPrefix table version).toList ++ '/' :: file.toList := by simp
  rw [htext, segments_append, segments_dataPrefix h, segments_dataPrefix h'] at hpfx
  simp only [List.cons_append, List.nil_append, List.cons_prefix_cons, List.cons.injEq, true_and]
    at hpfx
  exact ⟨String.toList_injective hpfx.1.symm, toString_version_inj hpfx.2.1.symm⟩

theorem lowercased_append (a b : String) :
    lowercased (a ++ b) = lowercased a ++ lowercased b := by
  unfold lowercased
  rw [String.toList_append, List.map_append]

theorem toLower_of_isDigit {c : Char} (h : c.isDigit = true) : c.toLower = c := by
  have hrange : 48 ≤ c.toNat ∧ c.toNat ≤ 57 := by
    simpa [Char.isDigit, UInt32.le_iff_toNat_le] using h
  have hall : ∀ n < 58, 48 ≤ n → (Char.ofNat n).toLower = Char.ofNat n := by decide
  have hchar := hall c.toNat (by omega) hrange.1
  rwa [Char.ofNat_toNat] at hchar

theorem lowercased_version (version : UInt32) :
    lowercased (toString version) = (toString version).toList := by
  unfold lowercased
  rw [List.map_congr_left fun c hc => toLower_of_isDigit (isDigit_of_mem_version hc), List.map_id']

theorem lowercased_current : lowercased (execName table version .current) =
    lowercased (execName table' version' .current) ↔
      lowercased (sanitized table) = lowercased (sanitized table') := by
  rw [execName, execName, lowercased_append, lowercased_append, List.append_right_inj]

theorem lowercased_current_version : lowercased (execName table version .current) =
    lowercased (execName table' version' .version) ↔
      lowercased (sanitized table) =
        lowercased (sanitized table' ++ "_v" ++ toString version') := by
  rw [execName, execName, String.append_assoc, String.append_assoc, lowercased_append,
    lowercased_append, List.append_right_inj, ← String.append_assoc]

theorem eq_of_lowercased_version (h : lowercased (execName table version .version) =
    lowercased (execName table' version' .version)) :
    lowercased (sanitized table) = lowercased (sanitized table') ∧ version = version' := by
  have hnone : ∀ v : UInt32, '_' ∉ 'v' :: (toString v).toList := by
    intro v hmem
    rcases List.mem_cons.mp hmem with hv | hdigit
    · exact absurd hv (by decide)
    · exact absurd (isDigit_of_mem_version hdigit) (by decide)
  have htext : ∀ (t : String) (v : UInt32), lowercased (execName t v .version) =
      (lowercased "exec_" ++ lowercased (sanitized t)) ++ '_' :: 'v' :: (toString v).toList := by
    intro t v
    rw [execName, lowercased_append, lowercased_append, lowercased_append, lowercased_version,
      List.append_assoc]
    rfl
  rw [htext, htext] at h
  have hlast := congrArg (afterLast '_') h
  rw [afterLast_append_cons _ (hnone version), afterLast_append_cons _ (hnone version')] at hlast
  have hversion := (List.cons.inj hlast).2
  rw [hversion, List.append_left_inj, List.append_right_inj] at h
  exact ⟨h, toString_version_inj hversion⟩

end Names

section Isolation
variable {Key : Type} {reader : TableReader Key} {bucket : String} {tables : List String}

/-- What DataFusion documents: a name without quotes is taken in any case of letters, and a table
over a URI reads objects below its path. -/
structure TableReader.Documented (reader : TableReader Key) (bucket : String) : Prop where
  reference : ∀ a b, IsIdentifier a → IsIdentifier b →
    (reader.tableReference a = reader.tableReference b ↔ lowercased a = lowercased b)
  reads : ∀ table version path, PlainName table →
    reader.reads (dataUri bucket table version) path = true →
      path.isUnder (Path.ofText (dataPrefix table version)) = true

/-- Outputs of the same name are of the same table and kind, and of the same version of it. -/
theorem ClashFree.output_eq (h : ClashFree tables) {a b : Output} (ha : a.table ∈ tables)
    (hb : b.table ∈ tables) (hpos : 0 < a.version) (hpos' : 0 < b.version)
    (hname : lowercased a.name = lowercased b.name) :
    a.table = b.table ∧ a.kind = b.kind ∧ (a.kind = .version → a.version = b.version) := by
  obtain ⟨kind, table, version⟩ := a
  obtain ⟨kind', table', version'⟩ := b
  cases kind with
  | current =>
    cases kind' with
    | current =>
      refine ⟨h.distinct _ ha _ hb (lowercased_current.mp hname), rfl, fun hkind => ?_⟩
      cases hkind
    | version =>
      exact absurd (lowercased_current_version.mp hname) (h.versions _ ha _ hb _ hpos')
  | version =>
    cases kind' with
    | current =>
      exact absurd (lowercased_current_version.mp hname.symm) (h.versions _ hb _ ha _ hpos)
    | version =>
      obtain ⟨hsame, hversion⟩ := eq_of_lowercased_version hname
      exact ⟨h.distinct _ ha _ hb hsame, rfl, fun _ => hversion⟩

variable (reader bucket) in
/-- What is in the lake has come from requests for the tables. -/
structure Recorded (tables : List String) (s : OutputLake Key) : Prop where
  objects : ∀ object ∈ s.objects, object.table ∈ tables ∧ ∃ file,
    object.path = Path.ofText (dataPrefix object.table object.version ++ "/" ++ file)
  attempts : ∀ o ∈ s.attempts, o.table ∈ tables ∧ 0 < o.version
  catalog : ∀ entry ∈ s.catalog, ∃ o ∈ s.attempts,
    entry = (reader.tableReference o.name, dataUri bucket o.table o.version)

variable [DecidableEq Key] {s : OutputLake Key}

theorem Recorded.register (h : Recorded reader bucket tables s) {o : Output}
    (ho : o.table ∈ tables ∧ 0 < o.version) (accepted : Bool) :
    Recorded reader bucket tables (s.register reader bucket o accepted) := by
  constructor
  · exact h.objects
  · intro a ha
    rcases List.mem_append.mp ha with hold | hnew
    · exact h.attempts a hold
    · rw [List.mem_singleton.mp hnew]
      exact ho
  · intro entry hentry
    have hcases : entry ∈ s.catalog ∨
        entry = (reader.tableReference o.name, dataUri bucket o.table o.version) := by
      unfold OutputLake.register at hentry
      dsimp only at hentry
      split at hentry
      · rcases List.mem_append.mp hentry with hold | hnew
        · exact Or.inl hold
        · exact Or.inr (List.mem_singleton.mp hnew)
      · exact Or.inl hentry
    rcases hcases with hold | hnew
    · obtain ⟨a, ha, hentry⟩ := h.catalog entry hold
      exact ⟨a, List.mem_append_left _ ha, hentry⟩
    · exact ⟨o, List.mem_append_right _ (List.mem_singleton_self _), hnew⟩

theorem Recorded.handle (h : Recorded reader bucket tables s) {request : OutputRequest}
    (hrequest : request.output.table ∈ tables ∧ 0 < request.output.version) :
    Recorded reader bucket tables (s.handle reader bucket request) := by
  cases request with
  | restore table version accepted => exact h.register hrequest accepted
  | run o files registers =>
    have hwritten : Recorded reader bucket tables
        { s with objects := s.objects ++ files.map (OutputObject.of o) } := by
      refine ⟨fun object hobject => ?_, h.attempts, h.catalog⟩
      rcases List.mem_append.mp hobject with hold | hnew
      · exact h.objects object hold
      · obtain ⟨file, -, rfl⟩ := List.mem_map.mp hnew
        exact ⟨hrequest.1, file, rfl⟩
    cases registers with
    | none => exact hwritten
    | some accepted => exact hwritten.register hrequest accepted

theorem recorded_lakeAfter {requests : List OutputRequest}
    (hrequests : ∀ request ∈ requests, request.output.table ∈ tables ∧ 0 < request.output.version) :
    Recorded reader bucket tables (lakeAfter reader bucket requests) := by
  have hfold : ∀ (requests : List OutputRequest) (s : OutputLake Key),
      (∀ request ∈ requests, request.output.table ∈ tables ∧ 0 < request.output.version) →
      Recorded reader bucket tables s →
      Recorded reader bucket tables (requests.foldl (OutputLake.handle reader bucket) s) := by
    intro requests
    induction requests with
    | nil => exact fun _ _ hs => hs
    | cons request rest ih =>
      intro s hrequests hs
      obtain ⟨hfirst, hrest⟩ := List.forall_mem_cons.mp hrequests
      exact ih _ hrest (hs.handle hfirst)
  refine hfold requests _ hrequests ⟨?_, ?_, ?_⟩
  · exact List.forall_mem_nil _
  · exact List.forall_mem_nil _
  · exact List.forall_mem_nil _

omit [DecidableEq Key] in
/-- Where the names do not clash, what is recorded is isolated. -/
theorem Recorded.isolated (h : Recorded reader bucket tables s)
    (hreader : reader.Documented bucket) (hplain : ∀ table ∈ tables, PlainName table)
    (hclash : ClashFree tables) : Isolated reader tables s := by
  have hwrites : ∀ object ∈ s.objects, ∀ table ∈ tables, ∀ version,
      object.path.isUnder (Path.ofText (dataPrefix table version)) = true →
        object.table = table ∧ object.version = version := by
    intro object hobject table htable version hunder
    obtain ⟨hmem, file, hfile⟩ := h.objects object hobject
    rw [hfile] at hunder
    obtain ⟨hsame, hversion⟩ := eq_of_isUnder (hplain _ hmem) (hplain _ htable) hunder
    exact ⟨hclash.distinct _ hmem _ htable (congrArg lowercased hsame), hversion⟩
  have hnames : ∀ a b : Output, a.table ∈ tables → b.table ∈ tables → 0 < a.version →
      0 < b.version → reader.tableReference a.name = reader.tableReference b.name →
        a.table = b.table ∧ a.kind = b.kind ∧ (a.kind = .version → a.version = b.version) := by
    intro a b ha hb hpos hpos' hname
    have hlower := (hreader.reference _ _ ((hplain _ ha).isIdentifier a.version a.kind)
      ((hplain _ hb).isIdentifier b.version b.kind)).mp hname
    exact hclash.output_eq ha hb hpos hpos' hlower
  refine ⟨hwrites, ?_, ?_⟩
  · intro a ha b hb hname
    obtain ⟨hmem, hpos⟩ := h.attempts a ha
    obtain ⟨hmem', hpos'⟩ := h.attempts b hb
    exact hnames a b hmem hmem' hpos hpos' hname
  · intro o ho hpos uri hentry object hobject hreads
    obtain ⟨a, ha, hsame⟩ := h.catalog _ hentry
    obtain ⟨hmem, hpos'⟩ := h.attempts a ha
    obtain ⟨hname, rfl⟩ := Prod.mk.inj hsame
    obtain ⟨htable, hkind, hversion⟩ := hnames o a ho hmem hpos hpos' hname
    have hunder := hreader.reads _ _ _ (hplain _ hmem) hreads
    obtain ⟨hobjectTable, hobjectVersion⟩ := hwrites object hobject _ hmem _ hunder
    exact ⟨hobjectTable.trans htable.symm, fun h => hobjectVersion.trans (hversion h).symm⟩

/-- Executions and restores of plainly named tables stay apart after every sequence of requests
exactly when the names do not clash. -/
theorem isolated_iff (hreader : reader.Documented bucket)
    (hplain : ∀ table ∈ tables, PlainName table) :
    (∀ requests, (∀ request ∈ requests,
        request.output.table ∈ tables ∧ 0 < request.output.version) →
      Isolated reader tables (lakeAfter reader bucket requests)) ↔ ClashFree tables := by
  constructor
  · intro h
    have hboth : ∀ a b : Output, a.table ∈ tables → b.table ∈ tables → 0 < a.version →
        0 < b.version → lowercased a.name = lowercased b.name → a.table = b.table ∧
          a.kind = b.kind := by
      intro a b ha hb hpos hpos' hname
      have hrequests : ∀ request ∈ [OutputRequest.run a [] (some true), .run b [] (some true)],
          request.output.table ∈ tables ∧ 0 < request.output.version := by
        intro request hrequest
        rcases List.mem_cons.mp hrequest with rfl | hrequest
        · exact ⟨ha, hpos⟩
        · rw [List.mem_singleton.mp hrequest]
          exact ⟨hb, hpos'⟩
      have hreference := (hreader.reference _ _ ((hplain _ ha).isIdentifier a.version a.kind)
        ((hplain _ hb).isIdentifier b.version b.kind)).mpr hname
      have hnames := (h _ hrequests).names a (by simp [lakeAfter, OutputLake.handle,
        OutputLake.register]) b (by simp [lakeAfter, OutputLake.handle, OutputLake.register])
        hreference
      exact ⟨hnames.1, hnames.2.1⟩
    have hone : (0 : UInt32) < 1 := by decide
    constructor
    · intro a ha b hb hsame
      exact (hboth ⟨.current, a, 1⟩ ⟨.current, b, 1⟩ ha hb hone hone
        (lowercased_current.mpr hsame)).1
    · intro a ha b hb version hpos hsame
      have hkind := (hboth ⟨.current, a, 1⟩ ⟨.version, b, version⟩ ha hb hone hpos
        (lowercased_current_version.mpr hsame)).2
      cases hkind
  · intro hclash requests hrequests
    exact (recorded_lakeAfter hrequests).isolated hreader hplain hclash

end Isolation

section DailyOrders

/-- Names are read in lower case, and URIs of the bucket `lake` by their paths. -/
def lakeReader : TableReader (List Char) where
  tableReference := lowercased
  reads uri path := path.isUnder
    (Path.ofText (String.ofList (uri.toList.drop "s3://lake/".toList.length)))

theorem lakeReader_documented : lakeReader.Documented "lake" where
  reference _ _ _ _ := Iff.rfl
  reads table version path _ h := by
    have htext : (dataUri "lake" table version).toList =
        "s3://lake/".toList ++ (dataPrefix table version ++ "/").toList := by
      have hbucket : ("s3://" ++ "lake" ++ "/" : String) = "s3://lake/" := rfl
      rw [dataUri, hbucket, String.append_assoc, String.toList_append]
    unfold lakeReader at h
    dsimp only at h
    rw [htext, List.drop_left, String.ofList_toList, ofText_slash] at h
    exact h

theorem plainName_of_all {table : String} (hne : table ≠ "")
    (h : table.toList.all (fun c => c.isAlphanum || c = '-' || c = ' ' || c = '_') = true) :
    PlainName table := by
  refine ⟨hne, fun c hc => ?_⟩
  have hchar := List.all_eq_true.mp h c hc
  simpa [or_assoc] using hchar

/-- Two tables whose names stay apart. -/
theorem isolated_iff_orders : (∀ requests, (∀ request ∈ requests,
      request.output.table ∈ ["orders", "daily-margin"] ∧ 0 < request.output.version) →
    Isolated lakeReader ["orders", "daily-margin"] (lakeAfter lakeReader "lake" requests)) ↔
      ClashFree ["orders", "daily-margin"] := by
  apply isolated_iff lakeReader_documented
  intro table htable
  rcases List.mem_cons.mp htable with rfl | htable
  · exact plainName_of_all (by decide) (by simp)
  · rw [List.mem_singleton.mp htable]
    exact plainName_of_all (by decide) (by simp)

/-- Two tables whose names are the same without hyphens write below one prefix, under one name. -/
theorem not_isolated_dailyOrders :
    ¬ Isolated lakeReader ["daily-orders", "daily_orders"] (lakeAfter lakeReader "lake"
      [.run ⟨.current, "daily-orders", 1⟩ ["data/part-1.parquet"] (some true),
        .run ⟨.current, "daily_orders", 1⟩ ["data/part-2.parquet"] (some true)]) := by
  intro h
  have hsame : lowercased (Output.mk .current "daily-orders" 1).name =
      lowercased (Output.mk .current "daily_orders" 1).name := by decide
  have hnames := h.names ⟨.current, "daily-orders", 1⟩ (by simp [lakeAfter, OutputLake.handle,
    OutputLake.register]) ⟨.current, "daily_orders", 1⟩ (by simp [lakeAfter, OutputLake.handle,
    OutputLake.register]) hsame
  exact absurd hnames.1 (by decide)

end DailyOrders
end RustLake.Scheduler
