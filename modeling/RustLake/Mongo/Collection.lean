import RustLake.Mongo.Documents

/-! What a batch shows of the documents, whatever order they come in. -/
namespace RustLake.Mongo
open Arrow

variable {F : Type} (libs : BsonLibraries F)

section Property

/-- Integers, booleans and strings are kept by a column of their own type. -/
def Keeps : (type : DataType) → Bson F → type.Value F → Prop
  | .boolean, .boolean b, x => x = b
  | .int64, .int32 i, x => x = i.toInt64
  | .int64, .int64 i, x => x = i
  | .utf8, .string s, x => x = s
  | _, .boolean _, _ | _, .int32 _, _ | _, .int64 _, _ | _, .string _, _ => False
  | _, _, _ => True

structure ShowsCell (type : DataType) (v : Option (Bson F)) (cell : Option (type.Value F)) :
    Prop where
  null : cell = none ↔ v = none ∨ v = some .null
  kept : ∀ b x, v = some b → cell = some x → Keeps type b x

/-- The cells of a column show what the documents have under a name. -/
def ShowsName (c : Column F) (docs : List (Document F)) (name : String) : Prop :=
  ∀ (i : ℕ) (doc : Document F) (cell : Option (c.dataType.Value F)), docs[i]? = some doc →
    c.cells[i]? = some cell → ShowsCell c.dataType (doc.get name) cell

/-- There is a row for each document and a column for each name, and the cells show the values. -/
structure Shows (docs : List (Document F)) (batch : RecordBatch F) : Prop where
  rows : batch.rowCount = docs.length
  names : ∀ doc ∈ docs, ∀ name, name ≠ "_id" → (doc.get name).isSome →
    name ∈ batch.fields.map (·.name)
  types : batch.columns.map (·.dataType) = batch.fields.map (·.dataType)
  cells : ∀ (j : ℕ) (field : Field) (c : Column F),
    batch.fields[j]? = some field → batch.columns[j]? = some c →
      c.length = docs.length ∧ ShowsName c docs field.name

/-- A fetch has one list of columns for all orders of the documents that it reads, and shows them in
each order. -/
def Faithful (read : Collection F → List (Document F))
    (fetch : Collection F → Except BatchError (RecordBatch F)) (find : Collection F) : Prop :=
  ∃ fields, ∀ find', (read find').Perm (read find) →
    ∃ batch, fetch find' = .ok batch ∧ batch.fields = fields ∧ Shows (read find') batch

inductive BsonKind where
  | boolean | integer | double | dateTime | printed
deriving DecidableEq

def Bson.kind : Bson F → BsonKind
  | .boolean _ => .boolean
  | .int32 _ | .int64 _ => .integer
  | .double _ => .double
  | .dateTime _ => .dateTime
  | _ => .printed

/-- There are no documents, or there is a name besides `_id`, and no name has a null or values of two
kinds. -/
def Uniform (docs : List (Document F)) : Prop :=
  docs = [] ∨ (∃ doc ∈ docs, ∃ name, name ≠ "_id" ∧ (doc.get name).isSome) ∧
    ∀ name, name ≠ "_id" → ∀ doc ∈ docs, ∀ doc' ∈ docs, ∀ v v',
      doc.get name = some v → doc'.get name = some v' → v ≠ .null ∧ v.kind = v'.kind

end Property

section Cells

/-- The types of the columns. -/
def IsColumnType (type : DataType) : Prop :=
  type ∈ [.boolean, .int64, .float64, .timestampMicrosecond, .utf8]

theorem isColumnType_bsonToArrowType (v : Bson F) : IsColumnType (bsonToArrowType v) := by
  cases v <;> simp [bsonToArrowType, IsColumnType]

theorem bsonToArrowType_eq_iff (v v' : Bson F) :
    bsonToArrowType v = bsonToArrowType v' ↔ v.kind = v'.kind := by
  cases v <;> cases v' <;> simp [bsonToArrowType, Bson.kind]

theorem dataType_arrayOf (docs : List (Document F)) (name : String) {type : DataType}
    (h : IsColumnType type) : (arrayOf libs docs name type).dataType = type := by
  simp only [IsColumnType, List.mem_cons, List.not_mem_nil, or_false] at h
  rcases h with rfl | rfl | rfl | rfl | rfl <;> rfl

theorem length_arrayOf (docs : List (Document F)) (name : String) (type : DataType) :
    (arrayOf libs docs name type).length = docs.length := by
  unfold arrayOf
  split <;> exact List.length_map _

theorem ShowsCell.missing {type : DataType} : ShowsCell (F := F) type none none where
  null := iff_of_true rfl (Or.inl rfl)
  kept := fun _ _ h => by cases h

theorem ShowsCell.value {type : DataType} {v : Bson F} {x : type.Value F} (hne : v ≠ .null)
    (hkeeps : Keeps type v x) : ShowsCell type (some v) (some x) where
  null := iff_of_false (fun h => by cases h) (by rintro (h | h) <;> cases h; exact hne rfl)
  kept := fun _ _ hv hx => Option.some.inj hv ▸ Option.some.inj hx ▸ hkeeps

/-- A column shows a name when it keeps each value that the documents have under it. -/
theorem showsName_bind {docs : List (Document F)} {name : String} {type : DataType}
    (f : Bson F → Option (type.Value F))
    (h : ∀ doc ∈ docs, ∀ v, doc.get name = some v → v ≠ .null ∧ ∃ x, f v = some x ∧ Keeps type v x) :
    ShowsName ⟨type, docs.map fun d => (d.get name).bind f⟩ docs name := by
  intro i doc cell hdoc hcell
  dsimp only at hcell
  rw [List.getElem?_map, hdoc, Option.map_some, Option.some.injEq] at hcell
  subst hcell
  cases hget : doc.get name with
  | none => exact .missing
  | some v =>
    obtain ⟨hne, x, hx, hkeeps⟩ := h doc (List.mem_of_getElem? hdoc) v hget
    change ShowsCell type (some v) (f v)
    exact hx ▸ .value hne hkeeps

/-- A column shows the values of its own type. -/
theorem showsName_arrayOf {docs : List (Document F)} {name : String} {type : DataType}
    (htype : IsColumnType type)
    (hvalues : ∀ doc ∈ docs, ∀ v, doc.get name = some v → v ≠ .null ∧ bsonToArrowType v = type) :
    ShowsName (arrayOf libs docs name type) docs name := by
  have hkept : ∀ (f : Bson F → Option (type.Value F)),
      (∀ v, v ≠ .null → bsonToArrowType v = type → ∃ x, f v = some x ∧ Keeps type v x) →
      ∀ doc ∈ docs, ∀ v, doc.get name = some v →
        v ≠ .null ∧ ∃ x, f v = some x ∧ Keeps type v x := by
    intro f hf doc hdoc v hv
    obtain ⟨hne, hkind⟩ := hvalues doc hdoc v hv
    exact ⟨hne, hf v hne hkind⟩
  simp only [IsColumnType, List.mem_cons, List.not_mem_nil, or_false] at htype
  rcases htype with rfl | rfl | rfl | rfl | rfl
  · refine showsName_bind bsonToBool (hkept _ fun v _ hkind => ?_)
    cases v <;> first | exact ⟨_, rfl, rfl⟩ | cases hkind
  · refine showsName_bind (bsonToI64 libs) (hkept _ fun v _ hkind => ?_)
    cases v <;> first | exact ⟨_, rfl, rfl⟩ | cases hkind
  · refine showsName_bind (bsonToF64 libs) (hkept _ fun v _ hkind => ?_)
    cases v <;> first | exact ⟨_, rfl, trivial⟩ | cases hkind
  · refine showsName_bind bsonToMicros (hkept _ fun v _ hkind => ?_)
    cases v <;> first | exact ⟨_, rfl, trivial⟩ | cases hkind
  · have harray : arrayOf libs docs name .utf8 =
        ⟨.utf8, docs.map fun d => (d.get name).bind fun v => some (bsonToString libs v)⟩ := by
      simp only [arrayOf, Option.map_eq_bind]
      rfl
    rw [harray]
    refine showsName_bind _ (hkept _ fun v hne hkind => ⟨_, rfl, ?_⟩)
    cases v <;> first | exact rfl | exact trivial | exact absurd rfl hne | cases hkind

end Cells

section Batches
variable {libs} {docs docs' : List (Document F)}

theorem documentsToBatch_ok (hdocs : docs ≠ []) (htypes : fieldTypes docs ≠ []) :
    documentsToBatch libs docs = .ok ⟨schemaOf docs, arraysOf libs docs, docs.length⟩ := by
  have hcount : (arraysOf libs docs).length = (schemaOf docs).length := by
    rw [arraysOf, schemaOf, List.length_map, List.length_map]
  have hlength : ∀ c ∈ arraysOf libs docs, c.length = docs.length := by
    intro c hc
    obtain ⟨p, -, rfl⟩ := List.mem_map.mp hc
    exact length_arrayOf libs docs p.1 p.2
  have hfits : ∀ p ∈ (schemaOf docs).zip (arraysOf libs docs), p.2.Fits p.1 := by
    rintro ⟨field, c⟩ hp
    rw [schemaOf, arraysOf, List.zip_map', List.mem_map] at hp
    obtain ⟨⟨name, type⟩, hmem, heq⟩ := hp
    obtain ⟨rfl, rfl⟩ := Prod.mk.inj heq
    obtain ⟨-, v, -, hv⟩ := mem_fieldTypes.mp hmem
    refine ⟨dataType_arrayOf libs docs name (hv ▸ isColumnType_bsonToArrowType v), fun h => ?_⟩
    cases h
  have hne : arraysOf libs docs ≠ [] := fun h => htypes (List.map_eq_nil_iff.mp h)
  rw [documentsToBatch, if_neg (by rwa [List.isEmpty_iff])]
  rcases tryNew_cases hcount hlength with ⟨-, -, hok⟩ | ⟨hnot, -⟩
  · exact hok
  · exact absurd ⟨hne, hfits⟩ hnot

theorem documentsToBatch_error (hdocs : docs ≠ []) (htypes : fieldTypes docs = []) :
    documentsToBatch libs docs = .error .noRowCount := by
  rw [documentsToBatch, if_neg (by rwa [List.isEmpty_iff]), schemaOf, arraysOf, htypes]
  rfl

theorem fieldTypes_ne_nil_iff : fieldTypes docs ≠ [] ↔
    ∃ doc ∈ docs, ∃ name, name ≠ "_id" ∧ (doc.get name).isSome := by
  constructor
  · intro h
    obtain ⟨⟨name, type⟩, hmem⟩ := List.exists_mem_of_ne_nil _ h
    obtain ⟨hname, v, hv, -⟩ := mem_fieldTypes.mp hmem
    obtain ⟨doc, hdoc, hget⟩ := List.exists_of_findSome?_eq_some hv
    exact ⟨doc, hdoc, name, hname, hget ▸ rfl⟩
  · rintro ⟨doc, hdoc, name, hname, hget⟩
    have hsome : (firstValue docs name).isSome = true :=
      List.findSome?_isSome_iff.mpr ⟨doc, hdoc, hget⟩
    obtain ⟨v, hv⟩ := Option.isSome_iff_exists.mp hsome
    exact List.ne_nil_of_mem (mem_fieldTypes.mpr ⟨hname, v, hv, rfl⟩)

/-- Every order of the documents gives a batch with one list of columns, which shows them. -/
def InAnyOrder (libs : BsonLibraries F) (docs : List (Document F)) : Prop :=
  ∃ fields, ∀ docs' : List (Document F), docs'.Perm docs →
    ∃ batch, documentsToBatch libs docs' = .ok batch ∧ batch.fields = fields ∧ Shows docs' batch

theorem firstValue_of_perm {name : String} (hperm : docs'.Perm docs)
    (hkinds : ∀ doc ∈ docs, ∀ doc' ∈ docs, ∀ v v', doc.get name = some v →
      doc'.get name = some v' → v.kind = v'.kind) :
    (firstValue docs' name).map bsonToArrowType = (firstValue docs name).map bsonToArrowType := by
  cases hfirst' : firstValue docs' name with
  | none =>
    have hnone : firstValue docs name = none := List.findSome?_eq_none_iff.mpr fun doc hdoc =>
      List.findSome?_eq_none_iff.mp hfirst' doc (hperm.mem_iff.mpr hdoc)
    rw [hnone]
  | some v' =>
    obtain ⟨doc', hdoc', hget'⟩ := List.exists_of_findSome?_eq_some hfirst'
    have hsome : (firstValue docs name).isSome = true :=
      List.findSome?_isSome_iff.mpr ⟨doc', hperm.mem_iff.mp hdoc', hget' ▸ rfl⟩
    obtain ⟨v, hfirst⟩ := Option.isSome_iff_exists.mp hsome
    obtain ⟨doc, hdoc, hget⟩ := List.exists_of_findSome?_eq_some hfirst
    have hkind := hkinds doc' (hperm.mem_iff.mp hdoc') doc hdoc v' v hget' hget
    rw [hfirst, Option.map_some, Option.map_some, (bsonToArrowType_eq_iff v' v).mpr hkind]

theorem shows_documentsToBatch
    (hvalues : ∀ name, name ≠ "_id" → ∀ doc ∈ docs, ∀ doc' ∈ docs, ∀ v v',
      doc.get name = some v → doc'.get name = some v' → v ≠ .null ∧ v.kind = v'.kind) :
    Shows docs ⟨schemaOf docs, arraysOf libs docs, docs.length⟩ where
  rows := rfl
  names := by
    intro doc hdoc name hname hget
    have hsome : (firstValue docs name).isSome = true :=
      List.findSome?_isSome_iff.mpr ⟨doc, hdoc, hget⟩
    obtain ⟨v, hv⟩ := Option.isSome_iff_exists.mp hsome
    rw [schemaOf, List.map_map]
    exact List.mem_map.mpr ⟨(name, bsonToArrowType v), mem_fieldTypes.mpr ⟨hname, v, hv, rfl⟩, rfl⟩
  types := by
    rw [schemaOf, arraysOf, List.map_map, List.map_map]
    refine List.map_congr_left ?_
    rintro ⟨name, type⟩ hmem
    obtain ⟨-, v, -, hv⟩ := mem_fieldTypes.mp hmem
    exact dataType_arrayOf libs docs name (hv ▸ isColumnType_bsonToArrowType v)
  cells := by
    intro j field c hfield hc
    dsimp only at hfield hc
    rw [schemaOf, List.getElem?_map] at hfield
    rw [arraysOf, List.getElem?_map] at hc
    obtain ⟨⟨name, type⟩, hj, rfl⟩ := Option.map_eq_some_iff.mp hfield
    rw [hj, Option.map_some, Option.some.injEq] at hc
    subst hc
    obtain ⟨hname, v, hfirst, hv⟩ := mem_fieldTypes.mp (List.mem_of_getElem? hj)
    obtain ⟨doc₀, hdoc₀, hget₀⟩ := List.exists_of_findSome?_eq_some hfirst
    refine ⟨length_arrayOf libs docs name type, ?_⟩
    refine showsName_arrayOf libs (hv ▸ isColumnType_bsonToArrowType v) fun doc hdoc w hget => ?_
    obtain ⟨hne, hkind⟩ := hvalues name hname doc hdoc doc₀ hdoc₀ w v hget hget₀
    exact ⟨hne, ((bsonToArrowType_eq_iff w v).mpr hkind).trans hv⟩

theorem inAnyOrder_of_uniform (h : Uniform docs) : InAnyOrder libs docs := by
  rcases h with rfl | ⟨hname, hvalues⟩
  · refine ⟨[⟨"_id", .utf8, false⟩], fun docs' hperm => ?_⟩
    obtain rfl := hperm.eq_nil
    refine ⟨_, rfl, rfl, rfl, (fun doc hdoc => by cases hdoc), rfl, fun j field c _ hc => ?_⟩
    rw [RecordBatch.newEmpty, List.getElem?_map] at hc
    obtain ⟨field', -, rfl⟩ := Option.map_eq_some_iff.mp hc
    exact ⟨rfl, fun i doc cell hdoc => by cases hdoc⟩
  · refine ⟨schemaOf docs, fun docs' hperm => ?_⟩
    have htypes : fieldTypes docs' = fieldTypes docs := fieldTypes_eq fun name hne =>
      firstValue_of_perm hperm fun doc hdoc doc' hdoc' v v' hget hget' =>
        (hvalues name hne doc hdoc doc' hdoc' v v' hget hget').2
    have hnil : fieldTypes docs' ≠ [] := htypes ▸ fieldTypes_ne_nil_iff.mpr hname
    obtain ⟨doc, hdoc, -⟩ := id hname
    have hdocs : docs' ≠ [] := List.ne_nil_of_mem (hperm.mem_iff.mpr hdoc)
    refine ⟨_, documentsToBatch_ok hdocs hnil, congrArg (List.map _) htypes, ?_⟩
    refine shows_documentsToBatch fun name hne doc hdoc doc' hdoc' => ?_
    exact hvalues name hne doc (hperm.mem_iff.mp hdoc) doc' (hperm.mem_iff.mp hdoc')

/-- A document that comes first gives its names their types. -/
theorem exists_perm_first {doc : Document F} (hdoc : doc ∈ docs) :
    ∃ rest, (doc :: rest).Perm docs := by
  obtain ⟨before, after, rfl⟩ := List.append_of_mem hdoc
  exact ⟨before ++ after, List.perm_middle.symm⟩

theorem uniform_of_inAnyOrder (h : InAnyOrder libs docs) : Uniform docs := by
  obtain ⟨fields, hbatch⟩ := h
  by_cases hdocs : docs = []
  · exact Or.inl hdocs
  have hnil : fieldTypes docs ≠ [] := by
    intro hnil
    obtain ⟨batch, hok, -⟩ := hbatch docs (List.Perm.refl docs)
    rw [documentsToBatch_error hdocs hnil] at hok
    cases hok
  have hfields : ∀ {docs' : List (Document F)}, docs'.Perm docs → fieldTypes docs' ≠ [] →
      schemaOf docs' = fields ∧ Shows docs' ⟨schemaOf docs', arraysOf libs docs', docs'.length⟩ := by
    intro docs' hperm hnil'
    obtain ⟨batch, hok, hschema, hshows⟩ := hbatch docs' hperm
    have hdocs' : docs' ≠ [] := fun h => hdocs (List.nil_perm.mp (h ▸ hperm))
    rw [documentsToBatch_ok hdocs' hnil'] at hok
    obtain rfl := Except.ok.inj hok
    exact ⟨hschema, hshows⟩
  -- Each value names the type of its column, since its document may come first.
  have hfirst : ∀ name, name ≠ "_id" → ∀ doc ∈ docs, ∀ v, doc.get name = some v →
      v ≠ .null ∧ (name, bsonToArrowType v) ∈ fieldTypes docs := by
    intro name hname doc hdoc v hget
    obtain ⟨rest, hperm⟩ := exists_perm_first hdoc
    have hvalue : firstValue (doc :: rest) name = some v := by
      rw [firstValue, List.findSome?_cons, hget]
    have hmem : (name, bsonToArrowType v) ∈ fieldTypes (doc :: rest) :=
      mem_fieldTypes.mpr ⟨hname, v, hvalue, rfl⟩
    obtain ⟨hschema, hshows⟩ := hfields hperm (List.ne_nil_of_mem hmem)
    constructor
    · rintro rfl
      obtain ⟨j, hj⟩ := List.mem_iff_getElem?.mp hmem
      have hcells := hshows.cells j ⟨name, .utf8, true⟩ (arrayOf libs (doc :: rest) name .utf8)
        (by rw [schemaOf, List.getElem?_map, hj]; rfl)
        (by rw [arraysOf, List.getElem?_map, hj]; rfl)
      have hcell := hcells.2 0 doc (some "") rfl (by
        change some ((doc.get name).map (bsonToString libs)) = _
        rw [hget]
        rfl)
      cases hcell.null.mpr (Or.inr hget)
    · have hsame : schemaOf (doc :: rest) = schemaOf docs :=
        hschema.trans (hfields (List.Perm.refl docs) hnil).1.symm
      have hfield : (⟨name, bsonToArrowType v, true⟩ : Field) ∈ schemaOf docs :=
        hsame ▸ List.mem_map.mpr ⟨_, hmem, rfl⟩
      obtain ⟨⟨name', type⟩, hmem', heq⟩ := List.mem_map.mp hfield
      obtain ⟨rfl, rfl, -⟩ := Field.mk.inj heq
      exact hmem'
  refine Or.inr ⟨fieldTypes_ne_nil_iff.mp hnil, ?_⟩
  intro name hname doc hdoc doc' hdoc' v v' hget hget'
  obtain ⟨hne, hmem⟩ := hfirst name hname doc hdoc v hget
  obtain ⟨-, hmem'⟩ := hfirst name hname doc' hdoc' v' hget'
  have hpair := List.inj_on_of_nodup_map (nodup_fieldTypes docs) hmem hmem' rfl
  exact ⟨hne, (bsonToArrowType_eq_iff v v').mp (Prod.mk.inj hpair).2⟩

end Batches

section Fetches
variable {libs} {read : Collection F → List (Document F)} {find : Collection F}

theorem faithful_iff (hread : ∀ docs : List (Document F), docs.Perm (read find) →
      ∃ find', read find' = docs) :
    Faithful read (fun find => documentsToBatch libs (read find)) find ↔ Uniform (read find) := by
  constructor
  · rintro ⟨fields, h⟩
    have horder : InAnyOrder libs (read find) := by
      refine ⟨fields, fun docs hperm => ?_⟩
      obtain ⟨find', rfl⟩ := hread docs hperm
      exact h find' hperm
    exact uniform_of_inAnyOrder horder
  · intro h
    have horder : InAnyOrder libs (read find) := inAnyOrder_of_uniform h
    obtain ⟨fields, hbatch⟩ := horder
    exact ⟨fields, fun find' => hbatch (read find')⟩

theorem faithful_documentsAsArrow_iff (find : Collection F) :
    Faithful documentsAsArrow (fetchCollectionAsArrow libs) find ↔
      Uniform (documentsAsArrow find) := by
  refine faithful_iff fun docs hperm => ⟨fun _ => docs, ?_⟩
  rw [documentsAsArrow_eq]
  refine List.take_of_length_le (hperm.length_eq.trans_le ?_)
  rw [documentsAsArrow_eq]
  exact List.length_take_le _ _

theorem faithful_documentsCapped_iff (maxDocs : UInt64) (find : Collection F) :
    Faithful (documentsCapped maxDocs) (fetchCollectionCapped libs maxDocs) find ↔
      Uniform (documentsCapped maxDocs find) :=
  faithful_iff fun docs _ => ⟨fun _ => docs, rfl⟩

/-- Both fetches show the documents in one way for all their orders exactly when the documents are
uniform. -/
theorem fetchCollection_faithful_iff (libs : BsonLibraries F) (find : Collection F)
    (maxDocs : UInt64) :
    (Faithful documentsAsArrow (fetchCollectionAsArrow libs) find ↔
      Uniform (documentsAsArrow find)) ∧
    (Faithful (documentsCapped maxDocs) (fetchCollectionCapped libs maxDocs) find ↔
      Uniform (documentsCapped maxDocs find)) :=
  ⟨faithful_documentsAsArrow_iff find, faithful_documentsCapped_iff maxDocs find⟩

/-- Texts that are all empty, and floats that are integers. -/
def plainLibraries : BsonLibraries ℤ where
  asI64 d := Int64.ofInt d
  ofInt n := n
  doubleText _ := ""
  toHex _ := ""
  rfc3339 _ := none
  documentJson _ := none
  arrayJson _ := none

def unknownStock : Document ℤ := ⟨[("stock", .null)], by decide⟩

def fullStock : Document ℤ := ⟨[("stock", .int32 7)], by decide⟩

/-- A null that comes first makes its column one of texts, and is an empty text in it. -/
theorem not_faithful_unknownStock :
    ¬ Faithful documentsAsArrow (fetchCollectionAsArrow plainLibraries)
      (fun _ => [unknownStock, fullStock]) ∧
    ¬ Faithful (documentsCapped 10000) (fetchCollectionCapped plainLibraries 10000)
      (fun _ => [unknownStock, fullStock]) := by
  have hnot : ¬ Uniform [unknownStock, fullStock] := by
    rintro (hnil | ⟨-, h⟩)
    · cases hnil
    · have hmem : unknownStock ∈ [unknownStock, fullStock] := List.mem_cons_self
      exact (h "stock" (by decide) _ hmem _ hmem _ _ rfl rfl).1 rfl
  refine ⟨fun h => hnot ?_, fun h => hnot ?_⟩
  · exact (faithful_documentsAsArrow_iff _).mp h
  · exact (faithful_documentsCapped_iff _ _).mp h

end Fetches
end RustLake.Mongo
