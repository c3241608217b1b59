import Mathlib.Data.String.Basic
import RustLake.Arrow.Batch
import RustLake.Order.Keyed

/-! MongoDB's documents, and the columns that a fetch makes of them. -/
namespace RustLake.Mongo
open Arrow Keyed

/-- The values of a document. Those that are only ever printed are kept as what `Debug` prints. -/
inductive Bson (F : Type) where
  | double (d : F)
  | string (s : String)
  | array (items : List (Bson F))
  | document (entries : List (String × Bson F))
  | boolean (b : Bool)
  | null
  | int32 (i : Int32)
  | int64 (i : Int64)
  | objectId (bytes : List UInt8)
  | dateTime (millis : Int64)
  | other (debug : String)

/-- A document has one value for a key. -/
structure Document (F : Type) where
  entries : List (String × Bson F)
  nodup : (entries.map Prod.fst).Nodup

variable {F : Type}

def Document.get (doc : Document F) (key : String) : Option (Bson F) := doc.entries.lookup key

/-- Casts of floats, and the texts of values. -/
structure BsonLibraries (F : Type) where
  asI64 : F → Int64
  ofInt : ℤ → F
  doubleText : F → String
  toHex : List UInt8 → String
  rfc3339 : Int64 → Option String
  documentJson : List (String × Bson F) → Option String
  arrayJson : List (Bson F) → Option String

variable (libs : BsonLibraries F)

def bsonToArrowType : Bson F → DataType
  | .boolean _ => .boolean
  | .int32 _ | .int64 _ => .int64
  | .double _ => .float64
  | .dateTime _ => .timestampMicrosecond
  | _ => .utf8

def bsonToBool : Bson F → Option Bool
  | .boolean b => some b
  | _ => none

def bsonToI64 : Bson F → Option Int64
  | .int32 i => some i.toInt64
  | .int64 i => some i
  | .double d => some (libs.asI64 d)
  | _ => none

def bsonToF64 : Bson F → Option F
  | .double d => some d
  | .int32 i => some (libs.ofInt i.toInt)
  | .int64 i => some (libs.ofInt i.toInt)
  | _ => none

/-- The multiplication by 1000 wraps, as it does without overflow checks. -/
def bsonToMicros : Bson F → Option Int64
  | .dateTime millis => some (millis * 1000)
  | _ => none

def bsonToString : Bson F → String
  | .string s => s
  | .int32 i => toString i.toInt
  | .int64 i => toString i.toInt
  | .double d => libs.doubleText d
  | .boolean b => toString b
  | .null => ""
  | .objectId bytes => libs.toHex bytes
  | .dateTime millis => (libs.rfc3339 millis).getD ""
  | .document entries => (libs.documentJson entries).getD ""
  | .array items => (libs.arrayJson items).getD ""
  | .other debug => debug

/-- The names in `field_types` are those in `seen_keys`. -/
def seeEntry (fieldTypes : List (String × DataType)) (entry : String × Bson F) :
    List (String × DataType) :=
  if entry.1 = "_id" then fieldTypes
  else if entry.1 ∈ fieldTypes.map Prod.fst then fieldTypes
  else fieldTypes ++ [(entry.1, bsonToArrowType entry.2)]

def discoverSchema (docs : List (Document F)) : List (String × DataType) :=
  docs.foldl (fun fieldTypes doc => doc.entries.foldl seeEntry fieldTypes) []

def fieldTypes (docs : List (Document F)) : List (String × DataType) :=
  (discoverSchema docs).mergeSort fun a b => a.1 ≤ b.1

def arrayOf (docs : List (Document F)) (fieldName : String) (arrowType : DataType) : Column F :=
  match arrowType with
  | .boolean => ⟨.boolean, docs.map fun d => (d.get fieldName).bind bsonToBool⟩
  | .int64 => ⟨.int64, docs.map fun d => (d.get fieldName).bind (bsonToI64 libs)⟩
  | .float64 => ⟨.float64, docs.map fun d => (d.get fieldName).bind (bsonToF64 libs)⟩
  | .timestampMicrosecond =>
    ⟨.timestampMicrosecond, docs.map fun d => (d.get fieldName).bind bsonToMicros⟩
  | _ => ⟨.utf8, docs.map fun d => (d.get fieldName).map (bsonToString libs)⟩

def schemaOf (docs : List (Document F)) : List Field :=
  (fieldTypes docs).map fun (name, dtype) => ⟨name, dtype, true⟩

def arraysOf (docs : List (Document F)) : List (Column F) :=
  (fieldTypes docs).map fun (fieldName, arrowType) => arrayOf libs docs fieldName arrowType

/-- What both fetches make of the documents that they have read. -/
def documentsToBatch (docs : List (Document F)) : Except BatchError (RecordBatch F) :=
  if docs.isEmpty then .ok (RecordBatch.newEmpty [⟨"_id", .utf8, false⟩])
  else RecordBatch.tryNew (schemaOf docs) (arraysOf libs docs)

def readDocuments (docs : List (Document F)) : List (Document F) → List (Document F)
  | [] => docs
  | doc :: cursor =>
    if 100000 ≤ (docs ++ [doc]).length then docs ++ [doc] else readDocuments (docs ++ [doc]) cursor

/-- What a collection gives for a limit, in the order in which it gives it. -/
abbrev Collection (F : Type) := Option Int64 → List (Document F)

def documentsAsArrow (find : Collection F) : List (Document F) := readDocuments [] (find none)

def documentsCapped (maxDocs : UInt64) (find : Collection F) : List (Document F) :=
  find (some maxDocs.toInt64)

def fetchCollectionAsArrow (find : Collection F) : Except BatchError (RecordBatch F) :=
  documentsToBatch libs (documentsAsArrow find)

def fetchCollectionCapped (maxDocs : UInt64) (find : Collection F) :
    Except BatchError (RecordBatch F) :=
  documentsToBatch libs (documentsCapped maxDocs find)

section Reading

theorem readDocuments_eq {docs : List (Document F)} (h : docs.length < 100000)
    (cursor : List (Document F)) : readDocuments docs cursor = (docs ++ cursor).take 100000 := by
  induction cursor generalizing docs with
  | nil =>
    rw [List.append_nil, List.take_of_length_le (Nat.le_of_lt h)]
    rfl
  | cons doc cursor ih =>
    have happend : docs ++ doc :: cursor = (docs ++ [doc]) ++ cursor := by simp
    have hlength : (docs ++ [doc]).length = docs.length + 1 := by simp
    unfold readDocuments
    rw [happend]
    split_ifs with hfull
    · have hend : (docs ++ [doc]).length = 100000 := by omega
      rw [List.take_append_of_le_length (le_of_eq hend.symm), ← hend, List.take_length]
    · exact ih (Nat.lt_of_not_le hfull)

theorem documentsAsArrow_eq (find : Collection F) :
    documentsAsArrow find = (find none).take 100000 := by
  have hzero : ([] : List (Document F)).length < 100000 := Nat.zero_lt_succ 99999
  rw [documentsAsArrow, readDocuments_eq hzero, List.nil_append]

end Reading

section Schema
variable {docs docs' : List (Document F)} {name : String} {type : DataType}

/-- The first value that a name has. -/
def firstValue (docs : List (Document F)) (name : String) : Option (Bson F) :=
  docs.findSome? (·.get name)

theorem lookup_entries (docs : List (Document F)) (name : String) :
    (docs.flatMap (·.entries)).lookup name = firstValue docs name := by
  induction docs with
  | nil => rfl
  | cons doc docs ih =>
    rw [List.flatMap_cons, List.lookup_append, ih, firstValue, firstValue, List.findSome?_cons]
    change (doc.get name).or _ = _
    cases doc.get name <;> rfl

theorem nodup_foldl_seeEntry {types : List (String × DataType)}
    (h : (types.map Prod.fst).Nodup) (entries : List (String × Bson F)) :
    ((entries.foldl seeEntry types).map Prod.fst).Nodup := by
  induction entries generalizing types with
  | nil => exact h
  | cons entry entries ih =>
    refine ih ?_
    unfold seeEntry
    split_ifs with hid hseen
    · exact h
    · exact h
    · rw [List.map_append]
      refine List.nodup_append.mpr ⟨h, List.nodup_singleton _, ?_⟩
      intro a ha b hb hab
      rw [List.map_singleton, List.mem_singleton] at hb
      exact hseen (hb ▸ hab ▸ ha)

theorem lookup_foldl_seeEntry (hname : name ≠ "_id") (entries : List (String × Bson F))
    (types : List (String × DataType)) : (entries.foldl seeEntry types).lookup name =
      (types.lookup name).or ((entries.lookup name).map bsonToArrowType) := by
  induction entries generalizing types with
  | nil => simp
  | cons entry entries ih =>
    obtain ⟨key, v⟩ := entry
    rw [List.foldl_cons, ih, List.lookup_cons, seeEntry]
    by_cases hkey : name = key
    · subst hkey
      rw [if_neg hname, BEq.rfl]
      split_ifs with hseen
      · obtain ⟨type, htype⟩ := Option.isSome_iff_exists.mp (isSome_lookup_iff.mpr hseen)
        rw [htype]
        rfl
      · have hnone : types.lookup name = none :=
          Option.not_isSome_iff_eq_none.mp fun h => hseen (isSome_lookup_iff.mp h)
        rw [List.lookup_append, hnone, List.lookup_cons_self]
        rfl
    · rw [beq_false_of_ne hkey]
      split_ifs with hid hseen
      · rfl
      · rfl
      · have hother : [(key, bsonToArrowType v)].lookup name = none := by
          rw [List.lookup_cons, beq_false_of_ne hkey]
          rfl
        rw [List.lookup_append, hother, Option.or_none]

theorem not_mem_foldl_seeEntry {types : List (String × DataType)}
    (h : "_id" ∉ types.map Prod.fst) (entries : List (String × Bson F)) :
    "_id" ∉ (entries.foldl seeEntry types).map Prod.fst := by
  induction entries generalizing types with
  | nil => exact h
  | cons entry entries ih =>
    refine ih ?_
    unfold seeEntry
    split_ifs with hid hseen
    · exact h
    · exact h
    · rw [List.map_append, List.mem_append, not_or]
      refine ⟨h, fun hmem => hid ?_⟩
      rw [List.map_singleton, List.mem_singleton] at hmem
      exact hmem.symm

theorem nodup_discoverSchema (docs : List (Document F)) :
    ((discoverSchema docs).map Prod.fst).Nodup := by
  rw [discoverSchema, ← List.foldl_flatMap]
  have hnil : (([] : List (String × DataType)).map Prod.fst).Nodup := List.nodup_nil
  exact nodup_foldl_seeEntry hnil _

theorem lookup_discoverSchema (docs : List (Document F)) (name : String) :
    (discoverSchema docs).lookup name =
      if name = "_id" then none else (firstValue docs name).map bsonToArrowType := by
  rw [discoverSchema, ← List.foldl_flatMap]
  split_ifs with hname
  · subst hname
    refine Option.not_isSome_iff_eq_none.mp fun hsome => ?_
    exact not_mem_foldl_seeEntry List.not_mem_nil _ (isSome_lookup_iff.mp hsome)
  · rw [lookup_foldl_seeEntry hname, lookup_entries]
    rfl

/-- The columns are the names other than `_id`, each with the type of its first value. -/
theorem mem_fieldTypes : (name, type) ∈ fieldTypes docs ↔
    name ≠ "_id" ∧ ∃ v, firstValue docs name = some v ∧ bsonToArrowType v = type := by
  rw [fieldTypes, List.mem_mergeSort, mem_iff_lookup (nodup_discoverSchema docs),
    lookup_discoverSchema]
  split_ifs with hname
  · exact iff_of_false (fun h => by cases h) fun h => h.1 hname
  · rw [Option.map_eq_some_iff]
    exact (and_iff_right hname).symm

theorem nodup_fieldTypes (docs : List (Document F)) : ((fieldTypes docs).map Prod.fst).Nodup :=
  ((List.mergeSort_perm _ _).map Prod.fst).nodup_iff.mpr (nodup_discoverSchema docs)

theorem fieldTypes_eq (h : ∀ name, name ≠ "_id" → (firstValue docs name).map bsonToArrowType =
    (firstValue docs' name).map bsonToArrowType) : fieldTypes docs = fieldTypes docs' := by
  refine mergeSort_eq (nodup_discoverSchema docs) (nodup_discoverSchema docs') fun name => ?_
  rw [lookup_discoverSchema, lookup_discoverSchema]
  split_ifs with hname
  · rfl
  · exact h name hname

end Schema
end RustLake.Mongo
