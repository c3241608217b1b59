import RustLake.Iceberg.Maintenance

/-! What the document of each commit says: which fields it changes, and what the new
snapshot list is. -/
namespace RustLake.Iceberg
open RustLake.Json RustLake.ObjectStore RustLake.Text

theorem mem_arrayAt_mapArray {v e : Value} {key : String} {f : List Value → List Value}
    (h : e ∈ arrayAt (v.mapArray key f) key) : e ∈ f (arrayAt v key) := by
  unfold arrayAt at h ⊢
  rw [get_mapArray_self] at h
  cases hv : v.get key with
  | none => simp [hv] at h
  | some x => cases x <;> simp [hv, Value.onArray, Value.asArray] at h ⊢; exact h

theorem arrayAt_mapArray_self {v : Value} {key : String} {items : List Value}
    (h : v.get key = some (.arr items)) (f : List Value → List Value) :
    arrayAt (v.mapArray key f) key = f items := by
  unfold arrayAt
  rw [get_mapArray_self, h]
  rfl

theorem arrayAt_congr {v w : Value} {key : String} (h : w.get key = v.get key) :
    arrayAt w key = arrayAt v key := by
  unfold arrayAt
  rw [h]

/-- The document has an array under the key. -/
def HasArray (doc : Value) (key : String) : Prop := ∃ items, doc.get key = some (.arr items)

theorem arrayAt_of_not_hasArray {doc : Value} {key : String} (h : ¬ HasArray doc key) :
    arrayAt doc key = [] := by
  unfold arrayAt
  cases hget : doc.get key with
  | none => rfl
  | some x =>
    cases x with
    | arr items => exact absurd ⟨items, hget⟩ h
    | _ => rfl

theorem HasArray.arrayAt_mapArray {doc : Value} {key : String} (h : HasArray doc key)
    (f : List Value → List Value) : arrayAt (doc.mapArray key f) key = f (arrayAt doc key) := by
  obtain ⟨items, hitems⟩ := h
  have hold : arrayAt doc key = items := by simp [arrayAt, hitems, Value.asArray]
  rw [arrayAt_mapArray_self hitems, hold]

theorem HasArray.mapArray {doc : Value} {key : String} (h : HasArray doc key) (other : String)
    (f : List Value → List Value) : HasArray (doc.mapArray other f) key := by
  obtain ⟨items, hitems⟩ := h
  by_cases hkey : key = other
  · subst hkey
    exact ⟨f items, by rw [get_mapArray_self, hitems]; rfl⟩
  · exact ⟨items, by rw [get_mapArray_ne hkey, hitems]⟩

theorem HasArray.congr {doc doc' : Value} {key : String} (h : HasArray doc key)
    (hget : doc'.get key = doc.get key) : HasArray doc' key := by
  obtain ⟨items, hitems⟩ := h
  exact ⟨items, hget.trans hitems⟩

/-- The arrays that commits add to. -/
def arrayKeys : List String := ["snapshots", "metadata-log", "schemas", "partition-specs"]

theorem ne_of_mem_arrayKeys {key other : String} (hkey : key ∈ arrayKeys)
    (hother : other ∉ arrayKeys) : key ≠ other := fun h => hother (h ▸ hkey)

theorem HasArray.set {doc doc' : Value} {key other : String} {x : Value} (h : HasArray doc key)
    (hkey : key ∈ arrayKeys) (hset : doc.set other x = some doc') (hother : other ∉ arrayKeys) :
    HasArray doc' key := h.congr (get_set_ne (ne_of_mem_arrayKeys hkey hother) hset)

/-- The entry of the metadata log for the version that a commit starts from. -/
def logEntry (state : IcebergTableState) (nowMs : Int64) : Value :=
  .obj [
    ("timestamp-ms", .ofI64 (((state.metadata.get "last-updated-ms").bind Value.asI64).getD nowMs)),
    ("metadata-file", .str (state.location ++ "/metadata/v" ++ toString state.metadataVersion ++
      ".metadata.json"))]

theorem logPreviousVersion_eq (state : IcebergTableState) (nowMs : Int64) (doc : Value) :
    logPreviousVersion state nowMs doc =
      doc.mapArray "metadata-log" (· ++ [logEntry state nowMs]) := rfl

theorem parseSnapshots_congr {v w : Value} (h : w.get "snapshots" = v.get "snapshots") :
    parseSnapshots w = parseSnapshots v := by
  unfold parseSnapshots
  rw [arrayAt_congr h]

theorem strAt_congr {v w : Value} {key : String} (h : w.get key = v.get key)
    (default : String) : strAt w key default = strAt v key default := by
  unfold strAt
  rw [h]

/-- The number under a key of a metadata document. -/
def intAt (v : Value) (key : String) : ℤ :=
  match v.get key with
  | some (.num n) => n
  | _ => 0

theorem intAt_congr {v w : Value} {key : String} (h : w.get key = v.get key) :
    intAt w key = intAt v key := by
  unfold intAt
  rw [h]

theorem get_logPreviousVersion {key : String} (hkey : key ≠ "metadata-log")
    (state : IcebergTableState) (nowMs : Int64) (doc : Value) :
    (logPreviousVersion state nowMs doc).get key = doc.get key :=
  get_mapArray_ne hkey _ _

theorem get_setMainRef {doc doc' : Value} {id : Int64} (h : setMainRef doc id = some doc')
    {key : String} (hkey : key ≠ "refs") : doc'.get key = doc.get key := by
  unfold setMainRef at h
  cases hrefs : doc.get "refs" with
  | none =>
    simp only [hrefs, Option.some.injEq] at h
    rw [h]
  | some refs =>
    simp only [hrefs, Option.bind_eq_bind, Option.bind_eq_some_iff] at h
    obtain ⟨main, -, refs', -, hset⟩ := h
    exact get_set_ne hkey hset

theorem get_ensureSchema {state : IcebergTableState} {schema : ArrowSchema}
    {doc doc' : Value} (h : ensureSchema state schema doc = some doc') {key : String}
    (hkey : key ∉ ["schemas", "current-schema-id", "last-column-id"]) :
    doc'.get key = doc.get key := by
  simp only [List.mem_cons, List.not_mem_nil, or_false, not_or] at hkey
  obtain ⟨hschemas, hcurrent, hlast⟩ := hkey
  unfold ensureSchema at h
  split at h
  · rw [Option.some.inj h]
  · simp only [Option.bind_eq_bind, Option.bind_eq_some_iff] at h
    obtain ⟨d, hd, hset⟩ := h
    rw [get_set_ne hlast hset, get_set_ne hcurrent hd, get_mapArray_ne hschemas]

theorem i64At_ofI32 {doc : Value} {key : String} {id : Int32} (h : doc.get key = some (.ofI32 id)) :
    i64At doc key = id.toInt64 := by
  unfold i64At
  rw [h, Option.bind_some, asI64_ofI32, Option.getD_some]

theorem i32At_ofI32 {doc : Value} {key : String} {id : Int32} (h : doc.get key = some (.ofI32 id)) :
    i32At doc key = id := by
  unfold i32At
  rw [i64At_ofI32 h, asI32_toInt64]

section Append
variable {state : IcebergTableState} {files : List DataFileInfo} {schema : ArrowSchema}
  {operation : String} {nowMs : Int64} {doc : Value}

/-- The documents that `append_snapshot` goes through. -/
theorem appendedMetadata_steps
    (h : appendedMetadata state files schema operation nowMs = some doc) :
    ∃ d₁ d₂ d₃ d₄,
      (logPreviousVersion state nowMs
        ((state.metadata.mapArray "snapshots"
            (· ++ [snapshotEntry state files operation nowMs])).mapArray "snapshot-log"
          (· ++ [.obj [("timestamp-ms", .ofI64 nowMs), ("snapshot-id", .ofI64 nowMs)]]))).set
        "current-snapshot-id" (.ofI64 nowMs) = some d₁ ∧
      d₁.set "last-updated-ms" (.ofI64 nowMs) = some d₂ ∧
      d₂.set "last-sequence-number" (.num (state.snapshots.length + files.length)) = some d₃ ∧
      setMainRef d₃ nowMs = some d₄ ∧ ensureSchema state schema d₄ = some doc := by
  unfold appendedMetadata at h
  simp only [Option.bind_eq_bind, Option.bind_eq_some_iff] at h
  obtain ⟨d₁, h₁, d₂, h₂, d₃, h₃, d₄, h₄, h₅⟩ := h
  exact ⟨d₁, d₂, d₃, d₄, h₁, h₂, h₃, h₄, h₅⟩

theorem get_snapshots_appendedMetadata
    (h : appendedMetadata state files schema operation nowMs = some doc) :
    doc.get "snapshots" = (state.metadata.mapArray "snapshots"
      (· ++ [snapshotEntry state files operation nowMs])).get "snapshots" := by
  obtain ⟨d₁, d₂, d₃, d₄, h₁, h₂, h₃, h₄, h₅⟩ := appendedMetadata_steps h
  rw [get_ensureSchema h₅ (by decide), get_setMainRef h₄ (by decide),
    get_set_ne (by decide) h₃, get_set_ne (by decide) h₂, get_set_ne (by decide) h₁,
    get_logPreviousVersion (by decide), get_mapArray_ne (by decide)]

theorem get_current_appendedMetadata
    (h : appendedMetadata state files schema operation nowMs = some doc) :
    doc.get "current-snapshot-id" = some (.ofI64 nowMs) := by
  obtain ⟨d₁, d₂, d₃, d₄, h₁, h₂, h₃, h₄, h₅⟩ := appendedMetadata_steps h
  rw [get_ensureSchema h₅ (by decide), get_setMainRef h₄ (by decide),
    get_set_ne (by decide) h₃, get_set_ne (by decide) h₂, get_set_self h₁]

theorem get_appendedMetadata
    (h : appendedMetadata state files schema operation nowMs = some doc) {key : String}
    (hkey : key ∉ ["snapshots", "snapshot-log", "metadata-log", "current-snapshot-id",
      "last-updated-ms", "last-sequence-number", "refs", "schemas", "current-schema-id",
      "last-column-id"]) : doc.get key = state.metadata.get key := by
  obtain ⟨d₁, d₂, d₃, d₄, h₁, h₂, h₃, h₄, h₅⟩ := appendedMetadata_steps h
  simp only [List.mem_cons, List.not_mem_nil, or_false, not_or] at hkey
  obtain ⟨hsnaps, hlog, hmlog, hcur, hupd, hseq, hrefs, hschemas, hid, hcol⟩ := hkey
  rw [get_ensureSchema h₅ (by simp [hschemas, hid, hcol]), get_setMainRef h₄ hrefs,
    get_set_ne hseq h₃, get_set_ne hupd h₂, get_set_ne hcur h₁,
    get_logPreviousVersion hmlog, get_mapArray_ne hlog, get_mapArray_ne hsnaps]

/-- Every snapshot of the new document was there before or is the appended one. -/
theorem mem_parseSnapshots_appendedMetadata
    (h : appendedMetadata state files schema operation nowMs = some doc) {snap : SnapshotInfo}
    (hsnap : snap ∈ parseSnapshots doc) :
    snap ∈ parseSnapshots state.metadata ∨
      snap = parseSnapshot (snapshotEntry state files operation nowMs) := by
  rw [parseSnapshots_congr (get_snapshots_appendedMetadata h)] at hsnap
  obtain ⟨e, he, rfl⟩ := List.mem_map.mp hsnap
  have hentry := mem_arrayAt_mapArray he
  rcases List.mem_append.mp hentry with hold | hnew
  · exact Or.inl (List.mem_map_of_mem hold)
  · exact Or.inr (by rw [List.mem_singleton.mp hnew])

/-- The snapshot list with the new entry at its end. -/
theorem snapshots_appendedMetadata
    (h : appendedMetadata state files schema operation nowMs = some doc)
    (harray : HasArray state.metadata "snapshots") :
    arrayAt doc "snapshots" =
      arrayAt state.metadata "snapshots" ++ [snapshotEntry state files operation nowMs] := by
  rw [arrayAt_congr (get_snapshots_appendedMetadata h), harray.arrayAt_mapArray]

theorem parseSnapshots_appendedMetadata
    (h : appendedMetadata state files schema operation nowMs = some doc)
    (harray : HasArray state.metadata "snapshots") :
    parseSnapshots doc = parseSnapshots state.metadata ++
      [parseSnapshot (snapshotEntry state files operation nowMs)] := by
  unfold parseSnapshots
  rw [snapshots_appendedMetadata h harray, List.map_append]
  rfl

/-- Snapshots are read from a snapshot list. -/
theorem hasArray_of_parseSnapshots {metadata : Value} (hne : parseSnapshots metadata ≠ []) :
    HasArray metadata "snapshots" := by
  by_contra hnone
  apply hne
  rw [parseSnapshots, arrayAt_of_not_hasArray hnone]
  rfl

/-- The schema is looked at last, with the schema list still as it was. -/
theorem ensureSchema_of_appendedMetadata
    (h : appendedMetadata state files schema operation nowMs = some doc) :
    ∃ d, d.get "schemas" = state.metadata.get "schemas" ∧ ensureSchema state schema d = some doc := by
  obtain ⟨d₁, d₂, d₃, d₄, h₁, h₂, h₃, h₄, h₅⟩ := appendedMetadata_steps h
  refine ⟨d₄, ?_, h₅⟩
  rw [get_setMainRef h₄ (by decide), get_set_ne (by decide) h₃, get_set_ne (by decide) h₂,
    get_set_ne (by decide) h₁, get_logPreviousVersion (by decide), get_mapArray_ne (by decide),
    get_mapArray_ne (by decide)]

/-- The schema list with a new version at its end where the number of columns has changed. -/
theorem schemas_appendedMetadata
    (h : appendedMetadata state files schema operation nowMs = some doc)
    (harray : HasArray state.metadata "schemas") :
    arrayAt doc "schemas" = arrayAt state.metadata "schemas" ++
      if schema.length = currentFields state then [] else [.obj [
        ("type", .str "struct"),
        ("schema-id", .ofI32 (state.currentSchemaId + 1)),
        ("fields", .arr (icebergFields schema))]] := by
  obtain ⟨d', hget, hensure⟩ := ensureSchema_of_appendedMetadata h
  unfold ensureSchema at hensure
  split at hensure
  · rename_i hcount
    rw [← Option.some.inj hensure, arrayAt_congr hget, if_pos hcount, List.append_nil]
  · rename_i hcount
    simp only [Option.bind_eq_bind, Option.bind_eq_some_iff] at hensure
    obtain ⟨d, hd, hset⟩ := hensure
    rw [arrayAt_congr (get_set_ne (by decide) hset), arrayAt_congr (get_set_ne (by decide) hd),
      (harray.congr hget).arrayAt_mapArray, arrayAt_congr hget, if_neg hcount]

/-- Without a schema list none is made. -/
theorem schemas_appendedMetadata_of_not
    (h : appendedMetadata state files schema operation nowMs = some doc)
    (hnone : ¬ HasArray state.metadata "schemas") : arrayAt doc "schemas" = [] := by
  obtain ⟨d', hget, hensure⟩ := ensureSchema_of_appendedMetadata h
  unfold ensureSchema at hensure
  split at hensure
  · rw [← Option.some.inj hensure, arrayAt_congr hget, arrayAt_of_not_hasArray hnone]
  · simp only [Option.bind_eq_bind, Option.bind_eq_some_iff] at hensure
    obtain ⟨d, hd, hset⟩ := hensure
    rw [arrayAt_congr (get_set_ne (by decide) hset), arrayAt_congr (get_set_ne (by decide) hd)]
    refine arrayAt_of_not_hasArray fun hsome => hnone ?_
    obtain ⟨items, hitems⟩ := hsome
    rw [get_mapArray_self, hget] at hitems
    cases hold : state.metadata.get "schemas" with
    | none =>
      rw [hold] at hitems
      cases hitems
    | some x =>
      rw [hold] at hitems
      cases x with
      | arr old => exact ⟨old, hold⟩
      | _ => cases hitems

theorem get_sequence_appendedMetadata
    (h : appendedMetadata state files schema operation nowMs = some doc) :
    doc.get "last-sequence-number" = some (.num (state.snapshots.length + files.length)) := by
  obtain ⟨d₁, d₂, d₃, d₄, h₁, h₂, h₃, h₄, h₅⟩ := appendedMetadata_steps h
  rw [get_ensureSchema h₅ (by decide), get_setMainRef h₄ (by decide), get_set_self h₃]

theorem log_appendedMetadata
    (h : appendedMetadata state files schema operation nowMs = some doc)
    (harray : HasArray state.metadata "metadata-log") :
    arrayAt doc "metadata-log" = arrayAt state.metadata "metadata-log" ++ [logEntry state nowMs] := by
  obtain ⟨d₁, d₂, d₃, d₄, h₁, h₂, h₃, h₄, h₅⟩ := appendedMetadata_steps h
  have hget : doc.get "metadata-log" = d₁.get "metadata-log" := by
    rw [get_ensureSchema h₅ (by decide), get_setMainRef h₄ (by decide), get_set_ne (by decide) h₃,
      get_set_ne (by decide) h₂]
  have hold := (harray.mapArray "snapshots"
    (· ++ [snapshotEntry state files operation nowMs])).mapArray "snapshot-log"
      (· ++ [.obj [("timestamp-ms", .ofI64 nowMs), ("snapshot-id", .ofI64 nowMs)]])
  rw [arrayAt_congr hget, arrayAt_congr (get_set_ne (by decide) h₁), logPreviousVersion_eq,
    hold.arrayAt_mapArray, arrayAt_congr (get_mapArray_ne (by decide) _ _),
    arrayAt_congr (get_mapArray_ne (by decide) _ _)]

theorem get_currentSchema_appendedMetadata
    (h : appendedMetadata state files schema operation nowMs = some doc) :
    doc.get "current-schema-id" =
      if schema.length = currentFields state then state.metadata.get "current-schema-id"
      else some (.ofI32 (state.currentSchemaId + 1)) := by
  obtain ⟨d₁, d₂, d₃, d₄, h₁, h₂, h₃, h₄, h₅⟩ := appendedMetadata_steps h
  unfold ensureSchema at h₅
  split at h₅
  · rename_i hcount
    rw [← Option.some.inj h₅, if_pos hcount, get_setMainRef h₄ (by decide),
      get_set_ne (by decide) h₃, get_set_ne (by decide) h₂, get_set_ne (by decide) h₁,
      get_logPreviousVersion (by decide), get_mapArray_ne (by decide), get_mapArray_ne (by decide)]
  · rename_i hcount
    simp only [Option.bind_eq_bind, Option.bind_eq_some_iff] at h₅
    obtain ⟨d, hd, hset⟩ := h₅
    rw [get_set_ne (by decide) hset, get_set_self hd, if_neg hcount]

theorem hasArray_appendedMetadata
    (h : appendedMetadata state files schema operation nowMs = some doc) {key : String}
    (hkey : key ∈ arrayKeys) (harray : HasArray state.metadata key) : HasArray doc key := by
  obtain ⟨d₁, d₂, d₃, d₄, h₁, h₂, h₃, h₄, h₅⟩ := appendedMetadata_steps h
  have hd₁ : HasArray d₁ key :=
    (((harray.mapArray _ _).mapArray _ _).mapArray _ _).set hkey h₁ (by decide)
  have hd₃ : HasArray d₃ key := (hd₁.set hkey h₂ (by decide)).set hkey h₃ (by decide)
  have hd₄ : HasArray d₄ key :=
    hd₃.congr (get_setMainRef h₄ (ne_of_mem_arrayKeys hkey (by decide)))
  unfold ensureSchema at h₅
  split at h₅
  · rwa [← Option.some.inj h₅]
  · simp only [Option.bind_eq_bind, Option.bind_eq_some_iff] at h₅
    obtain ⟨d, hd, hset⟩ := h₅
    exact ((hd₄.mapArray _ _).set hkey hd (by decide)).set hkey hset (by decide)

end Append

section Evolve
variable {state : IcebergTableState} {newFields : List IcebergField} {maxId : Int32}
  {nowMs : Int64} {doc : Value}

/-- The documents that `evolve_schema` goes through. -/
theorem evolvedMetadata_steps (h : evolvedMetadata state newFields maxId nowMs = some doc) :
    ∃ d₁ d₂ d₃,
      (state.metadata.mapArray "schemas" (· ++ [.obj [
        ("type", .str "struct"),
        ("schema-id", .ofI32 (state.currentSchemaId + 1)),
        ("fields", .arr (newFields.map fieldValue))]])).set
          "current-schema-id" (.ofI32 (state.currentSchemaId + 1)) = some d₁ ∧
      d₁.set "last-column-id" (.ofI32 maxId) = some d₂ ∧
      d₂.set "last-updated-ms" (.ofI64 nowMs) = some d₃ ∧
      logPreviousVersion state nowMs d₃ = doc := by
  unfold evolvedMetadata at h
  simp only [Option.bind_eq_bind, Option.bind_eq_some_iff, Option.pure_def,
    Option.some.injEq] at h
  obtain ⟨d₁, h₁, d₂, h₂, d₃, h₃, h₄⟩ := h
  exact ⟨d₁, d₂, d₃, h₁, h₂, h₃, h₄⟩

/-- The schema list with the new version at its end. -/
theorem schemas_evolvedMetadata (h : evolvedMetadata state newFields maxId nowMs = some doc)
    (harray : HasArray state.metadata "schemas") :
    arrayAt doc "schemas" = arrayAt state.metadata "schemas" ++ [.obj [
      ("type", .str "struct"),
      ("schema-id", .ofI32 (state.currentSchemaId + 1)),
      ("fields", .arr (newFields.map fieldValue))]] := by
  obtain ⟨d₁, d₂, d₃, h₁, h₂, h₃, rfl⟩ := evolvedMetadata_steps h
  rw [arrayAt_congr (get_logPreviousVersion (by decide) _ _ _),
    arrayAt_congr (get_set_ne (by decide) h₃), arrayAt_congr (get_set_ne (by decide) h₂),
    arrayAt_congr (get_set_ne (by decide) h₁), harray.arrayAt_mapArray]

theorem get_currentSchema_evolvedMetadata
    (h : evolvedMetadata state newFields maxId nowMs = some doc) :
    doc.get "current-schema-id" = some (.ofI32 (state.currentSchemaId + 1)) := by
  obtain ⟨d₁, d₂, d₃, h₁, h₂, h₃, rfl⟩ := evolvedMetadata_steps h
  rw [get_logPreviousVersion (by decide), get_set_ne (by decide) h₃, get_set_ne (by decide) h₂,
    get_set_self h₁]

theorem get_lastColumn_evolvedMetadata
    (h : evolvedMetadata state newFields maxId nowMs = some doc) :
    doc.get "last-column-id" = some (.ofI32 maxId) := by
  obtain ⟨d₁, d₂, d₃, h₁, h₂, h₃, rfl⟩ := evolvedMetadata_steps h
  rw [get_logPreviousVersion (by decide), get_set_ne (by decide) h₃, get_set_self h₂]

theorem log_evolvedMetadata (h : evolvedMetadata state newFields maxId nowMs = some doc)
    (harray : HasArray state.metadata "metadata-log") :
    arrayAt doc "metadata-log" = arrayAt state.metadata "metadata-log" ++ [logEntry state nowMs] := by
  obtain ⟨d₁, d₂, d₃, h₁, h₂, h₃, rfl⟩ := evolvedMetadata_steps h
  have hget : d₃.get "metadata-log" = state.metadata.get "metadata-log" := by
    rw [get_set_ne (by decide) h₃, get_set_ne (by decide) h₂, get_set_ne (by decide) h₁,
      get_mapArray_ne (by decide)]
  rw [logPreviousVersion_eq, (harray.congr hget).arrayAt_mapArray, arrayAt_congr hget]

theorem hasArray_evolvedMetadata (h : evolvedMetadata state newFields maxId nowMs = some doc)
    {key : String} (hkey : key ∈ arrayKeys) (harray : HasArray state.metadata key) :
    HasArray doc key := by
  obtain ⟨d₁, d₂, d₃, h₁, h₂, h₃, rfl⟩ := evolvedMetadata_steps h
  have hd₂ := ((harray.mapArray _ _).set hkey h₁ (by decide)).set hkey h₂ (by decide)
  exact (hd₂.set hkey h₃ (by decide)).mapArray _ _

end Evolve

theorem get_evolvedMetadata {state : IcebergTableState} {newFields : List IcebergField}
    {maxId : Int32} {nowMs : Int64} {doc : Value}
    (h : evolvedMetadata state newFields maxId nowMs = some doc) {key : String}
    (hkey : key ∉ ["schemas", "current-schema-id", "last-column-id", "last-updated-ms",
      "metadata-log"]) : doc.get key = state.metadata.get key := by
  obtain ⟨d₁, d₂, d₃, h₁, h₂, h₃, rfl⟩ := evolvedMetadata_steps h
  simp only [List.mem_cons, List.not_mem_nil, or_false, not_or] at hkey
  obtain ⟨hschemas, hid, hcol, hupd, hmlog⟩ := hkey
  rw [get_logPreviousVersion hmlog, get_set_ne hupd h₃, get_set_ne hcol h₂, get_set_ne hid h₁,
    get_mapArray_ne hschemas]

section Repartition
variable {state : IcebergTableState} {newFields : List PartitionField} {nowMs : Int64}
  {doc : Value}

/-- The id of the spec that `evolve_partition` adds. -/
def newSpecId (state : IcebergTableState) : Int32 :=
  ((state.partitionSpecs.map (·.specId)).max?).getD 0 + 1

/-- The documents that `evolve_partition` goes through. -/
theorem repartitionedMetadata_steps
    (h : repartitionedMetadata state newFields nowMs = some doc) :
    ∃ d₁ d₂ d₃,
      (state.metadata.mapArray "partition-specs" (· ++ [.obj [
        ("spec-id", .ofI32 (newSpecId state)),
        ("fields", .arr (newFields.map specFieldValue))]])).set
          "default-spec-id" (.ofI32 (newSpecId state)) = some d₁ ∧
      d₁.set "last-partition-id"
        (.ofI32 (((newFields.map (·.fieldId)).max?).getD (newSpecId state))) = some d₂ ∧
      d₂.set "last-updated-ms" (.ofI64 nowMs) = some d₃ ∧
      logPreviousVersion state nowMs d₃ = doc := by
  unfold repartitionedMetadata at h
  simp only [Option.bind_eq_bind, Option.bind_eq_some_iff, Option.pure_def,
    Option.some.injEq] at h
  obtain ⟨d₁, h₁, d₂, h₂, d₃, h₃, h₄⟩ := h
  exact ⟨d₁, d₂, d₃, h₁, h₂, h₃, h₄⟩

theorem get_repartitionedMetadata
    (h : repartitionedMetadata state newFields nowMs = some doc) {key : String}
    (hkey : key ∉ ["partition-specs", "default-spec-id", "last-partition-id",
      "last-updated-ms", "metadata-log"]) : doc.get key = state.metadata.get key := by
  obtain ⟨d₁, d₂, d₃, h₁, h₂, h₃, rfl⟩ := repartitionedMetadata_steps h
  simp only [List.mem_cons, List.not_mem_nil, or_false, not_or] at hkey
  obtain ⟨hspecs, hspec, hpart, hupd, hmlog⟩ := hkey
  rw [get_logPreviousVersion hmlog, get_set_ne hupd h₃, get_set_ne hpart h₂,
    get_set_ne hspec h₁, get_mapArray_ne hspecs]

/-- The list of partition specs with the new one at its end. -/
theorem specs_repartitionedMetadata (h : repartitionedMetadata state newFields nowMs = some doc)
    (harray : HasArray state.metadata "partition-specs") :
    arrayAt doc "partition-specs" = arrayAt state.metadata "partition-specs" ++ [.obj [
      ("spec-id", .ofI32 (newSpecId state)),
      ("fields", .arr (newFields.map specFieldValue))]] := by
  obtain ⟨d₁, d₂, d₃, h₁, h₂, h₃, rfl⟩ := repartitionedMetadata_steps h
  rw [arrayAt_congr (get_logPreviousVersion (by decide) _ _ _),
    arrayAt_congr (get_set_ne (by decide) h₃), arrayAt_congr (get_set_ne (by decide) h₂),
    arrayAt_congr (get_set_ne (by decide) h₁), harray.arrayAt_mapArray]

theorem get_lastPartition_repartitionedMetadata
    (h : repartitionedMetadata state newFields nowMs = some doc) :
    doc.get "last-partition-id" =
      some (.ofI32 (((newFields.map (·.fieldId)).max?).getD (newSpecId state))) := by
  obtain ⟨d₁, d₂, d₃, h₁, h₂, h₃, rfl⟩ := repartitionedMetadata_steps h
  rw [get_logPreviousVersion (by decide), get_set_ne (by decide) h₃, get_set_self h₂]

theorem log_repartitionedMetadata (h : repartitionedMetadata state newFields nowMs = some doc)
    (harray : HasArray state.metadata "metadata-log") :
    arrayAt doc "metadata-log" = arrayAt state.metadata "metadata-log" ++ [logEntry state nowMs] := by
  obtain ⟨d₁, d₂, d₃, h₁, h₂, h₃, rfl⟩ := repartitionedMetadata_steps h
  have hget : d₃.get "metadata-log" = state.metadata.get "metadata-log" := by
    rw [get_set_ne (by decide) h₃, get_set_ne (by decide) h₂, get_set_ne (by decide) h₁,
      get_mapArray_ne (by decide)]
  rw [logPreviousVersion_eq, (harray.congr hget).arrayAt_mapArray, arrayAt_congr hget]

theorem hasArray_repartitionedMetadata
    (h : repartitionedMetadata state newFields nowMs = some doc) {key : String}
    (hkey : key ∈ arrayKeys) (harray : HasArray state.metadata key) : HasArray doc key := by
  obtain ⟨d₁, d₂, d₃, h₁, h₂, h₃, rfl⟩ := repartitionedMetadata_steps h
  have hd₂ := ((harray.mapArray _ _).set hkey h₁ (by decide)).set hkey h₂ (by decide)
  exact (hd₂.set hkey h₃ (by decide)).mapArray _ _

end Repartition

section Expire
variable {state : IcebergTableState} {expiredIds : List Int64} {nowMs : Int64} {doc : Value}

/-- The documents that `expire_snapshots` goes through. -/
theorem expiredMetadata_steps (h : expiredMetadata state expiredIds nowMs = some doc) :
    ∃ d, ((state.metadata.mapArray "snapshots" (withoutIds expiredIds)).mapArray "snapshot-log"
        (withoutIds expiredIds)).set "last-updated-ms" (.ofI64 nowMs) = some d ∧
      logPreviousVersion state nowMs d = doc := by
  unfold expiredMetadata at h
  simp only [Option.bind_eq_bind, Option.bind_eq_some_iff, Option.pure_def,
    Option.some.injEq] at h
  exact h

theorem get_expiredMetadata (h : expiredMetadata state expiredIds nowMs = some doc) {key : String}
    (hkey : key ∉ ["snapshots", "snapshot-log", "last-updated-ms", "metadata-log"]) :
    doc.get key = state.metadata.get key := by
  obtain ⟨d, hd, rfl⟩ := expiredMetadata_steps h
  simp only [List.mem_cons, List.not_mem_nil, or_false, not_or] at hkey
  obtain ⟨hsnaps, hlog, hupd, hmlog⟩ := hkey
  rw [get_logPreviousVersion hmlog, get_set_ne hupd hd, get_mapArray_ne hlog,
    get_mapArray_ne hsnaps]

theorem get_snapshots_expiredMetadata (h : expiredMetadata state expiredIds nowMs = some doc) :
    doc.get "snapshots" =
      (state.metadata.mapArray "snapshots" (withoutIds expiredIds)).get "snapshots" := by
  obtain ⟨d, hd, rfl⟩ := expiredMetadata_steps h
  rw [get_logPreviousVersion (by decide), get_set_ne (by decide) hd, get_mapArray_ne (by decide)]

/-- An expiry keeps the snapshots whose ids it does not expire. -/
theorem snapshots_expiredMetadata (h : expiredMetadata state expiredIds nowMs = some doc) :
    arrayAt doc "snapshots" = withoutIds expiredIds (arrayAt state.metadata "snapshots") := by
  rw [arrayAt_congr (get_snapshots_expiredMetadata h)]
  unfold arrayAt
  rw [get_mapArray_self]
  cases state.metadata.get "snapshots" with
  | none => rfl
  | some v => cases v <;> rfl

theorem log_expiredMetadata (h : expiredMetadata state expiredIds nowMs = some doc)
    (harray : HasArray state.metadata "metadata-log") :
    arrayAt doc "metadata-log" = arrayAt state.metadata "metadata-log" ++ [logEntry state nowMs] := by
  obtain ⟨d, hd, rfl⟩ := expiredMetadata_steps h
  have hget : d.get "metadata-log" = state.metadata.get "metadata-log" := by
    rw [get_set_ne (by decide) hd, get_mapArray_ne (by decide), get_mapArray_ne (by decide)]
  rw [logPreviousVersion_eq, (harray.congr hget).arrayAt_mapArray, arrayAt_congr hget]

theorem hasArray_expiredMetadata (h : expiredMetadata state expiredIds nowMs = some doc)
    {key : String} (hkey : key ∈ arrayKeys) (harray : HasArray state.metadata key) :
    HasArray doc key := by
  obtain ⟨d, hd, rfl⟩ := expiredMetadata_steps h
  exact (((harray.mapArray _ _).mapArray _ _).set hkey hd (by decide)).mapArray _ _

end Expire

/-- Every snapshot that an expiry keeps was there before. -/
theorem mem_parseSnapshots_expiredMetadata {state : IcebergTableState}
    {expiredIds : List Int64} {nowMs : Int64} {doc : Value}
    (h : expiredMetadata state expiredIds nowMs = some doc) {snap : SnapshotInfo}
    (hsnap : snap ∈ parseSnapshots doc) : snap ∈ parseSnapshots state.metadata := by
  unfold parseSnapshots at hsnap
  rw [snapshots_expiredMetadata h] at hsnap
  obtain ⟨e, he, rfl⟩ := List.mem_map.mp hsnap
  exact List.mem_map_of_mem (List.mem_of_mem_filter he)

@[simp] theorem parseSnapshot_manifestListPath (state : IcebergTableState)
    (files : List DataFileInfo) (operation : String) (nowMs : Int64) :
    (parseSnapshot (snapshotEntry state files operation nowMs)).manifestListPath =
      state.location ++ "/metadata/" ++ manifestListName nowMs := rfl

@[simp] theorem parseSnapshot_snapshotId (state : IcebergTableState)
    (files : List DataFileInfo) (operation : String) (nowMs : Int64) :
    (parseSnapshot (snapshotEntry state files operation nowMs)).snapshotId = nowMs := by
  have hget : (snapshotEntry state files operation nowMs).get "snapshot-id" =
      some (.ofI64 nowMs) := rfl
  simp [parseSnapshot, i64At, hget]

@[simp] theorem parseSnapshot_parentSnapshotId (state : IcebergTableState)
    (files : List DataFileInfo) (operation : String) (nowMs : Int64) :
    (parseSnapshot (snapshotEntry state files operation nowMs)).parentSnapshotId =
      state.currentSnapshotId := by
  unfold parseSnapshot snapshotEntry
  cases state.currentSnapshotId with
  | none => rfl
  | some id => exact asI64_ofI64 id

/-- The one snapshot of a created table. -/
theorem parseSnapshots_initialMetadata (location : String) (schema : ArrowSchema)
    (files : List DataFileInfo) (tableUuid : String) (nowMs : Int64) :
    ∃ snap, parseSnapshots (initialMetadata location schema files tableUuid nowMs) = [snap] ∧
      snap.snapshotId = nowMs ∧
      snap.manifestListPath = location ++ "/metadata/" ++ manifestListName nowMs := by
  refine ⟨_, rfl, ?_, rfl⟩
  exact congrArg (fun o => Option.getD o 0) (asI64_ofI64 nowMs)

end RustLake.Iceberg
