import RustLake.Arrow.Batch
import RustLake.Stream.AvroLoss

/-! Batches of Avro records: `decode_avro_batch`, less the decoding of the single messages. -/
namespace RustLake.Stream
open Arrow

/-- What `serde_json` and Arrow print. -/
structure JsonTexts where
  /-- `to_string`. -/
  print : Json.Value → String
  recursionLimit : Json.Value → String
  batchErrorText : BatchError → String

mutual

/-- How deep arrays and objects are nested. -/
def jsonDepth : Json.Value → ℕ
  | .arr items => jsonItemsDepth items + 1
  | .obj fields => jsonFieldsDepth fields + 1
  | _ => 0

def jsonItemsDepth : List Json.Value → ℕ
  | [] => 0
  | v :: rest => max (jsonDepth v) (jsonItemsDepth rest)

def jsonFieldsDepth : List (String × Json.Value) → ℕ
  | [] => 0
  | (_, v) :: rest => max (jsonDepth v) (jsonFieldsDepth rest)

end

section Decode

variable {F : Type} (texts : JsonTexts)

/-- A document printed and parsed again, which is itself, unless it is nested more than 127 deep. -/
def reparse (j : Json.Value) : Except String Json.Value :=
  if jsonDepth j ≤ 127 then .ok j else .error (texts.recursionLimit j)

/-- The rows, up to the first message that is not read. -/
def jsonRows : List AvroValue → Except String (List Json.Value)
  | [] => .ok []
  | message :: rest =>
    match reparse texts (avroValueToJson message) with
    | .error e => .error ("JSON parse failed: " ++ e)
    | .ok row =>
      match jsonRows rest with
      | .error e => .error e
      | .ok rows => .ok (row :: rows)

/-- The columns are the keys of the first row. -/
def rowFields (first : Json.Value) : List Field :=
  match first with
  | .obj map => map.map fun entry => ⟨entry.1, .utf8, true⟩
  | _ => [⟨"value", .utf8, false⟩]

def cellText : Json.Value → String
  | .str s => s
  | other => texts.print other

def rowColumn (rows : List Json.Value) (field : Field) : Column F :=
  ⟨.utf8, rows.map fun row => (row.get field.name).map (cellText texts)⟩

def decodeAvroBatch (messages : List AvroValue) : Except String (RecordBatch F) :=
  match jsonRows texts messages with
  | .error e => .error e
  | .ok [] => .error "Empty payload batch"
  | .ok (first :: rows) =>
    let fields := rowFields first
    (RecordBatch.tryNew fields (fields.map (rowColumn texts (first :: rows)))).mapError fun e =>
      "Failed to create Avro batch: " ++ texts.batchErrorText e

end Decode

def AvroValue.fields : AvroValue → List (String × AvroValue)
  | .record fields => fields
  | _ => []

mutual

/-- How deep arrays, maps and records are nested. -/
def AvroValue.depth : AvroValue → ℕ
  | .atom _ => 0
  | .union _ inner => inner.depth
  | .array arr => itemsDepth arr + 1
  | .map entries => entriesDepth entries + 1
  | .record fields => entriesDepth fields + 1

def itemsDepth : List AvroValue → ℕ
  | [] => 0
  | v :: rest => max v.depth (itemsDepth rest)

def entriesDepth : List (String × AvroValue) → ℕ
  | [] => 0
  | (_, v) :: rest => max v.depth (entriesDepth rest)

end

/-- A row for each message, a column for each field of any of them, and cells that are null just
where a field is null or absent. -/
structure ShowsRecords {F : Type} (messages : List AvroValue) (batch : RecordBatch F) : Prop where
  rowCount : batch.rowCount = messages.length
  lengths : ∀ c ∈ batch.columns, c.length = messages.length
  columns : ∀ m ∈ messages, ∀ e ∈ m.fields, e.1 ∈ batch.fields.map Field.name
  nulls : ∀ p ∈ batch.fields.zip batch.columns, ∀ q ∈ messages.zip p.2.cells,
    q.2 = none ↔ ∀ v, q.1.fields.lookup p.1.name = some v → v.IsNull

section Depth

theorem jsonItemsDepth_eq {items : List AvroValue}
    (h : ∀ v ∈ items, jsonDepth (avroValueToJson v) = v.depth) :
    jsonItemsDepth (itemsToJson items) = itemsDepth items := by
  induction items with
  | nil => rfl
  | cons v rest ih =>
    obtain ⟨hv, hrest⟩ := List.forall_mem_cons.mp h
    rw [itemsToJson, jsonItemsDepth, itemsDepth, hv, ih hrest]

theorem jsonFieldsDepth_eq {entries : List (String × AvroValue)}
    (h : ∀ e ∈ entries, jsonDepth (avroValueToJson e.2) = e.2.depth) :
    jsonFieldsDepth (entriesToJson entries) = entriesDepth entries := by
  induction entries with
  | nil => rfl
  | cons e rest ih =>
    obtain ⟨he, hrest⟩ := List.forall_mem_cons.mp h
    rw [entriesToJson, jsonFieldsDepth, entriesDepth, he, ih hrest]

theorem collect_entriesToJson {entries : List (String × AvroValue)}
    (h : (entries.map Prod.fst).Nodup) : collect (entriesToJson entries) = entriesToJson entries := by
  apply collect_eq
  rwa [entriesToJson_eq, List.map_map]

/-- A value's document is nested as deep as the value. -/
theorem jsonDepth_eq {names : String → Option AvroSchema} {v : AvroValue} {s : AvroSchema}
    (h : HasSchema names v s) : jsonDepth (avroValueToJson v) = v.depth := by
  induction h with
  | @atom kind a h =>
    cases a with
    | float f => cases f <;> rfl
    | double d => cases d <;> rfl
    | _ => rfl
  | union _ _ ih => exact ih
  | ref _ _ ih => exact ih
  | array _ ih =>
    rw [avroValueToJson, jsonDepth, AvroValue.depth, jsonItemsDepth_eq ih]
  | map hkeys _ ih =>
    rw [avroValueToJson, jsonDepth, AvroValue.depth,
      collect_entriesToJson (nodup_of_sorted hkeys), jsonFieldsDepth_eq ih]
  | record hnodup hnames _ ih =>
    rw [avroValueToJson, jsonDepth, AvroValue.depth,
      collect_entriesToJson (nodup_values hnodup hnames), jsonFieldsDepth_eq ?_]
    intro e he
    obtain ⟨f, hf, hname⟩ := exists_field hnames he
    exact ih e he f hf hname.symm

end Depth

section Batches

variable {F : Type} {texts : JsonTexts} {names : String → Option AvroSchema}
  {fields : List (String × AvroSchema)} {messages : List AvroValue}

theorem jsonRows_eq (h : ∀ m ∈ messages, jsonDepth (avroValueToJson m) ≤ 127) :
    jsonRows texts messages = .ok (messages.map avroValueToJson) := by
  induction messages with
  | nil => rfl
  | cons m rest ih =>
    obtain ⟨hm, hrest⟩ := List.forall_mem_cons.mp h
    rw [jsonRows, reparse, if_pos hm, ih hrest]
    rfl

theorem depth_of_jsonRows {rows : List Json.Value} (h : jsonRows texts messages = .ok rows) :
    ∀ m ∈ messages, jsonDepth (avroValueToJson m) ≤ 127 := by
  induction messages generalizing rows with
  | nil => exact fun m hm => absurd hm List.not_mem_nil
  | cons m rest ih =>
    rw [jsonRows, reparse] at h
    by_cases hm : jsonDepth (avroValueToJson m) ≤ 127
    · rw [if_pos hm] at h
      cases hrest : jsonRows texts rest with
      | error e =>
        rw [hrest] at h
        cases h
      | ok rows => exact List.forall_mem_cons.mpr ⟨hm, ih hrest⟩
    · rw [if_neg hm] at h
      cases h

/-- A record's document has the names of its schema, and the documents of its fields. -/
theorem record_json {m : AvroValue} (h : HasSchema names m (.record fields)) :
    (m.fields.map Prod.fst = fields.map Prod.fst) ∧ (m.fields.map Prod.fst).Nodup ∧
      avroValueToJson m = .obj (entriesToJson m.fields) := by
  cases h with
  | record hnodup hnames _ =>
    have hvalues := nodup_values hnodup hnames
    refine ⟨hnames, hvalues, ?_⟩
    rw [avroValueToJson, collect_entriesToJson hvalues]
    rfl

theorem rowFields_record {m : AvroValue} (h : HasSchema names m (.record fields)) :
    rowFields (avroValueToJson m) = fields.map fun f => ⟨f.1, .utf8, true⟩ := by
  obtain ⟨hnames, -, hjson⟩ := record_json h
  have hkeys : ∀ {α : Type} (l : List (String × α)),
      (l.map fun f => (⟨f.1, .utf8, true⟩ : Field)) =
        (l.map Prod.fst).map fun name => ⟨name, .utf8, true⟩ := by
    intro α l
    rw [List.map_map]
    rfl
  have hentries : (entriesToJson m.fields).map Prod.fst = m.fields.map Prod.fst := by
    rw [entriesToJson_eq, List.map_map]
    rfl
  rw [hjson, rowFields, hkeys, hkeys, hentries, hnames]

/-- Each field of a record has a cell, whatever it holds. -/
theorem get_record {m : AvroValue} (h : HasSchema names m (.record fields))
    {f : String × AvroSchema} (hf : f ∈ fields) :
    ∃ v, m.fields.lookup f.1 = some v ∧
      (avroValueToJson m).get f.1 = some (avroValueToJson v) := by
  obtain ⟨hnames, hnodup, hjson⟩ := record_json h
  obtain ⟨e, he, hkey⟩ := exists_value hnames hf
  have hlookup : m.fields.lookup f.1 = some e.2 := by
    rw [← hkey]
    exact (Keyed.mem_iff_lookup hnodup).mp he
  refine ⟨e.2, hlookup, ?_⟩
  rw [hjson, Json.Value.get, entriesToJson_eq, Keyed.lookup_map_value, hlookup]
  rfl

variable (F texts fields) in
/-- A batch is made of a schema's columns, if there are any. -/
theorem tryNew_rowColumn (rows : List Json.Value) :
    (fields ≠ [] ∧ RecordBatch.tryNew (fields.map fun f => ⟨f.1, .utf8, true⟩)
        ((fields.map fun f => ⟨f.1, .utf8, true⟩).map (rowColumn (F := F) texts rows)) =
        .ok ⟨fields.map fun f => ⟨f.1, .utf8, true⟩,
          (fields.map fun f => ⟨f.1, .utf8, true⟩).map (rowColumn texts rows), rows.length⟩) ∨
      fields = [] ∧ ∃ e, RecordBatch.tryNew (fields.map fun f => ⟨f.1, .utf8, true⟩)
        ((fields.map fun f => ⟨f.1, .utf8, true⟩).map (rowColumn (F := F) texts rows)) = .error e := by
  set schema : List Field := fields.map fun f => ⟨f.1, .utf8, true⟩ with hschema
  have hcount : (schema.map (rowColumn (F := F) texts rows)).length = schema.length :=
    List.length_map _
  have hlength : ∀ c ∈ schema.map (rowColumn (F := F) texts rows), c.length = rows.length := by
    intro c hc
    obtain ⟨field, -, rfl⟩ := List.mem_map.mp hc
    exact List.length_map _
  have hfits : ∀ p ∈ schema.zip (schema.map (rowColumn (F := F) texts rows)), p.2.Fits p.1 := by
    rw [← List.map_prod_left_eq_zip]
    intro p hp
    obtain ⟨field, hfield, rfl⟩ := List.mem_map.mp hp
    obtain ⟨f, -, rfl⟩ := List.mem_map.mp hfield
    exact ⟨rfl, fun h => by cases h⟩
  have hempty : schema.map (rowColumn (F := F) texts rows) ≠ [] ↔ fields ≠ [] := by
    rw [hschema]
    simp
  rcases tryNew_cases hcount hlength with ⟨hne, -, hok⟩ | ⟨hnot, herror⟩
  · exact Or.inl ⟨hempty.mp hne, hok⟩
  · refine Or.inr ⟨?_, herror⟩
    by_contra hne
    exact hnot ⟨hempty.mpr hne, hfits⟩

/-- The cells show what is null just where nothing is. -/
theorem showsRecords_iff (hrecords : ∀ m ∈ messages, HasSchema names m (.record fields)) :
    ShowsRecords (F := F) messages ⟨fields.map fun f => ⟨f.1, .utf8, true⟩,
        (fields.map fun f => ⟨f.1, .utf8, true⟩).map
          (rowColumn texts (messages.map avroValueToJson)), messages.length⟩ ↔
      ∀ m ∈ messages, ∀ e ∈ m.fields, ¬ e.2.IsNull := by
  have hcell : ∀ m ∈ messages, ∀ f ∈ fields,
      ((((avroValueToJson m).get f.1).map (cellText texts) = none ↔
        ∀ v, m.fields.lookup f.1 = some v → v.IsNull) ↔
      ∀ v, m.fields.lookup f.1 = some v → ¬ v.IsNull) := by
    intro m hm f hf
    obtain ⟨v, hlookup, hget⟩ := get_record (hrecords m hm) hf
    rw [hget, hlookup]
    simp
  have hlookup : ∀ m ∈ messages, (∀ f ∈ fields, ∀ v, m.fields.lookup f.1 = some v → ¬ v.IsNull) ↔
      ∀ e ∈ m.fields, ¬ e.2.IsNull := by
    intro m hm
    obtain ⟨hnames, hnodup, -⟩ := record_json (hrecords m hm)
    constructor
    · intro h e he
      obtain ⟨f, hf, hkey⟩ := exists_field hnames he
      apply h f hf
      rw [hkey]
      exact (Keyed.mem_iff_lookup hnodup).mp he
    · intro h f hf v hv
      exact h _ ((Keyed.mem_iff_lookup hnodup).mpr hv)
  constructor
  · intro h m hm
    rw [← hlookup m hm]
    intro f hf
    refine (hcell m hm f hf).mp ?_
    have hfield : (⟨f.1, .utf8, true⟩ : Field) ∈ fields.map fun f => ⟨f.1, .utf8, true⟩ :=
      List.mem_map_of_mem hf
    set column : Column F := rowColumn texts (messages.map avroValueToJson) ⟨f.1, .utf8, true⟩
    have hcolumn : ((⟨f.1, .utf8, true⟩, column) : Field × Column F) ∈
        (fields.map fun f => ⟨f.1, .utf8, true⟩).zip
          ((fields.map fun f => ⟨f.1, .utf8, true⟩).map
            (rowColumn texts (messages.map avroValueToJson))) := by
      rw [← List.map_prod_left_eq_zip]
      exact List.mem_map_of_mem hfield
    have hrow : (m, ((avroValueToJson m).get f.1).map (cellText texts)) ∈
        messages.zip column.cells := by
      dsimp only [column, rowColumn]
      rw [List.map_map, ← List.map_prod_left_eq_zip]
      exact List.mem_map_of_mem hm
    exact h.nulls _ hcolumn _ hrow
  · intro h
    refine ⟨rfl, ?_, ?_, ?_⟩
    · intro c hc
      obtain ⟨field, -, rfl⟩ := List.mem_map.mp hc
      simp [Column.length, rowColumn]
    · intro m hm e he
      obtain ⟨f, hf, hkey⟩ := exists_field (record_json (hrecords m hm)).1 he
      simpa [← hkey] using ⟨f.2, hf⟩
    · intro p hp
      rw [← List.map_prod_left_eq_zip] at hp
      obtain ⟨field, hfield, rfl⟩ := List.mem_map.mp hp
      obtain ⟨f, hf, rfl⟩ := List.mem_map.mp hfield
      intro q hq
      dsimp only [rowColumn] at hq
      rw [List.map_map, ← List.map_prod_left_eq_zip] at hq
      obtain ⟨m, hm, rfl⟩ := List.mem_map.mp hq
      exact (hcell m hm f hf).mpr ((hlookup m hm).mpr (h m hm) f hf)

/-- A batch of records is decoded as it should be if there is a column at all, no record is nested
too deep, and no field is null. -/
theorem decodeAvroBatch_shows_iff (F : Type) (texts : JsonTexts)
    (names : String → Option AvroSchema) {fields : List (String × AvroSchema)}
    {messages : List AvroValue} (hne : messages ≠ [])
    (hrecords : ∀ m ∈ messages, HasSchema names m (.record fields)) :
    (∃ batch : RecordBatch F, decodeAvroBatch texts messages = .ok batch ∧
        ShowsRecords messages batch) ↔
      fields ≠ [] ∧ (∀ m ∈ messages, m.depth ≤ 127) ∧
        ∀ m ∈ messages, ∀ e ∈ m.fields, ¬ e.2.IsNull := by
  have hdepth : (∀ m ∈ messages, jsonDepth (avroValueToJson m) ≤ 127) ↔
      ∀ m ∈ messages, m.depth ≤ 127 :=
    forall₂_congr fun m hm => by rw [jsonDepth_eq (hrecords m hm)]
  rw [← hdepth]
  by_cases hshallow : ∀ m ∈ messages, jsonDepth (avroValueToJson m) ≤ 127
  · have hdecode : decodeAvroBatch (F := F) texts messages =
        (RecordBatch.tryNew (fields.map fun f => ⟨f.1, .utf8, true⟩)
          ((fields.map fun f => ⟨f.1, .utf8, true⟩).map
            (rowColumn texts (messages.map avroValueToJson)))).mapError fun e =>
          "Failed to create Avro batch: " ++ texts.batchErrorText e := by
      obtain ⟨m, rest, rfl⟩ := List.exists_cons_of_ne_nil hne
      unfold decodeAvroBatch
      rw [jsonRows_eq hshallow, List.map_cons]
      dsimp only
      rw [rowFields_record (hrecords m List.mem_cons_self)]
    rw [hdecode]
    rcases tryNew_rowColumn F texts fields (messages.map avroValueToJson) with
      ⟨hfields, hok⟩ | ⟨hfields, e, herror⟩
    · rw [hok, List.length_map]
      constructor
      · rintro ⟨batch, hbatch, hshows⟩
        obtain rfl := Except.ok.inj hbatch
        exact ⟨hfields, hshallow, (showsRecords_iff hrecords).mp hshows⟩
      · rintro ⟨-, -, hnulls⟩
        exact ⟨_, rfl, (showsRecords_iff hrecords).mpr hnulls⟩
    · rw [herror]
      refine iff_of_false ?_ fun h => h.1 hfields
      rintro ⟨batch, hbatch, -⟩
      cases hbatch
  · refine iff_of_false ?_ fun h => hshallow h.2.1
    rintro ⟨batch, hbatch, -⟩
    unfold decodeAvroBatch at hbatch
    cases hrows : jsonRows texts messages with
    | error e =>
      rw [hrows] at hbatch
      cases hbatch
    | ok rows => exact hshallow (depth_of_jsonRows hrows)

end Batches

/-- A customer with a name that may be missing. -/
def customerFields : List (String × AvroSchema) :=
  [("name", .union [.atom .null, .atom .string])]

def named (name : String) : AvroValue := .record [("name", .union 1 (.atom (.string name)))]

def unnamed : AvroValue := .record [("name", .union 0 (.atom .null))]

/-- Null as it is printed; nothing else is needed of the texts. -/
def customerTexts : JsonTexts := ⟨fun _ => "null", fun _ => "recursion limit exceeded", fun _ => ""⟩

theorem hasSchema_customer {i : ℕ} {a : Atom} {kind : AtomSchema}
    (hi : [AvroSchema.atom .null, .atom .string][i]? = some (.atom kind)) (ha : kind.Admits a) :
    HasSchema (fun _ => none) (.record [("name", .union i (.atom a))]) (.record customerFields) := by
  refine .record (by decide) rfl ?_
  intro e he f hf _
  obtain rfl := List.mem_singleton.mp he
  obtain rfl := List.mem_singleton.mp hf
  exact .union hi (.atom ha)

/-- A missing name is the text `null`. -/
theorem not_shows_unnamed : ¬ ∀ (F : Type) (texts : JsonTexts) (messages : List AvroValue)
    (fields : List (String × AvroSchema)), messages ≠ [] →
    (∀ m ∈ messages, HasSchema (fun _ => none) m (.record fields)) →
    ∃ batch : RecordBatch F, decodeAvroBatch texts messages = .ok batch ∧
      ShowsRecords messages batch := by
  intro h
  have hrecords : ∀ m ∈ [unnamed], HasSchema (fun _ => none) m (.record customerFields) := by
    intro m hm
    obtain rfl := List.mem_singleton.mp hm
    exact hasSchema_customer rfl .null
  obtain ⟨batch, hbatch, hshows⟩ := h Unit customerTexts [unnamed] customerFields (by simp) hrecords
  have hdecoded : decodeAvroBatch customerTexts [unnamed] =
      .ok (⟨[⟨"name", .utf8, true⟩], [⟨.utf8, [some "null"]⟩], 1⟩ : RecordBatch Unit) := rfl
  obtain rfl := Except.ok.inj (hdecoded.symm.trans hbatch)
  have hcell := (hshows.nulls _ List.mem_cons_self _ List.mem_cons_self).mpr ?_
  · cases hcell
  · intro v hv
    obtain rfl := Option.some.inj hv
    exact .union .null

/-- A name that is there is shown. -/
theorem shows_named : ∃ batch : RecordBatch Unit,
    decodeAvroBatch customerTexts [named "Ada"] = .ok batch ∧ ShowsRecords [named "Ada"] batch := by
  have hrecords : ∀ m ∈ [named "Ada"], HasSchema (fun _ => none) m (.record customerFields) := by
    intro m hm
    obtain rfl := List.mem_singleton.mp hm
    have hi : [AvroSchema.atom .null, .atom .string][1]? = some (.atom .string) := rfl
    exact hasSchema_customer hi (.string "Ada")
  have hiff := decodeAvroBatch_shows_iff Unit customerTexts (fun _ => none) (by simp) hrecords
  apply hiff.mpr
  refine ⟨by simp [customerFields], ?_, ?_⟩
  · intro m hm
    obtain rfl := List.mem_singleton.mp hm
    decide
  · intro m hm e he hnull
    obtain rfl := List.mem_singleton.mp hm
    obtain rfl := List.mem_singleton.mp he
    cases hnull with
    | union h => cases h

end RustLake.Stream
