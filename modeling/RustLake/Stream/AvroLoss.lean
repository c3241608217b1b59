import RustLake.Stream.Avro

/-! Which Avro schemas lose nothing when their values become JSON. -/
namespace RustLake.Stream
open Json (Value.Same)

/-- A null, or a union that holds one. -/
inductive AvroValue.IsNull : AvroValue → Prop where
  | null : IsNull (.atom .null)
  | union {i : ℕ} {v : AvroValue} (h : IsNull v) : IsNull (.union i v)

/-- The types with values that become one document, and not for being null. Of the floats these are
the infinite ones and NaN. -/
inductive AtomSchema.Dropped : AtomSchema → Prop where
  | float : Dropped .float
  | double : Dropped .double
  | decimal : Dropped .decimal
  | bigDecimal : Dropped .bigDecimal
  | timeMillis : Dropped .timeMillis
  | timeMicros : Dropped .timeMicros
  | timestampNanos : Dropped .timestampNanos
  | localTimestampMillis : Dropped .localTimestampMillis
  | localTimestampMicros : Dropped .localTimestampMicros
  | localTimestampNanos : Dropped .localTimestampNanos
  | duration : Dropped .duration

/-- The documents of a type. -/
def AtomSchema.Prints : AtomSchema → Json.Value → Prop
  | .boolean, j => ∃ b, j = .bool b
  | .int, j | .date, j => ∃ i : Int32, j = .ofI32 i
  | .long, j | .timestampMillis, j | .timestampMicros, j => ∃ l : Int64, j = .ofI64 l
  | .float, j | .double, j => ∃ f : FloatValue, j = f.toJson
  | .bytes, j => ∃ b, j = .str (base64Encode b)
  | .string, j => ∃ s, j = .str s
  | .fixed size, j => ∃ b : List UInt8, b.length = size ∧ j = .str (base64Encode b)
  | .enum symbols, j => symbols.Nodup ∧ ∃ s ∈ symbols, j = .str s
  | .uuid, j => ∃ u, j = .str (uuidText u)
  | .decimal, j => j = .str "decimal"
  | _, j => j = .null

section Atoms

theorem prints_iff (kind : AtomSchema) (j : Json.Value) :
    kind.Prints j ↔ ∃ a, kind.Admits a ∧ a.toJson = j := by
  constructor
  · intro h
    cases kind with
    | null => exact ⟨_, .null, h.symm⟩
    | boolean => obtain ⟨b, rfl⟩ := h; exact ⟨_, .boolean b, rfl⟩
    | int => obtain ⟨i, rfl⟩ := h; exact ⟨_, .int i, rfl⟩
    | long => obtain ⟨l, rfl⟩ := h; exact ⟨_, .long l, rfl⟩
    | float => obtain ⟨f, rfl⟩ := h; exact ⟨_, .float f, rfl⟩
    | double => obtain ⟨d, rfl⟩ := h; exact ⟨_, .double d, rfl⟩
    | bytes => obtain ⟨b, rfl⟩ := h; exact ⟨_, .bytes b, rfl⟩
    | string => obtain ⟨s, rfl⟩ := h; exact ⟨_, .string s, rfl⟩
    | fixed size => obtain ⟨b, rfl, rfl⟩ := h; exact ⟨_, .fixed b, rfl⟩
    | enum symbols =>
      obtain ⟨hnodup, s, hs, rfl⟩ := h
      obtain ⟨i, hi⟩ := List.mem_iff_getElem?.mp hs
      exact ⟨_, .enum hnodup hi, rfl⟩
    | date => obtain ⟨d, rfl⟩ := h; exact ⟨_, .date d, rfl⟩
    | timestampMillis => obtain ⟨ts, rfl⟩ := h; exact ⟨_, .timestampMillis ts, rfl⟩
    | timestampMicros => obtain ⟨ts, rfl⟩ := h; exact ⟨_, .timestampMicros ts, rfl⟩
    | uuid => obtain ⟨u, rfl⟩ := h; exact ⟨_, .uuid u, rfl⟩
    | decimal => exact ⟨_, .decimal 0 0, h.symm⟩
    | bigDecimal => exact ⟨_, .bigDecimal 0 0, h.symm⟩
    | timeMillis => exact ⟨_, .timeMillis 0, h.symm⟩
    | timeMicros => exact ⟨_, .timeMicros 0, h.symm⟩
    | timestampNanos => exact ⟨_, .timestampNanos 0, h.symm⟩
    | localTimestampMillis => exact ⟨_, .localTimestampMillis 0, h.symm⟩
    | localTimestampMicros => exact ⟨_, .localTimestampMicros 0, h.symm⟩
    | localTimestampNanos => exact ⟨_, .localTimestampNanos 0, h.symm⟩
    | duration => exact ⟨_, .duration 0 0 0, h.symm⟩
  · rintro ⟨a, ha, rfl⟩
    cases ha with
    | boolean b => exact ⟨b, rfl⟩
    | int i => exact ⟨i, rfl⟩
    | long l => exact ⟨l, rfl⟩
    | float f => exact ⟨f, rfl⟩
    | double d => exact ⟨d, rfl⟩
    | bytes b => exact ⟨b, rfl⟩
    | string s => exact ⟨s, rfl⟩
    | fixed b => exact ⟨b, rfl, rfl⟩
    | enum hnodup hindex => exact ⟨hnodup, _, List.mem_of_getElem? hindex, rfl⟩
    | date d => exact ⟨d, rfl⟩
    | timestampMillis ts => exact ⟨ts, rfl⟩
    | timestampMicros ts => exact ⟨ts, rfl⟩
    | uuid u => exact ⟨u, rfl⟩
    | _ => exact rfl

theorem ofI32_injective {i i' : Int32} (h : Json.Value.ofI32 i = .ofI32 i') : i = i' :=
  Int32.toInt_inj.mp (Json.Value.num.inj h)

theorem ofI64_injective {l l' : Int64} (h : Json.Value.ofI64 l = .ofI64 l') : l = l' :=
  Int64.toInt_inj.mp (Json.Value.num.inj h)

/-- Each other type keeps its atoms apart. -/
theorem atom_injective {kind : AtomSchema} (hkind : ¬ kind.Dropped) {a a' : Atom}
    (ha : kind.Admits a) (ha' : kind.Admits a') (h : a.toJson = a'.toJson) : a = a' := by
  cases ha with
  | null => cases ha'; rfl
  | boolean b => cases ha' with | boolean b' => rw [Json.Value.bool.inj h]
  | int i => cases ha' with | int i' => rw [ofI32_injective h]
  | long l => cases ha' with | long l' => rw [ofI64_injective h]
  | bytes b => cases ha' with | bytes b' => rw [base64Encode_injective (Json.Value.str.inj h)]
  | string s => cases ha' with | string s' => rw [Json.Value.str.inj h]
  | fixed b =>
    generalize hsize : b.length = size at ha'
    cases ha' with
    | fixed b' => rw [base64Encode_injective (Json.Value.str.inj h)]
  | enum hnodup hindex =>
    cases ha' with
    | enum _ hindex' =>
      obtain rfl := Json.Value.str.inj h
      obtain ⟨hlt, hget⟩ := List.getElem?_eq_some_iff.mp hindex
      obtain ⟨hlt', hget'⟩ := List.getElem?_eq_some_iff.mp hindex'
      rw [(List.Nodup.getElem_inj_iff hnodup).mp (hget.trans hget'.symm)]
  | date d => cases ha' with | date d' => rw [ofI32_injective h]
  | timestampMillis ts => cases ha' with | timestampMillis ts' => rw [ofI64_injective h]
  | timestampMicros ts => cases ha' with | timestampMicros ts' => rw [ofI64_injective h]
  | uuid u => cases ha' with | uuid u' => rw [uuidText_injective (Json.Value.str.inj h)]
  | float => exact absurd .float hkind
  | double => exact absurd .double hkind
  | decimal => exact absurd .decimal hkind
  | bigDecimal => exact absurd .bigDecimal hkind
  | timeMillis => exact absurd .timeMillis hkind
  | timeMicros => exact absurd .timeMicros hkind
  | timestampNanos => exact absurd .timestampNanos hkind
  | localTimestampMillis => exact absurd .localTimestampMillis hkind
  | localTimestampMicros => exact absurd .localTimestampMicros hkind
  | localTimestampNanos => exact absurd .localTimestampNanos hkind
  | duration => exact absurd .duration hkind

/-- A type that is dropped has two atoms with one document. -/
theorem exists_of_dropped {kind : AtomSchema} (h : kind.Dropped) :
    ∃ a a', kind.Admits a ∧ kind.Admits a' ∧ a ≠ a' ∧ a.toJson = a'.toJson := by
  cases h with
  | float => exact ⟨_, _, .float .nan, .float (.infinite false), by decide, rfl⟩
  | double => exact ⟨_, _, .double .nan, .double (.infinite false), by decide, rfl⟩
  | decimal => exact ⟨_, _, .decimal 0 0, .decimal 1 0, by decide, rfl⟩
  | bigDecimal => exact ⟨_, _, .bigDecimal 0 0, .bigDecimal 1 0, by decide, rfl⟩
  | timeMillis => exact ⟨_, _, .timeMillis 0, .timeMillis 1, by decide, rfl⟩
  | timeMicros => exact ⟨_, _, .timeMicros 0, .timeMicros 1, by decide, rfl⟩
  | timestampNanos => exact ⟨_, _, .timestampNanos 0, .timestampNanos 1, by decide, rfl⟩
  | localTimestampMillis =>
    exact ⟨_, _, .localTimestampMillis 0, .localTimestampMillis 1, by decide, rfl⟩
  | localTimestampMicros =>
    exact ⟨_, _, .localTimestampMicros 0, .localTimestampMicros 1, by decide, rfl⟩
  | localTimestampNanos =>
    exact ⟨_, _, .localTimestampNanos 0, .localTimestampNanos 1, by decide, rfl⟩
  | duration => exact ⟨_, _, .duration 0 0 0, .duration 1 0 0, by decide, rfl⟩

/-- Only a null becomes null, of the types that are not dropped. -/
theorem atom_null {kind : AtomSchema} (hkind : ¬ kind.Dropped) {a : Atom} (ha : kind.Admits a)
    (h : a.toJson = .null) : a = .null := by
  cases ha with
  | null => rfl
  | float => exact absurd .float hkind
  | double => exact absurd .double hkind
  | timeMillis => exact absurd .timeMillis hkind
  | timeMicros => exact absurd .timeMicros hkind
  | bigDecimal => exact absurd .bigDecimal hkind
  | timestampNanos => exact absurd .timestampNanos hkind
  | localTimestampMillis => exact absurd .localTimestampMillis hkind
  | localTimestampMicros => exact absurd .localTimestampMicros hkind
  | localTimestampNanos => exact absurd .localTimestampNanos hkind
  | duration => exact absurd .duration hkind
  | _ => cases h

theorem toJson_ne_arr (a : Atom) (items : List Json.Value) : a.toJson ≠ .arr items := by
  cases a with
  | float f => cases f <;> exact fun h => by cases h
  | double d => cases d <;> exact fun h => by cases h
  | _ => exact fun h => by cases h

theorem toJson_ne_obj (a : Atom) (fields : List (String × Json.Value)) : a.toJson ≠ .obj fields := by
  cases a with
  | float f => cases f <;> exact fun h => by cases h
  | double d => cases d <;> exact fun h => by cases h
  | _ => exact fun h => by cases h

theorem same_atom_iff (a a' : Atom) : a.toJson.Same a'.toJson ↔ a.toJson = a'.toJson := by
  generalize hj : a.toJson = j
  generalize hj' : a'.toJson = j'
  constructor
  · intro h
    cases h with
    | arr _ _ => exact absurd hj (toJson_ne_arr a _)
    | obj _ _ => exact absurd hj (toJson_ne_obj a _)
    | _ => rfl
  · rintro rfl
    cases j with
    | arr items => exact absurd hj (toJson_ne_arr a items)
    | obj fields => exact absurd hj (toJson_ne_obj a fields)
    | null => exact .null
    | bool b => exact .bool b
    | num n => exact .num n
    | float text => exact .float text
    | str s => exact .str s

end Atoms

section Schemas

variable (names : String → Option AvroSchema)

/-- Two schemas with a document in common. -/
inductive Overlap : AvroSchema → AvroSchema → Prop where
  | atom {kind kind' : AtomSchema} {j : Json.Value} (h : kind.Prints j) (h' : kind'.Prints j) :
      Overlap (.atom kind) (.atom kind')
  | unionLeft {variants : List AvroSchema} {i : ℕ} {s t : AvroSchema} (hi : variants[i]? = some s)
      (h : Overlap s t) : Overlap (.union variants) t
  | unionRight {variants : List AvroSchema} {i : ℕ} {s t : AvroSchema}
      (hi : variants[i]? = some t) (h : Overlap s t) : Overlap s (.union variants)
  | refLeft {name : String} {s t : AvroSchema} (hname : names name = some s) (h : Overlap s t) :
      Overlap (.ref name) t
  | refRight {name : String} {s t : AvroSchema} (hname : names name = some t) (h : Overlap s t) :
      Overlap s (.ref name)
  | array (s t : AvroSchema) : Overlap (.array s) (.array t)
  | map (s t : AvroSchema) : Overlap (.map s) (.map t)
  | mapRecord {s : AvroSchema} {fields : List (String × AvroSchema)}
      (hnodup : (fields.map Prod.fst).Nodup) (h : ∀ f ∈ fields, Overlap s f.2) :
      Overlap (.map s) (.record fields)
  | recordMap {t : AvroSchema} {fields : List (String × AvroSchema)}
      (hnodup : (fields.map Prod.fst).Nodup) (h : ∀ f ∈ fields, Overlap f.2 t) :
      Overlap (.record fields) (.map t)
  | record {fields fields' : List (String × AvroSchema)} (hnodup : (fields.map Prod.fst).Nodup)
      (hnodup' : (fields'.map Prod.fst).Nodup)
      (hnames : ∀ key, key ∈ fields.map Prod.fst ↔ key ∈ fields'.map Prod.fst)
      (h : ∀ f ∈ fields, ∀ g ∈ fields', f.1 = g.1 → Overlap f.2 g.2) :
      Overlap (.record fields) (.record fields')

/-- A schema that reaches a dropped type, or a union with two variants that overlap. Fields of a
record count where the record has values at all. -/
inductive Lossy : AvroSchema → Prop where
  | atom {kind : AtomSchema} (h : kind.Dropped) : Lossy (.atom kind)
  | overlap {variants : List AvroSchema} {i j : ℕ} {s t : AvroSchema} (hij : i ≠ j)
      (hi : variants[i]? = some s) (hj : variants[j]? = some t) (h : Overlap names s t) :
      Lossy (.union variants)
  | union {variants : List AvroSchema} {i : ℕ} {s : AvroSchema} (hi : variants[i]? = some s)
      (h : Lossy s) : Lossy (.union variants)
  | array {s : AvroSchema} (h : Lossy s) : Lossy (.array s)
  | map {s : AvroSchema} (h : Lossy s) : Lossy (.map s)
  | record {fields : List (String × AvroSchema)} {f : String × AvroSchema}
      (hnodup : (fields.map Prod.fst).Nodup) (hf : f ∈ fields) (h : Lossy f.2)
      (hvalues : ∀ g ∈ fields, ∃ v, HasSchema names v g.2) : Lossy (.record fields)
  | ref {name : String} {s : AvroSchema} (hname : names name = some s) (h : Lossy s) :
      Lossy (.ref name)

/-- Values with the same document are the same, and only nulls become null. -/
structure Lossless (s : AvroSchema) : Prop where
  injective : ∀ v w, HasSchema names v s → HasSchema names w s →
    (avroValueToJson v).Same (avroValueToJson w) → v = w
  null : ∀ v, HasSchema names v s → avroValueToJson v = .null → v.IsNull

variable {names} {v w : AvroValue} {s t : AvroSchema}

section Records

variable {values : List (String × AvroValue)} {fields : List (String × AvroSchema)}

theorem nodup_values (hnodup : (fields.map Prod.fst).Nodup)
    (hnames : values.map Prod.fst = fields.map Prod.fst) : (values.map Prod.fst).Nodup := by
  rwa [hnames]

theorem nodup_of_sorted (h : values.Pairwise fun p q => p.1 < q.1) :
    (values.map Prod.fst).Nodup := List.Pairwise.map _ (fun _ _ hlt => hlt.ne) h

theorem exists_field (hnames : values.map Prod.fst = fields.map Prod.fst)
    {e : String × AvroValue} (he : e ∈ values) : ∃ f ∈ fields, f.1 = e.1 := by
  have hkey : e.1 ∈ fields.map Prod.fst := hnames ▸ List.mem_map_of_mem he
  exact List.mem_map.mp hkey

theorem exists_value (hnames : values.map Prod.fst = fields.map Prod.fst)
    {f : String × AvroSchema} (hf : f ∈ fields) : ∃ e ∈ values, e.1 = f.1 := by
  have hkey : f.1 ∈ values.map Prod.fst := hnames ▸ List.mem_map_of_mem hf
  exact List.mem_map.mp hkey

/-- Fields with the same name are the same. -/
theorem field_unique (hnodup : (fields.map Prod.fst).Nodup) {f g : String × AvroSchema}
    (hf : f ∈ fields) (hg : g ∈ fields) (h : f.1 = g.1) : f = g :=
  List.inj_on_of_nodup_map hnodup hf hg h

/-- Values picked for keys. -/
def picked (keys : List String) (pick : String → AvroValue) : List (String × AvroValue) :=
  keys.map fun key => (key, pick key)

theorem keys_picked (keys : List String) (pick : String → AvroValue) :
    (picked keys pick).map Prod.fst = keys := by
  unfold picked
  rw [List.map_map]
  exact List.map_id keys

theorem hasSchema_record (hnodup : (fields.map Prod.fst).Nodup) (pick : String → AvroValue)
    (h : ∀ f ∈ fields, HasSchema names (pick f.1) f.2) :
    HasSchema names (.record (picked (fields.map Prod.fst) pick)) (.record fields) := by
  refine .record hnodup (keys_picked _ _) ?_
  intro e he f hf hkey
  obtain ⟨key, -, rfl⟩ := List.mem_map.mp he
  obtain rfl : key = f.1 := hkey
  exact h f hf

theorem hasSchema_map {keys : List String} (hnodup : keys.Nodup) (pick : String → AvroValue)
    (h : ∀ key ∈ keys, HasSchema names (pick key) s) :
    HasSchema names (.map (picked (keys.mergeSort (· ≤ ·)) pick)) (.map s) := by
  have hsorted : (keys.mergeSort (· ≤ ·)).Pairwise (· < ·) := by
    have hle := List.sortedLE_mergeSort (l := keys)
    have hne : (keys.mergeSort (· ≤ ·)).Nodup :=
      (List.mergeSort_perm keys _).nodup_iff.mpr hnodup
    exact (hle.pairwise.and hne).imp fun hp => lt_of_le_of_ne hp.1 hp.2
  refine .map (List.Pairwise.map _ (fun _ _ hlt => hlt) hsorted) ?_
  intro e he
  obtain ⟨key, hkey, rfl⟩ := List.mem_map.mp he
  exact h key (List.mem_mergeSort.mp hkey)

theorem same_picked {keys keys' : List String} (hnodup : keys.Nodup) (hnodup' : keys'.Nodup)
    (hkeys : ∀ key, key ∈ keys ↔ key ∈ keys') {pick pick' : String → AvroValue}
    (h : ∀ key ∈ keys, (avroValueToJson (pick key)).Same (avroValueToJson (pick' key))) :
    Json.Value.Same (.obj (collect (entriesToJson (picked keys pick))))
      (.obj (collect (entriesToJson (picked keys' pick')))) := by
  rw [same_entries_iff (by rwa [keys_picked]) (by rwa [keys_picked]), keys_picked, keys_picked]
  refine ⟨hkeys, ?_⟩
  intro e he e' he' hkey
  obtain ⟨key, hmem, rfl⟩ := List.mem_map.mp he
  obtain ⟨key', -, rfl⟩ := List.mem_map.mp he'
  obtain rfl : key = key' := hkey
  exact h key hmem

/-- What there is for each field is picked by its name. -/
theorem exists_picks (hnodup : (fields.map Prod.fst).Nodup)
    {P : String × AvroSchema → AvroValue → AvroValue → Prop}
    (h : ∀ f ∈ fields, ∃ v w, P f v w) :
    ∃ V W : String → AvroValue, ∀ f ∈ fields, P f (V f.1) (W f.1) := by
  have hkey : ∀ key, ∃ v w, ∀ f ∈ fields, f.1 = key → P f v w := by
    intro key
    by_cases hex : ∃ f ∈ fields, f.1 = key
    · obtain ⟨f, hf, hname⟩ := hex
      obtain ⟨v, w, hP⟩ := h f hf
      refine ⟨v, w, ?_⟩
      intro g hg hname'
      rwa [field_unique hnodup hg hf (hname'.trans hname.symm)]
    · exact ⟨.atom .null, .atom .null, fun f hf hname => absurd ⟨f, hf, hname⟩ hex⟩
  choose V W hVW using hkey
  exact ⟨V, W, fun f hf => hVW f.1 f hf rfl⟩

end Records

/-- Every document of a value equals itself. -/
theorem same_refl (h : HasSchema names v s) : (avroValueToJson v).Same (avroValueToJson v) := by
  induction h with
  | @atom kind a h => exact (same_atom_iff a a).mpr rfl
  | union _ _ ih => exact ih
  | ref _ _ ih => exact ih
  | array _ ih =>
    rw [avroValueToJson, same_items_iff]
    refine ⟨rfl, ?_⟩
    intro i v v' hv hv'
    obtain rfl : v = v' := Option.some.inj (hv.symm.trans hv')
    exact ih v (List.mem_of_getElem? hv)
  | map hkeys _ ih =>
    have hnodup := nodup_of_sorted hkeys
    rw [avroValueToJson, same_entries_iff hnodup hnodup]
    refine ⟨fun _ => Iff.rfl, ?_⟩
    intro e he e' he' hkey
    obtain rfl : e = e' := List.inj_on_of_nodup_map hnodup he he' hkey
    exact ih e he
  | record hnodup hnames _ ih =>
    have hnodup := nodup_values hnodup hnames
    rw [avroValueToJson, same_entries_iff hnodup hnodup]
    refine ⟨fun _ => Iff.rfl, ?_⟩
    intro e he e' he' hkey
    obtain rfl : e = e' := List.inj_on_of_nodup_map hnodup he he' hkey
    obtain ⟨f, hf, hname⟩ := exists_field hnames he
    exact ih e he f hf hname.symm

/-- Schemas with values that have one document overlap. The left value is taken apart first, and then
the unions and names around the right one. -/
theorem overlap_of_same (hv : HasSchema names v s) (hw : HasSchema names w t)
    (h : (avroValueToJson v).Same (avroValueToJson w)) : Overlap names s t := by
  induction hv generalizing w t with
  | union hi _ ih => exact .unionLeft hi (ih hw h)
  | ref hname _ ih => exact .refLeft hname (ih hw h)
  | @atom kind a ha =>
    induction hw with
    | union hi _ ih => exact .unionRight hi (ih h)
    | ref hname _ ih => exact .refRight hname (ih h)
    | @atom kind' a' ha' =>
      have hprints := (prints_iff kind a.toJson).mpr ⟨a, ha, rfl⟩
      have hprints' := (prints_iff kind' a'.toJson).mpr ⟨a', ha', rfl⟩
      rw [← (same_atom_iff a a').mp h] at hprints'
      exact .atom hprints hprints'
    | array _ _ =>
      rw [avroValueToJson, avroValueToJson] at h
      generalize hj : a.toJson = j at h
      cases h
      exact absurd hj (toJson_ne_arr a _)
    | map _ _ _ | record _ _ _ _ =>
      rw [avroValueToJson, avroValueToJson] at h
      generalize hj : a.toJson = j at h
      cases h
      exact absurd hj (toJson_ne_obj a _)
  | array _ _ =>
    induction hw with
    | union hi _ ih => exact .unionRight hi (ih h)
    | ref hname _ ih => exact .refRight hname (ih h)
    | @atom kind' a' ha' =>
      rw [avroValueToJson, avroValueToJson] at h
      generalize hj : a'.toJson = j at h
      cases h
      exact absurd hj (toJson_ne_arr a' _)
    | array _ _ => exact .array _ _
    | map _ _ _ | record _ _ _ _ => cases h
  | map hkeys hentries ih =>
    have hnodup := nodup_of_sorted hkeys
    induction hw with
    | union hi _ ih => exact .unionRight hi (ih h)
    | ref hname _ ih => exact .refRight hname (ih h)
    | @atom kind' a' ha' =>
      rw [avroValueToJson, avroValueToJson] at h
      generalize hj : a'.toJson = j at h
      cases h
      exact absurd hj (toJson_ne_obj a' _)
    | array _ _ => cases h
    | map _ _ _ => exact .map _ _
    | record hnodup' hnames hfields _ =>
      rw [avroValueToJson, avroValueToJson,
        same_entries_iff hnodup (nodup_values hnodup' hnames)] at h
      refine .mapRecord hnodup' ?_
      intro f hf
      obtain ⟨e', he', hname⟩ := exists_value hnames hf
      obtain ⟨e, he, hkey⟩ := List.mem_map.mp ((h.1 e'.1).mpr (List.mem_map_of_mem he'))
      exact ih e he (hfields e' he' f hf hname) (h.2 e he e' he' hkey)
  | record hnodup hnames hfields ih =>
    have hvalues := nodup_values hnodup hnames
    induction hw with
    | union hi _ ih => exact .unionRight hi (ih h)
    | ref hname _ ih => exact .refRight hname (ih h)
    | @atom kind' a' ha' =>
      rw [avroValueToJson, avroValueToJson] at h
      generalize hj : a'.toJson = j at h
      cases h
      exact absurd hj (toJson_ne_obj a' _)
    | array _ _ => cases h
    | map hkeys hentries _ =>
      rw [avroValueToJson, avroValueToJson,
        same_entries_iff hvalues (nodup_of_sorted hkeys)] at h
      refine .recordMap hnodup ?_
      intro f hf
      obtain ⟨e, he, hname⟩ := exists_value hnames hf
      obtain ⟨e', he', hkey⟩ := List.mem_map.mp ((h.1 e.1).mp (List.mem_map_of_mem he))
      exact ih e he f hf hname (hentries e' he') (h.2 e he e' he' hkey.symm)
    | record hnodup' hnames' hfields' _ =>
      rw [avroValueToJson, avroValueToJson,
        same_entries_iff hvalues (nodup_values hnodup' hnames')] at h
      refine .record hnodup hnodup' ?_ ?_
      · intro key
        rw [← hnames, ← hnames']
        exact h.1 key
      · intro f hf g hg hname
        obtain ⟨e, he, hkey⟩ := exists_value hnames hf
        obtain ⟨e', he', hkey'⟩ := exists_value hnames' hg
        exact ih e he f hf hkey (hfields' e' he' g hg hkey')
          (h.2 e he e' he' (hkey.trans (hname.trans hkey'.symm)))

/-- Schemas that overlap have values with one document. -/
theorem same_of_overlap (h : Overlap names s t) : ∃ v w, HasSchema names v s ∧
    HasSchema names w t ∧ (avroValueToJson v).Same (avroValueToJson w) := by
  induction h with
  | @atom kind kind' j h h' =>
    obtain ⟨a, ha, hj⟩ := (prints_iff kind j).mp h
    obtain ⟨a', ha', hj'⟩ := (prints_iff kind' j).mp h'
    exact ⟨_, _, .atom ha, .atom ha', (same_atom_iff a a').mpr (hj.trans hj'.symm)⟩
  | unionLeft hi _ ih =>
    obtain ⟨v, w, hv, hw, hsame⟩ := ih
    exact ⟨_, w, .union hi hv, hw, hsame⟩
  | unionRight hi _ ih =>
    obtain ⟨v, w, hv, hw, hsame⟩ := ih
    exact ⟨v, _, hv, .union hi hw, hsame⟩
  | refLeft hname _ ih =>
    obtain ⟨v, w, hv, hw, hsame⟩ := ih
    exact ⟨v, w, .ref hname hv, hw, hsame⟩
  | refRight hname _ ih =>
    obtain ⟨v, w, hv, hw, hsame⟩ := ih
    exact ⟨v, w, hv, .ref hname hw, hsame⟩
  | array s t =>
    have hs : HasSchema names (.array []) (.array s) := .array (by simp)
    exact ⟨_, _, hs, .array (by simp), same_refl hs⟩
  | map s t =>
    have hs : HasSchema names (.map []) (.map s) := .map List.Pairwise.nil (by simp)
    exact ⟨_, _, hs, .map List.Pairwise.nil (by simp), same_refl hs⟩
  | mapRecord hnodup _ ih =>
    obtain ⟨V, W, hpicks⟩ := exists_picks hnodup ih
    refine ⟨_, _, hasSchema_map hnodup V ?_,
      hasSchema_record hnodup W fun f hf => (hpicks f hf).2.1,
      same_picked ((List.mergeSort_perm _ _).nodup_iff.mpr hnodup) hnodup
        (fun key => List.mem_mergeSort) ?_⟩
    · intro key hkey
      obtain ⟨f, hf, rfl⟩ := List.mem_map.mp hkey
      exact (hpicks f hf).1
    · intro key hkey
      obtain ⟨f, hf, rfl⟩ := List.mem_map.mp (List.mem_mergeSort.mp hkey)
      exact (hpicks f hf).2.2
  | recordMap hnodup _ ih =>
    obtain ⟨V, W, hpicks⟩ := exists_picks hnodup ih
    refine ⟨_, _, hasSchema_record hnodup V fun f hf => (hpicks f hf).1,
      hasSchema_map hnodup W ?_,
      same_picked hnodup ((List.mergeSort_perm _ _).nodup_iff.mpr hnodup)
        (fun key => List.mem_mergeSort.symm) ?_⟩
    · intro key hkey
      obtain ⟨f, hf, rfl⟩ := List.mem_map.mp hkey
      exact (hpicks f hf).2.1
    · intro key hkey
      obtain ⟨f, hf, rfl⟩ := List.mem_map.mp hkey
      exact (hpicks f hf).2.2
  | @record fields fields' hnodup hnodup' hnames _ ih =>
    have hboth : ∀ f ∈ fields, ∃ v w, HasSchema names v f.2 ∧
        (∀ g ∈ fields', g.1 = f.1 → HasSchema names w g.2) ∧
        (avroValueToJson v).Same (avroValueToJson w) := by
      intro f hf
      obtain ⟨g, hg, hname⟩ := List.mem_map.mp ((hnames f.1).mp (List.mem_map_of_mem hf))
      obtain ⟨v, w, hv, hw, hsame⟩ := ih f hf g hg hname.symm
      refine ⟨v, w, hv, ?_, hsame⟩
      intro g' hg' hname'
      rwa [field_unique hnodup' hg' hg (hname'.trans hname.symm)]
    obtain ⟨V, W, hpicks⟩ := exists_picks hnodup hboth
    refine ⟨_, _, hasSchema_record hnodup V fun f hf => (hpicks f hf).1,
      hasSchema_record hnodup' W ?_, same_picked hnodup hnodup' hnames ?_⟩
    · intro g hg
      obtain ⟨f, hf, hname⟩ := List.mem_map.mp ((hnames g.1).mpr (List.mem_map_of_mem hg))
      rw [← hname]
      exact (hpicks f hf).2.1 g hg hname.symm
    · intro key hkey
      obtain ⟨f, hf, rfl⟩ := List.mem_map.mp hkey
      exact (hpicks f hf).2.2

/-- A lossy schema has two values with one document. -/
theorem exists_of_lossy (h : Lossy names s) : ∃ v w, HasSchema names v s ∧ HasSchema names w s ∧
    v ≠ w ∧ (avroValueToJson v).Same (avroValueToJson w) := by
  induction h with
  | atom h =>
    obtain ⟨a, a', ha, ha', hne, hsame⟩ := exists_of_dropped h
    exact ⟨_, _, .atom ha, .atom ha', fun heq => hne (AvroValue.atom.inj heq),
      (same_atom_iff a a').mpr hsame⟩
  | overlap hij hi hj h =>
    obtain ⟨v, w, hv, hw, hsame⟩ := same_of_overlap h
    exact ⟨_, _, .union hi hv, .union hj hw, fun heq => hij (AvroValue.union.inj heq).1, hsame⟩
  | union hi _ ih =>
    obtain ⟨v, w, hv, hw, hne, hsame⟩ := ih
    exact ⟨_, _, .union hi hv, .union hi hw, fun heq => hne (AvroValue.union.inj heq).2, hsame⟩
  | ref hname _ ih =>
    obtain ⟨v, w, hv, hw, hne, hsame⟩ := ih
    exact ⟨v, w, .ref hname hv, .ref hname hw, hne, hsame⟩
  | array _ ih =>
    obtain ⟨v, w, hv, hw, hne, hsame⟩ := ih
    refine ⟨.array [v], .array [w], .array (by simpa using hv), .array (by simpa using hw), ?_, ?_⟩
    · intro heq
      exact hne (List.cons.inj (AvroValue.array.inj heq)).1
    · rw [avroValueToJson, avroValueToJson, same_items_iff]
      refine ⟨rfl, ?_⟩
      intro i v' w' hv' hw'
      cases i with
      | zero =>
        obtain rfl := Option.some.inj hv'
        obtain rfl := Option.some.inj hw'
        exact hsame
      | succ i => cases hv'
  | map _ ih =>
    obtain ⟨v, w, hv, hw, hne, hsame⟩ := ih
    refine ⟨_, _, hasSchema_map (List.nodup_singleton "") (fun _ => v) fun _ _ => hv,
      hasSchema_map (List.nodup_singleton "") (fun _ => w) fun _ _ => hw, ?_,
      same_picked (by simp) (by simp) (fun _ => Iff.rfl) fun _ _ => hsame⟩
    intro heq
    have hentries := AvroValue.map.inj heq
    simp only [List.mergeSort_singleton, picked, List.map_cons] at hentries
    exact hne (Prod.mk.inj (List.cons.inj hentries).1).2
  | @record fields f hnodup hf _ hvalues ih =>
    obtain ⟨v, w, hv, hw, hne, hsame⟩ := ih
    have hothers : ∀ g ∈ fields, ∃ x y, (g.1 = f.1 → x = v ∧ y = w) ∧ HasSchema names x g.2 ∧
        HasSchema names y g.2 ∧ (avroValueToJson x).Same (avroValueToJson y) := by
      intro g hg
      by_cases hname : g.1 = f.1
      · obtain rfl := field_unique hnodup hg hf hname
        exact ⟨v, w, fun _ => ⟨rfl, rfl⟩, hv, hw, hsame⟩
      · obtain ⟨x, hx⟩ := hvalues g hg
        exact ⟨x, x, fun h => absurd h hname, hx, hx, same_refl hx⟩
    obtain ⟨V, W, hpicks⟩ := exists_picks hnodup hothers
    refine ⟨_, _, hasSchema_record hnodup V fun g hg => (hpicks g hg).2.1,
      hasSchema_record hnodup W fun g hg => (hpicks g hg).2.2.1, ?_,
      same_picked hnodup hnodup (fun _ => Iff.rfl) ?_⟩
    · intro heq
      have hentries := List.map_inj_left.mp (AvroValue.record.inj heq) f.1 (List.mem_map_of_mem hf)
      obtain ⟨hV, hW⟩ := (hpicks f hf).1 rfl
      rw [hV, hW] at hentries
      exact hne (Prod.mk.inj hentries).2
    · intro key hkey
      obtain ⟨g, hg, rfl⟩ := List.mem_map.mp hkey
      exact (hpicks g hg).2.2.2

/-- Entries with the same keys and, key by key, the same values. -/
theorem mem_of_same_keys {entries entries' : List (String × AvroValue)}
    (hkeys : ∀ key, key ∈ entries.map Prod.fst → key ∈ entries'.map Prod.fst)
    (h : ∀ e ∈ entries, ∀ e' ∈ entries', e.1 = e'.1 → e.2 = e'.2) {e : String × AvroValue}
    (he : e ∈ entries) : e ∈ entries' := by
  obtain ⟨e', he', hkey⟩ := List.mem_map.mp (hkeys e.1 (List.mem_map_of_mem he))
  have hsame : e = e' := Prod.ext hkey.symm (h e he e' he' hkey.symm)
  rwa [hsame]

/-- The values of a schema that is not lossy are told apart by their documents. -/
theorem eq_of_same (hs : ¬ Lossy names s) (hv : HasSchema names v s) (hw : HasSchema names w s)
    (h : (avroValueToJson v).Same (avroValueToJson w)) : v = w := by
  induction hv generalizing w with
  | @atom kind a ha =>
    cases hw with
    | @atom _ a' ha' =>
      have hkind : ¬ kind.Dropped := fun hdropped => hs (.atom hdropped)
      rw [atom_injective hkind ha ha' ((same_atom_iff a a').mp h)]
  | @union variants i v s hi hv ih =>
    cases hw with
    | @union _ j w t hj hw =>
      by_cases hij : i = j
      · subst hij
        obtain rfl : s = t := Option.some.inj (hi.symm.trans hj)
        rw [ih (fun hlossy => hs (.union hi hlossy)) hw h]
      · exact absurd (.overlap hij hi hj (overlap_of_same hv hw h)) hs
  | ref hname _ ih =>
    cases hw with
    | ref hname' hw =>
      obtain rfl := Option.some.inj (hname.symm.trans hname')
      exact ih (fun hlossy => hs (.ref hname hlossy)) hw h
  | @array items s hitems ih =>
    cases hw with
    | @array items' _ hitems' =>
      rw [avroValueToJson, avroValueToJson, same_items_iff] at h
      have hequal : items = items' := by
        refine List.ext_getElem h.1 fun i hi hi' => ?_
        have hv := List.getElem?_eq_getElem hi
        have hw := List.getElem?_eq_getElem hi'
        exact ih _ (List.getElem_mem hi) (fun hlossy => hs (.array hlossy))
          (hitems' _ (List.getElem_mem hi')) (h.2 i _ _ hv hw)
      rw [hequal]
  | @map entries s hkeys hentries ih =>
    cases hw with
    | @map entries' _ hkeys' hentries' =>
      rw [avroValueToJson, avroValueToJson,
        same_entries_iff (nodup_of_sorted hkeys) (nodup_of_sorted hkeys')] at h
      have hvalues : ∀ e ∈ entries, ∀ e' ∈ entries', e.1 = e'.1 → e.2 = e'.2 :=
        fun e he e' he' hkey => ih e he (fun hlossy => hs (.map hlossy)) (hentries' e' he')
          (h.2 e he e' he' hkey)
      have hequal : entries = entries' := Keyed.eq_of_sorted hkeys hkeys' fun e =>
        ⟨mem_of_same_keys (fun key => (h.1 key).mp) hvalues,
          mem_of_same_keys (fun key => (h.1 key).mpr)
            fun e he e' he' hkey => (hvalues e' he' e he hkey.symm).symm⟩
      rw [hequal]
  | @record values fields hnodup hnames hfields ih =>
    cases hw with
    | @record values' _ _ hnames' hfields' =>
      rw [avroValueToJson, avroValueToJson,
        same_entries_iff (nodup_values hnodup hnames) (nodup_values hnodup hnames')] at h
      have hinhabited : ∀ g ∈ fields, ∃ v, HasSchema names v g.2 := by
        intro g hg
        obtain ⟨e, he, hkey⟩ := exists_value hnames hg
        exact ⟨e.2, hfields e he g hg hkey⟩
      have hvalues : ∀ e ∈ values, ∀ e' ∈ values', e.1 = e'.1 → e.2 = e'.2 := by
        intro e he e' he' hkey
        obtain ⟨f, hf, hname⟩ := exists_field hnames he
        exact ih e he f hf hname.symm (fun hlossy => hs (.record hnodup hf hlossy hinhabited))
          (hfields' e' he' f hf (hkey.symm.trans hname.symm)) (h.2 e he e' he' hkey)
      have hlength : values.length = values'.length := by
        have hlength := congrArg List.length (hnames.trans hnames'.symm)
        rwa [List.length_map, List.length_map] at hlength
      have hequal : values = values' := by
        refine List.ext_getElem hlength fun i hi hi' => ?_
        have hkey : values[i].1 = values'[i].1 := by
          have hget := congrArg (·[i]?) (hnames.trans hnames'.symm)
          simpa [hi, hi'] using hget
        exact Prod.ext hkey
          (hvalues _ (List.getElem_mem hi) _ (List.getElem_mem hi') hkey)
      rw [hequal]

theorem isNull_of_null (hs : ¬ Lossy names s) (hv : HasSchema names v s)
    (h : avroValueToJson v = .null) : v.IsNull := by
  induction hv with
  | @atom kind a ha =>
    have hkind : ¬ kind.Dropped := fun hdropped => hs (.atom hdropped)
    rw [atom_null hkind ha h]
    exact .null
  | union hi _ ih => exact .union (ih (fun hlossy => hs (.union hi hlossy)) h)
  | ref hname _ ih => exact ih (fun hlossy => hs (.ref hname hlossy)) h
  | array _ _ => cases h
  | map _ _ _ => cases h
  | record _ _ _ _ => cases h

/-- The values of a schema become JSON without loss exactly where no dropped type is reached and no
union has variants that overlap. -/
theorem lossless_iff (names : String → Option AvroSchema) (s : AvroSchema) :
    Lossless names s ↔ ¬ Lossy names s := by
  constructor
  · intro h hlossy
    obtain ⟨v, w, hv, hw, hne, hsame⟩ := exists_of_lossy hlossy
    exact hne (h.injective v w hv hw hsame)
  · intro h
    exact ⟨fun v w hv hw hsame => eq_of_same h hv hw hsame, fun v hv hnull =>
      isNull_of_null h hv hnull⟩

end Schemas

/-- An order with a price. -/
def orderSchema : AvroSchema := .record [("id", .atom .long), ("price", .atom .decimal)]

def pricedOrder (price : ℤ) : AvroValue :=
  .record [("id", .atom (.long 7)), ("price", .atom (.decimal price 2))]

/-- Every price becomes the text `decimal`. -/
theorem not_lossless_order : ¬ Lossless (fun _ => none) orderSchema := by
  intro h
  have hschema : ∀ price, HasSchema (fun _ => none) (pricedOrder price) orderSchema := by
    intro price
    refine .record (by decide) rfl ?_
    intro e he f hf hkey
    rcases List.mem_pair.mp he with rfl | rfl
    · rcases List.mem_pair.mp hf with rfl | rfl
      · exact .atom (.long 7)
      · exact absurd hkey (by decide)
    · rcases List.mem_pair.mp hf with rfl | rfl
      · exact absurd hkey (by simp)
      · exact .atom (.decimal price 2)
  have hequal := h.injective (pricedOrder 100) (pricedOrder 250) (hschema 100) (hschema 250)
    (same_refl (hschema 100))
  cases hequal

end RustLake.Stream
