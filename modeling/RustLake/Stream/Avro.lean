import Mathlib.Data.String.Basic
import RustLake.Json.Value
import RustLake.Order.Keyed

/-! Avro's values and schemas, and the JSON that values are turned into. -/
namespace RustLake.Stream

abbrev Uuid := {bytes : List UInt8 // bytes.length = 16}

/-- A float of either width. A finite one is known by its decimal text. -/
inductive FloatValue where
  | finite (text : String)
  | infinite (negative : Bool)
  | nan
deriving DecidableEq

/-- `json!(f)`. -/
def FloatValue.toJson : FloatValue → Json.Value
  | .finite text => .float text
  | .infinite _ | .nan => .null

/-- The values of `apache_avro::types::Value` that hold no other values. -/
inductive Atom where
  | null
  | boolean (b : Bool)
  | int (i : Int32)
  | long (l : Int64)
  | float (f : FloatValue)
  | double (d : FloatValue)
  | bytes (b : List UInt8)
  | string (s : String)
  | fixed (size : ℕ) (bytes : List UInt8)
  | enum (index : ℕ) (symbol : String)
  | date (d : Int32)
  | timestampMillis (ts : Int64)
  | timestampMicros (ts : Int64)
  | uuid (u : Uuid)
  | decimal (value : ℤ) (length : ℕ)
  | bigDecimal (digits scale : ℤ)
  | timeMillis (t : Int32)
  | timeMicros (t : Int64)
  | timestampNanos (ts : Int64)
  | localTimestampMillis (ts : Int64)
  | localTimestampMicros (ts : Int64)
  | localTimestampNanos (ts : Int64)
  | duration (months days millis : UInt32)
deriving DecidableEq

/-- A hash map stands by its entries. -/
inductive AvroValue where
  | atom (a : Atom)
  | union (index : ℕ) (inner : AvroValue)
  | array (arr : List AvroValue)
  | map (entries : List (String × AvroValue))
  | record (fields : List (String × AvroValue))

def hexByte (b : UInt8) : List Char := [(b.toNat / 16).digitChar, (b.toNat % 16).digitChar]

/-- It is named after what it once was: two hexadecimal digits for each byte. -/
def base64Encode (bytes : List UInt8) : String := String.ofList (bytes.flatMap hexByte)

/-- The digits of a UUID in groups of 8, 4, 4, 4 and 12. -/
def uuidText (u : Uuid) : String :=
  let hex := fun i j => ((u.1.take j).drop i).flatMap hexByte
  String.ofList (hex 0 4 ++ '-' :: hex 4 6 ++ '-' :: hex 6 8 ++ '-' :: hex 8 10 ++ '-' :: hex 10 16)

def Atom.toJson : Atom → Json.Value
  | .null => .null
  | .boolean b => .bool b
  | .int i => .ofI32 i
  | .long l => .ofI64 l
  | .float f => f.toJson
  | .double d => d.toJson
  | .bytes b => .str (base64Encode b)
  | .string s => .str s
  | .fixed _ b => .str (base64Encode b)
  | .enum _ s => .str s
  | .date d => .ofI32 d
  | .timestampMillis ts => .ofI64 ts
  | .timestampMicros ts => .ofI64 ts
  | .uuid u => .str (uuidText u)
  | .decimal _ _ => .str "decimal"
  | .bigDecimal _ _ | .timeMillis _ | .timeMicros _ | .timestampNanos _ | .localTimestampMillis _
  | .localTimestampMicros _ | .localTimestampNanos _ | .duration _ _ _ => .null

/-- Entries collected into an object; of those with one key the last one stays. -/
def collect (entries : List (String × Json.Value)) : List (String × Json.Value) :=
  entries.foldl (fun obj entry => Json.setField entry.1 entry.2 obj) []

mutual

def avroValueToJson : AvroValue → Json.Value
  | .atom a => a.toJson
  | .union _ inner => avroValueToJson inner
  | .array arr => .arr (itemsToJson arr)
  | .map entries => .obj (collect (entriesToJson entries))
  | .record fields => .obj (collect (entriesToJson fields))

def itemsToJson : List AvroValue → List Json.Value
  | [] => []
  | v :: rest => avroValueToJson v :: itemsToJson rest

def entriesToJson : List (String × AvroValue) → List (String × Json.Value)
  | [] => []
  | (k, v) :: rest => (k, avroValueToJson v) :: entriesToJson rest

end

/-- The types of atoms. -/
inductive AtomSchema where
  | null | boolean | int | long | float | double | bytes | string
  | fixed (size : ℕ)
  | enum (symbols : List String)
  | date | timestampMillis | timestampMicros | uuid | decimal | bigDecimal | timeMillis | timeMicros
  | timestampNanos | localTimestampMillis | localTimestampMicros | localTimestampNanos | duration
deriving DecidableEq

inductive AvroSchema where
  | atom (kind : AtomSchema)
  | union (variants : List AvroSchema)
  | array (items : AvroSchema)
  | map (values : AvroSchema)
  | record (fields : List (String × AvroSchema))
  /-- A named type that is defined elsewhere. -/
  | ref (name : String)

/-- The atoms of a type. The symbols of an enum are different, or its schema is not parsed. -/
inductive AtomSchema.Admits : AtomSchema → Atom → Prop where
  | null : Admits .null .null
  | boolean (b : Bool) : Admits .boolean (.boolean b)
  | int (i : Int32) : Admits .int (.int i)
  | long (l : Int64) : Admits .long (.long l)
  | float (f : FloatValue) : Admits .float (.float f)
  | double (d : FloatValue) : Admits .double (.double d)
  | bytes (b : List UInt8) : Admits .bytes (.bytes b)
  | string (s : String) : Admits .string (.string s)
  | fixed (b : List UInt8) : Admits (.fixed b.length) (.fixed b.length b)
  | enum {symbols : List String} {index : ℕ} {symbol : String} (hnodup : symbols.Nodup)
      (hindex : symbols[index]? = some symbol) : Admits (.enum symbols) (.enum index symbol)
  | date (d : Int32) : Admits .date (.date d)
  | timestampMillis (ts : Int64) : Admits .timestampMillis (.timestampMillis ts)
  | timestampMicros (ts : Int64) : Admits .timestampMicros (.timestampMicros ts)
  | uuid (u : Uuid) : Admits .uuid (.uuid u)
  | decimal (value : ℤ) (length : ℕ) : Admits .decimal (.decimal value length)
  | bigDecimal (digits scale : ℤ) : Admits .bigDecimal (.bigDecimal digits scale)
  | timeMillis (t : Int32) : Admits .timeMillis (.timeMillis t)
  | timeMicros (t : Int64) : Admits .timeMicros (.timeMicros t)
  | timestampNanos (ts : Int64) : Admits .timestampNanos (.timestampNanos ts)
  | localTimestampMillis (ts : Int64) : Admits .localTimestampMillis (.localTimestampMillis ts)
  | localTimestampMicros (ts : Int64) : Admits .localTimestampMicros (.localTimestampMicros ts)
  | localTimestampNanos (ts : Int64) : Admits .localTimestampNanos (.localTimestampNanos ts)
  | duration (months days millis : UInt32) : Admits .duration (.duration months days millis)

/-- The values of a schema, under the named types. The fields of a record have different names. A hash
map is listed in the order of its keys. -/
inductive HasSchema (names : String → Option AvroSchema) : AvroValue → AvroSchema → Prop where
  | atom {kind : AtomSchema} {a : Atom} (h : kind.Admits a) : HasSchema names (.atom a) (.atom kind)
  | union {variants : List AvroSchema} {i : ℕ} {v : AvroValue} {s : AvroSchema}
      (hi : variants[i]? = some s) (hv : HasSchema names v s) :
      HasSchema names (.union i v) (.union variants)
  | array {items : List AvroValue} {s : AvroSchema} (h : ∀ v ∈ items, HasSchema names v s) :
      HasSchema names (.array items) (.array s)
  | map {entries : List (String × AvroValue)} {s : AvroSchema}
      (hkeys : entries.Pairwise fun p q => p.1 < q.1) (h : ∀ e ∈ entries, HasSchema names e.2 s) :
      HasSchema names (.map entries) (.map s)
  | record {values : List (String × AvroValue)} {fields : List (String × AvroSchema)}
      (hnodup : (fields.map Prod.fst).Nodup) (hnames : values.map Prod.fst = fields.map Prod.fst)
      (h : ∀ e ∈ values, ∀ f ∈ fields, e.1 = f.1 → HasSchema names e.2 f.2) :
      HasSchema names (.record values) (.record fields)
  | ref {name : String} {v : AvroValue} {s : AvroSchema} (hname : names name = some s)
      (hv : HasSchema names v s) : HasSchema names v (.ref name)

section Texts

theorem digitChar_injective {m n : ℕ} (hm : m < 16) (hn : n < 16)
    (h : m.digitChar = n.digitChar) : m = n := by
  have hall : ∀ m < 16, ∀ n < 16, m.digitChar = n.digitChar → m = n := by decide
  exact hall m hm n hn h

theorem hexByte_injective {a b : UInt8} (h : hexByte a = hexByte b) : a = b := by
  obtain ⟨hhigh, hlow⟩ := List.cons.inj h
  have ha := a.toNat_lt
  have hb := b.toNat_lt
  have hhigh := digitChar_injective (by omega) (by omega) hhigh
  have hlow := digitChar_injective (by omega) (by omega) (List.cons.inj hlow).1
  exact UInt8.toNat_inj.mp (by omega)

/-- Two digits for each byte tell the bytes. -/
theorem hex_injective {a b : List UInt8} (h : a.flatMap hexByte = b.flatMap hexByte) : a = b := by
  induction a generalizing b with
  | nil =>
    cases b with
    | nil => rfl
    | cons y b => cases h
  | cons x a ih =>
    cases b with
    | nil => cases h
    | cons y b =>
      rw [List.flatMap_cons, List.flatMap_cons] at h
      have hlength : (hexByte x).length = (hexByte y).length := rfl
      obtain ⟨hbyte, hrest⟩ := List.append_inj h hlength
      rw [hexByte_injective hbyte, ih hrest]

theorem base64Encode_injective {a b : List UInt8} (h : base64Encode a = base64Encode b) : a = b :=
  hex_injective (String.ofList_injective h)

/-- Without its hyphens the text of a UUID has the digits of all its bytes. -/
theorem filter_uuidText (u : Uuid) :
    (uuidText u).toList.filter (· ≠ '-') = u.1.flatMap hexByte := by
  have hdigit : ∀ n < 16, (n.digitChar ≠ '-') := by decide
  have hhex : ∀ bytes : List UInt8,
      (bytes.flatMap hexByte).filter (· ≠ '-') = bytes.flatMap hexByte := by
    intro bytes
    rw [List.filter_eq_self]
    intro c hc
    obtain ⟨b, -, hc⟩ := List.mem_flatMap.mp hc
    have hb := b.toNat_lt
    unfold hexByte at hc
    rcases List.mem_pair.mp hc with rfl | rfl
    · exact decide_eq_true (hdigit _ (by omega))
    · exact decide_eq_true (hdigit _ (by omega))
  have hparts : ∀ l : List UInt8, l.length = 16 →
      (l.take 4).drop 0 ++ ((l.take 6).drop 4 ++ ((l.take 8).drop 6 ++
        ((l.take 10).drop 8 ++ (l.take 16).drop 10))) = l := by
    intro l hl
    have hstep : ∀ i j : ℕ, i ≤ j → l.take i ++ (l.take j).drop i = l.take j := by
      intro i j hij
      have hsplit := List.take_append_drop i (l.take j)
      rwa [List.take_take, min_eq_left hij] at hsplit
    rw [List.drop_zero, ← List.append_assoc, hstep 4 6 (by decide), ← List.append_assoc,
      hstep 6 8 (by decide), ← List.append_assoc, hstep 8 10 (by decide), hstep 10 16 (by decide),
      List.take_of_length_le hl.le]
  have hhyphen : ∀ rest : List Char, ('-' :: rest).filter (· ≠ '-') = rest.filter (· ≠ '-') :=
    fun rest => rfl
  unfold uuidText
  dsimp only
  rw [String.toList_ofList]
  simp only [List.append_assoc, List.cons_append, List.filter_append, hhyphen, hhex]
  rw [← List.flatMap_append, ← List.flatMap_append, ← List.flatMap_append, ← List.flatMap_append,
    hparts u.1 u.2]

theorem uuidText_injective {u u' : Uuid} (h : uuidText u = uuidText u') : u = u' := by
  apply Subtype.ext
  apply hex_injective
  rw [← filter_uuidText, ← filter_uuidText, h]

end Texts

section Objects

theorem itemsToJson_eq (items : List AvroValue) : itemsToJson items = items.map avroValueToJson := by
  induction items with
  | nil => rfl
  | cons v rest ih => rw [itemsToJson, List.map_cons, ih]

theorem entriesToJson_eq (entries : List (String × AvroValue)) :
    entriesToJson entries = entries.map fun e => (e.1, avroValueToJson e.2) := by
  induction entries with
  | nil => rfl
  | cons e rest ih => rw [entriesToJson, List.map_cons, ih]

theorem setField_of_notMem {key : String} {x : Json.Value} {fields : List (String × Json.Value)}
    (h : key ∉ fields.map Prod.fst) : Json.setField key x fields = fields ++ [(key, x)] := by
  induction fields with
  | nil => rfl
  | cons e rest ih =>
    rw [List.map_cons, List.mem_cons, not_or] at h
    obtain ⟨hne, hrest⟩ := h
    unfold Json.setField
    rw [if_neg hne, ih hrest]
    rfl

/-- Entries with different keys are an object as they are. -/
theorem collect_eq {entries : List (String × Json.Value)} (h : (entries.map Prod.fst).Nodup) :
    collect entries = entries := by
  induction entries using List.reverseRecOn with
  | nil => rfl
  | append_singleton entries e ih =>
    rw [List.map_append, List.nodup_append] at h
    have hnew : e.1 ∉ entries.map Prod.fst := fun hmem =>
      h.2.2 e.1 hmem e.1 (List.mem_singleton_self _) rfl
    have hfold := ih h.1
    unfold collect at hfold ⊢
    rw [List.foldl_append, hfold]
    exact setField_of_notMem hnew

/-- What an object has under a key. -/
theorem lookup_collect {entries : List (String × AvroValue)} (h : (entries.map Prod.fst).Nodup)
    (key : String) : (collect (entriesToJson entries)).lookup key =
      (entries.lookup key).map avroValueToJson := by
  have hkeys : ((entriesToJson entries).map Prod.fst).Nodup := by
    rw [entriesToJson_eq, List.map_map]
    exact h
  rw [collect_eq hkeys, entriesToJson_eq, Keyed.lookup_map_value]

theorem same_items_iff (items items' : List AvroValue) :
    Json.Value.Same (.arr (itemsToJson items)) (.arr (itemsToJson items')) ↔
      items.length = items'.length ∧ ∀ (i : ℕ) v v', items[i]? = some v → items'[i]? = some v' →
        (avroValueToJson v).Same (avroValueToJson v') := by
  rw [itemsToJson_eq, itemsToJson_eq]
  constructor
  · intro h
    cases h with
    | arr hlength h =>
      rw [List.length_map, List.length_map] at hlength
      refine ⟨hlength, fun i v v' hv hv' => h i _ _ ?_ ?_⟩
      · rw [List.getElem?_map, hv]
        rfl
      · rw [List.getElem?_map, hv']
        rfl
  · rintro ⟨hlength, h⟩
    refine .arr (by rw [List.length_map, List.length_map, hlength]) ?_
    intro i j j' hj hj'
    rw [List.getElem?_map] at hj hj'
    obtain ⟨v, hv, rfl⟩ := Option.map_eq_some_iff.mp hj
    obtain ⟨v', hv', rfl⟩ := Option.map_eq_some_iff.mp hj'
    exact h i v v' hv hv'

/-- Objects of entries with different keys are equal if they have the same keys, and equal values
under each. -/
theorem same_entries_iff {entries entries' : List (String × AvroValue)}
    (hnodup : (entries.map Prod.fst).Nodup) (hnodup' : (entries'.map Prod.fst).Nodup) :
    Json.Value.Same (.obj (collect (entriesToJson entries)))
        (.obj (collect (entriesToJson entries'))) ↔
      (∀ key, key ∈ entries.map Prod.fst ↔ key ∈ entries'.map Prod.fst) ∧
      ∀ e ∈ entries, ∀ e' ∈ entries', e.1 = e'.1 →
        (avroValueToJson e.2).Same (avroValueToJson e'.2) := by
  have hsome : ∀ {entries : List (String × AvroValue)}, (entries.map Prod.fst).Nodup → ∀ key,
      ((collect (entriesToJson entries)).lookup key).isSome = true ↔ key ∈ entries.map Prod.fst := by
    intro entries h key
    rw [lookup_collect h, Option.isSome_map, Keyed.isSome_lookup_iff]
  constructor
  · intro h
    cases h with
    | obj hkeys h =>
      constructor
      · intro key
        rw [← hsome hnodup, ← hsome hnodup', hkeys]
      · rintro ⟨key, v⟩ he ⟨key', v'⟩ he' hkey
        obtain rfl : key = key' := hkey
        apply h key
        · rw [lookup_collect hnodup, (Keyed.mem_iff_lookup hnodup).mp he]
          rfl
        · rw [lookup_collect hnodup', (Keyed.mem_iff_lookup hnodup').mp he']
          rfl
  · rintro ⟨hkeys, h⟩
    constructor
    · intro key
      rw [Bool.eq_iff_iff, hsome hnodup, hsome hnodup']
      exact hkeys key
    · intro key j j' hj hj'
      rw [lookup_collect hnodup] at hj
      rw [lookup_collect hnodup'] at hj'
      obtain ⟨v, hv, rfl⟩ := Option.map_eq_some_iff.mp hj
      obtain ⟨v', hv', rfl⟩ := Option.map_eq_some_iff.mp hj'
      exact h _ ((Keyed.mem_iff_lookup hnodup).mpr hv) _ ((Keyed.mem_iff_lookup hnodup').mpr hv') rfl

end Objects

end RustLake.Stream
