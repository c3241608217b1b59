import RustLake.Scheduler.Assertions
import RustLake.Stream.Avro
import RustLake.Text.Basic

/-! The client of the schema registry: the frame of Confluent messages, the schemas that it fetches
by their ids and keeps, and the decoding of messages by several tasks at once. -/
namespace RustLake.Stream.SchemaCache

open Scheduler

structure SchemaEntry where
  id : Int32
  version : Int32
  subject : String
  schemaType : String
  schema : String
deriving DecidableEq

structure HttpResponse where
  status : String
  success : Bool
  body : String

/-- An answer to a GET request: an error of the connection or a response. -/
abbrev RegistryAnswer (_url : String) : Type := Except String HttpResponse

/-- What the client calls: parsers of JSON and of schemas, the decoder of Avro data, the JSON
printer and the lossy reading of bytes. -/
structure Libraries (Schema : Type) where
  jsonFromStr : String → Except String Json.Value
  parseStr : String → Except String Schema
  fromAvroDatum : Schema → List UInt8 → Except String AvroValue
  jsonToString : Json.Value → Except String String
  fromUtf8Lossy : List UInt8 → String

structure CachedSchema (Schema : Type) where
  avroSchema : Schema
  rawJson : String

/-- The map of the cached schemas by their ids. -/
abbrev Cache (Schema : Type) : Type := List (Int32 × CachedSchema Schema)

structure SchemaRegistryClient where
  baseUrl : List Char

/-- The base URL stands without slashes at its end. -/
def SchemaRegistryClient.new (baseUrl : List Char) : SchemaRegistryClient :=
  ⟨baseUrl.rdropWhile (· == '/')⟩

def fromBeBytes (b₁ b₂ b₃ b₄ : UInt8) : Int32 :=
  (UInt32.ofNat (b₁.toNat * 2 ^ 24 + b₂.toNat * 2 ^ 16 + b₃.toNat * 2 ^ 8 + b₄.toNat)).toInt32

/-- The frame of a message: a zero, the id of its schema in four bytes, and the data. -/
def frame (id : Int32) (data : List UInt8) : List UInt8 :=
  let n := id.toUInt32.toNat
  0 :: UInt8.ofNat (n / 2 ^ 24) :: UInt8.ofNat (n / 2 ^ 16) :: UInt8.ofNat (n / 2 ^ 8) ::
    UInt8.ofNat n :: data

section
variable {Schema : Type} (lib : Libraries Schema) (client : SchemaRegistryClient)

/-- The code of the client between its sections and requests. -/
abbrev Task (Schema α : Type) : Type := Process (Cache Schema) RegistryAnswer α

def schemaUrl (id : Int32) : String :=
  String.ofList (client.baseUrl ++ "/schemas/ids/".toList ++ (toString id.toInt).toList)

/-- What the client makes of an answer to a request for a schema. -/
def entryOfAnswer (id : Int32) : Except String HttpResponse → Except String SchemaEntry
  | .error e => .error ("Schema Registry request failed: " ++ e)
  | .ok resp =>
    if resp.success then
      match lib.jsonFromStr resp.body with
      | .error e => .error ("Failed to parse schema response: " ++ e)
      | .ok entry => .ok
        { id := id
          version := 0
          subject := ""
          schemaType := ((entry.get "schemaType").bind (·.asStr)).getD "AVRO"
          schema := ((entry.get "schema").bind (·.asStr)).getD "" }
    else .error ("Schema Registry returned " ++ resp.status ++ ": " ++ resp.body)

def getSchemaById (id : Int32) : Task Schema (Except String SchemaEntry) :=
  .ask (schemaUrl client id) fun answer => .done (entryOfAnswer lib id answer)

/-- The schema of an entry, to be cached. -/
def cachedOfEntry (entry : SchemaEntry) : Except String (CachedSchema Schema) :=
  match lib.parseStr entry.schema with
  | .error e => .error ("Failed to parse Avro schema: " ++ e)
  | .ok avroSchema => .ok ⟨avroSchema, entry.schema⟩

def insert (id : Int32) (cached : CachedSchema Schema) (cache : Cache Schema) : Cache Schema :=
  (id, cached) :: cache.filter (·.1 ≠ id)

def getOrFetchAvroSchema (id : Int32) : Task Schema (Except String Schema) :=
  .read fun cache =>
    match cache.lookup id with
    | some cached => .done (.ok cached.avroSchema)
    | none => do
      match ← getSchemaById lib client id with
      | .error e => .done (.error e)
      | .ok entry =>
        match cachedOfEntry lib entry with
        | .error e => .done (.error e)
        | .ok cached => .write (insert id cached) (.done (.ok cached.avroSchema))

/-- The JSON text of the data of a message. -/
def decodeDatum (avroSchema : Schema) (data : List UInt8) : Except String String :=
  match lib.fromAvroDatum avroSchema data with
  | .error e => .error ("Avro decode failed: " ++ e)
  | .ok value =>
    match lib.jsonToString (avroValueToJson value) with
    | .error e => .error ("JSON serialize failed: " ++ e)
    | .ok text => .ok text

def decodeAvroMessage (payload : List UInt8) : Task Schema (Except String String) :=
  match payload with
  | magic :: b₁ :: b₂ :: b₃ :: b₄ :: data =>
    if magic ≠ 0 then .done (.ok (lib.fromUtf8Lossy payload))
    else do
      match ← getOrFetchAvroSchema lib client (fromBeBytes b₁ b₂ b₃ b₄) with
      | .error e => .done (.error e)
      | .ok avroSchema => .done (decodeDatum lib avroSchema data)
  | _ => .done (.error "Avro message too short (< 5 bytes)")

/-- What comes of an answer of the registry. -/
def cachedOfAnswer (id : Int32) (answer : Except String HttpResponse) :
    Except String (CachedSchema Schema) :=
  match entryOfAnswer lib id answer with
  | .error e => .error e
  | .ok entry => cachedOfEntry lib entry

/-- The registry has given a schema for an id. -/
def Gave (heard : List (Heard RegistryAnswer)) (id : Int32) (cached : CachedSchema Schema) : Prop :=
  ∃ answer, (⟨schemaUrl client id, answer⟩ : Heard RegistryAnswer) ∈ heard ∧
    cachedOfAnswer lib id answer = .ok cached

/-- An answer of the registry for an id was no schema. -/
def Refused (heard : List (Heard RegistryAnswer)) (id : Int32) (e : String) : Prop :=
  ∃ answer, (⟨schemaUrl client id, answer⟩ : Heard RegistryAnswer) ∈ heard ∧
    cachedOfAnswer lib id answer = .error e

theorem Gave.mono {lib : Libraries Schema} {client : SchemaRegistryClient}
    {heard : List (Heard RegistryAnswer)} {id : Int32} {cached : CachedSchema Schema}
    (h : Gave lib client heard id cached) (more : List (Heard RegistryAnswer)) :
    Gave lib client (heard ++ more) id cached := by
  obtain ⟨answer, hmem, hcached⟩ := h
  exact ⟨answer, List.mem_append_left more hmem, hcached⟩

theorem Refused.mono {lib : Libraries Schema} {client : SchemaRegistryClient}
    {heard : List (Heard RegistryAnswer)} {id : Int32} {e : String}
    (h : Refused lib client heard id e) (more : List (Heard RegistryAnswer)) :
    Refused lib client (heard ++ more) id e := by
  obtain ⟨answer, hmem, herror⟩ := h
  exact ⟨answer, List.mem_append_left more hmem, herror⟩

/-- Every cached schema has been given by the registry for its id. -/
def givenCache : Invariant (Cache Schema) RegistryAnswer where
  Holds heard cache := ∀ id cached, cache.lookup id = some cached → Gave lib client heard id cached
  mono more h id cached hlookup := (h id cached hlookup).mono more

/-- A task for an id asks for its schema only, and returns what is made of a schema that the
registry has given for it, or the error that an answer for it has led to. -/
def schemaSpec {α : Type} (id : Int32) (use : Schema → Except String α) :
    Spec RegistryAnswer (Except String α) where
  Asks url := url = schemaUrl client id
  Returns heard r := (∃ cached, Gave lib client heard id cached ∧ r = use cached.avroSchema) ∨
    ∃ e, Refused lib client heard id e ∧ r = .error e
  mono more h := by
    rcases h with hgave | hrefused
    · obtain ⟨cached, hcached, hr⟩ := hgave
      exact Or.inl ⟨cached, hcached.mono more, hr⟩
    · obtain ⟨e, herror, hr⟩ := hrefused
      exact Or.inr ⟨e, herror.mono more, hr⟩

/-- A message that has a frame is decoded by the schema of its id, and any other one at once. -/
def messageSpec (payload : List UInt8) : Spec RegistryAnswer (Except String String) :=
  match payload with
  | magic :: b₁ :: b₂ :: b₃ :: b₄ :: data =>
    if magic ≠ 0 then
      ⟨fun _ => False, fun _ r => r = .ok (lib.fromUtf8Lossy payload), fun _ h => h⟩
    else schemaSpec lib client (fromBeBytes b₁ b₂ b₃ b₄) fun schema => decodeDatum lib schema data
  | _ => ⟨fun _ => False, fun _ r => r = .error "Avro message too short (< 5 bytes)", fun _ h => h⟩

end

section
variable {Schema : Type} {lib : Libraries Schema} {client : SchemaRegistryClient}

theorem lookup_insert (id : Int32) (cached : CachedSchema Schema) (cache : Cache Schema)
    (other : Int32) :
    (insert id cached cache).lookup other =
      if other = id then some cached else cache.lookup other := by
  rw [insert, List.lookup_cons]
  by_cases hother : other = id
  · simp [hother]
  · have hbeq : (other == id) = false := by simpa using hother
    have hrest : (cache.filter (·.1 ≠ id)).lookup other = cache.lookup other := by
      induction cache with
      | nil => rfl
      | cons entry cache ih =>
        by_cases hentry : entry.1 = id
        · have hskip : (other == entry.1) = false := by simpa [hentry] using hother
          rw [List.filter_cons_of_neg (by simpa using hentry), ih, List.lookup_cons, hskip]
        · rw [List.filter_cons_of_pos (by simpa using hentry), List.lookup_cons, ih,
            List.lookup_cons]
    rw [hbeq, hrest, if_neg hother]

theorem getOrFetch_meets (lib : Libraries Schema) (client : SchemaRegistryClient) (id : Int32)
    (heard : List (Heard RegistryAnswer)) :
    (getOrFetchAvroSchema lib client id).Meets (givenCache lib client)
      (schemaSpec lib client id .ok) heard := by
  intro more cache hcache
  simp only
  cases hlookup : cache.lookup id with
  | some cached => exact Or.inl ⟨cached, hcache id cached hlookup, rfl⟩
  | none =>
    refine ⟨rfl, fun more' answer => ?_⟩
    have hheard : (⟨schemaUrl client id, answer⟩ : Heard RegistryAnswer) ∈
        heard ++ more ++ more' ++ [⟨schemaUrl client id, answer⟩] := by simp
    generalize heard ++ more ++ more' ++ [⟨schemaUrl client id, answer⟩] = now at hheard ⊢
    change Process.Meets _ _ now (match entryOfAnswer lib id answer with
      | Except.error e => Process.done (Except.error e)
      | Except.ok entry =>
        match cachedOfEntry lib entry with
        | Except.error e => Process.done (Except.error e)
        | Except.ok cached =>
          Process.write (insert id cached) (Process.done (Except.ok cached.avroSchema)))
    cases hentry : entryOfAnswer lib id answer with
    | error e => exact Or.inr ⟨e, ⟨answer, hheard, by rw [cachedOfAnswer, hentry]⟩, rfl⟩
    | ok entry =>
      have hanswer : cachedOfAnswer lib id answer = cachedOfEntry lib entry := by
        rw [cachedOfAnswer, hentry]
      simp only
      cases hcached : cachedOfEntry lib entry with
      | error e => exact Or.inr ⟨e, ⟨answer, hheard, hanswer.trans hcached⟩, rfl⟩
      | ok cached =>
        have hgave : Gave lib client now id cached := ⟨answer, hheard, hanswer.trans hcached⟩
        intro more'' cache' hcache'
        constructor
        · intro other found hfound
          rw [lookup_insert] at hfound
          split_ifs at hfound with hother
          · cases hfound
            rw [hother]
            exact hgave.mono more''
          · exact hcache' other found hfound
        · exact Or.inl ⟨cached, hgave.mono more'', rfl⟩

theorem decodeAvroMessage_meets (lib : Libraries Schema) (client : SchemaRegistryClient)
    (payload : List UInt8) (heard : List (Heard RegistryAnswer)) :
    (decodeAvroMessage lib client payload).Meets (givenCache lib client)
      (messageSpec lib client payload) heard := by
  unfold decodeAvroMessage messageSpec
  split
  · rename_i magic b₁ b₂ b₃ b₄ data
    split_ifs with hmagic
    · rfl
    · apply (getOrFetch_meets lib client (fromBeBytes b₁ b₂ b₃ b₄) heard).bind
      · exact fun url h => h
      · intro heard' r hr
        rcases hr with hgave | hrefused
        · obtain ⟨cached, hcached, rfl⟩ := hgave
          exact Or.inl ⟨cached, hcached, rfl⟩
        · obtain ⟨e, herror, rfl⟩ := hrefused
          exact Or.inr ⟨e, herror, rfl⟩
  · rfl

end

theorem fromBeBytes_frame (id : Int32) :
    fromBeBytes (UInt8.ofNat (id.toUInt32.toNat / 2 ^ 24)) (UInt8.ofNat (id.toUInt32.toNat / 2 ^ 16))
      (UInt8.ofNat (id.toUInt32.toNat / 2 ^ 8)) (UInt8.ofNat id.toUInt32.toNat) = id := by
  have hlt := id.toUInt32.toNat_lt
  rw [fromBeBytes]
  simp only [UInt8.toNat_ofNat']
  generalize hn : id.toUInt32.toNat = n at hlt ⊢
  have hsum : n / 2 ^ 24 % 2 ^ 8 * 2 ^ 24 + n / 2 ^ 16 % 2 ^ 8 * 2 ^ 16 +
      n / 2 ^ 8 % 2 ^ 8 * 2 ^ 8 + n % 2 ^ 8 = n := by
    omega
  rw [hsum, ← hn, UInt32.ofNat_toNat]
  rfl

section
variable {Schema : Type} {lib : Libraries Schema} {client : SchemaRegistryClient}

theorem schemaUrl_injective {id id' : Int32} (h : schemaUrl client id = schemaUrl client id') :
    id = id' := by
  have hlist := String.ofList_inj.mp h
  have hdigits := List.append_cancel_left hlist
  exact Int32.toInt_inj.mp (Text.toString_int_inj (String.toList_inj.mp hdigits))

/-- Nothing that a task writes takes a schema out of the cache. -/
theorem decodeAvroMessage_writes (lib : Libraries Schema) (client : SchemaRegistryClient) (id : Int32)
    (payload : List UInt8) :
    (decodeAvroMessage lib client payload).Writes fun f =>
      ∀ cache, (cache.lookup id).isSome → ((f cache).lookup id).isSome := by
  have hfetch : ∀ id', (getOrFetchAvroSchema lib client id').Writes fun f =>
      ∀ cache, (cache.lookup id).isSome → ((f cache).lookup id).isSome := by
    intro id' cache
    simp only
    cases cache.lookup id' with
    | some cached => trivial
    | none =>
      intro answer
      change Process.Writes _ (match entryOfAnswer lib id' answer with
        | Except.error e => Process.done (Except.error e)
        | Except.ok entry =>
          match cachedOfEntry lib entry with
          | Except.error e => Process.done (Except.error e)
          | Except.ok cached =>
            Process.write (insert id' cached) (Process.done (Except.ok cached.avroSchema)))
      split
      · trivial
      · split
        · trivial
        · refine ⟨fun cache' hsome => ?_, trivial⟩
          rw [lookup_insert]
          split_ifs
          · rfl
          · exact hsome
  unfold decodeAvroMessage
  split
  · split_ifs
    · trivial
    · apply (hfetch _).bind
      intro r
      cases r <;> trivial
  · trivial

/-- The id has a schema in the cache. -/
def cachedId (Schema : Type) (id : Int32) : Invariant (Cache Schema) RegistryAnswer where
  Holds _ cache := (cache.lookup id).isSome
  mono _ h := h

/-- A task that does not ask for the schema of an id. -/
def withoutAsking (client : SchemaRegistryClient) (id : Int32) :
    Spec RegistryAnswer (Except String String) where
  Asks url := url ≠ schemaUrl client id
  Returns _ _ := True
  mono _ h := h

theorem decodeAvroMessage_withoutAsking (lib : Libraries Schema) (client : SchemaRegistryClient)
    (id : Int32) (payload : List UInt8) (heard : List (Heard RegistryAnswer)) :
    (decodeAvroMessage lib client payload).Meets (cachedId Schema id) (withoutAsking client id)
      heard := by
  have hfetch : ∀ id', (getOrFetchAvroSchema lib client id').Meets (cachedId Schema id)
      ⟨fun url => url ≠ schemaUrl client id, fun _ _ => True, fun _ h => h⟩ heard := by
    intro id' more cache hcached
    simp only
    cases hlookup : cache.lookup id' with
    | some cached => trivial
    | none =>
      have hne : id' ≠ id := by
        intro heq
        have hsome : (cache.lookup id).isSome := hcached
        rw [← heq, hlookup] at hsome
        cases hsome
      refine ⟨fun hurl => hne (schemaUrl_injective hurl), fun more' answer => ?_⟩
      generalize heard ++ more ++ more' ++ [⟨schemaUrl client id', answer⟩] = now
      change Process.Meets _ _ now (match entryOfAnswer lib id' answer with
        | Except.error e => Process.done (Except.error e)
        | Except.ok entry =>
          match cachedOfEntry lib entry with
          | Except.error e => Process.done (Except.error e)
          | Except.ok cached =>
            Process.write (insert id' cached) (Process.done (Except.ok cached.avroSchema)))
      split
      · trivial
      · split
        · trivial
        · rename_i cached hcachedOf
          intro more'' cache' hcached'
          refine ⟨?_, trivial⟩
          have hkept : ((insert id' cached cache').lookup id).isSome := by
            rw [lookup_insert, if_neg (Ne.symm hne)]
            exact hcached'
          exact hkept
  unfold decodeAvroMessage
  split
  · split_ifs
    · trivial
    · apply (hfetch _).bind
      · exact fun url h => h
      · intro heard' r hr
        cases r <;> trivial
  · trivial

end

/-- In any run of tasks that decode messages beside each other, a message with a frame is decoded by
a schema that the registry has given for its own id, whichever task asked for it; or the task
returns the error to which an answer for that id has led. -/
theorem decoded_by_own_schema {Schema : Type} (lib : Libraries Schema)
    (client : SchemaRegistryClient) (moves : List (Move RegistryAnswer (List UInt8)))
    (pool : Pool (Cache Schema) RegistryAnswer (Except String String))
    (hrun : Run.run (Pool.step (decodeAvroMessage lib client)) ⟨[], []⟩ moves = some pool) (i : ℕ)
    (id : Int32) (data : List UInt8) (r : Except String String)
    (hcall : (moves.flatMap (Move.begun fun payload => payload))[i]? = some (frame id data))
    (hdone : pool.running[i]? = some (.done r)) :
    (∃ cached, Gave lib client (Pool.heard (decodeAvroMessage lib client) ⟨[], []⟩ moves) id cached ∧
      r = decodeDatum lib cached.avroSchema data) ∨
    ∃ e, Refused lib client (Pool.heard (decodeAvroMessage lib client) ⟨[], []⟩ moves) id e ∧
      r = .error e := by
  have hempty : Pool.Meet (givenCache lib client) [] []
      (⟨[], []⟩ : Pool (Cache Schema) RegistryAnswer (Except String String)) := by
    refine ⟨List.Forall₂.nil, fun id cached hlookup => ?_⟩
    cases hlookup
  have hmeet := hempty.run (decodeAvroMessage_meets lib client) hrun
  rw [List.nil_append, List.nil_append, flatMap_begun] at hmeet
  have hspec : ((moves.flatMap (Move.begun fun payload => payload)).map
      (messageSpec lib client))[i]? = some (messageSpec lib client (frame id data)) := by
    rw [List.getElem?_map, hcall, Option.map_some]
  have hreturns := hmeet.at hspec hdone
  have hframe : messageSpec lib client (frame id data) =
      schemaSpec lib client id fun schema => decodeDatum lib schema data := by
    have hid := fromBeBytes_frame id
    simp only [frame, messageSpec, hid]
    rfl
  rw [hframe] at hreturns
  exact hreturns

/-- What the libraries do with one schema, of strings, and one datum. -/
def stringLibraries : Libraries String where
  jsonFromStr body :=
    if body = "\x7b\"schema\":\"\\\"string\\\"\"\x7d" then .ok (.obj [("schema", .str "\"string\"")])
    else .error "expected value at line 1 column 1"
  parseStr schema :=
    if schema = "\"string\"" then .ok schema else .error "Failed to parse schema from JSON"
  fromAvroDatum schema data :=
    if schema = "\"string\"" ∧ data = [4, 104, 105] then .ok (.atom (.string "hi"))
    else .error "failed to fill whole buffer"
  jsonToString _ := .ok "\"hi\""
  fromUtf8Lossy _ := ""

def localRegistry : SchemaRegistryClient := .new "http://localhost:8081/".toList

/-- A task that finds nothing in the cache, and the answer of the registry. -/
def stringMoves : List (Move RegistryAnswer (List UInt8)) :=
  [.begin (frame 7 [4, 104, 105]), .advance 0 fun _ => .error "",
    .advance 0 fun _ => .ok ⟨"200 OK", true, "\x7b\"schema\":\"\\\"string\\\"\"\x7d"⟩,
    .advance 0 fun _ => .error ""]

/-- What the moves lead to. -/
def stringPool : Pool (Cache String) RegistryAnswer (Except String String) :=
  ⟨[(7, ⟨"\"string\"", "\"string\""⟩)], [.done (.ok "\"hi\"")]⟩

theorem decoded_by_own_schema_string :
    (∃ cached, Gave stringLibraries localRegistry
      (Pool.heard (decodeAvroMessage stringLibraries localRegistry) ⟨[], []⟩ stringMoves) 7 cached ∧
      Except.ok "\"hi\"" = decodeDatum stringLibraries cached.avroSchema [4, 104, 105]) ∨
    ∃ e, Refused stringLibraries localRegistry
      (Pool.heard (decodeAvroMessage stringLibraries localRegistry) ⟨[], []⟩ stringMoves) 7 e ∧
      Except.ok "\"hi\"" = .error e :=
  decoded_by_own_schema stringLibraries localRegistry stringMoves stringPool rfl 0 7 [4, 104, 105]
    (.ok "\"hi\"") rfl rfl

/-- Once a schema is in the cache, no task that begins afterwards asks the registry for it, whatever
the tasks begun before go on to do. -/
theorem cached_schema_not_asked_again {Schema : Type} (lib : Libraries Schema)
    (client : SchemaRegistryClient) (moves later : List (Move RegistryAnswer (List UInt8)))
    (pool pool' : Pool (Cache Schema) RegistryAnswer (Except String String))
    (hrun : Run.run (Pool.step (decodeAvroMessage lib client)) ⟨[], []⟩ moves = some pool)
    (hlater : Run.run (Pool.step (decodeAvroMessage lib client)) pool later = some pool') (id : Int32)
    (hcached : (pool.state.lookup id).isSome) (i : ℕ) (hi : pool.running.length ≤ i)
    (k : RegistryAnswer (schemaUrl client id) → Task Schema (Except String String)) :
    pool'.running[i]? ≠ some (.ask (schemaUrl client id) k) := by
  intro hask
  have hwrites : ∀ p ∈ pool.running, p.Writes fun f =>
      ∀ cache : Cache Schema, (cache.lookup id).isSome → ((f cache).lookup id).isSome := by
    have hnone : ∀ p ∈ (⟨[], []⟩ : Pool (Cache Schema) RegistryAnswer
        (Except String String)).running, p.Writes fun f =>
          ∀ cache : Cache Schema, (cache.lookup id).isSome → ((f cache).lookup id).isSome := by
      simp
    exact Run.invariant (fun _ _ _ h _ hstep =>
      Pool.step_writes (decodeAvroMessage_writes lib client id) h hstep) hnone
      (Run.along_of_forall fun _ _ => trivial) hrun
  have hbefore : Pool.Meet (cachedId Schema id) (pool.running.map fun _ => Spec.any) [] pool := by
    refine ⟨?_, hcached⟩
    rw [List.forall₂_map_left_iff, List.forall₂_same]
    intro p hp
    exact (hwrites p hp).meets (fun f hf heard cache hsome => hf cache hsome) []
  have hmeet := hbefore.run (decodeAvroMessage_withoutAsking lib client id) hlater
  have hlength := hmeet.running.length_eq
  have hlt := (List.getElem?_eq_some_iff.mp hask).1
  rw [flatMap_begun] at hmeet hlength
  have hspec : (pool.running.map (fun _ => Spec.any) ++
      (later.flatMap (Move.begun fun payload => payload)).map fun _ =>
        withoutAsking client id)[i]? = some (withoutAsking client id) := by
    rw [List.getElem?_append_right (by simpa using hi), List.getElem?_map,
      List.getElem?_eq_getElem (by simp at hlength ⊢; omega)]
    rfl
  exact (hmeet.at hspec hask).1 rfl

theorem cached_schema_not_asked_again_string :
    (⟨stringPool.state, stringPool.running ++
      [decodeAvroMessage stringLibraries localRegistry (frame 7 [4, 104, 105])]⟩ :
        Pool (Cache String) RegistryAnswer (Except String String)).running[1]? ≠
      some (.ask (schemaUrl localRegistry 7) fun _ => .done (.error "")) :=
  cached_schema_not_asked_again stringLibraries localRegistry stringMoves
    [.begin (frame 7 [4, 104, 105])] stringPool _ rfl rfl 7 rfl 1 (by decide) _

end RustLake.Stream.SchemaCache
