import RustLake.Json.Value
import RustLake.Text.Csv
import RustLake.Text.Replace
import Mathlib.Data.List.Range

/-! The simulated events and the file that they are appended to, request by request. -/
namespace RustLake.Stream.EventsCsv
open RustLake.Json RustLake.Text RustLake.Csv

def pages : Vector String 12 :=
  #v["/home", "/products", "/products/electronics", "/products/clothing", "/products/shoes",
    "/products/home-garden", "/cart", "/checkout", "/search", "/account", "/deals",
    "/products/accessories"]

def searchTerms : Vector String 12 :=
  #v["red shoes", "wireless headphones", "laptop stand", "running shoes", "coffee maker",
    "yoga mat", "backpack", "winter jacket", "mechanical keyboard", "desk lamp", "water bottle",
    "phone case"]

def productNames : Vector String 10 :=
  #v["UltraBoost Running Shoe", "Noise-Cancel Headphones Pro", "Ergonomic Laptop Stand",
    "Premium Yoga Mat", "Stainless Travel Mug", "Wireless Keyboard MX", "LED Desk Lamp",
    "Canvas Backpack", "Winter Parka", "Phone Case Ultra"]

def categories : Vector String 8 :=
  #v["electronics", "clothing", "shoes", "home-garden", "accessories", "sports", "kitchen",
    "office"]

abbrev Uuid := BitVec 128

/-- Small hexadecimal digits, in groups. -/
def Uuid.toText (id : Uuid) : List Char :=
  (List.range 32).flatMap fun i =>
    (if i ∈ [8, 12, 16, 20] then ['-'] else []) ++ [Nat.digitChar (id.toNat / 16 ^ (31 - i) % 16)]

structure StreamEvent where
  eventId : List Char
  eventType : List Char
  customerId : ℕ
  sessionId : List Char
  productId : Option ℕ
  page : List Char
  timestamp : ℤ
  properties : Value

/-- What is drawn for an event of each type. -/
inductive Details where
  | pageView (page : Fin 12) (referrer : Fin 3) (mobile : Bool) (duration : Fin 29500)
  | addToCart (product : Fin 899) (productName : Fin 10) (category : Fin 8) (price : Fin 19000)
      (quantity : Fin 4)
  | purchase (product : Fin 899) (items : Fin 5) (total : Fin 48000) (payment : Fin 3)
      (order : Fin 899999) (express : Bool)
  | search (term : Fin 12) (results : Fin 250) (category : Fin 8) (priceMax : Fin 450)

structure Draw where
  eventId : Uuid
  sessionId : Uuid
  customer : Fin 8999
  jitterMs : Fin 1000
  details : Details

/-- Text that stands in the file as it is. -/
def IsPlain (text : List Char) : Prop := ∀ c ∈ text, c ≠ ',' ∧ c ≠ '\n' ∧ c ≠ '"'

instance (text : List Char) : Decidable (IsPlain text) := List.decidableBAll _ text

/-- The texts of other crates: hundredths as `serde_json` writes them, JSON, and times, in which no
letter stands that means something in the file. -/
structure Texts where
  hundredths : ℕ → String
  toJson : Value → Except String (List Char)
  toRfc3339 : ℤ → List Char
  plain_toRfc3339 : ∀ t, IsPlain (toRfc3339 t)

section
variable (texts : Texts)

/-- The type, the product, the page and the properties of an event. -/
def Details.parts : Details → List Char × Option ℕ × List Char × Value
  | .pageView page referrer mobile duration =>
    ("page_view".toList, none, pages[page].toList, .obj [
      ("referrer", .str #v["google.com", "direct", "social"][referrer]),
      ("device", .str (if mobile then "mobile" else "desktop")),
      ("duration_ms", .num (500 + duration : ℕ))])
  | .addToCart product productName category price quantity =>
    ("add_to_cart".toList, some (100 + product), "/cart".toList, .obj [
      ("product_name", .str productNames[productName]),
      ("category", .str categories[category]),
      ("price", .float (texts.hundredths (999 + price))),
      ("quantity", .num (1 + quantity : ℕ)),
      ("currency", .str "USD")])
  | .purchase product items total payment order express =>
    ("purchase".toList, some (100 + product), "/checkout".toList, .obj [
      ("order_id", .str ("ORD-" ++ toString (100000 + order : ℕ))),
      ("total", .float (texts.hundredths (1999 + total))),
      ("items_count", .num (1 + items : ℕ)),
      ("payment_method", .str #v["credit_card", "paypal", "apple_pay"][payment]),
      ("currency", .str "USD"),
      ("shipping", .str (if express then "express" else "standard"))])
  | .search term results category priceMax =>
    ("search".toList, none, "/search".toList, .obj [
      ("query", .str searchTerms[term]),
      ("results_count", .num (results : ℕ)),
      ("filters", .obj [
        ("category", .str categories[category]),
        ("price_max", .num (50 + priceMax : ℕ))])])

/-- The event at a place of a burst. Times are in nanoseconds. -/
def generateEvent (baseTime : ℤ) (i : ℕ) (draw : Draw) : StreamEvent :=
  let (eventType, productId, page, properties) := draw.details.parts texts
  { eventId := draw.eventId.toText
    eventType
    customerId := 1000 + draw.customer
    sessionId := draw.sessionId.toText
    productId
    page
    timestamp := baseTime + (i * 10 + draw.jitterMs) * 1000000
    properties }

def generateEvents (baseTime : ℤ) (draws : ℕ → Draw) (count : ℕ) : List StreamEvent :=
  (List.range count).map fun i => generateEvent texts baseTime i (draws i)

def headerLine : List Char :=
  "event_id,event_type,customer_id,session_id,product_id,page,timestamp,properties\n".toList

def productIdStr (event : StreamEvent) : List Char :=
  (event.productId.map fun id => (toString id).toList).getD []

def props (event : StreamEvent) : List Char :=
  match texts.toJson event.properties with
  | .ok text => text
  | .error _ => []

def eventLine (event : StreamEvent) : List Char :=
  let propsEscaped := replaceAll ['"'] ['"', '"'] (props texts event)
  event.eventId ++ ',' :: event.eventType ++ ',' :: (toString event.customerId).toList ++
    ',' :: event.sessionId ++ ',' :: productIdStr event ++ ',' :: event.page ++
    ',' :: texts.toRfc3339 event.timestamp ++ ',' :: '"' :: propsEscaped ++ ['"', '\n']

/-- How the file system answers: the file cannot be opened, or takes only so many letters more, or
takes all. -/
inductive Disk where
  | denied
  | takes (letters : ℕ)
  | free
deriving DecidableEq

/-- What is in the file afterwards, if there is one, from what was in it before. -/
def writeEventsCsv (file : Option (List Char)) (events : List StreamEvent) (disk : Disk) :
    Option (List Char) :=
  let written := (if file.isSome then [] else headerLine) ++ events.flatMap (eventLine texts)
  match disk with
  | .denied => file
  | .takes letters => some (file.getD [] ++ written.take letters)
  | .free => some (file.getD [] ++ written)

/-- A request for events, with what is drawn for it, its time and the answers of the disk. -/
structure Ingest where
  count : ℕ
  draws : ℕ → Draw
  now : ℤ
  disk : Disk

/-- The events of a request, of which there are at most ten thousand. -/
def Ingest.events (req : Ingest) : List StreamEvent :=
  generateEvents texts req.now req.draws (min req.count 10000)

/-- The file after requests, the oldest first. -/
def streamIngest (file : Option (List Char)) (requests : List Ingest) : Option (List Char) :=
  requests.foldl (fun file req => writeEventsCsv texts file (req.events texts) req.disk) file

/-- The fields that are read of an event. -/
def record (event : StreamEvent) : List (List Char) :=
  [event.eventId, event.eventType, (toString event.customerId).toList, event.sessionId,
    productIdStr event, event.page, texts.toRfc3339 event.timestamp, props texts event]

end

def headerRecord : List (List Char) :=
  ["event_id", "event_type", "customer_id", "session_id", "product_id", "page", "timestamp",
    "properties"].map String.toList

/-- An event whose texts stand in the file as they are. -/
structure PlainEvent (event : StreamEvent) : Prop where
  eventId : IsPlain event.eventId
  eventType : IsPlain event.eventType
  sessionId : IsPlain event.sessionId
  page : IsPlain event.page

/-- The fields of an event with the form in which they are written. -/
def fields (texts : Texts) (event : StreamEvent) : List (Csv.Field Char) :=
  [.plain event.eventId, .plain event.eventType, .plain (toString event.customerId).toList,
    .plain event.sessionId, .plain (productIdStr event), .plain event.page,
    .plain (texts.toRfc3339 event.timestamp), .quoted (props texts event)]

section
variable {texts : Texts} {event : StreamEvent}

theorem isPlain_append {a b : List Char} (ha : IsPlain a) (hb : IsPlain b) : IsPlain (a ++ b) := by
  intro c hc
  rcases List.mem_append.mp hc with hc | hc
  · exact ha c hc
  · exact hb c hc

theorem isPlain_digits (n : ℕ) : IsPlain (toString n).toList := by
  intro c hc
  have hdigits : (toString n).toList = Nat.toDigits 10 n := Nat.toList_repr
  rw [hdigits] at hc
  have hdigit := Nat.isDigit_of_mem_toDigits (by decide) (by decide) hc
  refine ⟨?_, ?_, ?_⟩ <;> rintro rfl <;> exact absurd hdigit (by decide)

theorem isPlain_digitChar (n : ℕ) : IsPlain [Nat.digitChar (n % 16)] := by
  have hall : ∀ m < 16, IsPlain [Nat.digitChar m] := by decide
  exact hall _ (Nat.mod_lt n (by decide))

theorem isPlain_uuid (id : Uuid) : IsPlain id.toText := by
  intro c hc
  obtain ⟨i, -, hletter⟩ := List.mem_flatMap.mp hc
  have hhyphen : IsPlain (if i ∈ [8, 12, 16, 20] then ['-'] else []) := by
    split_ifs <;> decide
  exact isPlain_append hhyphen (isPlain_digitChar _) c hletter

theorem isPlain_parts (details : Details) :
    IsPlain (details.parts texts).1 ∧ IsPlain (details.parts texts).2.2.1 := by
  have hpages : ∀ page : Fin 12, IsPlain pages[page].toList := by decide
  have htypes : ∀ name ∈ ["page_view", "add_to_cart", "purchase", "search", "/cart", "/checkout",
      "/search"], IsPlain name.toList := by decide
  cases details with
  | pageView page referrer mobile duration => exact ⟨htypes _ (by simp), hpages page⟩
  | addToCart product productName category price quantity =>
    exact ⟨htypes _ (by simp), htypes _ (by simp)⟩
  | purchase product items total payment order express =>
    exact ⟨htypes _ (by simp), htypes _ (by simp)⟩
  | search term results category priceMax => exact ⟨htypes _ (by simp), htypes _ (by simp)⟩

theorem plainEvent_generateEvent (baseTime : ℤ) (i : ℕ) (draw : Draw) :
    PlainEvent (generateEvent texts baseTime i draw) where
  eventId := isPlain_uuid draw.eventId
  sessionId := isPlain_uuid draw.sessionId
  eventType := (isPlain_parts draw.details).1
  page := (isPlain_parts draw.details).2

theorem isPlain_productIdStr (event : StreamEvent) : IsPlain (productIdStr event) := by
  rw [productIdStr]
  cases event.productId with
  | none => decide
  | some id => exact isPlain_digits id

theorem fits_fields (h : PlainEvent event) : ∀ field ∈ fields texts event, field.Fits csv := by
  simp only [fields, List.forall_mem_cons]
  exact ⟨h.eventId, h.eventType, isPlain_digits _, h.sessionId, isPlain_productIdStr event, h.page,
    texts.plain_toRfc3339 _, trivial, by simp⟩

theorem eventLine_eq (event : StreamEvent) :
    eventLine texts event = writeRecord csv (fields texts event) := by
  have hescape : replaceAll ['"'] ['"', '"'] (props texts event) =
      escape csv (props texts event) := replaceAll_singleton _ _ _
  simp [eventLine, hescape, writeRecord, fields, Field.write, List.intercalate, csv]

theorem headerLine_eq : headerLine = writeRecord csv (headerRecord.map .plain) := by
  decide

/-- The rows that a request adds. -/
def Ingest.rows (texts : Texts) (req : Ingest) : List (List (Csv.Field Char)) :=
  if req.disk = .denied then [] else (req.events texts).map (fields texts)

theorem write_rows {req : Ingest} (hopen : req.disk ≠ .denied) :
    write csv (req.rows texts) = (req.events texts).flatMap (eventLine texts) := by
  rw [Ingest.rows, if_neg hopen, write, List.flatMap_map]
  congr 1
  funext event
  exact (eventLine_eq event).symm

/-- A request whose disk takes all or nothing. -/
theorem writeEventsCsv_rows {req : Ingest} (hdisk : ∀ letters, req.disk ≠ .takes letters)
    (hopen : req.disk ≠ .denied) (file : Option (List Char)) :
    writeEventsCsv texts file (req.events texts) req.disk =
      some (file.getD headerLine ++ write csv (req.rows texts)) := by
  have hfree : req.disk = .free := by
    cases h : req.disk with
    | denied => exact absurd h hopen
    | takes letters => exact absurd h (hdisk letters)
    | free => rfl
  rw [write_rows hopen, hfree]
  cases file with
  | none => simp [writeEventsCsv]
  | some text => simp [writeEventsCsv]

/-- A file is extended by the rows of the requests. -/
theorem streamIngest_some {requests : List Ingest}
    (hdisk : ∀ req ∈ requests, ∀ letters, req.disk ≠ .takes letters) (text : List Char) :
    streamIngest texts (some text) requests =
      some (text ++ write csv (requests.flatMap (·.rows texts))) := by
  induction requests generalizing text with
  | nil => simp [streamIngest, write]
  | cons req requests ih =>
    obtain ⟨hreq, hrequests⟩ := List.forall_mem_cons.mp hdisk
    have hstep : writeEventsCsv texts (some text) (req.events texts) req.disk =
        some (text ++ write csv (req.rows texts)) := by
      by_cases hopen : req.disk = .denied
      · simp [writeEventsCsv, hopen, Ingest.rows, write]
      · exact writeEventsCsv_rows hreq hopen (some text)
    have hrest : streamIngest texts (some text) (req :: requests) =
        streamIngest texts (writeEventsCsv texts (some text) (req.events texts) req.disk)
          requests := rfl
    rw [hrest, hstep, ih hrequests]
    simp

/-- The first request that opens the file makes it, with the header. -/
theorem streamIngest_none {requests : List Ingest}
    (hdisk : ∀ req ∈ requests, ∀ letters, req.disk ≠ .takes letters) :
    streamIngest texts none requests =
      if ∀ req ∈ requests, req.disk = .denied then none
      else some (headerLine ++ write csv (requests.flatMap (·.rows texts))) := by
  induction requests with
  | nil => simp [streamIngest]
  | cons req requests ih =>
    obtain ⟨hreq, hrequests⟩ := List.forall_mem_cons.mp hdisk
    have hrest : streamIngest texts none (req :: requests) =
        streamIngest texts (writeEventsCsv texts none (req.events texts) req.disk) requests := rfl
    by_cases hopen : req.disk = .denied
    · have hnone : writeEventsCsv texts none (req.events texts) req.disk = none := by
        simp [writeEventsCsv, hopen]
      rw [hrest, hnone, ih hrequests]
      simp [hopen, Ingest.rows]
    · have hall : ¬ ∀ r ∈ req :: requests, r.disk = .denied := fun h =>
        hopen (h req List.mem_cons_self)
      rw [hrest, writeEventsCsv_rows hreq hopen, streamIngest_some hrequests, if_neg hall]
      simp

theorem fits_rows (requests : List Ingest) :
    ∀ row ∈ requests.flatMap (·.rows texts), row ≠ [] ∧ ∀ field ∈ row, field.Fits csv := by
  intro row hrow
  obtain ⟨req, -, hin⟩ := List.mem_flatMap.mp hrow
  rw [Ingest.rows] at hin
  split_ifs at hin
  · simp at hin
  · obtain ⟨event, hevent, rfl⟩ := List.mem_map.mp hin
    obtain ⟨i, -, rfl⟩ := List.mem_map.mp hevent
    exact ⟨by simp [fields], fits_fields (plainEvent_generateEvent _ _ _)⟩

/-- The events of the requests that could open the file. -/
def ingested (texts : Texts) (requests : List Ingest) : List StreamEvent :=
  (requests.filter (·.disk ≠ .denied)).flatMap (·.events texts)

theorem text_rows (requests : List Ingest) :
    (requests.flatMap (·.rows texts)).map (·.map (·.text)) =
      (ingested texts requests).map (record texts) := by
  induction requests with
  | nil => rfl
  | cons req requests ih =>
    rw [List.flatMap_cons, List.map_append, ih, ingested, ingested]
    by_cases hopen : req.disk = .denied
    · simp [Ingest.rows, hopen]
    · have hrecord : (fun event => (fields texts event).map (·.text)) = record texts := rfl
      simp [Ingest.rows, hopen, Function.comp_def, hrecord]

/-- As long as the disk takes what it is given or cannot be opened, the file reads as its header
and the events of all requests in their order, the properties as the JSON that they were. Once it
exists without its header, because the disk was full when it was made, the header is not written
any more. -/
theorem events_csv_reads_back (texts : Texts) (requests : List Ingest)
    (hdisk : ∀ req ∈ requests, ∀ letters, req.disk ≠ .takes letters) :
    (streamIngest texts none requests = none ↔ ∀ req ∈ requests, req.disk = .denied) ∧
    (∀ text, streamIngest texts none requests = some text →
      read csv text = some (headerRecord :: (ingested texts requests).map (record texts))) ∧
    ∀ full, full.disk = .takes 0 → ∃ text, streamIngest texts none (full :: requests) = some text ∧
      read csv text = some ((ingested texts requests).map (record texts)) := by
  refine ⟨?_, ?_, ?_⟩
  · rw [streamIngest_none hdisk]
    split_ifs with hdenied
    · simpa using hdenied
    · simpa using hdenied
  · intro text htext
    rw [streamIngest_none hdisk] at htext
    split_ifs at htext
    have hheader : headerLine ++ write csv (requests.flatMap (·.rows texts)) =
        write csv (headerRecord.map .plain :: requests.flatMap (·.rows texts)) := by
      rw [headerLine_eq]
      simp [write]
    have hfits : ∀ field ∈ headerRecord.map Field.plain, field.Fits csv := by
      intro field hfield
      obtain ⟨name, hname, rfl⟩ := List.mem_map.mp hfield
      have hplain : ∀ name ∈ headerRecord, IsPlain name := by decide
      exact hplain name hname
    rw [← Option.some.inj htext, hheader, read_write]
    · rw [List.map_cons, text_rows]
      rfl
    · exact List.forall_mem_cons.mpr ⟨⟨by simp [headerRecord], hfits⟩, fits_rows requests⟩
  · intro full hfull
    have hmade : streamIngest texts none (full :: requests) =
        streamIngest texts (some []) requests := by
      simp [streamIngest, writeEventsCsv, hfull]
    refine ⟨_, hmade.trans (streamIngest_some hdisk []), ?_⟩
    rw [List.nil_append, read_write (fits_rows requests), text_rows]

end

/-- JSON and times as far as one search needs them. -/
def searchTexts : Texts where
  hundredths _ := "19.99"
  toJson _ := .ok
    ("\x7b\"filters\":\x7b\"category\":\"home-garden\",\"price_max\":50\x7d," ++
      "\"query\":\"desk lamp\",\"results_count\":7\x7d").toList
  toRfc3339 _ := "1970-01-01T00:00:00+00:00".toList
  plain_toRfc3339 := by
    intro t
    decide

def searchIngest : Ingest where
  count := 1
  draws _ := ⟨1, 2, 0, 0, .search 9 7 3 0⟩
  now := 0
  disk := .free

/-- A request that finds no file, after one that was not allowed to make it. -/
theorem events_csv_reads_back_search :
    ∃ text, streamIngest searchTexts none [{ searchIngest with disk := .denied }, searchIngest] =
        some text ∧
      read csv text = some [headerRecord, record searchTexts
        (generateEvent searchTexts 0 0 (searchIngest.draws 0))] := by
  have hdisk : ∀ req ∈ [{ searchIngest with disk := .denied }, searchIngest], ∀ letters,
      req.disk ≠ .takes letters := by simp [searchIngest]
  exact ⟨_, rfl, (events_csv_reads_back searchTexts _ hdisk).2.1 _ rfl⟩

end RustLake.Stream.EventsCsv
