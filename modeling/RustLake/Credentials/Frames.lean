import RustLake.Json.Value

/-! The encrypted credentials file: one frame for each entry, behind its length. -/
namespace RustLake.Credentials

abbrev Bytes := List UInt8

structure CredentialEntry where
  id : String
  credType : String
  data : Json.Value

def nonceSize : ℕ := 12

abbrev Nonce := {bytes : Bytes // bytes.length = nonceSize}

/-- The cipher under the key of the store, and the texts of the entries. -/
structure Codec where
  encrypt : Bytes → Bytes → Option Bytes
  decrypt : Bytes → Bytes → Option Bytes
  toVec : CredentialEntry → Bytes
  fromSlice : Bytes → Option CredentialEntry

/-- The cipher inverts, adds a tag of 16 bytes and rejects a text that has been cut short. -/
structure Codec.Lawful (codec : Codec) : Prop where
  inverts : ∀ nonce plaintext ciphertext, codec.encrypt nonce plaintext = some ciphertext →
    codec.decrypt nonce ciphertext = some plaintext
  tagged : ∀ nonce plaintext ciphertext, codec.encrypt nonce plaintext = some ciphertext →
    ciphertext.length = plaintext.length + 16
  rejects : ∀ nonce plaintext ciphertext n, codec.encrypt nonce plaintext = some ciphertext →
    n < ciphertext.length → codec.decrypt nonce (ciphertext.take n) = none

/-- `to_le_bytes` of the low 32 bits. -/
def toLeBytes (n : ℕ) : Bytes :=
  [UInt8.ofNat n, UInt8.ofNat (n / 256), UInt8.ofNat (n / 65536), UInt8.ofNat (n / 16777216)]

def fromLeBytes (bytes : Bytes) : ℕ := bytes.foldr (fun byte n => byte.toNat + 256 * n) 0

variable (codec : Codec)

/-- A length of 4 GiB or more loses its high bits. -/
def encryptEntry (nonce : Nonce) (entry : CredentialEntry) : Option Bytes := do
  let ciphertext ← codec.encrypt nonce.1 (codec.toVec entry)
  some (toLeBytes (nonceSize + ciphertext.length) ++ nonce.1 ++ ciphertext)

/-- The first entry of the bytes, and how many bytes it takes. -/
def decryptEntry (data : Bytes) : Option (CredentialEntry × ℕ) :=
  if data.length < 4 then none
  else
    let payloadLen := fromLeBytes (data.take 4)
    if data.length < 4 + payloadLen ∨ payloadLen < nonceSize then none
    else do
      let nonce := (data.drop 4).take nonceSize
      let ciphertext := (data.take (4 + payloadLen)).drop (4 + nonceSize)
      let plaintext ← codec.decrypt nonce ciphertext
      let entry ← codec.fromSlice plaintext
      some (entry, 4 + payloadLen)

variable {codec} in
theorem decryptEntry_pos {data : Bytes} {entry : CredentialEntry} {consumed : ℕ}
    (h : decryptEntry codec data = some (entry, consumed)) : 0 < consumed ∧ 0 < data.length := by
  unfold decryptEntry at h
  split at h
  · cases h
  · rename_i hlen
    dsimp only at h
    split at h
    · cases h
    · obtain ⟨plaintext, -, h⟩ := Option.bind_eq_some_iff.mp h
      obtain ⟨_, -, h⟩ := Option.bind_eq_some_iff.mp h
      cases h
      omega

/-- The loop of `load_all`: it ends at the first frame that cannot be decrypted. -/
def loadEntries (data : Bytes) : List CredentialEntry :=
  match _h : decryptEntry codec data with
  | some (entry, consumed) => entry :: loadEntries (data.drop consumed)
  | none => []
termination_by data.length
decreasing_by
  have hpos := decryptEntry_pos ‹_›
  rw [List.length_drop]
  omega

/-- A file that is missing or cannot be read holds no entries. -/
def loadAll (readable : Bool) (file : Option Bytes) : List CredentialEntry :=
  match file with
  | some data => if readable then loadEntries codec data else []
  | none => []

/-- The frames of the entries, each under a nonce of its own. -/
def encryptAll : (ℕ → Nonce) → List CredentialEntry → Option Bytes
  | _, [] => some []
  | nonces, entry :: rest => do
    let frame ← encryptEntry codec (nonces 0) entry
    let frames ← encryptAll (fun n => nonces (n + 1)) rest
    some (frame ++ frames)

structure S3BucketCreds where
  accountId : String
  accessKey : String
  secretKey : String
  sessionToken : Option String
  region : String
deriving DecidableEq

def S3BucketCreds.toValue (creds : S3BucketCreds) : Json.Value :=
  .obj [("account_id", .str creds.accountId), ("access_key", .str creds.accessKey),
    ("secret_key", .str creds.secretKey),
    ("session_token", match creds.sessionToken with | some token => .str token | none => .null),
    ("region", .str creds.region)]

/-- A token that may be absent or null. -/
def optionalStr : Option Json.Value → Option (Option String)
  | none => some none
  | some .null => some none
  | some (.str token) => some (some token)
  | some _ => none

/-- The fields by their names, or in their order. -/
def S3BucketCreds.fromValue : Json.Value → Option S3BucketCreds
  | .obj fields => do
    let accountId ← (fields.lookup "account_id").bind Json.Value.asStr
    let accessKey ← (fields.lookup "access_key").bind Json.Value.asStr
    let secretKey ← (fields.lookup "secret_key").bind Json.Value.asStr
    let sessionToken ← optionalStr (fields.lookup "session_token")
    let region ← (fields.lookup "region").bind Json.Value.asStr
    some ⟨accountId, accessKey, secretKey, sessionToken, region⟩
  | .arr [.str accountId, .str accessKey, .str secretKey, token, .str region] => do
    let sessionToken ← optionalStr (some token)
    some ⟨accountId, accessKey, secretKey, sessionToken, region⟩
  | _ => none

inductive Call where
  | storePassword (connId password : String)
  | removePassword (connId : String)
  | storeS3Creds (bucket : String) (creds : S3BucketCreds)

/-- The id and the type of the entry that a call is about. -/
def Call.key : Call → String × String
  | storePassword connId _ => (connId, "password")
  | removePassword connId => (connId, "password")
  | storeS3Creds bucket _ => (bucket, "s3")

def CredentialEntry.key (entry : CredentialEntry) : String × String := (entry.id, entry.credType)

/-- The entry that a call adds. -/
def Call.entry : Call → Option CredentialEntry
  | storePassword connId password =>
    some ⟨connId, "password", .obj [("password", .str password)]⟩
  | removePassword _ => none
  | storeS3Creds bucket creds => some ⟨bucket, "s3", creds.toValue⟩

/-- `retain` and `push`. -/
def Call.edit (call : Call) (entries : List CredentialEntry) : List CredentialEntry :=
  entries.filter (fun e => !(e.id == call.key.1 && e.credType == call.key.2)) ++ call.entry.toList

/-- What a call meets: whether the file can be read, the nonces it draws, and whether the temporary
file is written and renamed. -/
structure Attempt where
  readable : Bool
  nonces : ℕ → Nonce
  written : Bool
  renamed : Bool

/-- The file after a call that returns `Ok`. -/
def Call.run (call : Call) (attempt : Attempt) (file : Option Bytes) : Option Bytes := do
  let buf ← encryptAll codec attempt.nonces (call.edit (loadAll codec attempt.readable file))
  if attempt.written && attempt.renamed then some buf else none

def passwordOf (entry : CredentialEntry) : Option String :=
  (entry.data.get "password").bind Json.Value.asStr

/-- The last password with an id is the one in the map. -/
def loadAllPasswords (entries : List CredentialEntry) (connId : String) : Option String :=
  ((entries.filter fun e => e.credType == "password" && e.id == connId).filterMap passwordOf).getLast?

def loadAllS3Creds (entries : List CredentialEntry) (bucket : String) : Option S3BucketCreds :=
  ((entries.filter fun e => e.credType == "s3" && e.id == bucket).filterMap
    fun e => S3BucketCreds.fromValue e.data).getLast?

end RustLake.Credentials

/-! A credentials file with frames that are corrupted or cut short, and what an update of one entry does
to the others. -/
namespace RustLake.Credentials

variable {codec : Codec} {entry : CredentialEntry} {nonce : Nonce} {frame rest : Bytes}

/-- A text that is read back, in a frame shorter than 4 GiB. -/
structure Storable (codec : Codec) (entry : CredentialEntry) : Prop where
  read : codec.fromSlice (codec.toVec entry) = some entry
  short : nonceSize + (codec.toVec entry).length + 16 < 2 ^ 32

/-- The frame as it was written, and it can be decrypted. -/
def Intact (codec : Codec) (entry : CredentialEntry) (frame : Bytes) : Prop :=
  (∃ nonce, encryptEntry codec nonce entry = some frame) ∧
    decryptEntry codec frame = some (entry, frame.length)

/-- What stands where one entry was written is its frame, or is rejected. -/
def Framed (codec : Codec) : List Bytes → Prop
  | [] => True
  | frame :: rest => ((∃ entry, Intact codec entry frame) ∨
      decryptEntry codec (frame ++ rest.flatten) = none) ∧ Framed codec rest

/-- The entry stands before the first frame that is not intact. -/
def BeforeBad (codec : Codec) (entry : CredentialEntry) (frames : List Bytes) : Prop :=
  ∃ earlier frame later, frames = earlier ++ frame :: later ∧ Intact codec entry frame ∧
    ∀ f ∈ earlier, ∃ e, Intact codec e f

/-- Every intact entry with another key can be loaded from the file afterwards. -/
def OthersKept (codec : Codec) (call : Call) (frames : List Bytes) (file : Option Bytes) : Prop :=
  ∀ entry, (∃ frame ∈ frames, Intact codec entry frame) → entry.key ≠ call.key →
    entry ∈ loadAll codec true file

theorem fromLeBytes_toLeBytes (n : ℕ) : fromLeBytes (toLeBytes n) = n % 2 ^ 32 := by
  simp only [toLeBytes, fromLeBytes, List.foldr_cons, List.foldr_nil, UInt8.toNat_ofNat']
  omega

@[simp] theorem length_toLeBytes (n : ℕ) : (toLeBytes n).length = 4 := rfl

theorem loadEntries_of_some {data : Bytes} {consumed : ℕ}
    (h : decryptEntry codec data = some (entry, consumed)) :
    loadEntries codec data = entry :: loadEntries codec (data.drop consumed) := by
  rw [loadEntries]
  split
  · rename_i hsome
    rw [h] at hsome
    cases hsome
    rfl
  · rename_i hnone
    rw [h] at hnone
    cases hnone

theorem loadEntries_of_none {data : Bytes} (h : decryptEntry codec data = none) :
    loadEntries codec data = [] := by
  rw [loadEntries]
  split
  · rename_i hsome
    rw [h] at hsome
    cases hsome
  · rfl

@[simp] theorem loadEntries_nil : loadEntries codec [] = [] := loadEntries_of_none rfl

/-- What a frame is made of. -/
theorem encryptEntry_eq (h : encryptEntry codec nonce entry = some frame) :
    ∃ ciphertext, codec.encrypt nonce.1 (codec.toVec entry) = some ciphertext ∧
      frame = toLeBytes (nonceSize + ciphertext.length) ++ (nonce.1 ++ ciphertext) := by
  obtain ⟨ciphertext, hcipher, h⟩ := Option.bind_eq_some_iff.mp h
  refine ⟨ciphertext, hcipher, ?_⟩
  rw [← Option.some.inj h, List.append_assoc]

/-- The loader reads the nonce and as much of the ciphertext as the length says. -/
theorem decryptEntry_append (n : ℕ) (nonce : Nonce) (ciphertext rest : Bytes)
    (hn : n % 2 ^ 32 ≤ nonceSize + ciphertext.length) :
    decryptEntry codec (toLeBytes n ++ (nonce.1 ++ ciphertext) ++ rest) =
      if n % 2 ^ 32 < nonceSize then none
      else ((codec.decrypt nonce.1 (ciphertext.take (n % 2 ^ 32 - nonceSize))).bind codec.fromSlice).map
        fun entry => (entry, 4 + n % 2 ^ 32) := by
  have hnonce : nonce.1.length = nonceSize := nonce.2
  have hlen : (toLeBytes n ++ (nonce.1 ++ ciphertext) ++ rest).length =
      4 + nonceSize + ciphertext.length + rest.length := by
    simp only [List.length_append, length_toLeBytes, hnonce]
    omega
  have hpayload : fromLeBytes ((toLeBytes n ++ (nonce.1 ++ ciphertext) ++ rest).take 4) =
      n % 2 ^ 32 := by
    rw [List.append_assoc, List.take_append_of_le_length (by simp),
      List.take_of_length_le (by simp), fromLeBytes_toLeBytes]
  have hread : ((toLeBytes n ++ (nonce.1 ++ ciphertext) ++ rest).drop 4).take nonceSize = nonce.1 := by
    rw [List.append_assoc, List.drop_append_of_le_length (by simp),
      List.drop_of_length_le (by simp), List.nil_append, List.append_assoc,
      List.take_append_of_le_length (by omega), List.take_of_length_le (by omega)]
  unfold decryptEntry
  rw [hlen, hpayload, hread, if_neg (by omega)]
  dsimp only
  by_cases hsmall : n % 2 ^ 32 < nonceSize
  · rw [if_pos (Or.inr hsmall), if_pos hsmall]
  · rw [if_neg (by omega), if_neg hsmall]
    have htake : ((toLeBytes n ++ (nonce.1 ++ ciphertext) ++ rest).take (4 + n % 2 ^ 32)).drop
        (4 + nonceSize) = ciphertext.take (n % 2 ^ 32 - nonceSize) := by
      have hhead : toLeBytes n ++ (nonce.1 ++ ciphertext) ++ rest =
          (toLeBytes n ++ nonce.1) ++ (ciphertext ++ rest) := by
        simp only [List.append_assoc]
      rw [List.drop_take, hhead, List.drop_append_of_le_length (by simp [hnonce]),
        List.drop_of_length_le (by simp [hnonce]), List.nil_append,
        List.take_append_of_le_length (by omega)]
      congr 1
      omega
    rw [htake]
    cases codec.decrypt nonce.1 (ciphertext.take (n % 2 ^ 32 - nonceSize)) with
    | none => rfl
    | some plaintext =>
      dsimp only [Option.bind_eq_bind, Option.bind_some]
      cases codec.fromSlice plaintext <;> rfl

/-- A frame that fits is read as its text is. -/
theorem decryptEntry_frame (hlaw : codec.Lawful) (h : encryptEntry codec nonce entry = some frame)
    (hshort : nonceSize + (codec.toVec entry).length + 16 < 2 ^ 32) (rest : Bytes) :
    decryptEntry codec (frame ++ rest) =
      (codec.fromSlice (codec.toVec entry)).map fun e => (e, frame.length) := by
  obtain ⟨ciphertext, hcipher, rfl⟩ := encryptEntry_eq h
  have hlen := hlaw.tagged _ _ _ hcipher
  have hmod : (nonceSize + ciphertext.length) % 2 ^ 32 = nonceSize + ciphertext.length :=
    Nat.mod_eq_of_lt (by omega)
  rw [decryptEntry_append _ _ _ _ (by omega), hmod, if_neg (by omega), Nat.add_sub_cancel_left,
    List.take_length, hlaw.inverts _ _ _ hcipher]
  have hframe : (toLeBytes (nonceSize + ciphertext.length) ++ (nonce.1 ++ ciphertext)).length =
      4 + (nonceSize + ciphertext.length) := by
    simp [nonce.2]
  rw [hframe]
  rfl

/-- A frame whose length has lost bits is rejected. -/
theorem decryptEntry_wrapped (hlaw : codec.Lawful) (h : encryptEntry codec nonce entry = some frame)
    (hlong : ¬ nonceSize + (codec.toVec entry).length + 16 < 2 ^ 32) (rest : Bytes) :
    decryptEntry codec (frame ++ rest) = none := by
  obtain ⟨ciphertext, hcipher, rfl⟩ := encryptEntry_eq h
  have hlen := hlaw.tagged _ _ _ hcipher
  have hmod : (nonceSize + ciphertext.length) % 2 ^ 32 < nonceSize + ciphertext.length := by omega
  rw [decryptEntry_append _ _ _ _ (by omega)]
  split
  · rfl
  · rw [hlaw.rejects _ _ _ ((nonceSize + ciphertext.length) % 2 ^ 32 - nonceSize) hcipher (by omega)]
    rfl

theorem Intact.storable (hlaw : codec.Lawful) (h : Intact codec entry frame) :
    Storable codec entry := by
  obtain ⟨⟨nonce, hwritten⟩, hread⟩ := h
  have hshort : nonceSize + (codec.toVec entry).length + 16 < 2 ^ 32 := by
    by_contra hlong
    have hnone := decryptEntry_wrapped hlaw hwritten hlong []
    rw [List.append_nil, hread] at hnone
    cases hnone
  refine ⟨?_, hshort⟩
  have hsome := decryptEntry_frame hlaw hwritten hshort []
  rw [List.append_nil, hread] at hsome
  obtain ⟨e, he, heq⟩ := Option.map_eq_some_iff.mp hsome.symm
  obtain ⟨rfl, -⟩ := Prod.mk.inj heq
  exact he

/-- The frame of a storable entry is read whatever follows. -/
theorem Storable.decrypt (hlaw : codec.Lawful) (hentry : Storable codec entry)
    (h : encryptEntry codec nonce entry = some frame) (rest : Bytes) :
    decryptEntry codec (frame ++ rest) = some (entry, frame.length) := by
  rw [decryptEntry_frame hlaw h hentry.short, hentry.read, Option.map_some]

theorem Intact.decrypt (hlaw : codec.Lawful) (h : Intact codec entry frame) (rest : Bytes) :
    decryptEntry codec (frame ++ rest) = some (entry, frame.length) := by
  obtain ⟨nonce, hwritten⟩ := h.1
  exact (h.storable hlaw).decrypt hlaw hwritten rest

theorem Intact.unique {e : CredentialEntry} (h : Intact codec entry frame)
    (h' : Intact codec e frame) : entry = e := by
  have hsame := h.2.symm.trans h'.2
  exact (Prod.mk.inj (Option.some.inj hsame)).1

/-- The loader finds the entries before the first bad frame. -/
theorem mem_loadEntries_iff (hlaw : codec.Lawful) {frames : List Bytes} (h : Framed codec frames) :
    entry ∈ loadEntries codec frames.flatten ↔ BeforeBad codec entry frames := by
  induction frames with
  | nil => simp [BeforeBad]
  | cons first later ih =>
    obtain ⟨hfirst, hlater⟩ := h
    rw [List.flatten_cons]
    by_cases hintact : ∃ e, Intact codec e first
    · obtain ⟨e, he⟩ := hintact
      rw [loadEntries_of_some (he.decrypt hlaw _), List.drop_left, List.mem_cons, ih hlater]
      constructor
      · rintro (rfl | ⟨pre, frame, post, hsplit, hframe, hpre⟩)
        · exact ⟨[], first, later, rfl, he, by simp⟩
        · refine ⟨first :: pre, frame, post, by rw [hsplit]; rfl, hframe, ?_⟩
          intro f hf
          rcases List.mem_cons.mp hf with rfl | hf
          · exact ⟨e, he⟩
          · exact hpre f hf
      · rintro ⟨pre, frame, post, hsplit, hframe, hpre⟩
        cases pre with
        | nil =>
          obtain ⟨rfl, -⟩ := List.cons_eq_cons.mp hsplit
          exact Or.inl (hframe.unique he)
        | cons p pre =>
          obtain ⟨rfl, hrest⟩ := List.cons_eq_cons.mp hsplit
          exact Or.inr ⟨pre, frame, post, hrest, hframe, fun f hf =>
            hpre f (List.mem_cons_of_mem _ hf)⟩
    · have hbad := hfirst.resolve_left hintact
      rw [loadEntries_of_none hbad]
      constructor
      · intro hmem
        cases hmem
      · rintro ⟨pre, frame, post, hsplit, hframe, hpre⟩
        cases pre with
        | nil =>
          obtain ⟨rfl, -⟩ := List.cons_eq_cons.mp hsplit
          exact absurd ⟨entry, hframe⟩ hintact
        | cons p pre =>
          obtain ⟨rfl, -⟩ := List.cons_eq_cons.mp hsplit
          exact absurd (hpre first List.mem_cons_self) hintact

theorem BeforeBad.intact {frames : List Bytes} (h : BeforeBad codec entry frames) :
    ∃ frame ∈ frames, Intact codec entry frame := by
  obtain ⟨earlier, frame, later, rfl, hframe, -⟩ := h
  exact ⟨frame, by simp, hframe⟩

section Saving
variable {entries later : List CredentialEntry} {nonces : ℕ → Nonce} {buf : Bytes}

/-- Entries that are storable are loaded as they were saved, before what comes after them. -/
theorem loadEntries_encryptAll (hlaw : codec.Lawful) (hentries : ∀ e ∈ entries, Storable codec e)
    (h : encryptAll codec nonces (entries ++ later) = some buf) :
    ∃ nonces' tail, encryptAll codec nonces' later = some tail ∧
      loadEntries codec buf = entries ++ loadEntries codec tail := by
  induction entries generalizing nonces buf with
  | nil => exact ⟨nonces, buf, h, rfl⟩
  | cons e entries ih =>
    obtain ⟨he, hentries⟩ := List.forall_mem_cons.mp hentries
    obtain ⟨frame, hframe, h⟩ := Option.bind_eq_some_iff.mp h
    obtain ⟨frames, hframes, h⟩ := Option.bind_eq_some_iff.mp h
    obtain rfl := Option.some.inj h
    obtain ⟨nonces', tail, htail, hload⟩ := ih hentries hframes
    refine ⟨nonces', tail, htail, ?_⟩
    rw [loadEntries_of_some (he.decrypt hlaw hframe frames), List.drop_left, hload]
    rfl

/-- What is saved is loaded. -/
theorem loadEntries_saved (hlaw : codec.Lawful) (hentries : ∀ e ∈ entries, Storable codec e)
    (h : encryptAll codec nonces entries = some buf) : loadEntries codec buf = entries := by
  rw [← List.append_nil entries] at h
  obtain ⟨nonces', tail, htail, hload⟩ := loadEntries_encryptAll hlaw hentries h
  obtain rfl := Option.some.inj htail
  rw [hload, loadEntries_nil, List.append_nil]

/-- The entry that a call adds is loaded with its key or not at all. -/
theorem loadEntries_added (hlaw : codec.Lawful)
    (hread : codec.fromSlice (codec.toVec entry) = some entry)
    (h : encryptAll codec nonces [entry] = some buf) :
    ∀ e ∈ loadEntries codec buf, e = entry := by
  obtain ⟨frame, hframe, h⟩ := Option.bind_eq_some_iff.mp h
  obtain rfl := Option.some.inj h
  intro e he
  by_cases hshort : nonceSize + (codec.toVec entry).length + 16 < 2 ^ 32
  · rw [loadEntries_of_some (Storable.decrypt hlaw ⟨hread, hshort⟩ hframe []), List.drop_left,
      loadEntries_nil] at he
    exact List.mem_singleton.mp he
  · rw [loadEntries_of_none (decryptEntry_wrapped hlaw hframe hshort [])] at he
    cases he

end Saving

theorem Call.key_entry {call : Call} (h : call.entry = some entry) : entry.key = call.key := by
  cases call <;> cases h <;> rfl

/-- An edit keeps the entries with other keys. -/
theorem Call.mem_retained {call : Call} {entries : List CredentialEntry} (hkey : entry.key ≠ call.key) :
    entry ∈ entries.filter (fun e => !(e.id == call.key.1 && e.credType == call.key.2)) ↔
      entry ∈ entries := by
  have hother : (!(entry.id == call.key.1 && entry.credType == call.key.2)) = true := by
    rw [Bool.not_eq_true', Bool.and_eq_false_iff]
    by_contra hboth
    apply hkey
    simp only [not_or, Bool.not_eq_false, beq_iff_eq] at hboth
    exact Prod.ext hboth.1 hboth.2
  rw [List.mem_filter, hother]
  exact and_iff_left rfl

/-- After a call the other entries are those that it loaded. -/
theorem Call.mem_run_iff {call : Call} {attempt : Attempt} {file : Option Bytes} {buf : Bytes}
    (hlaw : codec.Lawful)
    (hloaded : ∀ e ∈ loadAll codec attempt.readable file, Storable codec e)
    (hadded : ∀ e, call.entry = some e → codec.fromSlice (codec.toVec e) = some e)
    (hok : call.run codec attempt file = some buf) (hkey : entry.key ≠ call.key) :
    entry ∈ loadAll codec true (some buf) ↔ entry ∈ loadAll codec attempt.readable file := by
  obtain ⟨frames, hframes, hok⟩ := Option.bind_eq_some_iff.mp hok
  have hbuf : frames = buf := by
    split at hok
    · exact Option.some.inj hok
    · cases hok
  subst hbuf
  unfold Call.edit at hframes
  obtain ⟨nonces, tail, htail, hload⟩ := loadEntries_encryptAll hlaw
    (fun e he => hloaded e (List.mem_of_mem_filter he)) hframes
  have hnot : entry ∉ loadEntries codec tail := by
    intro hmem
    cases hentry : call.entry with
    | none =>
      rw [hentry] at htail
      obtain rfl := Option.some.inj htail
      rw [loadEntries_nil] at hmem
      cases hmem
    | some added =>
      rw [hentry] at htail
      have hsame := loadEntries_added hlaw (hadded added hentry) htail entry hmem
      exact hkey (hsame ▸ Call.key_entry hentry)
  have hall : loadAll codec true (some frames) = loadEntries codec frames := rfl
  rw [hall, hload, List.mem_append, or_iff_left hnot, Call.mem_retained hkey]

/-- An update keeps all intact entries with other keys exactly when each of them stands before the
first bad frame of a file that can be read. -/
theorem othersKept_iff (hlaw : codec.Lawful) {call : Call} {attempt : Attempt} {frames : List Bytes}
    {buf : Bytes} (hframed : Framed codec frames)
    (hadded : ∀ e, call.entry = some e → codec.fromSlice (codec.toVec e) = some e)
    (hok : call.run codec attempt (some frames.flatten) = some buf) :
    OthersKept codec call frames (some buf) ↔
      ∀ entry, (∃ frame ∈ frames, Intact codec entry frame) → entry.key ≠ call.key →
        attempt.readable = true ∧ BeforeBad codec entry frames := by
  have hload : ∀ e, e ∈ loadAll codec attempt.readable (some frames.flatten) ↔
      attempt.readable = true ∧ BeforeBad codec e frames := by
    intro e
    unfold loadAll
    dsimp only
    split
    · rename_i hreadable
      rw [mem_loadEntries_iff hlaw hframed]
      exact (and_iff_right hreadable).symm
    · rename_i hreadable
      constructor
      · intro hmem
        cases hmem
      · rintro ⟨hreads, -⟩
        exact absurd hreads hreadable
  have hstorable : ∀ e ∈ loadAll codec attempt.readable (some frames.flatten), Storable codec e := by
    intro e he
    obtain ⟨frame, -, hintact⟩ := ((hload e).mp he).2.intact
    exact hintact.storable hlaw
  constructor
  · intro h entry hintact hkey
    have hmem := h entry hintact hkey
    rw [Call.mem_run_iff hlaw hstorable hadded hok hkey] at hmem
    exact (hload entry).mp hmem
  · intro h entry hintact hkey
    rw [Call.mem_run_iff hlaw hstorable hadded hok hkey]
    exact (hload entry).mpr (h entry hintact hkey)

section Orders

def asciiBytes (text : String) : Bytes := text.toList.map fun c => UInt8.ofNat c.toNat

/-- The JSON text of an entry with a password. -/
def passwordText (connId password : String) : Bytes :=
  asciiBytes ("\x7b\"id\":\"" ++ connId ++ "\",\"type\":\"password\",\"data\":\x7b\"password\":\"" ++
    password ++ "\"\x7d\x7d")

def passwordEntry (connId password : String) : CredentialEntry :=
  ⟨connId, "password", .obj [("password", .str password)]⟩

/-- A tag of zeros behind a text without zeros. -/
def plainEncrypt (plaintext : Bytes) : Option Bytes :=
  if 0 ∈ plaintext then none else some (plaintext ++ List.replicate 16 0)

def plainDecrypt (ciphertext : Bytes) : Option Bytes :=
  let plaintext := ciphertext.take (ciphertext.length - 16)
  if ciphertext.drop (ciphertext.length - 16) = List.replicate 16 0 ∧ 0 ∉ plaintext then some plaintext
  else none

/-- Three connections whose texts are known. -/
def plainCodec : Codec where
  encrypt _ plaintext := plainEncrypt plaintext
  decrypt _ ciphertext := plainDecrypt ciphertext
  toVec entry := passwordText entry.id ((passwordOf entry).getD "")
  fromSlice text :=
    (["orders", "lake", "audit"].find? fun id => passwordText id "hunter2" == text).map
      fun id => passwordEntry id "hunter2"

theorem plainCodec_lawful : plainCodec.Lawful where
  inverts nonce plaintext ciphertext h := by
    have h' : plainEncrypt plaintext = some ciphertext := h
    show plainDecrypt ciphertext = some plaintext
    unfold plainEncrypt at h'
    split at h'
    · cases h'
    · rename_i hzero
      obtain rfl := Option.some.inj h'
      have hlen : (plaintext ++ List.replicate 16 (0 : UInt8)).length - 16 = plaintext.length := by simp
      unfold plainDecrypt
      rw [hlen, List.drop_left, List.take_left]
      exact if_pos ⟨rfl, hzero⟩
  tagged nonce plaintext ciphertext h := by
    have h' : plainEncrypt plaintext = some ciphertext := h
    unfold plainEncrypt at h'
    split at h'
    · cases h'
    · obtain rfl := Option.some.inj h'
      simp
  rejects nonce plaintext ciphertext n h hn := by
    have h' : plainEncrypt plaintext = some ciphertext := h
    show plainDecrypt (ciphertext.take n) = none
    unfold plainEncrypt at h'
    split at h'
    · cases h'
    · rename_i hzero
      obtain rfl := Option.some.inj h'
      apply if_neg
      rintro ⟨htag, -⟩
      have hle := (List.drop_sublist (((plaintext ++ List.replicate 16 (0 : UInt8)).take n).length - 16)
        ((plaintext ++ List.replicate 16 (0 : UInt8)).take n)).count_le 0
      have hnone : (plaintext.take n).count 0 = 0 :=
        List.count_eq_zero.mpr fun hmem => hzero (List.mem_of_mem_take hmem)
      rw [htag, List.count_replicate_self, List.take_append, List.count_append, hnone,
        List.take_replicate, List.count_replicate_self] at hle
      rw [List.length_append, List.length_replicate] at hn
      omega

theorem plainCodec_storable : ∀ id ∈ ["orders", "lake", "audit"],
    Storable plainCodec (passwordEntry id "hunter2") := by
  intro id hid
  simp only [List.mem_cons, List.not_mem_nil, or_false] at hid
  rcases hid with rfl | rfl | rfl
  · exact ⟨rfl, by decide⟩
  · exact ⟨rfl, by decide⟩
  · exact ⟨rfl, by decide⟩

def firstNonce : Nonce := ⟨List.replicate 12 7, rfl⟩

/-- The frame of a connection's password. -/
def passwordFrame (connId : String) : Bytes :=
  toLeBytes (28 + (passwordText connId "hunter2").length) ++
    (firstNonce.1 ++ (passwordText connId "hunter2" ++ List.replicate 16 0))

theorem encryptEntry_passwordFrame : ∀ id ∈ ["orders", "lake", "audit"],
    encryptEntry plainCodec firstNonce (passwordEntry id "hunter2") = some (passwordFrame id) := by
  intro id hid
  simp only [List.mem_cons, List.not_mem_nil, or_false] at hid
  rcases hid with rfl | rfl | rfl <;> rfl

theorem intact_passwordFrame {id : String} (hid : id ∈ ["orders", "lake", "audit"]) :
    Intact plainCodec (passwordEntry id "hunter2") (passwordFrame id) := by
  have hwritten := encryptEntry_passwordFrame id hid
  have hread := (plainCodec_storable id hid).decrypt plainCodec_lawful hwritten []
  rw [List.append_nil] at hread
  exact ⟨⟨firstNonce, hwritten⟩, hread⟩

/-- A file that can be read and a disk that takes what is written. -/
def allGood : Attempt := ⟨true, fun _ => firstNonce, true, true⟩

/-- The removal of one of two passwords. -/
theorem othersKept_iff_orders :
    ∃ buf, (Call.removePassword "lake").run plainCodec allGood
        (some [passwordFrame "orders", passwordFrame "lake"].flatten) = some buf ∧
      (OthersKept plainCodec (.removePassword "lake") [passwordFrame "orders", passwordFrame "lake"]
          (some buf) ↔
        ∀ entry, (∃ frame ∈ [passwordFrame "orders", passwordFrame "lake"],
            Intact plainCodec entry frame) → entry.key ≠ (Call.removePassword "lake").key →
          allGood.readable = true ∧
            BeforeBad plainCodec entry [passwordFrame "orders", passwordFrame "lake"]) := by
  have hframed : Framed plainCodec [passwordFrame "orders", passwordFrame "lake"] :=
    ⟨Or.inl ⟨_, intact_passwordFrame (by decide)⟩, Or.inl ⟨_, intact_passwordFrame (by decide)⟩, trivial⟩
  have hload : loadAll plainCodec true (some [passwordFrame "orders", passwordFrame "lake"].flatten) =
      [passwordEntry "orders" "hunter2", passwordEntry "lake" "hunter2"] := by
    have hall : encryptAll plainCodec (fun _ => firstNonce)
        [passwordEntry "orders" "hunter2", passwordEntry "lake" "hunter2"] =
          some [passwordFrame "orders", passwordFrame "lake"].flatten := rfl
    apply loadEntries_saved plainCodec_lawful _ hall
    intro e he
    simp only [List.mem_cons, List.not_mem_nil, or_false] at he
    rcases he with rfl | rfl
    · exact plainCodec_storable _ (by decide)
    · exact plainCodec_storable _ (by decide)
  have hrun : (Call.removePassword "lake").run plainCodec allGood
      (some [passwordFrame "orders", passwordFrame "lake"].flatten) =
        some ([passwordFrame "orders"].flatten) := by
    have hreadable : allGood.readable = true := rfl
    rw [Call.run, hreadable, hload]
    rfl
  refine ⟨_, hrun, othersKept_iff plainCodec_lawful hframed ?_ hrun⟩
  intro e he
  cases he

/-- The frame of a password with one byte of its tag changed. -/
def tamperedFrame : Bytes := (passwordFrame "lake").dropLast ++ [1]

/-- Behind a corrupted frame an intact password is lost when another is removed. -/
theorem not_othersKept_orders :
    ∃ buf, (Call.removePassword "audit").run plainCodec allGood
        (some [tamperedFrame, passwordFrame "orders"].flatten) = some buf ∧
      Framed plainCodec [tamperedFrame, passwordFrame "orders"] ∧
      Intact plainCodec (passwordEntry "orders" "hunter2") (passwordFrame "orders") ∧
      ¬ OthersKept plainCodec (.removePassword "audit") [tamperedFrame, passwordFrame "orders"]
        (some buf) := by
  have hnone : (decryptEntry plainCodec
      (tamperedFrame ++ [passwordFrame "orders"].flatten)).isNone = true := by decide +kernel
  have hbad := Option.isNone_iff_eq_none.mp hnone
  have hintact := @intact_passwordFrame "orders" (by decide)
  have hload : loadAll plainCodec true (some [tamperedFrame, passwordFrame "orders"].flatten) = [] :=
    loadEntries_of_none hbad
  have hrun : (Call.removePassword "audit").run plainCodec allGood
      (some [tamperedFrame, passwordFrame "orders"].flatten) = some [] := by
    have hreadable : allGood.readable = true := rfl
    rw [Call.run, hreadable, hload]
    rfl
  refine ⟨[], hrun, ⟨Or.inr hbad, Or.inl ⟨_, hintact⟩, trivial⟩, hintact, ?_⟩
  intro h
  have hmem := h (passwordEntry "orders" "hunter2") ⟨_, by simp, hintact⟩ (by decide)
  have hempty : loadAll plainCodec true (some []) = [] := loadEntries_nil
  rw [hempty] at hmem
  cases hmem

end Orders

end RustLake.Credentials
