import RustLake.Auth.Base64
import RustLake.Auth.RowFilter

/-! Signed tokens: how they are made for a user, and what is read back from them. -/
namespace RustLake.Auth

/-- The claims as a token carries them. -/
structure TokenClaims extends Claims where
  sub : List Char
  exp : UInt64
  iat : UInt64
deriving DecidableEq

structure User where
  id : List Char
  username : List Char
  email : List Char
  roles : List (List Char)
deriving DecidableEq

structure AuthConfig where
  jwtSecret : List Char
  tokenExpiryHours : UInt64
  enabled : Bool
deriving DecidableEq

/-- The hash of `sha2`, the JSON of claims as `serde_json` writes and reads it, and what is said of
bytes that are no text. -/
structure Libraries where
  sha256 : List UInt8 → Vector UInt8 32
  toJson : TokenClaims → Except String (List Char)
  fromJson : List Char → Except String TokenClaims
  utf8Error : List UInt8 → String

/-- The seconds since 1970, or what is said of a clock that is set before. -/
abbrev Clock := Except String UInt64

def blockSize : ℕ := 64

def hmacSha256 (sha256 : List UInt8 → Vector UInt8 32) (key message : List UInt8) :
    Vector UInt8 32 :=
  let keyBytes :=
    if blockSize < key.length then (sha256 key).toList ++ List.replicate (blockSize - 32) 0
    else key ++ List.replicate (blockSize - key.length) 0
  let iKeyPad := keyBytes.map (0x36 ^^^ ·)
  let oKeyPad := keyBytes.map (0x5C ^^^ ·)
  let innerResult := sha256 (iKeyPad ++ message)
  sha256 (oKeyPad ++ innerResult.toList)

section
variable (libs : Libraries)

def header : List Char := "\x7b\"alg\":\"HS256\",\"typ\":\"JWT\"\x7d".toList

/-- The signature of a text under the secret. -/
def sigB64 (config : AuthConfig) (signingInput : List Char) : List Char :=
  base64UrlEncode
    (hmacSha256 libs.sha256 (asBytes config.jwtSecret) (asBytes signingInput)).toList

def secondsNow (clock : Clock) : Except String UInt64 := clock.mapError ("system time error: " ++ ·)

/-- The claims of a new token. The sum is one of `u64`. -/
def issued (config : AuthConfig) (user : User) (now : UInt64) : TokenClaims where
  sub := user.id
  username := user.username
  roles := user.roles
  exp := now + config.tokenExpiryHours * 3600
  iat := now

def createToken (config : AuthConfig) (user : User) (clock : Clock) : Except String (List Char) := do
  let now ← secondsNow clock
  let claims := issued config user now
  let headerB64 := base64UrlEncode (asBytes header)
  let claimsJson ← (libs.toJson claims).mapError ("failed to serialize claims: " ++ ·)
  let claimsB64 := base64UrlEncode (asBytes claimsJson)
  let signingInput := headerB64 ++ '.' :: claimsB64
  return signingInput ++ '.' :: sigB64 libs config signingInput

/-- The claims in the middle part of a token. -/
def decodeClaims (claimsB64 : List Char) : Except String TokenClaims := do
  let claimsBytes ← base64UrlDecode claimsB64
  match fromUtf8? claimsBytes with
  | none => .error ("invalid UTF-8 in claims: " ++ libs.utf8Error claimsBytes)
  | some claimsJson =>
    (libs.fromJson claimsJson).mapError ("failed to deserialize claims: " ++ ·)

def validateToken (config : AuthConfig) (token : List Char) (clock : Clock) :
    Except String TokenClaims :=
  match token.splitOn '.' with
  | [headerB64, claimsB64, signature] =>
    if signature ≠ sigB64 libs config (headerB64 ++ '.' :: claimsB64) then
      .error "invalid token signature"
    else do
      let claims ← decodeClaims libs claimsB64
      let now ← secondsNow clock
      if claims.exp < now then .error "token has expired" else return claims
  | _ => .error "invalid token format: expected 3 dot-separated parts"

/-- The claims come back from their JSON. -/
def Libraries.RoundTrips (claims : TokenClaims) : Prop :=
  ∃ json, libs.toJson claims = .ok json ∧ libs.fromJson json = .ok claims

variable {libs}

theorem sigB64_congr {config config' : AuthConfig} (h : config'.jwtSecret = config.jwtSecret)
    (signingInput : List Char) :
    sigB64 libs config' signingInput = sigB64 libs config signingInput := by
  rw [sigB64, h, sigB64]

theorem decodeClaims_encode {claims : TokenClaims} {json : List Char}
    (h : libs.fromJson json = .ok claims) :
    decodeClaims libs (base64UrlEncode (asBytes json)) = .ok claims := by
  rw [decodeClaims, base64UrlDecode_base64UrlEncode]
  simp only [bind, Except.bind, fromUtf8?_asBytes, h]
  rfl

/-- Texts in base 64 are told apart by the dots between them. -/
theorem splitOn_parts (a b c : List UInt8) :
    (base64UrlEncode a ++ '.' :: base64UrlEncode b ++ '.' :: base64UrlEncode c).splitOn '.' =
      [base64UrlEncode a, base64UrlEncode b, base64UrlEncode c] := by
  rw [List.append_assoc, List.cons_append,
    List.splitOn_append_cons_self_of_not_mem (dot_not_mem_base64UrlEncode a),
    List.splitOn_append_cons_self_of_not_mem (dot_not_mem_base64UrlEncode b),
    List.splitOn_eq_singleton (dot_not_mem_base64UrlEncode c)]

/-- What is read of a token that was made from claims. -/
theorem validateToken_signed {config config' : AuthConfig} {claims : TokenClaims}
    {json : List Char} (hsecret : config'.jwtSecret = config.jwtSecret)
    (hjson : libs.fromJson json = .ok claims) (later : UInt64) :
    let signingInput := base64UrlEncode (asBytes header) ++ '.' :: base64UrlEncode (asBytes json)
    validateToken libs config' (signingInput ++ '.' :: sigB64 libs config signingInput)
      (.ok later) = if claims.exp < later then .error "token has expired" else .ok claims := by
  intro signingInput
  have hparts : (signingInput ++ '.' :: sigB64 libs config signingInput).splitOn '.' =
      [base64UrlEncode (asBytes header), base64UrlEncode (asBytes json),
        sigB64 libs config signingInput] := splitOn_parts _ _ _
  have hsignature : sigB64 libs config signingInput = sigB64 libs config' signingInput :=
    (sigB64_congr hsecret signingInput).symm
  rw [validateToken, hparts]
  simp only [hsignature, signingInput, ne_eq, not_true_eq_false, if_false, decodeClaims_encode hjson]
  rfl

theorem issued_exp {config : AuthConfig} {now : UInt64}
    (h : now.toNat + config.tokenExpiryHours.toNat * 3600 < 2 ^ 64) (user : User) :
    (issued config user now).exp.toNat = now.toNat + config.tokenExpiryHours.toNat * 3600 := by
  have hhour : (3600 : UInt64).toNat = 3600 := rfl
  have hmul : (config.tokenExpiryHours * 3600).toNat = config.tokenExpiryHours.toNat * 3600 := by
    rw [UInt64.toNat_mul, hhour]
    omega
  have hexp : (issued config user now).exp = now + config.tokenExpiryHours * 3600 := rfl
  rw [hexp, UInt64.toNat_add, hmul]
  omega

/-- A token for a user is taken under the same secret until it expires, and gives back who the user
is. -/
theorem token_roundTrip {config config' : AuthConfig} {user : User} {now : UInt64}
    (hsecret : config'.jwtSecret = config.jwtSecret)
    (hexp : now.toNat + config.tokenExpiryHours.toNat * 3600 < 2 ^ 64)
    (hjson : libs.RoundTrips (issued config user now)) :
    ∃ token, createToken libs config user (.ok now) = .ok token ∧
      (∀ later : UInt64, later.toNat ≤ now.toNat + config.tokenExpiryHours.toNat * 3600 →
        ∃ claims, validateToken libs config' token (.ok later) = .ok claims ∧
          claims.sub = user.id ∧ claims.username = user.username ∧ claims.roles = user.roles ∧
          claims.exp.toNat = now.toNat + config.tokenExpiryHours.toNat * 3600) ∧
      ∀ later : UInt64, now.toNat + config.tokenExpiryHours.toNat * 3600 < later.toNat →
        validateToken libs config' token (.ok later) = .error "token has expired" := by
  obtain ⟨json, hwrite, hread⟩ := hjson
  have hvalue := issued_exp hexp user
  have hsigned := validateToken_signed hsecret hread
  have htoken : createToken libs config user (.ok now) = .ok
      (base64UrlEncode (asBytes header) ++ '.' :: base64UrlEncode (asBytes json) ++ '.' ::
        sigB64 libs config
          (base64UrlEncode (asBytes header) ++ '.' :: base64UrlEncode (asBytes json))) := by
    simp only [createToken, secondsNow, Except.mapError, bind, Except.bind, hwrite]
    rfl
  refine ⟨_, htoken, ?_, ?_⟩
  · intro later hlater
    have hvalid : ¬ (issued config user now).exp < later := by
      rw [UInt64.lt_iff_toNat_lt]
      omega
    refine ⟨issued config user now, ?_, rfl, rfl, rfl, hvalue⟩
    rw [hsigned later, if_neg hvalid]
  · intro later hlater
    have hexpired : (issued config user now).exp < later := by
      rw [UInt64.lt_iff_toNat_lt]
      omega
    rw [hsigned later, if_pos hexpired]

end

/-- Tokens for an hour. -/
def aliceConfig : AuthConfig := ⟨"test-secret-key-for-unit-tests".toList, 1, true⟩

def aliceUser : User where
  id := "user-1".toList
  username := "alice".toList
  email := "alice@example.com".toList
  roles := ["analyst".toList]

def aliceJson : List Char :=
  "\x7b\"sub\":\"user-1\",\"username\":\"alice\",\"roles\":[\"analyst\"],\"exp\":1700003600,\"iat\":1700000000\x7d".toList

/-- The libraries on her claims: their JSON, and the two hashes of the signature. -/
def aliceLibraries : Libraries where
  sha256 message :=
    if message.length = 220 then
      #v[81, 126, 4, 47, 146, 251, 164, 175, 96, 80, 214, 15, 217, 7, 104, 101, 232, 212, 182, 153,
        119, 226, 254, 165, 7, 114, 91, 189, 158, 45, 45, 107]
    else
      #v[179, 59, 65, 204, 36, 182, 153, 253, 3, 130, 170, 233, 56, 33, 135, 99, 247, 221, 213, 216,
        45, 22, 247, 123, 249, 158, 122, 108, 37, 165, 25, 44]
  toJson claims :=
    if claims = issued aliceConfig aliceUser 1700000000 then .ok aliceJson else .error "other claims"
  fromJson text :=
    if text = aliceJson then .ok (issued aliceConfig aliceUser 1700000000) else .error "other claims"
  utf8Error _ := "invalid utf-8 sequence"

theorem alice_roundTrip :
    ∃ token, createToken aliceLibraries aliceConfig aliceUser (.ok 1700000000) = .ok token ∧
      (∀ later : UInt64, later.toNat ≤ 1700003600 →
        ∃ claims, validateToken aliceLibraries aliceConfig token (.ok later) = .ok claims ∧
          claims.sub = "user-1".toList ∧ claims.username = "alice".toList ∧
          claims.roles = ["analyst".toList] ∧ claims.exp.toNat = 1700003600) ∧
      ∀ later : UInt64, 1700003600 < later.toNat →
        validateToken aliceLibraries aliceConfig token (.ok later) =
          .error "token has expired" := by
  have hjson : aliceLibraries.RoundTrips (issued aliceConfig aliceUser 1700000000) :=
    ⟨aliceJson, by simp [aliceLibraries], by simp [aliceLibraries]⟩
  exact token_roundTrip rfl (by decide) hjson

end RustLake.Auth
