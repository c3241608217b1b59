import RustLake.Text.Csv
import RustLake.Text.Escapes
import Mathlib.Data.List.TakeWhile

/-! The connection strings that are made for MongoDB: what a driver reads of them, and what of them
is logged. -/
namespace RustLake.Mongo
open RustLake.Text

inductive MongoAuthMethod where
  | scram
  | awsIam
  | x509
  | connectionString (uri : List Char)
deriving DecidableEq

structure MongoConnParams where
  host : List Char
  port : UInt16
  database : List Char
  username : List Char
  password : List Char
  authMethod : MongoAuthMethod
  authSource : Option (List Char)
  awsAccessKey : Option (List Char)
  awsSecretKey : Option (List Char)
  awsSessionToken : Option (List Char)
  tls : Bool

def mongodbScheme : List Char := "mongodb://".toList

def srvScheme : List Char := "mongodb+srv://".toList

def sourceKey : List Char := "authSource".toList

def directConnection : List Char := "directConnection=true".toList

/-- The codes of letters that mean something in a connection string. -/
def mongoRules : List (Char × List Char) :=
  [('%', "%25"), (':', "%3A"), ('/', "%2F"), ('?', "%3F"), ('#', "%23"), ('[', "%5B"),
    (']', "%5D"), ('@', "%40"), ('$', "%24")].map fun rule => (rule.1, rule.2.toList)

def uriRules : List (Char × List Char) :=
  mongoRules ++ [('+', "%2B".toList), ('=', "%3D".toList), (' ', "%20".toList)]

def mongoPercentEncode (s : List Char) : List Char := replaceLetters mongoRules s

def uriEncode (s : List Char) : List Char := replaceLetters uriRules s

namespace MongoConnParams
variable (p : MongoConnParams)

def portText : List Char := (toString p.port.toNat).toList

def source : List Char := p.authSource.getD "admin".toList

def scramUri : List Char :=
  mongodbScheme ++ mongoPercentEncode p.username ++ ':' :: mongoPercentEncode p.password ++
    '@' :: p.host ++ ':' :: p.portText ++ '/' :: p.database ++
    '?' :: sourceKey ++ '=' :: p.source ++ '&' :: directConnection

def accessKey : List Char := p.awsAccessKey.getD []

def secretKey : List Char := p.awsSecretKey.getD []

def sessionTokenParam : List Char :=
  match p.awsSessionToken with
  | some token =>
    '&' :: "authMechanismProperties".toList ++ '=' :: "AWS_SESSION_TOKEN:".toList ++ uriEncode token
  | none => []

/-- The options that all connection strings with keys have. -/
def awsMechanism : List Char := "authSource=%24external&authMechanism=MONGODB-AWS".toList

/-- Whether the host is one of Atlas. -/
def isAtlas : Bool := decide (".mongodb.net".toList <:+: p.host)

def awsUri : List Char :=
  if p.isAtlas then
    srvScheme ++ uriEncode p.accessKey ++ ':' :: uriEncode p.secretKey ++
      '@' :: p.host ++ '/' :: p.database ++ '?' :: awsMechanism ++
      '&' :: "retryWrites=true&w=majority".toList ++ p.sessionTokenParam
  else
    mongodbScheme ++ uriEncode p.accessKey ++ ':' :: uriEncode p.secretKey ++
      '@' :: p.host ++ ':' :: p.portText ++ '/' :: p.database ++ '?' :: awsMechanism ++
      (if p.tls then '&' :: "tls=true".toList else []) ++ p.sessionTokenParam

def x509Uri : List Char :=
  mongodbScheme ++ p.host ++ ':' :: p.portText ++ '/' :: p.database ++
    "?authMechanism=MONGODB-X509&tls=true".toList

/-- The connection string that the driver is given. -/
def uri : Except String (List Char) :=
  match p.authMethod with
  | .scram => .ok p.scramUri
  | .awsIam =>
    if p.accessKey = [] ∨ p.secretKey = [] then
      .error "AWS IAM auth requires aws_access_key and aws_secret_key"
    else .ok p.awsUri
  | .x509 => .ok p.x509Uri
  | .connectionString uri => .ok uri

/-- The connection string as it is logged. -/
def redactedUri : List Char :=
  replaceFirst (uriEncode p.secretKey) "***".toList
    (replaceFirst (uriEncode p.accessKey) "***".toList p.awsUri)

end MongoConnParams

/-- What stands before and after the first letter of a kind. -/
def cut (c : Char) (s : List Char) : List Char × List Char :=
  (s.takeWhile (· ≠ c), (s.dropWhile (· ≠ c)).drop 1)

/-- What stands before and after the last letter of a kind. -/
def cutLast (c : Char) (s : List Char) : List Char × List Char :=
  ((cut c s.reverse).2.reverse, (cut c s.reverse).1.reverse)

/-- A connection string as the form of these strings is documented. -/
structure MongoUri where
  srv : Bool
  credential : Option (List Char × List Char)
  hosts : List Char
  database : List Char
  options : List (List Char × List Char)
deriving DecidableEq

def readOptions (query : List Char) : List (List Char × List Char) :=
  (query.splitOn '&').map fun option => ((cut '=' option).1, percentDecode (cut '=' option).2)

def readCredential (authority : List Char) : Option (List Char × List Char) :=
  if '@' ∈ authority then
    let userinfo := (cutLast '@' authority).1
    some (percentDecode (cut ':' userinfo).1, percentDecode (cut ':' userinfo).2)
  else none

/-- What comes after the scheme. -/
def readRest (srv : Bool) (rest : List Char) : MongoUri :=
  let (authority, path) := cut '/' rest
  let (database, query) := cut '?' path
  { srv
    credential := readCredential authority
    hosts := (cutLast '@' authority).2
    database := percentDecode database
    options := readOptions query }

def readUri (uri : List Char) : Option MongoUri :=
  if srvScheme <+: uri then some (readRest true (uri.drop 14))
  else if mongodbScheme <+: uri then some (readRest false (uri.drop 10))
  else none

section
variable {c : Char} {a b : List Char}

theorem cut_of_notMem (h : c ∉ a) : cut c (a ++ c :: b) = (a, b) := by
  have hall : ∀ x ∈ a, (x ≠ c : Bool) = true := by
    intro x hx
    simpa using fun heq : x = c => h (heq ▸ hx)
  simp only [cut, List.takeWhile_append_of_pos hall, List.dropWhile_append_of_pos hall]
  simp

theorem cutLast_of_notMem (h : c ∉ b) : cutLast c (a ++ c :: b) = (a, b) := by
  have hreverse : (a ++ c :: b).reverse = b.reverse ++ c :: a.reverse := by simp
  rw [cutLast, hreverse, cut_of_notMem (by simpa using h)]
  simp

theorem percentDecode_append (h : '%' ∉ a) : percentDecode (a ++ b) = a ++ percentDecode b := by
  induction a with
  | nil => rfl
  | cons x a ih =>
    obtain ⟨hx, ha⟩ := not_or.mp (List.mem_cons.not.mp h)
    rw [List.cons_append, percentDecode_cons (Ne.symm hx), ih ha, List.cons_append]

theorem percentDecode_of_notMem (h : '%' ∉ a) : percentDecode a = a := by
  have happend := percentDecode_append (b := []) h
  have hnil : percentDecode [] = [] := rfl
  rwa [hnil, List.append_nil] at happend

theorem readOptions_append (query query' : List Char) :
    readOptions (query ++ '&' :: query') = readOptions query ++ readOptions query' := by
  simp [readOptions, List.splitOn_append_cons_self]

end

theorem percentRules_mongo : PercentRules mongoRules where
  layered := by
    rw [Layered]
    decide
  decodes := by
    intro rule hrule s
    simp only [mongoRules, List.map_cons, List.map_nil, List.mem_cons, List.not_mem_nil,
      or_false] at hrule
    rcases hrule with rfl | rfl | rfl | rfl | rfl | rfl | rfl | rfl | rfl <;> rfl
  percent := ⟨_, List.mem_cons_self, rfl⟩

theorem percentRules_uri : PercentRules uriRules where
  layered := by
    rw [Layered]
    decide
  decodes := by
    intro rule hrule s
    rcases List.mem_append.mp hrule with hmongo | hmore
    · exact percentRules_mongo.decodes rule hmongo s
    · simp only [List.mem_cons, List.not_mem_nil, or_false] at hmore
      rcases hmore with rfl | rfl | rfl <;> rfl
  percent := ⟨_, List.mem_append_left _ List.mem_cons_self, rfl⟩

/-- Text that can stand in the part for the credential. -/
def InUserinfo (s : List Char) : Prop := ∀ c ∈ s, c ≠ ':' ∧ c ≠ '/' ∧ c ≠ '@'

theorem inUserinfo_of {rules : List (Char × List Char)} (h : PercentRules rules)
    (hrules : ∀ d ∈ [':', '/', '@'], (∃ rule ∈ rules, rule.1 = d) ∧ ∀ rule ∈ rules, d ∉ rule.2)
    (s : List Char) : InUserinfo (replaceLetters rules s) := by
  have hnot : ∀ d ∈ [':', '/', '@'], d ∉ replaceLetters rules s := fun d hd =>
    notMem_replaceLetters h.layered (hrules d hd).1 (hrules d hd).2 s
  intro c hc
  refine ⟨?_, ?_, ?_⟩
  · rintro rfl
    exact hnot _ (by simp) hc
  · rintro rfl
    exact hnot _ (by simp) hc
  · rintro rfl
    exact hnot _ (by simp) hc

theorem inUserinfo_mongo (s : List Char) : InUserinfo (mongoPercentEncode s) :=
  inUserinfo_of percentRules_mongo (List.forall_iff_forall_mem.mp (by decide)) s

theorem inUserinfo_uri (s : List Char) : InUserinfo (uriEncode s) :=
  inUserinfo_of percentRules_uri (List.forall_iff_forall_mem.mp (by decide)) s

theorem readRest_eq {srv : Bool} {user password hosts database : List Char}
    (huser : InUserinfo user) (hpassword : InUserinfo password)
    (hhosts : ∀ c ∈ hosts, c ≠ '/' ∧ c ≠ '@') (hdatabase : ∀ c ∈ database, c ≠ '?' ∧ c ≠ '%')
    (query : List Char) :
    readRest srv (user ++ ':' :: (password ++ '@' :: (hosts ++ '/' :: (database ++ '?' :: query)))) =
      { srv
        credential := some (percentDecode user, percentDecode password)
        hosts
        database
        options := readOptions query } := by
  have hauthority : cut '/'
      (user ++ ':' :: (password ++ '@' :: (hosts ++ '/' :: (database ++ '?' :: query)))) =
      (user ++ ':' :: (password ++ '@' :: hosts), database ++ '?' :: query) := by
    have hslash : '/' ∉ user ++ ':' :: (password ++ '@' :: hosts) := by
      intro hmem
      simp only [List.mem_append, List.mem_cons, Char.reduceEq, false_or] at hmem
      rcases hmem with hmem | hmem | hmem
      · exact (huser _ hmem).2.1 rfl
      · exact (hpassword _ hmem).2.1 rfl
      · exact (hhosts _ hmem).1 rfl
    have hcut := cut_of_notMem (b := database ++ '?' :: query) hslash
    simpa using hcut
  have hpath : cut '?' (database ++ '?' :: query) = (database, query) :=
    cut_of_notMem fun hmem => (hdatabase _ hmem).1 rfl
  have hat : cutLast '@' (user ++ ':' :: (password ++ '@' :: hosts)) =
      (user ++ ':' :: password, hosts) := by
    have hcut := cutLast_of_notMem (a := user ++ ':' :: password) fun hmem => (hhosts _ hmem).2 rfl
    simpa using hcut
  have huserinfo : cut ':' (user ++ ':' :: password) = (user, password) :=
    cut_of_notMem fun hmem => (huser _ hmem).1 rfl
  have hcredential : readCredential (user ++ ':' :: (password ++ '@' :: hosts)) =
      some (percentDecode user, percentDecode password) := by
    rw [readCredential, if_pos (by simp), hat]
    simp only [huserinfo]
  have hdecoded : percentDecode database = database :=
    percentDecode_of_notMem fun hmem => (hdatabase _ hmem).2 rfl
  simp only [readRest, hauthority, hpath, hcredential, hat, hdecoded]

theorem readUri_mongodb (rest : List Char) :
    readUri (mongodbScheme ++ rest) = some (readRest false rest) := by
  have hother : ¬ srvScheme <+: mongodbScheme ++ rest := by
    intro hsrv
    have hwhole : mongodbScheme <+: mongodbScheme ++ rest := List.prefix_append _ _
    have hshorter := List.prefix_of_prefix_length_le hwhole hsrv (by decide)
    exact absurd hshorter (by decide)
  rw [readUri, if_neg hother, if_pos (List.prefix_append _ _)]
  rfl

theorem readUri_srv (rest : List Char) :
    readUri (srvScheme ++ rest) = some (readRest true rest) := by
  rw [readUri, if_pos (List.prefix_append _ _)]
  rfl

/-- One option, whose name is followed by its value. -/
theorem readOptions_single {key value : List Char} (hkey : ∀ c ∈ key, c ≠ '=' ∧ c ≠ '&')
    (hvalue : '&' ∉ value) :
    readOptions (key ++ '=' :: value) = [(key, percentDecode value)] := by
  have hand : '&' ∉ key ++ '=' :: value := by
    intro hmem
    simp only [List.mem_append, List.mem_cons, Char.reduceEq, false_or] at hmem
    rcases hmem with hmem | hmem
    · exact (hkey _ hmem).2 rfl
    · exact hvalue hmem
  have hcut : cut '=' (key ++ '=' :: value) = (key, value) :=
    cut_of_notMem fun hmem => (hkey _ hmem).1 rfl
  rw [readOptions, List.splitOn_eq_singleton hand]
  simp [hcut]

/-- Text without an equality sign gives no option a value. -/
theorem value_of_notMem {query : List Char} (h : '=' ∉ query) :
    ∀ option ∈ readOptions query, option.2 = [] := by
  intro option hoption
  obtain ⟨piece, hpiece, rfl⟩ := List.mem_map.mp hoption
  have hnone : '=' ∉ piece := fun hmem => h (Csv.mem_of_mem_splitOn piece hpiece hmem).1
  have hrest : piece.dropWhile (· ≠ '=') = [] := by
    apply List.dropWhile_eq_nil_iff.mpr
    intro c hc
    simpa using fun heq : c = '=' => hnone (heq ▸ hc)
  rw [cut, hrest]
  rfl

def tokenKey : List Char := "authMechanismProperties".toList

def tokenName : List Char := "AWS_SESSION_TOKEN:".toList

def tokenValue (token : List Char) : List Char := tokenName ++ token

theorem percentDecode_tokenValue (token : List Char) :
    percentDecode (tokenValue (uriEncode token)) = tokenValue token := by
  have hname : '%' ∉ tokenName := by decide
  have hdecode := percentDecode_replaceLetters percentRules_uri token
  rw [tokenValue, percentDecode_append hname, uriEncode, hdecode, tokenValue]

theorem uriEncode_append (s t : List Char) : uriEncode (s ++ t) = uriEncode s ++ uriEncode t :=
  replaceLetters_append percentRules_uri.layered s t

/-- The token is read as it is, unless it has a letter at which it is cut. -/
theorem token_mem_readOptions (token : List Char) :
    (tokenKey, tokenValue token) ∈ readOptions (tokenKey ++ '=' :: tokenValue (uriEncode token)) ↔
      '&' ∉ token := by
  have hkey : ∀ c ∈ tokenKey, c ≠ '=' ∧ c ≠ '&' := List.forall_iff_forall_mem.mp (by decide)
  have hsingle : ∀ t : List Char, '&' ∉ t →
      readOptions (tokenKey ++ '=' :: tokenValue (uriEncode t)) = [(tokenKey, tokenValue t)] := by
    intro t ht
    have hnone : '&' ∉ tokenValue (uriEncode t) := by
      intro hmem
      rcases List.mem_append.mp hmem with hname | hcode
      · exact absurd hname (by decide)
      · exact ht (mem_of_mem_replaceLetters percentRules_uri.layered (by decide) hcode)
    rw [readOptions_single hkey hnone, percentDecode_tokenValue]
  constructor
  · intro hread hmem
    obtain ⟨before, after, rfl, hbefore⟩ := List.eq_append_cons_of_mem hmem
    have hcode : uriEncode (before ++ '&' :: after) = uriEncode before ++ '&' :: uriEncode after := by
      have hcons : '&' :: after = ['&'] ++ after := rfl
      rw [uriEncode_append, hcons, uriEncode_append]
      rfl
    have hquery : tokenKey ++ '=' :: tokenValue (uriEncode (before ++ '&' :: after)) =
        (tokenKey ++ '=' :: tokenValue (uriEncode before)) ++ '&' :: uriEncode after := by
      simp [tokenValue, hcode]
    rw [hquery, readOptions_append, hsingle before hbefore] at hread
    rcases List.mem_append.mp hread with hfirst | hlater
    · have heq := congrArg (fun o => o.2.length) (List.mem_singleton.mp hfirst)
      simp [tokenValue] at heq
    · have hequal : '=' ∉ uriEncode after :=
        notMem_replaceLetters percentRules_uri.layered (by decide) (by decide) after
      exact absurd (value_of_notMem hequal _ hlater) (by simp [tokenValue])
  · intro hnone
    rw [hsingle token hnone]
    exact List.mem_singleton_self _

namespace MongoConnParams
variable (p : MongoConnParams)

/-- The hosts as they stand in the connection string with keys. -/
def awsHosts : List Char := if p.isAtlas then p.host else p.host ++ ':' :: p.portText

/-- The options before the token. -/
def awsOptions : List Char :=
  awsMechanism ++
    if p.isAtlas then '&' :: "retryWrites=true&w=majority".toList
    else if p.tls then '&' :: "tls=true".toList else []

def awsScheme : List Char := if p.isAtlas then srvScheme else mongodbScheme

theorem awsUri_eq : p.awsUri = p.awsScheme ++ (uriEncode p.accessKey ++ ':' ::
    (uriEncode p.secretKey ++ '@' :: (p.awsHosts ++ '/' :: (p.database ++ '?' ::
      (p.awsOptions ++ p.sessionTokenParam))))) := by
  rw [awsUri, awsScheme, awsHosts, awsOptions]
  split_ifs <;> simp only [List.append_assoc, List.cons_append, List.append_nil]

theorem scramUri_eq : p.scramUri = mongodbScheme ++ (mongoPercentEncode p.username ++ ':' ::
    (mongoPercentEncode p.password ++ '@' :: ((p.host ++ ':' :: p.portText) ++ '/' ::
      (p.database ++ '?' :: (sourceKey ++ '=' :: p.source ++ '&' ::
        directConnection))))) := by
  simp only [scramUri, List.append_assoc, List.cons_append]

theorem plain_awsHosts (hhost : ∀ c ∈ p.host, c ≠ '/' ∧ c ≠ '@') :
    (∀ c ∈ p.host ++ ':' :: p.portText, c ≠ '/' ∧ c ≠ '@') ∧
      ∀ c ∈ p.awsHosts, c ≠ '/' ∧ c ≠ '@' := by
  have hport : ∀ c ∈ p.portText, c ≠ '/' ∧ c ≠ '@' := by
    intro c hc
    have hdigits : p.portText = Nat.toDigits 10 p.port.toNat := Nat.toList_repr
    rw [hdigits] at hc
    have hdigit := Nat.isDigit_of_mem_toDigits (by decide) (by decide) hc
    constructor <;> rintro rfl <;> exact absurd hdigit (by decide)
  have hboth : ∀ c ∈ p.host ++ ':' :: p.portText, c ≠ '/' ∧ c ≠ '@' := by
    intro c hc
    rcases List.mem_append.mp hc with hc | hc
    · exact hhost c hc
    · rcases List.mem_cons.mp hc with rfl | hc
      · decide
      · exact hport c hc
  refine ⟨hboth, ?_⟩
  rw [awsHosts]
  split_ifs
  · exact hhost
  · exact hboth

/-- The options before the token: the source and the mechanism, and nothing about properties. -/
theorem readOptions_awsOptions :
    (sourceKey, "$external".toList) ∈ readOptions p.awsOptions ∧
      ("authMechanism".toList, "MONGODB-AWS".toList) ∈ readOptions p.awsOptions ∧
      ∀ option ∈ readOptions p.awsOptions, option.1 ≠ tokenKey := by
  rw [awsOptions]
  split_ifs <;> decide +kernel

theorem sessionTokenParam_some {token : List Char} (h : p.awsSessionToken = some token) :
    p.sessionTokenParam = '&' :: (tokenKey ++ '=' :: tokenValue (uriEncode token)) := by
  rw [sessionTokenParam, h]
  rfl

end MongoConnParams

/-- Atlas with temporary keys. -/
def shopParams : MongoConnParams where
  host := "shop.ab1.mongodb.net".toList
  port := 27017
  database := "shop".toList
  username := []
  password := []
  authMethod := .awsIam
  authSource := none
  awsAccessKey := some "ASIA4X".toList
  awsSecretKey := some "wJ/r+Q:7@".toList
  awsSessionToken := some "FwoGZ/==".toList
  tls := true

namespace MongoConnParams
variable (p : MongoConnParams)

/-- The scheme up to its colon. -/
def awsWord : List Char := if p.isAtlas then "mongodb+srv".toList else "mongodb".toList

/-- What stands in the connection string after the keys. -/
def awsTail : List Char :=
  '@' :: (p.awsHosts ++ '/' :: (p.database ++ '?' :: (p.awsOptions ++ p.sessionTokenParam)))

theorem awsScheme_eq : p.awsScheme = p.awsWord ++ [':'] ++ ([] ++ ['/']) ++ ([] ++ ['/']) := by
  rw [awsScheme, awsWord]
  cases p.isAtlas with
  | true => decide
  | false => decide

end MongoConnParams

theorem uriEncode_ne_nil {s : List Char} (h : s ≠ []) : uriEncode s ≠ [] := by
  intro hnil
  have hdecode := percentDecode_replaceLetters percentRules_uri s
  rw [← uriEncode, hnil] at hdecode
  exact h hdecode.symm

/-- Encoded text does not begin in the scheme, unless it is a part of the word there. -/
theorem beginsNowhere_scheme (p : MongoConnParams) {s : List Char} (hs : s ≠ [])
    (hword : ¬ uriEncode s <:+: p.awsWord) : BeginsNowhere (uriEncode s) p.awsScheme := by
  have hcolon : ':' ∉ uriEncode s := fun hmem => (inUserinfo_uri s _ hmem).1 rfl
  have hslash : '/' ∉ uriEncode s := fun hmem => (inUserinfo_uri s _ hmem).2.1 rfl
  have hempty : ¬ uriEncode s <:+: [] := fun h => uriEncode_ne_nil hs (List.infix_nil.mp h)
  rw [p.awsScheme_eq]
  exact ((beginsNowhere_word hword hcolon).append (beginsNowhere_word hempty hslash)).append
    (beginsNowhere_word hempty hslash)

/-- The log never hides the session token, which stands at the end of what is logged. It hides both
keys where they stand, unless one of them is a part of the scheme, or the second one of the stars that
are put for the first. -/
theorem mongo_redaction (p : MongoConnParams) (haccess : p.accessKey ≠ [])
    (hsecret : p.secretKey ≠ []) :
    (∀ token, p.awsSessionToken = some token →
      tokenValue (uriEncode token) <:+ p.redactedUri) ∧
    (¬ uriEncode p.accessKey <:+: p.awsWord → ¬ uriEncode p.secretKey <:+: p.awsWord →
      ¬ uriEncode p.secretKey <:+: "***".toList →
      p.redactedUri = p.awsScheme ++ ("***".toList ++ ':' :: ("***".toList ++ p.awsTail))) := by
  have huri : p.awsUri =
      p.awsScheme ++ (uriEncode p.accessKey ++ ':' :: (uriEncode p.secretKey ++ p.awsTail)) :=
    p.awsUri_eq
  constructor
  · intro token htoken
    have hkept : ∃ keys, p.redactedUri = keys ++ p.awsTail := by
      have hfirst : uriEncode p.accessKey <:+: p.awsScheme ++ uriEncode p.accessKey :=
        (List.suffix_append _ _).isInfix
      have hsecond : ∀ x, uriEncode p.secretKey <:+: x ++ ':' :: uriEncode p.secretKey := fun x =>
        ((List.suffix_cons _ _).trans (List.suffix_append _ _)).isInfix
      rw [MongoConnParams.redactedUri, huri, ← List.append_assoc, replaceFirst_append _ hfirst,
        ← List.cons_append, ← List.append_assoc, replaceFirst_append _ (hsecond _)]
      exact ⟨_, rfl⟩
    obtain ⟨keys, hkeys⟩ := hkept
    have htail : ∃ before, p.awsTail = before ++ tokenValue (uriEncode token) := by
      rw [MongoConnParams.awsTail, p.sessionTokenParam_some htoken]
      refine ⟨'@' :: (p.awsHosts ++ '/' :: (p.database ++ '?' :: (p.awsOptions ++ '&' ::
        (tokenKey ++ ['='])))), ?_⟩
      simp only [List.append_assoc, List.cons_append, List.nil_append]
    obtain ⟨before, hbefore⟩ := htail
    rw [hkeys, hbefore, ← List.append_assoc]
    exact List.suffix_append _ _
  · intro haccessWord hsecretWord hsecretStars
    have hcolon : ':' ∉ uriEncode p.secretKey := fun hmem => (inUserinfo_uri _ _ hmem).1 rfl
    have hbefore := (beginsNowhere_scheme p hsecret hsecretWord).append
      (beginsNowhere_word hsecretStars hcolon)
    have hregroup : p.awsScheme ++ ("***".toList ++ ':' :: (uriEncode p.secretKey ++ p.awsTail)) =
        (p.awsScheme ++ ("***".toList ++ [':'])) ++ (uriEncode p.secretKey ++ p.awsTail) := by
      simp only [List.append_assoc, List.cons_append, List.nil_append]
    rw [MongoConnParams.redactedUri, huri,
      replaceFirst_at (uriEncode_ne_nil haccess) (beginsNowhere_scheme p haccess haccessWord),
      hregroup, replaceFirst_at (uriEncode_ne_nil hsecret) hbefore]
    simp only [List.append_assoc, List.cons_append, List.nil_append]

theorem mongo_redaction_shop :
    tokenValue "FwoGZ%2F%3D%3D".toList <:+ shopParams.redactedUri ∧
      shopParams.redactedUri =
        srvScheme ++ ("***".toList ++ ':' :: ("***".toList ++ shopParams.awsTail)) := by
  obtain ⟨htoken, hkeys⟩ := mongo_redaction shopParams (by decide) (by decide)
  have hcode : uriEncode "FwoGZ/==".toList = "FwoGZ%2F%3D%3D".toList := by decide +kernel
  have hscheme : shopParams.awsScheme = srvScheme := by decide +kernel
  have htoken' := htoken "FwoGZ/==".toList rfl
  have hkeys' := hkeys (by decide +kernel) (by decide +kernel) (by decide +kernel)
  rw [hcode] at htoken'
  rw [hscheme] at hkeys'
  exact ⟨htoken', hkeys'⟩

end RustLake.Mongo
