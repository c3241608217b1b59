import RustLake.Auth.Administrators
import RustLake.Auth.Middleware

/-! The users of the global state over its whole life: who holds an id, and what a token is worth
long after it was given out. -/
namespace RustLake.Auth

/-- The global state, with every user under the user's own id. -/
structure Store extends AuthState where
  named : ∀ id user, users.lookup id = some user → user.id = id
  roles : RoleTable
  policies : List TablePolicy

namespace Store

def registerUser (s : Store) (user : User) : Except String Store :=
  if user.id ∈ s.users then .error ("user '" ++ String.ofList user.id ++ "' already exists")
  else .ok { s with
    users := s.users.insert user.id user
    named := by
      intro id found h
      by_cases heq : id = user.id
      · rw [heq, AList.lookup_insert] at h
        rw [heq, ← Option.some.inj h]
      · rw [AList.lookup_insert_ne heq] at h
        exact s.named id found h }

/-- The user who was removed, and the state without. -/
def removeUser (s : Store) (userId : List Char) : Except String (User × Store) :=
  match s.users.lookup userId with
  | none => .error ("user '" ++ String.ofList userId ++ "' not found")
  | some user => .ok (user, { s with
    users := s.users.erase userId
    named := by
      intro id found h
      by_cases heq : id = userId
      · rw [heq, AList.lookup_erase] at h
        simp at h
      · rw [AList.lookup_erase_ne heq] at h
        exact s.named id found h })

def registerRole (s : Store) (role : Role) : Store :=
  { s with roles := s.roles.registerRole role }

def addPolicy (s : Store) (policy : TablePolicy) : Store :=
  { s with policies := s.policies ++ [policy] }

def updateConfig (s : Store) (config : AuthConfig) : Store := { s with config := config }

/-- The users, in the order of the hash map. -/
def listUsers (order : HashOrder User) (s : Store) : List User :=
  order.elements (s.users.entries.map (·.2))

end Store

/-- A token for the first user in the hash map who has the name. -/
def createTokenForUser (libs : Libraries) (order : HashOrder User) (s : Store)
    (username : List Char) (clock : Clock) : Except String (List Char) :=
  match (s.listUsers order).find? (·.username = username) with
  | none => .error ("user '" ++ String.ofList username ++ "' not found")
  | some user => createToken libs s.config user clock

/-- What changes the global state. -/
inductive Call where
  | registerUser (user : User)
  | removeUser (userId : List Char)
  | registerRole (role : Role)
  | addPolicy (policy : TablePolicy)
  | updateConfig (config : AuthConfig)
deriving DecidableEq

/-- The state after a call; one that fails leaves it as it is. -/
def Store.after (s : Store) : Call → Store
  | .registerUser user => match s.registerUser user with
    | .ok s' => s'
    | .error _ => s
  | .removeUser userId => match s.removeUser userId with
    | .ok (_, s') => s'
    | .error _ => s
  | .registerRole role => s.registerRole role
  | .addPolicy policy => s.addPolicy policy
  | .updateConfig config => s.updateConfig config

/-- The state after calls, the oldest first. -/
def Store.run (s : Store) (calls : List Call) : Store := calls.foldl Store.after s

/-- The user whom a call would put under an id. -/
def Call.registered (id : List Char) : Call → Option User
  | .registerUser user => if user.id = id then some user else none
  | _ => none

/-- Who has an id after a call, from who had it before. -/
def Call.holder (id : List Char) (present : Option User) (call : Call) : Option User :=
  if call = .removeUser id then none else present.or (call.registered id)

/-- What the middleware makes of the claims of a token, from the user who has the id now. -/
def answer (claims : TokenClaims) (present : Option User) (now : UInt64) :
    Except StatusCode (TokenClaims × User) :=
  if claims.exp < now then .error .unauthorized
  else match present with
    | none => .error .unauthorized
    | some user =>
      if validRoles claims user = [] then .error .forbidden
      else .ok ({ claims with roles := validRoles claims user }, user)

section
variable {libs : Libraries} {s : Store} {id : List Char}

theorem lookup_registerUser (user : User) :
    (s.after (.registerUser user)).users.lookup id =
      (s.users.lookup id).or (if user.id = id then some user else none) := by
  by_cases hmem : user.id ∈ s.users
  · have hsame : s.after (.registerUser user) = s := by simp [Store.after, Store.registerUser, hmem]
    rw [hsame]
    by_cases heq : user.id = id
    · obtain ⟨found, hfound⟩ := Option.isSome_iff_exists.mp (AList.lookup_isSome.mpr hmem)
      rw [← heq, hfound, Option.some_or]
    · rw [if_neg heq, Option.or_none]
  · have hnew : (s.after (.registerUser user)).users = s.users.insert user.id user := by
      simp [Store.after, Store.registerUser, hmem]
    rw [hnew]
    by_cases heq : user.id = id
    · have hnone : s.users.lookup id = none := AList.lookup_eq_none.mpr (heq ▸ hmem)
      rw [if_pos heq, ← heq, AList.lookup_insert, heq, hnone, Option.none_or]
    · rw [if_neg heq, Option.or_none, AList.lookup_insert_ne (Ne.symm heq)]

theorem lookup_removeUser (userId : List Char) :
    (s.after (.removeUser userId)).users.lookup id =
      if userId = id then none else s.users.lookup id := by
  cases hfound : s.users.lookup userId with
  | none =>
    have hsame : s.after (.removeUser userId) = s := by simp [Store.after, Store.removeUser, hfound]
    rw [hsame]
    split_ifs with heq
    · rw [← heq, hfound]
    · rfl
  | some user =>
    have herased : (s.after (.removeUser userId)).users = s.users.erase userId := by
      simp [Store.after, Store.removeUser, hfound]
    rw [herased]
    split_ifs with heq
    · rw [← heq, AList.lookup_erase]
    · rw [AList.lookup_erase_ne (Ne.symm heq)]

theorem lookup_after (call : Call) :
    (s.after call).users.lookup id = call.holder id (s.users.lookup id) := by
  cases call with
  | registerUser user => simp [lookup_registerUser, Call.holder, Call.registered]
  | removeUser userId =>
    rw [lookup_removeUser, Call.holder]
    simp [Call.registered]
  | registerRole role => simp [Store.after, Store.registerRole, Call.holder, Call.registered]
  | addPolicy policy => simp [Store.after, Store.addPolicy, Call.holder, Call.registered]
  | updateConfig config => simp [Store.after, Store.updateConfig, Call.holder, Call.registered]

theorem run_append (s : Store) (calls calls' : List Call) :
    s.run (calls ++ calls') = (s.run calls).run calls' := List.foldl_append

/-- Until it is removed, an id stays with whom has it, or else goes to the first who registers. -/
theorem lookup_run (calls : List Call) (hkept : .removeUser id ∉ calls) (s : Store) :
    (s.run calls).users.lookup id =
      (s.users.lookup id).or (calls.findSome? (Call.registered id)) := by
  induction calls generalizing s with
  | nil => simp [Store.run]
  | cons call calls ih =>
    obtain ⟨hcall, hcalls⟩ := not_or.mp (List.mem_cons.not.mp hkept)
    have hstep : s.run (call :: calls) = (s.after call).run calls := rfl
    rw [hstep, ih hcalls, lookup_after, Call.holder, if_neg (Ne.symm hcall), Option.or_assoc,
      List.findSome?_cons]
    cases call.registered id with
    | none => simp
    | some user => simp

theorem lookup_run_removed (before rest : List Call) (hkept : .removeUser id ∉ rest) :
    (s.run (before ++ .removeUser id :: rest)).users.lookup id =
      rest.findSome? (Call.registered id) := by
  have hstep : s.run (before ++ .removeUser id :: rest) =
      ((s.run before).after (.removeUser id)).run rest := by
    rw [run_append]
    rfl
  rw [hstep, lookup_run rest hkept, lookup_after, Call.holder, if_pos rfl, Option.none_or]

/-- A token of a user who is in the state, under the id and the name. -/
theorem createTokenForUser_cases {order : HashOrder User} {username token : List Char}
    {now : UInt64} (h : createTokenForUser libs order s username (.ok now) = .ok token) :
    ∃ user, s.users.lookup user.id = some user ∧ user.username = username ∧
      createToken libs s.config user (.ok now) = .ok token := by
  rw [createTokenForUser] at h
  cases hfound : (s.listUsers order).find? (·.username = username) with
  | none => simp [hfound] at h
  | some user =>
    rw [hfound] at h
    have hname : user.username = username := by simpa using List.find?_some hfound
    have hmem : user ∈ s.users.entries.map (·.2) :=
      (order.perm _).mem_iff.mp (List.mem_of_find?_eq_some hfound)
    obtain ⟨entry, hentry, hvalue⟩ := List.mem_map.mp hmem
    have hlookup : s.users.lookup entry.1 = some entry.2 := AList.mem_lookup_iff.mpr hentry
    rw [hvalue] at hlookup
    have hid := s.named _ _ hlookup
    rw [← hid] at hlookup
    exact ⟨user, hlookup, hname, h⟩

/-- A token in the form in which it is signed. -/
theorem createToken_ok {config : AuthConfig} {user : User} {now : UInt64} {token : List Char}
    (h : createToken libs config user (.ok now) = .ok token) :
    ∃ json, libs.toJson (issued config user now) = .ok json ∧
      token = base64UrlEncode (asBytes header) ++ '.' :: base64UrlEncode (asBytes json) ++ '.' ::
        sigB64 libs config
          (base64UrlEncode (asBytes header) ++ '.' :: base64UrlEncode (asBytes json)) := by
  cases hjson : libs.toJson (issued config user now) with
  | error message =>
    simp [createToken, secondsNow, Except.mapError, bind, Except.bind, hjson] at h
  | ok json =>
    simp only [createToken, secondsNow, Except.mapError, bind, Except.bind, hjson, pure,
      Except.pure, Except.ok.injEq] at h
    exact ⟨json, rfl, h.symm⟩

/-- The request with a token, in a state under the secret that the token was signed with. -/
theorem authMiddleware_signed {state : AuthState} {claims : TokenClaims}
    {token : List Char} {later : UInt64} (henabled : state.config.enabled = true)
    (hvalid : validateToken libs state.config token (.ok later) =
      if claims.exp < later then .error "token has expired" else .ok claims) :
    authMiddleware libs state (some ("Bearer ".toList ++ token)) (.ok later) =
      answer claims (state.users.lookup claims.sub) later := by
  rw [authMiddleware, if_neg (by simp [henabled]), bearerToken_bearer]
  simp only [hvalid]
  by_cases hexp : claims.exp < later
  · simp [answer, hexp]
  · cases huser : state.users.lookup claims.sub with
    | none => simp [answer, hexp, huser]
    | some user => simp [answer, hexp, huser]

/-- A token is worth what the user has now who has its id: as long as the id has not been removed,
that is the user whom it was made for; after a removal nobody; and after another registration
whoever came first, whose roles then count. -/
theorem token_lifecycle (hjson : ∀ claims json, libs.toJson claims = .ok json →
      libs.fromJson json = .ok claims)
    (start : Store) (earlier later : List Call) (order : HashOrder User) (username : List Char)
    (now : UInt64) (token : List Char)
    (hcreate : createTokenForUser libs order (start.run earlier) username (.ok now) = .ok token)
    (hsecret : (start.run (earlier ++ later)).config.jwtSecret =
      (start.run earlier).config.jwtSecret)
    (henabled : (start.run (earlier ++ later)).config.enabled = true) :
    ∃ user, (start.run earlier).users.lookup user.id = some user ∧ user.username = username ∧
      let claims := issued (start.run earlier).config user now
      let request := authMiddleware libs (start.run (earlier ++ later)).toAuthState
        (some ("Bearer ".toList ++ token))
      (.removeUser user.id ∉ later → ∀ moment, request (.ok moment) = answer claims (some user) moment) ∧
      ∀ before rest, later = before ++ .removeUser user.id :: rest →
        .removeUser user.id ∉ rest → ∀ moment, request (.ok moment) =
          answer claims (rest.findSome? (Call.registered user.id)) moment := by
  obtain ⟨user, huser, hname, htoken⟩ := createTokenForUser_cases hcreate
  obtain ⟨json, hwrite, rfl⟩ := createToken_ok htoken
  have hread := hjson _ _ hwrite
  refine ⟨user, huser, hname, ?_⟩
  intro claims request
  have hrequest : ∀ moment, request (.ok moment) =
      answer claims ((start.run (earlier ++ later)).users.lookup user.id) moment := by
    intro moment
    have hvalid := validateToken_signed hsecret hread moment
    exact authMiddleware_signed henabled hvalid
  constructor
  · intro hkept moment
    rw [hrequest, run_append, lookup_run later hkept, huser, Option.some_or]
  · intro before rest hlater hkept moment
    rw [hrequest, hlater, ← List.append_assoc, lookup_run_removed _ _ hkept]

end

/-- Alice among the first users, and nothing else. -/
def aliceStore : Store where
  users := (∅ : AList fun _ : List Char => User).insert aliceUser.id aliceUser
  config := aliceConfig
  named := by
    intro id user h
    by_cases heq : id = aliceUser.id
    · rw [heq, AList.lookup_insert] at h
      rw [heq, ← Option.some.inj h]
    · rw [AList.lookup_insert_ne heq] at h
      simp at h
  roles := defaultRoles
  policies := []

/-- Somebody else under her id, who is an analyst too. -/
def aliceSuccessor : User :=
  { aliceUser with username := "carol".toList, roles := ["viewer".toList, "analyst".toList] }

def aliceCalls : List Call :=
  [.removeUser "user-1".toList, .addPolicy ⟨"*".toList, none⟩, .registerUser aliceSuccessor]

/-- Her token dies with her account and lives again with the next one. -/
theorem token_lifecycle_successor :
    ∃ user, aliceStore.users.lookup user.id = some user ∧ user.username = "alice".toList ∧
      authMiddleware aliceLibraries (aliceStore.run aliceCalls).toAuthState
          (some ("Bearer ".toList ++ aliceToken)) (.ok 1700000001) =
        answer (issued aliceConfig user 1700000000) (some aliceSuccessor) 1700000001 := by
  have hjson : ∀ claims json, aliceLibraries.toJson claims = .ok json →
      aliceLibraries.fromJson json = .ok claims := by
    intro claims json h
    by_cases heq : claims = issued aliceConfig aliceUser 1700000000
    · simp only [aliceLibraries, heq, if_true, Except.ok.injEq] at h
      simp [aliceLibraries, heq, ← h]
    · simp [aliceLibraries, heq] at h
  have hfirst : (aliceStore.listUsers ⟨id, List.Perm.refl⟩).find? (·.username = "alice".toList) =
      some aliceUser := by decide
  have hcreate : createTokenForUser aliceLibraries ⟨id, List.Perm.refl⟩ (aliceStore.run [])
      "alice".toList (.ok 1700000000) = .ok aliceToken := by
    have hwrite : aliceLibraries.toJson (issued aliceConfig aliceUser 1700000000) =
        .ok aliceJson := by simp [aliceLibraries]
    have hrun : aliceStore.run [] = aliceStore := rfl
    have hconfig : aliceStore.config = aliceConfig := rfl
    rw [createTokenForUser, hrun, hfirst]
    simp only [createToken, secondsNow, Except.mapError, bind, Except.bind, hconfig, hwrite]
    rfl
  obtain ⟨user, huser, hname, -, hremoved⟩ :=
    token_lifecycle hjson aliceStore [] aliceCalls _ _ _ _ hcreate rfl rfl
  have hid : user.id = "user-1".toList := by
    by_contra hne
    have hempty : (∅ : AList fun _ : List Char => User).lookup user.id = none :=
      AList.lookup_empty _
    have hnone : aliceStore.users.lookup user.id = none :=
      (AList.lookup_insert_ne hne).trans hempty
    have hsome : aliceStore.users.lookup user.id = some user := huser
    rw [hnone] at hsome
    cases hsome
  refine ⟨user, huser, hname, ?_⟩
  have hanswer := hremoved [] [.addPolicy ⟨"*".toList, none⟩, .registerUser aliceSuccessor]
    (by rw [hid]; rfl) (by simp) 1700000001
  rw [hid] at hanswer
  exact hanswer

end RustLake.Auth
