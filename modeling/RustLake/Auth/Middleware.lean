import RustLake.Auth.Permissions
import RustLake.Auth.Token

/-! The middleware before the handlers: whose request it is, and with which of the user's roles. -/
namespace RustLake.Auth

/-- The part of the global state that the middleware reads. -/
structure AuthState where
  users : AList fun _ : List Char => User
  config : AuthConfig

inductive StatusCode where
  | unauthorized
  | forbidden
deriving DecidableEq

def anonymousUser : User where
  id := "anonymous".toList
  username := "anonymous".toList
  email := "anonymous@localhost".toList
  roles := ["admin".toList]

/-- The token in the `Authorization` header, where there is one that is text. -/
def bearerToken (authHeader : Option (List Char)) : Option (List Char) :=
  authHeader.bind fun header =>
    if "Bearer ".toList <+: header ∨ "bearer ".toList <+: header then some (header.drop 7) else none

/-- The claims of a request when authentication is disabled. -/
def anonymousClaims (anonymous : User) : TokenClaims where
  sub := anonymous.id
  username := anonymous.username
  roles := anonymous.roles
  exp := UInt64.ofNat (2 ^ 64 - 1)
  iat := 0

/-- The token's roles that the user still has. -/
def validRoles (claims : TokenClaims) (user : User) : List (List Char) :=
  claims.roles.filter (· ∈ user.roles)

/-- What the handlers are given, or the status of the answer without them. -/
def authMiddleware (libs : Libraries) (state : AuthState) (authHeader : Option (List Char))
    (clock : Clock) : Except StatusCode (TokenClaims × User) :=
  if state.config.enabled = false then
    let anonymous := (state.users.lookup "anonymous".toList).getD anonymousUser
    .ok (anonymousClaims anonymous, anonymous)
  else match bearerToken authHeader with
    | none => .error .unauthorized
    | some token => match validateToken libs state.config token clock with
      | .error _ => .error .unauthorized
      | .ok claims => match state.users.lookup claims.sub with
        | none => .error .unauthorized
        | some user =>
          if validRoles claims user = [] then .error .forbidden
          else .ok ({ claims with roles := validRoles claims user }, user)

section
variable {libs : Libraries} {state : AuthState} {authHeader : Option (List Char)} {clock : Clock}
  {claims : TokenClaims} {user : User}

/-- Where the claims of a request come from. -/
theorem authMiddleware_cases (h : authMiddleware libs state authHeader clock = .ok (claims, user)) :
    (state.config.enabled = false ∧ claims = anonymousClaims user) ∨
    (state.config.enabled = true ∧ ∃ token given, bearerToken authHeader = some token ∧
      validateToken libs state.config token clock = .ok given ∧
      state.users.lookup given.sub = some user ∧
      claims = { given with roles := validRoles given user }) := by
  rw [authMiddleware] at h
  split_ifs at h with henabled
  · obtain ⟨rfl, rfl⟩ := Prod.mk.inj (Except.ok.inj h)
    exact Or.inl ⟨henabled, rfl⟩
  · right
    refine ⟨Bool.eq_true_of_not_eq_false henabled, ?_⟩
    cases htoken : bearerToken authHeader with
    | none => simp [htoken] at h
    | some token =>
      cases hvalid : validateToken libs state.config token clock with
      | error message => simp [htoken, hvalid] at h
      | ok given =>
        cases huser : state.users.lookup given.sub with
        | none => simp [htoken, hvalid, huser] at h
        | some found =>
          simp only [htoken, hvalid, huser] at h
          split_ifs at h
          obtain ⟨rfl, rfl⟩ := Prod.mk.inj (Except.ok.inj h)
          exact ⟨token, given, rfl, hvalid, huser, rfl⟩

theorem bearerToken_bearer (token : List Char) :
    bearerToken (some ("Bearer ".toList ++ token)) = some token := by
  have hbegins : "Bearer ".toList <+: "Bearer ".toList ++ token := List.prefix_append _ _
  rw [bearerToken, Option.bind_some, if_pos (Or.inl hbegins)]
  rfl

/-- The request of a known user with some role left. -/
theorem authMiddleware_ok {token : List Char} {given : TokenClaims}
    (henabled : state.config.enabled = true)
    (hvalid : validateToken libs state.config token clock = .ok given)
    (huser : state.users.lookup given.sub = some user) (hroles : validRoles given user ≠ []) :
    authMiddleware libs state (some ("Bearer ".toList ++ token)) clock =
      .ok ({ given with roles := validRoles given user }, user) := by
  rw [authMiddleware, if_neg (by simp [henabled]), bearerToken_bearer]
  simp only [hvalid, huser, hroles, if_false]

/-- No role goes downstream that the user does not have now. -/
theorem authMiddleware_roles (h : authMiddleware libs state authHeader clock = .ok (claims, user)) :
    claims.roles ⊆ user.roles := by
  rcases authMiddleware_cases h with ⟨-, rfl⟩ | ⟨-, token, given, -, -, -, rfl⟩
  · exact List.Subset.refl _
  · intro roleName hname
    exact of_decide_eq_true (List.mem_filter.mp hname).2

/-- What is permitted downstream is permitted by the user's present roles alone, and by the roles of
the token alone. More roles, and definitions of new ones, permit no less. -/
theorem revocation_effective (libs : Libraries) (roles : List Role) (required : Permission) :
    (∀ state authHeader clock claims user,
      authMiddleware libs state authHeader clock = .ok (claims, user) →
      checkPermission claims.toClaims required roles = true →
      checkPermission { claims.toClaims with roles := user.roles } required roles = true ∧
      (state.config.enabled = true → state.users.lookup claims.sub = some user ∧
        ∃ token given, bearerToken authHeader = some token ∧
          validateToken libs state.config token clock = .ok given ∧
          checkPermission given.toClaims required roles = true)) ∧
    (∀ claims claims' : Claims, claims.roles ⊆ claims'.roles →
      checkPermission claims required roles = true →
      checkPermission claims' required roles = true) ∧
    ∀ before role after, roles = before ++ after → (∀ r ∈ roles, r.name ≠ role.name) →
      ∀ claims, checkPermission claims required roles = true →
        checkPermission claims required (before ++ role :: after) = true := by
  refine ⟨?_, ?_, ?_⟩
  · intro state authHeader clock claims user hpass hcheck
    constructor
    · have hroles := authMiddleware_roles hpass
      exact checkPermission_mono hroles hcheck
    · intro henabled
      rcases authMiddleware_cases hpass with ⟨hdisabled, -⟩ | ⟨-, token, given, htoken, hvalid, huser, rfl⟩
      · rw [henabled] at hdisabled
        cases hdisabled
      · refine ⟨huser, token, given, htoken, hvalid, ?_⟩
        have hroles : validRoles given user ⊆ given.roles := List.filter_sublist.subset
        exact checkPermission_mono hroles hcheck
  · intro claims claims' hroles hcheck
    exact checkPermission_mono hroles hcheck
  · rintro before role after rfl hfresh claims hcheck
    obtain ⟨roleName, hname, hgrants⟩ := checkPermission_iff.mp hcheck
    exact checkPermission_iff.mpr ⟨roleName, hname, hgrants.define hfresh⟩

end

/-- The user of the tokens, with one role more than when it was made. -/
def aliceState : AuthState where
  users := (∅ : AList fun _ : List Char => User).insert aliceUser.id
    { aliceUser with roles := ["viewer".toList, "analyst".toList] }
  config := aliceConfig

def aliceToken : List Char :=
  let signingInput := base64UrlEncode (asBytes header) ++ '.' :: base64UrlEncode (asBytes aliceJson)
  signingInput ++ '.' :: sigB64 aliceLibraries aliceConfig signingInput

/-- Her request passes, and reads tables through the role that she had and still has. -/
theorem alice_permitted :
    let roles := [⟨"analyst".toList, [.readTable ['*']]⟩]
    let user : User := { aliceUser with roles := ["viewer".toList, "analyst".toList] }
    let claims : TokenClaims :=
      { issued aliceConfig aliceUser 1700000000 with roles := ["analyst".toList] }
    authMiddleware aliceLibraries aliceState (some ("Bearer ".toList ++ aliceToken))
        (.ok 1700000001) = .ok (claims, user) ∧
      checkPermission { claims.toClaims with roles := user.roles } (.readTable ['t']) roles = true ∧
      checkPermission claims.toClaims (.readTable ['t']) (roles ++ [⟨"viewer".toList, []⟩]) =
        true := by
  intro roles user claims
  have hjson : aliceLibraries.fromJson aliceJson = .ok (issued aliceConfig aliceUser 1700000000) := by
    simp [aliceLibraries]
  have hvalid : validateToken aliceLibraries aliceState.config aliceToken (.ok 1700000001) =
      .ok (issued aliceConfig aliceUser 1700000000) :=
    (validateToken_signed rfl hjson 1700000001).trans (by decide)
  have huser : aliceState.users.lookup "user-1".toList = some user := AList.lookup_insert _
  have hroles : validRoles (issued aliceConfig aliceUser 1700000000) user = ["analyst".toList] := by
    decide
  have hpass := authMiddleware_ok rfl hvalid huser (by rw [hroles]; simp)
  rw [hroles] at hpass
  have hcheck : checkPermission claims.toClaims (.readTable ['t']) roles = true := by decide
  obtain ⟨hrequest, -, hdefine⟩ := revocation_effective aliceLibraries roles (.readTable ['t'])
  have hdefined :=
    hdefine roles ⟨"viewer".toList, []⟩ [] (by simp) (by simp [roles]) claims.toClaims hcheck
  exact ⟨hpass, (hrequest _ _ _ _ _ hpass hcheck).1, hdefined⟩

end RustLake.Auth
