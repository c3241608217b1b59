import RustLake.Auth.Permissions
import RustLake.Auth.RowSecurity

/-! Who is an administrator: for the filters it is a name, for the permissions it is what the roles
are defined to be. -/
namespace RustLake.Auth

/-- The definitions of roles, each under its own name. -/
structure RoleTable where
  byName : AList fun _ : List Char => Role
  named : ∀ roleName role, byName.lookup roleName = some role → role.name = roleName

namespace RoleTable

def empty : RoleTable := ⟨∅, by simp⟩

/-- Define a role, in place of one of the same name. -/
def registerRole (t : RoleTable) (role : Role) : RoleTable where
  byName := t.byName.insert role.name role
  named := by
    intro roleName found h
    by_cases heq : roleName = role.name
    · rw [heq, AList.lookup_insert] at h
      rw [heq, ← Option.some.inj h]
    · rw [AList.lookup_insert_ne heq] at h
      exact t.named roleName found h

/-- The roles, in some order. -/
def values (t : RoleTable) : List Role := t.byName.entries.map (·.2)

end RoleTable

def adminRole : Role := ⟨"admin".toList, [.admin]⟩

def analystRole : Role := ⟨"analyst".toList, [.readTable ['*'], .executeSql]⟩

def engineerRole : Role where
  name := "engineer".toList
  permissions :=
    [.readTable ['*'], .writeTable ['*'], .executeSql, .managePipelines, .manageConnections]

def viewerRole : Role := ⟨"viewer".toList, [.readTable ['*']]⟩

/-- The roles at the start. -/
def defaultRoles : RoleTable :=
  [adminRole, analystRole, engineerRole, viewerRole].foldl RoleTable.registerRole .empty

/-- The roles after some have been registered. -/
def rolesAfter (registered : List Role) : RoleTable :=
  registered.foldl RoleTable.registerRole defaultRoles

/-- The policies add nothing to any query. -/
def SkipsRowFilter (lower : Lowercase) (claims : Claims) : Prop :=
  ∀ sql policies, applyRowFilter lower sql policies claims = some sql

/-- The policies hide no column. -/
def SkipsMasks (claims : Claims) : Prop :=
  ∀ columns policies table, filterColumns columns policies table claims = columns

/-- The policies do not apply just to those who have the permission of the administrator. -/
def AdministratorsAgree (lower : Lowercase) (roles : List Role) (claims : Claims) : Prop :=
  (SkipsRowFilter lower claims ↔ checkPermission claims .admin roles = true) ∧
    (SkipsMasks claims ↔ checkPermission claims .admin roles = true)

/-- The role of that name, and no other, has the permission of the administrator. -/
def RoleTable.OnlyAdmin (t : RoleTable) : Prop :=
  ∀ roleName, (∃ role, t.byName.lookup roleName = some role ∧ .admin ∈ role.permissions) ↔
    roleName = "admin".toList

section
variable {lower : Lowercase} {claims : Claims} {roles : List Role} {t : RoleTable}

theorem skipsRowFilter_iff : SkipsRowFilter lower claims ↔ "admin".toList ∈ claims.roles := by
  constructor
  · intro h
    by_contra hadmin
    have hskip := h ['t'] [⟨['t'], some ['x']⟩]
    have hlower : lower.text ['t'] = ['t'] := lower.text_ascii (by simp)
    have hname : (⟨['t'], some ['x']⟩ : TablePolicy).tableName = ['t'] := rfl
    have hresolve : resolve claims.username ['x'] = ['x'] := rfl
    rw [applyRowFilter, if_neg hadmin] at hskip
    simp only [List.foldlM_cons, List.foldlM_nil, applyPolicy, hname, hlower, injectFilter,
      hresolve] at hskip
    revert hskip
    decide
  · intro hadmin sql policies
    rw [applyRowFilter, if_pos hadmin]

theorem skipsMasks_iff : SkipsMasks claims ↔ "admin".toList ∈ claims.roles := by
  constructor
  · intro h
    by_contra hadmin
    have hskip := h [['c']] [⟨⟨['*'], none⟩, [['c']]⟩] ['t']
    rw [filterColumns, if_neg hadmin] at hskip
    revert hskip
    decide
  · intro hadmin columns policies table
    rw [filterColumns, if_pos hadmin]

/-- Whatever the order of the roles, a name is looked up in the table. -/
theorem find?_eq_lookup (h : roles.Perm t.values) (roleName : List Char) :
    roles.find? (·.name = roleName) = t.byName.lookup roleName := by
  have hmem : ∀ role, role ∈ roles ↔ t.byName.lookup role.name = some role := by
    intro role
    rw [h.mem_iff, RoleTable.values, List.mem_map]
    constructor
    · rintro ⟨⟨name, found⟩, hentry, rfl⟩
      have hlookup : t.byName.lookup name = some found := AList.mem_lookup_iff.mpr hentry
      rwa [t.named name found hlookup]
    · intro hlookup
      exact ⟨⟨role.name, role⟩, AList.mem_lookup_iff.mp hlookup, rfl⟩
  cases hfind : roles.find? (·.name = roleName) with
  | some role =>
    have hname : role.name = roleName := by simpa using List.find?_some hfind
    rw [← hname]
    exact ((hmem role).mp (List.mem_of_find?_eq_some hfind)).symm
  | none =>
    cases hlookup : t.byName.lookup roleName with
    | none => rfl
    | some role =>
      have hname := t.named roleName role hlookup
      have hrole : role ∈ roles := (hmem role).mpr (hname ▸ hlookup)
      have hnot := List.find?_eq_none.mp hfind role hrole
      simp [hname] at hnot

/-- The permission of the administrator is held through a role that the table gives it to. -/
theorem checkPermission_admin_iff (h : roles.Perm t.values) :
    checkPermission claims .admin roles = true ↔ ∃ roleName ∈ claims.roles,
      ∃ role, t.byName.lookup roleName = some role ∧ .admin ∈ role.permissions := by
  rw [checkPermission_iff]
  refine exists_congr fun roleName => and_congr_right fun _ => ?_
  rw [grants_admin_iff, find?_eq_lookup h]

theorem administratorsAgree_iff : AdministratorsAgree lower roles claims ↔
    ("admin".toList ∈ claims.roles ↔ checkPermission claims .admin roles = true) := by
  rw [AdministratorsAgree, skipsRowFilter_iff, skipsMasks_iff, and_self_iff]

theorem RoleTable.OnlyAdmin.agree (ht : t.OnlyAdmin) (h : roles.Perm t.values) :
    AdministratorsAgree lower roles claims := by
  rw [administratorsAgree_iff, checkPermission_admin_iff h]
  constructor
  · intro hadmin
    exact ⟨_, hadmin, (ht _).mpr rfl⟩
  · rintro ⟨roleName, hmem, hrole⟩
    rwa [(ht roleName).mp hrole] at hmem

/-- Someone with a single role tells the two notions apart. -/
theorem onlyAdmin_of_agree
    (h : ∀ roles, roles.Perm t.values → ∀ claims, AdministratorsAgree lower roles claims) :
    t.OnlyAdmin := by
  intro roleName
  have hone := administratorsAgree_iff.mp (h _ (List.Perm.refl _) ⟨[], [roleName]⟩)
  rw [checkPermission_admin_iff (List.Perm.refl _)] at hone
  simp only [List.mem_singleton, exists_eq_left] at hone
  rw [← hone, eq_comm]

/-- What the registration of one role keeps. -/
theorem RoleTable.OnlyAdmin.registerRole (role : Role) (ht : t.OnlyAdmin)
    (hrole : .admin ∈ role.permissions ↔ role.name = "admin".toList) :
    (t.registerRole role).OnlyAdmin := by
  intro roleName
  by_cases heq : roleName = role.name
  · rw [heq, ← hrole]
    simp [RoleTable.registerRole, AList.lookup_insert]
  · have hlookup : (t.registerRole role).byName.lookup roleName = t.byName.lookup roleName :=
      AList.lookup_insert_ne heq
    rw [hlookup]
    exact ht roleName

theorem onlyAdmin_default : defaultRoles.OnlyAdmin := by
  have hadmin : (RoleTable.empty.registerRole adminRole).OnlyAdmin := by
    intro roleName
    by_cases heq : roleName = adminRole.name
    · rw [heq]
      simp [RoleTable.registerRole, AList.lookup_insert, adminRole]
    · have hlookup : (RoleTable.empty.registerRole adminRole).byName.lookup roleName = none :=
        AList.lookup_insert_ne heq
      constructor
      · rintro ⟨role, hrole, -⟩
        rw [hlookup] at hrole
        cases hrole
      · intro hname
        exact absurd hname heq
  have hanalyst := hadmin.registerRole analystRole (by decide)
  have hengineer := hanalyst.registerRole engineerRole (by decide)
  exact hengineer.registerRole viewerRole (by decide)

theorem onlyAdmin_registered {role : Role} (h : (t.registerRole role).OnlyAdmin) :
    .admin ∈ role.permissions ↔ role.name = "admin".toList := by
  rw [← h role.name]
  simp [RoleTable.registerRole, AList.lookup_insert]

theorem onlyAdmin_rolesAfter {registered : List Role}
    (h : ∀ role ∈ registered, .admin ∈ role.permissions ↔ role.name = "admin".toList) :
    (rolesAfter registered).OnlyAdmin := by
  induction registered using List.reverseRecOn with
  | nil => exact onlyAdmin_default
  | append_singleton before role ih =>
    have hbefore := ih fun r hr => h r (List.mem_append_left _ hr)
    have hstep : rolesAfter (before ++ [role]) = (rolesAfter before).registerRole role := by
      simp [rolesAfter]
    rw [hstep]
    exact hbefore.registerRole role (h role (List.mem_append_right _ List.mem_cons_self))

/-- Over a run of registrations the two notions stay one just when every role registered has the
permission of the administrator or another name; in one state they are one just when the table
gives that permission to the role of that name alone. -/
theorem administrators_agree_iff (lower : Lowercase) (registered : List Role) :
    ((∀ roles, roles.Perm (rolesAfter registered).values →
        ∀ claims, AdministratorsAgree lower roles claims) ↔ (rolesAfter registered).OnlyAdmin) ∧
    ((∀ before, before <+: registered → ∀ roles, roles.Perm (rolesAfter before).values →
        ∀ claims, AdministratorsAgree lower roles claims) ↔
      ∀ role ∈ registered, .admin ∈ role.permissions ↔ role.name = "admin".toList) := by
  constructor
  · constructor
    · exact onlyAdmin_of_agree
    · intro h roles hroles claims
      exact h.agree hroles
  · constructor
    · intro h role hrole
      obtain ⟨before, after, rfl⟩ := List.append_of_mem hrole
      have hstate := onlyAdmin_of_agree (h (before ++ [role]) ⟨after, by simp⟩)
      have hstep : rolesAfter (before ++ [role]) = (rolesAfter before).registerRole role := by
        simp [rolesAfter]
      rw [hstep] at hstate
      exact onlyAdmin_registered hstate
    · intro h before hbefore roles hroles claims
      have hall : (rolesAfter before).OnlyAdmin :=
        onlyAdmin_rolesAfter fun role hrole => h role (hbefore.subset hrole)
      exact hall.agree hroles

end

/-- Someone with a role that has the permission of the administrator, under another name. -/
def superuserRole : Role := ⟨"superuser".toList, [.admin]⟩

def superuser : Claims := ⟨"root".toList, ["superuser".toList]⟩

/-- The policies are applied to a superuser, and not to someone whose role "admin" permits nothing
any more. -/
theorem superuser_filtered :
    checkPermission superuser .admin (rolesAfter [superuserRole]).values = true ∧
    filterColumns ["id".toList, "ssn".toList] [⟨⟨['*'], none⟩, ["ssn".toList]⟩] ['t'] superuser =
      ["id".toList] ∧
    ¬ AdministratorsAgree asciiLowercase (rolesAfter [superuserRole]).values superuser ∧
    ¬ AdministratorsAgree asciiLowercase (rolesAfter [⟨"admin".toList, []⟩]).values
      ⟨"root".toList, ["admin".toList]⟩ := by
  have hgranted : checkPermission superuser .admin (rolesAfter [superuserRole]).values = true := by
    decide
  have hdenied : checkPermission ⟨"root".toList, ["admin".toList]⟩ .admin
      (rolesAfter [⟨"admin".toList, []⟩]).values = false := by decide
  refine ⟨hgranted, by decide, ?_, ?_⟩
  · intro hagree
    have hname := (administratorsAgree_iff.mp hagree).mpr hgranted
    revert hname
    decide
  · intro hagree
    have hcheck := (administratorsAgree_iff.mp hagree).mp List.mem_cons_self
    rw [hdenied] at hcheck
    cases hcheck

end RustLake.Auth
