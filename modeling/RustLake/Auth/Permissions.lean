import RustLake.Auth.RowFilter
import Mathlib.Data.List.AList

/-! Roles and what they permit. -/
namespace RustLake.Auth

inductive Permission where
  | readTable (pattern : List Char)
  | writeTable (pattern : List Char)
  | executeSql
  | managePipelines
  | manageConnections
  | admin
deriving DecidableEq

structure Role where
  name : List Char
  permissions : List Permission
deriving DecidableEq

/-- What follows the first occurrence of a part. -/
def afterPart? (part : List Char) : List Char → Option (List Char)
  | [] => if part = [] then some [] else none
  | c :: s => if part <+: c :: s then some ((c :: s).drop part.length) else afterPart? part s

/-- The loop over the parts of a pattern, from a place on; the last part has the place `last`. -/
def matchParts (last : ℕ) : ℕ → List (List Char) → List Char → Bool
  | _, [], _ => true
  | i, part :: parts, remaining =>
    if part = [] then matchParts last (i + 1) parts remaining
    else if i = 0 then
      decide (part <+: remaining) && matchParts last (i + 1) parts (remaining.drop part.length)
    else if i = last then decide (part <:+ remaining) && matchParts last (i + 1) parts []
    else match afterPart? part remaining with
      | some rest => matchParts last (i + 1) parts rest
      | none => false

/-- Whether a table name has the form of a pattern, in which `*` stands for any characters. -/
def patternMatches (pattern table : List Char) : Bool :=
  if pattern = ['*'] then true
  else
    let parts := pattern.splitOn '*'
    if parts.length = 1 then decide (pattern = table)
    else matchParts (parts.length - 1) 0 parts table

/-- The permissions of the roles that a user has. -/
def userPermissions (claims : Claims) (roles : List Role) : List Permission :=
  (claims.roles.filterMap fun roleName => roles.find? (·.name = roleName)).flatMap (·.permissions)

def checkPermission (claims : Claims) (required : Permission) (roles : List Role) : Bool :=
  let userPermissions := userPermissions claims roles
  if .admin ∈ userPermissions then true
  else match required with
    | .readTable table => userPermissions.any fun
      | .readTable pattern => patternMatches pattern table
      | .admin => true
      | _ => false
    | .writeTable table => userPermissions.any fun
      | .writeTable pattern => patternMatches pattern table
      | .admin => true
      | _ => false
    | .executeSql => decide (.executeSql ∈ userPermissions)
    | .managePipelines => decide (.managePipelines ∈ userPermissions)
    | .manageConnections => decide (.manageConnections ∈ userPermissions)
    | .admin => false

/-- A policy with the columns that it masks. -/
structure MaskingPolicy extends TablePolicy where
  columnMask : List (List Char)
deriving DecidableEq

def filterColumns (columns : List (List Char)) (policies : List MaskingPolicy) (table : List Char)
    (claims : Claims) : List (List Char) :=
  if "admin".toList ∈ claims.roles then columns
  else
    let masked := (policies.filter fun p => patternMatches p.tablePattern table).flatMap (·.columnMask)
    columns.filter (· ∉ masked)

/-- One permission is enough for what is required. -/
def Permission.Grants : Permission → Permission → Prop
  | .admin, _ => True
  | .readTable pattern, .readTable table => patternMatches pattern table = true
  | .writeTable pattern, .writeTable table => patternMatches pattern table = true
  | .executeSql, .executeSql => True
  | .managePipelines, .managePipelines => True
  | .manageConnections, .manageConnections => True
  | _, _ => False

/-- A name stands for the first role that has it. -/
def Grants (roles : List Role) (roleName : List Char) (required : Permission) : Prop :=
  ∃ role, roles.find? (·.name = roleName) = some role ∧ ∃ p ∈ role.permissions, p.Grants required

section
variable {claims : Claims} {roles : List Role} {required : Permission}

theorem mem_userPermissions {p : Permission} : p ∈ userPermissions claims roles ↔
    ∃ roleName ∈ claims.roles, ∃ role, roles.find? (·.name = roleName) = some role ∧
      p ∈ role.permissions := by
  simp only [userPermissions, List.mem_flatMap, List.mem_filterMap]
  constructor
  · rintro ⟨role, ⟨roleName, hname, hfind⟩, hp⟩
    exact ⟨roleName, hname, role, hfind, hp⟩
  · rintro ⟨roleName, hname, role, hfind, hp⟩
    exact ⟨role, ⟨roleName, hname, hfind⟩, hp⟩

/-- Without the administrator's permission, one that nothing else includes has to be held. -/
theorem decide_mem_iff {permissions : List Permission} {required : Permission}
    (hadmin : .admin ∉ permissions) (h : ∀ p : Permission, p.Grants required ↔ p = .admin ∨ p = required) :
    decide (required ∈ permissions) = true ↔ ∃ p ∈ permissions, p.Grants required := by
  rw [decide_eq_true_eq]
  constructor
  · intro hmem
    exact ⟨required, hmem, (h required).mpr (Or.inr rfl)⟩
  · rintro ⟨p, hp, hgrants⟩
    rcases (h p).mp hgrants with rfl | rfl
    · exact absurd hp hadmin
    · exact hp

/-- Some permission of the user is enough. -/
theorem checkPermission_eq_true_iff : checkPermission claims required roles = true ↔
    ∃ p ∈ userPermissions claims roles, p.Grants required := by
  have hgrants : ∀ p : Permission, p = .admin → p.Grants required := by
    rintro p rfl
    trivial
  unfold checkPermission
  by_cases hadmin : .admin ∈ userPermissions claims roles
  · simp only [hadmin, if_true, true_iff]
    exact ⟨.admin, hadmin, hgrants .admin rfl⟩
  · simp only [hadmin, if_false]
    cases required with
    | readTable table =>
      rw [List.any_eq_true]
      refine exists_congr fun p => and_congr_right fun hp => ?_
      cases p <;> simp [Permission.Grants]
    | writeTable table =>
      rw [List.any_eq_true]
      refine exists_congr fun p => and_congr_right fun hp => ?_
      cases p <;> simp [Permission.Grants]
    | executeSql => exact decide_mem_iff hadmin (by intro p; cases p <;> simp [Permission.Grants])
    | managePipelines =>
      exact decide_mem_iff hadmin (by intro p; cases p <;> simp [Permission.Grants])
    | manageConnections =>
      exact decide_mem_iff hadmin (by intro p; cases p <;> simp [Permission.Grants])
    | admin =>
      constructor
      · intro hfalse
        cases hfalse
      · rintro ⟨p, hp, hgrants⟩
        cases p <;> first | exact absurd hp hadmin | cases hgrants

/-- Every role of a user counts by itself. -/
theorem checkPermission_iff : checkPermission claims required roles = true ↔
    ∃ roleName ∈ claims.roles, Grants roles roleName required := by
  rw [checkPermission_eq_true_iff]
  constructor
  · rintro ⟨p, hp, hgrants⟩
    obtain ⟨roleName, hname, role, hfind, hp⟩ := mem_userPermissions.mp hp
    exact ⟨roleName, hname, role, hfind, p, hp, hgrants⟩
  · rintro ⟨roleName, hname, role, hfind, p, hp, hgrants⟩
    exact ⟨p, mem_userPermissions.mpr ⟨roleName, hname, role, hfind, hp⟩, hgrants⟩

/-- More roles never permit less. -/
theorem checkPermission_mono {claims' : Claims} (h : claims.roles ⊆ claims'.roles)
    (hcheck : checkPermission claims required roles = true) :
    checkPermission claims' required roles = true := by
  obtain ⟨roleName, hname, hgrants⟩ := checkPermission_iff.mp hcheck
  exact checkPermission_iff.mpr ⟨roleName, h hname, hgrants⟩

/-- The definition of a role with a new name changes no other role. -/
theorem Grants.define {before after : List Role} {role : Role} {roleName : List Char}
    (hfresh : ∀ r ∈ before ++ after, r.name ≠ role.name)
    (h : Grants (before ++ after) roleName required) :
    Grants (before ++ role :: after) roleName required := by
  obtain ⟨found, hfind, hgrants⟩ := h
  have hname : found.name = roleName := by simpa using List.find?_some hfind
  have hne : role.name ≠ roleName := by
    intro heq
    exact hfresh found (List.mem_of_find?_eq_some hfind) (hname.trans heq.symm)
  refine ⟨found, ?_, hgrants⟩
  rw [List.find?_append] at hfind ⊢
  simpa [List.find?_cons, hne] using hfind

/-- The permissions of the administrator are those that grant everything. -/
theorem grants_admin_iff {roleName : List Char} : Grants roles roleName .admin ↔
    ∃ role, roles.find? (·.name = roleName) = some role ∧ .admin ∈ role.permissions := by
  refine exists_congr fun role => and_congr_right fun _ => ?_
  constructor
  · rintro ⟨p, hp, hgrants⟩
    cases p <;> first | exact hp | cases hgrants
  · intro hp
    exact ⟨.admin, hp, trivial⟩

end
end RustLake.Auth
