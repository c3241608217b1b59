import Mathlib.Data.List.AList
import Mathlib.Data.List.Induction
import Mathlib.Data.List.Sort
import Mathlib.Data.String.Basic

/-! The S3 configurations: a list in memory, a table of the state database by their names, and the
credentials of their buckets in a file. What a restart makes of the table and the file. -/
namespace RustLake.Persistence

structure S3Config where
  name : String
  endpoint : String
  accessKey : String
  secretKey : String
  bucket : String
  region : String
deriving DecidableEq

/-- A row of the table `s3_configs`, behind its key. -/
structure S3Location where
  endpoint : String
  bucket : String
  region : String
deriving DecidableEq

structure S3BucketCreds where
  accessKey : String
  secretKey : String
  region : String
deriving DecidableEq

abbrev S3Table := AList fun _ : String => S3Location

abbrev S3CredStore := AList fun _ : String => S3BucketCreds

structure S3State where
  configs : List S3Config
  table : S3Table
  creds : S3CredStore

def S3Config.location (c : S3Config) : S3Location := ⟨c.endpoint, c.bucket, c.region⟩

def S3Config.credentials (c : S3Config) : S3BucketCreds := ⟨c.accessKey, c.secretKey, c.region⟩

/-- The name of a configuration and where it points to. -/
def S3Config.row (c : S3Config) : String × S3Location := (c.name, c.location)

/-- A request; the flag says whether the credentials could be written. -/
inductive S3Request where
  | add (req : S3Config) (credsStored : Bool)
  | update (name : String) (req : S3Config) (credsStored : Bool)
  | importConfigs (reqs : List S3Config)
  | delete (name : String)

def upsertS3Config (req : S3Config) (table : S3Table) : S3Table :=
  table.insert req.name req.location

/-- A failure is only logged. -/
def storeS3Creds (req : S3Config) (credsStored : Bool) (creds : S3CredStore) : S3CredStore :=
  if credsStored then creds.insert req.bucket req.credentials else creds

def addS3Config (req : S3Config) (credsStored : Bool) (s : S3State) : S3State where
  configs := s.configs ++ [req]
  table := upsertS3Config req s.table
  creds := storeS3Creds req credsStored s.creds

/-- The loop of `import_connections` over the S3 configurations. -/
def importS3Configs (reqs : List S3Config) (s : S3State) : S3State :=
  { s with configs := s.configs ++ reqs }

def s3NotFound (name : String) : String := "S3 config '" ++ name ++ "' not found"

def deleteS3Config (name : String) (s : S3State) : Except String S3State :=
  let configs := s.configs.filter (·.name ≠ name)
  if configs.length = s.configs.length then .error (s3NotFound name)
  else .ok { s with configs := configs }

/-- The first configuration of a name takes the fields of a request. -/
def replaceFirst (name : String) (req : S3Config) : List S3Config → List S3Config
  | [] => []
  | c :: rest => if c.name = name then req :: rest else c :: replaceFirst name req rest

def updateS3Config (name : String) (req : S3Config) (credsStored : Bool) (s : S3State) :
    Except String S3State :=
  if (s.configs.find? (·.name = name)).isNone then .error (s3NotFound name)
  else .ok
    { configs := replaceFirst name req s.configs
      table := upsertS3Config req s.table
      creds := storeS3Creds req credsStored s.creds }

def S3Request.handle (s : S3State) : S3Request → Except String S3State
  | .add req credsStored => .ok (addS3Config req credsStored s)
  | .update name req credsStored => updateS3Config name req credsStored s
  | .importConfigs reqs => .ok (importS3Configs reqs s)
  | .delete name => deleteS3Config name s

/-- A request that fails leaves everything as it is. -/
def S3Request.apply (s : S3State) (request : S3Request) : S3State :=
  match request.handle s with
  | .ok s' => s'
  | .error _ => s

/-- The rows, by their names. -/
def loadS3Configs (table : S3Table) : List (String × S3Location) :=
  (table.entries.map fun entry => (entry.1, entry.2)).insertionSort fun a b => a.1 ≤ b.1

/-- A configuration as it is restored, with the credentials of its bucket. -/
def restoreConfig (creds : S3CredStore) (row : String × S3Location) : S3Config :=
  let found := creds.lookup row.2.bucket
  { name := row.1
    endpoint := row.2.endpoint
    accessKey := (found.map (·.accessKey)).getD ""
    secretKey := (found.map (·.secretKey)).getD ""
    bucket := row.2.bucket
    region := row.2.region }

/-- The state after the start, before any request. -/
def startS3 (table : S3Table) (creds : S3CredStore) : S3State where
  configs := (loadS3Configs table).map (restoreConfig creds)
  table := table
  creds := creds

def S3State.restart (s : S3State) : S3State := startS3 s.table s.creds

/-- A restart brings back the configurations that were there, and no others. -/
def S3State.Durable (s : S3State) : Prop :=
  (s.restart.configs.map S3Config.row).Perm (s.configs.map S3Config.row)

/-- The requests that the database keeps up with. -/
def S3Request.Kept (s : S3State) : S3Request → Prop
  | .add req _ => ∀ c ∈ s.configs, c.name ≠ req.name
  | .update name req _ => (∃ c ∈ s.configs, c.name = name) → req.name = name
  | .importConfigs reqs => reqs = []
  | .delete name => ∀ c ∈ s.configs, c.name ≠ name

section
variable {s : S3State}

@[simp] theorem restoreConfig_row (creds : S3CredStore) (row : String × S3Location) :
    (restoreConfig creds row).row = row := rfl

theorem restart_rows : s.restart.configs.map S3Config.row = loadS3Configs s.table := by
  have hrow : S3Config.row ∘ restoreConfig s.creds = id := by
    funext row
    exact restoreConfig_row s.creds row
  rw [S3State.restart, startS3, List.map_map, hrow, List.map_id]

theorem loadS3Configs_perm (table : S3Table) :
    (loadS3Configs table).Perm (table.entries.map fun entry => (entry.1, entry.2)) :=
  List.perm_insertionSort _ _

theorem mem_loadS3Configs {table : S3Table} {name : String} {location : S3Location} :
    (name, location) ∈ loadS3Configs table ↔ table.lookup name = some location := by
  rw [(loadS3Configs_perm table).mem_iff, List.mem_map]
  constructor
  · rintro ⟨⟨key, value⟩, hentry, heq⟩
    obtain ⟨rfl, rfl⟩ := Prod.mk.inj heq
    exact AList.mem_lookup_iff.mpr hentry
  · intro hlookup
    exact ⟨⟨name, location⟩, AList.mem_lookup_iff.mp hlookup, rfl⟩

theorem nodup_loadS3Configs (table : S3Table) : ((loadS3Configs table).map Prod.fst).Nodup := by
  have hkeys : (table.entries.map fun entry => (entry.1, entry.2)).map Prod.fst = table.keys := by
    rw [List.map_map]
    rfl
  rw [((loadS3Configs_perm table).map Prod.fst).nodup_iff, hkeys]
  exact table.keys_nodup

/-- The table and the list hold the same, each name once. -/
structure S3State.Matches (s : S3State) : Prop where
  nodup : (s.configs.map (·.name)).Nodup
  rows : ∀ name location, s.table.lookup name = some location ↔
    ∃ c ∈ s.configs, c.row = (name, location)

theorem durable_iff : s.Durable ↔ s.Matches := by
  have hnames : (s.configs.map S3Config.row).map Prod.fst = s.configs.map (·.name) := by
    rw [List.map_map]
    rfl
  rw [S3State.Durable, restart_rows]
  constructor
  · intro hperm
    refine ⟨?_, ?_⟩
    · rw [← hnames]
      exact (hperm.map Prod.fst).nodup_iff.mp (nodup_loadS3Configs s.table)
    · intro name location
      rw [← mem_loadS3Configs, hperm.mem_iff, List.mem_map]
  · intro hmatches
    have hload : (loadS3Configs s.table).Nodup := (nodup_loadS3Configs s.table).of_map
    have hlist : (s.configs.map S3Config.row).Nodup := by
      have hnodup := hmatches.nodup
      rw [← hnames] at hnodup
      exact hnodup.of_map
    apply (List.perm_ext_iff_of_nodup hload hlist).mpr
    rintro ⟨name, location⟩
    rw [mem_loadS3Configs, hmatches.rows, List.mem_map]

theorem S3Config.row_eq_iff {c : S3Config} {name : String} {location : S3Location} :
    c.row = (name, location) ↔ c.name = name ∧ c.location = location := Prod.mk_inj

/-- Every configuration has its row. -/
theorem S3State.Matches.lookup (h : s.Matches) {c : S3Config} (hc : c ∈ s.configs) :
    s.table.lookup c.name = some c.location := (h.rows _ _).mpr ⟨c, hc, rfl⟩

theorem matches_add_iff (h : s.Matches) (req : S3Config) (credsStored : Bool) :
    (addS3Config req credsStored s).Matches ↔ ∀ c ∈ s.configs, c.name ≠ req.name := by
  constructor
  · intro hadded c hc heq
    have hnodup := hadded.nodup
    simp only [addS3Config, List.map_append, List.map_cons, List.map_nil] at hnodup
    exact (List.nodup_append.mp hnodup).2.2 c.name (List.mem_map_of_mem hc) req.name
      List.mem_cons_self heq
  · intro hfresh
    refine ⟨?_, ?_⟩
    · simp only [addS3Config, List.map_append, List.map_cons, List.map_nil, List.nodup_append]
      refine ⟨h.nodup, by simp, ?_⟩
      intro name hname new hnew
      obtain ⟨c, hc, rfl⟩ := List.mem_map.mp hname
      rw [List.mem_singleton.mp hnew]
      exact hfresh c hc
    · intro name location
      simp only [addS3Config, upsertS3Config, List.mem_append, List.mem_singleton]
      by_cases hname : name = req.name
      · rw [hname, AList.lookup_insert]
        constructor
        · intro hlocation
          exact ⟨req, Or.inr rfl, by rw [S3Config.row, Option.some.inj hlocation]⟩
        · rintro ⟨c, hc | rfl, hrow⟩
          · exact absurd (S3Config.row_eq_iff.mp hrow).1 (hfresh c hc)
          · rw [(S3Config.row_eq_iff.mp hrow).2]
      · rw [AList.lookup_insert_ne hname, h.rows]
        constructor
        · rintro ⟨c, hc, hrow⟩
          exact ⟨c, Or.inl hc, hrow⟩
        · rintro ⟨c, hc | rfl, hrow⟩
          · exact ⟨c, hc, hrow⟩
          · exact absurd (S3Config.row_eq_iff.mp hrow).1.symm hname

/-- A list with distinct names, after the configuration of one name has been replaced. -/
theorem mem_replaceFirst {configs : List S3Config} (hnodup : (configs.map (·.name)).Nodup)
    {old req : S3Config} (hold : old ∈ configs) {c : S3Config} :
    c ∈ replaceFirst old.name req configs ↔ c = req ∨ c ∈ configs ∧ c.name ≠ old.name := by
  induction configs with
  | nil => cases hold
  | cons first rest ih =>
    rw [List.map_cons, List.nodup_cons] at hnodup
    obtain ⟨hfirst, hrest⟩ := hnodup
    rw [replaceFirst]
    by_cases hname : first.name = old.name
    · have hothers : ∀ c ∈ rest, c.name ≠ old.name := by
        intro c hc heq
        exact hfirst (List.mem_map.mpr ⟨c, hc, heq.trans hname.symm⟩)
      rw [if_pos hname, List.mem_cons, List.mem_cons]
      constructor
      · rintro (rfl | hc)
        · exact Or.inl rfl
        · exact Or.inr ⟨Or.inr hc, hothers c hc⟩
      · rintro (rfl | ⟨rfl | hc, hne⟩)
        · exact Or.inl rfl
        · exact absurd hname hne
        · exact Or.inr hc
    · have hmem : old ∈ rest := by
        rcases List.mem_cons.mp hold with rfl | hmem
        · exact absurd rfl hname
        · exact hmem
      rw [if_neg hname, List.mem_cons, ih hrest hmem, List.mem_cons]
      constructor
      · rintro (rfl | rfl | ⟨hc, hne⟩)
        · exact Or.inr ⟨Or.inl rfl, hname⟩
        · exact Or.inl rfl
        · exact Or.inr ⟨Or.inr hc, hne⟩
      · rintro (rfl | ⟨rfl | hc, hne⟩)
        · exact Or.inr (Or.inl rfl)
        · exact Or.inl rfl
        · exact Or.inr (Or.inr ⟨hc, hne⟩)

theorem map_name_replaceFirst {req : S3Config} (configs : List S3Config) :
    (replaceFirst req.name req configs).map (·.name) = configs.map (·.name) := by
  induction configs with
  | nil => rfl
  | cons first rest ih =>
    rw [replaceFirst]
    split_ifs with hname
    · rw [List.map_cons, List.map_cons, hname]
    · rw [List.map_cons, List.map_cons, ih]

/-- An update keeps the two the same unless it renames. -/
theorem matches_update_iff (h : s.Matches) {old req : S3Config} (hold : old ∈ s.configs)
    (creds : S3CredStore) :
    (⟨replaceFirst old.name req s.configs, upsertS3Config req s.table, creds⟩ : S3State).Matches ↔
      req.name = old.name := by
  constructor
  · intro hupdated
    by_contra hne
    have hlookup : (upsertS3Config req s.table).lookup old.name = some old.location := by
      rw [upsertS3Config, AList.lookup_insert_ne (Ne.symm hne)]
      exact h.lookup hold
    obtain ⟨c, hc, hrow⟩ := (hupdated.rows _ _).mp hlookup
    have hname := (S3Config.row_eq_iff.mp hrow).1
    rcases (mem_replaceFirst h.nodup hold).mp hc with rfl | ⟨-, hother⟩
    · exact hne hname
    · exact hother hname
  · intro hname
    refine ⟨?_, ?_⟩
    · dsimp only
      rw [← hname, map_name_replaceFirst]
      exact h.nodup
    · intro name location
      simp only [mem_replaceFirst h.nodup hold, upsertS3Config]
      by_cases heq : name = req.name
      · rw [heq, AList.lookup_insert]
        constructor
        · intro hlocation
          exact ⟨req, Or.inl rfl, by rw [S3Config.row, Option.some.inj hlocation]⟩
        · rintro ⟨c, rfl | ⟨-, hne⟩, hrow⟩
          · rw [(S3Config.row_eq_iff.mp hrow).2]
          · exact absurd ((S3Config.row_eq_iff.mp hrow).1.trans hname) hne
      · rw [AList.lookup_insert_ne heq, h.rows]
        constructor
        · rintro ⟨c, hc, hrow⟩
          have hne : c.name ≠ old.name := by
            rw [(S3Config.row_eq_iff.mp hrow).1, ← hname]
            exact heq
          exact ⟨c, Or.inr ⟨hc, hne⟩, hrow⟩
        · rintro ⟨c, rfl | ⟨hc, -⟩, hrow⟩
          · exact absurd (S3Config.row_eq_iff.mp hrow).1.symm heq
          · exact ⟨c, hc, hrow⟩

/-- Nothing is written when configurations are imported. -/
theorem matches_import_iff (h : s.Matches) (reqs : List S3Config) :
    (importS3Configs reqs s).Matches ↔ reqs = [] := by
  constructor
  · intro himported
    apply List.eq_nil_iff_forall_not_mem.mpr
    intro req hreq
    have hlookup : s.table.lookup req.name = some req.location :=
      himported.lookup (List.mem_append_right s.configs hreq)
    obtain ⟨c, hc, hrow⟩ := (h.rows _ _).mp hlookup
    have hnodup : ((s.configs ++ reqs).map (·.name)).Nodup := himported.nodup
    rw [List.map_append, List.nodup_append] at hnodup
    have hne : c.name ≠ req.name :=
      hnodup.2.2 c.name (List.mem_map_of_mem hc) req.name (List.mem_map_of_mem hreq)
    exact hne (S3Config.row_eq_iff.mp hrow).1
  · intro hnil
    have hsame : importS3Configs reqs s = s := by
      simp only [importS3Configs, hnil, List.append_nil]
    rw [hsame]
    exact h

/-- Nor when one is deleted. -/
theorem matches_delete_iff (h : s.Matches) (name : String) :
    ({ s with configs := s.configs.filter (·.name ≠ name) } : S3State).Matches ↔
      ∀ c ∈ s.configs, c.name ≠ name := by
  constructor
  · intro hdeleted c hc heq
    obtain ⟨kept, hkept, hrow⟩ := (hdeleted.rows _ _).mp (h.lookup hc)
    have hne : kept.name ≠ name := by
      have hmem : kept ∈ s.configs.filter (·.name ≠ name) := hkept
      simpa using (List.mem_filter.mp hmem).2
    exact hne ((S3Config.row_eq_iff.mp hrow).1.trans heq)
  · intro hnone
    have hsame : s.configs.filter (·.name ≠ name) = s.configs := by
      apply List.filter_eq_self.mpr
      intro c hc
      simpa using hnone c hc
    rw [hsame]
    exact h

/-- What one request keeps, and when. -/
theorem matches_apply_iff (h : s.Matches) (request : S3Request) :
    (request.apply s).Matches ↔ request.Kept s := by
  cases request with
  | add req credsStored => exact matches_add_iff h req credsStored
  | update name req credsStored =>
    by_cases hexists : ∃ c ∈ s.configs, c.name = name
    · obtain ⟨old, hold, rfl⟩ := hexists
      have hfound : ¬ (s.configs.find? (·.name = old.name)).isNone := by
        rw [Option.isNone_iff_eq_none, List.find?_eq_none]
        intro hnone
        exact hnone old hold (by simp)
      have happly : (S3Request.update old.name req credsStored).apply s =
          ⟨replaceFirst old.name req s.configs, upsertS3Config req s.table,
            storeS3Creds req credsStored s.creds⟩ := by
        rw [S3Request.apply, S3Request.handle, updateS3Config, if_neg hfound]
      rw [happly, matches_update_iff h hold]
      constructor
      · intro hname _
        exact hname
      · intro hkept
        exact hkept ⟨old, hold, rfl⟩
    · have hnone : (s.configs.find? (·.name = name)).isNone := by
        rw [Option.isNone_iff_eq_none, List.find?_eq_none]
        intro c hc heq
        exact hexists ⟨c, hc, by simpa using heq⟩
      have happly : (S3Request.update name req credsStored).apply s = s := by
        rw [S3Request.apply, S3Request.handle, updateS3Config, if_pos hnone]
      rw [happly]
      apply iff_of_true h
      intro hfound
      exact absurd hfound hexists
  | importConfigs reqs => exact matches_import_iff h reqs
  | delete name =>
    rw [S3Request.apply, S3Request.handle, deleteS3Config]
    split_ifs with hsame
    · apply iff_of_true h
      intro c hc
      have hall := List.length_filter_eq_length_iff.mp hsame c hc
      simpa using hall
    · exact matches_delete_iff h name

/-- After a start the list is what the table holds. -/
theorem matches_start (table : S3Table) (creds : S3CredStore) : (startS3 table creds).Matches := by
  apply durable_iff.mp
  exact List.Perm.refl _

end

/-- The state after a start and some requests. -/
def s3StateAfter (table : S3Table) (creds : S3CredStore) (requests : List S3Request) : S3State :=
  requests.foldl S3Request.apply (startS3 table creds)

theorem s3StateAfter_append (table : S3Table) (creds : S3CredStore) (before : List S3Request)
    (request : S3Request) :
    s3StateAfter table creds (before ++ [request]) =
      request.apply (s3StateAfter table creds before) := by
  rw [s3StateAfter, List.foldl_append]
  rfl

/-- A restart at any time brings back the configurations just when every one is added under a new
name, none is renamed, none is imported and none is deleted. -/
theorem durable_run_iff (table : S3Table) (creds : S3CredStore) (requests : List S3Request) :
    (∀ before, before <+: requests → (s3StateAfter table creds before).Durable) ↔
    ∀ before request, before ++ [request] <+: requests →
      request.Kept (s3StateAfter table creds before) := by
  constructor
  · intro h before request hbegins
    have hbefore := durable_iff.mp (h before ((List.prefix_append _ _).trans hbegins))
    have hafter := durable_iff.mp (h _ hbegins)
    rw [s3StateAfter_append] at hafter
    exact (matches_apply_iff hbefore request).mp hafter
  · intro h before hbegins
    rw [durable_iff]
    induction before using List.reverseRecOn with
    | nil => exact matches_start table creds
    | append_singleton before request ih =>
      rw [s3StateAfter_append]
      have hbefore := ih ((List.prefix_append _ _).trans hbegins)
      exact (matches_apply_iff hbefore request).mpr (h before request hbegins)

def lakeConfig (name : String) : S3Config :=
  ⟨name, "http://minio:9000", "minio", "minio123", "lake", "us-east-1"⟩

/-- A configuration that is deleted comes back with its credentials, one that is imported is gone,
and one that is renamed is there under both names. -/
theorem deleted_comes_back :
    (s3StateAfter ∅ ∅ [.add (lakeConfig "prod") true, .delete "prod"]).configs = [] ∧
    (s3StateAfter ∅ ∅ [.add (lakeConfig "prod") true, .delete "prod"]).restart.configs =
      [lakeConfig "prod"] ∧
    (s3StateAfter ∅ ∅ [.importConfigs [lakeConfig "prod"]]).configs = [lakeConfig "prod"] ∧
    (s3StateAfter ∅ ∅ [.importConfigs [lakeConfig "prod"]]).restart.configs = [] ∧
    (s3StateAfter ∅ ∅ [.add (lakeConfig "prod") true,
      .update "prod" (lakeConfig "live") true]).configs = [lakeConfig "live"] ∧
    (s3StateAfter ∅ ∅ [.add (lakeConfig "prod") true,
      .update "prod" (lakeConfig "live") true]).restart.configs =
        [lakeConfig "live", lakeConfig "prod"] ∧
    ¬ (s3StateAfter ∅ ∅ [.add (lakeConfig "prod") true, .delete "prod"]).Durable := by
  refine ⟨by decide, by decide, by decide, by decide, by decide, by decide, ?_⟩
  intro hdurable
  have hlength := hdurable.length_eq
  revert hlength
  decide

end RustLake.Persistence
