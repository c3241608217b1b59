import RustLake.Persistence.S3Configs
import RustLake.Sink.Restarts

/-! Whose credentials a sink and a registered table get: the configurations are searched for one whose
bucket occurs in the URI. -/
namespace RustLake.Sink
open Persistence Timeline

structure ParquetSinkConfig extends SinkTarget where
  endpoint : Option String
  accessKey : String
  secretKey : String
  region : String

/-- The bucket of the configuration occurs in the URI. -/
def OccursIn (uri : String) (c : S3Config) : Prop := c.bucket.toList <:+: uri.toList

instance (uri : String) : DecidablePred (OccursIn uri) := fun c =>
  inferInstanceAs (Decidable (c.bucket.toList <:+: uri.toList))

/-- A sink table is on S3, by its scheme. -/
def IsS3Path (sinkTable : String) : Prop :=
  "s3://".toList <+: sinkTable.toList ∨ "s3a://".toList <+: sinkTable.toList

instance : DecidablePred IsS3Path := fun sinkTable =>
  inferInstanceAs (Decidable ("s3://".toList <+: sinkTable.toList ∨ _))

/-- `start_pipeline`: the configuration for the sink. -/
def matchingConfig (s3Configs : List S3Config) (sinkTable : String) : Option S3Config :=
  if IsS3Path sinkTable then s3Configs.find? fun c => OccursIn sinkTable c else none

/-- `start_pipeline`: what the sink is made with. Its bucket is the URI's, and all else is the
configuration's. -/
def sinkConfig (s3Configs : List S3Config) (sinkTable : String) : Option ParquetSinkConfig := do
  let cfg ← matchingConfig s3Configs sinkTable
  let target ← (SinkTarget.fromS3Uri sinkTable).toOption
  return { target with
    endpoint := some cfg.endpoint
    accessKey := cfg.accessKey
    secretKey := cfg.secretKey
    region := cfg.region }

/-- A request to register a table, with the empty text for a field that is missing or no text. -/
structure RegisterRequest where
  tableName : String
  s3Uri : String
  s3ConfigName : String

def RegisterRequest.Admits (req : RegisterRequest) (c : S3Config) : Prop :=
  c.name = req.s3ConfigName ∨ OccursIn req.s3Uri c

instance (req : RegisterRequest) : DecidablePred req.Admits := fun c =>
  inferInstanceAs (Decidable (c.name = req.s3ConfigName ∨ OccursIn req.s3Uri c))

/-- Configurations with a secret key come first. -/
def secretRank (c : S3Config) : ℕ := if c.secretKey = "" then 0 else 1

/-- `register_s3_table`: the configuration for the table, of several the last one. -/
def registerConfig (configs : List S3Config) (req : RegisterRequest) :
    Except (ℕ × String) S3Config :=
  if req.tableName = "" ∨ req.s3Uri = "" then .error (400, "table_name and s3_uri are required")
  else match latest secretRank (configs.filter fun c => req.Admits c) with
    | some cfg => .ok cfg
    | none => .error (400, "No S3 config found for '" ++ req.s3ConfigName ++ "'")

/-- The configuration found, if any, is one of the bucket. -/
def OwnBucket (bucket : String) (picked : Option S3Config) : Prop :=
  ∀ cfg, picked = some cfg → cfg.bucket = bucket

/-- Before each configuration of another bucket that occurs in the URI stands one of the bucket. -/
def SinkFits (bucket : String) (s3Configs : List S3Config) (uri : String) : Prop :=
  ∀ before c after, s3Configs = before ++ c :: after → OccursIn uri c → c.bucket = bucket ∨
    ∃ own ∈ before, own.bucket = bucket

/-- Each configuration of another bucket that is named or occurs in the URI is outdone by one of the
bucket, which alone has a secret key or stands behind it with no less of one. -/
def RegisterFits (bucket : String) (configs : List S3Config) (req : RegisterRequest) : Prop :=
  ∀ before c after, configs = before ++ c :: after → req.Admits c → c.bucket = bucket ∨
    ∃ own, own.bucket = bucket ∧
      (own ∈ configs ∧ secretRank c < secretRank own ∨
        own ∈ after ∧ secretRank c ≤ secretRank own)

section Spec
variable {uri : String} {target : SinkTarget}

/-- The bucket of a URI occurs in it, behind a scheme. -/
theorem fromS3Uri_occurs (h : SinkTarget.fromS3Uri uri = .ok target) :
    IsS3Path uri ∧ target.bucket.toList <:+: uri.toList := by
  unfold SinkTarget.fromS3Uri at h
  split at h
  · cases h
  · rename_i stripped hstripped
    obtain rfl := Except.ok.inj h
    have hscheme : ∃ scheme : List Char, uri.toList = scheme ++ stripped ∧
        (scheme = "s3://".toList ∨ scheme = "s3a://".toList) := by
      rcases Option.or_eq_some_iff.mp hstripped with hs3 | ⟨-, hs3a⟩
      · obtain ⟨scheme, htext, hscheme⟩ := List.dropPrefix?_eq_some_iff.mp hs3
        exact ⟨scheme, htext, Or.inl (eq_of_beq hscheme)⟩
      · obtain ⟨scheme, htext, hscheme⟩ := List.dropPrefix?_eq_some_iff.mp hs3a
        exact ⟨scheme, htext, Or.inr (eq_of_beq hscheme)⟩
    obtain ⟨scheme, htext, hscheme⟩ := hscheme
    constructor
    · unfold IsS3Path
      rw [htext]
      rcases hscheme with rfl | rfl
      · exact Or.inl (List.prefix_append _ _)
      · exact Or.inr (List.prefix_append _ _)
    · dsimp only
      rw [String.toList_ofList, htext]
      exact (List.takeWhile_prefix _).isInfix.trans (List.suffix_append _ _).isInfix

/-- The first of the configurations searched for is of a kind exactly when before each of another
kind stands one of the kind. -/
theorem forall_find?_iff {α : Type} {p : α → Bool} {P : α → Prop} {l : List α} :
    (∀ m, l.find? p = some m → P m) ↔
      ∀ before a after, l = before ++ a :: after → p a → P a ∨ ∃ b ∈ before, P b ∧ p b := by
  constructor
  · intro h before a after hl ha
    cases hbefore : before.find? p with
    | none =>
      refine Or.inl (h a ?_)
      rw [hl, List.find?_append, hbefore, List.find?_cons_of_pos ha]
      rfl
    | some b =>
      refine Or.inr ⟨b, List.mem_of_find?_eq_some hbefore, h b ?_, List.find?_some hbefore⟩
      rw [hl, List.find?_append, hbefore]
      rfl
  · intro h m hm
    obtain ⟨hp, before, after, hl, hnone⟩ := List.find?_eq_some_iff_append.mp hm
    rcases h before m after hl hp with hP | ⟨b, hb, -, hpb⟩
    · exact hP
    · exact absurd hpb (by simpa using hnone b hb)

/-- What a sink gets is the configuration found, with the URI's bucket. -/
theorem sinkConfig_eq (s3Configs : List S3Config)
    (h : SinkTarget.fromS3Uri uri = .ok target) : sinkConfig s3Configs uri =
      (matchingConfig s3Configs uri).map fun cfg =>
        { target with
          endpoint := some cfg.endpoint
          accessKey := cfg.accessKey
          secretKey := cfg.secretKey
          region := cfg.region } := by
  unfold sinkConfig
  rw [h]
  cases matchingConfig s3Configs uri <;> rfl

theorem ownBucket_matchingConfig_iff (s3Configs : List S3Config)
    (h : SinkTarget.fromS3Uri uri = .ok target) :
    OwnBucket target.bucket (matchingConfig s3Configs uri) ↔
      SinkFits target.bucket s3Configs uri := by
  obtain ⟨hpath, hoccurs⟩ := fromS3Uri_occurs h
  unfold OwnBucket matchingConfig SinkFits
  rw [if_pos hpath, forall_find?_iff]
  simp only [decide_eq_true_eq]
  refine forall₅_congr fun before c after _ _ => or_congr_right ?_
  refine exists_congr fun own => and_congr_right fun _ => ?_
  refine and_iff_left_of_imp fun hown => ?_
  unfold OccursIn
  rw [hown]
  exact hoccurs

theorem ownBucket_registerConfig_iff (configs : List S3Config) (req : RegisterRequest)
    (h : SinkTarget.fromS3Uri req.s3Uri = .ok target) :
    OwnBucket target.bucket (registerConfig configs req).toOption ↔
      req.tableName = "" ∨ RegisterFits target.bucket configs req := by
  obtain ⟨hpath, hoccurs⟩ := fromS3Uri_occurs h
  have huri : req.s3Uri ≠ "" := by
    intro hempty
    rw [hempty] at hpath
    exact absurd hpath (by decide)
  unfold OwnBucket registerConfig
  by_cases hname : req.tableName = ""
  · rw [if_pos (Or.inl hname)]
    exact iff_of_true (fun cfg hcfg => by cases hcfg) (Or.inl hname)
  have hpicked : ∀ cfg, (match latest secretRank (configs.filter fun c => req.Admits c) with
      | some cfg => Except.ok cfg
      | none => .error (400, "No S3 config found for '" ++ req.s3ConfigName ++ "'")).toOption =
        some cfg ↔ latest secretRank (configs.filter fun c => req.Admits c) = some cfg := by
    intro cfg
    cases latest secretRank (configs.filter fun c => req.Admits c) <;> rfl
  rw [if_neg (by simp [hname, huri]), or_iff_right hname]
  refine (forall_congr' fun cfg => imp_congr_left (hpicked cfg)).trans ?_
  rw [forall_latest_filter_iff]
  unfold RegisterFits
  simp only [decide_eq_true_eq]
  refine forall₅_congr fun before c after _ _ => or_congr_right ?_
  refine exists_congr fun own => and_congr_right fun hown => and_iff_right ?_
  unfold RegisterRequest.Admits OccursIn
  rw [hown]
  exact Or.inr hoccurs

end Spec

/-- The configuration that a sink or a registered table gets is one of the URI's bucket, if there is
any, exactly when none of another bucket that is named or occurs in the URI comes first. -/
theorem ownBucket_iff (s3Configs : List S3Config) (req : RegisterRequest) (target : SinkTarget)
    (h : SinkTarget.fromS3Uri req.s3Uri = .ok target) :
    (OwnBucket target.bucket (matchingConfig s3Configs req.s3Uri) ∧
        OwnBucket target.bucket (registerConfig s3Configs req).toOption) ↔
      SinkFits target.bucket s3Configs req.s3Uri ∧
        (req.tableName = "" ∨ RegisterFits target.bucket s3Configs req) :=
  and_congr (ownBucket_matchingConfig_iff s3Configs h) (ownBucket_registerConfig_iff s3Configs req h)

section Buckets

/-- A configuration of a bucket, under its name. -/
def bucketConfig (bucket : String) : S3Config := ⟨bucket, "", "AKIA", "secret", bucket, "us-east-1"⟩

def lakeConfigs : List S3Config := [bucketConfig "data", bucketConfig "data-lake", bucketConfig "lake"]

def lakeRequest : RegisterRequest := ⟨"orders", "s3://data-lake/orders", ""⟩

def lakeTarget : SinkTarget := ⟨"data-lake", "orders", by decide⟩

theorem fromS3Uri_lakeRequest : SinkTarget.fromS3Uri lakeRequest.s3Uri = .ok lakeTarget := rfl

/-- The names of two other buckets are parts of the bucket's own. -/
theorem ownBucket_iff_lake :
    (OwnBucket lakeTarget.bucket (matchingConfig lakeConfigs lakeRequest.s3Uri) ∧
        OwnBucket lakeTarget.bucket (registerConfig lakeConfigs lakeRequest).toOption) ↔
      SinkFits lakeTarget.bucket lakeConfigs lakeRequest.s3Uri ∧
        (lakeRequest.tableName = "" ∨ RegisterFits lakeTarget.bucket lakeConfigs lakeRequest) :=
  ownBucket_iff lakeConfigs lakeRequest lakeTarget fromS3Uri_lakeRequest

/-- The sink gets the configuration of one of them, and the table that of the other. -/
theorem not_ownBucket_lake :
    ¬ OwnBucket lakeTarget.bucket (matchingConfig lakeConfigs lakeRequest.s3Uri) ∧
      ¬ OwnBucket lakeTarget.bucket (registerConfig lakeConfigs lakeRequest).toOption := by
  have hsink : matchingConfig lakeConfigs lakeRequest.s3Uri = some (bucketConfig "data") := by
    decide
  have htable : (registerConfig lakeConfigs lakeRequest).toOption = some (bucketConfig "lake") := by
    decide
  exact ⟨fun h => absurd (h _ hsink) (by decide), fun h => absurd (h _ htable) (by decide)⟩

end Buckets
end RustLake.Sink
