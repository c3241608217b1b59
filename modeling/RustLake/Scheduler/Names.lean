import RustLake.Scheduler.Creation
import RustLake.Scheduler.Healing

/-! Whether the executable tables have different names, as all that look a table up take the first
one of a name. -/
namespace RustLake.Scheduler

variable {Gate Batch : Type}

def tableNames (s : Lakehouse Gate) : List String :=
  s.app.executableTables.map (·.tableName)

/-- A section adds a table at the end of the list, or leaves the list. -/
def AddsOne (f : Lakehouse Gate → Lakehouse Gate) : Prop :=
  (∀ s, (f s).app.executableTables = s.app.executableTables) ∨ ∃ t, f = pushTable t

/-- A table that a move adds has a name that no table in the list has. -/
def AddsFresh (pool : Pool (Lakehouse Gate) (Answer Batch) CreationReply)
    (move : Move (Answer Batch) (CreationRequest Gate)) : Prop :=
  ∀ t, pool.writes move = some (pushTable t) → t.tableName ∉ tableNames pool.state

theorem tableNames_pushTable (t : ExecutableTable Gate) (s : Lakehouse Gate) :
    tableNames (pushTable t s) = tableNames s ++ [t.tableName] := List.map_append

theorem pushTable_ne {t : ExecutableTable Gate} {s : Lakehouse Gate} :
    (pushTable t s).app.executableTables ≠ s.app.executableTables := by
  intro h
  have hlength := congrArg List.length h
  have hadded : (pushTable t s).app.executableTables.length =
      s.app.executableTables.length + 1 := by simp [pushTable]
  omega

section Handlers

theorem writes_createExecutableTable (table : ExecutableTable Gate) (schedule : Option String) :
    (createExecutableTable table schedule : Creation Gate Batch _).Writes AddsOne := by
  unfold createExecutableTable
  have hpush : AddsOne (pushTable table) := Or.inr ⟨table, rfl⟩
  cases schedule with
  | none => exact ⟨hpush, trivial⟩
  | some cron => exact ⟨Or.inl fun s => rfl, hpush, trivial⟩

theorem writes_convertSqlToGlacier (templates : Templates Gate) (req : ConvertRequest) :
    (convertSqlToGlacier templates req : Creation Gate Batch _).Writes AddsOne := by
  unfold convertSqlToGlacier
  split
  · trivial
  · have hname : (convertedName templates req : Creation Gate Batch _).Writes AddsOne := by
      unfold convertedName
      split
      · split
        · trivial
        · exact fun at' => trivial
      · trivial
    exact hname.bind fun tableName => ⟨Or.inr ⟨_, rfl⟩, trivial⟩

theorem writes_createGlacierFromPipeline (templates : Templates Gate)
    (req : PromotionRequest Gate) :
    (createGlacierFromPipeline templates req : Creation Gate Batch _).Writes AddsOne := by
  unfold createGlacierFromPipeline
  split
  · trivial
  · intro s
    dsimp only [pure, Process.bind]
    cases s.pipelines.find? _ with
    | none => trivial
    | some pipeline =>
      intro s'
      change Process.Writes AddsOne (if s'.app.executableTables.any _ = true then _ else _)
      split
      · trivial
      · exact fun _ _ _ _ => ⟨Or.inr ⟨_, rfl⟩, trivial⟩

theorem writes_installFromMarketplace (packageId packageName : Option String) :
    (installFromMarketplace packageId packageName : Creation Gate Batch _).Writes AddsOne := by
  intro s
  dsimp only [pure, Process.bind]
  cases findPackage s.packages packageId packageName with
  | none => trivial
  | some package => exact fun s' => ⟨Or.inr ⟨_, rfl⟩, Or.inl fun s => rfl, trivial⟩

theorem writes_handleCreation (templates : Templates Gate) (req : CreationRequest Gate) :
    (handleCreation templates req : Creation Gate Batch _).Writes AddsOne := by
  cases req with
  | create table schedule => exact writes_createExecutableTable table schedule
  | convert req => exact writes_convertSqlToGlacier templates req
  | promote req => exact writes_createGlacierFromPipeline templates req
  | install packageId packageName => exact writes_installFromMarketplace packageId packageName

end Handlers

section Runs
variable {templates : Templates Gate}
  {pool pool' : Pool (Lakehouse Gate) (Answer Batch) CreationReply}
  {move : Move (Answer Batch) (CreationRequest Gate)}

theorem nodup_step_iff (hrunning : ∀ p ∈ pool.running, p.Writes AddsOne)
    (h : pool.step (handleCreation templates) move = some pool') :
    (tableNames pool'.state).Nodup ↔ (tableNames pool.state).Nodup ∧ AddsFresh pool move := by
  have hstate := Pool.step_state h
  unfold AddsFresh
  cases hwrites : pool.writes move with
  | none =>
    rw [hwrites] at hstate
    rw [hstate]
    exact (and_iff_left fun t ht => absurd ht (by simp)).symm
  | some f =>
    rw [hwrites] at hstate
    rw [hstate]
    rcases Pool.writes_of_running hrunning hwrites with hkeeps | ⟨t, rfl⟩
    · have hsame : tableNames (f pool.state) = tableNames pool.state :=
        congrArg (List.map _) (hkeeps pool.state)
      rw [hsame]
      refine (and_iff_left ?_).symm
      intro t ht
      have hpush : f = pushTable t := Option.some.inj ht
      exact absurd (hpush ▸ hkeeps pool.state) pushTable_ne
    · rw [tableNames_pushTable, List.nodup_append_comm, List.singleton_append, List.nodup_cons]
      constructor
      · rintro ⟨hfresh, hnodup⟩
        refine ⟨hnodup, fun t' ht' => ?_⟩
        have htables : tableNames (pushTable t pool.state) = tableNames (pushTable t' pool.state) :=
          congrArg (fun f => tableNames (f pool.state)) (Option.some.inj ht')
        rw [tableNames_pushTable, tableNames_pushTable, List.append_right_inj,
          List.singleton_inj] at htables
        rw [← htables]
        exact hfresh
      · rintro ⟨hnodup, hfresh⟩
        exact ⟨hfresh t rfl, hnodup⟩

/-- Where the names are different, every table is the first one of its name. -/
theorem findTable_of_nodup {tables : List (ExecutableTable Gate)}
    (h : (tables.map (·.tableName)).Nodup) {t : ExecutableTable Gate} (ht : t ∈ tables) :
    findTable tables t.tableName = some t := by
  cases hfound : findTable tables t.tableName with
  | none =>
    have hother : ¬ t.tableName = t.tableName := by
      simpa using List.find?_eq_none.mp hfound t ht
    exact absurd rfl hother
  | some u =>
    have hname := tableName_of_findTable hfound
    have hmem := List.mem_of_find?_eq_some hfound
    rw [List.inj_on_of_nodup_map h hmem ht hname]

end Runs

section RevenueTwice

def revenueTemplates : Templates String where
  unicode := .asciiOnly
  wrapSqlInRust sql := "fn main() \x7b println!(\"" ++ sql ++ "\"); \x7d"
  sqlGates _ := ["row_count"]
  defaultCdcGates := ["row_count"]
  toRfc3339 _ := "2024-05-01T07:08:09+00:00"

def emptyLakehouse : Lakehouse String := ⟨⟨[], []⟩, [], []⟩

/-- A table is created. -/
def revenueCreation : List (Move (Answer ℕ) (CreationRequest String)) :=
  [.begin (.create revenueTable none), .advance 0 emptyAnswer]

theorem run_revenueCreation : Run.run (Pool.step (handleCreation revenueTemplates))
    ⟨emptyLakehouse, []⟩ revenueCreation =
      some ⟨pushTable revenueTable emptyLakehouse, [pure (.ok "revenue")]⟩ := rfl

end RevenueTwice
end RustLake.Scheduler
