import RustLake.Order.Run
import RustLake.Routes.Migration
import Mathlib.Logic.Equiv.List

/-! Tables of Trino and discovered tables in DataFusion: `register_trino` and `migration_register`,
one request after the other. -/
namespace RustLake.Routes
open RustLake.Engine RustLake.Text

structure TrinoColumnInfo where
  name : List Char
  dataType : List Char
  nullable : Bool
deriving DecidableEq

/-- A table of Trino by its names. -/
structure TrinoTable where
  catalog : List Char
  schema : List Char
  table : List Char
deriving DecidableEq

structure TrinoSchema where
  name : List Char
  tables : List (List Char)

structure TrinoCatalog where
  name : List Char
  schemas : List TrinoSchema

structure TrinoCatalogTree where
  catalogs : List TrinoCatalog

/-- The schema of DataFusion for a catalog of Trino. -/
def trinoSchema (catalog : List Char) : List Char := "trino_".toList ++ catalog

def TrinoTable.dfTableName (t : TrinoTable) : List Char := t.schema ++ '_' :: t.table

def TrinoTable.dfFull (t : TrinoTable) : List Char := trinoSchema t.catalog ++ '.' :: t.dfTableName

/-- `table_tasks`. -/
def TrinoCatalogTree.tableTasks (tree : TrinoCatalogTree) : List TrinoTable :=
  tree.catalogs.flatMap fun catalog => catalog.schemas.flatMap fun schema =>
    schema.tables.map fun table => ⟨catalog.name, schema.name, table⟩

structure TrinoTableProvider (Client : Type) where
  client : Client
  source : TrinoTable
  columns : List TrinoColumnInfo

/-- The key of a table in a schema of the catalog `datafusion`, and the providers as sources of
tables. -/
structure Providers (Client Key : Type) where
  reference : List Char → List Char → Key
  id : TrinoTableProvider Client → ℕ
  id_injective : Function.Injective id

/-- The state of the routes, the connections to Trino, the schemas of DataFusion, and the tables in
the entries of the provider registry. -/
structure Federation (Client Key Rows Copies : Type) where
  app : AppState Key Rows Copies
  connections : List Char → Option Client
  schemas : List (List Char)
  entries : List Char → Option (List (List Char))

/-- A schema that is there is taken as it is. -/
def ensureSchema (schemas : List (List Char)) (name : List Char) : List (List Char) :=
  if name ∈ schemas then schemas else schemas ++ [name]

section
variable {Client Key Rows Copies Batch : Type} [DecidableEq Key]
  (engines : Engines Key Rows Copies Batch) (providers : Providers Client Key)

/-- The providers of the tables that have columns, in the order in which these came. -/
def resolvedProviders (client : Client) (columns : TrinoTable → List TrinoColumnInfo)
    (completed : List TrinoTable) : List (TrinoTableProvider Client) :=
  completed.filterMap fun t => if (columns t).isEmpty then none else some ⟨client, t, columns t⟩

def TrinoTableProvider.key (p : TrinoTableProvider Client) : Key :=
  providers.reference (trinoSchema p.source.catalog) p.source.dfTableName

/-- One round of the loop over the providers; a name in use is refused. -/
def registerProvider (schemaMap : List (List Char))
    (done : Lake Key Rows Copies × List (List Char)) (p : TrinoTableProvider Client) :
    Lake Key Rows Copies × List (List Char) :=
  let (lake, registered) := done
  if trinoSchema p.source.catalog ∈ schemaMap ∧ p.key providers ∉ lake.catalog then
    ({ lake with catalog := lake.catalog.insert (p.key providers) (.other (providers.id p)) },
      registered ++ [p.source.dfFull])
  else (lake, registered)

/-- `register_trino` with a catalog tree. -/
def registerTrino (connectionId : List Char) (client : Client) (tree : TrinoCatalogTree)
    (columns : TrinoTable → List TrinoColumnInfo) (completed : List TrinoTable)
    (state : Federation Client Key Rows Copies) :
    Federation Client Key Rows Copies × List (List Char) :=
  let schemaMap := tree.catalogs.map fun catalog => trinoSchema catalog.name
  let (lake, registered) := (resolvedProviders client columns completed).foldl
    (registerProvider providers schemaMap) (state.app.lake, [])
  ({ state with
     app := { state.app with lake := lake }
     schemas := schemaMap.foldl ensureSchema state.schemas
     entries := Function.update state.entries connectionId (some registered) }, registered)

/-- What `migration_discover` makes of a table. -/
def MigrationTable.fresh (mt : MigrationTable) : MigrationTable :=
  { mt with registeredInRake := false, rakeTableName := none, status := "discovered", error := none }

/-- A connection is made, or made again; its tables are registered, whose columns come in some order;
tables are discovered and take the place of those before; discovered tables are registered. -/
inductive FederationEvent (Client : Type) where
  | connect (connId : List Char) (client : Client)
  | registerTrino (connId : List Char) (client : Client) (tree : TrinoCatalogTree)
      (columns : TrinoTable → List TrinoColumnInfo) (completed : List TrinoTable)
  | discover (tables : List MigrationTable)
  | register (connId : List Char) (tables : Option (List (List Char)))

end
end RustLake.Routes

/-! When the names of federated and of discovered tables stand for their own tables. -/
namespace RustLake.Routes
open RustLake.Engine RustLake.Text

/-- A word that a statement may hold without quotes. -/
def LowerWord (s : List Char) : Prop :=
  s.head?.any (fun c => c.isLower || c = '_') = true ∧
    s.all (fun c => c.isLower || c.isDigit || c = '_') = true

instance (s : List Char) : Decidable (LowerWord s) := inferInstanceAs (Decidable (_ ∧ _))

/-- Two pairs of words are one text with an underscore between them. -/
def Ambiguous (a b a' b' : List Char) : Prop :=
  (a = a' ∧ b = b') ∨ (∃ x, a' = a ++ '_' :: x ∧ b = x ++ '_' :: b') ∨
    ∃ x, a = a' ++ '_' :: x ∧ b' = x ++ '_' :: b

theorem joined_eq_iff (a b a' b' : List Char) :
    a ++ '_' :: b = a' ++ '_' :: b' ↔ Ambiguous a b a' b' := by
  rw [List.append_eq_append_iff]
  constructor
  · rintro (⟨x, rfl, hx⟩ | ⟨x, rfl, hx⟩)
    · cases x with
      | nil => exact Or.inl ⟨(List.append_nil a).symm, (List.cons.inj hx).2⟩
      | cons c x =>
        obtain ⟨rfl, hb⟩ := List.cons.inj hx
        exact Or.inr (Or.inl ⟨x, rfl, hb⟩)
    · cases x with
      | nil => exact Or.inl ⟨List.append_nil a', (List.cons.inj hx).2.symm⟩
      | cons c x =>
        obtain ⟨rfl, hb⟩ := List.cons.inj hx
        exact Or.inr (Or.inr ⟨x, rfl, hb⟩)
  · rintro (⟨rfl, rfl⟩ | ⟨x, rfl, rfl⟩ | ⟨x, rfl, rfl⟩)
    · exact Or.inl ⟨[], (List.append_nil a).symm, rfl⟩
    · exact Or.inl ⟨'_' :: x, rfl, rfl⟩
    · exact Or.inr ⟨'_' :: x, rfl, rfl⟩

instance (a b a' b' : List Char) : Decidable (Ambiguous a b a' b') :=
  decidable_of_iff _ (joined_eq_iff a b a' b')

def TrinoTable.rakeName (t : TrinoTable) : List Char := Routes.rakeName t.catalog t.schema t.table

/-- A table of a connection, read through Trino, or from its files where it was discovered. -/
inductive SourceTable where
  | trino (connId : List Char) (t : TrinoTable)
  | migrated (connId : List Char) (t : TrinoTable)
deriving DecidableEq

namespace SourceTable

def name : SourceTable → List Char
  | .trino _ t => t.dfFull
  | .migrated _ t => t.rakeName

def Plain : SourceTable → Prop
  | .trino _ t => LowerWord (trinoSchema t.catalog) ∧ LowerWord t.dfTableName
  | .migrated _ t => LowerWord t.rakeName

instance : ∀ a : SourceTable, Decidable a.Plain
  | .trino _ t => inferInstanceAs (Decidable (LowerWord (trinoSchema t.catalog) ∧ LowerWord t.dfTableName))
  | .migrated _ t => inferInstanceAs (Decidable (LowerWord t.rakeName))

/-- The connection is no part of a name, nor is it told where the schema ends; what was discovered is
named with its catalog, and dots and dashes are no different from underscores. -/
def SameName : SourceTable → SourceTable → Prop
  | .trino _ t, .trino _ t' =>
    t.catalog = t'.catalog ∧ Ambiguous t.schema t.table t'.schema t'.table
  | .migrated _ t, .migrated _ t' =>
    Ambiguous (underscored t.catalog ++ '_' :: underscored t.schema) (underscored t.table)
      (underscored t'.catalog ++ '_' :: underscored t'.schema) (underscored t'.table)
  | _, _ => False

instance : ∀ a b : SourceTable, Decidable (a.SameName b)
  | .trino _ t, .trino _ t' => inferInstanceAs (Decidable
      (t.catalog = t'.catalog ∧ Ambiguous t.schema t.table t'.schema t'.table))
  | .migrated _ t, .migrated _ t' => inferInstanceAs (Decidable
      (Ambiguous (underscored t.catalog ++ '_' :: underscored t.schema) (underscored t.table)
        (underscored t'.catalog ++ '_' :: underscored t'.schema) (underscored t'.table)))
  | .trino _ _, .migrated _ _ => isFalse id
  | .migrated _ _, .trino _ _ => isFalse id

end SourceTable

theorem LowerWord.dot_notMem {s : List Char} (h : LowerWord s) : '.' ∉ s := by
  intro hdot
  have hletter := List.all_eq_true.mp h.2 '.' hdot
  revert hletter
  decide

theorem append_dot_inj {x y x' y' : List Char} (hx : '.' ∉ x) (hx' : '.' ∉ x') :
    x ++ '.' :: y = x' ++ '.' :: y' ↔ x = x' ∧ y = y' := by
  constructor
  · intro h
    rcases List.append_eq_append_iff.mp h with ⟨z, hz, hrest⟩ | ⟨z, hz, hrest⟩
    · cases z with
      | nil => exact ⟨by rw [hz, List.append_nil], (List.cons.inj hrest).2⟩
      | cons c z =>
        obtain ⟨rfl, -⟩ := List.cons.inj hrest
        exact absurd (by rw [hz]; simp) hx'
    · cases z with
      | nil => exact ⟨by rw [hz, List.append_nil], (List.cons.inj hrest).2.symm⟩
      | cons c z =>
        obtain ⟨rfl, -⟩ := List.cons.inj hrest
        exact absurd (by rw [hz]; simp) hx
  · rintro ⟨rfl, rfl⟩
    rfl

theorem append_joined (p a b c : List Char) :
    p ++ a ++ '_' :: b ++ '_' :: c = p ++ ((a ++ '_' :: b) ++ '_' :: c) := by
  simp

theorem rakeName_eq (catalog schemaName tableName : List Char) :
    rakeName catalog schemaName tableName = "iceberg_".toList ++
      ((underscored catalog ++ '_' :: underscored schemaName) ++ '_' :: underscored tableName) :=
  append_joined _ _ _ _

/-- Two plain names are equal just where the names of the tables run together. -/
theorem SourceTable.name_eq_iff {a b : SourceTable} (ha : a.Plain) (hb : b.Plain) :
    a.name = b.name ↔ a.SameName b := by
  have hdotted : ∀ {t : TrinoTable} {s : List Char}, LowerWord s → t.dfFull ≠ s := by
    intro t s hs h
    apply hs.dot_notMem
    rw [← h]
    simp [TrinoTable.dfFull]
  cases a with
  | trino _ t =>
    cases b with
    | trino _ t' =>
      have hsplit : t.dfFull = t'.dfFull ↔ trinoSchema t.catalog = trinoSchema t'.catalog ∧
          t.dfTableName = t'.dfTableName := append_dot_inj ha.1.dot_notMem hb.1.dot_notMem
      have hcatalog : trinoSchema t.catalog = trinoSchema t'.catalog ↔ t.catalog = t'.catalog :=
        List.append_right_inj _
      exact hsplit.trans (and_congr hcatalog (joined_eq_iff _ _ _ _))
    | migrated _ t' => exact iff_of_false (hdotted hb) id
  | migrated _ t =>
    cases b with
    | trino _ t' => exact iff_of_false (hdotted ha).symm id
    | migrated _ t' =>
      change t.rakeName = t'.rakeName ↔ Ambiguous _ _ _ _
      rw [TrinoTable.rakeName, TrinoTable.rakeName, rakeName_eq, rakeName_eq,
        List.append_right_inj, joined_eq_iff]

def MigrationTable.source (mt : MigrationTable) : TrinoTable :=
  ⟨mt.catalog, mt.schemaName, mt.tableName⟩

/-- The entries that `updateEntry` takes for a table. -/
def MigrationTable.sameTable (mt t : MigrationTable) : Bool :=
  t.catalog = mt.catalog ∧ t.schemaName = mt.schemaName ∧ t.tableName = mt.tableName

/-- What has happened so far: the names that were reported, each with its connection, and the tables
that were to be registered. -/
structure History (Client Key Rows Copies : Type) where
  now : Federation Client Key Rows Copies
  reported : List (List Char × List Char)
  given : List SourceTable

section
variable {Client Key Rows Copies Batch : Type} [DecidableEq Key]
  (engines : Engines Key Rows Copies Batch) (providers : Providers Client Key)

/-- The tables that are to be registered. -/
def FederationEvent.sources (state : Federation Client Key Rows Copies) :
    FederationEvent Client → List SourceTable
  | .registerTrino connId _ _ columns completed =>
    (completed.filter fun t => !(columns t).isEmpty).map (.trino connId)
  | .register connId tables =>
    ((state.app.migrationTables.filter (MigrationTable.selected connId tables)).filter
      fun mt => mt.location.isSome).map fun mt => .migrated connId mt.source
  | _ => []

def FederationEvent.step (s : History Client Key Rows Copies) (event : FederationEvent Client) :
    Option (History Client Key Rows Copies) :=
  let given := s.given ++ event.sources s.now
  match event with
  | .connect connId client =>
    some { s with
      now := { s.now with connections := Function.update s.now.connections connId (some client) } }
  | .registerTrino connId client tree columns completed =>
    if completed.Perm tree.tableTasks then
      let (now, registered) := Routes.registerTrino providers connId client tree columns completed s.now
      some ⟨now, s.reported ++ registered.map fun name => (connId, name), given⟩
    else none
  | .discover tables =>
    some { s with
      now := { s.now with
        app := { s.now.app with migrationTables := tables.map MigrationTable.fresh } } }
  | .register connId tables =>
    some ⟨{ s.now with app := (migrationRegister engines connId tables s.now.app).1 },
      s.reported, given⟩

/-- A name stands for a table in statements. -/
def Reads (name : List Char) (source : Source) (catalog : Catalog Key) : Prop :=
  ∃ key, engines.dataFusion.fromItem name = some key ∧ catalog.lookup key = some source

/-- An entry that says it is registered has a name that reads its files. -/
def MigrationTable.ReadsOwn (t : MigrationTable) (catalog : Catalog Key) : Prop :=
  t.registeredInRake = true → ∃ name path, t.rakeTableName = some name ∧ t.location = some path ∧
    Reads engines name (.file .parquet path) catalog

/-- Different tables have different names, a name reported for a connection reads the table that it
was made from over that connection, and so do the names of the discovered tables. -/
structure Federated (s : History Client Key Rows Copies) : Prop where
  distinct : ∀ a ∈ s.given, ∀ b ∈ s.given, a ≠ b → a.name ≠ b.name
  trino : ∀ r ∈ s.reported, ∃ client t columns, s.now.connections r.1 = some client ∧
    SourceTable.trino r.1 t ∈ s.given ∧ r.2 = t.dfFull ∧
    Reads engines r.2 (.other (providers.id ⟨client, t, columns⟩)) s.now.app.lake.catalog
  migrated : ∀ t ∈ s.now.app.migrationTables, t.ReadsOwn engines s.now.app.lake.catalog

/-- The entries of other connections stay as they are. -/
structure OnlyOwn (connId : List Char) (before after : List MigrationTable) : Prop where
  connIds : after.map (·.connId) = before.map (·.connId)
  others : after.filter (fun t => t.connId ≠ connId) = before.filter fun t => t.connId ≠ connId

/-- A connection that has reported names stays what it is; tables are registered over the connection
that there is, under plain names that do not run together; and a discovered table that is to be
registered has the one entry of its names. -/
def FederationEvent.Clear (s : History Client Key Rows Copies) (event : FederationEvent Client) :
    Prop :=
  (∀ a ∈ event.sources s.now, a.Plain ∧ ∀ b ∈ s.given ++ event.sources s.now,
    a.SameName b → a = b) ∧
  match event with
  | .connect connId client =>
    ∀ r ∈ s.reported, r.1 = connId → s.now.connections connId = some client
  | .registerTrino connId client _ _ _ => s.now.connections connId = some client
  | .discover _ => True
  | .register connId tables =>
    ∀ mt ∈ s.now.app.migrationTables.filter (MigrationTable.selected connId tables),
      s.now.app.migrationTables.filter mt.sameTable = [mt]

instance [DecidableEq Client] (s : History Client Key Rows Copies) :
    ∀ event : FederationEvent Client, Decidable (event.Clear s)
  | .connect _ _ => inferInstanceAs (Decidable (_ ∧ ∀ _ ∈ _, _ → _))
  | .registerTrino _ _ _ _ _ => inferInstanceAs (Decidable (_ ∧ _ = _))
  | .discover _ => inferInstanceAs (Decidable (_ ∧ True))
  | .register _ _ => inferInstanceAs (Decidable (_ ∧ ∀ _ ∈ _, _ = _))

/-- A server that has registered nothing yet, whatever tables it has. -/
def History.start (lake : Lake Key Rows Copies) (readOnlyTables : ReadOnlyTables)
    (schemas : List (List Char)) : History Client Key Rows Copies where
  now := ⟨⟨lake, readOnlyTables, []⟩, fun _ => none, schemas, fun _ => none⟩
  reported := []
  given := []

/-- How DataFusion reads plain names without quotes; and reading the first rows of a table leaves its
catalog as it is. -/
structure ReadsNames : Prop where
  qualified : ∀ catalog name, LowerWord (trinoSchema catalog) → LowerWord name →
    engines.dataFusion.fromItem (trinoSchema catalog ++ '.' :: name) =
      some (providers.reference (trinoSchema catalog) name)
  bare : ∀ t : TrinoTable, LowerWord t.rakeName → engines.dataFusion.fromItem t.rakeName =
    some (engines.dataFusion.tableReference t.rakeName)
  firstRows : ∀ name lake, LowerWord name →
    (engines.run ("SELECT * FROM ".toList ++ name ++ " LIMIT 10000".toList) lake).1.catalog =
      lake.catalog

end

section
variable {Client Key Rows Copies Batch : Type} [DecidableEq Key]
  {engines : Engines Key Rows Copies Batch} {providers : Providers Client Key}
  {name connId : List Char} {source : Source} {before after catalog : Catalog Key}

/-- Every table goes on reading what it read. -/
def Kept (before after : Catalog Key) : Prop :=
  ∀ key source, before.lookup key = some source → after.lookup key = some source

theorem Kept.refl (catalog : Catalog Key) : Kept catalog catalog := fun _ _ h => h

theorem Kept.trans {middle : Catalog Key} (hfirst : Kept before middle)
    (hlater : Kept middle after) : Kept before after :=
  fun key source h => hlater key source (hfirst key source h)

theorem Kept.insert {key : Key} (hnew : key ∉ catalog) (source : Source) :
    Kept catalog (catalog.insert key source) := by
  intro other found hfound
  have hne : other ≠ key := by
    rintro rfl
    rw [AList.lookup_eq_none.mpr hnew] at hfound
    cases hfound
  rw [AList.lookup_insert_ne hne]
  exact hfound

theorem Reads.kept (h : Reads engines name source before) (hkept : Kept before after) :
    Reads engines name source after := by
  obtain ⟨key, hname, hkey⟩ := h
  exact ⟨key, hname, hkept key source hkey⟩

theorem MigrationTable.ReadsOwn.kept {t : MigrationTable} (h : t.ReadsOwn engines before)
    (hkept : Kept before after) : t.ReadsOwn engines after := by
  intro hregistered
  obtain ⟨name, path, hname, hpath, hreads⟩ := h hregistered
  exact ⟨name, path, hname, hpath, hreads.kept hkept⟩

section Trino

variable (providers) in
theorem registerProvider_spec (schemaMap : List (List Char))
    (done : Lake Key Rows Copies × List (List Char)) (p : TrinoTableProvider Client) :
    Kept done.1.catalog (registerProvider providers schemaMap done p).1.catalog ∧
      ∀ name ∈ (registerProvider providers schemaMap done p).2, name ∈ done.2 ∨
        (name = p.source.dfFull ∧
          (registerProvider providers schemaMap done p).1.catalog.lookup (p.key providers) =
            some (.other (providers.id p))) := by
  unfold registerProvider
  dsimp only
  split_ifs with hnew
  · constructor
    · exact Kept.insert hnew.2 _
    · intro name hname
      rcases List.mem_append.mp hname with hold | hsame
      · exact Or.inl hold
      · exact Or.inr ⟨List.mem_singleton.mp hsame, AList.lookup_insert _⟩
  · exact ⟨Kept.refl _, fun name hname => Or.inl hname⟩

variable (providers) in
/-- After the loop every reported name is that of a provider, which is registered. -/
theorem registerProviders_spec (schemaMap : List (List Char)) (ps : List (TrinoTableProvider Client))
    (done : Lake Key Rows Copies × List (List Char)) :
    Kept done.1.catalog (ps.foldl (registerProvider providers schemaMap) done).1.catalog ∧
      ∀ name ∈ (ps.foldl (registerProvider providers schemaMap) done).2, name ∈ done.2 ∨
        ∃ p ∈ ps, name = p.source.dfFull ∧
          (ps.foldl (registerProvider providers schemaMap) done).1.catalog.lookup
            (p.key providers) = some (.other (providers.id p)) := by
  induction ps generalizing done with
  | nil => exact ⟨Kept.refl _, fun name hname => Or.inl hname⟩
  | cons p ps ih =>
    obtain ⟨hfirst, hname⟩ := registerProvider_spec providers schemaMap done p
    obtain ⟨hrest, hnames⟩ := ih (registerProvider providers schemaMap done p)
    refine ⟨hfirst.trans hrest, fun name hlast => ?_⟩
    rcases hnames name hlast with hone | ⟨q, hq, hsame, hlookup⟩
    · rcases hname name hone with hold | ⟨hsame, hlookup⟩
      · exact Or.inl hold
      · exact Or.inr ⟨p, List.mem_cons_self, hsame, hrest _ _ hlookup⟩
    · exact Or.inr ⟨q, List.mem_cons_of_mem p hq, hsame, hlookup⟩

end Trino

section Migration

theorem MigrationTable.sameTable_iff {mt t : MigrationTable} :
    mt.sameTable t = true ↔ t.source = mt.source := by
  simp [MigrationTable.sameTable, MigrationTable.source]

/-- A change of an entry that is about its status. -/
def KeepsNames (update : MigrationTable → MigrationTable) : Prop :=
  ∀ t, (update t).connId = t.connId ∧ (update t).source = t.source

variable {mt : MigrationTable} {update : MigrationTable → MigrationTable}
  {tables : List MigrationTable}

theorem updateEntry_cons (mt t : MigrationTable) (update : MigrationTable → MigrationTable)
    (rest : List MigrationTable) : updateEntry mt update (t :: rest) =
      if mt.sameTable t = true then update t :: rest else t :: updateEntry mt update rest := by
  simp [updateEntry, MigrationTable.sameTable]

theorem map_connId_updateEntry (hupdate : KeepsNames update) :
    (updateEntry mt update tables).map (·.connId) = tables.map (·.connId) := by
  induction tables with
  | nil => rfl
  | cons t rest ih =>
    rw [updateEntry_cons]
    split_ifs
    · rw [List.map_cons, List.map_cons, (hupdate t).1]
    · rw [List.map_cons, List.map_cons, ih]

theorem filter_updateEntry {p : MigrationTable → Bool}
    (h : ∀ t ∈ tables, mt.sameTable t = true → p t = false ∧ p (update t) = false) :
    (updateEntry mt update tables).filter p = tables.filter p := by
  induction tables with
  | nil => rfl
  | cons t rest ih =>
    obtain ⟨ht, hrest⟩ := List.forall_mem_cons.mp h
    rw [updateEntry_cons]
    split_ifs with hsame
    · obtain ⟨hbefore, hafter⟩ := ht hsame
      rw [List.filter_cons, List.filter_cons, hbefore, hafter]
      rfl
    · rw [List.filter_cons, List.filter_cons, ih hrest]

theorem mem_updateEntry {t : MigrationTable} (h : t ∈ updateEntry mt update tables) :
    t ∈ tables ∨ ∃ t' ∈ tables, mt.sameTable t' = true ∧ t = update t' := by
  induction tables with
  | nil => cases h
  | cons first rest ih =>
    rw [updateEntry_cons] at h
    split_ifs at h with hsame
    · rcases List.mem_cons.mp h with rfl | hrest
      · exact Or.inr ⟨first, List.mem_cons_self, hsame, rfl⟩
      · exact Or.inl (List.mem_cons_of_mem first hrest)
    · rcases List.mem_cons.mp h with rfl | hrest
      · exact Or.inl List.mem_cons_self
      · rcases ih hrest with hold | ⟨t', ht', hsame', hupdated⟩
        · exact Or.inl (List.mem_cons_of_mem first hold)
        · exact Or.inr ⟨t', List.mem_cons_of_mem first ht', hsame', hupdated⟩

theorem OnlyOwn.refl (connId : List Char) (tables : List MigrationTable) :
    OnlyOwn connId tables tables := ⟨rfl, rfl⟩

theorem OnlyOwn.trans {first middle last : List MigrationTable} (h : OnlyOwn connId first middle)
    (h' : OnlyOwn connId middle last) : OnlyOwn connId first last :=
  ⟨h'.connIds.trans h.connIds, h'.others.trans h.others⟩

/-- Where the entry is the only one of its names, only it is updated. -/
theorem onlyOwn_updateEntry (hupdate : KeepsNames update)
    (hunique : tables.filter mt.sameTable = [mt]) :
    OnlyOwn mt.connId tables (updateEntry mt update tables) where
  connIds := map_connId_updateEntry hupdate
  others := by
    apply filter_updateEntry
    intro t ht hsame
    obtain rfl : t = mt := by
      have hmem : t ∈ tables.filter mt.sameTable := List.mem_filter.mpr ⟨ht, hsame⟩
      rw [hunique] at hmem
      exact List.mem_singleton.mp hmem
    simp [(hupdate t).1]

theorem registerParquet_ok {path : List Char} {lake lake' : Lake Key Rows Copies}
    (h : registerParquet engines name path lake = .ok lake') :
    engines.dataFusion.tableReference name ∉ lake.catalog ∧ lake'.catalog =
      lake.catalog.insert (engines.dataFusion.tableReference name) (.file .parquet path) := by
  unfold registerParquet registerTable at h
  split at h
  · cases h
  · dsimp only at h
    split_ifs at h with hused
    cases haccepts : engines.accepts name with
    | error e =>
      rw [haccepts] at h
      cases h
    | ok _ =>
      rw [haccepts] at h
      cases h
      exact ⟨hused, rfl⟩

variable (engines) in
theorem registerOne_spec (done : AppState Key Rows Copies × Registration) (mt : MigrationTable) :
    (∃ message, (registerOne engines done mt).1.migrationTables =
        updateEntry mt (MigrationTable.failed message) done.1.migrationTables ∧
      (registerOne engines done mt).1.lake = done.1.lake ∧
      (registerOne engines done mt).2.registeredNames = done.2.registeredNames) ∨
    ∃ path, mt.location = some path ∧
      (registerOne engines done mt).1.migrationTables =
        updateEntry mt (MigrationTable.registered mt.rakeName) done.1.migrationTables ∧
      engines.dataFusion.tableReference mt.rakeName ∉ done.1.lake.catalog ∧
      (registerOne engines done mt).1.lake.catalog = done.1.lake.catalog.insert
        (engines.dataFusion.tableReference mt.rakeName) (.file .parquet path) ∧
      (registerOne engines done mt).2.registeredNames =
        done.2.registeredNames ++ [mt.rakeName] := by
  unfold registerOne
  dsimp only
  split
  · exact Or.inl ⟨_, rfl, rfl, rfl⟩
  · rename_i path hpath
    split
    · rename_i lake hregistered
      obtain ⟨hnew, hcatalog⟩ := registerParquet_ok hregistered
      exact Or.inr ⟨path, hpath, rfl, hnew, hcatalog, rfl⟩
    · exact Or.inl ⟨_, rfl, rfl, rfl⟩

variable (engines) in
/-- What holds between the rounds, with the tables that are left. -/
structure RegisterLoop (connId : List Char) (before : List MigrationTable) (catalog : Catalog Key)
    (done : AppState Key Rows Copies × Registration) (mts : List MigrationTable) : Prop where
  kept : Kept catalog done.1.lake.catalog
  own : OnlyOwn connId before done.1.migrationTables
  reads : ∀ t ∈ done.1.migrationTables, t.ReadsOwn engines done.1.lake.catalog
  unique : ∀ mt ∈ mts, done.1.migrationTables.filter mt.sameTable = [mt]
  apart : mts.Pairwise fun a b => a.source ≠ b.source
  plain : ∀ name ∈ done.2.registeredNames, LowerWord name

theorem eq_of_unique (hunique : tables.filter mt.sameTable = [mt]) {t : MigrationTable}
    (ht : t ∈ tables) (hsame : mt.sameTable t = true) : t = mt := by
  have hmem : t ∈ tables.filter mt.sameTable := List.mem_filter.mpr ⟨ht, hsame⟩
  rw [hunique] at hmem
  exact List.mem_singleton.mp hmem

/-- An update of one table leaves the entries of others the only ones of their names. -/
theorem unique_updateEntry {other : MigrationTable} (hupdate : KeepsNames update)
    (hne : mt.source ≠ other.source) (hother : tables.filter other.sameTable = [other]) :
    (updateEntry mt update tables).filter other.sameTable = [other] := by
  rw [filter_updateEntry, hother]
  intro t ht hsame
  have hnames : t.source = mt.source := MigrationTable.sameTable_iff.mp hsame
  constructor
  · apply Bool.eq_false_iff.mpr
    intro hmatch
    exact hne (hnames.symm.trans (MigrationTable.sameTable_iff.mp hmatch))
  · apply Bool.eq_false_iff.mpr
    intro hmatch
    have hupdated := MigrationTable.sameTable_iff.mp hmatch
    exact hne (hnames.symm.trans ((hupdate t).2.symm.trans hupdated))

theorem RegisterLoop.step {before : List MigrationTable}
    {done : AppState Key Rows Copies × Registration} {mts : List MigrationTable}
    (hnames : ReadsNames engines providers) (hplain : mt.location.isSome → LowerWord mt.rakeName)
    (h : RegisterLoop engines mt.connId before catalog done (mt :: mts)) :
    RegisterLoop engines mt.connId before catalog (registerOne engines done mt) mts := by
  obtain ⟨hthis, hothers⟩ := List.forall_mem_cons.mp h.unique
  obtain ⟨hfirst, hrest⟩ := List.pairwise_cons.mp h.apart
  rcases registerOne_spec engines done mt with
    ⟨message, htables, hlake, hreported⟩ | ⟨path, hpath, htables, hnew, hcatalog, hreported⟩
  · have hupdate : KeepsNames (MigrationTable.failed message) := fun _ => ⟨rfl, rfl⟩
    constructor
    · rw [hlake]
      exact h.kept
    · rw [htables]
      exact h.own.trans (onlyOwn_updateEntry hupdate hthis)
    · rw [htables, hlake]
      intro t ht
      rcases mem_updateEntry ht with hold | ⟨t', ht', -, rfl⟩
      · exact h.reads t hold
      · exact h.reads t' ht'
    · rw [htables]
      intro other hother
      exact unique_updateEntry hupdate (hfirst other hother) (hothers other hother)
    · exact hrest
    · rw [hreported]
      exact h.plain
  · have hupdate : KeepsNames (MigrationTable.registered mt.rakeName) := fun _ => ⟨rfl, rfl⟩
    have hword : LowerWord mt.rakeName := hplain (by rw [hpath]; rfl)
    have hkept : Kept done.1.lake.catalog (registerOne engines done mt).1.lake.catalog := by
      rw [hcatalog]
      exact Kept.insert hnew _
    constructor
    · exact h.kept.trans hkept
    · rw [htables]
      exact h.own.trans (onlyOwn_updateEntry hupdate hthis)
    · rw [htables]
      intro t ht
      rcases mem_updateEntry ht with hold | ⟨t', ht', hsame, rfl⟩
      · exact (h.reads t hold).kept hkept
      · obtain rfl := eq_of_unique hthis ht' hsame
        intro _
        refine ⟨_, path, rfl, hpath, _, hnames.bare t'.source hword, ?_⟩
        rw [hcatalog]
        exact AList.lookup_insert _
    · rw [htables]
      intro other hother
      exact unique_updateEntry hupdate (hfirst other hother) (hothers other hother)
    · exact hrest
    · rw [hreported]
      intro name hname
      rcases List.mem_append.mp hname with hold | hsame
      · exact h.plain name hold
      · rw [List.mem_singleton.mp hsame]
        exact hword

theorem RegisterLoop.run {before : List MigrationTable} (hnames : ReadsNames engines providers)
    {mts : List MigrationTable} (hconn : ∀ mt ∈ mts, mt.connId = connId)
    (hplain : ∀ mt ∈ mts, mt.location.isSome → LowerWord mt.rakeName)
    {done : AppState Key Rows Copies × Registration}
    (h : RegisterLoop engines connId before catalog done mts) :
    RegisterLoop engines connId before catalog
      (mts.foldl (registerOne engines) done) [] := by
  induction mts generalizing done with
  | nil => exact h
  | cons mt mts ih =>
    obtain ⟨hthis, hothers⟩ := List.forall_mem_cons.mp hconn
    obtain ⟨hword, hwords⟩ := List.forall_mem_cons.mp hplain
    subst hthis
    exact ih hothers hwords (h.step hnames hword)

omit [DecidableEq Key] in
theorem firstRows_catalog (hnames : ReadsNames engines providers) {names : List (List Char)}
    (hplain : ∀ name ∈ names, LowerWord name) (lake : Lake Key Rows Copies) :
    (firstRows engines names lake).1.catalog = lake.catalog := by
  induction names generalizing lake with
  | nil => rfl
  | cons name names ih =>
    obtain ⟨hword, hwords⟩ := List.forall_mem_cons.mp hplain
    have hread := hnames.firstRows name lake hword
    unfold firstRows
    dsimp only
    split
    · rename_i lake' batches hrun
      rw [hrun] at hread
      exact (ih hwords lake').trans hread
    · rename_i lake' e hrun
      rw [hrun] at hread
      exact (ih hwords lake').trans hread

omit [DecidableEq Key] in
theorem syncTrinoTablesToEngines_catalog (hnames : ReadsNames engines providers)
    {names : List (List Char)} (hplain : ∀ name ∈ names, LowerWord name)
    (lake : Lake Key Rows Copies) :
    (syncTrinoTablesToEngines engines names lake).catalog = lake.catalog := by
  rw [← firstRows_catalog hnames hplain lake]
  unfold syncTrinoTablesToEngines
  dsimp only
  cases engines.duckdb <;> cases engines.polars <;> rfl

theorem apart_of_unique {mts : List MigrationTable} (hmts : mts.Sublist tables)
    (hunique : ∀ mt ∈ mts, tables.filter mt.sameTable = [mt]) :
    mts.Pairwise fun a b => a.source ≠ b.source := by
  rw [List.pairwise_iff_forall_sublist]
  intro a b hab hsame
  have hself : a.sameTable a = true := MigrationTable.sameTable_iff.mpr rfl
  have hother : a.sameTable b = true := MigrationTable.sameTable_iff.mpr hsame.symm
  have hpair : [a, b].filter a.sameTable = [a, b] := by
    simp [List.filter, hself, hother]
  have hsub := (hab.trans hmts).filter a.sameTable
  rw [hpair, hunique a (hab.subset List.mem_cons_self)] at hsub
  have hlength := hsub.length_le
  simp at hlength

theorem migrationRegister_spec (hnames : ReadsNames engines providers)
    {app : AppState Key Rows Copies} {wanted : Option (List (List Char))}
    (hreads : ∀ t ∈ app.migrationTables, t.ReadsOwn engines app.lake.catalog)
    (hunique : ∀ mt ∈ app.migrationTables.filter (MigrationTable.selected connId wanted),
      app.migrationTables.filter mt.sameTable = [mt])
    (hplain : ∀ mt ∈ app.migrationTables.filter (MigrationTable.selected connId wanted),
      mt.location.isSome → LowerWord mt.rakeName) :
    Kept app.lake.catalog (migrationRegister engines connId wanted app).1.lake.catalog ∧
      OnlyOwn connId app.migrationTables
        (migrationRegister engines connId wanted app).1.migrationTables ∧
      ∀ t ∈ (migrationRegister engines connId wanted app).1.migrationTables,
        t.ReadsOwn engines (migrationRegister engines connId wanted app).1.lake.catalog := by
  have hconn : ∀ mt ∈ app.migrationTables.filter (MigrationTable.selected connId wanted),
      mt.connId = connId := by
    intro mt hmt
    have hselected := (List.mem_filter.mp hmt).2
    simp only [MigrationTable.selected, Bool.and_eq_true, decide_eq_true_eq] at hselected
    exact hselected.1.1
  have hstart : RegisterLoop engines connId app.migrationTables app.lake.catalog
      (app, ⟨[], 0, []⟩)
      (app.migrationTables.filter (MigrationTable.selected connId wanted)) :=
    { kept := Kept.refl _
      own := OnlyOwn.refl connId _
      reads := hreads
      unique := hunique
      apart := apart_of_unique List.filter_sublist hunique
      plain := fun name hname => absurd hname List.not_mem_nil }
  have hend := hstart.run hnames hconn hplain
  unfold migrationRegister
  dsimp only
  split_ifs
  · exact ⟨hend.kept, hend.own, hend.reads⟩
  · have hcatalog := syncTrinoTablesToEngines_catalog hnames hend.plain
      ((app.migrationTables.filter (MigrationTable.selected connId wanted)).foldl
        (registerOne engines) (app, ⟨[], 0, []⟩)).1.lake
    dsimp only
    rw [hcatalog]
    exact ⟨hend.kept, hend.own, hend.reads⟩

end Migration

/-- New names differ from one another and from the old ones where no two run together. -/
theorem names_distinct {given sources : List SourceTable} (hplain : ∀ a ∈ given, a.Plain)
    (hdistinct : ∀ a ∈ given, ∀ b ∈ given, a ≠ b → a.name ≠ b.name)
    (hnew : ∀ a ∈ sources, a.Plain ∧ ∀ b ∈ given ++ sources, a.SameName b → a = b) :
    (∀ a ∈ given ++ sources, a.Plain) ∧
      ∀ a ∈ given ++ sources, ∀ b ∈ given ++ sources, a ≠ b → a.name ≠ b.name := by
  have hall : ∀ a ∈ given ++ sources, a.Plain := by
    intro a ha
    rcases List.mem_append.mp ha with hold | hthis
    · exact hplain a hold
    · exact (hnew a hthis).1
  refine ⟨hall, fun a ha b hb hne hname => ?_⟩
  rcases List.mem_append.mp ha with hold | hthis
  · rcases List.mem_append.mp hb with hold' | hthis'
    · exact hdistinct a hold b hold' hne hname
    · have hsame := (SourceTable.name_eq_iff (hall b hb) (hall a ha)).mp hname.symm
      exact hne ((hnew b hthis').2 a ha hsame).symm
  · have hsame := (SourceTable.name_eq_iff (hall a ha) (hall b hb)).mp hname
    exact hne ((hnew a hthis).2 b hb hsame)

section Step
variable {s s' : History Client Key Rows Copies} {event : FederationEvent Client}

omit [DecidableEq Key] in
theorem plain_of_sources {wanted : Option (List (List Char))}
    {state : Federation Client Key Rows Copies}
    (h : ∀ a ∈ FederationEvent.sources state (.register connId wanted), a.Plain) :
    ∀ mt ∈ state.app.migrationTables.filter (MigrationTable.selected connId wanted),
      mt.location.isSome → LowerWord mt.rakeName := by
  intro mt hmt hlocation
  exact h (.migrated connId mt.source)
    (List.mem_map.mpr ⟨mt, List.mem_filter.mpr ⟨hmt, hlocation⟩, rfl⟩)

/-- What a step that is clear keeps. -/
theorem FederationEvent.Clear.federated (hnames : ReadsNames engines providers)
    (hclear : event.Clear s) (hstep : event.step engines providers s = some s')
    (h : Federated engines providers s ∧ ∀ a ∈ s.given, a.Plain) :
    Federated engines providers s' ∧ ∀ a ∈ s'.given, a.Plain := by
  obtain ⟨hfederated, hplain⟩ := h
  obtain ⟨hsources, hevent⟩ := hclear
  obtain ⟨hplain', hdistinct'⟩ := names_distinct hplain hfederated.distinct hsources
  cases event with
  | connect connId client =>
    cases hstep
    refine ⟨⟨hfederated.distinct, fun r hr => ?_, hfederated.migrated⟩, hplain⟩
    obtain ⟨client', t, columns, hclient, hrest⟩ := hfederated.trino r hr
    refine ⟨client', t, columns, ?_, hrest⟩
    by_cases hsame : r.1 = connId
    · have hkept := hevent r hr hsame
      rw [hsame, hkept] at hclient
      rw [hsame]
      simpa using hclient
    · simpa [hsame] using hclient
  | registerTrino connId client tree columns completed =>
    unfold FederationEvent.step at hstep
    dsimp only at hstep
    split_ifs at hstep
    cases hstep
    obtain ⟨hkept, hregistered⟩ := registerProviders_spec providers
      (tree.catalogs.map fun catalog => trinoSchema catalog.name)
      (resolvedProviders client columns completed) (s.now.app.lake, [])
    refine ⟨⟨hdistinct', fun r hr => ?_, fun t ht => (hfederated.migrated t ht).kept hkept⟩, hplain'⟩
    rcases List.mem_append.mp hr with hold | hnew
    · obtain ⟨client', t, columns', hclient, hgiven, hname, hreads⟩ := hfederated.trino r hold
      exact ⟨client', t, columns', hclient, List.mem_append_left _ hgiven, hname, hreads.kept hkept⟩
    · obtain ⟨name, hname, rfl⟩ := List.mem_map.mp hnew
      rcases hregistered name hname with hnone | ⟨p, hp, rfl, hlookup⟩
      · cases hnone
      obtain ⟨t, ht, hprovider⟩ := List.mem_filterMap.mp hp
      split_ifs at hprovider with hcolumns
      cases hprovider
      have hgiven : SourceTable.trino connId t ∈
          (completed.filter fun t => !(columns t).isEmpty).map (SourceTable.trino connId) :=
        List.mem_map.mpr ⟨t, List.mem_filter.mpr ⟨ht, by simpa using hcolumns⟩, rfl⟩
      obtain ⟨hschema, htable⟩ := (hsources _ hgiven).1
      exact ⟨client, t, columns t, hevent, List.mem_append_right _ hgiven, rfl,
        _, hnames.qualified _ _ hschema htable, hlookup⟩
  | discover tables =>
    cases hstep
    refine ⟨⟨hfederated.distinct, hfederated.trino, fun t ht => ?_⟩, hplain⟩
    obtain ⟨mt, -, rfl⟩ := List.mem_map.mp ht
    intro hregistered
    cases hregistered
  | register connId wanted =>
    cases hstep
    obtain ⟨hkept, -, hreads⟩ := migrationRegister_spec hnames hfederated.migrated hevent
      (plain_of_sources fun a ha => (hsources a ha).1)
    refine ⟨⟨hdistinct', fun r hr => ?_, hreads⟩, hplain'⟩
    obtain ⟨client', t, columns', hclient, hgiven, hname, hread⟩ := hfederated.trino r hr
    exact ⟨client', t, columns', hclient, List.mem_append_left _ hgiven, hname, hread.kept hkept⟩

theorem federated_start (lake : Lake Key Rows Copies) (readOnlyTables : ReadOnlyTables)
    (schemas : List (List Char)) :
    Federated engines providers (History.start lake readOnlyTables schemas) where
  distinct _ ha := absurd ha List.not_mem_nil
  trino _ hr := absurd hr List.not_mem_nil
  migrated _ ht := absurd ht List.not_mem_nil

/-- After every run of clear steps each name stands for its own table over its own connection, and a
request that is clear then changes the entries of its connection only. -/
theorem federated_run (hnames : ReadsNames engines providers) {lake : Lake Key Rows Copies}
    {readOnlyTables : ReadOnlyTables} {schemas : List (List Char)}
    {events : List (FederationEvent Client)}
    (halong : Run.Along (FederationEvent.step engines providers) (fun s event => event.Clear s)
      (History.start lake readOnlyTables schemas) events)
    (hrun : Run.run (FederationEvent.step engines providers)
      (History.start lake readOnlyTables schemas) events = some s) :
    Federated engines providers s ∧ ∀ connId wanted,
      (FederationEvent.register connId wanted : FederationEvent Client).Clear s →
        OnlyOwn connId s.now.app.migrationTables
          (migrationRegister engines connId wanted s.now.app).1.migrationTables := by
  have hstart : Federated engines providers (History.start lake readOnlyTables schemas) ∧
      ∀ a ∈ (History.start lake readOnlyTables schemas : History Client Key Rows Copies).given,
        a.Plain :=
    ⟨federated_start lake readOnlyTables schemas, fun a ha => absurd ha List.not_mem_nil⟩
  have hend := Run.invariant (I := fun s => Federated engines providers s ∧ ∀ a ∈ s.given, a.Plain)
    (fun s event s' h hclear hstep => hclear.federated hnames hstep h) hstart halong hrun
  refine ⟨hend.1, fun connId wanted hclear => ?_⟩
  obtain ⟨hsources, hevent⟩ := hclear
  exact (migrationRegister_spec hnames hend.1.migrated hevent
    (plain_of_sources fun a ha => (hsources a ha).1)).2.1

end Step

end

section Orders

/-- DataFusion with tables in schemas. -/
def schemaEngines : Engines (List Char × List Char) Unit Unit Unit where
  dataFusion :=
    { tableReference := fun name => ("public".toList, name)
      fromItem := fun name => some (if '.' ∈ name then
        (name.takeWhile (· ≠ '.'), (name.dropWhile (· ≠ '.')).tail) else ("public".toList, name))
      register := fun _ _ => .ok ()
      execute := fun _ catalog => catalog }
  run := fun _ lake => (lake, .ok [])
  schemas := fun _ => []
  memTable := fun _ _ => .error "no table"
  accepts := fun _ => .ok ()
  nameInUse := fun _ => "The table already exists"
  columns := fun _ => []
  numRows := fun _ => 0
  duckdb := none
  polars := none

def letterCodes (s : List Char) : List ℕ := s.map Char.toNat

theorem letterCodes_injective : Function.Injective letterCodes :=
  List.map_injective_iff.mpr fun _ _ h => Char.toNat_inj.mp h

def columnCode (c : TrinoColumnInfo) : List ℕ × List ℕ × Bool :=
  (letterCodes c.name, letterCodes c.dataType, c.nullable)

theorem columnCode_injective : Function.Injective columnCode := by
  intro a b h
  obtain ⟨hname, hrest⟩ := Prod.mk.inj h
  obtain ⟨htype, hnullable⟩ := Prod.mk.inj hrest
  cases a
  cases b
  obtain rfl := letterCodes_injective hname
  obtain rfl := letterCodes_injective htype
  obtain rfl : _ = _ := hnullable
  rfl

/-- Connections are numbers. -/
def numberedProviders : Providers ℕ (List Char × List Char) where
  reference := Prod.mk
  id p := Encodable.encode (p.client, letterCodes p.source.catalog, letterCodes p.source.schema,
    letterCodes p.source.table, p.columns.map columnCode)
  id_injective := by
    intro a b h
    obtain ⟨hclient, hrest⟩ := Prod.mk.inj (Encodable.encode_injective h)
    obtain ⟨hcatalog, hrest⟩ := Prod.mk.inj hrest
    obtain ⟨hschema, hrest⟩ := Prod.mk.inj hrest
    obtain ⟨htable, hcolumns⟩ := Prod.mk.inj hrest
    obtain ⟨client, ⟨catalog, schema, table⟩, columns⟩ := a
    obtain ⟨client', ⟨catalog', schema', table'⟩, columns'⟩ := b
    obtain rfl : client = client' := hclient
    obtain rfl := letterCodes_injective hcatalog
    obtain rfl := letterCodes_injective hschema
    obtain rfl := letterCodes_injective htable
    obtain rfl := List.map_injective_iff.mpr columnCode_injective hcolumns
    rfl

theorem readsNames_schemaEngines : ReadsNames schemaEngines numberedProviders where
  qualified catalog name hcatalog hname := by
    have hbefore := Marked.takeWhile_before_mark hcatalog.dot_notMem name
    have hwhole : (trinoSchema catalog ++ '.' :: name).takeWhile (· ≠ '.') ++
        (trinoSchema catalog ++ '.' :: name).dropWhile (· ≠ '.') =
          trinoSchema catalog ++ '.' :: name := List.takeWhile_append_dropWhile
    rw [hbefore] at hwhole
    have hafter := List.append_cancel_left hwhole
    have hdotted : '.' ∈ trinoSchema catalog ++ '.' :: name := by simp
    change some _ = some _
    rw [if_pos hdotted, hbefore, hafter]
    rfl
  bare t ht := by
    change some _ = some _
    rw [if_neg ht.dot_notMem]
    rfl
  firstRows name lake _ := rfl

def salesTree (schemas : List (List Char × List (List Char))) : TrinoCatalogTree where
  catalogs := [⟨"lake".toList, schemas.map fun (name, tables) => ⟨name, tables⟩⟩]

/-- Every table has a number. -/
def idColumn : TrinoTable → List TrinoColumnInfo := fun _ => [⟨"id".toList, "bigint".toList, false⟩]

def registerTables (connId : List Char) (client : ℕ)
    (schemas : List (List Char × List (List Char))) : FederationEvent ℕ :=
  .registerTrino connId client (salesTree schemas) idColumn (salesTree schemas).tableTasks

/-- The orders of a lake over a connection. -/
def lakeOrders (connId path : List Char) : MigrationTable where
  connId := connId
  catalog := "lake".toList
  schemaName := "sales".toList
  tableName := "orders".toList
  format := "iceberg".toList
  location := some path
  registeredInRake := false
  rakeTableName := none
  status := "discovered"
  error := none

/-- No tables yet. -/
def noHistory : History ℕ (List Char × List Char) Unit Unit :=
  .start ⟨∅, fun _ => (), (), []⟩ .empty []

abbrev stepOrders := FederationEvent.step schemaEngines numberedProviders

/-- Two connections with catalogs of one name, and one of them again. -/
def registerSales : List (FederationEvent ℕ) :=
  [.connect "east".toList 1, registerTables "east".toList 1 [("sales".toList, ["orders".toList])],
    .connect "west".toList 2, registerTables "west".toList 2 [("stock".toList, ["items".toList])],
    .connect "east".toList 1, registerTables "east".toList 1 [("sales".toList, ["orders".toList])],
    .discover [lakeOrders "east".toList "s3://east/orders".toList],
    .register "east".toList none]

theorem federated_run_orders : ∃ s, Run.run stepOrders noHistory registerSales = some s ∧
    Federated schemaEngines numberedProviders s := by
  have halong : Run.Along stepOrders (fun s event => event.Clear s) noHistory registerSales := by
    decide +kernel
  have hruns : (Run.run stepOrders noHistory registerSales).isSome = true := by
    decide +kernel
  obtain ⟨s, hrun⟩ := Option.isSome_iff_exists.mp hruns
  exact ⟨s, hrun, (federated_run readsNames_schemaEngines halong hrun).1⟩

/-- Two tables whose names run together. -/
def registerStock : List (FederationEvent ℕ) :=
  [.connect "east".toList 1, registerTables "east".toList 1
    [("stock_east".toList, ["items".toList]), ("stock".toList, ["east_items".toList])]]

/-- A connection is made again, to another server. -/
def moveSales : List (FederationEvent ℕ) :=
  [.connect "east".toList 1, registerTables "east".toList 1 [("sales".toList, ["orders".toList])],
    .connect "east".toList 2, registerTables "east".toList 2 [("sales".toList, ["orders".toList])]]

/-- The names of two tables run together; a name goes on reading over the connection that there was;
and the entry of another connection is updated. -/
theorem not_federated_orders :
    (∃ s, Run.run stepOrders noHistory registerStock = some s ∧
      ¬ Federated schemaEngines numberedProviders s) ∧
    (∃ s, Run.run stepOrders noHistory moveSales = some s ∧
      ¬ Federated schemaEngines numberedProviders s) ∧
    ∃ s, Run.run stepOrders noHistory [.discover [lakeOrders "east".toList "s3://east/orders".toList,
        lakeOrders "west".toList "s3://west/orders".toList]] = some s ∧
      ¬ OnlyOwn "west".toList s.now.app.migrationTables
        (migrationRegister schemaEngines "west".toList none s.now.app).1.migrationTables := by
  refine ⟨?_, ?_, ?_⟩
  · have hruns : (Run.run stepOrders noHistory registerStock).map (·.given) =
        some [.trino "east".toList ⟨"lake".toList, "stock_east".toList, "items".toList⟩,
          .trino "east".toList ⟨"lake".toList, "stock".toList, "east_items".toList⟩] := by
      decide +kernel
    obtain ⟨s, hrun, hgiven⟩ := Option.map_eq_some_iff.mp hruns
    refine ⟨s, hrun, fun h => ?_⟩
    have hdistinct := h.distinct
    rw [hgiven] at hdistinct
    exact hdistinct _ List.mem_cons_self _ (List.mem_cons_of_mem _ List.mem_cons_self)
      (by decide) (by decide)
  · have hruns : (Run.run stepOrders noHistory moveSales).map
        (fun s => (s.reported, s.now.connections "east".toList)) =
          some ([("east".toList, "trino_lake.sales_orders".toList)], some 2) := by
      decide +kernel
    obtain ⟨s, hrun, hstate⟩ := Option.map_eq_some_iff.mp hruns
    obtain ⟨hreported, hconnection⟩ := Prod.mk.inj hstate
    have hlookup : (Run.run stepOrders noHistory moveSales).map
        (fun s => s.now.app.lake.catalog.lookup ("trino_lake".toList, "sales_orders".toList)) =
          some (some (.other (numberedProviders.id ⟨1, ⟨"lake".toList, "sales".toList,
            "orders".toList⟩, [⟨"id".toList, "bigint".toList, false⟩]⟩))) := rfl
    rw [hrun, Option.map_some, Option.some.injEq] at hlookup
    refine ⟨s, hrun, fun h => ?_⟩
    have htrino := h.trino
    rw [hreported] at htrino
    obtain ⟨client, t, columns, hclient, -, -, key, hname, hkey⟩ := htrino _ List.mem_cons_self
    obtain rfl : ("trino_lake".toList, "sales_orders".toList) = key := by
      apply Option.some.inj
      rw [← hname]
      decide +kernel
    rw [hlookup, Option.some.injEq, Source.other.injEq] at hkey
    have hmoved : (1 : ℕ) = client :=
      congrArg TrinoTableProvider.client (numberedProviders.id_injective hkey)
    rw [hconnection, ← hmoved] at hclient
    exact absurd hclient (by decide)
  · have hothers : ((migrationRegister schemaEngines "west".toList none
        ⟨⟨∅, fun _ => (), (), []⟩, .empty,
          [(lakeOrders "east".toList "s3://east/orders".toList).fresh,
            (lakeOrders "west".toList "s3://west/orders".toList).fresh]⟩).1.migrationTables.filter
              fun t => t.connId ≠ "west".toList) ≠
        [(lakeOrders "east".toList "s3://east/orders".toList).fresh,
          (lakeOrders "west".toList "s3://west/orders".toList).fresh].filter
            fun t => t.connId ≠ "west".toList := by
      decide +kernel
    exact ⟨_, rfl, fun h => hothers h.others⟩

end Orders

end RustLake.Routes
