import RustLake.Discovery.Latest
import RustLake.Engine.Context

/-! The objects of a bucket as a tree of directories, and its listing directory by directory. -/
namespace RustLake.Discovery
open ObjectStore

abbrev Name := List Char

/-- The objects under the segments of their paths. -/
structure Tree (Body : Type) where
  objects : AList fun _ : List Name => Body
  paths : ∀ key ∈ objects, ∀ name ∈ key, name ≠ [] ∧ '/' ∉ name

namespace Tree
variable {Body : Type} {t : Tree Body} {dir : List Name} {name : Name}

/-- What the paths of the objects below a directory have after it. -/
def below (t : Tree Body) (dir : List Name) : List (List Name) :=
  t.objects.keys.filterMap (·.dropPrefix? dir)

/-- The common prefixes of `list_with_delimiter`. -/
def subdirs (t : Tree Body) (dir : List Name) : List Name :=
  ((t.below dir).filterMap fun rest => match rest with
    | name :: _ :: _ => some name
    | _ => none).dedup

/-- The objects of `list_with_delimiter`. -/
def files (t : Tree Body) (dir : List Name) : List Name :=
  (t.below dir).filterMap fun rest => match rest with
    | [name] => some name
    | _ => none

theorem mem_below {rest : List Name} : rest ∈ t.below dir ↔ dir ++ rest ∈ t.objects := by
  unfold below
  rw [List.mem_filterMap]
  constructor
  · rintro ⟨key, hkey, hdrop⟩
    obtain ⟨front, rfl, hfront⟩ := List.dropPrefix?_eq_some_iff.mp hdrop
    rw [← eq_of_beq hfront]
    exact AList.mem_keys.mp hkey
  · intro hmem
    exact ⟨dir ++ rest, AList.mem_keys.mpr hmem,
      List.dropPrefix?_eq_some_iff.mpr ⟨dir, rfl, beq_self_eq_true _⟩⟩

theorem mem_subdirs : name ∈ t.subdirs dir ↔
    ∃ next rest, dir ++ name :: next :: rest ∈ t.objects := by
  unfold subdirs
  rw [List.mem_dedup, List.mem_filterMap]
  constructor
  · rintro ⟨below, hbelow, hname⟩
    match below, hname with
    | _ :: next :: rest, rfl => exact ⟨next, rest, mem_below.mp hbelow⟩
  · rintro ⟨next, rest, hmem⟩
    exact ⟨name :: next :: rest, mem_below.mpr hmem, rfl⟩

theorem mem_files : name ∈ t.files dir ↔ dir ++ [name] ∈ t.objects := by
  unfold files
  rw [List.mem_filterMap]
  constructor
  · rintro ⟨below, hbelow, hname⟩
    match below, hname with
    | [_], rfl => exact mem_below.mp hbelow
  · intro hmem
    exact ⟨[name], mem_below.mpr hmem, rfl⟩

theorem nodup_subdirs (t : Tree Body) (dir : List Name) : (t.subdirs dir).Nodup :=
  List.nodup_dedup _

theorem clean_of_mem_subdirs (h : name ∈ t.subdirs dir) : name ≠ [] ∧ '/' ∉ name := by
  obtain ⟨next, rest, hmem⟩ := mem_subdirs.mp h
  exact t.paths _ hmem name (List.mem_append_right _ List.mem_cons_self)

/-- A directory with a file in it is listed. -/
theorem mem_subdirs_of_mem_files {file : Name} (h : file ∈ t.files (dir ++ [name])) :
    name ∈ t.subdirs dir := by
  rw [mem_files, List.append_assoc] at h
  exact mem_subdirs.mpr ⟨file, [], h⟩

end Tree

end RustLake.Discovery

/-! The scan of a warehouse for tables: directories are probed by the names in them, level by level,
and what looks like a table is then read. No listing and no read fails. -/
namespace RustLake.Discovery
open Json ObjectStore Text

def maxScanDepth : ℕ := 5

inductive TableFormat where
  | iceberg | delta | hudi | parquet
deriving DecidableEq, Repr

structure DiscoveredTable where
  database : Name
  tableName : Name
  s3Location : List Char
  format : TableFormat
  metadataLocation : Option (List Char)
deriving DecidableEq, Repr

structure DirProbe where
  isTable : Bool
  hasSubdirs : Bool
deriving DecidableEq, Repr

def trimStartMatches (pat s : List Char) : List Char :=
  s.length.repeat (fun s => (s.dropPrefix? pat).getD s) s

def normalizePrefix (pfx : List Char) : List Char :=
  match afterFirst? '/' (trimStartMatches "s3://".toList pfx) with
  | none | some [] => []
  | some pathOnly => if pathOnly.getLast? = some '/' then pathOnly else pathOnly ++ ['/']

def isParquetFile (file : Name) : Bool :=
  ".parquet".toList.isSuffixOf file || ".snappy.parquet".toList.isSuffixOf file

/-- Names of directories that the scan goes into. -/
def isVisible (name : Name) : Bool :=
  !name.isEmpty && name.head? != some '.' && name.head? != some '_'

def isHexdigit (c : Char) : Bool :=
  c.isDigit || decide ('a' ≤ c ∧ c ≤ 'f') || decide ('A' ≤ c ∧ c ≤ 'F')

/-- A table's name without the UUID at its end. -/
def stripUuidSuffix (name : Name) : Name :=
  let suffix := afterLast '-' name
  let clean := name.take (name.length - suffix.length - 1)
  if '-' ∈ name ∧ suffix.length = 32 ∧ suffix.all isHexdigit ∧ clean ≠ [] then clean
  else
    match splitAtByte? (byteLength name - 36) name with
    | none => name
    | some (front, suffix) =>
      let parts := suffix.splitOn '-'
      if 37 < byteLength name ∧ front.getLast? = some '-' ∧
          parts.map List.length = [8, 4, 4, 4, 12] ∧ parts.all (·.all isHexdigit) ∧
          front.dropLast ≠ [] then front.dropLast
      else name

def composeDatabaseName : List Name → Name
  | [] => "default".toList
  | [segment] => Engine.trimEndMatches ".db".toList segment
  | _ :: segments => ['_'].intercalate (segments.map (Engine.trimEndMatches ".db".toList))

section Store
variable {Body : Type} (fromSlice : Body → Option Value) (t : Tree Body)

def listDirectories (path : List Char) : List Name := (t.subdirs (segments path)).filter isVisible

def probeDirectory (path : List Char) : DirProbe :=
  let subdirNames := t.subdirs (segments path)
  let hasMetadata := subdirNames.contains "metadata".toList
  let hasDeltaLog := subdirNames.contains "_delta_log".toList
  let hasHoodie := subdirNames.contains ".hoodie".toList
  let hasDataDir := subdirNames.contains "data".toList
  let hasParquetFiles := (t.files (segments path)).any isParquetFile
  { isTable := hasMetadata || hasDeltaLog || hasHoodie || hasParquetFiles ||
      (hasDataDir && !hasMetadata)
    hasSubdirs := !subdirNames.isEmpty }

/-- `table_path.trim_end_matches('/')`. -/
def tableLocation (path : List Char) : List Char := path.rdropWhile (· = '/')

def readFile (path : List Char) : Option Body := t.objects.lookup (segments path)

/-- The path of the newest metadata file in a directory, if it can be read. -/
def icebergMetadata (path : List Char) : Option (List Char) := do
  let metadataPrefix := path ++ "metadata/".toList
  let file ← findLatestMetadata ((t.files (segments metadataPrefix)).map String.ofList)
  let body ← readFile t (metadataPrefix ++ file.toList)
  let _ ← fromSlice body
  return metadataPrefix ++ file.toList

/-- The path of the last commit in a directory's log. -/
def deltaCommit (path : List Char) : Option (List Char) := do
  let deltaPrefix := path ++ "_delta_log/".toList
  let jsonFiles := (t.files (segments deltaPrefix)).filter (".json".toList.isSuffixOf ·)
  let file ← (jsonFiles.map String.ofList).max?
  let _ ← readFile t (deltaPrefix ++ file.toList)
  return deltaPrefix ++ file.toList

def hoodieDirectory (path : List Char) : Option (List Char) :=
  let hoodiePrefix := path ++ ".hoodie/".toList
  if (t.files (segments hoodiePrefix)).isEmpty then none else some hoodiePrefix

def parquetCount (path : List Char) : ℕ :=
  (t.files (segments path)).countP isParquetFile +
    if (t.subdirs (segments path)).contains "data".toList then
      (t.files (segments (path ++ "data/".toList))).countP isParquetFile
    else 0

/-- The formats are tried one after the other. -/
def discoverTable (database tableName : Name) (path : List Char) : Option DiscoveredTable :=
  let table := DiscoveredTable.mk database tableName (tableLocation path)
  ((((icebergMetadata fromSlice t path).map fun file => table .iceberg (some file)).or
    ((deltaCommit t path).map fun file => table .delta (some file))).or
    ((hoodieDirectory t path).map fun dir => table .hudi (some dir))).or
    (if parquetCount t path = 0 then none else some (table .parquet none))

/-- The directories in a directory, each probed. -/
def probeSubdirs (path : List Char) : List (Name × DirProbe) :=
  (listDirectories t path).map fun dir => (dir, probeDirectory t (path ++ dir ++ ['/']))

/-- Those that look like tables. -/
def tableNames (path : List Char) : List Name :=
  ((probeSubdirs t path).filter fun p => p.2.isTable).map Prod.fst

/-- Those to go into. -/
def deeperDirs (path : List Char) : List Name :=
  ((probeSubdirs t path).filter fun p => !p.2.isTable && p.2.hasSubdirs).map Prod.fst

/-- The levels that are left, each a list of directories with their segments and their paths. -/
def explore : ℕ → List (List Name × List Char) → List (Name × Name × List Char)
  | 0, _ => []
  | n + 1, dirs =>
    (dirs.flatMap fun (segments, path) => (tableNames t path).map fun dir =>
      (composeDatabaseName segments, stripUuidSuffix dir, path ++ dir ++ ['/'])) ++
    explore n (dirs.flatMap fun (segments, path) => (deeperDirs t path).map fun deeper =>
      (segments ++ [deeper], path ++ deeper ++ ['/']))

def allTablePaths (pfx : List Char) : List (Name × Name × List Char) :=
  ((tableNames t pfx).map fun name => ("default".toList, name, pfx ++ name ++ ['/'])) ++
    explore t (maxScanDepth - 1) ((deeperDirs t pfx).map fun db => ([db], pfx ++ db ++ ['/']))

/-- The tables that the scan finds, in one of the orders in which the calls may return. -/
def scanWarehouse (warehousePrefix : List Char) : List DiscoveredTable :=
  (allTablePaths t (normalizePrefix warehousePrefix)).filterMap fun entry =>
    discoverTable fromSlice t entry.1 entry.2.1 entry.2.2

end Store

end RustLake.Discovery
