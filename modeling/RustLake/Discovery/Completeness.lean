import RustLake.Discovery.Warehouse

/-! Whether the scan of a warehouse finds every table: which directories it reports, and what hides the
others. -/
namespace RustLake.Discovery
open Json ObjectStore Text

section Property
variable {Body : Type} (fromSlice : Body → Option Value) (t : Tree Body) (pfx : List Char)

/-- The path by which the scan goes to a directory below the prefix. -/
def dirPath (dir : List Name) : List Char := pfx ++ dir.flatMap (· ++ ['/'])

/-- The directory below the prefix. -/
def place (dir : List Name) : List Name := (splitSlash pfx).filter (· ≠ []) ++ dir

/-- A directory holds a metadata file that can be read, a commit log or a Parquet file. -/
def HoldsTable (dir : List Name) : Prop :=
  (∃ file body, ".metadata.json".toList <:+ file ∧ (fromSlice body).isSome ∧
      t.objects.lookup (dir ++ ["metadata".toList, file]) = some body) ∨
    (∃ file ∈ t.files (dir ++ ["_delta_log".toList]), ".json".toList <:+ file) ∨
    ∃ file ∈ t.files dir, isParquetFile file = true

/-- A directory that the scan has to report. -/
structure InScope (dir : List Name) : Prop where
  nonempty : dir ≠ []
  depth : dir.length ≤ maxScanDepth
  holds : HoldsTable fromSlice t (place pfx dir)
  visible : ∀ name ∈ dir, name.head? ≠ some '.' ∧ name.head? ≠ some '_'
  ancestors : ∀ a, a ≠ [] → a <+: dir → a ≠ dir → ∀ database tableName,
    discoverTable fromSlice t database tableName (dirPath pfx a) = none

/-- In whatever order the calls return, one of the tables found is at the directory. -/
def ReportedOnce (warehousePrefix : List Char) (dir : List Name) : Prop :=
  ∀ tables : List DiscoveredTable, tables.Perm (scanWarehouse fromSlice t warehousePrefix) →
    tables.countP (fun table => decide (table.s3Location =
      tableLocation (dirPath (normalizePrefix warehousePrefix) dir))) = 1

/-- The scan reports every table of the warehouse once. -/
def Complete (warehousePrefix : List Char) : Prop :=
  ∀ dir, InScope fromSlice t (normalizePrefix warehousePrefix) dir →
    ReportedOnce fromSlice t warehousePrefix dir

/-- A directory with a subdirectory of one of four names, or with a Parquet file in it. -/
def LooksLikeTable (path : List Char) : Prop :=
  (∃ name ∈ ["metadata", "_delta_log", ".hoodie", "data"],
      name.toList ∈ t.subdirs (segments path)) ∨
    ∃ file ∈ t.files (segments path), isParquetFile file = true

/-- What is read in the directory is a table of one of the formats. -/
def Accepts (path : List Char) : Prop :=
  (icebergMetadata fromSlice t path).isSome ∨ (deltaCommit t path).isSome ∨
    (hoodieDirectory t path).isSome ∨ parquetCount t path ≠ 0

/-- The scan gets to the directory: its path leads there name by name, no directory on the way looks
like a table, and there is one in the end. -/
structure Findable (dir : List Name) : Prop where
  listed : ∀ a name, a ++ [name] <+: dir → name ∈ t.subdirs (segments (dirPath pfx a))
  passed : ∀ a, a ≠ [] → a <+: dir → a ≠ dir → ¬ LooksLikeTable t (dirPath pfx a)
  accepted : Accepts fromSlice t (dirPath pfx dir)

end Property

section Paths
variable {pfx : List Char}

theorem dirPath_concat (dir : List Name) (name : Name) :
    dirPath pfx (dir ++ [name]) = dirPath pfx dir ++ name ++ ['/'] := by
  unfold dirPath
  rw [List.flatMap_append, List.flatMap_cons, List.flatMap_nil, List.append_nil,
    List.append_assoc, List.append_assoc]

/-- A directory with slashes after all its names is cut into them again. -/
theorem splitSlash_flatMap {dir : List Name} (h : ∀ name ∈ dir, '/' ∉ name) :
    splitSlash (dir.flatMap (· ++ ['/'])) = dir ++ [[]] := by
  induction dir with
  | nil => rfl
  | cons name dir ih =>
    obtain ⟨hname, hdir⟩ := List.forall_mem_cons.mp h
    rw [List.flatMap_cons, List.append_assoc, List.singleton_append, splitSlash_append,
      splitSlash_of_notMem hname, ih hdir]
    rfl

theorem dirPath_inj (pfx : List Char) {dir other : List Name} (hdir : ∀ name ∈ dir, '/' ∉ name)
    (hother : ∀ name ∈ other, '/' ∉ name) (h : dirPath pfx dir = dirPath pfx other) :
    dir = other := by
  have hsplit := congrArg splitSlash (List.append_cancel_left h)
  rw [splitSlash_flatMap hdir, splitSlash_flatMap hother] at hsplit
  exact List.append_cancel_right hsplit

/-- The location of a table is its path without the last slash. -/
theorem tableLocation_dirPath {dir : List Name} (hne : dir ≠ [])
    (h : ∀ name ∈ dir, name ≠ [] ∧ '/' ∉ name) :
    tableLocation (dirPath pfx dir) ++ ['/'] = dirPath pfx dir := by
  obtain ⟨front, name, rfl⟩ := (List.eq_nil_or_concat dir).resolve_left hne
  rw [List.concat_eq_append] at h ⊢
  obtain ⟨hname, hslash⟩ := h name (List.mem_append_right _ List.mem_cons_self)
  obtain ⟨start, c, rfl⟩ := (List.eq_nil_or_concat name).resolve_left hname
  have hc : c ≠ '/' := fun hc => hslash (by rw [List.concat_eq_append, hc]; simp)
  rw [dirPath_concat, List.concat_eq_append, ← List.append_assoc (dirPath pfx front)]
  unfold tableLocation
  rw [List.rdropWhile_concat_pos _ _ _ (by simp), List.rdropWhile_concat_neg _ _ _ (by simpa using hc)]

theorem tableLocation_inj {dir other : List Name} (hne : dir ≠ []) (hne' : other ≠ [])
    (hdir : ∀ name ∈ dir, name ≠ [] ∧ '/' ∉ name)
    (hother : ∀ name ∈ other, name ≠ [] ∧ '/' ∉ name)
    (h : tableLocation (dirPath pfx dir) = tableLocation (dirPath pfx other)) : dir = other := by
  apply dirPath_inj pfx (fun name hname => (hdir name hname).2)
    fun name hname => (hother name hname).2
  rw [← tableLocation_dirPath hne hdir, ← tableLocation_dirPath hne' hother, h]

end Paths

section Route
variable {Body : Type} {t : Tree Body} {pfx : List Char}

/-- The scan goes on from a directory, name by name, and takes what it gets to for a table. -/
def Route (t : Tree Body) (pfx : List Char) : List Name → List Name → Prop
  | _, [] => False
  | dir, [name] => name ∈ tableNames t (dirPath pfx dir)
  | dir, name :: next :: rest =>
    name ∈ deeperDirs t (dirPath pfx dir) ∧ Route t pfx (dir ++ [name]) (next :: rest)

/-- The directories that are taken for tables some levels below others. -/
def found (t : Tree Body) (pfx : List Char) : ℕ → List (List Name) → List (List Name)
  | 0, _ => []
  | n + 1, dirs =>
    (dirs.flatMap fun dir => (tableNames t (dirPath pfx dir)).map fun name => dir ++ [name]) ++
      found t pfx n
        (dirs.flatMap fun dir => (deeperDirs t (dirPath pfx dir)).map fun name => dir ++ [name])

theorem explore_paths (n : ℕ) (dirs : List (List Name)) :
    (explore t n (dirs.map fun dir => (dir, dirPath pfx dir))).map (fun entry => entry.2.2) =
      (found t pfx n dirs).map (dirPath pfx) := by
  induction n generalizing dirs with
  | zero => rfl
  | succ n ih =>
    have hnext : (dirs.map fun dir => (dir, dirPath pfx dir)).flatMap
        (fun entry => (deeperDirs t entry.2).map fun deeper =>
          (entry.1 ++ [deeper], entry.2 ++ deeper ++ ['/'])) =
        (dirs.flatMap fun dir => (deeperDirs t (dirPath pfx dir)).map fun name =>
          dir ++ [name]).map fun dir => (dir, dirPath pfx dir) := by
      rw [List.flatMap_map, List.map_flatMap]
      refine List.flatMap_congr fun dir _ => ?_
      rw [List.map_map]
      exact List.map_congr_left fun name _ => by rw [Function.comp_apply, dirPath_concat]
    unfold explore found
    rw [List.map_append, List.map_append, hnext, ih, List.flatMap_map, List.map_flatMap,
      List.map_flatMap]
    congr 1
    refine List.flatMap_congr fun dir _ => ?_
    rw [List.map_map, List.map_map]
    exact List.map_congr_left fun name _ => (dirPath_concat dir name).symm

/-- The paths that the scan reads. -/
theorem allTablePaths_paths : (allTablePaths t pfx).map (fun entry => entry.2.2) =
    (found t pfx maxScanDepth [[]]).map (dirPath pfx) := by
  have hroot : dirPath pfx [] = pfx := List.append_nil pfx
  have hdeeper : (deeperDirs t pfx).map (fun db => ([db], pfx ++ db ++ ['/'])) =
      ((deeperDirs t pfx).map fun name => ([] : List Name) ++ [name]).map fun dir =>
        (dir, dirPath pfx dir) := by
    rw [List.map_map]
    refine List.map_congr_left fun name _ => ?_
    rw [Function.comp_apply, dirPath_concat, hroot]
    rfl
  have hfound : found t pfx maxScanDepth [[]] =
      ((tableNames t pfx).map fun name => ([] : List Name) ++ [name]) ++
        found t pfx (maxScanDepth - 1) ((deeperDirs t pfx).map fun name => [] ++ [name]) := by
    change found t pfx (maxScanDepth - 1 + 1) [[]] = _
    rw [found, List.flatMap_singleton, List.flatMap_singleton, hroot]
  unfold allTablePaths
  rw [List.map_append, hdeeper, explore_paths, hfound, List.map_append, List.map_map, List.map_map]
  congr 1
  refine List.map_congr_left fun name _ => ?_
  rw [Function.comp_apply, Function.comp_apply, dirPath_concat, hroot]

/-- They are those that a route leads to. -/
theorem mem_found {n : ℕ} {dirs : List (List Name)} {e : List Name} :
    e ∈ found t pfx n dirs ↔
      ∃ dir ∈ dirs, ∃ rest, rest.length ≤ n ∧ Route t pfx dir rest ∧ e = dir ++ rest := by
  induction n generalizing dirs with
  | zero =>
    constructor
    · intro h
      cases h
    · rintro ⟨dir, -, rest, hlen, hroute, -⟩
      rw [List.length_eq_zero_iff.mp (Nat.le_zero.mp hlen)] at hroute
      exact hroute.elim
  | succ n ih =>
    unfold found
    rw [List.mem_append, ih]
    constructor
    · rintro (hnow | ⟨deeper, hdeeper, rest, hlen, hroute, rfl⟩)
      · obtain ⟨dir, hdir, hmap⟩ := List.mem_flatMap.mp hnow
        obtain ⟨name, hname, rfl⟩ := List.mem_map.mp hmap
        exact ⟨dir, hdir, [name], Nat.le_add_left 1 n, hname, rfl⟩
      · obtain ⟨dir, hdir, hmap⟩ := List.mem_flatMap.mp hdeeper
        obtain ⟨name, hname, rfl⟩ := List.mem_map.mp hmap
        cases rest with
        | nil => exact hroute.elim
        | cons next rest =>
          exact ⟨dir, hdir, name :: next :: rest, Nat.succ_le_succ hlen, ⟨hname, hroute⟩,
            List.append_assoc _ _ _⟩
    · rintro ⟨dir, hdir, rest, hlen, hroute, rfl⟩
      match rest, hroute with
      | [name], hroute =>
        exact Or.inl (List.mem_flatMap.mpr ⟨dir, hdir, List.mem_map_of_mem hroute⟩)
      | name :: next :: rest, ⟨hname, hroute⟩ =>
        right
        refine ⟨dir ++ [name], ?_, next :: rest, Nat.le_of_succ_le_succ hlen, hroute, ?_⟩
        · exact List.mem_flatMap.mpr ⟨dir, hdir, List.mem_map_of_mem hname⟩
        · exact (List.append_assoc dir [name] (next :: rest)).symm

theorem filter_probeSubdirs (p : DirProbe → Bool) (path : List Char) :
    ((probeSubdirs t path).filter fun entry => p entry.2).map Prod.fst =
      (listDirectories t path).filter fun dir => p (probeDirectory t (path ++ dir ++ ['/'])) := by
  unfold probeSubdirs
  rw [List.filter_map, List.map_map]
  exact List.map_id _

theorem nodup_listDirectories (path : List Char) : (listDirectories t path).Nodup :=
  (t.nodup_subdirs _).filter _

theorem mem_tableNames {path : List Char} {name : Name} : name ∈ tableNames t path ↔
    name ∈ listDirectories t path ∧ (probeDirectory t (path ++ name ++ ['/'])).isTable = true := by
  unfold tableNames
  rw [filter_probeSubdirs fun probe => probe.isTable, List.mem_filter]

theorem mem_deeperDirs {path : List Char} {name : Name} : name ∈ deeperDirs t path ↔
    name ∈ listDirectories t path ∧
      (probeDirectory t (path ++ name ++ ['/'])).isTable = false ∧
      (probeDirectory t (path ++ name ++ ['/'])).hasSubdirs = true := by
  unfold deeperDirs
  rw [filter_probeSubdirs fun probe => !probe.isTable && probe.hasSubdirs, List.mem_filter,
    Bool.and_eq_true, Bool.not_eq_true']

theorem nodup_tableNames (path : List Char) : (tableNames t path).Nodup := by
  unfold tableNames
  rw [filter_probeSubdirs fun probe => probe.isTable]
  exact (nodup_listDirectories path).filter _

theorem nodup_deeperDirs (path : List Char) : (deeperDirs t path).Nodup := by
  unfold deeperDirs
  rw [filter_probeSubdirs fun probe => !probe.isTable && probe.hasSubdirs]
  exact (nodup_listDirectories path).filter _

/-- Directories with new names after them are all different. -/
theorem nodup_children {dirs : List (List Name)} {names : List Name → List Name}
    (hdirs : dirs.Nodup) (hnames : ∀ dir, (names dir).Nodup) :
    (dirs.flatMap fun dir => (names dir).map fun name => dir ++ [name]).Nodup := by
  rw [List.nodup_flatMap]
  constructor
  · intro dir _
    exact (hnames dir).map fun _ _ h => List.singleton_inj.mp (List.append_cancel_left h)
  · refine hdirs.imp fun hne => ?_
    intro child hchild hother
    obtain ⟨name, -, rfl⟩ := List.mem_map.mp hchild
    obtain ⟨name', -, hsame⟩ := List.mem_map.mp hother
    exact hne (List.append_inj_left' hsame rfl).symm

/-- No directory comes up twice. -/
theorem nodup_found {n k : ℕ} {dirs : List (List Name)} (hdirs : dirs.Nodup)
    (hlen : ∀ dir ∈ dirs, dir.length = k) : (found t pfx n dirs).Nodup := by
  induction n generalizing k dirs with
  | zero => exact List.nodup_nil
  | succ n ih =>
    have hdeeper : ∀ dir ∈ dirs.flatMap fun dir =>
        (deeperDirs t (dirPath pfx dir)).map fun name => dir ++ [name], dir.length = k + 1 := by
      intro child hchild
      obtain ⟨dir, hdir, hmap⟩ := List.mem_flatMap.mp hchild
      obtain ⟨name, -, rfl⟩ := List.mem_map.mp hmap
      rw [List.length_append, hlen dir hdir, List.length_singleton]
    unfold found
    rw [List.nodup_append]
    refine ⟨nodup_children hdirs fun dir => nodup_tableNames _,
      ih (nodup_children hdirs fun dir => nodup_deeperDirs _) hdeeper, ?_⟩
    intro e hnow e' hlater hsame
    obtain ⟨dir, hdir, hmap⟩ := List.mem_flatMap.mp hnow
    obtain ⟨name, -, rfl⟩ := List.mem_map.mp hmap
    obtain ⟨parent, hparent, rest, -, hroute, rfl⟩ := mem_found.mp hlater
    have hlengths := congrArg List.length hsame
    rw [List.length_append, List.length_append, hlen dir hdir, hdeeper parent hparent,
      List.length_singleton] at hlengths
    cases rest with
    | nil => exact hroute
    | cons next rest =>
      rw [List.length_cons] at hlengths
      omega

theorem isTable_iff (path : List Char) :
    (probeDirectory t path).isTable = true ↔ LooksLikeTable t path := by
  unfold probeDirectory LooksLikeTable
  simp only [Bool.or_eq_true, Bool.and_eq_true, Bool.not_eq_true', List.contains_iff_mem,
    List.any_eq_true, List.mem_cons, List.not_mem_nil, or_false, exists_eq_or_imp, exists_eq_left]
  have hnot : (t.subdirs (segments path)).contains "metadata".toList = false ↔
      "metadata".toList ∉ t.subdirs (segments path) := by
    rw [← List.contains_iff_mem, Bool.not_eq_true]
  rw [hnot]
  by_cases hmetadata : "metadata".toList ∈ t.subdirs (segments path)
  · exact iff_of_true (Or.inl (Or.inl (Or.inl (Or.inl hmetadata)))) (Or.inl (Or.inl hmetadata))
  · rw [and_iff_left hmetadata, or_right_comm]
    simp only [or_assoc]

theorem mem_listDirectories {path : List Char} {name : Name} (hvisible : isVisible name = true) :
    name ∈ listDirectories t path ↔ name ∈ t.subdirs (segments path) := by
  unfold listDirectories
  rw [List.mem_filter, and_iff_left hvisible]

/-- What holds at the ends of all beginnings of a path, by its first name. -/
theorem forall_concat_prefix_cons {Q : List Name → Name → Prop} {name : Name} {rest : List Name} :
    (∀ a n, a ++ [n] <+: name :: rest → Q a n) ↔
      Q [] name ∧ ∀ a n, a ++ [n] <+: rest → Q (name :: a) n := by
  constructor
  · intro h
    refine ⟨h [] name (List.prefix_append [name] rest), fun a n hbegins => h (name :: a) n ?_⟩
    exact (List.prefix_cons_inj name).mpr hbegins
  · rintro ⟨hfirst, hrest⟩ a n hbegins
    cases a with
    | nil =>
      obtain ⟨rfl, -⟩ := List.cons_prefix_cons.mp hbegins
      exact hfirst
    | cons b a =>
      obtain ⟨rfl, hmore⟩ := List.cons_prefix_cons.mp hbegins
      exact hrest a n hmore

/-- What holds of all directories on the way, by the first of them. -/
theorem forall_proper_prefix_cons {P : List Name → Prop} {name : Name} {rest : List Name}
    (hne : rest ≠ []) :
    (∀ a, a ≠ [] → a <+: name :: rest → a ≠ name :: rest → P a) ↔
      P [name] ∧ ∀ a, a ≠ [] → a <+: rest → a ≠ rest → P (name :: a) := by
  constructor
  · intro h
    refine ⟨h [name] (List.cons_ne_nil _ _) (List.prefix_append [name] rest) ?_, ?_⟩
    · intro hsame
      exact hne (List.cons.inj hsame).2.symm
    · intro a _ hbegins hproper
      refine h (name :: a) (List.cons_ne_nil _ _) ((List.prefix_cons_inj name).mpr hbegins) ?_
      intro hsame
      exact hproper (List.cons.inj hsame).2
  · rintro ⟨hfirst, hrest⟩ a hnil hbegins hproper
    cases a with
    | nil => exact absurd rfl hnil
    | cons b a =>
      obtain ⟨rfl, hmore⟩ := List.cons_prefix_cons.mp hbegins
      cases a with
      | nil => exact hfirst
      | cons c a =>
        refine hrest (c :: a) (List.cons_ne_nil _ _) hmore ?_
        intro hsame
        exact hproper (by rw [hsame])

/-- A route leads through directories that are listed and do not look like tables, to one that does. -/
theorem route_iff {dir rest : List Name} (hne : rest ≠ [])
    (hvisible : ∀ name ∈ rest, isVisible name = true) :
    Route t pfx dir rest ↔
      (∀ a name, a ++ [name] <+: rest → name ∈ t.subdirs (segments (dirPath pfx (dir ++ a)))) ∧
      (∀ a, a ≠ [] → a <+: rest → a ≠ rest → ¬ LooksLikeTable t (dirPath pfx (dir ++ a))) ∧
      LooksLikeTable t (dirPath pfx (dir ++ rest)) := by
  induction rest generalizing dir with
  | nil => exact absurd rfl hne
  | cons name rest ih =>
    obtain ⟨hname, hrest⟩ := List.forall_mem_cons.mp hvisible
    rw [forall_concat_prefix_cons]
    rw [List.append_nil]
    cases rest with
    | nil =>
      have hnone : ∀ a, a ≠ [] → a <+: [name] → a ≠ [name] →
          ¬ LooksLikeTable t (dirPath pfx (dir ++ a)) := by
        intro a hnil hbegins hproper
        cases a with
        | nil => exact absurd rfl hnil
        | cons b a =>
          obtain ⟨rfl, hmore⟩ := List.cons_prefix_cons.mp hbegins
          rw [List.prefix_nil.mp hmore] at hproper
          exact absurd rfl hproper
      have hend : ∀ a n, a ++ [n] <+: ([] : List Name) →
          n ∈ t.subdirs (segments (dirPath pfx (dir ++ name :: a))) := by
        intro a n hbegins
        exact absurd (List.prefix_nil.mp hbegins) (List.append_ne_nil_of_right_ne_nil _ (by simp))
      change name ∈ tableNames t (dirPath pfx dir) ↔ _
      rw [mem_tableNames, mem_listDirectories hname, ← dirPath_concat, isTable_iff, and_iff_left hend,
        and_iff_right hnone]
    | cons next rest =>
      have hstep : Route t pfx (dir ++ [name]) (next :: rest) ↔ _ :=
        ih (List.cons_ne_nil _ _) hrest
      simp only [List.append_assoc, List.singleton_append] at hstep
      rw [forall_proper_prefix_cons (List.cons_ne_nil _ _)]
      change name ∈ deeperDirs t (dirPath pfx dir) ∧ Route t pfx (dir ++ [name]) (next :: rest) ↔ _
      have htable : (probeDirectory t (dirPath pfx (dir ++ [name]))).isTable = false ↔
          ¬ LooksLikeTable t (dirPath pfx (dir ++ [name])) :=
        Bool.eq_false_iff.trans (not_congr (isTable_iff _))
      rw [mem_deeperDirs, mem_listDirectories hname, ← dirPath_concat, hstep, htable]
      constructor
      · rintro ⟨⟨hlisted, hnot, -⟩, hmore, hpassed, hlast⟩
        exact ⟨⟨hlisted, hmore⟩, ⟨hnot, hpassed⟩, hlast⟩
      · rintro ⟨⟨hlisted, hmore⟩, ⟨hnot, hpassed⟩, hlast⟩
        have hnext := hmore [] next (List.prefix_append [next] rest)
        have hsubdirs : (probeDirectory t (dirPath pfx (dir ++ [name]))).hasSubdirs = true := by
          unfold probeDirectory
          dsimp only
          rw [Bool.not_eq_true', List.isEmpty_eq_false_iff]
          exact List.ne_nil_of_mem hnext
        exact ⟨⟨hlisted, hnot, hsubdirs⟩, hmore, hpassed, hlast⟩

end Route

section Accepted
variable {Body : Type} {fromSlice : Body → Option Value} {t : Tree Body} {pfx path : List Char}
  {database tableName : Name}

/-- Whether there is a table does not depend on its names. -/
theorem isSome_discoverTable :
    (discoverTable fromSlice t database tableName path).isSome = true ↔ Accepts fromSlice t path := by
  unfold discoverTable Accepts
  simp only [Option.isSome_or, Option.isSome_map, Bool.or_eq_true, or_assoc]
  split_ifs with hcount <;> simp [hcount]

theorem s3Location_of_discoverTable {table : DiscoveredTable}
    (h : discoverTable fromSlice t database tableName path = some table) :
    table.s3Location = tableLocation path := by
  unfold discoverTable at h
  simp only [Option.or_eq_some_iff, Option.map_eq_some_iff] at h
  rcases h with ((⟨file, -, rfl⟩ | ⟨-, file, -, rfl⟩) | ⟨-, dir, -, rfl⟩) | ⟨-, hparquet⟩
  · rfl
  · rfl
  · rfl
  · split_ifs at hparquet
    rw [← Option.some.inj hparquet]

theorem segments_subdir (dir : List Name) (hne : dir ≠ []) {name : Name} (hslash : '/' ∉ name)
    (hname : name ≠ []) : segments (dirPath pfx dir ++ (name ++ ['/'])) =
      segments (dirPath pfx dir) ++ [encodeSegment name] := by
  have hnil : segments [] = [] := by decide
  obtain ⟨front, last, rfl⟩ := (List.eq_nil_or_concat dir).resolve_left hne
  rw [List.concat_eq_append, dirPath_concat, List.append_assoc (dirPath pfx front ++ last),
    List.singleton_append, segments_append, segments_append, segments_append, hnil,
    segments_of_notMem hslash hname, List.append_nil, List.append_nil]

/-- A file in a directory in the directory makes that one listed. -/
theorem mem_subdirs_of_file {dir : List Name} (hne : dir ≠ []) {name : Name}
    (hslash : '/' ∉ name) (hname : name ≠ []) (hplain : encodeSegment name = name) {file : Name}
    (hfile : file ∈ t.files (segments (dirPath pfx dir ++ (name ++ ['/'])))) :
    name ∈ t.subdirs (segments (dirPath pfx dir)) := by
  rw [segments_subdir dir hne hslash hname, hplain] at hfile
  exact Tree.mem_subdirs_of_mem_files hfile

theorem looksLikeTable_of_file {dir : List Name} (hne : dir ≠ []) {name : String}
    (hname : name ∈ ["metadata", "_delta_log", ".hoodie", "data"]) {file : Name}
    (hfile : file ∈ t.files (segments (dirPath pfx dir ++ (name.toList ++ ['/'])))) :
    LooksLikeTable t (dirPath pfx dir) := by
  have hplain : '/' ∉ name.toList ∧ name.toList ≠ [] ∧ encodeSegment name.toList = name.toList := by
    simp only [List.mem_cons, List.not_mem_nil, or_false] at hname
    rcases hname with rfl | rfl | rfl | rfl <;> decide
  exact Or.inl ⟨name, hname, mem_subdirs_of_file hne hplain.1 hplain.2.1 hplain.2.2 hfile⟩

/-- What is a table looks like one. -/
theorem looksLikeTable_of_accepts {dir : List Name} (hne : dir ≠ [])
    (h : Accepts fromSlice t (dirPath pfx dir)) : LooksLikeTable t (dirPath pfx dir) := by
  rcases h with hmetadata | hdelta | hhoodie | hparquet
  · cases hfiles : t.files (segments (dirPath pfx dir ++ ("metadata".toList ++ ['/']))) with
    | nil =>
      change (Option.bind (findLatestMetadata ((t.files (segments (dirPath pfx dir ++
        ("metadata".toList ++ ['/'])))).map String.ofList)) _).isSome = true at hmetadata
      rw [hfiles] at hmetadata
      cases hmetadata
    | cons file rest =>
      exact looksLikeTable_of_file hne (by simp) (hfiles ▸ List.mem_cons_self)
  · cases hfiles : t.files (segments (dirPath pfx dir ++ ("_delta_log".toList ++ ['/']))) with
    | nil =>
      change (Option.bind ((((t.files (segments (dirPath pfx dir ++
        ("_delta_log".toList ++ ['/'])))).filter _).map String.ofList).max?) _).isSome = true
        at hdelta
      rw [hfiles] at hdelta
      cases hdelta
    | cons file rest =>
      exact looksLikeTable_of_file hne (by simp) (hfiles ▸ List.mem_cons_self)
  · cases hfiles : t.files (segments (dirPath pfx dir ++ (".hoodie".toList ++ ['/']))) with
    | nil =>
      change (if (t.files (segments (dirPath pfx dir ++
        (".hoodie".toList ++ ['/'])))).isEmpty then none else some _).isSome = true at hhoodie
      rw [hfiles] at hhoodie
      cases hhoodie
    | cons file rest =>
      exact looksLikeTable_of_file hne (by simp) (hfiles ▸ List.mem_cons_self)
  · unfold parquetCount at hparquet
    by_cases hdata : "data".toList ∈ t.subdirs (segments (dirPath pfx dir))
    · exact Or.inl ⟨"data", by simp, hdata⟩
    · have hnone : (t.subdirs (segments (dirPath pfx dir))).contains "data".toList = false := by
        rwa [← Bool.not_eq_true, List.contains_iff_mem]
      rw [hnone] at hparquet
      have hpos : 0 < (t.files (segments (dirPath pfx dir))).countP isParquetFile := by
        simpa [Nat.pos_iff_ne_zero] using hparquet
      exact Or.inr (List.countP_pos_iff.mp hpos)

end Accepted

section Scan
variable {Body : Type} {fromSlice : Body → Option Value} {t : Tree Body}

/-- Names on a route are those of directories. -/
theorem Route.clean {pfx : List Char} {dir rest : List Name} (h : Route t pfx dir rest) :
    ∀ name ∈ rest, name ≠ [] ∧ '/' ∉ name := by
  have hlisted : ∀ {path : List Char} {name : Name}, name ∈ listDirectories t path →
      name ≠ [] ∧ '/' ∉ name := fun hname =>
    Tree.clean_of_mem_subdirs (List.mem_filter.mp hname).1
  induction rest generalizing dir with
  | nil => exact h.elim
  | cons name rest ih =>
    cases rest with
    | nil =>
      intro n hn
      rw [List.mem_singleton.mp hn]
      exact hlisted (mem_tableNames.mp h).1
    | cons next rest =>
      obtain ⟨hname, hroute⟩ := h
      intro n hn
      rcases List.mem_cons.mp hn with rfl | hmore
      · exact hlisted (mem_deeperDirs.mp hname).1
      · exact ih hroute n hmore

theorem mem_found_root {pfx : List Char} {dir : List Name} : dir ∈ found t pfx maxScanDepth [[]] ↔
    dir.length ≤ maxScanDepth ∧ Route t pfx [] dir := by
  rw [mem_found]
  constructor
  · rintro ⟨root, hroot, rest, hlen, hroute, rfl⟩
    rw [List.mem_singleton.mp hroot] at hroute ⊢
    exact ⟨hlen, hroute⟩
  · rintro ⟨hlen, hroute⟩
    exact ⟨[], List.mem_singleton_self _, dir, hlen, hroute, rfl⟩

theorem locations_of_paths (entries : List (Name × Name × List Char)) :
    (entries.filterMap fun entry => discoverTable fromSlice t entry.1 entry.2.1 entry.2.2).map
        (·.s3Location) =
      ((entries.map fun entry => entry.2.2).filter fun path =>
        (discoverTable fromSlice t [] [] path).isSome).map tableLocation := by
  induction entries with
  | nil => rfl
  | cons entry entries ih =>
    have hsame : (discoverTable fromSlice t [] [] entry.2.2).isSome =
        (discoverTable fromSlice t entry.1 entry.2.1 entry.2.2).isSome :=
      Bool.eq_iff_iff.mpr (isSome_discoverTable.trans isSome_discoverTable.symm)
    rw [List.map_cons, List.filterMap_cons]
    cases htable : discoverTable fromSlice t entry.1 entry.2.1 entry.2.2 with
    | none =>
      rw [htable] at hsame
      rw [List.filter_cons_of_neg (by rw [hsame]; simp)]
      exact ih
    | some table =>
      rw [htable] at hsame
      rw [List.filter_cons_of_pos (by rw [hsame]; rfl), List.map_cons, List.map_cons,
        s3Location_of_discoverTable htable, ih]

/-- The locations of the tables that a scan finds. -/
theorem scanWarehouse_locations (warehousePrefix : List Char) :
    (scanWarehouse fromSlice t warehousePrefix).map (·.s3Location) =
      ((found t (normalizePrefix warehousePrefix) maxScanDepth [[]]).filter fun dir =>
        (discoverTable fromSlice t [] [] (dirPath (normalizePrefix warehousePrefix) dir)).isSome).map
          fun dir => tableLocation (dirPath (normalizePrefix warehousePrefix) dir) := by
  unfold scanWarehouse
  rw [locations_of_paths, allTablePaths_paths, List.filter_map, List.map_map]
  rfl

/-- What a scan reports once. -/
theorem reportedOnce_iff {warehousePrefix : List Char} {dir : List Name} (hne : dir ≠ [])
    (hclean : ∀ name ∈ dir, name ≠ [] ∧ '/' ∉ name) (hlen : dir.length ≤ maxScanDepth) :
    ReportedOnce fromSlice t warehousePrefix dir ↔
      Route t (normalizePrefix warehousePrefix) [] dir ∧
        Accepts fromSlice t (dirPath (normalizePrefix warehousePrefix) dir) := by
  have hlocations := @scanWarehouse_locations _ fromSlice t warehousePrefix
  unfold ReportedOnce
  generalize normalizePrefix warehousePrefix = pfx at hlocations ⊢
  have hfound : ∀ e ∈ (found t pfx maxScanDepth [[]]).filter fun dir =>
      (discoverTable fromSlice t [] [] (dirPath pfx dir)).isSome,
      (e ≠ [] ∧ ∀ name ∈ e, name ≠ [] ∧ '/' ∉ name) := by
    intro e he
    obtain ⟨-, hroute⟩ := mem_found_root.mp (List.mem_filter.mp he).1
    refine ⟨?_, hroute.clean⟩
    rintro rfl
    exact hroute
  have hnodup : ((scanWarehouse fromSlice t warehousePrefix).map (·.s3Location)).Nodup := by
    have hroot : (found t pfx maxScanDepth [[]]).Nodup :=
      nodup_found (List.nodup_singleton _) fun root hroot => by rw [List.mem_singleton.mp hroot]
    rw [hlocations]
    refine (hroot.filter _).map_on fun e he e' he' hsame => ?_
    exact tableLocation_inj (hfound e he).1 (hfound e' he').1 (hfound e he).2 (hfound e' he').2 hsame
  have hmem : tableLocation (dirPath pfx dir) ∈
      (scanWarehouse fromSlice t warehousePrefix).map (·.s3Location) ↔
        Route t pfx [] dir ∧ Accepts fromSlice t (dirPath pfx dir) := by
    rw [hlocations, List.mem_map]
    constructor
    · rintro ⟨e, he, hsame⟩
      obtain rfl := tableLocation_inj (hfound e he).1 hne (hfound e he).2 hclean hsame
      obtain ⟨hroot, haccepted⟩ := List.mem_filter.mp he
      exact ⟨(mem_found_root.mp hroot).2, isSome_discoverTable.mp haccepted⟩
    · rintro ⟨hroute, haccepts⟩
      refine ⟨dir, List.mem_filter.mpr ⟨mem_found_root.mpr ⟨hlen, hroute⟩, ?_⟩, rfl⟩
      exact isSome_discoverTable.mpr haccepts
  have hcount : (scanWarehouse fromSlice t warehousePrefix).countP (fun table =>
      decide (table.s3Location = tableLocation (dirPath pfx dir))) =
        ((scanWarehouse fromSlice t warehousePrefix).map (·.s3Location)).count
          (tableLocation (dirPath pfx dir)) := by
    rw [List.count, List.countP_map]
    exact List.countP_congr fun table _ => by simp
  rw [← hmem]
  constructor
  · intro h
    have hone := h _ (List.Perm.refl _)
    rw [hcount] at hone
    exact List.count_pos_iff.mp (by omega)
  · intro h tables hperm
    rw [hperm.countP_eq, hcount]
    exact List.count_eq_one_of_mem hnodup h

end Scan

section Scope
variable {Body : Type} {fromSlice : Body → Option Value} {t : Tree Body} {pfx : List Char}
  {dir : List Name}

/-- There is an object somewhere below the directory. -/
theorem HoldsTable.exists_object (h : HoldsTable fromSlice t (place pfx dir)) :
    ∃ next rest, place pfx dir ++ next :: rest ∈ t.objects := by
  rcases h with ⟨file, body, -, -, hlookup⟩ | ⟨file, hfile, -⟩ | ⟨file, hfile, -⟩
  · exact ⟨_, _, AList.lookup_isSome.mp (Option.isSome_of_eq_some hlookup)⟩
  · rw [Tree.mem_files, List.append_assoc] at hfile
    exact ⟨_, _, hfile⟩
  · exact ⟨file, [], Tree.mem_files.mp hfile⟩

theorem HoldsTable.clean (h : HoldsTable fromSlice t (place pfx dir)) :
    ∀ name ∈ dir, name ≠ [] ∧ '/' ∉ name := by
  obtain ⟨next, rest, hmem⟩ := h.exists_object
  intro name hname
  refine t.paths _ hmem name (List.mem_append_left _ ?_)
  exact List.mem_append_right _ hname

theorem InScope.findable_iff (h : InScope fromSlice t pfx dir) :
    Findable fromSlice t pfx dir ↔ Route t pfx [] dir ∧ Accepts fromSlice t (dirPath pfx dir) := by
  have hvisible : ∀ name ∈ dir, isVisible name = true := by
    intro name hname
    obtain ⟨hdot, hunderscore⟩ := h.visible name hname
    obtain ⟨hne, -⟩ := h.holds.clean name hname
    unfold isVisible
    simp [hne, hdot, hunderscore]
  rw [route_iff h.nonempty hvisible]
  constructor
  · intro hfindable
    exact ⟨⟨hfindable.listed, hfindable.passed,
      looksLikeTable_of_accepts h.nonempty hfindable.accepted⟩, hfindable.accepted⟩
  · rintro ⟨⟨hlisted, hpassed, -⟩, haccepted⟩
    exact ⟨hlisted, hpassed, haccepted⟩

end Scope

/-- The scan is complete exactly when it gets to each of the directories. -/
theorem complete_iff {Body : Type} (fromSlice : Body → Option Value) (t : Tree Body)
    (warehousePrefix : List Char) :
    Complete fromSlice t warehousePrefix ↔
      ∀ dir, InScope fromSlice t (normalizePrefix warehousePrefix) dir →
        Findable fromSlice t (normalizePrefix warehousePrefix) dir := by
  have hstep : ∀ dir, InScope fromSlice t (normalizePrefix warehousePrefix) dir →
      (ReportedOnce fromSlice t warehousePrefix dir ↔
        Findable fromSlice t (normalizePrefix warehousePrefix) dir) := fun dir h =>
    (reportedOnce_iff h.nonempty h.holds.clean h.depth).trans h.findable_iff.symm
  constructor
  · intro h dir hscope
    exact (hstep dir hscope).mp (h dir hscope)
  · intro h dir hscope
    exact (hstep dir hscope).mpr (h dir hscope)

section Lake

/-- A lake whose only Parquet file lies in a directory of orders below one for data. -/
def salesLake : Tree Unit where
  objects := AList.singleton ["sales".toList, "data".toList, "orders".toList, "part-0.parquet".toList] ()
  paths key hkey := by
    rw [AList.mem_keys, AList.keys_singleton, List.mem_singleton] at hkey
    subst hkey
    decide

theorem not_complete_salesLake : ¬ Complete (fun _ => none) salesLake "s3://lake".toList := by
  intro h
  have hscan : scanWarehouse (fun _ => none) salesLake "s3://lake".toList = [] := by decide +kernel
  have hscope : InScope (fun _ => none) salesLake (normalizePrefix "s3://lake".toList)
      ["sales".toList, "data".toList, "orders".toList] := by
    refine ⟨by decide, by decide, Or.inr (Or.inr ?_), by decide, ?_⟩
    · exact ⟨"part-0.parquet".toList, by decide +kernel, by decide⟩
    · intro a hne hbegins hproper database tableName
      have hinits : a ∈ ["sales".toList, "data".toList, "orders".toList].inits :=
        (List.mem_inits _ _).mpr hbegins
      simp only [List.inits, List.map_cons, List.map_nil, List.mem_cons, List.not_mem_nil,
        or_false] at hinits
      rcases hinits with rfl | rfl | rfl | rfl
      · exact absurd rfl hne
      · rfl
      · rfl
      · exact absurd rfl hproper
  have hone := h _ hscope [] (by rw [hscan])
  cases hone

end Lake

end RustLake.Discovery
