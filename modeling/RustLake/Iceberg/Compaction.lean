import RustLake.Iceberg.Documents
import RustLake.Iceberg.View

/-! What a successful compaction leaves: the files it writes hold rows it read, and the
snapshot it commits counts them on top of those it replaces. -/
namespace RustLake.Iceberg
open RustLake.Json RustLake.ObjectStore RustLake.Text

variable {Row : Type}

/-- The rows that the object of a data file holds; none when it is no Parquet file. -/
def rowsAt (s : Store (Object Row)) (path : String) : List Row :=
  match s.lookup (Path.ofText path) with
  | some (.parquet rows _) => rows
  | _ => []

/-- A Parquet object stands at the key, and its rows are among the given ones. -/
def Holds (R : List Row) (s : Store (Object Row)) (key : Path) : Prop :=
  ∃ rows length, s.lookup key = some (.parquet rows length) ∧ rows ⊆ R

theorem Holds.rowsAt_subset {R : List Row} {s : Store (Object Row)} {path : String}
    (h : Holds R s (Path.ofText path)) : rowsAt s path ⊆ R := by
  obtain ⟨rows, length, hlook, hsub⟩ := h
  unfold rowsAt
  rw [hlook]
  exact hsub

theorem Holds.insert_self {R rows : List Row} (h : rows ⊆ R) (s : Store (Object Row))
    (key : Path) (length : ℕ) : Holds R (s.insert key (.parquet rows length)) key :=
  ⟨rows, length, AList.lookup_insert _, h⟩

/-- Every object changed between two stores is a Parquet file of these rows. -/
def OnlyAdds (R : List Row) (s s' : Store (Object Row)) : Prop :=
  ∀ key, s'.lookup key = s.lookup key ∨ Holds R s' key

theorem OnlyAdds.refl (R : List Row) (s : Store (Object Row)) : OnlyAdds R s s :=
  fun _ => Or.inl rfl

theorem OnlyAdds.insert {R rows : List Row} (h : rows ⊆ R) (s : Store (Object Row))
    (key : Path) (length : ℕ) : OnlyAdds R s (s.insert key (.parquet rows length)) := by
  intro other
  by_cases hkey : other = key
  · subst hkey
    exact Or.inr (.insert_self h s other length)
  · exact Or.inl (AList.lookup_insert_ne hkey)

theorem OnlyAdds.holds {R : List Row} {s s' : Store (Object Row)} (h : OnlyAdds R s s')
    {key : Path} (hkey : Holds R s key) : Holds R s' key := by
  rcases h key with hsame | hholds
  · obtain ⟨rows, length, hlook, hsub⟩ := hkey
    exact ⟨rows, length, hsame.trans hlook, hsub⟩
  · exact hholds

theorem OnlyAdds.trans {R : List Row} {s₁ s₂ s₃ : Store (Object Row)}
    (h : OnlyAdds R s₁ s₂) (h' : OnlyAdds R s₂ s₃) : OnlyAdds R s₁ s₃ := by
  intro key
  rcases h' key with hsame | hholds
  · rcases h key with hsame' | hholds'
    · exact Or.inl (hsame.trans hsame')
    · exact Or.inr (h'.holds hholds')
  · exact Or.inr hholds

/-- Rows found after were found before at the same path or are among the added ones. -/
theorem OnlyAdds.rowsAt_subset {R : List Row} {s s' : Store (Object Row)}
    (h : OnlyAdds R s s') {path : String} (hpath : rowsAt s path ⊆ R) :
    rowsAt s' path ⊆ R := by
  rcases h (Path.ofText path) with hsame | hholds
  · unfold rowsAt at hpath ⊢
    rwa [hsame]
  · exact hholds.rowsAt_subset

section Run
variable {size : Object Row → ℕ} {P : Parquet Row}

/-- Reading data files gives their rows and changes nothing. -/
theorem readBatches_ok {paths : List String} {faults faults' : Faults}
    {s s' : Store (Object Row)} {batches : List (List Row)}
    (h : run size (readBatches P paths) faults s = ⟨.ok batches, s', faults'⟩) :
    s' = s ∧ batches.flatten = paths.flatMap (rowsAt s) := by
  induction paths generalizing faults s batches with
  | nil =>
    cases h
    exact ⟨rfl, rfl⟩
  | cons path rest ih =>
    simp only [readBatches, run_get] at h
    obtain ⟨found, hfound, h⟩ := run_orFail_bind_ok size h
    simp only [run_bytes] at h
    obtain ⟨data, hdata, h⟩ := run_orFail_bind_ok size h
    obtain ⟨read, hread, h⟩ := run_orFail_bind_ok size h
    obtain ⟨later, s₁, faults₁, hlater, h⟩ := run_bind_ok size h
    cases h
    obtain ⟨rfl, hrows⟩ := ih hlater
    refine ⟨rfl, ?_⟩
    have hlook := Store.found_eq_ok.mp (answer_eq_ok hfound).2
    obtain rfl : found = data := Except.ok.inj (answer_eq_ok hdata).2
    have hhead : read.flatten = rowsAt s' path := by
      unfold rowsAt
      rw [hlook]
      cases found with
      | parquet rows length =>
        cases hread
        exact P.flatten_batches rows
      | json doc => cases hread
      | other length => cases hread
    rw [List.flatten_append, hrows, hhead, List.flatMap_cons]

theorem writeCompactedFile_ok {filePrefix datePart : String} {counter : UInt32}
    {batches : List (List Row)} {schema : ArrowSchema} {faults faults' : Faults}
    {s s' : Store (Object Row)} {df : DataFileInfo}
    (h : run size (writeCompactedFile P filePrefix datePart counter batches schema) faults s =
      ⟨.ok df, s', faults'⟩) :
    df.rowCount = numRows batches ∧
      ∃ length, s' = s.insert (Path.ofText df.filePath) (.parquet batches.flatten length) := by
  unfold writeCompactedFile at h
  obtain ⟨length, hlength, h⟩ := run_orFail_bind_ok size h
  simp only [run_put] at h
  obtain ⟨_, hput, h⟩ := run_orFail_bind_ok size h
  rw [effect_of_none (answer_eq_ok hput).1] at h
  cases h
  exact ⟨rfl, length, rfl⟩

theorem numRows_append (a b : List (List Row)) : numRows (a ++ b) = numRows a + numRows b := by
  unfold numRows
  rw [List.map_append, List.sum_append]

theorem totalRecords_cons (df : DataFileInfo) (files : List DataFileInfo) :
    totalRecords (df :: files) = df.rowCount + totalRecords files := by
  unfold totalRecords
  rw [List.map_cons, List.sum_cons]

/-- The count of the rows of batches in a `u64`. -/
theorem numRows_eq (batches : List (List Row)) :
    numRows batches = UInt64.ofNat batches.flatten.length := by
  induction batches with
  | nil => rfl
  | cons batch rest ih =>
    have hcons : numRows (batch :: rest) = UInt64.ofNat batch.length + numRows rest := by
      unfold numRows
      rw [List.map_cons, List.sum_cons]
    rw [hcons, ih, List.flatten_cons, List.length_append, UInt64.ofNat_add]

/-- The files of the write loop count the rows of its batches and hold no others. -/
theorem writeCompacted_ok {R : List Row} {filePrefix datePart : String} {schema : ArrowSchema}
    {targetBytes : UInt64} {batches buf : List (List Row)} {currentRows : UInt64}
    {counter : UInt32} {faults faults' : Faults} {s s' : Store (Object Row)}
    {files : List DataFileInfo} (hR : (buf ++ batches).flatten ⊆ R)
    (h : run size (writeCompacted P filePrefix datePart schema targetBytes batches buf
      currentRows counter) faults s = ⟨.ok files, s', faults'⟩) :
    totalRecords files = numRows (buf ++ batches) ∧ OnlyAdds R s s' ∧
      ∀ df ∈ files, Holds R s' (Path.ofText df.filePath) := by
  induction batches generalizing buf currentRows counter faults s files with
  | nil =>
    rw [List.append_nil] at hR ⊢
    unfold writeCompacted at h
    split at h
    · rename_i hbuf
      cases h
      rw [List.isEmpty_iff.mp hbuf]
      exact ⟨rfl, .refl R _, by simp⟩
    · obtain ⟨df, s₁, faults₁, hfile, h⟩ := run_bind_ok size h
      cases h
      obtain ⟨hcount, length, rfl⟩ := writeCompactedFile_ok hfile
      refine ⟨by simp [totalRecords, hcount], .insert hR s _ length, ?_⟩
      intro df' hdf'
      rw [List.mem_singleton.mp hdf']
      exact .insert_self hR s _ length
  | cons batch rest ih =>
    have hsplit : buf ++ batch :: rest = (buf ++ [batch]) ++ rest := by simp
    rw [hsplit] at hR ⊢
    unfold writeCompacted at h
    dsimp only at h
    split at h
    · obtain ⟨df, s₁, faults₁, hfile, h⟩ := run_bind_ok size h
      obtain ⟨later, s₂, faults₂, hlater, h⟩ := run_bind_ok size h
      cases h
      rw [List.flatten_append] at hR
      obtain ⟨hbuf, hrest⟩ := List.append_subset.mp hR
      obtain ⟨hcount, length, rfl⟩ := writeCompactedFile_ok hfile
      have hrest' : ([] ++ rest).flatten ⊆ R := hrest
      obtain ⟨htotal, hadds, hholds⟩ := ih hrest' hlater
      refine ⟨?_, (OnlyAdds.insert hbuf s _ length).trans hadds, ?_⟩
      · rw [totalRecords_cons, htotal, hcount, List.nil_append, ← numRows_append]
      · intro df' hdf'
        rcases List.mem_cons.mp hdf' with rfl | hmem
        · exact hadds.holds (.insert_self hbuf s _ length)
        · exact hholds df' hmem
    · exact ih hR h

theorem appendSnapshot_ok {state : IcebergTableState} {files : List DataFileInfo}
    {schema : ArrowSchema} {operation : String} {nowMs : Int64} {faults faults' : Faults}
    {s s' : Store (Object Row)} {path : String}
    (h : run size (appendSnapshot state files schema operation nowMs) faults s =
      ⟨.ok path, s', faults'⟩) :
    ∃ doc, appendedMetadata state files schema operation nowMs = some doc ∧
      path = versionPath state.location (state.metadataVersion + 1) ∧
      s' = (s.insert (manifestKey state nowMs)
        (.json (manifestList state.location files nowMs))).insert (Path.ofText path)
          (.json doc) := by
  unfold appendSnapshot at h
  split at h
  · cases h
  · simp only [run_put] at h
    obtain ⟨_, hput, h⟩ := run_orFail_bind_ok size h
    rw [effect_of_none (answer_eq_ok hput).1] at h
    obtain ⟨doc, hdoc, h⟩ := run_orPanic_bind_ok size h
    unfold putVersion at h
    simp only [run_put] at h
    obtain ⟨_, hput', h⟩ := run_orFail_bind_ok size h
    rw [effect_of_none (answer_eq_ok hput').1] at h
    cases h
    exact ⟨doc, hdoc, rfl, rfl⟩

theorem mem_uniquePaths {paths : List String} {p : String} :
    p ∈ uniquePaths paths ↔ p ∈ paths := by
  have hfold : ∀ seen : List String,
      p ∈ paths.foldl (fun seen p => if p ∈ seen then seen else seen ++ [p]) seen ↔
        p ∈ seen ∨ p ∈ paths := by
    induction paths with
    | nil => simp
    | cons q rest ih =>
      intro seen
      rw [List.foldl_cons, ih]
      split_ifs with hq
      · constructor
        · rintro (h | h)
          · exact Or.inl h
          · exact Or.inr (List.mem_cons_of_mem _ h)
        · rintro (h | h)
          · exact Or.inl h
          · rcases List.mem_cons.mp h with rfl | h
            · exact Or.inl hq
            · exact Or.inr h
      · simp [or_assoc]
  unfold uniquePaths
  rw [hfold]
  simp

theorem mem_allFilePaths {state : IcebergTableState} {p : String} :
    p ∈ allFilePaths state ↔ ∃ snap ∈ state.snapshots, ∃ df ∈ snap.dataFiles, df.filePath = p := by
  unfold allFilePaths
  rw [mem_uniquePaths, List.mem_flatMap]
  simp only [List.mem_map]

/-- The rows of all data files that the state names. -/
def rowsOf (s : Store (Object Row)) (state : IcebergTableState) : List Row :=
  (allFilePaths state).flatMap (rowsAt s)

/-- A compaction that ends well: the files it writes, and the snapshot it appends. -/
theorem compactTable_ok {state : IcebergTableState} {targetFileSizeMb : UInt64}
    {schema : ArrowSchema} {datePart : String} {nowMs : Int64} {faults faults' : Faults}
    {s s' : Store (Object Row)} {result : CompactionResult}
    (h : run size (compactTable P state targetFileSizeMb schema datePart nowMs) faults s =
      ⟨.ok result, s', faults'⟩) :
    allFilePaths state ≠ [] ∧ ∃ newFiles s₁ doc,
      totalRecords newFiles = UInt64.ofNat (rowsOf s state).length ∧
      OnlyAdds (rowsOf s state) s s₁ ∧
      (∀ df ∈ newFiles, Holds (rowsOf s state) s₁ (Path.ofText df.filePath)) ∧
      appendedMetadata state newFiles schema "replace" nowMs = some doc ∧
      result.metadataPath = versionPath state.location (state.metadataVersion + 1) ∧
      s' = (s₁.insert (manifestKey state nowMs)
        (.json (manifestList state.location newFiles nowMs))).insert
          (Path.ofText result.metadataPath) (.json doc) := by
  unfold compactTable at h
  dsimp only at h
  split at h
  · cases h
  · rename_i hpaths
    obtain ⟨batches, s₁, faults₁, hread, h⟩ := run_bind_ok size h
    split at h
    · cases h
    · obtain ⟨newFiles, s₂, faults₂, hwrite, h⟩ := run_bind_ok size h
      obtain ⟨path, s₃, faults₃, happend, h⟩ := run_bind_ok size h
      cases h
      obtain ⟨rfl, hread⟩ := readBatches_ok hread
      have hrows : batches.flatten = rowsOf s₁ state := hread
      have hsub : ([] ++ batches).flatten ⊆ rowsOf s₁ state := by
        rw [List.nil_append, hrows]
        exact List.Subset.refl _
      obtain ⟨htotal, hadds, hholds⟩ := writeCompacted_ok hsub hwrite
      obtain ⟨doc, hdoc, hpath, hstore⟩ := appendSnapshot_ok happend
      refine ⟨by simpa using hpaths, newFiles, s₂, doc, ?_, hadds, hholds, hdoc, hpath, hstore⟩
      rw [htotal, List.nil_append, numRows_eq, hrows]

end Run
end RustLake.Iceberg
