import RustLake.Engine.Context
import RustLake.FileSystem.Tree
import RustLake.Rust.Unicode

/-! The upload of a file: what is read of its field, where it is saved, and what becomes of a file that
is there already. -/
namespace RustLake.Routes
open FileSystem Engine

/-- A file field: its name, the chunks of the complete field, and after how many of them the stream
fails, if it does. -/
structure FileField where
  fileName : Option Name
  chunks : List Bytes
  failsAfter : Option ℕ

/-- What the first call for a field comes to. -/
inductive NextField where
  | failed (e : String)
  | none
  | field (f : FileField)

structure UploadResponse where
  status : String
  table : List Char
  path : List Char
  format : String
  fileSize : ℕ

/-- What surrounds the server: its working directory, how the write goes, and whether a file can be
registered as a table. -/
structure UploadEnv where
  cwd : List Name
  unicode : Unicode
  writeFault : Option WriteFault
  register : List Char → List Char → FileTree → Except String Unit

def maxUploadSize : ℕ := 100 * 1024 * 1024

def FileField.complete (f : FileField) : Bytes := f.chunks.flatten

/-- The name that the file gets, by default one of its own. -/
def FileField.name (f : FileField) : Name := f.fileName.getD "upload.csv".toList

/-- The chunks that come before the stream ends or fails. -/
def FileField.received (f : FileField) : List Bytes :=
  match f.failsAfter with
  | some n => f.chunks.take n
  | none => f.chunks

/-- The loop over the chunks. It ends at a failure as it does at the end. -/
def readChunks : Bytes → List Bytes → Except (ℕ × String) Bytes
  | bytes, [] => .ok bytes
  | bytes, chunk :: rest =>
    if maxUploadSize < (bytes ++ chunk).length then .error (413, "File exceeds 100MB limit")
    else readChunks (bytes ++ chunk) rest

def formatText : Format → String
  | .csv => "csv"
  | .parquet => "parquet"
  | .json => "json"

def uploadTableName (unicode : Unicode) (fileName : Name) : List Char :=
  let name := fileName.map fun c => if c ∈ ['/', '\\', '.', '-', ' '] then '_' else c
  let name := trimEndMatches "_csv".toList name
  let name := trimEndMatches "_parquet".toList name
  let name := trimEndMatches "_parq".toList name
  let name := trimEndMatches "_json".toList name
  let name := trimEndMatches "_ndjson".toList name
  unicode.lower.text (name.dropWhile (· = '_'))

def uploadPath (fileName : Name) : List Char := "uploads/".toList ++ fileName

/-- The rest of `upload_file`, once the field has been read. -/
def saveUpload (env : UploadEnv) (fileName : Name) (bytes : Bytes) (t : FileTree) :
    Except (ℕ × String) UploadResponse × FileTree :=
  match formatOf fileName with
  | none => (.error (400, "Unsupported file type: " ++ String.ofList fileName ++
      ". Supported: .csv, .parquet, .json, .ndjson"), t)
  | some format =>
    let tableName := uploadTableName env.unicode fileName
    let filePath := uploadPath fileName
    match t.write env.cwd filePath bytes env.writeFault with
    | (.error e, t') => (.error (500, "Failed to save file: " ++ e), t')
    | (.ok (), t') =>
      match env.register tableName filePath t' with
      | .error e => (.error (500, "Failed to register table: " ++ e), t')
      | .ok () => (.ok {
          status := "ok"
          table := tableName
          path := filePath
          format := formatText format
          fileSize := bytes.length }, t')

def uploadFile (env : UploadEnv) (multipart : NextField) (t : FileTree) :
    Except (ℕ × String) UploadResponse × FileTree :=
  match multipart with
  | .failed e => (.error (400, "Failed to read multipart field: " ++ e), t)
  | .none => (.error (400, "No file provided"), t)
  | .field f =>
    match readChunks [] f.received with
    | .error e => (.error e, t)
    | .ok bytes => saveUpload env f.name bytes t

def uploadsDir (cwd : List Name) : List Name := cwd ++ ["uploads".toList]

/-- An upload that succeeds has put the complete field into a file below the directory for uploads, and
one that fails has left all files there were. -/
structure UploadSound (env : UploadEnv) (multipart : NextField) (t : FileTree)
    (outcome : Except (ℕ × String) UploadResponse × FileTree) : Prop where
  saved : ∀ response, outcome.1 = .ok response → ∃ f file, multipart = .field f ∧
    t.locate env.cwd response.path = some file ∧ uploadsDir env.cwd <+: file ∧
    outcome.2.files file = some f.complete
  kept : ∀ e, outcome.1 = .error e → ∀ file bytes, t.files file = some bytes →
    outcome.2.files file = some bytes

/-- No component of the name leads out of the directory for uploads, but for one that comes back. -/
def StaysInside (cwd : List Name) (fileName : Name) : Prop :=
  uploadsDir cwd <+: resolve (uploadsDir cwd) (fileName.splitOn '/')

/-- The stream fails, if it does, when there is nothing left to come. -/
def FileField.Whole (f : FileField) : Prop :=
  ∀ n, f.failsAfter = some n → (f.chunks.drop n).flatten = []

/-- Where a file is opened for the upload: the write and the registration pass, the name stays inside
and the stream is whole; or one of the two fails, and a file that was there had the same bytes. -/
def UploadFits (env : UploadEnv) (multipart : NextField) (t : FileTree) : Prop :=
  ∀ f format file, multipart = .field f → f.received.flatten.length ≤ maxUploadSize →
    formatOf f.name = some format →
    t.openFile env.cwd (uploadPath f.name) env.writeFault = .ok file →
    match env.writeFault with
    | some (.writing n _) => ∀ old, t.files file = some old → old = f.received.flatten.take n
    | _ =>
      match env.register (uploadTableName env.unicode f.name) (uploadPath f.name)
          (t.put file f.received.flatten) with
      | .error _ => ∀ old, t.files file = some old → old = f.received.flatten
      | .ok () => StaysInside env.cwd f.name ∧ f.Whole

section Spec
variable {env : UploadEnv} {t : FileTree}

theorem readChunks_eq {bytes : Bytes} (chunks : List Bytes) (h : bytes.length ≤ maxUploadSize) :
    readChunks bytes chunks = if (bytes ++ chunks.flatten).length ≤ maxUploadSize
      then .ok (bytes ++ chunks.flatten) else .error (413, "File exceeds 100MB limit") := by
  induction chunks generalizing bytes with
  | nil =>
    rw [List.flatten_nil, List.append_nil, if_pos h]
    rfl
  | cons chunk rest ih =>
    unfold readChunks
    rw [List.flatten_cons, ← List.append_assoc]
    split_ifs with hlarge hfits hfits
    · rw [List.length_append] at hfits
      omega
    · rfl
    · rw [ih (not_lt.mp hlarge), if_pos hfits]
    · rw [ih (not_lt.mp hlarge), if_neg hfits]

theorem whole_iff (f : FileField) : f.received.flatten = f.complete ↔ f.Whole := by
  unfold FileField.received FileField.complete FileField.Whole
  cases f.failsAfter with
  | none => exact iff_of_true rfl fun n h => by cases h
  | some n =>
    have hsplit : f.chunks.flatten = (f.chunks.take n).flatten ++ (f.chunks.drop n).flatten := by
      rw [← List.flatten_append, List.take_append_drop]
    dsimp only
    rw [hsplit]
    constructor
    · intro h m hm
      rw [← Option.some.inj hm]
      exact List.self_eq_append_right.mp h
    · intro h
      rw [h n rfl, List.append_nil]

/-- The file that is opened for an upload lies inside exactly if its name stays inside. -/
theorem openFile_uploadPath {fileName : Name} {file : List Name}
    (h : t.openFile env.cwd (uploadPath fileName) env.writeFault = .ok file) :
    t.locate env.cwd (uploadPath fileName) = some file ∧
      (uploadsDir env.cwd <+: file ↔ StaysInside env.cwd fileName) := by
  have hlocate := FileTree.openFile_eq h
  refine ⟨hlocate, ?_⟩
  have hsplit : (uploadPath fileName).splitOn '/' = "uploads".toList :: fileName.splitOn '/' := by
    have hpath : uploadPath fileName = "uploads".toList ++ '/' :: fileName := rfl
    have hplain : '/' ∉ "uploads".toList := by decide
    rw [hpath, List.splitOn_append_cons_self_of_not_mem hplain]
  have hhead : (uploadPath fileName).head? ≠ some '/' := by
    have hu : (uploadPath fileName).head? = some 'u' := rfl
    rw [hu]
    decide
  have hfile := FileTree.locate_eq hlocate
  rw [hsplit, if_neg hhead] at hfile
  rw [hfile]
  rfl

/-- What an upload comes to once a file is opened for it. -/
theorem saveUpload_eq {fileName : Name} {bytes : Bytes} {format : Format} {file : List Name}
    (hformat : formatOf fileName = some format)
    (hopen : t.openFile env.cwd (uploadPath fileName) env.writeFault = .ok file) :
    saveUpload env fileName bytes t = match env.writeFault with
      | some (.writing n e) => (.error (500, "Failed to save file: " ++ e), t.put file (bytes.take n))
      | _ =>
        match env.register (uploadTableName env.unicode fileName) (uploadPath fileName)
            (t.put file bytes) with
        | .error e => (.error (500, "Failed to register table: " ++ e), t.put file bytes)
        | .ok () => (.ok {
            status := "ok"
            table := uploadTableName env.unicode fileName
            path := uploadPath fileName
            format := formatText format
            fileSize := bytes.length }, t.put file bytes) := by
  unfold saveUpload FileTree.write
  rw [hformat]
  dsimp only
  rw [hopen]
  dsimp only
  cases env.writeFault with
  | none => rfl
  | some fault => cases fault <;> rfl

/-- An upload that fails before a file is opened changes nothing. -/
theorem uploadSound_of_unchanged {multipart : NextField} {e : ℕ × String} :
    UploadSound env multipart t (.error e, t) where
  saved _ h := by cases h
  kept _ _ _ _ h := h

/-- A file that is overwritten without success is left as it was if it had those bytes. -/
theorem kept_iff {file : List Name} {bytes : Bytes} :
    (∀ other old, t.files other = some old → (t.put file bytes).files other = some old) ↔
      ∀ old, t.files file = some old → old = bytes := by
  constructor
  · intro h old hold
    have hput := h file old hold
    rw [FileTree.put_files_self] at hput
    exact (Option.some.inj hput).symm
  · intro h other old hold
    by_cases heq : other = file
    · rw [heq, FileTree.put_files_self, h old (heq ▸ hold)]
    · rw [FileTree.put_files_of_ne t heq]
      exact hold

/-- The same for an upload for which a file is opened. -/
theorem uploadSound_saveUpload_iff {f : FileField} {format : Format} {file : List Name}
    (hsize : f.received.flatten.length ≤ maxUploadSize) (hformat : formatOf f.name = some format)
    (hopen : t.openFile env.cwd (uploadPath f.name) env.writeFault = .ok file) :
    UploadSound env (.field f) t (saveUpload env f.name f.received.flatten t) ↔
      UploadFits env (.field f) t := by
  obtain ⟨hlocate, hinside⟩ := openFile_uploadPath hopen
  have hfits : UploadFits env (.field f) t ↔ match env.writeFault with
      | some (.writing n _) => ∀ old, t.files file = some old → old = f.received.flatten.take n
      | _ =>
        match env.register (uploadTableName env.unicode f.name) (uploadPath f.name)
            (t.put file f.received.flatten) with
        | .error _ => ∀ old, t.files file = some old → old = f.received.flatten
        | .ok () => StaysInside env.cwd f.name ∧ f.Whole := by
    constructor
    · exact fun h => h f format file rfl hsize hformat hopen
    · intro h f' format' file' hf _ _ hopen'
      obtain rfl := NextField.field.inj hf
      obtain rfl := Except.ok.inj (hopen.symm.trans hopen')
      exact h
  -- A failure with other bytes in the file.
  have hfailed : ∀ (e : ℕ × String) (bytes : Bytes),
      UploadSound env (.field f) t (.error e, t.put file bytes) ↔
        ∀ old, t.files file = some old → old = bytes := by
    intro e bytes
    rw [← kept_iff]
    exact ⟨fun h => h.kept e rfl, fun h => ⟨fun _ hok => by (cases hok), fun _ _ => h⟩⟩
  rw [hfits, saveUpload_eq hformat hopen]
  have hregister : UploadSound env (.field f) t
      (match env.register (uploadTableName env.unicode f.name) (uploadPath f.name)
          (t.put file f.received.flatten) with
        | .error e => (.error (500, "Failed to register table: " ++ e),
            t.put file f.received.flatten)
        | .ok () => (.ok {
            status := "ok"
            table := uploadTableName env.unicode f.name
            path := uploadPath f.name
            format := formatText format
            fileSize := f.received.flatten.length }, t.put file f.received.flatten)) ↔
      match env.register (uploadTableName env.unicode f.name) (uploadPath f.name)
          (t.put file f.received.flatten) with
        | .error _ => ∀ old, t.files file = some old → old = f.received.flatten
        | .ok () => StaysInside env.cwd f.name ∧ f.Whole := by
    cases env.register (uploadTableName env.unicode f.name) (uploadPath f.name)
        (t.put file f.received.flatten) with
    | error e => exact hfailed _ _
    | ok =>
      dsimp only
      rw [← hinside, ← whole_iff]
      constructor
      · intro h
        obtain ⟨f', file', hf, hlocate', hbegins, hbytes⟩ := h.saved _ rfl
        obtain rfl := NextField.field.inj hf
        obtain rfl := Option.some.inj (hlocate.symm.trans hlocate')
        rw [FileTree.put_files_self] at hbytes
        exact ⟨hbegins, Option.some.inj hbytes⟩
      · rintro ⟨hbegins, hbytes⟩
        refine ⟨fun response hresponse => ?_, fun e he => by cases he⟩
        rw [← Except.ok.inj hresponse]
        exact ⟨f, file, rfl, hlocate, hbegins, by rw [FileTree.put_files_self, hbytes]⟩
  cases env.writeFault with
  | none => exact hregister
  | some fault =>
    cases fault with
    | opening e => exact hregister
    | writing n e => exact hfailed _ _

end Spec

/-- An upload is sound exactly when it fits. -/
theorem uploadSound_iff (env : UploadEnv) (multipart : NextField) (t : FileTree) :
    UploadSound env multipart t (uploadFile env multipart t) ↔ UploadFits env multipart t := by
  cases multipart with
  | failed e => exact iff_of_true uploadSound_of_unchanged fun _ _ _ h => by cases h
  | none => exact iff_of_true uploadSound_of_unchanged fun _ _ _ h => by cases h
  | field f =>
    unfold uploadFile
    dsimp only
    rw [readChunks_eq f.received (Nat.zero_le _), List.nil_append]
    by_cases hsize : f.received.flatten.length ≤ maxUploadSize
    · rw [if_pos hsize]
      dsimp only
      cases hformat : formatOf f.name with
      | none =>
        unfold saveUpload
        rw [hformat]
        refine iff_of_true uploadSound_of_unchanged fun f' format file hf _ hformat' => ?_
        obtain rfl := NextField.field.inj hf
        rw [hformat] at hformat'
        cases hformat'
      | some format =>
        cases hopen : t.openFile env.cwd (uploadPath f.name) env.writeFault with
        | error e =>
          have hsave : saveUpload env f.name f.received.flatten t =
              (.error (500, "Failed to save file: " ++ e), t) := by
            unfold saveUpload FileTree.write
            rw [hformat]
            dsimp only
            rw [hopen]
          rw [hsave]
          refine iff_of_true uploadSound_of_unchanged fun f' format file hf _ _ hopen' => ?_
          obtain rfl := NextField.field.inj hf
          rw [hopen] at hopen'
          cases hopen'
        | ok file => exact uploadSound_saveUpload_iff hsize hformat hopen
    · rw [if_neg hsize]
      refine iff_of_true uploadSound_of_unchanged fun f' format file hf hsize' => ?_
      obtain rfl := NextField.field.inj hf
      exact absurd hsize' hsize

section Uploads

def srvEnv (register : Except String Unit) : UploadEnv where
  cwd := ["srv".toList]
  unicode := .asciiOnly
  writeFault := none
  register _ _ _ := register

/-- A working directory with a file for the settings and one that was uploaded. -/
def srvTree : FileTree where
  isDir dir := dir ∈ [[], ["srv".toList], ["srv".toList, "uploads".toList]]
  files file :=
    if file = ["srv".toList, "settings.json".toList] then some [123, 125]
    else if file = ["srv".toList, "uploads".toList, "orders.csv".toList] then some [105, 100]
    else none

/-- A stream that breaks leaves half a field, a name with two dots writes over the settings, and a file
that cannot be registered has taken the place of the earlier one. -/
theorem not_uploadSound_srv :
    ¬ UploadSound (srvEnv (.ok ())) (.field ⟨some "items.csv".toList, [[105], [100]], some 1⟩) srvTree
        (uploadFile (srvEnv (.ok ()))
          (.field ⟨some "items.csv".toList, [[105], [100]], some 1⟩) srvTree) ∧
      ¬ UploadSound (srvEnv (.ok ())) (.field ⟨some "../settings.json".toList, [[91, 93]], none⟩) srvTree
        (uploadFile (srvEnv (.ok ()))
          (.field ⟨some "../settings.json".toList, [[91, 93]], none⟩) srvTree) ∧
      ¬ UploadSound (srvEnv (.error "no schema")) (.field ⟨some "orders.csv".toList, [[0]], none⟩) srvTree
        (uploadFile (srvEnv (.error "no schema"))
          (.field ⟨some "orders.csv".toList, [[0]], none⟩) srvTree) := by
  refine ⟨fun h => ?_, fun h => ?_, fun h => ?_⟩
  · obtain ⟨f, file, hf, hlocate, -, hbytes⟩ := h.saved _ rfl
    obtain rfl := NextField.field.inj hf
    have hfile : srvTree.locate ["srv".toList] "uploads/items.csv".toList =
        some ["srv".toList, "uploads".toList, "items.csv".toList] := by decide
    obtain rfl := Option.some.inj (hfile.symm.trans hlocate)
    exact absurd hbytes (by decide)
  · obtain ⟨f, file, hf, hlocate, hbegins, -⟩ := h.saved _ rfl
    have hfile : srvTree.locate ["srv".toList] "uploads/../settings.json".toList =
        some ["srv".toList, "settings.json".toList] := by decide
    obtain rfl := Option.some.inj (hfile.symm.trans hlocate)
    exact absurd hbegins (by decide)
  · have hkept := h.kept _ rfl ["srv".toList, "uploads".toList, "orders.csv".toList] [105, 100] (by decide)
    exact absurd hkept (by decide)

end Uploads
end RustLake.Routes
