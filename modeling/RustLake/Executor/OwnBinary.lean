import RustLake.Scheduler.Versions
import Mathlib.Data.List.AList

/-! The execution of Rust code: a compiled binary is kept under the hash of its text, in memory, in a
folder and in S3. -/
namespace RustLake.Executor
open Scheduler (hashSource)

/-- A compiled program, by the text that it was compiled from. -/
structure Binary where
  source : String
deriving DecidableEq

structure CachedBinary where
  binPath : String
  sourceHash : String
  hits : UInt64
  lastUsed : ℕ

/-- The map in memory, the folder, the bucket when one is configured, and the uploads under way. -/
structure ExecutorState where
  cache : AList fun _ : String => CachedBinary
  files : String → Option Binary
  s3 : Option (String → Option Binary)
  uploads : List (String × Binary)

def maxCacheEntries : ℕ := 100

def cachedPath (sourceHash : String) : String := ".rustlake-cache/rust-bins/bin-" ++ sourceHash

def s3BinPath (sourceHash : String) : String := "rustlake-functions/bin-" ++ sourceHash

def wrapInMain (code : String) : String :=
  if "fn main()".toList <:+: code.toList ∨ "fn main ()".toList <:+: code.toList then code
  else
    "#![allow(unused_imports, unused_variables, dead_code)]\n" ++
      "use std::collections::\x7bHashMap, HashSet, BTreeMap, VecDeque\x7d;\n" ++
      "use std::io::\x7bself, Read, Write\x7d;\n\nfn main() \x7b\n" ++ code ++ "\n\x7d"

/-- What a call meets: the clock, whether the object is fetched and written, whether the compiler runs
and ends in time, whether the binary is copied, the order in which the map gives its keys, the files that
can be removed, and whether the binary is run. -/
structure Attempt where
  now : ℕ
  fetched : Bool
  written : Bool
  compilerRuns : Bool
  copied : Bool
  iteration : List String
  removed : String → Bool
  runs : Bool

structure RustExecutionResult where
  cached : Bool
  compiled : Bool
  ran : Option Binary
deriving DecidableEq

def CachedBinary.hit (now : ℕ) (entry : CachedBinary) : CachedBinary :=
  { entry with hits := entry.hits + 1, lastUsed := now }

/-- An entry whose file is gone is removed. -/
def getCachedBinary (now : ℕ) (sourceHash : String) (e : ExecutorState) :
    Option String × ExecutorState :=
  match e.cache.lookup sourceHash with
  | some entry =>
    if (e.files entry.binPath).isSome then
      (some entry.binPath, { e with cache := e.cache.insert sourceHash (entry.hit now) })
    else (none, { e with cache := e.cache.erase sourceHash })
  | none => (none, e)

/-- The least recently used entries, a fifth of a full cache. -/
def oldest (iteration : List String) (cache : AList fun _ : String => CachedBinary) : List String :=
  let lastUsed (key : String) := ((cache.lookup key).map (·.lastUsed)).getD 0
  ((iteration.filter fun key => (cache.lookup key).isSome).mergeSort
    fun a b => lastUsed a ≤ lastUsed b).take (maxCacheEntries / 5)

def removeEntry (removed : String → Bool) (e : ExecutorState) (key : String) : ExecutorState :=
  match e.cache.lookup key with
  | some entry => { e with
      cache := e.cache.erase key
      files := if removed entry.binPath then Function.update e.files entry.binPath none else e.files }
  | none => e

def evict (attempt : Attempt) (e : ExecutorState) : ExecutorState :=
  if maxCacheEntries ≤ e.cache.keys.length then
    (oldest attempt.iteration e.cache).foldl (removeEntry attempt.removed) e
  else e

/-- The entry of a binary that has just been stored. -/
def newEntry (now : ℕ) (sourceHash : String) : CachedBinary :=
  ⟨cachedPath sourceHash, sourceHash, 0, now⟩

def cacheBinary (attempt : Attempt) (sourceHash : String) (binary : Binary) (e : ExecutorState) :
    ExecutorState :=
  if attempt.copied then
    let evicted := evict attempt
      { e with files := Function.update e.files (cachedPath sourceHash) (some binary) }
    { evicted with cache := evicted.cache.insert sourceHash (newEntry attempt.now sourceHash) }
  else e

def downloadBinaryFromS3 (attempt : Attempt) (sourceHash : String) (e : ExecutorState) : ExecutorState :=
  match e.s3.bind fun objects => objects (s3BinPath sourceHash) with
  | some binary =>
    if attempt.fetched && attempt.written then { e with
      files := Function.update e.files (cachedPath sourceHash) (some binary)
      cache := e.cache.insert sourceHash (newEntry attempt.now sourceHash) }
    else e
  | none => e

/-- The look into the bucket when there is no binary at hand. -/
def restoreBinary (attempt : Attempt) (sourceHash : String) (e : ExecutorState) : ExecutorState :=
  let (found, looked) := getCachedBinary attempt.now sourceHash e
  if found.isNone then downloadBinaryFromS3 attempt sourceHash looked else looked

section Execute
variable (compiles : String → Bool)

def executeRust (code : String) (attempt : Attempt) (e : ExecutorState) :
    RustExecutionResult × ExecutorState :=
  let fullCode := wrapInMain code
  let sourceHash := hashSource fullCode
  let (cachedBin, hit) := getCachedBinary attempt.now sourceHash (restoreBinary attempt sourceHash e)
  match cachedBin with
  | some path => (⟨true, true, if attempt.runs then hit.files path else none⟩, hit)
  | none =>
    if attempt.compilerRuns && compiles fullCode then
      let cached := cacheBinary attempt sourceHash ⟨fullCode⟩ hit
      let uploads := if cached.s3.isSome then [(sourceHash, Binary.mk fullCode)] else []
      (⟨false, true, if attempt.runs then some ⟨fullCode⟩ else none⟩,
        { cached with uploads := cached.uploads ++ uploads })
    else (⟨false, false, none⟩, hit)

/-- A call; an upload that ends, having stored the binary or not; a file of the folder that is removed; a
restart of the server. -/
inductive Event where
  | execute (code : String) (attempt : Attempt)
  | endUpload (i : ℕ) (stored : Bool)
  | removeFile (path : String)
  | restart

def endUpload (i : ℕ) (stored : Bool) (e : ExecutorState) : ExecutorState :=
  match e.uploads[i]? with
  | some (sourceHash, binary) => { e with
      uploads := e.uploads.eraseIdx i
      s3 := if stored then e.s3.map fun objects =>
        Function.update objects (s3BinPath sourceHash) (some binary) else e.s3 }
  | none => e

def afterEvent (e : ExecutorState) : Event → ExecutorState
  | .execute code attempt => (executeRust compiles code attempt e).2
  | .endUpload i stored => endUpload i stored e
  | .removeFile path => { e with files := Function.update e.files path none }
  | .restart => { e with cache := ∅, uploads := [] }

/-- The results of the calls, each with its program text. -/
def results : ExecutorState → List Event → List (String × RustExecutionResult)
  | _, [] => []
  | e, event :: rest =>
    let later := results (afterEvent compiles e event) rest
    match event with
    | .execute code attempt => (code, (executeRust compiles code attempt e).1) :: later
    | _ => later

end Execute

/-- An empty cache, with an empty bucket or none. -/
def emptyCache (s3Configured : Bool) : ExecutorState :=
  ⟨∅, fun _ => none, if s3Configured then some fun _ => none else none, []⟩

/-- The call is of one of the texts. -/
def Event.Uses (texts : Set String) : Event → Prop
  | .execute code _ => code ∈ texts
  | _ => True

/-- Each call that reports compiled output runs a binary of its own text. -/
def OwnBinary (compiles : String → Bool) (s3Configured : Bool) (events : List Event) : Prop :=
  ∀ r ∈ results compiles (emptyCache s3Configured) events, r.2.compiled = true →
    ∀ binary, r.2.ran = some binary → binary.source = wrapInMain r.1

/-- A text that compiles has a hash that no other text has. -/
def NoClash (compiles : String → Bool) (texts : Set String) : Prop :=
  ∀ code ∈ texts, ∀ other ∈ texts, compiles (wrapInMain code) = true →
    hashSource (wrapInMain code) = hashSource (wrapInMain other) → wrapInMain code = wrapInMain other

end RustLake.Executor

/-! Which binary a call of the executor runs: what is stored under a hash was compiled from a text with
that hash. -/
namespace RustLake.Executor
open Scheduler (hashSource)

section Stored
variable {compiles : String → Bool} {texts : Set String} {e : ExecutorState} {attempt : Attempt}
  {sourceHash : String}

/-- The binary was compiled from one of the texts with the hash. -/
def Stored (compiles : String → Bool) (texts : Set String) (sourceHash : String) (binary : Binary) :
    Prop :=
  ∃ code ∈ texts, compiles (wrapInMain code) = true ∧ binary.source = wrapInMain code ∧
    hashSource (wrapInMain code) = sourceHash

/-- What every place of the executor holds under a hash was compiled from a text with that hash. -/
structure Filed (compiles : String → Bool) (texts : Set String) (e : ExecutorState) : Prop where
  cache : ∀ sourceHash entry, e.cache.lookup sourceHash = some entry →
    entry.binPath = cachedPath sourceHash
  files : ∀ sourceHash binary, e.files (cachedPath sourceHash) = some binary →
    Stored compiles texts sourceHash binary
  s3 : ∀ objects, e.s3 = some objects → ∀ sourceHash binary,
    objects (s3BinPath sourceHash) = some binary → Stored compiles texts sourceHash binary
  uploads : ∀ upload ∈ e.uploads, Stored compiles texts upload.1 upload.2

theorem append_right_injective (folder a b : String) (h : folder ++ a = folder ++ b) : a = b := by
  have hchars := congrArg String.toList h
  rw [String.toList_append, String.toList_append, List.append_cancel_left_eq] at hchars
  exact String.toList_inj.mp hchars

theorem cachedPath_injective {a b : String} (h : cachedPath a = cachedPath b) : a = b :=
  append_right_injective _ a b h

theorem s3BinPath_injective {a b : String} (h : s3BinPath a = s3BinPath b) : a = b :=
  append_right_injective _ a b h

theorem filed_emptyCache (s3Configured : Bool) : Filed compiles texts (emptyCache s3Configured) where
  cache sourceHash entry h := by
    rw [emptyCache, AList.lookup_empty] at h
    cases h
  files sourceHash binary h := by cases h
  s3 objects h sourceHash binary hobject := by
    cases s3Configured with
    | false => cases h
    | true =>
      cases h
      cases hobject
  uploads upload h := by cases h

/-- A map with entries of their own paths. -/
theorem lookup_insert_path {cache : AList fun _ : String => CachedBinary} {entry : CachedBinary}
    (hcache : ∀ key value, cache.lookup key = some value → value.binPath = cachedPath key)
    (hentry : entry.binPath = cachedPath sourceHash) :
    ∀ key value, (cache.insert sourceHash entry).lookup key = some value →
      value.binPath = cachedPath key := by
  intro key value h
  by_cases hkey : key = sourceHash
  · rw [hkey, AList.lookup_insert, Option.some.injEq] at h
    rw [← h, hkey, hentry]
  · rw [AList.lookup_insert_ne hkey] at h
    exact hcache key value h

theorem lookup_erase_path {cache : AList fun _ : String => CachedBinary}
    (hcache : ∀ key value, cache.lookup key = some value → value.binPath = cachedPath key)
    (key : String) :
    ∀ k value, (cache.erase key).lookup k = some value → value.binPath = cachedPath k := by
  intro k value h
  by_cases hkey : k = key
  · rw [hkey, AList.lookup_erase] at h
    cases h
  · rw [AList.lookup_erase_ne hkey] at h
    exact hcache k value h

theorem Filed.getCachedBinary (h : Filed compiles texts e) (now : ℕ) (sourceHash : String) :
    Filed compiles texts (getCachedBinary now sourceHash e).2 := by
  unfold Executor.getCachedBinary
  cases hentry : e.cache.lookup sourceHash with
  | none => exact h
  | some entry =>
    dsimp only
    split
    · exact { h with cache := lookup_insert_path h.cache (h.cache sourceHash entry hentry) }
    · exact { h with cache := lookup_erase_path h.cache sourceHash }

/-- The path that is found is the one of the hash, with a file. -/
theorem getCachedBinary_some {now : ℕ} {path : String} (h : Filed compiles texts e)
    (hfound : (getCachedBinary now sourceHash e).1 = some path) : path = cachedPath sourceHash := by
  unfold getCachedBinary at hfound
  cases hentry : e.cache.lookup sourceHash with
  | none =>
    rw [hentry] at hfound
    cases hfound
  | some entry =>
    rw [hentry] at hfound
    dsimp only at hfound
    split at hfound
    · rw [← Option.some.inj hfound]
      exact h.cache sourceHash entry hentry
    · cases hfound

/-- A file of a hash is put in its place. -/
theorem files_update {files : String → Option Binary} {binary : Binary}
    (hfiles : ∀ key stored, files (cachedPath key) = some stored → Stored compiles texts key stored)
    (hbinary : Stored compiles texts sourceHash binary) :
    ∀ key stored, Function.update files (cachedPath sourceHash) (some binary) (cachedPath key) =
      some stored → Stored compiles texts key stored := by
  intro key stored h
  by_cases hkey : cachedPath key = cachedPath sourceHash
  · rw [hkey, Function.update_self, Option.some.injEq] at h
    rw [cachedPath_injective hkey, ← h]
    exact hbinary
  · rw [Function.update_of_ne hkey] at h
    exact hfiles key stored h

theorem files_remove {files : String → Option Binary} (path : String)
    (hfiles : ∀ key stored, files (cachedPath key) = some stored → Stored compiles texts key stored) :
    ∀ key stored, Function.update files path none (cachedPath key) = some stored →
      Stored compiles texts key stored := by
  intro key stored h
  by_cases hkey : cachedPath key = path
  · rw [hkey, Function.update_self] at h
    cases h
  · rw [Function.update_of_ne hkey] at h
    exact hfiles key stored h

theorem Filed.removeEntry (h : Filed compiles texts e) (removed : String → Bool) (key : String) :
    Filed compiles texts (removeEntry removed e key) := by
  unfold Executor.removeEntry
  split
  · refine { h with cache := lookup_erase_path h.cache key, files := ?_ }
    dsimp only
    split
    · exact files_remove _ h.files
    · exact h.files
  · exact h

theorem Filed.evict (h : Filed compiles texts e) (attempt : Attempt) :
    Filed compiles texts (evict attempt e) := by
  unfold Executor.evict
  split
  · rename_i hfull
    clear hfull
    induction oldest attempt.iteration e.cache generalizing e with
    | nil => exact h
    | cons key rest ih => exact ih (h.removeEntry attempt.removed key)
  · exact h

theorem Filed.cacheBinary {binary : Binary} (h : Filed compiles texts e)
    (hbinary : Stored compiles texts sourceHash binary) (attempt : Attempt) :
    Filed compiles texts (cacheBinary attempt sourceHash binary e) := by
  unfold Executor.cacheBinary
  split
  · have hcopied : Filed compiles texts
        { e with files := Function.update e.files (cachedPath sourceHash) (some binary) } :=
      { h with files := files_update h.files hbinary }
    have hevicted := hcopied.evict attempt
    exact { hevicted with cache := lookup_insert_path hevicted.cache rfl }
  · exact h

theorem Filed.downloadBinaryFromS3 (h : Filed compiles texts e) (attempt : Attempt)
    (sourceHash : String) : Filed compiles texts (downloadBinaryFromS3 attempt sourceHash e) := by
  unfold Executor.downloadBinaryFromS3
  split
  · rename_i binary hobject
    obtain ⟨objects, hobjects, hbinary⟩ := Option.bind_eq_some_iff.mp hobject
    split
    · exact { h with
        files := files_update h.files (h.s3 objects hobjects sourceHash binary hbinary)
        cache := lookup_insert_path h.cache rfl }
    · exact h
  · exact h

end Stored

section Calls
variable {compiles : String → Bool} {texts : Set String} {e : ExecutorState} {attempt : Attempt}
  {code : String}

theorem Filed.restoreBinary (h : Filed compiles texts e) (attempt : Attempt) (sourceHash : String) :
    Filed compiles texts (restoreBinary attempt sourceHash e) := by
  have hlooked := h.getCachedBinary attempt.now sourceHash
  unfold Executor.restoreBinary
  dsimp only
  split
  · exact hlooked.downloadBinaryFromS3 attempt sourceHash
  · exact hlooked

theorem Filed.executeRust (h : Filed compiles texts e) (hcode : code ∈ texts) :
    Filed compiles texts (executeRust compiles code attempt e).2 := by
  have hhit := (h.restoreBinary attempt (hashSource (wrapInMain code))).getCachedBinary attempt.now
    (hashSource (wrapInMain code))
  unfold Executor.executeRust
  dsimp only
  split
  · exact hhit
  · split
    · rename_i hcompiled
      have hbinary : Stored compiles texts (hashSource (wrapInMain code)) ⟨wrapInMain code⟩ :=
        ⟨code, hcode, (Bool.and_eq_true_iff.mp hcompiled).2, rfl, rfl⟩
      have hcached := hhit.cacheBinary hbinary attempt
      refine { hcached with uploads := fun upload hupload => ?_ }
      rcases List.mem_append.mp hupload with hold | hnew
      · exact hcached.uploads upload hold
      · split at hnew
        · rw [List.mem_singleton.mp hnew]
          exact hbinary
        · cases hnew
    · exact hhit

/-- A call runs a binary of a text with the same hash, or of its own text. -/
theorem executeRust_ran (h : Filed compiles texts e) {binary : Binary}
    (hran : (executeRust compiles code attempt e).1.ran = some binary) :
    binary.source = wrapInMain code ∨
      Stored compiles texts (hashSource (wrapInMain code)) binary := by
  have hrestored := h.restoreBinary attempt (hashSource (wrapInMain code))
  have hhit := hrestored.getCachedBinary attempt.now (hashSource (wrapInMain code))
  unfold executeRust at hran
  dsimp only at hran
  split at hran
  · rename_i path hfound
    rw [getCachedBinary_some hrestored hfound] at hran
    dsimp only at hran
    split at hran
    · exact Or.inr (hhit.files _ _ hran)
    · cases hran
  · split at hran
    · dsimp only at hran
      split at hran
      · rw [← Option.some.inj hran]
        exact Or.inl rfl
      · cases hran
    · cases hran

theorem Filed.endUpload (h : Filed compiles texts e) (i : ℕ) (stored : Bool) :
    Filed compiles texts (endUpload i stored e) := by
  unfold Executor.endUpload
  cases hupload : e.uploads[i]? with
  | none => exact h
  | some upload =>
    obtain ⟨sourceHash, binary⟩ := upload
    dsimp only
    have hbinary := h.uploads _ (List.mem_of_getElem? hupload)
    refine { h with
      uploads := fun other hother => h.uploads other (List.mem_of_mem_eraseIdx hother)
      s3 := ?_ }
    intro objects hobjects key stored' hobject
    dsimp only at hobjects
    split at hobjects
    · obtain ⟨before, hbefore, rfl⟩ := Option.map_eq_some_iff.mp hobjects
      by_cases hkey : s3BinPath key = s3BinPath sourceHash
      · rw [hkey, Function.update_self, Option.some.injEq] at hobject
        rw [s3BinPath_injective hkey, ← hobject]
        exact hbinary
      · rw [Function.update_of_ne hkey] at hobject
        exact h.s3 before hbefore key stored' hobject
    · exact h.s3 objects hobjects key stored' hobject

theorem Filed.afterEvent {event : Event} (h : Filed compiles texts e) (huses : event.Uses texts) :
    Filed compiles texts (afterEvent compiles e event) := by
  cases event with
  | execute code attempt => exact h.executeRust huses
  | endUpload i stored => exact h.endUpload i stored
  | removeFile path => exact { h with files := files_remove path h.files }
  | restart =>
    exact { h with
      cache := fun key entry hentry => by cases hentry
      uploads := fun upload hupload => by cases hupload }

/-- In a run over texts whose hashes do not clash, each call runs a binary of its own text. -/
theorem ran_own {events : List Event} (hclash : NoClash compiles texts)
    (huses : ∀ event ∈ events, event.Uses texts) (h : Filed compiles texts e) :
    ∀ r ∈ results compiles e events, ∀ binary, r.2.ran = some binary →
      binary.source = wrapInMain r.1 := by
  induction events generalizing e with
  | nil =>
    intro r hr
    cases hr
  | cons event rest ih =>
    obtain ⟨hevent, hrest⟩ := List.forall_mem_cons.mp huses
    have hlater := ih hrest (h.afterEvent hevent)
    cases event with
    | execute code attempt =>
      intro r hr
      rcases List.mem_cons.mp hr with rfl | hr
      · intro binary hran
        rcases executeRust_ran h hran with hown | ⟨other, hother, hcompiles, hsource, hhash⟩
        · exact hown
        · rw [hsource]
          exact hclash other hother code hevent hcompiles hhash
      · exact hlater r hr
    | endUpload i stored => exact hlater
    | removeFile path => exact hlater
    | restart => exact hlater

/-- A binary at hand is run. -/
theorem executeRust_hit {entry : CachedBinary} {binary : Binary} (hruns : attempt.runs = true)
    (hentry : e.cache.lookup (hashSource (wrapInMain code)) = some entry)
    (hfile : e.files entry.binPath = some binary) :
    (executeRust compiles code attempt e).1 = ⟨true, true, some binary⟩ := by
  have hfirst : getCachedBinary attempt.now (hashSource (wrapInMain code)) e =
      (some entry.binPath, { e with
        cache := e.cache.insert (hashSource (wrapInMain code)) (entry.hit attempt.now) }) := by
    simp only [getCachedBinary, hentry, hfile, Option.isSome_some, if_true]
  have hrestored : restoreBinary attempt (hashSource (wrapInMain code)) e =
      { e with
        cache := e.cache.insert (hashSource (wrapInMain code)) (entry.hit attempt.now) } := by
    rw [restoreBinary, hfirst]
    rfl
  have hpath : (entry.hit attempt.now).binPath = entry.binPath := rfl
  unfold executeRust
  dsimp only
  rw [hrestored]
  simp only [getCachedBinary, AList.lookup_insert, hpath, hfile, Option.isSome_some, if_true, hruns]

/-- A disk, a bucket and a compiler that do what they are asked. -/
def allGood : Attempt := ⟨0, true, true, true, true, [], fun _ => true, true⟩

/-- The first call compiles, and the binary is kept under the hash. -/
theorem executeRust_emptyCache (hcompiles : compiles (wrapInMain code) = true) (s3Configured : Bool) :
    (executeRust compiles code allGood (emptyCache s3Configured)).2.cache.lookup
        (hashSource (wrapInMain code)) = some (newEntry 0 (hashSource (wrapInMain code))) ∧
      (executeRust compiles code allGood (emptyCache s3Configured)).2.files
        (cachedPath (hashSource (wrapInMain code))) = some ⟨wrapInMain code⟩ := by
  have hlooked : getCachedBinary allGood.now (hashSource (wrapInMain code)) (emptyCache s3Configured) =
      (none, emptyCache s3Configured) := by
    rw [getCachedBinary, emptyCache, AList.lookup_empty]
  have hdownload : downloadBinaryFromS3 allGood (hashSource (wrapInMain code)) (emptyCache s3Configured) =
      emptyCache s3Configured := by
    cases s3Configured <;> rfl
  have hrestored : restoreBinary allGood (hashSource (wrapInMain code)) (emptyCache s3Configured) =
      emptyCache s3Configured := by
    rw [restoreBinary, hlooked]
    exact hdownload
  have hcompiled : (allGood.compilerRuns && compiles (wrapInMain code)) = true := by
    rw [hcompiles]
    rfl
  unfold executeRust
  dsimp only
  rw [hrestored, hlooked]
  dsimp only
  rw [if_pos hcompiled]
  generalize wrapInMain code = fullCode
  generalize hashSource fullCode = sourceHash
  exact ⟨AList.lookup_insert _, Function.update_self ..⟩

/-- After a text that compiles, another with the same hash is answered by its binary. -/
theorem eq_of_ownBinary {other : String} {s3Configured : Bool}
    (hcompiles : compiles (wrapInMain code) = true)
    (hhash : hashSource (wrapInMain code) = hashSource (wrapInMain other))
    (hown : OwnBinary compiles s3Configured [.execute code allGood, .execute other allGood]) :
    wrapInMain code = wrapInMain other := by
  obtain ⟨hentry, hfile⟩ := executeRust_emptyCache hcompiles s3Configured
  rw [hhash] at hentry hfile
  have hhit := @executeRust_hit compiles _ allGood other _ ⟨wrapInMain code⟩ rfl hentry hfile
  have hsecond := hown _ (List.mem_cons_of_mem _ List.mem_cons_self)
  dsimp only [afterEvent] at hsecond
  rw [hhit] at hsecond
  exact hsecond rfl _ rfl

/-- In every run over some texts each call that reports compiled output runs a binary of its own text
exactly when no text that compiles shares its hash with another. -/
theorem ownBinary_iff (compiles : String → Bool) (texts : Set String) (s3Configured : Bool) :
    (∀ events : List Event, (∀ event ∈ events, event.Uses texts) →
      OwnBinary compiles s3Configured events) ↔ NoClash compiles texts := by
  constructor
  · intro h code hcode other hother hcompiles hhash
    refine eq_of_ownBinary hcompiles hhash (h _ ?_ : OwnBinary compiles s3Configured _)
    intro event hevent
    simp only [List.mem_cons, List.not_mem_nil, or_false] at hevent
    rcases hevent with rfl | rfl
    · exact hcode
    · exact hother
  · intro hclash events huses r hr _
    exact ran_own hclash huses (filed_emptyCache s3Configured) r hr

end Calls

section Clash

/-- Two programs that print different numbers. -/
def printsFirst : String := "fn main() \x7b println!(\"\x7b\x7d\", 0xf6070e361af2e7cau64); \x7d"

def printsSecond : String := "fn main() \x7b println!(\"\x7b\x7d\", 0x09b2c4682857692bu64); \x7d"

theorem wrapInMain_printsFirst : wrapInMain printsFirst = printsFirst :=
  if_pos (Or.inl (by decide +kernel))

theorem wrapInMain_printsSecond : wrapInMain printsSecond = printsSecond :=
  if_pos (Or.inl (by decide +kernel))

theorem hashSource_clash : hashSource printsFirst = hashSource printsSecond := by decide +kernel

/-- The second program is answered by the binary of the first. -/
theorem not_ownBinary_clash : ¬ OwnBinary (fun _ => true) false
    [.execute printsFirst allGood, .execute printsSecond allGood] := by
  intro hown
  have hhash : hashSource (wrapInMain printsFirst) = hashSource (wrapInMain printsSecond) := by
    rw [wrapInMain_printsFirst, wrapInMain_printsSecond, hashSource_clash]
  have hsame := eq_of_ownBinary rfl hhash hown
  rw [wrapInMain_printsFirst, wrapInMain_printsSecond] at hsame
  exact absurd hsame (by decide +kernel)

end Clash

end RustLake.Executor
