import Mathlib.Data.List.Basic

/-! A file system without links: how paths are resolved, and what a write leaves of a file. -/
namespace RustLake.FileSystem

abbrev Name := List Char

abbrev Bytes := List UInt8

/-- Directories and files, by the names on the way from the root. -/
structure FileTree where
  isDir : List Name → Bool
  files : List Name → Option Bytes

/-- Where a component of a path leads: it stays, goes up or goes down. -/
def enter (dir : List Name) (c : Name) : List Name :=
  if c = [] ∨ c = ['.'] then dir
  else if c = ['.', '.'] then dir.dropLast
  else dir ++ [c]

def resolve (dir : List Name) (components : List Name) : List Name := components.foldl enter dir

/-- What goes wrong with a write: the file cannot be opened, or only so many bytes are written. -/
inductive WriteFault where
  | opening (e : String)
  | writing (n : ℕ) (e : String)

namespace FileTree
variable (t : FileTree)

/-- A walk through directories that exist. -/
def walk : List Name → List Name → Option (List Name)
  | dir, [] => some dir
  | dir, c :: rest => if t.isDir (enter dir c) then walk (enter dir c) rest else none

/-- The file that a path names, in a directory that exists. -/
def locate (cwd : List Name) (path : List Char) : Option (List Name) :=
  match (path.splitOn '/').getLast? with
  | none => none
  | some name =>
    if name = [] ∨ name = ['.'] ∨ name = ['.', '.'] then none
    else (t.walk (if path.head? = some '/' then [] else cwd) (path.splitOn '/').dropLast).map
      fun dir => dir ++ [name]

/-- A file is opened to be written from its start. -/
def openFile (cwd : List Name) (path : List Char) (fault : Option WriteFault) :
    Except String (List Name) :=
  if Char.ofNat 0 ∈ path then .error "file name contained an unexpected NUL byte"
  else match t.locate cwd path with
    | none => .error "No such file or directory (os error 2)"
    | some file =>
      if t.isDir file then .error "Is a directory (os error 21)"
      else match fault with
        | some (.opening e) => .error e
        | _ => .ok file

def put (file : List Name) (bytes : Bytes) : FileTree :=
  { t with files := Function.update t.files file (some bytes) }

/-- `std::fs::write`: what was in the file is lost once it is open. -/
def write (cwd : List Name) (path : List Char) (bytes : Bytes) (fault : Option WriteFault) :
    Except String Unit × FileTree :=
  match t.openFile cwd path fault with
  | .error e => (.error e, t)
  | .ok file =>
    match fault with
    | some (.writing n e) => (.error e, t.put file (bytes.take n))
    | _ => (.ok (), t.put file bytes)

@[simp] theorem put_files_self (file : List Name) (bytes : Bytes) :
    (t.put file bytes).files file = some bytes := Function.update_self _ _ _

theorem put_files_of_ne {file other : List Name} (h : other ≠ file) (bytes : Bytes) :
    (t.put file bytes).files other = t.files other := Function.update_of_ne h _ _

variable {t}

theorem walk_eq {dir components d : List Name} (h : t.walk dir components = some d) :
    d = resolve dir components := by
  induction components generalizing dir with
  | nil => exact (Option.some.inj h).symm
  | cons c rest ih =>
    unfold walk at h
    split_ifs at h
    exact ih h

theorem enter_of_plain {dir : List Name} {name : Name}
    (h : ¬ (name = [] ∨ name = ['.'] ∨ name = ['.', '.'])) : enter dir name = dir ++ [name] := by
  rw [not_or, not_or] at h
  unfold enter
  rw [if_neg (not_or.mpr ⟨h.1, h.2.1⟩), if_neg h.2.2]

/-- A file is where the components of its path lead, whatever directories there are. -/
theorem locate_eq {cwd file : List Name} {path : List Char} (h : t.locate cwd path = some file) :
    file = resolve (if path.head? = some '/' then [] else cwd) (path.splitOn '/') := by
  unfold locate at h
  split at h
  · cases h
  · rename_i name hlast
    by_cases hname : name = [] ∨ name = ['.'] ∨ name = ['.', '.']
    · rw [if_pos hname] at h
      cases h
    · rw [if_neg hname] at h
      obtain ⟨dir, hdir, rfl⟩ := Option.map_eq_some_iff.mp h
      obtain ⟨init, hinit⟩ := List.getLast?_eq_some_iff.mp hlast
      rw [hinit, List.dropLast_concat] at hdir
      rw [hinit, walk_eq hdir]
      unfold resolve
      rw [List.foldl_append]
      exact (enter_of_plain hname).symm

theorem openFile_eq {cwd file : List Name} {path : List Char} {fault : Option WriteFault}
    (h : t.openFile cwd path fault = .ok file) : t.locate cwd path = some file := by
  unfold openFile at h
  split_ifs at h
  cases hlocate : t.locate cwd path with
  | none =>
    rw [hlocate] at h
    cases h
  | some found =>
    rw [hlocate] at h
    dsimp only at h
    split_ifs at h
    split at h
    · cases h
    · rw [Except.ok.inj h]

end FileTree
end RustLake.FileSystem
