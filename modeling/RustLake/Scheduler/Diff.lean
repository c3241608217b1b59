import RustLake.Scheduler.Versions

/-! What the lines of a diff say of the two texts. -/
namespace RustLake.Scheduler

/-- The contents of the lines on one side of a diff: those that are unchanged and those that only
this side has. -/
def sideOf (kind : String) (diff : List DiffLine) : List String :=
  (diff.filter fun line => line.changeType = "unchanged" ∨ line.changeType = kind).map (·.content)

def countOf (kind : String) (diff : List DiffLine) : ℕ := diff.countP (·.changeType = kind)

/-- Both texts can be read from the diff, and its counters count its lines. -/
structure Reconstructs (olds news : List String) (diff : Diff) : Prop where
  old : sideOf "removed" diff.lines = olds
  new : sideOf "added" diff.lines = news
  added : countOf "added" diff.lines = diff.added + diff.changed
  removed : countOf "removed" diff.lines = diff.removed + diff.changed

section
variable {kind content : String} {n : ℕ} {diff : List DiffLine}

theorem sideOf_cons (line : DiffLine) : sideOf kind (line :: diff) =
    if line.changeType = "unchanged" ∨ line.changeType = kind then line.content :: sideOf kind diff
    else sideOf kind diff := by
  rw [sideOf, List.filter_cons]
  split_ifs with hdecided hside hside
  · rfl
  · exact absurd (of_decide_eq_true hdecided) hside
  · exact absurd (decide_eq_true hside) hdecided
  · rfl

theorem sideOf_unchanged :
    sideOf kind (⟨n, "unchanged", content⟩ :: diff) = content :: sideOf kind diff := by
  rw [sideOf_cons, if_pos (Or.inl rfl)]

theorem sideOf_self : sideOf kind (⟨n, kind, content⟩ :: diff) = content :: sideOf kind diff := by
  rw [sideOf_cons, if_pos (Or.inr rfl)]

theorem sideOf_other {other : String} (h : ¬ (other = "unchanged" ∨ other = kind)) :
    sideOf kind (⟨n, other, content⟩ :: diff) = sideOf kind diff := by
  rw [sideOf_cons, if_neg h]

theorem countOf_self : countOf kind (⟨n, kind, content⟩ :: diff) = countOf kind diff + 1 :=
  List.countP_cons_of_pos (by simp)

theorem countOf_other {other : String} (h : other ≠ kind) :
    countOf kind (⟨n, other, content⟩ :: diff) = countOf kind diff :=
  List.countP_cons_of_neg (by simp [h])

end

section
variable {olds news : List String} {diff : Diff} {n : ℕ}

theorem Reconstructs.unchanged (h : Reconstructs olds news diff) (line : String) :
    Reconstructs (line :: olds) (line :: news)
      { diff with lines := ⟨n, "unchanged", line⟩ :: diff.lines } where
  old := by rw [sideOf_unchanged, h.old]
  new := by rw [sideOf_unchanged, h.new]
  added := by rw [countOf_other (by decide), h.added]
  removed := by rw [countOf_other (by decide), h.removed]

theorem Reconstructs.changed (h : Reconstructs olds news diff) (old new : String) :
    Reconstructs (old :: olds) (new :: news)
      { diff with
        lines := ⟨n, "removed", old⟩ :: ⟨n, "added", new⟩ :: diff.lines
        changed := diff.changed + 1 } where
  old := by rw [sideOf_self, sideOf_other (by decide), h.old]
  new := by rw [sideOf_other (by decide), sideOf_self, h.new]
  added := by rw [countOf_other (by decide), countOf_self, h.added, Nat.add_assoc]
  removed := by rw [countOf_self, countOf_other (by decide), h.removed, Nat.add_assoc]

theorem Reconstructs.dropped (h : Reconstructs olds news diff) (old : String) :
    Reconstructs (old :: olds) news
      { diff with
        lines := ⟨n, "removed", old⟩ :: diff.lines
        removed := diff.removed + 1 } where
  old := by rw [sideOf_self, h.old]
  new := by rw [sideOf_other (by decide), h.new]
  added := by rw [countOf_other (by decide), h.added]
  removed := by rw [countOf_self, h.removed, Nat.add_right_comm]

theorem Reconstructs.inserted (h : Reconstructs olds news diff) (new : String) :
    Reconstructs olds (new :: news)
      { diff with
        lines := ⟨n, "added", new⟩ :: diff.lines
        added := diff.added + 1 } where
  old := by rw [sideOf_other (by decide), h.old]
  new := by rw [sideOf_self, h.new]
  added := by rw [countOf_self, h.added, Nat.add_right_comm]
  removed := by rw [countOf_other (by decide), h.removed]

end

/-- One line at a time, from whichever text still has one. -/
theorem reconstructs_diffLines (n : ℕ) (olds news : List String) :
    Reconstructs olds news (diffLines n olds news) := by
  induction n, olds, news using diffLines.induct with
  | case1 n =>
    rw [diffLines]
    exact ⟨rfl, rfl, rfl, rfl⟩
  | case2 n olds line news ih =>
    rw [diffLines, if_pos rfl]
    exact ih.unchanged line
  | case3 n old olds new news hne ih =>
    rw [diffLines, if_neg hne]
    exact ih.changed old new
  | case4 n old olds ih =>
    rw [diffLines]
    exact ih.dropped old
  | case5 n new news ih =>
    rw [diffLines]
    exact ih.inserted new

theorem diffTransforms_reconstructs (oldSource newSource : String) :
    Reconstructs (Persistence.lines oldSource) (Persistence.lines newSource)
      (diffTransforms oldSource newSource) :=
  reconstructs_diffLines 1 _ _

section
variable {Gate : Type} {at' name : String} {other : ExecutableTable Gate → Unscheduled}
variable {req : UpdateTransformRequest} {state : AppState Gate}

/-- What the reply to an update shows is the code from before it and the new one. -/
theorem updateExecutableTable_reconstructs {version : UInt32} {description fromHash toHash : String}
    {diff : Diff} (h : (updateExecutableTable at' other name req state).1 =
      .ok (.updated version description fromHash toHash diff)) :
    ∃ t, findTable state.executableTables name = some t ∧
      Reconstructs (Persistence.lines t.transform.sourceCode) (Persistence.lines req.sourceCode)
        diff := by
  unfold updateExecutableTable at h
  cases hfind : findTable state.executableTables name with
  | none =>
    rw [hfind] at h
    cases h
  | some t =>
    rw [hfind] at h
    simp only [Except.ok.injEq] at h
    split_ifs at h with hsame
    cases h
    exact ⟨t, rfl, reconstructs_diffLines 1 _ _⟩

end

end RustLake.Scheduler
