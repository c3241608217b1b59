import Mathlib.Data.List.Infix
import Mathlib.Data.List.TakeWhile

/-! Outlines: lines with depths, each of which belongs under the nearest line before it that is less
deep, and the forests that they write down line by line. -/
namespace RustLake.Outline

variable {α : Type}

/-- A forest as its first tree, whose root has a depth and a label, and the trees after it. -/
inductive Forest (α : Type) where
  | nil
  | node (depth : ℕ) (label : α) (children rest : Forest α)

/-- A line under the entry with an index, or under none. -/
structure Entry (α : Type) where
  label : α
  depth : ℕ
  parent : Option ℕ
deriving DecidableEq

/-- The index of the last line that is less deep. -/
def lastBelow (depth : ℕ) (depths : List ℕ) : Option ℕ :=
  depths.zipIdx.reverse.findSome? fun line => if line.1 < depth then some line.2 else none

/-- The entries of further lines. -/
def link (entries : List (Entry α)) (lines : List (ℕ × α)) : List (Entry α) :=
  lines.foldl (fun entries line =>
    entries ++ [⟨line.2, line.1, lastBelow line.1 (entries.map (·.depth))⟩]) entries

namespace Forest

def flatten : Forest α → List (ℕ × α)
  | nil => []
  | node depth label children rest => (depth, label) :: (children.flatten ++ rest.flatten)

/-- The entries of a forest whose roots are under a parent, from an index on. -/
def linked (parent : Option ℕ) (start : ℕ) : Forest α → List (Entry α)
  | nil => []
  | node depth label children rest =>
    ⟨label, depth, parent⟩ :: (children.linked (some start) (start + 1) ++
      rest.linked parent (start + 1 + children.flatten.length))

/-- Children are deeper than their parents, and no tree is deeper than the one before it. -/
def Layered : Forest α → Prop
  | nil => True
  | node depth _ children rest =>
    (∀ line ∈ children.flatten, depth < line.1) ∧ (∀ line ∈ rest.flatten.head?, line.1 ≤ depth) ∧
      children.Layered ∧ rest.Layered

/-- Roots have a depth and every child is one deeper than its parent. -/
def Uniform : ℕ → Forest α → Prop
  | _, nil => True
  | d, node depth _ children rest =>
    depth = d ∧ children.Uniform (d + 1) ∧ rest.Uniform d

/-- The trees of one forest before those of another. -/
def append : Forest α → Forest α → Forest α
  | nil, later => later
  | node depth label children rest, later => node depth label children (rest.append later)

end Forest

theorem lastBelow_concat {depth d : ℕ} {depths : List ℕ} :
    lastBelow depth (depths ++ [d]) =
      if d < depth then some depths.length else lastBelow depth depths := by
  simp only [lastBelow, List.zipIdx_append, List.zipIdx_singleton, List.reverse_append,
    List.reverse_singleton, List.singleton_append, List.findSome?_cons, Nat.zero_add]
  split_ifs <;> rfl

theorem lastBelow_append {depth : ℕ} {depths later : List ℕ} (h : ∀ d ∈ later, depth ≤ d) :
    lastBelow depth (depths ++ later) = lastBelow depth depths := by
  induction later generalizing depths with
  | nil => rw [List.append_nil]
  | cons d later ih =>
    obtain ⟨hd, hlater⟩ := List.forall_mem_cons.mp h
    rw [List.append_cons, ih hlater, lastBelow_concat, if_neg (by omega)]

theorem link_append (entries : List (Entry α)) (lines later : List (ℕ × α)) :
    link entries (lines ++ later) = link (link entries lines) later := List.foldl_append

theorem length_link (entries : List (Entry α)) (lines : List (ℕ × α)) :
    (link entries lines).length = entries.length + lines.length := by
  induction lines generalizing entries with
  | nil => rfl
  | cons line lines ih =>
    rw [← List.singleton_append, link_append, ih]
    simp [link, Nat.add_assoc, Nat.add_comm 1]

namespace Forest

theorem map_linked (f : Forest α) (parent : Option ℕ) (start : ℕ) :
    (f.linked parent start).map (fun e => (e.depth, e.label)) = f.flatten := by
  induction f generalizing parent start with
  | nil => rfl
  | node depth label children rest hchildren hrest =>
    simp [linked, flatten, hchildren, hrest]

theorem length_linked (f : Forest α) (parent : Option ℕ) (start : ℕ) :
    (f.linked parent start).length = f.flatten.length := by
  rw [← map_linked f parent start, List.length_map]

theorem depth_linked (f : Forest α) (parent : Option ℕ) (start : ℕ) :
    (f.linked parent start).map (·.depth) = f.flatten.map Prod.fst := by
  rw [← map_linked f parent start, List.map_map]
  rfl

/-- Each line of a layered forest is put under its parent. -/
theorem link_flatten {f : Forest α} (h : f.Layered) {entries : List (Entry α)}
    {parent : Option ℕ}
    (hparent : ∀ line ∈ f.flatten, (∀ first ∈ f.flatten.head?, line.1 ≤ first.1) →
      lastBelow line.1 (entries.map (·.depth)) = parent) :
    link entries f.flatten = entries ++ f.linked parent entries.length := by
  induction f generalizing entries parent with
  | nil => simp [flatten, linked, link]
  | node depth label children rest hchildren hrest =>
    obtain ⟨hdeeper, hhead, hlayered, hlayered'⟩ := h
    have hfirst : lastBelow depth (entries.map (·.depth)) = parent :=
      hparent (depth, label) List.mem_cons_self (by simp [flatten])
    have hroot : link entries [(depth, label)] = entries ++ [⟨label, depth, parent⟩] := by
      rw [link, List.foldl_cons, List.foldl_nil, hfirst]
    have hbelow : link (entries ++ [⟨label, depth, parent⟩]) children.flatten =
        entries ++ [⟨label, depth, parent⟩] ++
          children.linked (some entries.length) (entries.length + 1) := by
      have hlength : (entries ++ [(⟨label, depth, parent⟩ : Entry α)]).length =
          entries.length + 1 := by simp
      rw [← hlength]
      apply hchildren hlayered
      intro line hline hle
      have hdeep := hdeeper line hline
      rw [List.map_append, List.map_singleton, lastBelow_concat, if_pos hdeep, List.length_map]
    have hafter : ∀ line ∈ rest.flatten, (∀ first ∈ rest.flatten.head?, line.1 ≤ first.1) →
        lastBelow line.1 ((entries ++ [(⟨label, depth, parent⟩ : Entry α)] ++
          children.linked (some entries.length) (entries.length + 1)).map (·.depth)) = parent := by
      intro line hline hle
      have hshallow : line.1 ≤ depth := by
        cases hrest' : rest.flatten with
        | nil => simp [hrest'] at hline
        | cons first others =>
          rw [hrest'] at hle hhead
          exact (hle first rfl).trans (hhead first rfl)
      rw [List.map_append, List.map_append, depth_linked, List.append_assoc, lastBelow_append]
      · refine hparent line (by simp [flatten, hline]) ?_
        intro first hmem
        have heq : first = (depth, label) := by simpa [flatten, eq_comm] using hmem
        rw [heq]
        exact hshallow
      · intro d hd
        rcases List.mem_append.mp hd with hmem | hmem
        · have heq : d = depth := by simpa using hmem
          omega
        · obtain ⟨child, hchild, rfl⟩ := List.mem_map.mp hmem
          have hdeep := hdeeper child hchild
          omega
    rw [flatten, ← List.singleton_append, link_append, hroot, link_append, hbelow,
      hrest hlayered' hafter]
    simp [linked, length_linked, Nat.add_assoc, Nat.add_comm 1]

/-- Every outline is written down by a layered forest. -/
theorem exists_flatten_eq (lines : List (ℕ × α)) :
    ∃ f : Forest α, f.Layered ∧ f.flatten = lines := by
  induction hn : lines.length using Nat.strong_induction_on generalizing lines with
  | _ n ih =>
    cases lines with
    | nil => exact ⟨nil, trivial, rfl⟩
    | cons line lines =>
      obtain ⟨depth, label⟩ := line
      have hsplit := List.takeWhile_append_dropWhile (p := fun line : ℕ × α => depth < line.1)
        (l := lines)
      have hlengths := congrArg List.length hsplit
      rw [List.length_append] at hlengths
      rw [List.length_cons] at hn
      obtain ⟨children, hchildren, hflat⟩ :=
        ih _ (by omega) (lines.takeWhile fun line => depth < line.1) rfl
      obtain ⟨rest, hrest, hflat'⟩ :=
        ih _ (by omega) (lines.dropWhile fun line => depth < line.1) rfl
      refine ⟨node depth label children rest, ⟨?_, ?_, hchildren, hrest⟩, ?_⟩
      · intro child hchild
        rw [hflat] at hchild
        simpa using List.mem_takeWhile_imp hchild
      · intro first hfirst
        rw [hflat'] at hfirst
        have hnot := List.head?_dropWhile_not (fun line : ℕ × α => depth < line.1) lines
        rw [hfirst] at hnot
        simpa using hnot
      · rw [flatten, hflat, hflat', hsplit]

theorem Uniform.deeper {f : Forest α} {d : ℕ} (h : f.Uniform d) :
    ∀ line ∈ f.flatten, d ≤ line.1 := by
  induction f generalizing d with
  | nil => simp [flatten]
  | node depth label children rest hchildren hrest =>
    obtain ⟨rfl, hbelow, hafter⟩ := h
    intro line hline
    rcases List.mem_cons.mp hline with rfl | hmem
    · exact le_rfl
    · rcases List.mem_append.mp hmem with hmem | hmem
      · have hle := hchildren hbelow line hmem
        omega
      · exact hrest hafter line hmem

theorem Uniform.layered {f : Forest α} {d : ℕ} (h : f.Uniform d) : f.Layered := by
  induction f generalizing d with
  | nil => trivial
  | node depth label children rest hchildren hrest =>
    obtain ⟨rfl, hbelow, hafter⟩ := h
    refine ⟨?_, ?_, hchildren hbelow, hrest hafter⟩
    · intro line hline
      have hle := hbelow.deeper line hline
      omega
    · intro first hfirst
      cases rest with
      | nil => simp [flatten] at hfirst
      | node depth' label' children' rest' =>
        have heq : first = (depth', label') := by simpa [flatten, eq_comm] using hfirst
        rw [heq]
        exact hafter.1.le

@[simp] theorem flatten_append (f g : Forest α) : (f.append g).flatten = f.flatten ++ g.flatten := by
  induction f with
  | nil => rfl
  | node depth label children rest hchildren hrest => simp [append, flatten, hrest]

theorem Uniform.append {f g : Forest α} {d : ℕ} (hf : f.Uniform d) (hg : g.Uniform d) :
    (f.append g).Uniform d := by
  induction f with
  | nil => exact hg
  | node depth label children rest hchildren hrest =>
    exact ⟨hf.1, hf.2.1, hrest hf.2.2⟩

end Forest

end RustLake.Outline
