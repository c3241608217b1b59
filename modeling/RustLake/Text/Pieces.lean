import RustLake.Text.Replace

/-! Texts cut into pieces that stay and names: what replacing names in the text, one after the
other, does to the pieces. -/
namespace RustLake.Text

/-- A piece of a text: letters that stay, or a name. -/
inductive Piece (α : Type) where
  | text (s : List α)
  | name (n : List α)
deriving DecidableEq

variable {α : Type}

namespace Piece

def spelled (f : List α → List α) : Piece α → List α
  | .text s => s
  | .name n => f n

def name? : Piece α → Option (List α)
  | .text _ => none
  | .name n => some n

def onName (f : List α → List α) : Piece α → Piece α
  | .text s => .text s
  | .name n => .name (f n)

end Piece

/-- The text of some pieces, with every name in a spelling. -/
def spell (f : List α → List α) (pieces : List (Piece α)) : List α := pieces.flatMap (·.spelled f)

def names (pieces : List (Piece α)) : List (List α) := pieces.filterMap (·.name?)

@[simp] theorem spell_nil (f : List α → List α) : spell f [] = [] := rfl

@[simp] theorem spell_cons (f : List α → List α) (piece : Piece α) (rest : List (Piece α)) :
    spell f (piece :: rest) = piece.spelled f ++ spell f rest := rfl

theorem spell_congr {f g : List α → List α} {pieces : List (Piece α)}
    (h : ∀ n ∈ names pieces, f n = g n) : spell f pieces = spell g pieces := by
  induction pieces with
  | nil => rfl
  | cons piece rest ih =>
    cases piece with
    | text s => exact congrArg (s ++ ·) (ih h)
    | name n =>
      obtain ⟨hn, hrest⟩ := List.forall_mem_cons.mp (h : ∀ m ∈ n :: names rest, f m = g m)
      exact congrArg₂ (· ++ ·) hn (ih hrest)

theorem spell_onName (f g : List α → List α) (pieces : List (Piece α)) :
    spell g (pieces.map (Piece.onName f)) = spell (fun n => g (f n)) pieces := by
  induction pieces with
  | nil => rfl
  | cons piece rest ih => cases piece <;> exact congrArg (_ ++ ·) ih

section Rename
variable [DecidableEq α]

/-- The names equal to `p` become letters. -/
def rename (p rep : List α) : Piece α → Piece α
  | .text s => .text s
  | .name n => if n = p then .text rep else .name n

/-- No match begins in a text that something follows. -/
def NoStart (p x following : List α) : Prop := ∀ y ∈ x.tails, y ≠ [] → ¬ p <+: y ++ following

instance (p x following : List α) : Decidable (NoStart p x following) :=
  inferInstanceAs (Decidable (∀ y ∈ x.tails, y ≠ [] → ¬ p <+: y ++ following))

/-- A match begins in the names equal to `p` only. -/
def OnlyNames (p : List α) : List (Piece α) → Prop
  | [] => True
  | .text s :: rest => NoStart p s (spell id rest) ∧ OnlyNames p rest
  | .name n :: rest => (n ≠ p → NoStart p n (spell id rest)) ∧ OnlyNames p rest

instance decidableOnlyNames (p : List α) : ∀ pieces, Decidable (OnlyNames p pieces)
  | [] => isTrue trivial
  | .text s :: rest =>
    have := decidableOnlyNames p rest
    inferInstanceAs (Decidable (NoStart p s (spell id rest) ∧ OnlyNames p rest))
  | .name n :: rest =>
    have := decidableOnlyNames p rest
    inferInstanceAs (Decidable ((n ≠ p → NoStart p n (spell id rest)) ∧ OnlyNames p rest))

theorem replaceAll_noStart {p x following : List α} (h : NoStart p x following) (rep : List α) :
    replaceAll p rep (x ++ following) = x ++ replaceAll p rep following :=
  replaceAll_append x following fun y hne hsuffix => h y ((List.mem_tails _ _).mpr hsuffix) hne

/-- Replacing a name in a text where it stands as a name only. -/
theorem replaceAll_spell {p rep : List α} {pieces : List (Piece α)} (hp : p ≠ [])
    (h : OnlyNames p pieces) :
    replaceAll p rep (spell id pieces) = spell id (pieces.map (rename p rep)) := by
  induction pieces with
  | nil => rfl
  | cons piece rest ih =>
    cases piece with
    | text s =>
      obtain ⟨hstart, hrest⟩ := h
      have hstay := replaceAll_noStart hstart rep
      rw [ih hrest] at hstay
      exact hstay
    | name n =>
      obtain ⟨hstart, hrest⟩ := h
      by_cases hname : n = p
      · subst hname
        have hmatch := replaceAll_match hp rep (spell id rest)
        rw [ih hrest] at hmatch
        simpa [rename, Piece.spelled] using hmatch
      · have hstay := replaceAll_noStart (hstart hname) rep
        rw [ih hrest] at hstay
        simpa [rename, hname, Piece.spelled] using hstay

/-- Each replacement in turn finds its name as a name only, in what the earlier ones have made of
the text. -/
def InTurn : List (List α × List α) → List (Piece α) → Prop
  | [], _ => True
  | (p, rep) :: rest, pieces => OnlyNames p pieces ∧ InTurn rest (pieces.map (rename p rep))

instance decidableInTurn : ∀ (table : List (List α × List α)) pieces, Decidable (InTurn table pieces)
  | [], _ => isTrue trivial
  | (p, rep) :: rest, pieces =>
    have := decidableInTurn rest (pieces.map (rename p rep))
    inferInstanceAs (Decidable (OnlyNames p pieces ∧ InTurn rest (pieces.map (rename p rep))))

/-- What a table of replacements makes of a name: the first entry counts. -/
def renamed (table : List (List α × List α)) (n : List α) : List α := (table.lookup n).getD n

def replaceEach (table : List (List α × List α)) (s : List α) : List α :=
  table.foldl (fun s entry => replaceAll entry.1 entry.2 s) s

omit [DecidableEq α] in
theorem spell_map_congr {f g : List α → List α} {pieces : List (Piece α)} {r : Piece α → Piece α}
    (h : ∀ piece, (r piece).spelled f = piece.spelled g) :
    spell f (pieces.map r) = spell g pieces := by
  induction pieces with
  | nil => rfl
  | cons piece rest ih => exact congrArg₂ (· ++ ·) (h piece) ih

/-- One replacement after the other comes to replacing the names by the table at once. -/
theorem replaceEach_spell {table : List (List α × List α)} {pieces : List (Piece α)}
    (hne : ∀ entry ∈ table, entry.1 ≠ []) (h : InTurn table pieces) :
    replaceEach table (spell id pieces) = spell (renamed table) pieces := by
  induction table generalizing pieces with
  | nil => rfl
  | cons entry rest ih =>
    obtain ⟨p, rep⟩ := entry
    obtain ⟨hfirst, hrest⟩ := List.forall_mem_cons.mp hne
    obtain ⟨honly, hturn⟩ := h
    have hstep : replaceEach ((p, rep) :: rest) (spell id pieces) =
        replaceEach rest (replaceAll p rep (spell id pieces)) := rfl
    rw [hstep, replaceAll_spell hfirst honly, ih hrest hturn]
    apply spell_map_congr
    intro piece
    cases piece with
    | text s => rfl
    | name n =>
      by_cases hname : n = p
      · simp [rename, renamed, hname, Piece.spelled]
      · have hother : (n == p) = false := by simpa using hname
        simp [rename, renamed, hname, Piece.spelled, List.lookup_cons, hother]

/-- The same for names that each have their replacement, and names outside the table that stay. -/
theorem replaceEach_map {f : List α → List α} {l : List (List α)} {pieces : List (Piece α)}
    (hne : [] ∉ l) (h : InTurn (l.map fun n => (n, f n)) pieces)
    (hstay : ∀ n ∈ names pieces, n ∉ l → f n = n) :
    replaceEach (l.map fun n => (n, f n)) (spell id pieces) = spell f pieces := by
  have hentries : ∀ entry ∈ l.map fun n => (n, f n), entry.1 ≠ [] := by
    intro entry hentry
    obtain ⟨n, hn, rfl⟩ := List.mem_map.mp hentry
    exact fun hnil => hne (hnil ▸ hn)
  rw [replaceEach_spell hentries h]
  apply spell_congr
  intro n hn
  unfold renamed
  by_cases hmem : n ∈ l
  · rw [List.lookup_graph f hmem]
    rfl
  · have hnone : (l.map fun n => (n, f n)).lookup n = none := by
      rw [List.lookup_eq_none_iff]
      intro entry hentry
      obtain ⟨m, hm, rfl⟩ := List.mem_map.mp hentry
      have hother : n ≠ m := fun hsame => hmem (hsame ▸ hm)
      simpa using hother
    rw [hnone, hstay n hn hmem]
    rfl

end Rename
end RustLake.Text

/-! The names of a statement: the longest runs of name letters and quoted identifiers, outside
string literals. -/
namespace RustLake.Text

/-- Where the reader of a statement stands. -/
inductive Within where
  | nothing
  | literal
  | quotedName
deriving DecidableEq

/-- What was read of a name, when it is a name. -/
def readName (read : List Char) : List (Piece Char) := if read = [] then [] else [.name read]

/-- The pieces of a statement, from some letters already read of the piece on. -/
def cutFrom (isName : Char → Bool) : Within → List Char → List Char → List (Piece Char)
  | .literal, read, [] => [.text read]
  | _, read, [] => readName read
  | .nothing, read, c :: s =>
    if c = '\'' then readName read ++ cutFrom isName .literal [c] s
    else if c = '"' then cutFrom isName .quotedName (read ++ [c]) s
    else if isName c then cutFrom isName .nothing (read ++ [c]) s
    else readName read ++ .text [c] :: cutFrom isName .nothing [] s
  | .literal, read, c :: s =>
    if c = '\'' then .text (read ++ [c]) :: cutFrom isName .nothing [] s
    else cutFrom isName .literal (read ++ [c]) s
  | .quotedName, read, c :: s =>
    cutFrom isName (if c = '"' then .nothing else .quotedName) (read ++ [c]) s

def cut (isName : Char → Bool) (s : List Char) : List (Piece Char) := cutFrom isName .nothing [] s

section
variable {isName : Char → Bool}

theorem spell_append (f : List Char → List Char) (a b : List (Piece Char)) :
    spell f (a ++ b) = spell f a ++ spell f b := List.flatMap_append

theorem spell_readName (read : List Char) : spell id (readName read) = read := by
  unfold readName
  split_ifs with hnone
  · rw [hnone]
    rfl
  · simp [spell, Piece.spelled]

theorem spell_cutFrom (s : List Char) (within : Within) (read : List Char) :
    spell id (cutFrom isName within read s) = read ++ s := by
  induction s generalizing within read with
  | nil =>
    cases within with
    | literal => rfl
    | nothing => exact (spell_readName read).trans (List.append_nil read).symm
    | quotedName => exact (spell_readName read).trans (List.append_nil read).symm
  | cons c s ih =>
    cases within with
    | nothing =>
      unfold cutFrom
      split_ifs with hliteral hquoted hname
      · rw [spell_append, spell_readName, ih, List.singleton_append]
      · rw [ih, List.append_assoc, List.singleton_append]
      · rw [ih, List.append_assoc, List.singleton_append]
      · rw [spell_append, spell_readName, spell_cons, ih, List.nil_append]
        rfl
    | literal =>
      unfold cutFrom
      split_ifs with hclose
      · rw [spell_cons, ih, List.nil_append]
        simp [Piece.spelled]
      · rw [ih, List.append_assoc, List.singleton_append]
    | quotedName =>
      unfold cutFrom
      rw [ih, List.append_assoc, List.singleton_append]

/-- Cutting a statement loses nothing. -/
theorem spell_cut (s : List Char) : spell id (cut isName s) = s := by
  unfold cut
  rw [spell_cutFrom, List.nil_append]

/-- The first letter is of no name. -/
def StartsClear (isName : Char → Bool) (pieces : List (Piece Char)) : Prop :=
  pieces = [] ∨ ∃ c s later, pieces = .text (c :: s) :: later ∧ isName c = false

/-- Between a name and other letters stands one that is of no name. -/
def Parted (isName : Char → Bool) : List (Piece Char) → Prop
  | [] => True
  | .text s :: rest => ((∃ x c, s = x ++ [c] ∧ isName c = false) ∨ rest = []) ∧ Parted isName rest
  | .name _ :: rest => StartsClear isName rest ∧ Parted isName rest

theorem parted_readName {read : List Char} {tail : List (Piece Char)}
    (htail : Parted isName tail) (hclear : StartsClear isName tail) :
    Parted isName (readName read ++ tail) := by
  unfold readName
  split_ifs
  · exact htail
  · exact ⟨hclear, htail⟩

theorem parted_cutFrom (hquote : isName '\'' = false) (s : List Char) (within : Within)
    (read : List Char) (hread : within = .literal → ∃ rest, read = '\'' :: rest) :
    Parted isName (cutFrom isName within read s) ∧
      (within = .literal → StartsClear isName (cutFrom isName within read s)) := by
  induction s generalizing within read with
  | nil =>
    have hempty : Parted isName (readName read ++ []) := parted_readName trivial (Or.inl rfl)
    rw [List.append_nil] at hempty
    cases within with
    | literal =>
      obtain ⟨rest, rfl⟩ := hread rfl
      exact ⟨⟨Or.inr rfl, trivial⟩, fun _ => Or.inr ⟨'\'', rest, [], rfl, hquote⟩⟩
    | nothing => exact ⟨hempty, fun h => by cases h⟩
    | quotedName => exact ⟨hempty, fun h => by cases h⟩
  | cons c s ih =>
    have hnothing := fun read => (ih .nothing read (fun h => by cases h)).1
    cases within with
    | nothing =>
      refine ⟨?_, fun h => by cases h⟩
      unfold cutFrom
      split_ifs with hliteral hquoted hname
      · subst hliteral
        obtain ⟨hparted, hclear⟩ := ih .literal ['\''] (fun _ => ⟨[], rfl⟩)
        exact parted_readName hparted (hclear rfl)
      · exact (ih .quotedName (read ++ [c]) (fun h => by cases h)).1
      · exact hnothing (read ++ [c])
      · have hother : isName c = false := Bool.eq_false_iff.mpr hname
        refine parted_readName ⟨Or.inl ⟨[], c, rfl, hother⟩, hnothing []⟩ ?_
        exact Or.inr ⟨c, [], _, rfl, hother⟩
    | literal =>
      obtain ⟨rest, rfl⟩ := hread rfl
      unfold cutFrom
      split_ifs with hclose
      · subst hclose
        refine ⟨⟨Or.inl ⟨_, _, rfl, hquote⟩, hnothing []⟩, fun _ => ?_⟩
        exact Or.inr ⟨'\'', rest ++ ['\''], _, rfl, hquote⟩
      · exact ih .literal ('\'' :: rest ++ [c]) (fun _ => ⟨rest ++ [c], rfl⟩)
    | quotedName =>
      refine ⟨?_, fun h => by cases h⟩
      unfold cutFrom
      split_ifs
      · exact hnothing (read ++ [c])
      · exact (ih .quotedName (read ++ [c]) (fun h => by cases h)).1

/-- The pieces of a statement are parted, where a quote is no letter of a name. -/
theorem parted_cut (hquote : isName '\'' = false) (s : List Char) : Parted isName (cut isName s) :=
  (parted_cutFrom hquote s .nothing [] (fun h => by cases h)).1

end
end RustLake.Text
