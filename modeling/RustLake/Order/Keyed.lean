import Mathlib.Data.List.Sort
import Mathlib.Data.List.Induction

/-! Lists of pairs that are read by key, and which ids a list holds after entries have been put and
dropped. -/
namespace RustLake.Keyed

variable {α β : Type} [DecidableEq α] {l l' : List (α × β)} {a : α} {b : β}

theorem isSome_lookup_iff : (l.lookup a).isSome = true ↔ a ∈ l.map Prod.fst := by
  rw [List.lookup_isSome_iff, List.mem_map]
  exact exists_congr fun p => and_congr_right fun _ => beq_iff_eq.trans eq_comm

theorem mem_iff_lookup (h : (l.map Prod.fst).Nodup) : (a, b) ∈ l ↔ l.lookup a = some b := by
  induction l with
  | nil => simp
  | cons p l ih =>
    obtain ⟨c, d⟩ := p
    rw [List.map_cons, List.nodup_cons] at h
    rw [List.mem_cons, List.lookup_cons, ih h.2]
    by_cases hkey : a = c
    · subst hkey
      have hnone : l.lookup a = none :=
        Option.not_isSome_iff_eq_none.mp fun hsome => h.1 (isSome_lookup_iff.mp hsome)
      rw [hnone, BEq.rfl]
      simp [eq_comm]
    · rw [beq_false_of_ne hkey]
      simp [hkey]

/-- Lists with one value for each key are one list when sorted by key, if the keys have the same
values. -/
theorem mergeSort_eq [LinearOrder α] (h : (l.map Prod.fst).Nodup) (h' : (l'.map Prod.fst).Nodup)
    (hlookup : ∀ a, l.lookup a = l'.lookup a) :
    l.mergeSort (fun p q => p.1 ≤ q.1) = l'.mergeSort fun p q => p.1 ≤ q.1 := by
  have hmem : ∀ p, p ∈ l ↔ p ∈ l' := by
    rintro ⟨a, b⟩
    rw [mem_iff_lookup h, mem_iff_lookup h', hlookup]
  have hperm : l.Perm l' := (List.perm_ext_iff_of_nodup h.of_map h'.of_map).mpr hmem
  have hsorted : ∀ l : List (α × β),
      (l.mergeSort fun p q => p.1 ≤ q.1).Pairwise fun p q => p.1 ≤ q.1 := by
    intro l
    have htrans : ∀ p q r : α × β, decide (p.1 ≤ q.1) = true → decide (q.1 ≤ r.1) = true →
        decide (p.1 ≤ r.1) = true := fun p q r hpq hqr =>
      decide_eq_true (le_trans (of_decide_eq_true hpq) (of_decide_eq_true hqr))
    have htotal : ∀ p q : α × β, (decide (p.1 ≤ q.1) || decide (q.1 ≤ p.1)) = true := by
      intro p q
      simpa using le_total p.1 q.1
    have hpairs := List.pairwise_mergeSort htrans htotal l
    exact hpairs.imp of_decide_eq_true
  refine List.Perm.eq_of_pairwise ?_ (hsorted l) (hsorted l')
    ((List.mergeSort_perm _ _).trans (hperm.trans (List.mergeSort_perm _ _).symm))
  intro p q hp hq hpq hqp
  exact List.inj_on_of_nodup_map h (List.mem_mergeSort.mp hp)
    ((hmem q).mpr (List.mem_mergeSort.mp hq)) (le_antisymm hpq hqp)

omit [DecidableEq α] in
/-- Sorted by key and with one value for each, the lists are told apart by their elements. -/
theorem eq_of_sorted [LinearOrder α] (h : l.Pairwise fun p q => p.1 < q.1)
    (h' : l'.Pairwise fun p q => p.1 < q.1) (hmem : ∀ p, p ∈ l ↔ p ∈ l') : l = l' := by
  have hnodup : ∀ {l : List (α × β)}, (l.Pairwise fun p q => p.1 < q.1) → l.Nodup :=
    fun hl => hl.imp fun hlt heq => hlt.ne (congrArg Prod.fst heq)
  have hperm : l.Perm l' := (List.perm_ext_iff_of_nodup (hnodup h) (hnodup h')).mpr hmem
  exact List.Perm.eq_of_pairwise (fun p q _ _ hpq hqp => absurd hqp hpq.asymm) h h' hperm

theorem lookup_map_value {γ : Type} (f : β → γ) (a : α) :
    (l.map fun p => (p.1, f p.2)).lookup a = (l.lookup a).map f := by
  induction l with
  | nil => rfl
  | cons p l ih =>
    rw [List.map_cons, List.lookup_cons, List.lookup_cons, ih]
    cases a == p.1 <;> rfl

end RustLake.Keyed

namespace RustLake.Members

inductive Edit (Id : Type) where
  | put (id : Id)
  | drop (id : Id)

variable {Id Entry : Type}

/-- The edits leave an id, which was there before or not. -/
def Leaves (id : Id) : Prop → List (Edit Id) → Prop
  | before, [] => before
  | before, .put id' :: rest => Leaves id (id' = id ∨ before) rest
  | before, .drop id' :: rest => Leaves id (id' ≠ id ∧ before) rest

theorem Leaves.congr {id : Id} {before before' : Prop} (h : before ↔ before') (edits : List (Edit Id)) :
    Leaves id before edits ↔ Leaves id before' edits := by
  rw [propext h]

theorem leaves_append (id : Id) (before : Prop) (first later : List (Edit Id)) :
    Leaves id before (first ++ later) ↔ Leaves id (Leaves id before first) later := by
  induction first generalizing before with
  | nil => exact Iff.rfl
  | cons edit rest ih =>
    cases edit with
    | put id' => exact ih (id' = id ∨ before)
    | drop id' => exact ih (id' ≠ id ∧ before)

theorem mem_put {key : Entry → Id} {entries : List Entry} {entry : Entry} {id : Id} :
    id ∈ (entries ++ [entry]).map key ↔ key entry = id ∨ id ∈ entries.map key := by
  rw [List.map_append, List.mem_append, List.map_singleton, List.mem_singleton, or_comm, eq_comm]

theorem mem_drop [DecidableEq Id] {key : Entry → Id} {entries : List Entry} {id id' : Id} :
    id ∈ (entries.filter fun e => key e ≠ id').map key ↔ id' ≠ id ∧ id ∈ entries.map key := by
  simp only [List.mem_map, List.mem_filter, decide_eq_true_eq]
  constructor
  · rintro ⟨e, ⟨he, hne⟩, rfl⟩
    exact ⟨hne.symm, e, he, rfl⟩
  · rintro ⟨hne, e, he, rfl⟩
    exact ⟨e, ⟨he, hne.symm⟩, rfl⟩

/-- A change of an entry in place that keeps its id. -/
theorem map_replace (key : Entry → Id) {f : Entry → Option Entry}
    (hkey : ∀ e e', f e = some e' → key e' = key e) (entries : List Entry) :
    (entries.replaceF f).map key = entries.map key := by
  induction entries with
  | nil => rfl
  | cons e rest ih =>
    cases hf : f e with
    | none => rw [List.replaceF_cons_of_none _ hf, List.map_cons, ih, List.map_cons]
    | some e' => rw [List.replaceF_cons_of_some _ hf, List.map_cons, hkey e e' hf, List.map_cons]

end RustLake.Members

/-! Names that are defined one after the other, each from those before it, and what they come to when
each of them stands after all that it reads. -/
namespace RustLake.Definitions

variable {ι V : Type}

structure Definition (ι V : Type) where
  name : ι
  body : (ι → V) → V

def names (defs : List (Definition ι V)) : List ι := defs.map Definition.name

/-- The values of names after definitions on top of given ones. -/
def define [DecidableEq ι] (given : ι → V) (defs : List (Definition ι V)) : ι → V :=
  defs.foldl (fun env d => Function.update env d.name (d.body env)) given

/-- Each defined name has the value that its body makes of all values, and the others the given
ones. -/
structure Composition (defs : List (Definition ι V)) (given values : ι → V) : Prop where
  defined : ∀ d ∈ defs, values d.name = d.body values
  kept : ∀ k, k ∉ names defs → values k = given k

/-- Each body depends only on names that are defined before it and on those that are not defined. -/
def InOrder (defs : List (Definition ι V)) : Prop :=
  ∀ before d after, defs = before ++ d :: after → ∀ env env' : ι → V,
    (∀ k, k ∈ names before ∨ k ∉ names defs → env k = env' k) → d.body env = d.body env'

section Spec
variable [DecidableEq ι] {defs : List (Definition ι V)} {given values : ι → V}

theorem define_concat (defs : List (Definition ι V)) (d : Definition ι V) :
    define given (defs ++ [d]) =
      Function.update (define given defs) d.name (d.body (define given defs)) := by
  unfold define
  rw [List.foldl_append]
  rfl

theorem define_before (hvalues : Composition defs given values) (hordered : InOrder defs)
    {before after : List (Definition ι V)} (heq : defs = before ++ after) (k : ι) :
    define given before k = if k ∈ names before then values k else given k := by
  induction before using List.reverseRecOn generalizing after k with
  | nil => rfl
  | append_singleton before d ih =>
    have hdefs : defs = before ++ d :: after := by rw [heq, List.append_assoc, List.singleton_append]
    have hbefore : ∀ k, k ∈ names before ∨ k ∉ names defs →
        define given before k = values k := by
      intro k hk
      rw [ih hdefs]
      by_cases hmem : k ∈ names before
      · rw [if_pos hmem]
      · rw [if_neg hmem, hvalues.kept k (hk.resolve_left hmem)]
    have hbody : d.body (define given before) = values d.name := by
      have hd : d ∈ defs := by
        rw [hdefs]
        exact List.mem_append_right _ List.mem_cons_self
      rw [hvalues.defined d hd]
      exact hordered before d after hdefs _ _ hbefore
    have hnames : k ∈ names (before ++ [d]) ↔ k ∈ names before ∨ k = d.name := by simp [names]
    rw [define_concat, hbody]
    by_cases hk : k = d.name
    · rw [hk, Function.update_self, if_pos (by simp [names])]
    · rw [Function.update_of_ne hk, ih hdefs]
      simp only [hnames, hk, or_false]

/-- Definitions in order give their composition. -/
theorem define_eq (hvalues : Composition defs given values) (hordered : InOrder defs) :
    define given defs = values := by
  funext k
  rw [define_before hvalues hordered (List.append_nil defs).symm]
  by_cases hk : k ∈ names defs
  · rw [if_pos hk]
  · rw [if_neg hk, hvalues.kept k hk]

end Spec
end RustLake.Definitions
