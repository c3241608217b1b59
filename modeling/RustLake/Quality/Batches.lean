import RustLake.Quality.Gates
import Mathlib.Data.List.Nodup

/-! The verdict on several batches against the verdict on the one batch that has all their rows. -/
namespace RustLake.Quality

variable {schema : Schema} (texts : NumberTexts)

/-- The texts of the values of a column that are not null. -/
def reprs (batch : RecordBatch schema) (i : Fin schema.length) : List String :=
  (values (batch.column i)).map (DataType.repr _)

/-- No value of the column is in two batches. -/
def NoneTwice (column : String) (batches : List (RecordBatch schema)) : Prop :=
  ∀ i, indexOf schema column = some i →
    batches.Pairwise fun a b => (reprs a i).Disjoint (reprs b i)

/-- The column is there and meets a condition. -/
def Has (schema : Schema) (column : String) (p : Fin schema.length → Prop) : Prop :=
  ∃ i, indexOf schema column = some i ∧ p i

/-- All values are numbers within the bounds. -/
def InRange (batch : RecordBatch schema) (min max : F64) (i : Fin schema.length) : Prop :=
  match (schema.get i).dataType.asF64 with
  | none => batch.column i = []
  | some asF64 => ∀ v ∈ values (batch.column i), ¬ (asF64 v).Lt min ∧ ¬ max.Lt (asF64 v)

/-- What a check asks of a batch. -/
def Passes (batch : RecordBatch schema) : QualityCheck → Prop
  | .notNull column => Has schema column fun i => none ∉ batch.column i
  | .unique column => Has schema column fun i => (reprs batch i).Nodup
  | .range column min max => Has schema column (InRange batch min max)
  | .rowCountMin min => min ≤ batch.numRows
  | .customSql _ _ => True

theorem not_has {column : String} {p : Fin schema.length → Prop}
    (h : indexOf schema column = none) : ¬ Has schema column p := by
  rintro ⟨i, hi, -⟩
  rw [h] at hi
  cases hi

theorem has_iff {column : String} {p : Fin schema.length → Prop} {i : Fin schema.length}
    (h : indexOf schema column = some i) : Has schema column p ↔ p i := by
  constructor
  · rintro ⟨j, hj, hp⟩
    rw [h] at hj
    cases hj
    exact hp
  · intro hp
    exact ⟨i, h, hp⟩

section Checks
variable (batch : RecordBatch schema)

theorem checkNotNull_eq_nil (column : String) :
    checkNotNull texts batch column = [] ↔
      Has schema column fun i => none ∉ batch.column i := by
  unfold checkNotNull
  cases h : indexOf schema column with
  | none => exact iff_of_false (List.cons_ne_nil _ _) (not_has h)
  | some i =>
    rw [has_iff h]
    have hcount : 0 < nullCount (batch.column i) ↔ none ∈ batch.column i := by
      unfold nullCount
      rw [List.countP_pos_iff]
      simp
    dsimp only
    rw [← hcount]
    by_cases hnull : 0 < nullCount (batch.column i)
    · rw [if_pos hnull]
      exact iff_of_false (List.cons_ne_nil _ _) (not_not_intro hnull)
    · rw [if_neg hnull]
      exact iff_of_true rfl hnull

/-- The loop counts a duplicate unless all texts are new. -/
theorem foldl_insertText (found : List String × ℕ) (l : List String) :
    found.2 ≤ (l.foldl insertText found).2 ∧
      ((l.foldl insertText found).2 = found.2 ↔ l.Nodup ∧ l.Disjoint found.1) := by
  induction l generalizing found with
  | nil => simp
  | cons text rest ih =>
    rw [List.foldl_cons, List.nodup_cons, List.disjoint_cons_left]
    obtain ⟨hle, hiff⟩ := ih (insertText found text)
    unfold insertText at hle hiff ⊢
    by_cases hseen : text ∈ found.1
    · rw [if_pos hseen] at hle hiff ⊢
      refine ⟨by omega, ?_⟩
      constructor
      · intro h
        omega
      · rintro ⟨-, hnew, -⟩
        exact absurd hseen hnew
    · rw [if_neg hseen] at hle hiff ⊢
      refine ⟨hle, hiff.trans ?_⟩
      rw [List.disjoint_cons_right]
      constructor
      · rintro ⟨hnodup, hnot, hdisjoint⟩
        exact ⟨⟨hnot, hnodup⟩, hseen, hdisjoint⟩
      · rintro ⟨⟨hnot, hnodup⟩, -, hdisjoint⟩
        exact ⟨hnodup, hnot, hdisjoint⟩

theorem checkUnique_eq_nil (column : String) :
    checkUnique texts batch column = [] ↔
      Has schema column fun i => (reprs batch i).Nodup := by
  unfold checkUnique
  cases h : indexOf schema column with
  | none => exact iff_of_false (List.cons_ne_nil _ _) (not_has h)
  | some i =>
    rw [has_iff h]
    obtain ⟨-, hiff⟩ := foldl_insertText ([], 0) (reprs batch i)
    have hnodup : ((reprs batch i).foldl insertText ([], 0)).2 = 0 ↔ (reprs batch i).Nodup :=
      hiff.trans (and_iff_left (List.disjoint_nil_right _))
    rw [← hnodup]
    dsimp only
    by_cases hempty : (batch.column i).length = 0
    · have hnone : reprs batch i = [] := by
        unfold reprs
        rw [List.length_eq_zero_iff.mp hempty]
        rfl
      rw [if_pos hempty, hnone]
      exact iff_of_true rfl rfl
    · rw [if_neg hempty]
      show (if 0 < ((reprs batch i).foldl insertText ([], 0)).2 then _ else []) = [] ↔ _
      by_cases hduplicates : 0 < ((reprs batch i).foldl insertText ([], 0)).2
      · rw [if_pos hduplicates]
        exact iff_of_false (List.cons_ne_nil _ _) (by omega)
      · rw [if_neg hduplicates]
        exact iff_of_true rfl (by omega)

/-- The loop finds values beyond a bound exactly when there are such values. -/
theorem foldl_computeMinMax (l : List F64) (lo hi : F64) :
    ∃ lo' hi', l.foldl computeMinMax (some lo, some hi) = (some lo', some hi') ∧
      (∀ z, lo'.Lt z ↔ ∃ v ∈ lo :: l, v.Lt z) ∧
      ∀ z : F64, z.Lt hi' ↔ ∃ v ∈ hi :: l, z.Lt v := by
  induction l generalizing lo hi with
  | nil => exact ⟨lo, hi, rfl, by simp, by simp⟩
  | cons v rest ih =>
    obtain ⟨lo', hi', hfold, hlo, hhi⟩ := ih (lo.min v) (hi.max v)
    refine ⟨lo', hi', hfold, ?_, ?_⟩
    · intro z
      rw [hlo]
      simp [F64.min_lt, or_assoc]
    · intro z
      rw [hhi]
      simp [F64.lt_max, or_assoc]

theorem checkRange_eq_nil (column : String) (min max : F64) :
    checkRange texts batch column min max = [] ↔ Has schema column (InRange batch min max) := by
  unfold checkRange
  cases h : indexOf schema column with
  | none => exact iff_of_false (List.cons_ne_nil _ _) (not_has h)
  | some i =>
    rw [has_iff h]
    unfold InRange
    have hlength : (batch.column i).length = 0 ↔ batch.column i = [] := List.length_eq_zero_iff
    dsimp only
    cases (schema.get i).dataType.asF64 with
    | none =>
      rw [← hlength]
      by_cases hempty : (batch.column i).length = 0
      · rw [if_pos hempty]
        exact iff_of_true rfl hempty
      · rw [if_neg hempty]
        exact iff_of_false (List.cons_ne_nil _ _) hempty
    | some asF64 =>
      dsimp only
      cases hvalues : values (batch.column i) with
      | nil => by_cases hempty : (batch.column i).length = 0 <;> simp [hempty]
      | cons v rest =>
        have hne : ¬ (batch.column i).length = 0 := by
          intro hempty
          rw [hlength.mp hempty] at hvalues
          cases hvalues
        obtain ⟨lo, hi, hfold, hlo, hhi⟩ :=
          foldl_computeMinMax (rest.map asF64) (asF64 v) (asF64 v)
        have hstart : ((v :: rest).map asF64).foldl computeMinMax (none, none) =
            (some lo, some hi) := hfold
        have hbeyond : (lo.Lt min ∨ max.Lt hi) ↔
            ∃ w ∈ v :: rest, (asF64 w).Lt min ∨ max.Lt (asF64 w) := by
          rw [hlo, hhi, ← List.map_cons]
          simp only [← exists_or, ← and_or_left, List.mem_map, exists_exists_and_eq_and]
        rw [if_neg hne, hstart]
        dsimp only
        have hall : (∀ w ∈ v :: rest, ¬ (asF64 w).Lt min ∧ ¬ max.Lt (asF64 w)) ↔
            ¬ (lo.Lt min ∨ max.Lt hi) := by
          rw [hbeyond]
          push Not
          rfl
        rw [hall]
        by_cases hout : lo.Lt min ∨ max.Lt hi
        · rw [if_pos hout]
          exact iff_of_false (List.cons_ne_nil _ _) (not_not_intro hout)
        · rw [if_neg hout]
          exact iff_of_true rfl hout

theorem checkRowCountMin_eq_nil (min : ℕ) :
    checkRowCountMin texts batch min = [] ↔ min ≤ batch.numRows := by
  unfold checkRowCountMin
  by_cases hless : batch.numRows < min
  · rw [if_pos hless]
    exact iff_of_false (List.cons_ne_nil _ _) (by omega)
  · rw [if_neg hless]
    exact iff_of_true rfl (by omega)

/-- A check of one batch pushes nothing exactly when the batch passes it. -/
theorem check_eq_nil (c : QualityCheck) : check texts batch c = [] ↔ Passes batch c := by
  cases c with
  | notNull column => exact checkNotNull_eq_nil texts batch column
  | unique column => exact checkUnique_eq_nil texts batch column
  | range column min max => exact checkRange_eq_nil texts batch column min max
  | rowCountMin min => exact checkRowCountMin_eq_nil texts batch min
  | customSql sql description => exact iff_of_true rfl trivial

end Checks

section Concat
variable {batches : List (RecordBatch schema)}

theorem mem_column_concat {i : Fin schema.length}
    {cell : Option (schema.get i).dataType.Value} :
    cell ∈ (RecordBatch.concat batches).column i ↔ ∃ batch ∈ batches, cell ∈ batch.column i :=
  List.mem_flatMap

theorem values_concat (i : Fin schema.length) :
    values ((RecordBatch.concat batches).column i) =
      batches.flatMap fun batch => values (batch.column i) := by
  unfold RecordBatch.concat values
  rw [List.filterMap_flatMap]

theorem reprs_concat (i : Fin schema.length) :
    reprs (RecordBatch.concat batches) i = batches.flatMap fun batch => reprs batch i := by
  unfold reprs
  rw [values_concat, List.map_flatMap]

theorem inRange_concat {min max : F64} {i : Fin schema.length} :
    InRange (RecordBatch.concat batches) min max i ↔
      ∀ batch ∈ batches, InRange batch min max i := by
  unfold InRange
  cases (schema.get i).dataType.asF64 with
  | none => exact List.flatMap_eq_nil_iff
  | some asF64 =>
    dsimp only
    rw [values_concat]
    constructor
    · intro h batch hbatch v hv
      exact h v (List.mem_flatMap.mpr ⟨batch, hbatch, hv⟩)
    · intro h v hv
      obtain ⟨batch, hbatch, hin⟩ := List.mem_flatMap.mp hv
      exact h batch hbatch v hin

theorem nodup_reprs_concat {i : Fin schema.length} :
    (reprs (RecordBatch.concat batches) i).Nodup ↔ (∀ batch ∈ batches, (reprs batch i).Nodup) ∧
      batches.Pairwise fun a b => (reprs a i).Disjoint (reprs b i) := by
  rw [reprs_concat]
  exact List.nodup_flatMap

/-- A condition on a column of each batch, when there is a batch. -/
theorem forall_has (hne : batches ≠ []) {column : String}
    {p : RecordBatch schema → Fin schema.length → Prop} :
    (∀ batch ∈ batches, Has schema column (p batch)) ↔
      Has schema column fun i => ∀ batch ∈ batches, p batch i := by
  cases h : indexOf schema column with
  | none =>
    obtain ⟨batch, hbatch⟩ := List.exists_mem_of_ne_nil batches hne
    exact iff_of_false (fun hall => not_has h (hall batch hbatch)) (not_has h)
  | some i => simp only [has_iff h]

/-- What a check asks of each of several batches and of their total. -/
def PassesEach (batches : List (RecordBatch schema)) : QualityCheck → Prop
  | .rowCountMin min => min ≤ (batches.map (·.numRows)).sum
  | c => ∀ batch ∈ batches, Passes batch c

/-- Only a check for uniqueness asks more of all rows than of each batch. -/
theorem passes_concat (hne : batches ≠ []) (c : QualityCheck) :
    Passes (RecordBatch.concat batches) c ↔ PassesEach batches c ∧
      ∀ column, c = .unique column → NoneTwice column batches := by
  cases c with
  | notNull column =>
    have heach : PassesEach batches (.notNull column) ↔
        Has schema column fun i => ∀ batch ∈ batches, none ∉ batch.column i := forall_has hne
    have hconcat : Passes (RecordBatch.concat batches) (.notNull column) ↔
        Has schema column fun i => ∀ batch ∈ batches, none ∉ batch.column i := by
      unfold Passes Has
      simp only [mem_column_concat, not_exists, not_and]
    rw [hconcat, heach]
    exact (and_iff_left (fun _ h => QualityCheck.noConfusion h)).symm
  | unique column =>
    have heach : PassesEach batches (.unique column) ↔
        Has schema column fun i => ∀ batch ∈ batches, (reprs batch i).Nodup := forall_has hne
    have hconcat : Passes (RecordBatch.concat batches) (.unique column) ↔
        Has schema column fun i => (∀ batch ∈ batches, (reprs batch i).Nodup) ∧
          batches.Pairwise fun a b => (reprs a i).Disjoint (reprs b i) := by
      unfold Passes Has
      simp only [nodup_reprs_concat]
    rw [hconcat, heach]
    unfold NoneTwice
    constructor
    · rintro ⟨i, hi, heach, hpairwise⟩
      refine ⟨⟨i, hi, heach⟩, ?_⟩
      intro other hother j hj
      cases hother
      rw [hi] at hj
      cases hj
      exact hpairwise
    · rintro ⟨⟨i, hi, heach⟩, hnone⟩
      exact ⟨i, hi, heach, hnone column rfl i hi⟩
  | range column min max =>
    have heach : PassesEach batches (.range column min max) ↔
        Has schema column fun i => ∀ batch ∈ batches, InRange batch min max i := forall_has hne
    have hconcat : Passes (RecordBatch.concat batches) (.range column min max) ↔
        Has schema column fun i => ∀ batch ∈ batches, InRange batch min max i := by
      unfold Passes Has
      simp only [inRange_concat]
    rw [hconcat, heach]
    exact (and_iff_left (fun _ h => QualityCheck.noConfusion h)).symm
  | rowCountMin min => exact (and_iff_left (fun _ h => QualityCheck.noConfusion h)).symm
  | customSql sql description =>
    have heach : PassesEach batches (.customSql sql description) := fun _ _ => trivial
    exact iff_of_true trivial ⟨heach, fun _ h => QualityCheck.noConfusion h⟩

end Concat
section Verdict
variable (now : String) (gate : QualityGate)

theorem validateBatch_passed (batch : RecordBatch schema) :
    (validateBatch texts now gate batch).passed = true ↔
      (gate.enabled = true → ∀ c ∈ gate.checks, Passes batch c) := by
  unfold validateBatch
  by_cases henabled : gate.enabled = true
  · rw [if_pos henabled]
    simp only [List.isEmpty_iff, List.flatMap_eq_nil_iff, check_eq_nil, henabled, forall_const]
  · rw [if_neg henabled]
    exact iff_of_true rfl fun h => absurd h henabled

/-- The failures of a check of one batch are there with their batch number or not at all. -/
theorem forall_zipIdx {batches : List (RecordBatch schema)}
    {f : RecordBatch schema → List ValidationFailure} {p : RecordBatch schema → Prop}
    (h : ∀ batch, f batch = [] ↔ p batch) :
    (∀ q ∈ batches.zipIdx, (f q.1).map (ValidationFailure.inBatch q.2) = []) ↔ ∀ batch ∈ batches, p batch := by
  simp only [List.map_eq_nil_iff, h]
  constructor
  · intro hall batch hbatch
    obtain ⟨i, hi, rfl⟩ := List.mem_iff_getElem.mp hbatch
    exact hall (batches[i], i) (List.mk_mem_zipIdx_iff_getElem?.mpr (List.getElem?_eq_getElem hi))
  · intro hall q hq
    exact hall q.1 (List.fst_mem_of_mem_zipIdx hq)

/-- What is pushed in the loop and after it, for one check. -/
theorem pushed_eq_nil (batches : List (RecordBatch schema)) (c : QualityCheck) :
    ((∀ q ∈ batches.zipIdx, checkOneOf texts q.2 q.1 c = []) ∧
      checkTotal texts batches c = []) ↔ PassesEach batches c := by
  cases c with
  | notNull column =>
    have heach : _ ↔ PassesEach batches (.notNull column) :=
      forall_zipIdx fun batch => checkNotNull_eq_nil texts batch column
    exact (and_iff_left rfl).trans heach
  | unique column =>
    have heach : _ ↔ PassesEach batches (.unique column) :=
      forall_zipIdx fun batch => checkUnique_eq_nil texts batch column
    exact (and_iff_left rfl).trans heach
  | range column min max =>
    have heach : _ ↔ PassesEach batches (.range column min max) :=
      forall_zipIdx fun batch => checkRange_eq_nil texts batch column min max
    exact (and_iff_left rfl).trans heach
  | rowCountMin min =>
    have hloop : ∀ q ∈ batches.zipIdx, checkOneOf texts q.2 q.1 (.rowCountMin min) = [] :=
      fun _ _ => rfl
    rw [and_iff_right hloop]
    unfold checkTotal PassesEach
    dsimp only
    by_cases hless : (batches.map (·.numRows)).sum < min
    · rw [if_pos hless]
      exact iff_of_false (List.cons_ne_nil _ _) (by omega)
    · rw [if_neg hless]
      exact iff_of_true rfl (by omega)
  | customSql sql description =>
    have heach : PassesEach batches (.customSql sql description) := fun _ _ => trivial
    exact iff_of_true ⟨fun _ _ => rfl, rfl⟩ heach

theorem validateBatches_passed {batches : List (RecordBatch schema)} (hne : batches ≠ []) :
    (validateBatches texts now gate batches).passed = true ↔
      (gate.enabled = true → ∀ c ∈ gate.checks, PassesEach batches c) := by
  have hsome : batches.isEmpty = false := by
    rw [← Bool.not_eq_true, List.isEmpty_iff]
    exact hne
  unfold validateBatches
  dsimp only
  rw [hsome, Bool.or_false]
  by_cases henabled : gate.enabled = true
  · rw [henabled, Bool.not_true, if_neg Bool.false_ne_true]
    simp only [List.isEmpty_iff, List.append_eq_nil_iff, List.flatMap_eq_nil_iff, forall_const]
    constructor
    · rintro ⟨hloop, htotal⟩ c hc
      exact (pushed_eq_nil texts batches c).mp ⟨fun q hq => hloop q hq c hc, htotal c hc⟩
    · intro hall
      constructor
      · intro q hq c hc
        exact ((pushed_eq_nil texts batches c).mpr (hall c hc)).1 q hq
      · intro c hc
        exact ((pushed_eq_nil texts batches c).mpr (hall c hc)).2
  · rw [Bool.not_eq_true] at henabled
    rw [henabled, Bool.not_false, if_pos rfl]
    exact iff_of_true rfl fun h => Bool.noConfusion h

/-- Without batches the gate passes. With batches it passes on the one batch of all their rows
exactly when it passes on the batches and, when it is enabled, no column that is to be unique has a
value in two of them. -/
theorem validateBatches_verdict (batches : List (RecordBatch schema)) :
    (batches = [] → (validateBatches texts now gate batches).passed = true) ∧
      (batches ≠ [] → ((validateBatch texts now gate (.concat batches)).passed = true ↔
        (validateBatches texts now gate batches).passed = true ∧
          (gate.enabled = true → ∀ column, .unique column ∈ gate.checks →
            NoneTwice column batches))) := by
  constructor
  · rintro rfl
    unfold validateBatches
    cases gate.enabled <;> rfl
  · intro hne
    rw [validateBatch_passed, validateBatches_passed texts now gate hne, ← imp_and]
    apply imp_congr_right
    intro _
    simp only [passes_concat hne]
    constructor
    · intro hall
      exact ⟨fun c hc => (hall c hc).1, fun column hc => (hall _ hc).2 column rfl⟩
    · rintro ⟨heach, hnone⟩ c hc
      refine ⟨heach c hc, ?_⟩
      rintro column rfl
      exact hnone column hc

end Verdict

section Orders

/-- Orders by their number. -/
def ordersSchema : Schema := [⟨"order_id", .int64⟩]

def ordersGate (checks : List QualityCheck) : QualityGate where
  id := "gate-orders"
  table := "orders"
  checks := checks
  enabled := true

def orderBatch (numbers : List Int64) : RecordBatch ordersSchema where
  numRows := numbers.length
  column := fun ⟨0, _⟩ => numbers.map some
  length_column := fun ⟨0, _⟩ => List.length_map _

/-- The texts of zero. -/
def zeroTexts : NumberTexts where
  display _ := "0"
  sixDecimals _ := "0.000000"

/-- Order 2 is in two batches, and the gate passes on them and not on all rows. No batches pass,
and the batch without rows does not. -/
theorem orders_split :
    ((validateBatches zeroTexts "2024-05-01T00:00:00+00:00" (ordersGate [.unique "order_id"])
        [orderBatch [1, 2], orderBatch [2, 3]]).passed = true ∧
      (validateBatch zeroTexts "2024-05-01T00:00:00+00:00" (ordersGate [.unique "order_id"])
        (.concat [orderBatch [1, 2], orderBatch [2, 3]])).passed = false) ∧
    (validateBatches zeroTexts "2024-05-01T00:00:00+00:00" (ordersGate [.rowCountMin 1])
        ([] : List (RecordBatch ordersSchema))).passed = true ∧
      (validateBatch zeroTexts "2024-05-01T00:00:00+00:00" (ordersGate [.rowCountMin 1])
        (.concat ([] : List (RecordBatch ordersSchema)))).passed = false := by
  decide

end Orders
end RustLake.Quality
