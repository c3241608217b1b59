import Mathlib.Data.Rat.Floor
import RustLake.Json.Value
import RustLake.Order.TopK

/-! Search for similar vectors: by distance, and by cosine similarity in an index of documents. -/
namespace RustLake.Vector
open TopK

/-- The operations of `f32`. -/
structure Arithmetic (F : Type) where
  zero : F
  one : F
  add : F → F → F
  sub : F → F → F
  mul : F → F → F
  div : F → F → F
  neg : F → F
  sqrt : F → F

inductive DistanceMetric where
  | cosine | l2 | dotProduct
deriving DecidableEq

structure SearchResult (F : Type) where
  index : ℕ
  score : F
deriving DecidableEq

structure IndexEntry (F : Type) where
  id : String
  text : String
  embedding : List F
  metadata : Json.Value

structure IndexSearchResult (F : Type) where
  id : String
  text : String
  score : F
  metadata : Json.Value

/-- Entries come in by `add` alone, which checks their length. -/
structure VectorIndex (F : Type) where
  dimensions : ℕ
  entries : List (IndexEntry F)
  fits : ∀ entry ∈ entries, entry.embedding.length = dimensions

def VectorIndex.new {F : Type} (dimensions : ℕ) : VectorIndex F :=
  ⟨dimensions, [], fun _ h => absurd h List.not_mem_nil⟩

/-- `add`, or none where the length is another and the assertion fails. -/
def VectorIndex.add? {F : Type} (index : VectorIndex F) (entry : IndexEntry F) :
    Option (VectorIndex F) :=
  if h : entry.embedding.length = index.dimensions then
    some { index with
      entries := index.entries ++ [entry]
      fits := by
        intro other hother
        rcases List.mem_append.mp hother with hold | hnew
        · exact index.fits other hold
        · rw [List.mem_singleton.mp hnew, h] }
  else none

section
variable {F : Type} [LinearOrder F] (float : Arithmetic F)

def sum (l : List F) : F := l.foldl float.add float.zero

def norm (a : List F) : F := float.sqrt (sum float (a.map fun x => float.mul x x))

/-- None where the assertion on the lengths fails. -/
def cosineSimilarity (a b : List F) : Option F :=
  if a.length ≠ b.length then none
  else
    let dot := sum float (List.zipWith float.mul a b)
    let normA := norm float a
    let normB := norm float b
    if normA = float.zero ∨ normB = float.zero then some float.zero
    else some (float.div dot (float.mul normA normB))

def l2Distance (a b : List F) : Option F :=
  if a.length ≠ b.length then none
  else some (norm float (List.zipWith float.sub a b))

def score (metric : DistanceMetric) (query vec : List F) : Option F :=
  match metric with
  | .cosine => (cosineSimilarity float query vec).map (float.sub float.one)
  | .l2 => l2Distance float query vec
  | .dotProduct => some (float.neg (sum float (List.zipWith float.mul query vec)))

def knnSearch (query : List F) (vectors : List (List F)) (k : ℕ) (metric : DistanceMetric) :
    Option (List (SearchResult F)) := do
  let results ← vectors.zipIdx.mapM fun (vec, i) => (score float metric query vec).map (SearchResult.mk i)
  return (sortBy SearchResult.score results).take k

/-- The positions of the entries that `search` returns, with their similarities, of which the
greatest come first. The conversion to `f64` changes none of them. -/
def VectorIndex.ranked (index : VectorIndex F) (query : List F) (k : ℕ) : Option (List (ℕ × F)) :=
  if query.length ≠ index.dimensions then none
  else do
    let scored ← index.entries.zipIdx.mapM fun (entry, i) =>
      (cosineSimilarity float query entry.embedding).map (Prod.mk i)
    return (sortBy (fun p => OrderDual.toDual p.2) scored).take k

def VectorIndex.search (index : VectorIndex F) (query : List F) (k : ℕ) :
    Option (List (IndexSearchResult F)) :=
  (index.ranked float query k).map fun scored => scored.filterMap fun (i, score) =>
    index.entries[i]?.map fun entry => ⟨entry.id, entry.text, score, entry.metadata⟩

/-- The results are so many of the vectors as are asked for or there, sorted by their scores, and
no other vector has a better score. -/
structure ExactTopK (metric : DistanceMetric) (query : List F) (vectors : List (List F)) (k : ℕ)
    (results : List (SearchResult F)) : Prop where
  length : results.length = min k vectors.length
  distinct : (results.map SearchResult.index).Nodup
  scored : ∀ r ∈ results, ∃ vec, vectors[r.index]? = some vec ∧
    score float metric query vec = some r.score
  sorted : results.Pairwise fun a b => a.score ≤ b.score
  best : ∀ i vec s, vectors[i]? = some vec → score float metric query vec = some s →
    i ∉ results.map SearchResult.index → ∀ r ∈ results, r.score ≤ s

/-- Both searches return, the same positions in one order, and the index the documents at them. -/
def SameRanking (index : VectorIndex F) (query : List F) (k : ℕ) : Prop :=
  ∃ results scored, knnSearch float query (index.entries.map (·.embedding)) k .cosine = some results ∧
    index.ranked float query k = some scored ∧
    scored.map Prod.fst = results.map SearchResult.index ∧
    (index.search float query k).map (List.map fun r => (r.id, r.text, r.metadata)) =
      some (results.filterMap fun r =>
        index.entries[r.index]?.map fun entry => (entry.id, entry.text, entry.metadata))

/-- The distance of the later of two entries is smaller exactly if its similarity is greater. -/
def KeepsApart (index : VectorIndex F) (query : List F) : Prop :=
  ∀ (i j : ℕ) (a b : IndexEntry F) (s t : F), i < j → index.entries[i]? = some a → index.entries[j]? = some b →
    cosineSimilarity float query a.embedding = some s →
    cosineSimilarity float query b.embedding = some t →
    (s < t ↔ float.sub float.one t < float.sub float.one s)

end

theorem mapM_eq_some_iff {α β : Type} {f : α → Option β} {l : List α} {r : List β} :
    l.mapM f = some r ↔ l.map f = r.map some := by
  induction l generalizing r with
  | nil =>
    cases r with
    | nil => exact iff_of_true rfl rfl
    | cons b r => exact iff_of_false (fun h => by cases h) (fun h => by cases h)
  | cons a l ih =>
    rw [List.mapM_cons, List.map_cons]
    cases r with
    | nil =>
      refine iff_of_false (fun h => ?_) (fun h => by cases h)
      obtain ⟨b, -, h⟩ := Option.bind_eq_some_iff.mp h
      obtain ⟨r, -, h⟩ := Option.bind_eq_some_iff.mp h
      cases h
    | cons b r =>
      rw [List.map_cons, List.cons.injEq, ← ih]
      constructor
      · intro h
        obtain ⟨b', hb, h⟩ := Option.bind_eq_some_iff.mp h
        obtain ⟨r', hr, h⟩ := Option.bind_eq_some_iff.mp h
        cases h
        exact ⟨hb, hr⟩
      · rintro ⟨hb, hr⟩
        rw [hb, hr]
        rfl

/-- A list of some of the positions of a list in order, each with what is computed there. -/
theorem exists_mapM {α β : Type} {f : α → Option β} {l : List α} (h : ∀ a ∈ l, (f a).isSome) :
    ∃ r, l.mapM f = some r := by
  induction l with
  | nil => exact ⟨[], rfl⟩
  | cons a l ih =>
    obtain ⟨ha, hl⟩ := List.forall_mem_cons.mp h
    obtain ⟨r, hr⟩ := ih hl
    obtain ⟨b, hb⟩ := Option.isSome_iff_exists.mp ha
    exact ⟨b :: r, by rw [List.mapM_cons, hb, hr]; rfl⟩

/-- What is computed at each position of a list, together with the position. -/
theorem mapM_zipIdx {α β γ : Type} {g : α → Option β} {mk : ℕ → β → γ} {l : List α} {r : List γ}
    (h : (l.zipIdx.mapM fun (a, i) => (g a).map (mk i)) = some r) :
    r.length = l.length ∧
      ∀ i c, r[i]? = some c → ∃ a b, l[i]? = some a ∧ g a = some b ∧ c = mk i b := by
  have hmap := mapM_eq_some_iff.mp h
  constructor
  · have hlength := congrArg List.length hmap
    simpa using hlength.symm
  · intro i c hc
    have hget := congrArg (·[i]?) hmap
    simp only [List.getElem?_map, List.getElem?_zipIdx, hc, Option.map_some] at hget
    obtain ⟨a, ha, hcomputed⟩ := Option.map_eq_some_iff.mp hget
    obtain ⟨a, ha', rfl⟩ := Option.map_eq_some_iff.mp ha
    obtain ⟨b, hb, rfl⟩ := Option.map_eq_some_iff.mp hcomputed
    exact ⟨a, b, ha', hb, by rw [Nat.zero_add]⟩

section
variable {F : Type} [LinearOrder F] {float : Arithmetic F}
variable {metric : DistanceMetric} {query : List F} {vectors : List (List F)} {k : ℕ}

theorem cosineSimilarity_isSome {a b : List F} (h : a.length = b.length) :
    (cosineSimilarity float a b).isSome := by
  unfold cosineSimilarity
  rw [if_neg (not_not.mpr h)]
  dsimp only
  split_ifs <;> rfl

theorem score_isSome {vec : List F} (h : query.length = vec.length) :
    (score float metric query vec).isSome := by
  cases metric with
  | cosine => simpa [score] using cosineSimilarity_isSome h
  | l2 => simp [score, l2Distance, h]
  | dotProduct => rfl

theorem knnSearch_isSome (h : ∀ vec ∈ vectors, query.length = vec.length) :
    (knnSearch float query vectors k metric).isSome := by
  have hscores : ∀ p ∈ vectors.zipIdx,
      ((score float metric query p.1).map (SearchResult.mk p.2)).isSome := by
    intro p hp
    rw [Option.isSome_map]
    exact score_isSome (h p.1 (List.fst_mem_of_mem_zipIdx hp))
  obtain ⟨results, hresults⟩ := exists_mapM hscores
  unfold knnSearch
  rw [hresults]
  rfl

/-- The results of a search are the best ones. -/
theorem exactTopK {results : List (SearchResult F)}
    (h : knnSearch float query vectors k metric = some results) :
    ExactTopK float metric query vectors k results := by
  obtain ⟨all, hall, htake⟩ := Option.bind_eq_some_iff.mp h
  cases htake
  obtain ⟨hlength, hat⟩ := mapM_zipIdx hall
  have htop := isTopK_take SearchResult.score all k
  obtain ⟨others, hperm, hbetter⟩ := htop.rest
  have hindex : all.map SearchResult.index = List.range all.length := by
    apply List.ext_getElem (by simp)
    intro i hi hi'
    rw [List.length_map] at hi
    obtain ⟨a, b, -, -, hmk⟩ := hat i all[i] (List.getElem?_eq_getElem hi)
    rw [List.getElem_map, List.getElem_range, hmk]
  have hnodup : (all.map SearchResult.index).Nodup := hindex ▸ List.nodup_range
  have hmem : ∀ r, r ∈ all ↔ r ∈ (sortBy SearchResult.score all).take k ∨ r ∈ others := by
    intro r
    rw [← hperm.mem_iff, List.mem_append]
  exact {
    length := by rw [htop.length, hlength]
    distinct := by
      have hboth := (hperm.map SearchResult.index).nodup_iff.mpr hnodup
      rw [List.map_append] at hboth
      exact hboth.of_append_left
    scored := by
      intro r hr
      obtain ⟨i, hi⟩ := List.getElem?_of_mem ((hmem r).mpr (Or.inl hr))
      obtain ⟨vec, s, hvec, hs, rfl⟩ := hat i r hi
      exact ⟨vec, hvec, hs⟩
    sorted := htop.sorted
    best := by
      intro i vec s hvec hs hnot r hr
      have hi : i < all.length := by
        rw [hlength]
        exact (List.getElem?_eq_some_iff.mp hvec).1
      obtain ⟨vec', s', hvec', hs', hmk⟩ := hat i all[i] (List.getElem?_eq_getElem hi)
      obtain rfl := Option.some.inj (hvec.symm.trans hvec')
      obtain rfl := Option.some.inj (hs.symm.trans hs')
      rcases (hmem all[i]).mp (List.getElem_mem hi) with hin | hout
      · exact absurd (List.mem_map.mpr ⟨all[i], hin, by rw [hmk]⟩) hnot
      · have hle := hbetter r hr all[i] hout
        rwa [hmk] at hle }

variable {index : VectorIndex F}

/-- The similarities of all entries, with their positions. -/
structure Similarities (float : Arithmetic F) (index : VectorIndex F) (query : List F)
    (all : List (ℕ × F)) : Prop where
  computed : (index.entries.zipIdx.mapM fun (entry, i) =>
    (cosineSimilarity float query entry.embedding).map (Prod.mk i)) = some all
  positions : all.Pairwise fun p q => p.1 < q.1
  get : ∀ p ∈ all, all[p.1]? = some p
  mem_iff : ∀ i s, (i, s) ∈ all ↔ ∃ entry, index.entries[i]? = some entry ∧
    cosineSimilarity float query entry.embedding = some s

theorem exists_similarities (h : query.length = index.dimensions) :
    ∃ all, Similarities float index query all := by
  have hsome : ∀ p ∈ index.entries.zipIdx,
      ((cosineSimilarity float query p.1.embedding).map (Prod.mk p.2)).isSome := by
    intro p hp
    rw [Option.isSome_map]
    apply cosineSimilarity_isSome
    rw [h, index.fits p.1 (List.fst_mem_of_mem_zipIdx hp)]
  obtain ⟨all, hall⟩ : ∃ all, (index.entries.zipIdx.mapM fun (entry, i) =>
      (cosineSimilarity float query entry.embedding).map (Prod.mk i)) = some all :=
    exists_mapM hsome
  obtain ⟨hlength, hat⟩ := @mapM_zipIdx _ _ _
    (fun entry : IndexEntry F => cosineSimilarity float query entry.embedding) Prod.mk _ _ hall
  have hfst : ∀ (i : ℕ) (p : ℕ × F), all[i]? = some p → p.1 = i := by
    intro i p hp
    obtain ⟨a, b, -, -, rfl⟩ := hat i p hp
    rfl
  refine ⟨all, hall, ?_, ?_, ?_⟩
  · rw [List.pairwise_iff_getElem]
    intro i j hi hj hij
    rwa [hfst i _ (List.getElem?_eq_getElem hi), hfst j _ (List.getElem?_eq_getElem hj)]
  · intro p hp
    obtain ⟨i, hi⟩ := List.getElem?_of_mem hp
    rwa [hfst i p hi]
  · intro i s
    constructor
    · intro hmem
      obtain ⟨j, hj⟩ := List.getElem?_of_mem hmem
      obtain rfl : i = j := hfst j _ hj
      obtain ⟨entry, t, hentry, ht, heq⟩ := hat i _ hj
      cases heq
      exact ⟨entry, hentry, ht⟩
    · rintro ⟨entry, hentry, hs⟩
      have hi : i < all.length := by
        rw [hlength]
        exact (List.getElem?_eq_some_iff.mp hentry).1
      obtain ⟨entry', t, hentry', ht, hmk⟩ := hat i all[i] (List.getElem?_eq_getElem hi)
      obtain rfl := Option.some.inj (hentry.symm.trans hentry')
      obtain rfl := Option.some.inj (hs.symm.trans ht)
      exact hmk ▸ List.getElem_mem hi

variable {all : List (ℕ × F)}

/-- The search by distance computes a distance from each similarity. -/
theorem Similarities.knnSearch_eq (h : Similarities float index query all) (k : ℕ) :
    knnSearch float query (index.entries.map (·.embedding)) k .cosine =
      some (((sortBy (fun p => float.sub float.one p.2) all).take k).map fun p =>
        ⟨p.1, float.sub float.one p.2⟩) := by
  let result : ℕ × F → SearchResult F := fun p => ⟨p.1, float.sub float.one p.2⟩
  have hscores : ((index.entries.map (·.embedding)).zipIdx.mapM fun (vec, i) =>
      (score float .cosine query vec).map (SearchResult.mk i)) = some (all.map result) := by
    rw [mapM_eq_some_iff]
    have hcomputed := congrArg (List.map (Option.map result)) (mapM_eq_some_iff.mp h.computed)
    simp only [List.map_map] at hcomputed
    rw [List.zipIdx_map, List.map_map, List.map_map]
    refine Eq.trans ?_ hcomputed
    apply List.map_congr_left
    intro p _
    simp only [Function.comp_apply, Prod.map, score, Option.map_map]
    rfl
  unfold knnSearch
  rw [hscores, List.map_take]
  exact congrArg (fun sorted => some (List.take k sorted)) (map_sortBy result all).symm

theorem Similarities.ranked_eq (h : Similarities float index query all)
    (hquery : query.length = index.dimensions) (k : ℕ) :
    index.ranked float query k = some ((sortBy (fun p => OrderDual.toDual p.2) all).take k) := by
  unfold VectorIndex.ranked
  rw [if_neg (not_not.mpr hquery), h.computed]
  rfl

/-- Positions tell the elements apart. -/
theorem Similarities.eq_of_map_fst (h : Similarities float index query all) {l l' : List (ℕ × F)}
    (hl : l ⊆ all) (hl' : l' ⊆ all) (heq : l.map Prod.fst = l'.map Prod.fst) : l = l' := by
  have hback : ∀ {l : List (ℕ × F)}, l ⊆ all → (l.map Prod.fst).map (all[·]?) = l.map some := by
    intro l hsub
    rw [List.map_map]
    exact List.map_congr_left fun p hp => h.get p (hsub hp)
  have hsome : l.map some = l'.map some := by rw [← hback hl, ← hback hl', heq]
  exact List.map_injective_iff.mpr (Option.some_injective _) hsome

theorem Similarities.sameRanking_iff (h : Similarities float index query all)
    (hquery : query.length = index.dimensions) (k : ℕ) :
    SameRanking float index query k ↔
      ((sortBy (fun p => OrderDual.toDual p.2) all).take k).map Prod.fst =
        ((sortBy (fun p => float.sub float.one p.2) all).take k).map Prod.fst := by
  have hfst : ∀ l : List (ℕ × F), (l.map fun p =>
      (⟨p.1, float.sub float.one p.2⟩ : SearchResult F)).map SearchResult.index = l.map Prod.fst := by
    intro l
    rw [List.map_map]
    rfl
  constructor
  · rintro ⟨results, scored, hknn, hranked, heq, -⟩
    rw [h.knnSearch_eq] at hknn
    rw [h.ranked_eq hquery] at hranked
    cases hknn
    cases hranked
    rw [heq, hfst]
  · intro heq
    refine ⟨_, _, h.knnSearch_eq k, h.ranked_eq hquery k, ?_, ?_⟩
    · rw [heq, hfst]
    · unfold VectorIndex.search
      rw [h.ranked_eq hquery, Option.map_some, Option.map_some, List.map_filterMap,
        List.filterMap_map]
      have hdocs : ∀ (l : List (ℕ × F)), (l.filterMap fun p =>
          (index.entries[p.1]?).map fun entry => (entry.id, entry.text, entry.metadata)) =
          (l.map Prod.fst).filterMap fun i =>
            (index.entries[i]?).map fun entry => (entry.id, entry.text, entry.metadata) := by
        intro l
        rw [List.filterMap_map]
        rfl
      have hleft := hdocs ((sortBy (fun p => OrderDual.toDual p.2) all).take k)
      have hright := hdocs ((sortBy (fun p => float.sub float.one p.2) all).take k)
      rw [heq, ← hright] at hleft
      simp only [Option.map_map]
      exact congrArg some hleft

/-- With one order of similarities and another of distances, everything comes in the same places
exactly if they agree on which entries are moved before earlier ones. -/
theorem Similarities.forall_sameRanking_iff (h : Similarities float index query all)
    (hquery : query.length = index.dimensions) :
    (∀ k, SameRanking float index query k) ↔ KeepsApart float index query := by
  have hsub : sortBy (fun p => OrderDual.toDual p.2) all ⊆ all := (perm_sortBy _ all).subset
  have hsub' : sortBy (fun p => float.sub float.one p.2) all ⊆ all := (perm_sortBy _ all).subset
  have hsorts : (∀ k, SameRanking float index query k) ↔
      sortBy (fun p => OrderDual.toDual p.2) all =
        sortBy (fun p => float.sub float.one p.2) all := by
    constructor
    · intro hsame
      have hwhole := (h.sameRanking_iff hquery all.length).mp (hsame all.length)
      rw [List.take_of_length_le (perm_sortBy _ all).length_eq.le,
        List.take_of_length_le (perm_sortBy _ all).length_eq.le] at hwhole
      exact h.eq_of_map_fst hsub hsub' hwhole
    · intro heq k
      rw [h.sameRanking_iff hquery, heq]
  rw [hsorts, sortBy_eq_iff (fun p q hpq => hpq.not_gt) h.positions]
  constructor
  · intro hagree i j a b s t hij ha hb hs ht
    exact hagree (i, s) ((h.mem_iff i s).mpr ⟨a, ha, hs⟩) (j, t) ((h.mem_iff j t).mpr ⟨b, hb, ht⟩) hij
  · intro hapart p hp q hq hpq
    obtain ⟨a, ha, hs⟩ := (h.mem_iff p.1 p.2).mp hp
    obtain ⟨b, hb, ht⟩ := (h.mem_iff q.1 q.2).mp hq
    exact hapart p.1 q.1 a b p.2 q.2 hpq ha hb hs ht

/-- Where subtraction is exact, the distance always tells similarities apart. -/
theorem keepsApart_of_strictAnti (h : StrictAnti (float.sub float.one)) :
    KeepsApart float index query := fun _ _ _ _ _ _ _ _ _ _ _ => h.lt_iff_gt.symm

/-- A search by distance returns the best vectors, whatever the metric; and the index returns its
documents in the order of their cosine distances, for every number of them, exactly if no distance
is the same as that of an entry in front which is less similar. -/
theorem search_exact (index : VectorIndex F) (hquery : query.length = index.dimensions) :
    (∀ vectors k metric, ((∀ vec ∈ vectors, query.length = vec.length) →
        (knnSearch float query vectors k metric).isSome) ∧
      ∀ results, knnSearch float query vectors k metric = some results →
        ExactTopK float metric query vectors k results) ∧
    ((∀ k, SameRanking float index query k) ↔ KeepsApart float index query) := by
  obtain ⟨all, hall⟩ : ∃ all, Similarities float index query all := exists_similarities hquery
  exact ⟨fun vectors k metric => ⟨knnSearch_isSome, fun _ => exactTopK⟩,
    hall.forall_sameRanking_iff hquery⟩

end

section Float32

/-- The exponent of the power of two at or below a number. -/
def exponent (x : ℚ) : ℤ :=
  let e : ℤ := (Nat.log2 x.num.natAbs : ℤ) - Nat.log2 x.den
  if |x| < 2 ^ e then e - 1 else e

/-- The nearest number with 24 binary digits, the even one of two. Nothing overflows. -/
def round32 (x : ℚ) : ℚ :=
  let ulp : ℚ := 2 ^ (max (exponent x) (-126) - 23)
  let below := ⌊x / ulp⌋
  let part := x / ulp - below
  (if part < 1 / 2 then below else if 1 / 2 < part then below + 1 else below + below % 2) * ulp

/-- A square root to two hundred binary digits, and half a digit where there are more. -/
def sqrt32 (x : ℚ) : ℚ :=
  let n := ⌊x * 4 ^ 200⌋₊
  let root : ℚ := Nat.sqrt n
  round32 ((if root * root = x * 4 ^ 200 then root else root + 1 / 2) / 2 ^ 200)

/-- `f32`, in the range of its normal numbers. -/
def float32 : Arithmetic ℚ where
  zero := 0
  one := 1
  add x y := round32 (x + y)
  sub x y := round32 (x - y)
  mul x y := round32 (x * y)
  div x y := round32 (x / y)
  neg x := -x
  sqrt := sqrt32

/-- Two documents that are almost at right angles to the query, the second a little less. -/
def nearlyOrthogonal : VectorIndex ℚ where
  dimensions := 2
  entries := [⟨"1", "tea", [1 / 2 ^ 30, 1], .null⟩, ⟨"2", "coffee", [1 / 2 ^ 29, 1], .null⟩]
  fits := by decide

/-- Both distances are rounded to one, so that the search by distance keeps the order in which the
documents were added. -/
theorem not_sameRanking_nearlyOrthogonal :
    ¬ ∀ (index : VectorIndex ℚ) (query : List ℚ) (k : ℕ), query.length = index.dimensions →
      SameRanking float32 index query k := by
  intro h
  obtain ⟨results, scored, hknn, hranked, heq, -⟩ := h nearlyOrthogonal [1, 0] 1 rfl
  have hindices : (knnSearch float32 [1, 0] (nearlyOrthogonal.entries.map (·.embedding)) 1 .cosine).map
      (List.map SearchResult.index) = some [0] := by decide +kernel
  have hpositions : (nearlyOrthogonal.ranked float32 [1, 0] 1).map (List.map Prod.fst) =
      some [1] := by decide +kernel
  rw [hknn] at hindices
  rw [hranked] at hpositions
  have hzero : results.map SearchResult.index = [0] := Option.some.inj hindices
  have hone : scored.map Prod.fst = [1] := Option.some.inj hpositions
  rw [hone, hzero] at heq
  cases heq

theorem search_nearlyOrthogonal :
    (∀ vectors k metric, ((∀ vec ∈ vectors, ([1, 0] : List ℚ).length = vec.length) →
        (knnSearch float32 [1, 0] vectors k metric).isSome) ∧
      ∀ results, knnSearch float32 [1, 0] vectors k metric = some results →
        ExactTopK float32 metric [1, 0] vectors k results) ∧
    ((∀ k, SameRanking float32 nearlyOrthogonal [1, 0] k) ↔
      KeepsApart float32 nearlyOrthogonal [1, 0]) :=
  search_exact nearlyOrthogonal rfl

end Float32
end RustLake.Vector
