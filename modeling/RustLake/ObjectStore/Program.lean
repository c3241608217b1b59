import RustLake.ObjectStore.Path
import RustLake.Rust.Basic
import Mathlib.Data.List.AList
import Mathlib.Data.String.Basic

/-! Asynchronous code over an object store, as the tree of store calls it makes, and its
run against a store in which any call may fail. A failed call changes nothing. -/
namespace RustLake.ObjectStore

structure ObjectMeta where
  location : Path
  size : ℕ
deriving DecidableEq, Repr

/-- Each call waits for its answer, which may be the text of an error. Reading the bytes
of an object that `get` found is a call of its own. -/
inductive Program (Body α : Type) where
  | done (a : α)
  | fail (e : Failure)
  | get (path : Path) (k : Except String Body → Program Body α)
  | bytes (body : Body) (k : Except String Body → Program Body α)
  | put (path : Path) (body : Body) (k : Except String Unit → Program Body α)
  | delete (path : Path) (k : Except String Unit → Program Body α)
  | list (pfx : Path) (k : Except String (List ObjectMeta) → Program Body α)

namespace Program
variable {Body α β : Type}

def bind : Program Body α → (α → Program Body β) → Program Body β
  | .done a, f => f a
  | .fail e, _ => .fail e
  | .get p k, f => .get p fun r => bind (k r) f
  | .bytes b k, f => .bytes b fun r => bind (k r) f
  | .put p b k, f => .put p b fun r => bind (k r) f
  | .delete p k, f => .delete p fun r => bind (k r) f
  | .list p k, f => .list p fun r => bind (k r) f

instance : Monad (Program Body) where
  pure := .done
  bind := bind

/-- `result.map_err(message)?`. -/
def orFail (message : String → String) : Except String α → Program Body α
  | .ok a => .done a
  | .error e => .fail (.error (message e))

/-- A value whose absence is a panic. -/
def orPanic : Option α → Program Body α
  | some a => .done a
  | none => .fail .panic

@[simp] theorem done_bind (a : α) (f : α → Program Body β) : (.done a >>= f) = f a := rfl

@[simp] theorem fail_bind (e : Failure) (f : α → Program Body β) :
    ((.fail e : Program Body α) >>= f) = .fail e := rfl

@[simp] theorem put_bind (path : Path) (body : Body) (k : Except String Unit → Program Body α)
    (f : α → Program Body β) : (.put path body k >>= f) = .put path body fun r => k r >>= f := rfl

@[simp] theorem orFail_ok (message : String → String) (a : α) :
    (orFail message (.ok a) : Program Body α) = .done a := rfl

@[simp] theorem orFail_error (message : String → String) (e : String) :
    (orFail message (.error e) : Program Body α) = .fail (.error (message e)) := rfl

@[simp] theorem orPanic_some (a : α) : (orPanic (some a) : Program Body α) = .done a := rfl

@[simp] theorem orPanic_none : (orPanic none : Program Body α) = .fail .panic := rfl

end Program

abbrev Store (Body : Type) := AList fun _ : Path => Body

namespace Store
variable {Body : Type}

/-- The keys below a prefix, in lexicographic order. -/
def listing (s : Store Body) (pfx : Path) : List Path :=
  (s.keys.filter (·.isUnder pfx)).insertionSort (· ≤ ·)

theorem mem_listing {s : Store Body} {pfx key : Path} :
    key ∈ s.listing pfx ↔ key ∈ s ∧ key.isUnder pfx = true := by
  rw [listing, (List.perm_insertionSort _ _).mem_iff, List.mem_filter, AList.mem_keys]

theorem listing_nodup (s : Store Body) (pfx : Path) : (s.listing pfx).Nodup :=
  (List.perm_insertionSort _ _).nodup_iff.mpr (s.keys_nodup.filter _)

theorem listing_sorted (s : Store Body) (pfx : Path) :
    (s.listing pfx).Pairwise (· ≤ ·) :=
  List.pairwise_insertionSort _ _

/-- Listings that agree as sets on the keys of interest agree on them in order. -/
theorem filter_listing_congr {s t : Store Body} {pfx : Path} {P : Path → Bool}
    (h : ∀ key, P key = true → (key ∈ s ↔ key ∈ t)) :
    (s.listing pfx).filter P = (t.listing pfx).filter P := by
  have hs : ((s.listing pfx).filter P).Pairwise (· ≤ ·) := (listing_sorted s pfx).filter _
  have ht : ((t.listing pfx).filter P).Pairwise (· ≤ ·) := (listing_sorted t pfx).filter _
  refine List.Perm.eq_of_pairwise (fun a b _ _ => le_antisymm) hs ht ?_
  rw [List.perm_ext_iff_of_nodup ((listing_nodup s pfx).filter _)
    ((listing_nodup t pfx).filter _)]
  intro key
  simp only [List.mem_filter, mem_listing]
  constructor
  · rintro ⟨⟨hs, hu⟩, hP⟩
    exact ⟨⟨(h key hP).mp hs, hu⟩, hP⟩
  · rintro ⟨⟨ht, hu⟩, hP⟩
    exact ⟨⟨(h key hP).mpr ht, hu⟩, hP⟩

/-- The store without these keys. -/
def eraseAll (s : Store Body) (keys : List Path) : Store Body := keys.foldl (·.erase ·) s

@[simp] theorem eraseAll_nil (s : Store Body) : s.eraseAll [] = s := rfl

@[simp] theorem eraseAll_cons (s : Store Body) (key : Path) (keys : List Path) :
    s.eraseAll (key :: keys) = eraseAll (s.erase key) keys := rfl

theorem lookup_eraseAll_of_notMem {s : Store Body} {keys : List Path} {key : Path}
    (h : key ∉ keys) : (s.eraseAll keys).lookup key = s.lookup key := by
  induction keys generalizing s with
  | nil => rfl
  | cons k keys ih =>
    obtain ⟨hk, hkeys⟩ := not_or.mp (mt List.mem_cons.mpr h)
    rw [eraseAll_cons, ih hkeys, AList.lookup_erase_ne hk]

theorem mem_eraseAll {s : Store Body} {keys : List Path} {key : Path} :
    key ∈ s.eraseAll keys ↔ key ∈ s ∧ key ∉ keys := by
  induction keys generalizing s with
  | nil => simp
  | cons k keys ih =>
    rw [eraseAll_cons, ih, AList.mem_erase, List.mem_cons, not_or]
    constructor
    · exact fun ⟨⟨hk, hs⟩, hkeys⟩ => ⟨hs, hk, hkeys⟩
    · exact fun ⟨hs, hk, hkeys⟩ => ⟨⟨hk, hs⟩, hkeys⟩

end Store

/-- The fault of each call still to come, counted from the next one. -/
abbrev Faults := ℕ → Option String

def Faults.next (faults : Faults) : Faults := fun i => faults (i + 1)

/-- The faults left after a number of calls. -/
def Faults.skip (faults : Faults) (n : ℕ) : Faults := fun i => faults (i + n)

@[simp] theorem Faults.skip_apply_zero (faults : Faults) (n : ℕ) :
    faults.skip n 0 = faults n := by rw [Faults.skip, Nat.zero_add]

@[simp] theorem Faults.skip_zero (faults : Faults) : faults.skip 0 = faults := rfl

@[simp] theorem Faults.skip_next (faults : Faults) (n : ℕ) :
    faults.next.skip n = faults.skip (n + 1) := rfl

@[simp] theorem Faults.next_skip (faults : Faults) (n : ℕ) :
    (faults.skip n).next = faults.skip (n + 1) :=
  funext fun i => by rw [Faults.next, Faults.skip, Faults.skip, Nat.add_right_comm, Nat.add_assoc]

/-- A store in which every call succeeds. -/
def noFaults : Faults := fun _ => none

/-- A store in which one call fails. -/
def failAt (n : ℕ) (message : String) : Faults := fun i => if i = n then some message else none

/-- Of keys that are called one after the other, those whose call goes through. -/
def Faults.passed : Faults → List Path → List Path
  | _, [] => []
  | faults, key :: keys => match faults 0 with
    | none => key :: passed faults.next keys
    | some _ => passed faults.next keys

theorem Faults.mem_of_mem_passed {faults : Faults} {keys : List Path} {key : Path}
    (h : key ∈ faults.passed keys) : key ∈ keys := by
  induction keys generalizing faults with
  | nil => exact h
  | cons k keys ih =>
    unfold Faults.passed at h
    cases h0 : faults 0 with
    | some e =>
      rw [h0] at h
      exact List.mem_cons_of_mem _ (ih h)
    | none =>
      rw [h0] at h
      rcases List.mem_cons.mp h with rfl | hrest
      · exact List.mem_cons_self
      · exact List.mem_cons_of_mem _ (ih hrest)

structure Outcome (Body α : Type) where
  result : Except Failure α
  store : Store Body
  faults : Faults

section Run
variable {Body α β : Type}

def answer {γ : Type} (faults : Faults) (value : Except String γ) : Except String γ :=
  match faults 0 with
  | some e => .error e
  | none => value

/-- The store after a call that would change it to `after`. -/
def effect (faults : Faults) (before after : Store Body) : Store Body :=
  match faults 0 with
  | some _ => before
  | none => after

def Store.found (s : Store Body) (path : Path) : Except String Body :=
  match s.lookup path with
  | some body => .ok body
  | none => .error ("Object at location " ++ path ++ " not found")

/-- Deleting a missing object succeeds, as it does on S3. -/
def run (size : Body → ℕ) : Program Body α → Faults → Store Body → Outcome Body α
  | .done a, faults, s => ⟨.ok a, s, faults⟩
  | .fail e, faults, s => ⟨.error e, s, faults⟩
  | .get path k, faults, s => run size (k (answer faults (s.found path))) faults.next s
  | .bytes body k, faults, s => run size (k (answer faults (.ok body))) faults.next s
  | .put path body k, faults, s =>
    run size (k (answer faults (.ok ()))) faults.next (effect faults s (s.insert path body))
  | .delete path k, faults, s =>
    run size (k (answer faults (.ok ()))) faults.next (effect faults s (s.erase path))
  | .list pfx k, faults, s =>
    let metas := (s.listing pfx).map fun key => ⟨key, ((s.lookup key).map size).getD 0⟩
    run size (k (answer faults (.ok metas))) faults.next s

variable (size : Body → ℕ)

@[simp] theorem run_done (a : α) (faults : Faults) (s : Store Body) :
    run size (.done a) faults s = ⟨.ok a, s, faults⟩ := rfl

theorem run_eq_of_result {p : Program Body α} {faults : Faults} {s : Store Body} {a : α}
    (h : (run size p faults s).result = .ok a) :
    run size p faults s = ⟨.ok a, (run size p faults s).store, (run size p faults s).faults⟩ := by
  rw [← h]

@[simp] theorem run_get (path : Path) (k : Except String Body → Program Body α)
    (faults : Faults) (s : Store Body) :
    run size (.get path k) faults s =
      run size (k (answer faults (s.found path))) faults.next s := rfl

@[simp] theorem run_bytes (body : Body) (k : Except String Body → Program Body α)
    (faults : Faults) (s : Store Body) :
    run size (.bytes body k) faults s = run size (k (answer faults (.ok body))) faults.next s := rfl

@[simp] theorem run_put (path : Path) (body : Body) (k : Except String Unit → Program Body α)
    (faults : Faults) (s : Store Body) :
    run size (.put path body k) faults s =
      run size (k (answer faults (.ok ()))) faults.next
        (effect faults s (s.insert path body)) := rfl

@[simp] theorem run_delete (path : Path) (k : Except String Unit → Program Body α)
    (faults : Faults) (s : Store Body) :
    run size (.delete path k) faults s =
      run size (k (answer faults (.ok ()))) faults.next (effect faults s (s.erase path)) := rfl

@[simp] theorem answer_noFaults {γ : Type} (value : Except String γ) :
    answer noFaults value = value := rfl

@[simp] theorem effect_noFaults (before after : Store Body) :
    effect noFaults before after = after := rfl

@[simp] theorem noFaults_next : noFaults.next = noFaults := rfl

theorem answer_of_none {γ : Type} {faults : Faults} (h : faults 0 = none)
    (value : Except String γ) : answer faults value = value := by rw [answer, h]

theorem answer_of_some {γ : Type} {faults : Faults} {e : String} (h : faults 0 = some e)
    (value : Except String γ) : answer faults value = .error e := by rw [answer, h]

theorem effect_of_none {faults : Faults} (h : faults 0 = none) (before after : Store Body) :
    effect faults before after = after := by rw [effect, h]

theorem effect_of_some {faults : Faults} {e : String} (h : faults 0 = some e)
    (before after : Store Body) : effect faults before after = before := by rw [effect, h]

@[simp] theorem run_pure (a : α) (faults : Faults) (s : Store Body) :
    run size (pure a) faults s = ⟨.ok a, s, faults⟩ := rfl

@[simp] theorem run_fail (e : Failure) (faults : Faults) (s : Store Body) :
    run size (.fail e : Program Body α) faults s = ⟨.error e, s, faults⟩ := rfl

/-- A sequence runs its second part in what the first one leaves, unless the first fails. -/
theorem run_bind (p : Program Body α) (f : α → Program Body β) (faults : Faults)
    (s : Store Body) :
    run size (p >>= f) faults s =
      match run size p faults s with
      | ⟨.ok a, s', faults'⟩ => run size (f a) faults' s'
      | ⟨.error e, s', faults'⟩ => ⟨.error e, s', faults'⟩ := by
  change run size (p.bind f) faults s = _
  induction p generalizing faults s with
  | done a => rfl
  | fail e => rfl
  | get path k ih => exact ih _ _ _
  | bytes body k ih => exact ih _ _ _
  | put path body k ih => exact ih _ _ _
  | delete path k ih => exact ih _ _ _
  | list pfx k ih => exact ih _ _ _

/-- A sequence that ends well: its first part does too and the second runs in what it
leaves. -/
theorem run_bind_ok {p : Program Body α} {f : α → Program Body β} {faults faults' : Faults}
    {s s' : Store Body} {b : β} (h : run size (p >>= f) faults s = ⟨.ok b, s', faults'⟩) :
    ∃ a s₁ faults₁, run size p faults s = ⟨.ok a, s₁, faults₁⟩ ∧
      run size (f a) faults₁ s₁ = ⟨.ok b, s', faults'⟩ := by
  rw [run_bind] at h
  split at h
  · rename_i a s₁ faults₁ hp
    exact ⟨a, s₁, faults₁, hp, h⟩
  · simp at h

theorem run_orFail_bind_ok {message : String → String} {r : Except String α}
    {f : α → Program Body β} {faults : Faults} {s : Store Body} {b : β} {s' : Store Body}
    {faults' : Faults}
    (h : run size (Program.orFail message r >>= f) faults s = ⟨.ok b, s', faults'⟩) :
    ∃ a, r = .ok a ∧ run size (f a) faults s = ⟨.ok b, s', faults'⟩ := by
  cases r with
  | error e => cases h
  | ok a => exact ⟨a, rfl, h⟩

theorem run_orPanic_bind_ok {o : Option α} {f : α → Program Body β} {faults : Faults}
    {s : Store Body} {b : β} {s' : Store Body} {faults' : Faults}
    (h : run size (Program.orPanic o >>= f) faults s = ⟨.ok b, s', faults'⟩) :
    ∃ a, o = some a ∧ run size (f a) faults s = ⟨.ok b, s', faults'⟩ := by
  cases o with
  | none => cases h
  | some a => exact ⟨a, rfl, h⟩

theorem answer_eq_ok {γ : Type} {faults : Faults} {value : Except String γ} {a : γ}
    (h : answer faults value = .ok a) : faults 0 = none ∧ value = .ok a := by
  cases h0 : faults 0 with
  | none => exact ⟨rfl, by rwa [answer_of_none h0] at h⟩
  | some e =>
    rw [answer_of_some h0] at h
    cases h

theorem Store.found_eq_ok {s : Store Body} {path : Path} {body : Body} :
    s.found path = .ok body ↔ s.lookup path = some body := by
  unfold Store.found
  cases s.lookup path <;> simp

/-- What a program makes of its value does not matter to the store. -/
theorem store_run_map (p : Program Body α) (f : α → β) (faults : Faults) (s : Store Body) :
    (run size (p >>= fun a => pure (f a)) faults s).store = (run size p faults s).store := by
  rw [run_bind]
  rcases run size p faults s with ⟨result, after, left⟩
  cases result <;> rfl

/-- Every key the program may put or delete satisfies `K`. -/
def Program.Touches (K : Path → Prop) : Program Body α → Prop
  | .done _ => True
  | .fail _ => True
  | .get _ k => ∀ r, Touches K (k r)
  | .bytes _ k => ∀ r, Touches K (k r)
  | .put path _ k => K path ∧ ∀ r, Touches K (k r)
  | .delete path k => K path ∧ ∀ r, Touches K (k r)
  | .list _ k => ∀ r, Touches K (k r)

theorem effect_lookup_ne {faults : Faults} {s t : Store Body} {key : Path}
    (h : t.lookup key = s.lookup key) : (effect faults s t).lookup key = s.lookup key := by
  unfold effect
  split
  · rfl
  · exact h

/-- Keys a program does not touch keep their objects. -/
theorem lookup_run_of_touches {K : Path → Prop} {p : Program Body α} (hp : p.Touches K)
    (faults : Faults) (s : Store Body) {key : Path} (hk : ¬ K key) :
    (run size p faults s).store.lookup key = s.lookup key := by
  induction p generalizing faults s with
  | done a => rfl
  | fail e => rfl
  | get path k ih => exact ih _ (hp _) _ _
  | bytes body k ih => exact ih _ (hp _) _ _
  | put path body k ih =>
    have hne : key ≠ path := fun h => hk (h ▸ hp.1)
    exact (ih _ (hp.2 _) _ _).trans (effect_lookup_ne (AList.lookup_insert_ne hne))
  | delete path k ih =>
    have hne : key ≠ path := fun h => hk (h ▸ hp.1)
    exact (ih _ (hp.2 _) _ _).trans (effect_lookup_ne (AList.lookup_erase_ne hne))
  | list pfx k ih => exact ih _ (hp _) _ _

/-- Every object the program may put satisfies `P` at its key. -/
def Program.Puts (P : Path → Body → Prop) : Program Body α → Prop
  | .done _ => True
  | .fail _ => True
  | .get _ k => ∀ r, Puts P (k r)
  | .bytes _ k => ∀ r, Puts P (k r)
  | .put path body k => P path body ∧ ∀ r, Puts P (k r)
  | .delete _ k => ∀ r, Puts P (k r)
  | .list _ k => ∀ r, Puts P (k r)

/-- What is in the store after a run was there before or was put. -/
theorem lookup_run_of_puts {P : Path → Body → Prop} {p : Program Body α} (hp : p.Puts P)
    (faults : Faults) (s : Store Body) {key : Path} {body : Body}
    (h : (run size p faults s).store.lookup key = some body) :
    s.lookup key = some body ∨ P key body := by
  induction p generalizing faults s with
  | done a => exact Or.inl h
  | fail e => exact Or.inl h
  | get path k ih => exact ih _ (hp _) _ _ h
  | bytes found k ih => exact ih _ (hp _) _ _ h
  | put path new k ih =>
    rcases ih _ (hp.2 _) _ _ h with hlook | hP
    · cases h0 : faults 0 with
      | some e =>
        rw [effect_of_some h0] at hlook
        exact Or.inl hlook
      | none =>
        rw [effect_of_none h0] at hlook
        by_cases hkey : key = path
        · subst hkey
          rw [AList.lookup_insert, Option.some.injEq] at hlook
          exact Or.inr (hlook ▸ hp.1)
        · rw [AList.lookup_insert_ne hkey] at hlook
          exact Or.inl hlook
    · exact Or.inr hP
  | delete path k ih =>
    rcases ih _ (hp _) _ _ h with hlook | hP
    · cases h0 : faults 0 with
      | some e =>
        rw [effect_of_some h0] at hlook
        exact Or.inl hlook
      | none =>
        rw [effect_of_none h0] at hlook
        by_cases hkey : key = path
        · subst hkey
          rw [AList.lookup_erase] at hlook
          cases hlook
        · rw [AList.lookup_erase_ne hkey] at hlook
          exact Or.inl hlook
    · exact Or.inr hP
  | list pfx k ih => exact ih _ (hp _) _ _ h

theorem Program.Puts.bind {P : Path → Body → Prop} {p : Program Body α}
    {f : α → Program Body β} (hp : p.Puts P) (hf : ∀ a, (f a).Puts P) : (p >>= f).Puts P := by
  change (p.bind f).Puts P
  induction p with
  | done a => exact hf a
  | fail e => trivial
  | get path k ih => exact fun r => ih r (hp r)
  | bytes body k ih => exact fun r => ih r (hp r)
  | put path body k ih => exact ⟨hp.1, fun r => ih r (hp.2 r)⟩
  | delete path k ih => exact fun r => ih r (hp r)
  | list pfx k ih => exact fun r => ih r (hp r)

@[simp] theorem puts_orFail (P : Path → Body → Prop) (message : String → String)
    (r : Except String α) : (Program.orFail message r : Program Body α).Puts P := by
  cases r <;> trivial

theorem Program.Puts.orPanic_bind {P : Path → Body → Prop} {o : Option α}
    {f : α → Program Body β} (h : ∀ a, o = some a → (f a).Puts P) :
    (Program.orPanic o >>= f).Puts P := by
  cases o with
  | none => trivial
  | some a => exact h a rfl

/-- A program that touches nothing leaves the store as it is. -/
theorem run_store_of_readOnly {p : Program Body α} (hp : p.Touches fun _ => False)
    (faults : Faults) (s : Store Body) : (run size p faults s).store = s := by
  induction p generalizing faults s with
  | done a => rfl
  | fail e => rfl
  | get path k ih => exact ih _ (hp _) _ _
  | bytes body k ih => exact ih _ (hp _) _ _
  | put path body k ih => exact hp.1.elim
  | delete path k ih => exact hp.1.elim
  | list pfx k ih => exact ih _ (hp _) _ _

theorem Program.Touches.bind {K : Path → Prop} {p : Program Body α}
    {f : α → Program Body β} (hp : p.Touches K) (hf : ∀ a, (f a).Touches K) :
    (p >>= f).Touches K := by
  change (p.bind f).Touches K
  induction p with
  | done a => exact hf a
  | fail e => trivial
  | get path k ih => exact fun r => ih r (hp r)
  | bytes body k ih => exact fun r => ih r (hp r)
  | put path body k ih => exact ⟨hp.1, fun r => ih r (hp.2 r)⟩
  | delete path k ih => exact ⟨hp.1, fun r => ih r (hp.2 r)⟩
  | list pfx k ih => exact fun r => ih r (hp r)

@[simp] theorem touches_orFail (K : Path → Prop) (message : String → String)
    (r : Except String α) : (Program.orFail message r : Program Body α).Touches K := by
  cases r <;> trivial

@[simp] theorem touches_orPanic (K : Path → Prop) (r : Option α) :
    (Program.orPanic r : Program Body α).Touches K := by
  cases r <;> trivial

/-- The program deletes nothing, and every key it may put satisfies `K`. -/
def Program.Adds (K : Path → Prop) : Program Body α → Prop
  | .done _ => True
  | .fail _ => True
  | .get _ k => ∀ r, Adds K (k r)
  | .bytes _ k => ∀ r, Adds K (k r)
  | .put path _ k => K path ∧ ∀ r, Adds K (k r)
  | .delete _ _ => False
  | .list _ k => ∀ r, Adds K (k r)

/-- Such a program changes objects under those keys only, and they are there afterwards. -/
theorem lookup_run_of_adds {K : Path → Prop} {p : Program Body α} (hp : p.Adds K)
    (faults : Faults) (s : Store Body) (key : Path) :
    (run size p faults s).store.lookup key = s.lookup key ∨
      K key ∧ key ∈ (run size p faults s).store := by
  induction p generalizing faults s with
  | done a => exact Or.inl rfl
  | fail e => exact Or.inl rfl
  | get path k ih => exact ih _ (hp _) _ _
  | bytes body k ih => exact ih _ (hp _) _ _
  | put path body k ih =>
    rcases ih _ (hp.2 _) faults.next (effect faults s (s.insert path body)) with hsame | hput
    · by_cases hkey : key = path
      · subst hkey
        rw [run_put]
        cases h0 : faults 0 with
        | some e =>
          rw [effect_of_some h0] at hsame ⊢
          exact Or.inl hsame
        | none =>
          rw [effect_of_none h0] at hsame ⊢
          rw [AList.lookup_insert] at hsame
          exact Or.inr ⟨hp.1, AList.lookup_isSome.mp (by rw [hsame]; rfl)⟩
      · exact Or.inl (hsame.trans (effect_lookup_ne (AList.lookup_insert_ne hkey)))
    · exact Or.inr hput
  | delete path k ih => exact hp.elim
  | list pfx k ih => exact ih _ (hp _) _ _

theorem Program.Adds.bind {K : Path → Prop} {p : Program Body α} {f : α → Program Body β}
    (hp : p.Adds K) (hf : ∀ a, (f a).Adds K) : (p >>= f).Adds K := by
  change (p.bind f).Adds K
  induction p with
  | done a => exact hf a
  | fail e => trivial
  | get path k ih => exact fun r => ih r (hp r)
  | bytes body k ih => exact fun r => ih r (hp r)
  | put path body k ih => exact ⟨hp.1, fun r => ih r (hp.2 r)⟩
  | delete path k ih => exact hp.elim
  | list pfx k ih => exact fun r => ih r (hp r)

@[simp] theorem adds_orFail (K : Path → Prop) (message : String → String)
    (r : Except String α) : (Program.orFail message r : Program Body α).Adds K := by
  cases r <;> trivial

end Run

end RustLake.ObjectStore

/-! What a run puts: the keys and bodies of the puts that go through, in their order, and the keys of
all that it tries. -/
namespace RustLake.ObjectStore
variable {Body α β : Type} (size : Body → ℕ)

def putLog : Program Body α → Faults → Store Body → List (Path × Body)
  | .done _, _, _ => []
  | .fail _, _, _ => []
  | .get path k, faults, s => putLog (k (answer faults (s.found path))) faults.next s
  | .bytes body k, faults, s => putLog (k (answer faults (.ok body))) faults.next s
  | .put path body k, faults, s =>
    (if faults 0 = none then [(path, body)] else []) ++
      putLog (k (answer faults (.ok ()))) faults.next (effect faults s (s.insert path body))
  | .delete path k, faults, s =>
    putLog (k (answer faults (.ok ()))) faults.next (effect faults s (s.erase path))
  | .list pfx k, faults, s =>
    let metas := (s.listing pfx).map fun key => ⟨key, ((s.lookup key).map size).getD 0⟩
    putLog (k (answer faults (.ok metas))) faults.next s

/-- The keys of the puts, whether they go through or not. -/
def putTries : Program Body α → Faults → Store Body → List Path
  | .done _, _, _ => []
  | .fail _, _, _ => []
  | .get path k, faults, s => putTries (k (answer faults (s.found path))) faults.next s
  | .bytes body k, faults, s => putTries (k (answer faults (.ok body))) faults.next s
  | .put path body k, faults, s =>
    path :: putTries (k (answer faults (.ok ()))) faults.next (effect faults s (s.insert path body))
  | .delete path k, faults, s =>
    putTries (k (answer faults (.ok ()))) faults.next (effect faults s (s.erase path))
  | .list pfx k, faults, s =>
    let metas := (s.listing pfx).map fun key => ⟨key, ((s.lookup key).map size).getD 0⟩
    putTries (k (answer faults (.ok metas))) faults.next s

@[simp] theorem putTries_pure (a : α) (faults : Faults) (s : Store Body) :
    putTries size (pure a : Program Body α) faults s = [] := rfl

@[simp] theorem putLog_pure (a : α) (faults : Faults) (s : Store Body) :
    putLog size (pure a : Program Body α) faults s = [] := rfl

theorem putLog_put_of_none {path : Path} {body : Body} {k : Except String Unit → Program Body α}
    {faults : Faults} (h : faults 0 = none) (s : Store Body) :
    putLog size (.put path body k) faults s =
      (path, body) :: putLog size (k (.ok ())) faults.next (s.insert path body) := by
  rw [putLog, if_pos h, answer_of_none h, effect_of_none h]
  rfl

theorem putLog_put_of_some {path : Path} {body : Body} {k : Except String Unit → Program Body α}
    {faults : Faults} {e : String} (h : faults 0 = some e) (s : Store Body) :
    putLog size (.put path body k) faults s = putLog size (k (.error e)) faults.next s := by
  rw [putLog, if_neg (by rw [h]; exact Option.some_ne_none e), answer_of_some h, effect_of_some h]
  rfl

/-- What the first part of a program puts comes first. -/
theorem putLog_bind (p : Program Body α) (f : α → Program Body β) (faults : Faults)
    (s : Store Body) : putLog size (p >>= f) faults s = putLog size p faults s ++
      match run size p faults s with
      | ⟨.ok a, s', faults'⟩ => putLog size (f a) faults' s'
      | ⟨.error _, _, _⟩ => [] := by
  change putLog size (p.bind f) faults s = _
  induction p generalizing faults s with
  | done a => rfl
  | fail e => rfl
  | get path k ih => exact ih _ _ _
  | bytes body k ih => exact ih _ _ _
  | put path body k ih =>
    rw [Program.bind, putLog, ih, ← List.append_assoc]
    rfl
  | delete path k ih => exact ih _ _ _
  | list pfx k ih => exact ih _ _ _

theorem putLog_bind_of_run {p : Program Body α} {f : α → Program Body β} {faults faults' : Faults}
    {s s' : Store Body} {a : α} (h : run size p faults s = ⟨.ok a, s', faults'⟩) :
    putLog size (p >>= f) faults s = putLog size p faults s ++ putLog size (f a) faults' s' := by
  rw [putLog_bind, h]

/-- A program whose puts all satisfy a property logs no other puts. -/
theorem forall_mem_putLog {P : Path → Body → Prop} {p : Program Body α} (hp : p.Puts P)
    {faults : Faults} {s : Store Body} : ∀ e ∈ putLog size p faults s, P e.1 e.2 := by
  induction p generalizing faults s with
  | done a => exact fun e he => absurd he List.not_mem_nil
  | fail e => exact fun e he => absurd he List.not_mem_nil
  | get path k ih => exact ih _ (hp _)
  | bytes body k ih => exact ih _ (hp _)
  | put path body k ih =>
    intro e he
    rcases List.mem_append.mp he with hhere | hlater
    · split_ifs at hhere
      · rw [List.mem_singleton.mp hhere]
        exact hp.1
      · exact absurd hhere List.not_mem_nil
    · exact ih _ (hp.2 _) e hlater
  | delete path k ih => exact ih _ (hp _)
  | list pfx k ih => exact ih _ (hp _)

end RustLake.ObjectStore
