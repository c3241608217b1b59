import RustLake.ObjectStore.Program

/-! Programs over a store that others use too: taken call by call, and with at most one put under
the keys that matter. -/
namespace RustLake.ObjectStore
variable {Body α β : Type}

section Step
variable (size : Body → ℕ)

/-- The next call of a program, which fails with the given text or goes through. -/
def Program.step (fault : Option String) (s : Store Body) :
    Program Body α → Option (Program Body α × Store Body)
  | .done _ => none
  | .fail _ => none
  | .get path k => some (k (answer (fun _ => fault) (s.found path)), s)
  | .bytes body k => some (k (answer (fun _ => fault) (.ok body)), s)
  | .put path body k =>
    some (k (answer (fun _ => fault) (.ok ())), effect (fun _ => fault) s (s.insert path body))
  | .delete path k =>
    some (k (answer (fun _ => fault) (.ok ())), effect (fun _ => fault) s (s.erase path))
  | .list pfx k =>
    let metas := (s.listing pfx).map fun key => ⟨key, ((s.lookup key).map size).getD 0⟩
    some (k (answer (fun _ => fault) (.ok metas)), s)

/-- Calls that go through, one after the other. -/
inductive Program.Steps : Program Body α → Store Body → Program Body α → Store Body → Prop
  | refl {p : Program Body α} {s : Store Body} : Steps p s p s
  | step {p p' q : Program Body α} {s s' t : Store Body} : p.step size none s = some (p', s') →
      Steps p' s' q t → Steps p s q t

/-- A run without faults takes all calls of a program. -/
theorem Program.steps_of_run {p : Program Body α} {s t : Store Body} {a : α} {faults : Faults}
    (h : run size p noFaults s = ⟨.ok a, t, faults⟩) : Steps size p s (.done a) t := by
  induction p generalizing s with
  | done b =>
    cases h
    exact .refl
  | fail e => cases h
  | get path k ih => exact .step rfl (ih _ h)
  | bytes body k ih => exact .step rfl (ih _ h)
  | put path body k ih => exact .step rfl (ih _ h)
  | delete path k ih => exact .step rfl (ih _ h)
  | list pfx k ih => exact .step rfl (ih _ h)

end Step

/-- The program puts under the keys that matter at most once, and then what `P` allows. It deletes
none of them, and it succeeds with a value that matters exactly when the put went through. -/
def Program.PutsOnce (named : Path → Prop) (P : Path → Body → Prop) (matters : α → Prop) :
    Bool → Program Body α → Prop
  | did, .done a => did = true ↔ matters a
  | did, .fail _ => did = false
  | did, .get _ k => ∀ r, PutsOnce named P matters did (k r)
  | did, .bytes _ k => ∀ r, PutsOnce named P matters did (k r)
  | did, .list _ k => ∀ r, PutsOnce named P matters did (k r)
  | did, .delete path k => ¬ named path ∧ ∀ r, PutsOnce named P matters did (k r)
  | did, .put path body k =>
    (¬ named path ∧ ∀ r, PutsOnce named P matters did (k r)) ∨
      (named path ∧ did = false ∧ P path body ∧ PutsOnce named P matters true (k (.ok ())) ∧
        ∀ e, PutsOnce named P matters false (k (.error e)))

section PutsOnce
variable {named : Path → Prop} {P : Path → Body → Prop} {matters : β → Prop}

/-- A first part that puts nothing that matters. -/
theorem Program.PutsOnce.bind {p : Program Body α} {f : α → Program Body β}
    (hp : p.Touches fun path => ¬ named path) (hf : ∀ a, (f a).PutsOnce named P matters false) :
    (p >>= f).PutsOnce named P matters false := by
  change (p.bind f).PutsOnce named P matters false
  induction p with
  | done a => exact hf a
  | fail e => exact rfl
  | get path k ih => exact fun r => ih r (hp r)
  | bytes body k ih => exact fun r => ih r (hp r)
  | put path body k ih => exact Or.inl ⟨hp.1, fun r => ih r (hp.2 r)⟩
  | delete path k ih => exact ⟨hp.1, fun r => ih r (hp.2 r)⟩
  | list pfx k ih => exact fun r => ih r (hp r)

/-- What is made of the value at the end. -/
theorem Program.PutsOnce.map {p : Program Body α} {f : α → β} {did : Bool}
    (h : p.PutsOnce named P (fun a => matters (f a)) did) :
    (p >>= fun a => pure (f a)).PutsOnce named P matters did := by
  change (p.bind fun a => .done (f a)).PutsOnce named P matters did
  induction p generalizing did with
  | done a => exact h
  | fail e => exact h
  | get path k ih => exact fun r => ih r (h r)
  | bytes body k ih => exact fun r => ih r (h r)
  | list pfx k ih => exact fun r => ih r (h r)
  | delete path k ih => exact ⟨h.1, fun r => ih r (h.2 r)⟩
  | put path body k ih =>
    rcases h with ⟨hname, h⟩ | ⟨hname, hdid, hP, hok, herror⟩
    · exact Or.inl ⟨hname, fun r => ih r (h r)⟩
    · exact Or.inr ⟨hname, hdid, hP, ih _ hok, fun e => ih _ (herror e)⟩

theorem Program.PutsOnce.orPanic_bind {o : Option α} {f : α → Program Body β}
    (h : ∀ a, o = some a → (f a).PutsOnce named P matters false) :
    (Program.orPanic o >>= f).PutsOnce named P matters false := by
  cases o with
  | none => exact rfl
  | some a => exact h a rfl

theorem Program.PutsOnce.orFail_bind {message : String → String} {r : Except String α}
    {f : α → Program Body β} (h : ∀ a, r = .ok a → (f a).PutsOnce named P matters false) :
    (Program.orFail message r >>= f).PutsOnce named P matters false := by
  cases r with
  | error e => exact rfl
  | ok a => exact h a rfl

/-- A call that goes through leaves a program that has put, or has still to put, at most once; it
changes nothing that matters unless it is the put. -/
theorem Program.PutsOnce.step {size : Body → ℕ} {did : Bool} {p p' : Program Body β}
    (h : p.PutsOnce named P matters did) {fault : Option String} {s s' : Store Body}
    (hstep : p.step size fault s = some (p', s')) :
    (p'.PutsOnce named P matters did ∧ ∀ key, named key → s'.lookup key = s.lookup key) ∨
      ∃ path body k, p = .put path body k ∧ fault = none ∧ named path ∧ did = false ∧
        P path body ∧ s' = s.insert path body ∧ p'.PutsOnce named P matters true := by
  cases p with
  | done a => cases hstep
  | fail e => cases hstep
  | get path k => cases hstep; exact Or.inl ⟨h _, fun _ _ => rfl⟩
  | bytes body k => cases hstep; exact Or.inl ⟨h _, fun _ _ => rfl⟩
  | list pfx k => cases hstep; exact Or.inl ⟨h _, fun _ _ => rfl⟩
  | delete path k =>
    cases hstep
    refine Or.inl ⟨h.2 _, fun key hkey => effect_lookup_ne (AList.lookup_erase_ne ?_)⟩
    rintro rfl
    exact h.1 hkey
  | put path body k =>
    cases hstep
    rcases h with ⟨hname, h⟩ | ⟨hname, rfl, hP, hok, herror⟩
    · refine Or.inl ⟨h _, fun key hkey => effect_lookup_ne (AList.lookup_insert_ne ?_)⟩
      rintro rfl
      exact hname hkey
    · cases fault with
      | none => exact Or.inr ⟨path, body, k, rfl, rfl, hname, rfl, hP, rfl, hok⟩
      | some e => exact Or.inl ⟨herror e, fun _ _ => rfl⟩

end PutsOnce
end RustLake.ObjectStore
