import RustLake.Rust.Basic

/-! JSON documents with the accessors the metadata code reads them with, and the
in-place updates it makes to a clone. -/
namespace RustLake.Json

inductive Value where
  | null
  | bool (b : Bool)
  | num (n : ℤ)
  /-- A number that is no `i64` or `u64`, kept by its text. -/
  | float (text : String)
  | str (s : String)
  | arr (items : List Value)
  | obj (fields : List (String × Value))

/-- `==` of two documents. Objects are compared by key. -/
inductive Value.Same : Value → Value → Prop where
  | null : Same .null .null
  | bool (b : Bool) : Same (.bool b) (.bool b)
  | num (n : ℤ) : Same (.num n) (.num n)
  | float (text : String) : Same (.float text) (.float text)
  | str (s : String) : Same (.str s) (.str s)
  | arr {items items' : List Value} (hlength : items.length = items'.length)
      (h : ∀ (i : ℕ) v v', items[i]? = some v → items'[i]? = some v' → Same v v') :
      Same (.arr items) (.arr items')
  | obj {fields fields' : List (String × Value)}
      (hkeys : ∀ key, (fields.lookup key).isSome = (fields'.lookup key).isSome)
      (h : ∀ key v v', fields.lookup key = some v → fields'.lookup key = some v' → Same v v') :
      Same (.obj fields) (.obj fields')

/-- `json!(n)` for an `i64`. -/
def Value.ofI64 (n : Int64) : Value := .num n.toInt

/-- `json!(n)` for an `i32`. -/
def Value.ofI32 (n : Int32) : Value := .num n.toInt

/-- `json!(n)` for a `u64` or a `usize`. -/
def Value.ofU64 (n : UInt64) : Value := .num n.toNat

def Value.get (v : Value) (key : String) : Option Value :=
  match v with
  | .obj fields => fields.lookup key
  | _ => none

def Value.asI64 : Value → Option Int64
  | .num n => if -2 ^ 63 ≤ n ∧ n < 2 ^ 63 then some (Int64.ofInt n) else none
  | _ => none

def Value.asU64 : Value → Option UInt64
  | .num n => if 0 ≤ n ∧ n < 2 ^ 64 then some (UInt64.ofNat n.toNat) else none
  | _ => none

def Value.asStr : Value → Option String
  | .str s => some s
  | _ => none

def Value.asBool : Value → Option Bool
  | .bool b => some b
  | _ => none

def Value.asArray : Value → Option (List Value)
  | .arr items => some items
  | _ => none

def Value.asObject : Value → Option (List (String × Value))
  | .obj fields => some fields
  | _ => none

/-- `json!(v as i64) as i32`: the low 32 bits. -/
def asI32 (n : Int64) : Int32 := n.toInt32

@[simp] theorem asI64_ofI64 (n : Int64) : (Value.ofI64 n).asI64 = some n := by
  have hlo := n.le_toInt
  have hhi := n.toInt_lt
  simp only [Value.ofI64, Value.asI64]
  rw [if_pos ⟨by simpa using hlo, by simpa using hhi⟩, Int64.ofInt_toInt]

theorem asI64_ofI32 (n : Int32) : (Value.ofI32 n).asI64 = some n.toInt64 := by
  have hlo := n.le_toInt
  have hhi := n.toInt_lt
  simp only [Value.ofI32, Value.asI64]
  rw [if_pos ⟨by omega, by omega⟩, ← Int32.toInt_toInt64, Int64.ofInt_toInt]

@[simp] theorem asI32_toInt64 (n : Int32) : asI32 n.toInt64 = n := Int32.toInt32_toInt64 n

/-- The entry list with one key's value replaced, or the entry added. -/
def setField (key : String) (x : Value) : List (String × Value) → List (String × Value)
  | [] => [(key, x)]
  | (k, v) :: rest => if key = k then (k, x) :: rest else (k, v) :: setField key x rest

/-- `v[key] = x`. Indexing anything but an object (or null, which becomes one) panics. -/
def Value.set (v : Value) (key : String) (x : Value) : Option Value :=
  match v with
  | .obj fields => some (.obj (setField key x fields))
  | .null => some (.obj [(key, x)])
  | _ => none

def mapField (key : String) (f : Value → Value) : List (String × Value) → List (String × Value)
  | [] => []
  | (k, v) :: rest => if key = k then (k, f v) :: rest else (k, v) :: mapField key f rest

def Value.onArray (f : List Value → List Value) : Value → Value
  | .arr items => .arr (f items)
  | v => v

/-- `if let Some(xs) = v.get_mut(key).and_then(|x| x.as_array_mut()) { .. }`. -/
def Value.mapArray (v : Value) (key : String) (f : List Value → List Value) : Value :=
  match v with
  | .obj fields => .obj (mapField key (Value.onArray f) fields)
  | _ => v

theorem lookup_setField_self (key : String) (x : Value) (fields : List (String × Value)) :
    (setField key x fields).lookup key = some x := by
  induction fields with
  | nil => simp [setField]
  | cons e rest ih =>
    obtain ⟨k, v⟩ := e
    by_cases h : key = k
    · simp [setField, h]
    · have hb : (key == k) = false := by simpa using h
      simp [setField, h, List.lookup_cons, hb, ih]

theorem lookup_setField_ne {key other : String} (h : other ≠ key) (x : Value)
    (fields : List (String × Value)) :
    (setField key x fields).lookup other = fields.lookup other := by
  have hb : (other == key) = false := by simpa using h
  induction fields with
  | nil => simp [setField, List.lookup_cons, hb]
  | cons e rest ih =>
    obtain ⟨k, v⟩ := e
    by_cases hk : key = k
    · subst hk
      simp [setField, List.lookup_cons, hb]
    · simp [setField, hk, List.lookup_cons, ih]

theorem get_set_self {v w : Value} {key : String} {x : Value} (h : v.set key x = some w) :
    w.get key = some x := by
  cases v <;> simp only [Value.set, Option.some.injEq, reduceCtorEq] at h <;> subst h
  · simp [Value.get]
  · exact lookup_setField_self key x _

theorem get_set_ne {v w : Value} {key other : String} {x : Value} (hne : other ≠ key)
    (h : v.set key x = some w) : w.get other = v.get other := by
  cases v <;> simp only [Value.set, Option.some.injEq, reduceCtorEq] at h <;> subst h
  · have hb : (other == key) = false := by simpa using hne
    simp [Value.get, List.lookup_cons, hb]
  · exact lookup_setField_ne hne x _

theorem lookup_mapField_self (key : String) (f : Value → Value)
    (fields : List (String × Value)) :
    (mapField key f fields).lookup key = (fields.lookup key).map f := by
  induction fields with
  | nil => rfl
  | cons e rest ih =>
    obtain ⟨k, v⟩ := e
    by_cases h : key = k
    · simp [mapField, h]
    · have hb : (key == k) = false := by simpa using h
      simp [mapField, h, List.lookup_cons, hb, ih]

theorem lookup_mapField_ne {key other : String} (h : other ≠ key) (f : Value → Value)
    (fields : List (String × Value)) :
    (mapField key f fields).lookup other = fields.lookup other := by
  have hb : (other == key) = false := by simpa using h
  induction fields with
  | nil => rfl
  | cons e rest ih =>
    obtain ⟨k, v⟩ := e
    by_cases hk : key = k
    · subst hk
      simp [mapField, List.lookup_cons, hb]
    · simp [mapField, hk, List.lookup_cons, ih]

@[simp] theorem get_mapArray_self (v : Value) (key : String) (f : List Value → List Value) :
    (v.mapArray key f).get key = (v.get key).map (Value.onArray f) := by
  cases v <;> simp [Value.mapArray, Value.get, lookup_mapField_self]

theorem get_mapArray_ne {key other : String} (h : other ≠ key) (v : Value)
    (f : List Value → List Value) : (v.mapArray key f).get other = v.get other := by
  cases v <;> simp [Value.mapArray, Value.get, lookup_mapField_ne h]

end RustLake.Json
