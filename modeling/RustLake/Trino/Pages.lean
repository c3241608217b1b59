import RustLake.Json.Value

/-! The Trino REST client: a query is posted, and its result is read page by page along the
`nextUri` chain. The delays between polls are left out. -/
namespace RustLake.Trino
open RustLake.Json

/-- What comes back from one request: an error of the transport, or a response with its
status, its text and what parsing that as JSON gives. -/
inductive Reply where
  | sendError (e : String)
  | response (status : ℕ) (statusText text : String) (json : Except String Value)

/-- The replies to the posted query (number 0) and to the polls after it. -/
abbrev Server := ℕ → Reply

structure TrinoQueryResult where
  columns : List String
  columnTypes : List String
  rows : List (List Value)

def TrinoQueryResult.rowCount (result : TrinoQueryResult) : ℕ := result.rows.length

/-- The string fields of this name of the columns that a page describes. -/
def columnFields (cols : List Value) (key : String) : List String :=
  cols.filterMap fun c => (c.get key).bind Value.asStr

def pageColumns (body : Value) : Option (List Value) := (body.get "columns").bind Value.asArray

/-- The rows of a page. -/
def pageData (body : Value) : List (List Value) :=
  (((body.get "data").bind Value.asArray).getD []).filterMap Value.asArray

def nextUri (body : Value) : Option String := (body.get "nextUri").bind Value.asStr

def pageState (body : Value) : String :=
  (((body.get "stats").bind (·.get "state")).bind Value.asStr).getD ""

def errorMessage (body : Value) : String :=
  (((body.get "error").bind (·.get "message")).bind Value.asStr).getD "Unknown error"

def isSuccess (status : ℕ) : Bool := decide (200 ≤ status ∧ status < 300)

/-- Take the columns of a page that has some, and add its data. -/
def absorb (result : TrinoQueryResult) (body : Value) : TrinoQueryResult :=
  let rows := result.rows ++ pageData body
  match pageColumns body with
  | some cols => {
      columns := columnFields cols "name"
      columnTypes := columnFields cols "type"
      rows }
  | none => { result with rows }

/-- A later page is only asked for its columns while there are none. -/
def absorbPoll (result : TrinoQueryResult) (body : Value) : TrinoQueryResult :=
  if result.columns.isEmpty then absorb result body
  else { result with rows := result.rows ++ pageData body }

/-- The polling loop with a number of iterations left; `i` is the number of the next reply. -/
def pollLoop (server : Server) :
    ℕ → ℕ → TrinoQueryResult → Option String → Except Failure TrinoQueryResult
  | 0, _, result, _ => .ok result
  | _ + 1, _, result, none => .ok result
  | fuel + 1, i, result, some _ =>
    match server i with
    | .sendError e => .error (.error ("Poll: " ++ e))
    | .response _ _ _ (.error e) => .error (.error ("Poll parse: " ++ e))
    | .response _ _ _ (.ok body) =>
      let result := absorbPoll result body
      if pageState body = "FAILED" then
        .error (.error ("Trino query failed: " ++ errorMessage body))
      else if pageState body = "FINISHED" then .ok result
      else pollLoop server fuel (i + 1) result (nextUri body)

def maxPolls : ℕ := 200

def executeQuery (server : Server) : Except Failure TrinoQueryResult :=
  match server 0 with
  | .sendError e => .error (.error ("Trino query failed: " ++ e))
  | .response status statusText text json =>
    if isSuccess status then
      match json with
      | .error e => .error (.error ("Parse: " ++ e))
      | .ok body =>
        pollLoop server maxPolls 1 (absorb { columns := [], columnTypes := [], rows := [] } body)
          (nextUri body)
    else
      match sliceTo? text (min text.utf8ByteSize 500) with
      | some shown => .error (.error ("Trino HTTP " ++ statusText ++ ": " ++ shown))
      | none => .error .panic

end RustLake.Trino

/-! When the client's result is complete: what it reads of a chain of pages, and where it
stops reading. -/
namespace RustLake.Trino
open RustLake.Json

/-- The page that a reply holds. -/
def Reply.page : Reply → Option Value
  | .response _ _ _ (.ok body) => some body
  | _ => none

def hasError (body : Value) : Prop := ∃ e, body.get "error" = some e ∧ e ≠ .null

/-- The server says that the query failed: by an error status, by an error, or by its state. -/
def Reply.ReportsFailure : Reply → Prop
  | .sendError _ => False
  | .response status _ _ json => isSuccess status = false ∨
      ∃ body, json = .ok body ∧ (hasError body ∨ pageState body = "FAILED")

/-- The reply holds a page that names a next one. -/
def Reply.Continues (reply : Reply) : Prop :=
  ∃ body, reply.page = some body ∧ nextUri body ≠ none

def pageRows (server : Server) (i : ℕ) : List (List Value) :=
  (((server i).page).map pageData).getD []

/-- The data of the pages up to a number. -/
def rowsUpTo (server : Server) (n : ℕ) : List (List Value) :=
  (List.range (n + 1)).flatMap (pageRows server)

/-- Page `m` is the one without `nextUri`. -/
structure EndsAt (server : Server) (m : ℕ) : Prop where
  continues : ∀ j < m, (server j).Continues
  last : ∃ body, (server m).page = some body ∧ nextUri body = none

/-- A result has all pages, and a failure that the server reports on the chain is an `Err`. -/
structure Complete (server : Server) : Prop where
  rows : ∀ result, executeQuery server = .ok result →
    ∃ m, EndsAt server m ∧ result.rows = rowsUpTo server m
  failure : (∃ n, (∀ j < n, (server j).Continues) ∧ (server n).ReportsFailure) →
    ∃ message, executeQuery server = .error (.error message)

/-- What the client does after a reply. -/
inductive Verdict where
  | fails | panics | stops | proceeds
deriving DecidableEq, Repr

def firstVerdict : Reply → Verdict
  | .sendError _ => .fails
  | .response status _ text json =>
    if isSuccess status then
      match json with
      | .error _ => .fails
      | .ok body => if (nextUri body).isSome then .proceeds else .stops
    else if (sliceTo? text (min text.utf8ByteSize 500)).isSome then .fails else .panics

def pollVerdict : Reply → Verdict
  | .sendError _ => .fails
  | .response _ _ _ (.error _) => .fails
  | .response _ _ _ (.ok body) =>
    if pageState body = "FAILED" then .fails
    else if pageState body = "FINISHED" then .stops
    else if (nextUri body).isSome then .proceeds else .stops

def verdict (server : Server) : ℕ → Verdict
  | 0 => firstVerdict (server 0)
  | n + 1 => pollVerdict (server (n + 1))

/-- The last reply that the client looks at. -/
structure ClientStops (server : Server) (n : ℕ) : Prop where
  within : n ≤ maxPolls
  before : ∀ j < n, verdict server j = .proceeds
  here : n < maxPolls → verdict server n ≠ .proceeds

/-- What comes of a query whose last reply is this one. -/
def OutcomeAt (server : Server) (n : ℕ) (returned : Except Failure TrinoQueryResult) : Prop :=
  match verdict server n with
  | .fails => ∃ message, returned = .error (.error message)
  | .panics => returned = .error .panic
  | .stops => ∃ result, returned = .ok result ∧ result.rows = rowsUpTo server n
  | .proceeds => ∃ result, returned = .ok result ∧ result.rows = rowsUpTo server n

theorem ClientStops.unique {server : Server} {n n' : ℕ} (h : ClientStops server n)
    (h' : ClientStops server n') : n = n' := by
  rcases Nat.lt_trichotomy n n' with hlt | heq | hgt
  · exact absurd (h'.before n hlt) (h.here (by have := h'.within; omega))
  · exact heq
  · exact absurd (h.before n' hgt) (h'.here (by have := h.within; omega))

theorem rowsUpTo_succ (server : Server) (n : ℕ) :
    rowsUpTo server (n + 1) = rowsUpTo server n ++ pageRows server (n + 1) := by
  unfold rowsUpTo
  rw [List.range_succ, List.flatMap_append]
  simp

theorem absorb_rows (result : TrinoQueryResult) (body : Value) :
    (absorb result body).rows = result.rows ++ pageData body := by
  unfold absorb
  cases pageColumns body <;> rfl

theorem absorbPoll_rows (result : TrinoQueryResult) (body : Value) :
    (absorbPoll result body).rows = result.rows ++ pageData body := by
  unfold absorbPoll
  split
  · exact absorb_rows result body
  · rfl

/-- The loop after reply `n`, with `n` and the iterations left making up the bound. -/
theorem pollLoop_spec {server : Server} {fuel n : ℕ} {result : TrinoQueryResult}
    {next : Option String} (hfuel : n + fuel = maxPolls)
    (hbefore : ∀ j < n, verdict server j = .proceeds)
    (hverdict : verdict server n = if next.isSome then .proceeds else .stops)
    (hrows : result.rows = rowsUpTo server n) :
    ∃ k, ClientStops server k ∧ OutcomeAt server k (pollLoop server fuel (n + 1) result next) := by
  induction fuel generalizing n result next with
  | zero =>
    refine ⟨n, ⟨by omega, hbefore, fun h => by omega⟩, ?_⟩
    unfold OutcomeAt pollLoop
    rw [hverdict]
    cases next <;> exact ⟨result, rfl, hrows⟩
  | succ fuel ih =>
    cases next with
    | none =>
      have hstops : verdict server n = .stops := hverdict
      refine ⟨n, ⟨by omega, hbefore, fun _ => by simp [hstops]⟩, ?_⟩
      unfold OutcomeAt pollLoop
      rw [hstops]
      exact ⟨result, rfl, hrows⟩
    | some uri =>
      have hproceeds : ∀ j < n + 1, verdict server j = .proceeds := by
        intro j hj
        rcases Nat.lt_succ_iff_lt_or_eq.mp hj with hlt | rfl
        · exact hbefore j hlt
        · exact hverdict
      have hstop : verdict server (n + 1) ≠ .proceeds → ClientStops server (n + 1) :=
        fun h => ⟨by omega, hproceeds, fun _ => h⟩
      have hfail : ∀ message, verdict server (n + 1) = .fails →
          OutcomeAt server (n + 1) (.error (.error message)) := by
        intro message hv
        unfold OutcomeAt
        rw [hv]
        exact ⟨message, rfl⟩
      unfold pollLoop
      cases hreply : server (n + 1) with
      | sendError e =>
        have hv : verdict server (n + 1) = .fails := by simp [verdict, hreply, pollVerdict]
        exact ⟨n + 1, hstop (by simp [hv]), hfail _ hv⟩
      | response status statusText text json =>
        cases json with
        | error e =>
          have hv : verdict server (n + 1) = .fails := by simp [verdict, hreply, pollVerdict]
          exact ⟨n + 1, hstop (by simp [hv]), hfail _ hv⟩
        | ok body =>
          have hall : (absorbPoll result body).rows = rowsUpTo server (n + 1) := by
            have hpage : pageRows server (n + 1) = pageData body := by
              simp [pageRows, hreply, Reply.page]
            rw [absorbPoll_rows, hrows, rowsUpTo_succ, hpage]
          dsimp only
          split_ifs with hfailed hfinished
          · have hv : verdict server (n + 1) = .fails := by
              simp [verdict, hreply, pollVerdict, hfailed]
            exact ⟨n + 1, hstop (by simp [hv]), hfail _ hv⟩
          · have hv : verdict server (n + 1) = .stops := by
              simp [verdict, hreply, pollVerdict, hfinished]
            refine ⟨n + 1, hstop (by simp [hv]), ?_⟩
            unfold OutcomeAt
            rw [hv]
            exact ⟨_, rfl, hall⟩
          · have hv : verdict server (n + 1) =
                if (nextUri body).isSome then .proceeds else .stops := by
              simp [verdict, hreply, pollVerdict, hfailed, hfinished]
            exact ih (by omega) hproceeds hv hall

/-- A query ends at the reply where the client stops, as its verdict there says. -/
theorem executeQuery_spec (server : Server) :
    ∃ n, ClientStops server n ∧ OutcomeAt server n (executeQuery server) := by
  have hstop : verdict server 0 ≠ .proceeds → ClientStops server 0 :=
    fun h => ⟨Nat.zero_le _, fun j hj => by omega, fun _ => h⟩
  unfold executeQuery
  cases hreply : server 0 with
  | sendError e =>
    have hv : verdict server 0 = .fails := by simp [verdict, hreply, firstVerdict]
    refine ⟨0, hstop (by simp [hv]), ?_⟩
    unfold OutcomeAt
    rw [hv]
    exact ⟨_, rfl⟩
  | response status statusText text json =>
    dsimp only
    split_ifs with hstatus
    · cases json with
      | error e =>
        have hv : verdict server 0 = .fails := by
          simp [verdict, hreply, firstVerdict, hstatus]
        refine ⟨0, hstop (by simp [hv]), ?_⟩
        unfold OutcomeAt
        rw [hv]
        exact ⟨_, rfl⟩
      | ok body =>
        have hv : verdict server 0 = if (nextUri body).isSome then .proceeds else .stops := by
          simp [verdict, hreply, firstVerdict, hstatus]
        have hrows : (absorb { columns := [], columnTypes := [], rows := [] } body).rows =
            rowsUpTo server 0 := by
          simp [absorb_rows, rowsUpTo, pageRows, hreply, Reply.page]
        exact pollLoop_spec (Nat.zero_add _) (fun j hj => by omega) hv hrows
    · cases hslice : sliceTo? text (min text.utf8ByteSize 500) with
      | some shown =>
        have hv : verdict server 0 = .fails := by
          simp [verdict, hreply, firstVerdict, hstatus, hslice]
        refine ⟨0, hstop (by simp [hv]), ?_⟩
        unfold OutcomeAt
        rw [hv]
        exact ⟨_, rfl⟩
      | none =>
        have hv : verdict server 0 = .panics := by
          simp [verdict, hreply, firstVerdict, hstatus, hslice]
        refine ⟨0, hstop (by simp [hv]), ?_⟩
        unfold OutcomeAt
        rw [hv]

theorem continues_of_firstVerdict {reply : Reply} (h : firstVerdict reply = .proceeds) :
    reply.Continues := by
  cases reply with
  | sendError e => cases h
  | response status statusText text json =>
    unfold firstVerdict at h
    dsimp only at h
    split_ifs at h
    cases json with
    | error e => cases h
    | ok body =>
      dsimp only at h
      split_ifs at h with hnext
      exact ⟨body, rfl, fun hnone => by simp [hnone] at hnext⟩

theorem continues_of_pollVerdict {reply : Reply} (h : pollVerdict reply = .proceeds) :
    reply.Continues := by
  cases reply with
  | sendError e => cases h
  | response status statusText text json =>
    cases json with
    | error e => cases h
    | ok body =>
      unfold pollVerdict at h
      dsimp only at h
      split_ifs at h with hfailed hfinished hnext
      exact ⟨body, rfl, fun hnone => by simp [hnone] at hnext⟩

theorem continues_of_proceeds {server : Server} {j : ℕ} (h : verdict server j = .proceeds) :
    (server j).Continues := by
  cases j with
  | zero => exact continues_of_firstVerdict h
  | succ j => exact continues_of_pollVerdict h

theorem reportsFailure_of_firstVerdict {reply : Reply} (h : firstVerdict reply = .panics) :
    reply.ReportsFailure := by
  cases reply with
  | sendError e => cases h
  | response status statusText text json =>
    cases hstatus : isSuccess status with
    | false => exact Or.inl hstatus
    | true =>
      unfold firstVerdict at h
      simp only [hstatus, ↓reduceIte] at h
      cases json with
      | error e => cases h
      | ok body => dsimp only at h; split_ifs at h

theorem pollVerdict_ne_panics (reply : Reply) : pollVerdict reply ≠ .panics := by
  intro h
  cases reply with
  | sendError e => cases h
  | response status statusText text json =>
    cases json with
    | error e => cases h
    | ok body =>
      unfold pollVerdict at h
      dsimp only at h
      split_ifs at h

/-- Only an error status of the first reply can end in a panic. -/
theorem reportsFailure_of_panics {server : Server} {n : ℕ} (h : verdict server n = .panics) :
    n = 0 ∧ (server 0).ReportsFailure := by
  cases n with
  | zero => exact ⟨rfl, reportsFailure_of_firstVerdict h⟩
  | succ n => exact absurd h (pollVerdict_ne_panics _)

theorem EndsAt.not_continues {server : Server} {m : ℕ} (hend : EndsAt server m) :
    ¬ (server m).Continues := by
  rintro ⟨body, hpage, hnext⟩
  obtain ⟨last, hlast, hnone⟩ := hend.last
  obtain rfl : body = last := Option.some.inj (hpage.symm.trans hlast)
  exact hnext hnone

theorem EndsAt.unique {server : Server} {m m' : ℕ} (h : EndsAt server m)
    (h' : EndsAt server m') : m = m' := by
  rcases Nat.lt_trichotomy m m' with hlt | heq | hgt
  · exact absurd (h'.continues m hlt) h.not_continues
  · exact heq
  · exact absurd (h.continues m' hgt) h'.not_continues

/-- The client does not stop behind the end of the chain. -/
theorem ClientStops.le_end {server : Server} {n m : ℕ} (h : ClientStops server n)
    (hend : EndsAt server m) : n ≤ m := by
  by_contra hlt
  exact hend.not_continues (continues_of_proceeds (h.before m (by omega)))

/-- Later pages add nothing exactly when they have no data. -/
theorem rowsUpTo_eq_iff (server : Server) {n m : ℕ} (h : n ≤ m) :
    rowsUpTo server n = rowsUpTo server m ↔
      ∀ j, n < j → j ≤ m → pageRows server j = [] := by
  induction m, h using Nat.le_induction with
  | base => exact iff_of_true rfl fun j hn hm => by omega
  | succ m hnm ih =>
    have hgrow : ∀ k, n ≤ k → (rowsUpTo server n).length ≤ (rowsUpTo server k).length := by
      intro k hk
      induction k, hk using Nat.le_induction with
      | base => exact Nat.le_refl _
      | succ k _ ihk =>
        rw [rowsUpTo_succ, List.length_append]
        omega
    constructor
    · intro heq
      have hlen := congrArg List.length heq
      rw [rowsUpTo_succ, List.length_append] at hlen
      have hle := hgrow m hnm
      have hlast : pageRows server (m + 1) = [] := List.length_eq_zero_iff.mp (by omega)
      rw [rowsUpTo_succ, hlast, List.append_nil] at heq
      intro j hn hj
      rcases Nat.le_succ_iff.mp hj with hjm | rfl
      · exact ih.mp heq j hn hjm
      · exact hlast
    · intro hempty
      have hlast := hempty (m + 1) (by omega) (Nat.le_refl _)
      rw [rowsUpTo_succ, hlast, List.append_nil]
      exact ih.mpr fun j hn hj => hempty j hn (by omega)

/-- On a chain that ends at a page, a reported failure is on a page up to it. -/
theorem EndsAt.reportsFailure_iff {server : Server} {m : ℕ} (hend : EndsAt server m) :
    (∃ n, (∀ j < n, (server j).Continues) ∧ (server n).ReportsFailure) ↔
      ∃ n ≤ m, (server n).ReportsFailure := by
  constructor
  · rintro ⟨n, hbefore, hreports⟩
    refine ⟨n, ?_, hreports⟩
    by_contra hlt
    exact hend.not_continues (hbefore m (by omega))
  · rintro ⟨n, hn, hreports⟩
    exact ⟨n, fun j hj => hend.continues j (by omega), hreports⟩

/-- The replies for which the client's result is complete: it stops at a failure that it
sees, or the chain ends, without a failure on it, at a page before which only pages without
data are left unread. -/
def Covered (server : Server) : Prop :=
  ∃ n, ClientStops server n ∧ (verdict server n = .fails ∨
    verdict server n ≠ .panics ∧ ∃ m, EndsAt server m ∧
      (∀ j ≤ m, ¬ (server j).ReportsFailure) ∧ ∀ j, n < j → j ≤ m → pageRows server j = [])

/-- A query that returns `Ok` is complete exactly when its result is that of the chain. -/
theorem complete_iff_of_ok {server : Server} {n : ℕ} (hstop : ClientStops server n)
    {result : TrinoQueryResult} (hok : executeQuery server = .ok result)
    (hrows : result.rows = rowsUpTo server n) :
    Complete server ↔ ∃ m, EndsAt server m ∧ (∀ j ≤ m, ¬ (server j).ReportsFailure) ∧
      ∀ j, n < j → j ≤ m → pageRows server j = [] := by
  constructor
  · intro h
    obtain ⟨m, hend, hall⟩ := h.rows result hok
    refine ⟨m, hend, fun j hj hreports => ?_, ?_⟩
    · obtain ⟨message, herr⟩ := h.failure (hend.reportsFailure_iff.mpr ⟨j, hj, hreports⟩)
      rw [hok] at herr
      cases herr
    · exact (rowsUpTo_eq_iff server (hstop.le_end hend)).mp (hrows.symm.trans hall)
  · rintro ⟨m, hend, hclean, hempty⟩
    refine ⟨fun other hother => ?_, fun hreports => ?_⟩
    · obtain rfl : result = other := Except.ok.inj (hok.symm.trans hother)
      exact ⟨m, hend, hrows.trans ((rowsUpTo_eq_iff server (hstop.le_end hend)).mpr hempty)⟩
    · obtain ⟨j, hj, hreport⟩ := hend.reportsFailure_iff.mp hreports
      exact absurd hreport (hclean j hj)

/-- The result of a query is complete, and reported failures are errors, exactly for the
covered replies. -/
theorem complete_iff_covered (server : Server) : Complete server ↔ Covered server := by
  obtain ⟨n, hstop, hout⟩ := executeQuery_spec server
  have hcovered : Covered server ↔ verdict server n = .fails ∨
      verdict server n ≠ .panics ∧ ∃ m, EndsAt server m ∧
        (∀ j ≤ m, ¬ (server j).ReportsFailure) ∧
          ∀ j, n < j → j ≤ m → pageRows server j = [] := by
    constructor
    · rintro ⟨n', hstop', h⟩
      obtain rfl := hstop.unique hstop'
      exact h
    · exact fun h => ⟨n, hstop, h⟩
  rw [hcovered]
  unfold OutcomeAt at hout
  cases hv : verdict server n with
  | fails =>
    rw [hv] at hout
    obtain ⟨message, herr⟩ := hout
    refine iff_of_true ⟨fun result hok => ?_, fun _ => ⟨message, herr⟩⟩ (Or.inl rfl)
    rw [herr] at hok
    cases hok
  | panics =>
    rw [hv] at hout
    obtain ⟨rfl, hreports⟩ := reportsFailure_of_panics hv
    refine iff_of_false (fun h => ?_) (by simp)
    obtain ⟨message, herr⟩ := h.failure ⟨0, fun j hj => by omega, hreports⟩
    rw [hout] at herr
    cases herr
  | stops =>
    rw [hv] at hout
    obtain ⟨result, hok, hrows⟩ := hout
    rw [complete_iff_of_ok hstop hok hrows]
    simp
  | proceeds =>
    rw [hv] at hout
    obtain ⟨result, hok, hrows⟩ := hout
    rw [complete_iff_of_ok hstop hok hrows]
    simp

/-- A server that reports an error in its first response. -/
def failedAtOnce : Server := fun _ =>
  .response 200 "200 OK" "" (.ok (.obj [
    ("id", .str "20240501_000000_00000_aaaaa"),
    ("stats", .obj [("state", .str "FAILED")]),
    ("error", .obj [("message", .str "line 1:15: Table 'lake.db.orders' does not exist")])]))

/-- A server that reports the state `FINISHED` before its last page. -/
def finishedEarly : Server
  | 0 => .response 200 "200 OK" "" (.ok (.obj [("nextUri", .str "http://trino/1")]))
  | 1 => .response 200 "200 OK" "" (.ok (.obj [
      ("nextUri", .str "http://trino/2"),
      ("stats", .obj [("state", .str "FINISHED")]),
      ("data", .arr [.arr [.num 1]])]))
  | _ => .response 200 "200 OK" "" (.ok (.obj [
      ("stats", .obj [("state", .str "FINISHED")]),
      ("data", .arr [.arr [.num 2]])]))

/-- The first query is answered as if it had no rows; the second loses its last row. -/
theorem not_complete_early :
    (∃ result, executeQuery failedAtOnce = .ok result ∧ result.rows = []) ∧
    ¬ Complete failedAtOnce ∧
    (∃ result, executeQuery finishedEarly = .ok result ∧ result.rows = [[.num 1]]) ∧
    EndsAt finishedEarly 2 ∧ rowsUpTo finishedEarly 2 = [[.num 1], [.num 2]] ∧
    ¬ Complete finishedEarly := by
  have hfailed : ∃ result, executeQuery failedAtOnce = .ok result ∧ result.rows = [] :=
    ⟨_, rfl, rfl⟩
  have hearly : ∃ result, executeQuery finishedEarly = .ok result ∧
      result.rows = [[.num 1]] := ⟨_, rfl, rfl⟩
  have hend : EndsAt finishedEarly 2 := by
    refine ⟨fun j hj => ?_, _, rfl, rfl⟩
    obtain rfl | rfl : j = 0 ∨ j = 1 := by omega
    · exact ⟨_, rfl, by decide⟩
    · exact ⟨_, rfl, by decide⟩
  have hall : rowsUpTo finishedEarly 2 = [[.num 1], [.num 2]] := by rfl
  refine ⟨hfailed, fun h => ?_, hearly, hend, hall, fun h => ?_⟩
  · have hreports : (failedAtOnce 0).ReportsFailure :=
      Or.inr ⟨_, rfl, Or.inr (by decide)⟩
    obtain ⟨result, hok, -⟩ := hfailed
    obtain ⟨message, herr⟩ := h.failure ⟨0, fun j hj => by omega, hreports⟩
    rw [hok] at herr
    cases herr
  · obtain ⟨result, hok, hrows⟩ := hearly
    obtain ⟨m, hend', hsame⟩ := h.rows result hok
    obtain rfl := hend.unique hend'
    rw [hrows, hall] at hsame
    exact absurd (congrArg List.length hsame) (by decide)

end RustLake.Trino
