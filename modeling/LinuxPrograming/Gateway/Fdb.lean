import LinuxPrograming.Lib.Bytes
import Mathlib.Algebra.Field.Rat

/-!
# `fdb.c`: the cached insert statement

`fdb_data_insert` keeps one prepared statement for all its calls and resets it at the
start of the next one.  Whether `sqlite3_prepare_v2` and `sqlite3_step` succeed is an
argument of every call; the statement itself follows SQLite's rules.
-/

namespace LinuxPrograming
namespace Gateway

open Lib

/-- A value bound to a parameter of a statement, or stored in a column. -/
inductive SqlValue where
  | null
  | int (n : Int)
  | double (x : ℚ)
  | text (s : Bytes)
  deriving DecidableEq

/-- `SQLITE_DONE`, `SQLITE_ROW`, `SQLITE_MISUSE`, and the other results of `sqlite3_step`. -/
inductive StepResult where
  | done
  | row
  | misuse
  | error
  deriving DecidableEq, Repr

/-- The columns `sensor_id`, `temperature` and `ts` of a row. -/
abbrev Row := List SqlValue

/-! ## A prepared statement -/

/-- `sqlite3_stmt`: the values of its parameters, and whether it was stepped and not reset. -/
structure SqliteStmt where
  params : Nat → SqlValue
  stepped : Bool

namespace SqliteStmt

def prepared : SqliteStmt := ⟨fun _ => .null, false⟩

/-- `sqlite3_reset`. -/
def reset (stmt : SqliteStmt) : SqliteStmt := { stmt with stepped := false }

/-- `sqlite3_clear_bindings`. -/
def clearBindings (stmt : SqliteStmt) : SqliteStmt := { stmt with params := fun _ => .null }

/-- `sqlite3_bind_*`.  A statement that was stepped and not reset keeps its parameters. -/
def bind (stmt : SqliteStmt) (i : Nat) (v : SqlValue) : SqliteStmt :=
  if stmt.stepped then stmt
  else { stmt with params := fun j => if j = i then v else stmt.params j }

/-- The row of `VALUES (?, ?, ?)`. -/
def row (stmt : SqliteStmt) : Row := [stmt.params 1, stmt.params 2, stmt.params 3]

end SqliteStmt

/-! ## The functions of `fdb.c` -/

/-- The rows of the sensor table that a connection works on. -/
structure Sqlite3 where
  rows : List Row

/-- `fdb_t`. -/
structure Fdb where
  db : Sqlite3
  stmt : Nat → Option SqliteStmt

/-- `fdb_stmt`. -/
def fdbStmtDataInsert : Nat := 0

def fdbStmtSize : Nat := 3

/-- `fdb_init(db)`. -/
def fdbInit (db : Sqlite3) : Fdb := ⟨db, fun _ => none⟩

def Fdb.setStmt (fdb : Fdb) (index : Nat) (stmt : Option SqliteStmt) : Fdb :=
  { fdb with stmt := fun i => if i = index then stmt else fdb.stmt i }

/-- `fdb_stmt_cache(fdb, index)`. -/
def fdbStmtCache (fdb : Fdb) (index : Nat) (prepare : Bool) : Fdb × Int :=
  if index ≥ fdbStmtSize then (fdb, -1)
  else
    match fdb.stmt index with
    | none =>
      if prepare then (fdb.setStmt index (some .prepared), 0)
      else (fdb.setStmt index none, -1)
    | some stmt => (fdb.setStmt index (some stmt.reset.clearBindings), 0)

/-- `sqlite3_step` on the insert statement. -/
def stepInsert (fdb : Fdb) (stmt : SqliteStmt) (result : StepResult) : Fdb :=
  let fdb := fdb.setStmt fdbStmtDataInsert (some { stmt with stepped := true })
  if result = .done then { fdb with db := ⟨fdb.db.rows ++ [stmt.row]⟩ } else fdb

/-- A call of `fdb_data_insert`, with what `sqlite3_prepare_v2` and `sqlite3_step` answer. -/
structure InsertCall where
  sid : Int
  temp : ℚ
  ts : Bytes
  prepare : Bool
  step : StepResult

/-- `fdb_data_insert(fdb, SID, temp, ts)`. -/
def fdbDataInsert (fdb : Fdb) (c : InsertCall) : Fdb × Int :=
  let (fdb, code) := fdbStmtCache fdb fdbStmtDataInsert c.prepare
  if code < 0 then (fdb, -1)
  else
    match fdb.stmt fdbStmtDataInsert with
    -- Every call on a NULL statement is `SQLITE_MISUSE`.
    | none => (fdb, -1)
    | some stmt =>
      let stmt := stmt.bind 1 (.int c.sid)
      let stmt := stmt.bind 2 (.double c.temp)
      let stmt := stmt.bind 3 (.text (cStr c.ts))
      (stepInsert fdb stmt c.step, if c.step = .done then 0 else -1)

/-- A sequence of calls, with what each returned. -/
def insertAll (fdb : Fdb) : List InsertCall → Fdb × List (InsertCall × Int)
  | [] => (fdb, [])
  | c :: cs =>
    let (fdb, code) := fdbDataInsert fdb c
    let (fdb, codes) := insertAll fdb cs
    (fdb, (c, code) :: codes)

/-! ## What one call does -/

/-- The values that a call is asked to store. -/
def InsertCall.row (c : InsertCall) : Row := [.int c.sid, .double c.temp, .text (cStr c.ts)]

/-- The call reaches a statement. -/
def InsertCall.Ready (fdb : Fdb) (c : InsertCall) : Prop :=
  fdb.stmt fdbStmtDataInsert ≠ none ∨ c.prepare = true

instance (fdb : Fdb) (c : InsertCall) : Decidable (c.Ready fdb) :=
  inferInstanceAs (Decidable (_ ∨ _))

@[simp] theorem setStmt_db (fdb : Fdb) (i : Nat) (stmt : Option SqliteStmt) :
    (fdb.setStmt i stmt).db = fdb.db := rfl

@[simp] theorem setStmt_stmt_self (fdb : Fdb) (i : Nat) (stmt : Option SqliteStmt) :
    (fdb.setStmt i stmt).stmt i = stmt := if_pos rfl

@[simp] theorem clearBindings_reset (stmt : SqliteStmt) :
    stmt.reset.clearBindings = .prepared := rfl

theorem setStmt_none {fdb : Fdb} {i : Nat} (h : fdb.stmt i = none) :
    fdb.setStmt i none = fdb := by
  have hstmt : (fun j => if j = i then none else fdb.stmt j) = fdb.stmt := by
    funext j
    by_cases hj : j = i
    · rw [if_pos hj, hj, h]
    · rw [if_neg hj]
  show Fdb.mk fdb.db (fun j => if j = i then none else fdb.stmt j) = fdb
  rw [hstmt]

/-- Whatever the statement went through, the cache hands out a freshly prepared one. -/
theorem fdbStmtCache_of_ready {fdb : Fdb} {c : InsertCall} (h : c.Ready fdb) :
    fdbStmtCache fdb fdbStmtDataInsert c.prepare =
      (fdb.setStmt fdbStmtDataInsert (some .prepared), 0) := by
  rw [fdbStmtCache, if_neg (by decide)]
  cases hstmt : fdb.stmt fdbStmtDataInsert with
  | none =>
    have hprepare : c.prepare = true := h.resolve_left (fun hne => hne hstmt)
    simp [hprepare]
  | some stmt => simp

theorem fdbStmtCache_of_not_ready {fdb : Fdb} {c : InsertCall} (h : ¬ c.Ready fdb) :
    fdbStmtCache fdb fdbStmtDataInsert c.prepare = (fdb, -1) := by
  have hstmt : fdb.stmt fdbStmtDataInsert = none := by
    by_contra hne
    exact h (Or.inl hne)
  have hprepare : c.prepare = false := by
    cases hp : c.prepare with
    | false => rfl
    | true => exact absurd (Or.inr hp) h
  rw [fdbStmtCache, if_neg (by decide), hstmt, hprepare]
  simp [setStmt_none hstmt]

theorem row_bind (c : InsertCall) :
    (((SqliteStmt.prepared.bind 1 (.int c.sid)).bind 2 (.double c.temp)).bind 3
      (.text (cStr c.ts))).row = c.row := by
  simp [SqliteStmt.prepared, SqliteStmt.bind, SqliteStmt.row, InsertCall.row]

theorem fdbDataInsert_of_not_ready {fdb : Fdb} {c : InsertCall} (h : ¬ c.Ready fdb) :
    fdbDataInsert fdb c = (fdb, -1) := by
  rw [fdbDataInsert, fdbStmtCache_of_not_ready h]
  rfl

/-- The code of a call depends only on this call's own answers from SQLite, once the
statement is there. -/
theorem fdbDataInsert_code (fdb : Fdb) (c : InsertCall) :
    (fdbDataInsert fdb c).2 = if c.Ready fdb ∧ c.step = .done then 0 else -1 := by
  by_cases hready : c.Ready fdb
  · rw [fdbDataInsert, fdbStmtCache_of_ready hready]
    simp [hready]
  · rw [fdbDataInsert_of_not_ready hready, if_neg (fun h => hready h.1)]

theorem fdbDataInsert_db {fdb : Fdb} {c : InsertCall} (h : c.Ready fdb) :
    (fdbDataInsert fdb c).1.db.rows =
      fdb.db.rows ++ (if c.step = .done then [c.row] else []) := by
  rw [fdbDataInsert, fdbStmtCache_of_ready h]
  by_cases hdone : c.step = .done
  · simp [stepInsert, hdone, row_bind]
  · simp [stepInsert, hdone]

/-- A call that returns 0 adds its own row, any other call adds none. -/
theorem fdbDataInsert_rows (fdb : Fdb) (c : InsertCall) :
    (fdbDataInsert fdb c).1.db.rows =
      fdb.db.rows ++ (if (fdbDataInsert fdb c).2 = 0 then [c.row] else []) := by
  rw [fdbDataInsert_code]
  by_cases hready : c.Ready fdb
  · rw [fdbDataInsert_db hready]
    simp [hready]
  · rw [fdbDataInsert_of_not_ready hready]
    simp [hready]

/-! ## Sequences of calls -/

/-- The calls that returned 0. -/
def stored (calls : List (InsertCall × Int)) : List InsertCall :=
  (calls.filter fun c => c.2 = 0).map (·.1)

theorem insertAll_calls (fdb : Fdb) (cs : List InsertCall) :
    (insertAll fdb cs).2.map (·.1) = cs := by
  induction cs generalizing fdb with
  | nil => rfl
  | cons c cs ih =>
    show c :: ((insertAll (fdbDataInsert fdb c).1 cs).2.map (·.1)) = c :: cs
    rw [ih]

theorem insertAll_rows (fdb : Fdb) (cs : List InsertCall) :
    (insertAll fdb cs).1.db.rows =
      fdb.db.rows ++ (stored (insertAll fdb cs).2).map InsertCall.row := by
  induction cs generalizing fdb with
  | nil => exact (List.append_nil _).symm
  | cons c cs ih =>
    show (insertAll (fdbDataInsert fdb c).1 cs).1.db.rows = fdb.db.rows ++
      (stored ((c, (fdbDataInsert fdb c).2) :: (insertAll (fdbDataInsert fdb c).1 cs).2)).map
        InsertCall.row
    rw [ih, fdbDataInsert_rows, List.append_assoc]
    congr 1
    by_cases hcode : (fdbDataInsert fdb c).2 = 0
    · simp [stored, hcode]
    · simp [stored, hcode]

/-- The rows are those of the calls that returned 0, in order, and after any sequence of
calls the next one succeeds when its own `sqlite3_prepare_v2` and `sqlite3_step` do. -/
theorem sensorRows_eq_stored (db : Sqlite3) (cs : List InsertCall) :
    (insertAll (fdbInit db) cs).2.map (·.1) = cs ∧
    (insertAll (fdbInit db) cs).1.db.rows =
      db.rows ++ (stored (insertAll (fdbInit db) cs).2).map InsertCall.row ∧
    ∀ c : InsertCall, (c.prepare = true → c.step = .done →
        (fdbDataInsert (insertAll (fdbInit db) cs).1 c).2 = 0) := by
  refine ⟨insertAll_calls _ cs, insertAll_rows _ cs, fun c hprepare hdone => ?_⟩
  rw [fdbDataInsert_code, if_pos ⟨Or.inr hprepare, hdone⟩]

end Gateway
end LinuxPrograming
