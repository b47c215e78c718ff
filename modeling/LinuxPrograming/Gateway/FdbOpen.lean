import LinuxPrograming.Gateway.Fdb
import LinuxPrograming.Lib.Run

/-!
# `fdb.c`: creating and opening `sensor.db`

`sensor.db` is made by a copy of `.template.db`, which is made by running the schema.
Every file and SQLite call of one start-up attempt may fail; `Outcomes` says how each of
them ends.  A call that needs a file fails where the file is missing, whatever its outcome
says.
-/

namespace LinuxPrograming
namespace Gateway

open Lib

/-- What the code relies on of SQLite: which files hold the sensor table, its rows, and
the file that a committed `schema_sensor_sql` leaves. -/
structure Sqlite where
  HasTable : Bytes → Prop
  rows : Bytes → List Row
  createTable : Bytes → Bytes
  hasTable_createTable : ∀ c, HasTable (createTable c)
  /-- `CREATE TABLE IF NOT EXISTS`. -/
  createTable_of_hasTable : ∀ c, HasTable c → createTable c = c
  not_hasTable_nil : ¬ HasTable []

/-- The two files. -/
structure Disk where
  template : Option Bytes
  sensor : Option Bytes

/-- How the calls of one attempt end, in the order of the code.  For `fread` and `fwrite`
it is the count of the `k`-th call. -/
structure Outcomes where
  open1 : Bool
  fopenTemplate1 : Bool
  createOpen : Bool
  prepare : Nat → Bool
  step : Nat → StepResult
  chmodTemplate : Bool
  fopenTemplate2 : Bool
  fopenDest : Bool
  fread : Nat → Nat
  fwrite : Nat → Nat
  unlink : Nat → Bool
  /-- `fclose(dest)`; when it fails, how many bytes are in the file. -/
  fcloseDest : Option Nat
  chmodSensor : Bool
  open2 : Bool

/-! ## `fdb_create_file` -/

/-- The statements of `schema_sensor_sql`. -/
inductive SchemaStmt where
  | begin
  | createTable
  | commit
  deriving DecidableEq, Repr

def schemaSensorSql : List SchemaStmt := [.begin, .createTable, .commit]

/-- A connection: the file, and whether `CREATE TABLE` waits in an open transaction. -/
structure Conn where
  file : Bytes
  inTransaction : Bool
  pending : Bool

variable (S : Sqlite)

/-- `sqlite3_step` on a statement of the schema.  It has its effect when it is done. -/
def stepSchema (conn : Conn) (stmt : SchemaStmt) (result : StepResult) : Conn :=
  if result = .done then
    match stmt with
    | .begin => { conn with inTransaction := true }
    | .createTable =>
      if conn.inTransaction then { conn with pending := true }
      else { conn with file := S.createTable conn.file }
    | .commit =>
      ⟨if conn.pending then S.createTable conn.file else conn.file, false, false⟩
  else conn

/-- The `for` loop of `fdb_create_file`, from its `k`-th statement. -/
def runSchema (o : Outcomes) (conn : Conn) (k : Nat) : List SchemaStmt → Conn × Bool
  | [] => (conn, true)
  | stmt :: rest =>
    if o.prepare k = false then (conn, false)
    else
      match o.step k with
      | .error => (stepSchema S conn stmt .error, false)
      | result => runSchema o (stepSchema S conn stmt result) (k + 1) rest

/-- `fdb_create_file(".template.db", schema_sensor_sql)`.  Closing the connection rolls an
open transaction back. -/
def fdbCreateFile (d : Disk) (o : Outcomes) : Disk × Int :=
  if o.createOpen = false then (d, -1)
  else
    let (conn, ok) := runSchema S o ⟨d.template.getD [], false, false⟩ 0 schemaSensorSql
    let d := { d with template := some conn.file }
    if ok = false then (d, -1)
    else if o.chmodTemplate = false then (d, -1)
    else (d, 0)

/-! ## `fdb_create_sensor_db` -/

/-- `fopen(path, "r")`. -/
def fopenR (ok : Bool) (file : Option Bytes) : Option Bytes := if ok then file else none

/-- Lines 98 to 113: open the template, creating it where needed. -/
def openTemplate (d : Disk) (o : Outcomes) : Disk × Option Bytes :=
  match fopenR o.fopenTemplate1 d.template with
  | some source => (d, some source)
  | none =>
    let (d, code) := fdbCreateFile S d o
    if code < 0 then (d, none) else (d, fopenR o.fopenTemplate2 d.template)

variable {S}

/-- The `while` loop, from its `k`-th turn: what `dest` holds, and whether every `fwrite`
was complete. -/
def copyLoop (o : Outcomes) (source dest : Bytes) (k : Nat) : Bytes × Bool :=
  let nbytes := min (o.fread k) (min 4096 source.length)
  if _h : nbytes = 0 then (dest, true)
  else
    let n := min (o.fwrite k) nbytes
    if n ≠ nbytes then (dest ++ source.take n, false)
    else copyLoop o (source.drop nbytes) (dest ++ source.take nbytes) (k + 1)
termination_by source.length
decreasing_by rw [List.length_drop]; omega

/-- `unlink(path)`. -/
def unlink (ok : Bool) (file : Option Bytes) : Option Bytes := if ok then none else file

/-- The copy into a `sensor.db` that was opened for writing: the file it leaves, and the
code returned. -/
def copyTemplate (o : Outcomes) (source : Bytes) : Option Bytes × Int :=
  let (copy, full) := copyLoop o source [] 0
  let file := if full then some copy else unlink (o.unlink 0) (some copy)
  match o.fcloseDest with
  | some k => (file.map (·.take k), -1)
  | none =>
    if full = false then (unlink (o.unlink 1) file, -1)
    else if o.chmodSensor = false then (unlink (o.unlink 2) file, -1)
    else (file, 0)

variable (S)

/-- `fdb_create_sensor_db()`. -/
def fdbCreateSensorDb (d : Disk) (o : Outcomes) : Disk × Int :=
  match openTemplate S d o with
  | (d, none) => (d, -1)
  | (d, some source) =>
    if o.fopenDest = false then (d, -1)
    else ({ d with sensor := (copyTemplate o source).1 }, (copyTemplate o source).2)

/-! ## `fdb_open_sensor_db` -/

/-- `sqlite3_open_v2(path, &db, SQLITE_OPEN_READWRITE, NULL)`. -/
def sqlite3OpenV2 (ok : Bool) (file : Option Bytes) : Option Sqlite3 :=
  if ok then file.map fun c => ⟨S.rows c⟩ else none

/-- `fdb_open_sensor_db()`. -/
def fdbOpenSensorDb (d : Disk) (o : Outcomes) : Disk × Option Fdb :=
  match sqlite3OpenV2 S o.open1 d.sensor with
  | some db => (d, some (fdbInit db))
  | none =>
    let (d, code) := fdbCreateSensorDb S d o
    if code < 0 then (d, none) else (d, (sqlite3OpenV2 S o.open2 d.sensor).map fdbInit)

end Gateway
end LinuxPrograming
