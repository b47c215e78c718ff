import LinuxPrograming.Gateway.FdbOpen
import Mathlib.Data.List.Perm.Subperm

/-!
# What a start-up attempt leaves on disk

The conditions of this module are about the outcomes of the calls and about the two files
before the attempt.  `Clean` is the condition under which an attempt hands out and leaves
behind only databases that have their table, and `sensorRows_kept_iff` says when the rows
of `sensor.db` survive.
-/

namespace LinuxPrograming
namespace Gateway

open Lib

namespace Outcomes

variable (o : Outcomes)

/-- `fdb_create_file` returns 0. -/
def Created : Prop :=
  o.createOpen = true ∧ (∀ k < 3, o.prepare k = true ∧ o.step k ≠ .error) ∧
    o.chmodTemplate = true

/-- The table reaches the template: `CREATE TABLE` is done, and committed when `BEGIN` was
done. -/
def Commits : Prop :=
  o.prepare 0 = true ∧ o.step 0 ≠ .error ∧ o.prepare 1 = true ∧ o.step 1 = .done ∧
    (o.step 0 = .done → o.prepare 2 = true ∧ o.step 2 = .done)

instance : Decidable o.Created := inferInstanceAs (Decidable (_ ∧ _))

instance : Decidable o.Commits := inferInstanceAs (Decidable (_ ∧ _))

/-- How many of `n` bytes the `fread` and `fwrite` calls carry over, from the `k`-th turn
of the loop, and whether every `fwrite` was complete. -/
def copied (n k : Nat) : Nat × Bool :=
  let nbytes := min (o.fread k) (min 4096 n)
  if _h : nbytes = 0 then (0, true)
  else
    let m := min (o.fwrite k) nbytes
    if m ≠ nbytes then (m, false)
    else
      let (m, full) := copied (n - nbytes) (k + 1)
      (nbytes + m, full)
termination_by n

/-- The copy of an `n`-byte template is unlinked. -/
def Removed (n : Nat) : Prop :=
  if (o.copied n 0).2 then o.fcloseDest = none ∧ o.chmodSensor = false ∧ o.unlink 2 = true
  else o.unlink 0 = true ∨ o.fcloseDest = none ∧ o.unlink 1 = true

/-- The bytes of an `n`-byte template that are in its copy. -/
def kept (n : Nat) : Nat :=
  match o.fcloseDest with
  | none => (o.copied n 0).1
  | some k => min k (o.copied n 0).1

end Outcomes

variable (S : Sqlite)

/-! ## The template -/

theorem runSchema_nil (o : Outcomes) (conn : Conn) (k : Nat) :
    runSchema S o conn k [] = (conn, true) := rfl

theorem runSchema_cons (o : Outcomes) (conn : Conn) (k : Nat) (stmt : SchemaStmt)
    (rest : List SchemaStmt) :
    runSchema S o conn k (stmt :: rest) =
      if o.prepare k = true ∧ o.step k ≠ .error then
        runSchema S o (stepSchema S conn stmt (o.step k)) (k + 1) rest
      else (conn, false) := by
  rw [runSchema]
  cases hprepare : o.prepare k with
  | false => simp
  | true => cases hstep : o.step k <;> simp [stepSchema]

/-- Statement by statement: what `schema_sensor_sql` leaves in the file. -/
theorem runSchema_file (o : Outcomes) (c : Bytes) :
    (runSchema S o ⟨c, false, false⟩ 0 schemaSensorSql).1.file =
      if o.Commits then S.createTable c else c := by
  simp only [schemaSensorSql, runSchema_cons, runSchema_nil, Nat.zero_add, Nat.reduceAdd]
  by_cases hbegin : o.prepare 0 = true ∧ o.step 0 ≠ .error
  · rw [if_pos hbegin]
    by_cases hcreate : o.prepare 1 = true ∧ o.step 1 = .done
    · have hgo : o.prepare 1 = true ∧ o.step 1 ≠ .error := ⟨hcreate.1, by simp [hcreate.2]⟩
      rw [if_pos hgo]
      by_cases htransaction : o.step 0 = .done
      · by_cases hcommit : o.prepare 2 = true ∧ o.step 2 = .done
        · simp [Outcomes.Commits, stepSchema, hbegin, hcreate, htransaction, hcommit]
        · have hno : ¬ o.Commits := fun h => hcommit (h.2.2.2.2 htransaction)
          rw [if_neg hno]
          split <;> simp_all [stepSchema]
      · have hyes : o.Commits :=
          ⟨hbegin.1, hbegin.2, hcreate.1, hcreate.2, fun h => absurd h htransaction⟩
        rw [if_pos hyes]
        split <;> simp [stepSchema, hcreate.2, htransaction]
    · have hno : ¬ o.Commits := fun h => hcreate ⟨h.2.2.1, h.2.2.2.1⟩
      rw [if_neg hno]
      split
      · next hgo =>
        -- `CREATE TABLE` was let through without being done: nothing waits for the commit.
        have hstep : o.step 1 ≠ .done := fun h => hcreate ⟨hgo.1, h⟩
        by_cases htransaction : o.step 0 = .done <;> split <;>
          simp only [stepSchema, hstep, htransaction, if_true, if_false] <;> split <;> rfl
      · by_cases htransaction : o.step 0 = .done <;> simp [stepSchema, htransaction]
  · have hno : ¬ o.Commits := fun h => hbegin ⟨h.1, h.2.1⟩
    rw [if_neg hbegin, if_neg hno]

theorem runSchema_ok (o : Outcomes) (c : Bytes) :
    (runSchema S o ⟨c, false, false⟩ 0 schemaSensorSql).2 = true ↔
      ∀ k < 3, o.prepare k = true ∧ o.step k ≠ .error := by
  have hthree : (∀ k < 3, o.prepare k = true ∧ o.step k ≠ .error) ↔
      (o.prepare 0 = true ∧ o.step 0 ≠ .error) ∧ (o.prepare 1 = true ∧ o.step 1 ≠ .error) ∧
        (o.prepare 2 = true ∧ o.step 2 ≠ .error) := by
    simp only [Nat.forall_lt_succ_right, Nat.not_lt_zero, false_implies, implies_true, true_and,
      and_assoc]
  rw [hthree]
  simp only [schemaSensorSql, runSchema_cons, runSchema_nil, Nat.zero_add, Nat.reduceAdd]
  split_ifs <;> simp_all

/-- What `fdb_create_file` makes of the template. -/
def createdTemplate (o : Outcomes) (template : Option Bytes) : Bytes :=
  if o.Commits then S.createTable (template.getD []) else template.getD []

/-- The template after the attempt, where the attempt has to look at it. -/
def templateAfter (d : Disk) (o : Outcomes) : Option Bytes :=
  if (o.fopenTemplate1 = true ∧ d.template ≠ none) ∨ o.createOpen = false then d.template
  else some (createdTemplate S o d.template)

/-- The template can be read, as it was found or as it was created. -/
def Available (d : Disk) (o : Outcomes) : Prop :=
  (o.fopenTemplate1 = true ∧ d.template ≠ none) ∨ (o.Created ∧ o.fopenTemplate2 = true)

instance (d : Disk) (o : Outcomes) : Decidable (Available d o) :=
  inferInstanceAs (Decidable (_ ∨ _))

theorem fdbCreateFile_code (d : Disk) (o : Outcomes) :
    (fdbCreateFile S d o).2 = if o.Created then 0 else -1 := by
  rw [fdbCreateFile]
  by_cases hopen : o.createOpen = true
  · rw [if_neg (by simp [hopen])]
    dsimp only
    by_cases hok : ∀ k < 3, o.prepare k = true ∧ o.step k ≠ .error
    · rw [if_neg (by simp [(runSchema_ok S o _).mpr hok])]
      by_cases hchmod : o.chmodTemplate = true
      · rw [if_neg (by simp [hchmod]), if_pos (show o.Created from ⟨hopen, hok, hchmod⟩)]
      · rw [if_pos (by simpa using hchmod), if_neg (fun h : o.Created => hchmod h.2.2)]
    · have hfalse := (runSchema_ok S o (d.template.getD [])).not.mpr hok
      rw [if_pos (by simpa using hfalse), if_neg (fun h : o.Created => hok h.2.1)]
  · rw [if_pos (by simpa using hopen), if_neg (fun h : o.Created => hopen h.1)]

theorem fdbCreateFile_disk (d : Disk) (o : Outcomes) :
    (fdbCreateFile S d o).1 =
      if o.createOpen = false then d
      else { d with template := some (createdTemplate S o d.template) } := by
  rw [fdbCreateFile]
  by_cases hopen : o.createOpen = false
  · rw [if_pos hopen, if_pos hopen]
  · rw [if_neg hopen, if_neg hopen]
    dsimp only
    rw [runSchema_file, createdTemplate]
    split
    · rfl
    · split <;> rfl

theorem openTemplate_of_found {d : Disk} {o : Outcomes}
    (h : o.fopenTemplate1 = true ∧ d.template ≠ none) :
    openTemplate S d o = (d, d.template) := by
  obtain ⟨c, hc⟩ := Option.ne_none_iff_exists'.mp h.2
  rw [openTemplate, fopenR, if_pos h.1, hc]

theorem openTemplate_of_not_found {d : Disk} {o : Outcomes}
    (h : ¬ (o.fopenTemplate1 = true ∧ d.template ≠ none)) :
    openTemplate S d o = ((fdbCreateFile S d o).1,
      if o.Created then fopenR o.fopenTemplate2 (fdbCreateFile S d o).1.template else none) := by
  have hnone : fopenR o.fopenTemplate1 d.template = none := by
    rw [fopenR]
    by_cases hopen : o.fopenTemplate1 = true
    · rw [if_pos hopen]
      by_contra hne
      exact h ⟨hopen, hne⟩
    · rw [if_neg hopen]
  rw [openTemplate, hnone]
  dsimp only
  rw [fdbCreateFile_code]
  by_cases hcreated : o.Created <;> simp [hcreated]

/-- Lines 98 to 113 as a whole. -/
theorem openTemplate_eq (d : Disk) (o : Outcomes) :
    openTemplate S d o = ({ d with template := templateAfter S d o },
      if Available d o then templateAfter S d o else none) := by
  by_cases hfound : o.fopenTemplate1 = true ∧ d.template ≠ none
  · have hafter : templateAfter S d o = d.template := if_pos (Or.inl hfound)
    rw [openTemplate_of_found S hfound, if_pos (show Available d o from Or.inl hfound), hafter]
  · rw [openTemplate_of_not_found S hfound, fdbCreateFile_disk]
    by_cases hopen : o.createOpen = false
    · have hafter : templateAfter S d o = d.template := if_pos (Or.inr hopen)
      have hcreated : ¬ o.Created := fun h => by
        have := h.1
        simp [hopen] at this
      have hno : ¬ Available d o := not_or.mpr ⟨hfound, fun h => hcreated h.1⟩
      rw [if_neg hcreated, if_neg hno, if_pos hopen, hafter]
    · have hafter : templateAfter S d o = some (createdTemplate S o d.template) :=
        if_neg (not_or.mpr ⟨hfound, hopen⟩)
      rw [if_neg hopen, hafter]
      by_cases hread : o.Created ∧ o.fopenTemplate2 = true
      · rw [if_pos hread.1, if_pos (show Available d o from Or.inr hread), fopenR,
          if_pos hread.2]
      · rw [if_neg (show ¬ Available d o from not_or.mpr ⟨hfound, hread⟩), fopenR]
        by_cases hcreated : o.Created
        · rw [if_pos hcreated, if_neg (fun h => hread ⟨hcreated, h⟩)]
        · rw [if_neg hcreated]

/-! ## The copy -/

/-- The loop copies what the counts carry over. -/
theorem copyLoop_eq (o : Outcomes) (source dest : Bytes) (k : Nat) :
    copyLoop o source dest k =
      (dest ++ source.take (o.copied source.length k).1, (o.copied source.length k).2) := by
  induction hn : source.length using Nat.strong_induction_on generalizing source dest k with
  | _ n ih =>
    rw [copyLoop, Outcomes.copied, hn]
    split
    · simp
    · next hpos =>
      dsimp only
      split
      · rfl
      · have hlen : (source.drop (min (o.fread k) (min 4096 n))).length =
            n - min (o.fread k) (min 4096 n) := by
          rw [List.length_drop, hn]
        rw [ih _ (by omega) _ _ _ hlen]
        show (_ ++ _, _) = (_ ++ source.take (_ + _), _)
        rw [List.append_assoc, ← List.take_add]

theorem copyTemplate_file {o : Outcomes} {source c : Bytes} :
    (copyTemplate o source).1 = some c ↔
      ¬ o.Removed source.length ∧ source.take (o.kept source.length) = c := by
  rw [copyTemplate, copyLoop_eq, List.nil_append]
  unfold Outcomes.Removed Outcomes.kept
  cases hfull : (o.copied source.length 0).2 with
  | true =>
    cases hclose : o.fcloseDest with
    | none => cases hchmod : o.chmodSensor <;> cases hunlink : o.unlink 2 <;> simp [unlink]
    | some k => simp [List.take_take]
  | false =>
    cases hclose : o.fcloseDest with
    | none => cases hunlink : o.unlink 0 <;> cases hagain : o.unlink 1 <;> simp [unlink]
    | some k => cases hunlink : o.unlink 0 <;> simp [unlink, List.take_take]

/-! ## One attempt -/

/-- The first `sqlite3_open_v2` succeeds. -/
def Opened (d : Disk) (o : Outcomes) : Prop := o.open1 = true ∧ d.sensor ≠ none

/-- The attempt gets past `fopen("sensor.db", "w")`, unless it opened `sensor.db` before. -/
def Reaches (d : Disk) (o : Outcomes) : Prop := Available d o ∧ o.fopenDest = true

instance (d : Disk) (o : Outcomes) : Decidable (Opened d o) :=
  inferInstanceAs (Decidable (_ ∧ _))

instance (d : Disk) (o : Outcomes) : Decidable (Reaches d o) :=
  inferInstanceAs (Decidable (_ ∧ _))

theorem templateAfter_of_available {d : Disk} {o : Outcomes} (h : Available d o) :
    ∃ t, templateAfter S d o = some t := by
  by_cases hfound : o.fopenTemplate1 = true ∧ d.template ≠ none
  · rw [templateAfter, if_pos (Or.inl hfound)]
    exact Option.ne_none_iff_exists'.mp hfound.2
  · have hcreated : o.Created := (h.resolve_left hfound).1
    have hopen : ¬ o.createOpen = false := by simp [hcreated.1]
    rw [templateAfter, if_neg (not_or.mpr ⟨hfound, hopen⟩)]
    exact ⟨_, rfl⟩

theorem fdbCreateSensorDb_of_reaches {d : Disk} {o : Outcomes} {t : Bytes}
    (h : Reaches d o) (ht : templateAfter S d o = some t) :
    fdbCreateSensorDb S d o =
      (⟨some t, (copyTemplate o t).1⟩, (copyTemplate o t).2) := by
  rw [fdbCreateSensorDb, openTemplate_eq, if_pos h.1, ht]
  dsimp only
  rw [if_neg (by simp [h.2])]

theorem fdbCreateSensorDb_of_not_reaches {d : Disk} {o : Outcomes} (h : ¬ Reaches d o) :
    fdbCreateSensorDb S d o = (⟨templateAfter S d o, d.sensor⟩, -1) := by
  rw [fdbCreateSensorDb, openTemplate_eq]
  by_cases havailable : Available d o
  · obtain ⟨t, ht⟩ := templateAfter_of_available S havailable
    have hdest : ¬ o.fopenDest = true := fun hdest => h ⟨havailable, hdest⟩
    rw [if_pos havailable, ht]
    dsimp only
    rw [if_pos (by simpa using hdest)]
  · rw [if_neg havailable]

theorem sqlite3OpenV2_of_opened {d : Disk} {o : Outcomes} (h : Opened d o) :
    ∃ c, d.sensor = some c ∧ sqlite3OpenV2 S o.open1 d.sensor = some ⟨S.rows c⟩ := by
  obtain ⟨c, hc⟩ := Option.ne_none_iff_exists'.mp h.2
  refine ⟨c, hc, ?_⟩
  rw [sqlite3OpenV2, if_pos h.1, hc]
  rfl

theorem sqlite3OpenV2_of_not_opened {d : Disk} {o : Outcomes} (h : ¬ Opened d o) :
    sqlite3OpenV2 S o.open1 d.sensor = none := by
  rw [sqlite3OpenV2]
  by_cases hopen : o.open1 = true
  · have hnone : d.sensor = none := by
      by_contra hne
      exact h ⟨hopen, hne⟩
    rw [if_pos hopen, hnone]
    rfl
  · rw [if_neg hopen]

theorem fdbOpenSensorDb_of_opened {d : Disk} {o : Outcomes} (h : Opened d o) :
    (fdbOpenSensorDb S d o).1 = d := by
  obtain ⟨c, -, hopen⟩ := sqlite3OpenV2_of_opened S h
  rw [fdbOpenSensorDb, hopen]

theorem fdbOpenSensorDb_of_not_opened {d : Disk} {o : Outcomes} (h : ¬ Opened d o) :
    (fdbOpenSensorDb S d o).1 = (fdbCreateSensorDb S d o).1 := by
  rw [fdbOpenSensorDb, sqlite3OpenV2_of_not_opened S h]
  dsimp only
  split <;> rfl

/-- A handle is a connection to the `sensor.db` that is there when it is returned. -/
theorem fdbOpenSensorDb_handle {d : Disk} {o : Outcomes} {fdb : Fdb}
    (h : (fdbOpenSensorDb S d o).2 = some fdb) :
    ∃ c, (fdbOpenSensorDb S d o).1.sensor = some c ∧ fdb = fdbInit ⟨S.rows c⟩ := by
  by_cases hopened : Opened d o
  · obtain ⟨c, hc, hopen⟩ := sqlite3OpenV2_of_opened S hopened
    rw [fdbOpenSensorDb_of_opened S hopened]
    rw [fdbOpenSensorDb, hopen] at h
    exact ⟨c, hc, (Option.some.inj h).symm⟩
  · rw [fdbOpenSensorDb_of_not_opened S hopened]
    rw [fdbOpenSensorDb, sqlite3OpenV2_of_not_opened S hopened] at h
    dsimp only at h
    split at h
    · exact absurd h (by simp)
    · obtain ⟨db, hdb, hfdb⟩ := Option.map_eq_some_iff.mp h
      rw [sqlite3OpenV2] at hdb
      split at hdb
      · obtain ⟨c, hc, hrows⟩ := Option.map_eq_some_iff.mp hdb
        exact ⟨c, hc, by rw [← hfdb, ← hrows]⟩
      · exact absurd hdb (by simp)

/-! ## The rows of `sensor.db` -/

/-- The rows of the database in a file, none where there is no file. -/
def rowsOf (file : Option Bytes) : List Row := (file.map S.rows).getD []

/-- Every row that `sensor.db` held is still in it after the attempt, equal rows as often as
before. -/
def RowsKept (d : Disk) (o : Outcomes) : Prop :=
  (rowsOf S d.sensor).Subperm (rowsOf S (fdbOpenSensorDb S d o).1.sensor)

/-- The copy stays in `sensor.db`, and the part of the template it holds has all these
rows. -/
def CopyHolds (d : Disk) (o : Outcomes) (rows : List Row) : Prop :=
  ∃ t, templateAfter S d o = some t ∧ ¬ o.Removed t.length ∧
    rows.Subperm (S.rows (t.take (o.kept t.length)))

theorem rowsKept_of_reaches {d : Disk} {o : Outcomes} (hopened : ¬ Opened d o)
    (h : Reaches d o) (hne : rowsOf S d.sensor ≠ []) :
    RowsKept S d o ↔ CopyHolds S d o (rowsOf S d.sensor) := by
  obtain ⟨t, ht⟩ := templateAfter_of_available S h.1
  unfold RowsKept CopyHolds
  rw [fdbOpenSensorDb_of_not_opened S hopened, fdbCreateSensorDb_of_reaches S h ht]
  constructor
  · intro hrows
    cases hcopy : (copyTemplate o t).1 with
    | none =>
      rw [hcopy] at hrows
      exact absurd (List.subperm_nil.mp hrows) hne
    | some c =>
      rw [hcopy] at hrows
      obtain ⟨hkept, rfl⟩ := copyTemplate_file.mp hcopy
      exact ⟨t, ht, hkept, hrows⟩
  · rintro ⟨t', ht', hkept, hrows⟩
    obtain rfl := Option.some.inj (ht.symm.trans ht')
    rw [copyTemplate_file.mpr ⟨hkept, rfl⟩]
    exact hrows

/-- The rows survive exactly when `sensor.db` could be opened at once, or held none, or the
attempt ends before it opens `sensor.db` for writing, or the copy happens to hold them. -/
theorem sensorRows_kept_iff (d : Disk) (o : Outcomes) :
    RowsKept S d o ↔ Opened d o ∨ rowsOf S d.sensor = [] ∨ ¬ Reaches d o ∨
      CopyHolds S d o (rowsOf S d.sensor) := by
  by_cases hopened : Opened d o
  · refine iff_of_true ?_ (Or.inl hopened)
    unfold RowsKept
    rw [fdbOpenSensorDb_of_opened S hopened]
  by_cases hnil : rowsOf S d.sensor = []
  · refine iff_of_true ?_ (Or.inr (Or.inl hnil))
    unfold RowsKept
    rw [hnil]
    exact List.nil_subperm
  by_cases hreaches : Reaches d o
  · rw [rowsKept_of_reaches S hopened hreaches hnil]
    simp [hopened, hnil, hreaches]
  · refine iff_of_true ?_ (Or.inr (Or.inr (Or.inl hreaches)))
    unfold RowsKept
    rw [fdbOpenSensorDb_of_not_opened S hopened, fdbCreateSensorDb_of_not_reaches S hreaches]

/-! ## The table of `sensor.db` -/

/-- The template is as the schema left it, and `sensor.db` has its table. -/
structure FilesSound (d : Disk) : Prop where
  template : ∀ c, d.template = some c → c = S.createTable []
  sensor : ∀ c, d.sensor = some c → S.HasTable c

/-- The copy of the template is gone, or the part of the template it holds has the table. -/
def Outcomes.CopySafe (o : Outcomes) : Prop :=
  o.Removed (S.createTable []).length ∨
    S.HasTable ((S.createTable []).take (o.kept (S.createTable []).length))

/-- A template that the attempt creates gets its table, and a copy that the attempt starts
is gone or has it. -/
def Clean (d : Disk) (o : Outcomes) : Prop :=
  Opened d o ∨
    (d.template = none → o.createOpen = true → o.Commits) ∧ (Reaches d o → o.CopySafe S)

/-- A complete copy has the table. -/
theorem Outcomes.copySafe_of_complete {o : Outcomes}
    (h : (S.createTable []).length ≤ o.kept (S.createTable []).length) : o.CopySafe S := by
  refine Or.inr ?_
  rw [List.take_of_length_le h]
  exact S.hasTable_createTable []

/-- The state at the first start. -/
def noFiles : Disk := ⟨none, none⟩

/-- One call of `fdb_open_sensor_db`, as a step of a run. -/
def attempt (d : Disk) (o : Outcomes) : Option Disk := some (fdbOpenSensorDb S d o).1

/-- The attempt hands out a database without its table. -/
def Tableless (d : Disk) (o : Outcomes) : Prop :=
  (fdbOpenSensorDb S d o).2 ≠ none ∧
    ∃ c, (fdbOpenSensorDb S d o).1.sensor = some c ∧ ¬ S.HasTable c

/-- Every call succeeds, with the given answer of the first `sqlite3_open_v2`. -/
def Outcomes.success (open1 : Bool) : Outcomes where
  open1 := open1
  fopenTemplate1 := true
  createOpen := true
  prepare _ := true
  step _ := .done
  chmodTemplate := true
  fopenTemplate2 := true
  fopenDest := true
  fread _ := 4096
  fwrite _ := 4096
  unlink _ := true
  fcloseDest := none
  chmodSensor := true
  open2 := true

variable {S}

/-- `fread` stops at the end of the template only, and every `fwrite` is complete. -/
theorem Outcomes.copied_full {o : Outcomes} (hread : ∀ k, 0 < o.fread k)
    (hwrite : ∀ k, o.fread k ≤ o.fwrite k) (n k : Nat) : o.copied n k = (n, true) := by
  induction n using Nat.strong_induction_on generalizing k with
  | _ n ih =>
    have hr := hread k
    have hw := hwrite k
    rw [Outcomes.copied]
    split
    · have hn : n = 0 := by omega
      rw [hn]
    · dsimp only
      rw [if_neg (by omega), ih _ (by omega)]
      show (min (o.fread k) (min 4096 n) + (n - min (o.fread k) (min 4096 n)), true) = (n, true)
      congr 1
      omega

theorem copyTemplate_success (b : Bool) (t : Bytes) :
    copyTemplate (.success b) t = (some t, 0) := by
  rw [copyTemplate, copyLoop_eq,
    Outcomes.copied_full (fun _ => show 0 < 4096 by decide) (fun _ => le_refl _),
    List.take_length]
  rfl

theorem success_of_sensor {d : Disk} {c : Bytes} (h : d.sensor = some c) :
    fdbOpenSensorDb S d (.success true) = (d, some (fdbInit ⟨S.rows c⟩)) := by
  rw [fdbOpenSensorDb, h]
  rfl

theorem templateAfter_success (d : Disk) (b : Bool) :
    templateAfter S d (.success b) = some (d.template.getD (S.createTable [])) := by
  have hcommits : (Outcomes.success b).Commits :=
    ⟨rfl, by simp [Outcomes.success], rfl, rfl, fun _ => ⟨rfl, rfl⟩⟩
  rw [templateAfter]
  cases ht : d.template with
  | none =>
    rw [if_neg (by simp [Outcomes.success]), createdTemplate, if_pos hcommits]
    rfl
  | some t =>
    rw [if_pos (Or.inl ⟨rfl, by simp⟩)]
    rfl

theorem available_success (d : Disk) (b : Bool) : Available d (.success b) := by
  by_cases ht : d.template = none
  · exact Or.inr ⟨⟨rfl, fun _ _ => ⟨rfl, by simp [Outcomes.success]⟩, rfl⟩, rfl⟩
  · exact Or.inl ⟨rfl, ht⟩

/-- When every call after the first succeeds, `sensor.db` becomes a copy of the template,
whatever the template is. -/
theorem success_of_not_opened {d : Disk} {b : Bool} {t : Bytes}
    (hopened : ¬ Opened d (.success b)) (ht : d.template.getD (S.createTable []) = t) :
    fdbOpenSensorDb S d (.success b) = (⟨some t, some t⟩, some (fdbInit ⟨S.rows t⟩)) := by
  have hafter := templateAfter_success (S := S) d b
  rw [ht] at hafter
  rw [fdbOpenSensorDb, sqlite3OpenV2_of_not_opened S hopened,
    fdbCreateSensorDb_of_reaches S ⟨available_success d b, rfl⟩ hafter, copyTemplate_success]
  rfl

theorem filesSound_noFiles : FilesSound S noFiles where
  template c h := absurd h (by simp [noFiles])
  sensor c h := absurd h (by simp [noFiles])

theorem templateAfter_of_filesSound {d : Disk} (h : FilesSound S d) {o : Outcomes}
    (hcommits : d.template = none → o.createOpen = true → o.Commits) {c : Bytes}
    (hc : templateAfter S d o = some c) : c = S.createTable [] := by
  rw [templateAfter] at hc
  split at hc
  · exact h.template c hc
  · next hno =>
    have hopen : o.createOpen = true := by simpa using (not_or.mp hno).2
    rw [← Option.some.inj hc, createdTemplate]
    cases ht : d.template with
    | none =>
      rw [if_pos (hcommits ht hopen)]
      rfl
    | some t =>
      have himage := h.template t ht
      have hkeep := S.createTable_of_hasTable _ (S.hasTable_createTable [])
      rw [himage]
      split
      · exact hkeep
      · rfl

/-- What a clean attempt keeps. -/
theorem filesSound_attempt {d : Disk} (h : FilesSound S d) {o : Outcomes} (hclean : Clean S d o) :
    FilesSound S (fdbOpenSensorDb S d o).1 := by
  by_cases hopened : Opened d o
  · rw [fdbOpenSensorDb_of_opened S hopened]
    exact h
  obtain ⟨hcommits, hcopy⟩ := hclean.resolve_left hopened
  rw [fdbOpenSensorDb_of_not_opened S hopened]
  by_cases hreaches : Reaches d o
  · obtain ⟨t, ht⟩ := templateAfter_of_available S hreaches.1
    have himage := templateAfter_of_filesSound h hcommits ht
    rw [fdbCreateSensorDb_of_reaches S hreaches ht]
    refine ⟨fun c hc => (Option.some.inj hc) ▸ himage, fun c hc => ?_⟩
    obtain ⟨hstays, rfl⟩ := copyTemplate_file.mp hc
    rw [himage] at hstays ⊢
    exact (hcopy hreaches).resolve_left hstays
  · rw [fdbCreateSensorDb_of_not_reaches S hreaches]
    exact ⟨fun c hc => templateAfter_of_filesSound h hcommits hc, h.sensor⟩

/-- An attempt that is not clean leaves a file without its table, which the next one
trusts. -/
theorem tableless_of_not_clean {d : Disk} (h : FilesSound S d) {o : Outcomes}
    (hclean : ¬ Clean S d o) :
    ∃ b, Tableless S (fdbOpenSensorDb S d o).1 (.success b) := by
  obtain ⟨hopened, hrest⟩ := not_or.mp hclean
  rw [fdbOpenSensorDb_of_not_opened S hopened]
  by_cases hcommits : d.template = none → o.createOpen = true → o.Commits
  · have hcopy : ¬ (Reaches d o → o.CopySafe S) := fun hcopy => hrest ⟨hcommits, hcopy⟩
    obtain ⟨hreaches, hunsafe⟩ := Classical.not_imp.mp hcopy
    obtain ⟨hstays, htable⟩ := not_or.mp hunsafe
    obtain ⟨t, ht⟩ := templateAfter_of_available S hreaches.1
    have himage := templateAfter_of_filesSound h hcommits ht
    rw [fdbCreateSensorDb_of_reaches S hreaches ht, himage,
      copyTemplate_file.mpr ⟨hstays, rfl⟩]
    refine ⟨true, ?_⟩
    unfold Tableless
    rw [success_of_sensor rfl]
    exact ⟨by simp, _, rfl, htable⟩
  · obtain ⟨hnone, hrest⟩ := Classical.not_imp.mp hcommits
    obtain ⟨hopen, hno⟩ := Classical.not_imp.mp hrest
    have hafter : templateAfter S d o = some [] := by
      rw [templateAfter, if_neg (by simp [hnone, hopen]), createdTemplate, if_neg hno, hnone]
      rfl
    have htemplate : (fdbCreateSensorDb S d o).1.template = some [] := by
      by_cases hreaches : Reaches d o
      · rw [fdbCreateSensorDb_of_reaches S hreaches hafter]
      · rw [fdbCreateSensorDb_of_not_reaches S hreaches, hafter]
    refine ⟨false, ?_⟩
    unfold Tableless
    rw [success_of_not_opened (t := []) (fun h => absurd h.1 (by decide)) (by rw [htemplate]; rfl)]
    exact ⟨by simp, _, rfl, S.not_hasTable_nil⟩

theorem filesSound_of_run {d : Disk} {os : List Outcomes}
    (hclean : Meets (attempt S) (Clean S) noFiles os)
    (hrun : Lib.run (attempt S) noFiles os = some d) : FilesSound S d := by
  refine run_preserves_of_meets (fun d o t hd ho ht => ?_) filesSound_noFiles hclean hrun
  exact Option.some.inj ht ▸ filesSound_attempt hd ho

variable (S)

/-- In every state that clean attempts reach, a clean attempt hands out only databases that
have their table, and any other attempt is followed by one that hands out a database
without it. -/
theorem openSensorDb_hasTable (d : Disk) (os : List Outcomes)
    (hclean : Meets (attempt S) (Clean S) noFiles os)
    (hrun : Lib.run (attempt S) noFiles os = some d) (o : Outcomes) :
    (Clean S d o → ∀ fdb, (fdbOpenSensorDb S d o).2 = some fdb →
      ∃ c, (fdbOpenSensorDb S d o).1.sensor = some c ∧ S.HasTable c) ∧
    (¬ Clean S d o → ∃ o', Tableless S (fdbOpenSensorDb S d o).1 o') := by
  have hsound := filesSound_of_run hclean hrun
  refine ⟨fun ho fdb hfdb => ?_, fun ho => ?_⟩
  · obtain ⟨c, hc, -⟩ := fdbOpenSensorDb_handle S hfdb
    exact ⟨c, hc, (filesSound_attempt hsound ho).sensor c hc⟩
  · obtain ⟨b, hb⟩ := tableless_of_not_clean hsound ho
    exact ⟨_, hb⟩

/-! ## Files in pages

The schema leaves three pages, the last of which is empty, so that a file cut inside it still
has its table.  Rows are the bytes behind them. -/

/-- The bytes that every database file starts with. -/
def sqliteHeader : Bytes := bytes "SQLite format 3" ++ [0]

def pagedImage : Bytes := sqliteHeader ++ List.replicate 12272 0

def paged : Sqlite where
  HasTable c := c.take 16 = sqliteHeader ∧ 8192 < c.length
  rows c := (c.drop 12288).map fun b => [.int b.toNat]
  createTable c := if c.take 16 = sqliteHeader ∧ 8192 < c.length then c else pagedImage
  hasTable_createTable c := by
    split
    · assumption
    · exact ⟨rfl, by decide +kernel⟩
  createTable_of_hasTable _ h := if_pos h
  not_hasTable_nil h := absurd h.2 (by decide)

/-- A first start-up at which `fclose(dest)` fails with one byte missing. -/
def Outcomes.closeFails : Outcomes := { Outcomes.success true with fcloseDest := some 12287 }

theorem openSensorDb_hasTable_second :
    Lib.run (attempt paged) noFiles [.closeFails] =
      some ⟨some pagedImage, some (pagedImage.take 12287)⟩ ∧
    ∃ c, (fdbOpenSensorDb paged ⟨some pagedImage, some (pagedImage.take 12287)⟩
        (.success true)).1.sensor = some c ∧
      paged.HasTable c := by
  have himage : paged.createTable [] = pagedImage := rfl
  have hlen : pagedImage.length = 12288 := by decide +kernel
  have hcopied : Outcomes.closeFails.copied pagedImage.length 0 = (12288, true) := by
    rw [hlen]
    exact Outcomes.copied_full (fun _ => show 0 < 4096 by decide) (fun _ => le_refl _) _ _
  have hkept : Outcomes.closeFails.kept pagedImage.length = 12287 := by
    show min 12287 (Outcomes.closeFails.copied pagedImage.length 0).1 = 12287
    rw [hcopied]
    decide
  have hstays : ¬ Outcomes.closeFails.Removed pagedImage.length := by
    rw [Outcomes.Removed, hcopied]
    exact fun h => absurd h.1 (by decide)
  have hopened : ¬ Opened noFiles .closeFails := fun h => h.2 rfl
  have hreaches : Reaches noFiles .closeFails := ⟨available_success noFiles true, rfl⟩
  have hafter : templateAfter paged noFiles .closeFails = some pagedImage :=
    himage ▸ templateAfter_success (S := paged) noFiles true
  have hrun : Lib.run (attempt paged) noFiles [.closeFails] =
      some ⟨some pagedImage, some (pagedImage.take 12287)⟩ := by
    show (some (fdbOpenSensorDb paged noFiles .closeFails).1 : Option Disk) = _
    rw [fdbOpenSensorDb_of_not_opened _ hopened, fdbCreateSensorDb_of_reaches _ hreaches hafter,
      copyTemplate_file.mpr ⟨hstays, rfl⟩, hkept]
  have hclean : Clean paged noFiles .closeFails := by
    refine Or.inr ⟨fun _ _ => ⟨rfl, by decide, rfl, rfl, fun _ => ⟨rfl, rfl⟩⟩, fun _ => Or.inr ?_⟩
    rw [himage, hkept]
    exact ⟨rfl, by decide +kernel⟩
  refine ⟨hrun, ?_⟩
  exact (openSensorDb_hasTable paged _ [.closeFails] ⟨hclean, fun _ _ => trivial⟩ hrun
    (.success true)).1 (Or.inl ⟨rfl, by simp⟩) _ (by rw [success_of_sensor rfl])

/-! ## A small file format

A file with the table starts with `S`, and every byte after it is a row. -/

def tagged : Sqlite where
  HasTable c := c.head? = some 83
  rows c := if c.head? = some 83 then c.tail.map fun b => [.int b.toNat] else []
  createTable c := if c.head? = some 83 then c else [83]
  hasTable_createTable c := by
    split
    · assumption
    · rfl
  createTable_of_hasTable _ h := if_pos h
  not_hasTable_nil := by simp

/-- The first start-up at which `sqlite3_prepare_v2` fails. -/
def Outcomes.prepareFails : Outcomes := { Outcomes.success true with prepare := fun _ => false }

/-- The template stays behind without its table, and the next start-up copies it. -/
theorem openSensorDb_tableless :
    Lib.run (attempt tagged) noFiles [.prepareFails] = some ⟨some [], none⟩ ∧
    (fdbOpenSensorDb tagged ⟨some [], none⟩ (.success true)).2 ≠ none ∧
    (fdbOpenSensorDb tagged ⟨some [], none⟩ (.success true)).1.sensor = some [] ∧
    ¬ tagged.HasTable [] := by
  rw [success_of_not_opened (fun h => h.2 rfl) rfl]
  exact ⟨rfl, by simp, rfl, tagged.not_hasTable_nil⟩

/-- One transient failure of the first `sqlite3_open_v2` empties a `sensor.db` with a row. -/
theorem sensorRows_lost : ¬ RowsKept tagged ⟨none, some [83, 7]⟩ (.success false) := by
  intro hkept
  unfold RowsKept at hkept
  rw [success_of_not_opened (fun h => absurd h.1 (by decide)) rfl] at hkept
  exact absurd hkept.length_le (by decide)

end Gateway
end LinuxPrograming
