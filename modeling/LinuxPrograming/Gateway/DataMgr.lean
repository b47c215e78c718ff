import LinuxPrograming.Gateway.Msg
import LinuxPrograming.Gateway.Net
import LinuxPrograming.Gateway.Registered
import LinuxPrograming.Gateway.Window
import LinuxPrograming.Lib.Printf
import LinuxPrograming.Lib.Run

/-!
# The loop of `data_mgr`

Each message that `msg_parse` accepts goes through the windows and is reported when a
mean is due.  The row of the window is the `senID` of the record, which no one compares
with the size of the arrays.
-/

namespace LinuxPrograming
namespace Gateway

open Lib

/-- `OS_MSG_SIZE`. -/
def osMsgSize : Nat := 128

def sensorCold : Bytes := bytes
  "%s [WARNING]: The sensor node with ID '%d' reports it's cold (avg temperature = <%.1lf>)."

def sensorHot : Bytes := bytes
  "%s [WARNING]: The sensor node with ID '%d' reports it's hot (avg temperature = <%.1lf>)."

def sensorTemp : Bytes := bytes
  "%s [INFO]: The sensor node with ID '%d' (avg temperature = <%.1lf>)."

/-- `write_to_pipe` up to the `write`: the line formatted into `char msg[OS_MSG_SIZE]`. -/
def writeToPipe (sendBuf : Bytes) (args : List Arg) : Checked Bytes :=
  strcpy osMsgSize (vsprintf sendBuf args)

/-- The part of the loop of `data_mgr` behind the computation of `temp_avg`: the line it
writes, if it writes one. -/
def report (parsed : Msg) (tempAvg : Rat) : Checked (Option Bytes) :=
  let args := [.str parsed.ts, .int parsed.senID, .double tempAvg]
  if tempAvg ≤ 0 then pure none
  else if 26 ≤ tempAvg then do
    let line ← writeToPipe (sensorHot ++ bytes "\n") args
    pure (some line)
  else if tempAvg ≤ 24 then do
    let line ← writeToPipe (sensorCold ++ bytes "\n") args
    pure (some line)
  else do
    let line ← writeToPipe (sensorTemp ++ bytes "\n") args
    pure (some line)

/-- The locals of `data_mgr` that live across its loop. -/
structure DataMgr where
  parsed : Msg
  windows : Windows

/-- The state before the loop.  The record is allocated and not initialised. -/
def DataMgr.init (parsed : Msg) : DataMgr := ⟨parsed, Windows.init⟩

/-- The loop of `data_mgr` from the call of `msg_parse` on: the new locals and the line
written to the pipe. -/
def handle (cJSONParse : Bytes → Option Json) (senIDs : Int → Checked Int) (s : DataMgr)
    (msg : Bytes) : Checked (DataMgr × Option Bytes) := do
  let (ret, parsed) ← msgParse cJSONParse senIDs s.parsed msg
  if ret = 0 then do
    let (windows, tempAvg) ← accept s.windows parsed.senID parsed.temp
    let line ← report parsed tempAvg
    pure (⟨parsed, windows⟩, line)
  else pure (⟨parsed, s.windows⟩, none)

/-- The loop as a machine over messages.  It stops at a fault. -/
def dataMgrNext (cJSONParse : Bytes → Option Json) (senIDs : Int → Checked Int) (s : DataMgr)
    (msg : Bytes) : Option DataMgr :=
  match handle cJSONParse senIDs s msg with
  | .ok (t, _) => some t
  | .error _ => none

/-! ## The invariant of the windows -/

/-- The windows are those of some sequence of accepted readings. -/
def DataMgr.Windowed (s : DataMgr) : Prop := ∃ rs, s.windows.Rep rs

theorem DataMgr.init_windowed (parsed : Msg) : (DataMgr.init parsed).Windowed :=
  ⟨[], Windows.init_rep⟩

theorem accept_cases {w : Windows} {rs : List Reading} (h : w.Rep rs) (s : Int) (t : Rat) :
    (1 ≤ s ∧ s ≤ 5 ∧ ∃ w', accept w s t = .ok (w', meanOfLastFive (ofSensor s rs ++ [t])) ∧
      w'.Rep (rs ++ [(s, t)])) ∨ ¬ (1 ≤ s ∧ s ≤ 5) ∧ accept w s t = .error .index := by
  by_cases hs : 1 ≤ s ∧ s ≤ 5
  · exact Or.inl ⟨hs.1, hs.2, accept_spec h hs.1 hs.2 t⟩
  · exact Or.inr ⟨hs, accept_error hs t⟩

theorem report_ne_index (parsed : Msg) (tempAvg : Rat) :
    report parsed tempAvg ≠ .error .index := by
  have hwrite : ∀ fmt args, (writeToPipe fmt args >>= fun line => pure (some line)) ≠
      (.error .index : Checked (Option Bytes)) := by
    intro fmt args
    rw [writeToPipe, strcpy]
    split <;> simp
  rw [report]
  split_ifs
  · simp
  · exact hwrite _ _
  · exact hwrite _ _
  · exact hwrite _ _

/-! ## Which messages stay inside the arrays -/

section

variable {cJSONParse : Bytes → Option Json} {senIDs : Int → Checked Int} {s t : DataMgr}
  {msg : Bytes}

theorem handle_of_accepted {parsed : Msg}
    (h : msgParse cJSONParse senIDs s.parsed msg = .ok (0, parsed)) :
    handle cJSONParse senIDs s msg = (do
      let (windows, tempAvg) ← accept s.windows parsed.senID parsed.temp
      let line ← report parsed tempAvg
      pure (⟨parsed, windows⟩, line)) := by
  rw [handle, h, ok_bind]
  exact if_pos rfl

theorem handle_of_rejected {ret : Int} {parsed : Msg}
    (h : msgParse cJSONParse senIDs s.parsed msg = .ok (ret, parsed)) (hret : ret ≠ 0) :
    handle cJSONParse senIDs s msg = .ok (⟨parsed, s.windows⟩, none) := by
  rw [handle, h, ok_bind]
  exact if_neg hret

theorem handle_of_error {e : Fault}
    (h : msgParse cJSONParse senIDs s.parsed msg = .error e) :
    handle cJSONParse senIDs s msg = .error e := by
  rw [handle, h, error_bind]

theorem dataMgrNext_windowed (hs : s.Windowed)
    (hstep : dataMgrNext cJSONParse senIDs s msg = some t) : t.Windowed := by
  obtain ⟨rs, hrs⟩ := hs
  rw [dataMgrNext] at hstep
  rcases hparse : msgParse cJSONParse senIDs s.parsed msg with e | ⟨ret, parsed⟩
  · rw [handle_of_error hparse] at hstep
    cases hstep
  · by_cases hret : ret = 0
    · subst hret
      rw [handle_of_accepted hparse] at hstep
      rcases accept_cases hrs parsed.senID parsed.temp with ⟨-, -, w', hacc, hrep⟩ | ⟨-, hacc⟩
      · rw [hacc, ok_bind] at hstep
        dsimp only at hstep
        rcases hline : report parsed
          (meanOfLastFive (ofSensor parsed.senID rs ++ [parsed.temp])) with e | line
        · rw [hline, error_bind] at hstep
          cases hstep
        · rw [hline, ok_bind] at hstep
          obtain rfl := Option.some.inj hstep
          exact ⟨_, hrep⟩
      · rw [hacc, error_bind] at hstep
        cases hstep
    · rw [handle_of_rejected hparse hret] at hstep
      obtain rfl := Option.some.inj hstep
      exact ⟨rs, hrs⟩

/-- The accesses to the windows are in range exactly when an accepted message leaves a
`senID` from 1 to 5 in the record. -/
theorem handle_ne_index_iff (hs : s.Windowed)
    (hparse : msgParse cJSONParse senIDs s.parsed msg ≠ .error .index) :
    handle cJSONParse senIDs s msg ≠ .error .index ↔
      ∀ parsed, msgParse cJSONParse senIDs s.parsed msg = .ok (0, parsed) →
        1 ≤ parsed.senID ∧ parsed.senID ≤ 5 := by
  obtain ⟨rs, hrs⟩ := hs
  rcases hp : msgParse cJSONParse senIDs s.parsed msg with e | ⟨ret, parsed⟩
  · rw [hp] at hparse
    rw [handle_of_error hp]
    simpa using hparse
  · by_cases hret : ret = 0
    · subst hret
      rw [handle_of_accepted hp]
      have honly : (∀ p, (Except.ok (0, parsed) : Checked (Int × Msg)) = .ok (0, p) →
          1 ≤ p.senID ∧ p.senID ≤ 5) ↔ 1 ≤ parsed.senID ∧ parsed.senID ≤ 5 := by
        simp
      rw [honly]
      rcases accept_cases hrs parsed.senID parsed.temp with ⟨h1, h5, w', hacc, -⟩ | ⟨hno, hacc⟩
      · rw [hacc, ok_bind]
        refine iff_of_true ?_ ⟨h1, h5⟩
        dsimp only
        rcases hline : report parsed
          (meanOfLastFive (ofSensor parsed.senID rs ++ [parsed.temp])) with e | line
        · rw [error_bind]
          have hne := report_ne_index parsed
            (meanOfLastFive (ofSensor parsed.senID rs ++ [parsed.temp]))
          rw [hline] at hne
          simpa using hne
        · simp
      · rw [hacc, error_bind]
        exact iff_of_false (by simp) hno
    · rw [handle_of_rejected hp hret]
      refine iff_of_true (by simp) fun p hp' => ?_
      rw [Except.ok.injEq, Prod.mk.injEq] at hp'
      exact absurd hp'.1 hret

end

/-- In terms of the message: an object without a numeric `sensorID` comes only while the
record holds an ID from 1 to 5, and a complete reading of a recognised sensor carries
such an ID. -/
def StaysInside (recognised : Int → Prop) (s : DataMgr) : View → Prop
  | .other => True
  | .unnamed => 1 ≤ s.parsed.senID ∧ s.parsed.senID ≤ 5
  | .sensor senID ts temp =>
    recognised senID → (∃ t, ts = some t ∧ t.length < tsSize) → temp.isSome →
      1 ≤ senID ∧ senID ≤ 5

theorem search_increasing {senIDs : Slots} {a₀ a₁ a₂ a₃ a₄ : Int}
    (h : ∀ k, senIDs k = [a₀, a₁, a₂, a₃, a₄][k]?)
    (hlt : [a₀, a₁, a₂, a₃, a₄].Pairwise (· < ·)) (after x : Int) :
    ∃ found, search (readPast senIDs after) x 0 5 = .ok found ∧
      (found = true ↔ x ∈ [a₀, a₁, a₂, a₃, a₄] ∨ a₄ < x ∧ x = after) := by
  obtain ⟨found, hf, hiff⟩ := search_full h after x
  refine ⟨found, hf, hiff.trans ?_⟩
  simp only [List.pairwise_cons, List.mem_cons, List.not_mem_nil, or_false, forall_eq_or_imp,
    forall_eq] at hlt ⊢
  unfold Hits
  omega

theorem handle_stays_iff {senIDs : Slots} {a₀ a₁ a₂ a₃ a₄ : Int}
    (hslots : ∀ k, senIDs k = [a₀, a₁, a₂, a₃, a₄][k]?)
    (hlt : [a₀, a₁, a₂, a₃, a₄].Pairwise (· < ·)) (after : Int)
    (cJSONParse : Bytes → Option Json) {s : DataMgr} (hs : s.Windowed) (msg : Bytes) :
    handle cJSONParse (readPast senIDs after) s msg ≠ .error .index ↔
      StaysInside (fun x => x ∈ [a₀, a₁, a₂, a₃, a₄] ∨ a₄ < x ∧ x = after) s
        (view (cJSONParse msg)) := by
  cases hview : view (cJSONParse msg) with
  | other =>
    have hparse := msgParse_other (readPast senIDs after) s.parsed hview
    rw [handle_of_rejected hparse (by decide)]
    exact iff_of_true (by simp) trivial
  | unnamed =>
    have hparse := msgParse_unnamed (readPast senIDs after) s.parsed hview
    rw [handle_ne_index_iff hs (by rw [hparse]; simp), hparse, StaysInside]
    simp
  | sensor x ts temp =>
    obtain ⟨found, hf, hiff⟩ := search_increasing hslots hlt after x
    rw [handle_ne_index_iff hs (msgParse_sensor_ne_index hview hf), StaysInside]
    simp only [msgParse_sensor_eq_ok_zero hview hf, hiff]
    constructor
    · rintro h hrec ⟨t, rfl, hlen⟩ htemp
      obtain ⟨q, rfl⟩ := Option.isSome_iff_exists.mp htemp
      exact h ⟨t, roundTenth q, x⟩ ⟨hrec, t, q, rfl, hlen, rfl, rfl⟩
    · rintro h parsed ⟨hrec, t, q, rfl, hlen, rfl, rfl⟩
      exact h hrec ⟨t, rfl, hlen⟩ rfl

/-- The object that `getMsg` prints. -/
def messageJson (timestamp : Bytes) (sensorID : Int) (temperature : Rat) : Json :=
  .object [(bytes "timestamp", .string timestamp), (bytes "sensorID", .number sensorID sensorID),
    (bytes "temperature", .number temperature.floor temperature)]

/-- A parser that knows one text. -/
def parseOne (text : Bytes) (json : Json) (msg : Bytes) : Option Json :=
  if msg = text then some json else none

theorem view_parseOne (text ts : Bytes) (senID : Int) (temp : Rat) :
    view (parseOne text (messageJson ts senID temp) text) = .sensor senID (some ts) (some temp) := by
  rw [parseOne, if_pos rfl]
  rfl

def readingSix : Bytes :=
  bytes "\x7b\"timestamp\":\"2023/11/21 10:00:00\",\"sensorID\":6,\"temperature\":20\x7d"

end Gateway
end LinuxPrograming
