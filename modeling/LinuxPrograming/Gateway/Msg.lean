import LinuxPrograming.Gateway.Gen
import LinuxPrograming.Gateway.Json
import LinuxPrograming.Gateway.Memory

/-!
# `msg_parse`

The text is parsed by `cJSON_Parse`, which is a parameter here.  `parsed` is the record
`*msg_parsed` points to.  It is written field by field, also when a later field makes
the message fail.
-/

namespace LinuxPrograming
namespace Gateway

open Lib

/-- `msg_t`. -/
structure Msg where
  ts : Bytes
  temp : Rat
  senID : Int

/-- The size of `msg_t.ts`. -/
def tsSize : Nat := 64

/-- `round` of the C library: halves go away from zero. -/
def roundHalfAway (q : Rat) : Int := if 0 ≤ q then (q + 1 / 2).floor else -(-q + 1 / 2).floor

/-- `round(d * 10) / 10`. -/
def roundTenth (d : Rat) : Rat := roundHalfAway (d * 10) / 10

/-- `msg_parse(&parsed, msg, senIDs)`: the returned value and the record afterwards. -/
def msgParse (cJSONParse : Bytes → Option Json) (senIDs : Int → Checked Int) (parsed : Msg)
    (msg : Bytes) : Checked (Int × Msg) :=
  match cJSONParse msg with
  | some (.object members) =>
    let msgRoot := some (Json.object members)
    match Json.getObjectItem msgRoot (bytes "sensorID") with
    | some (.number senID _) => do
      if ← search senIDs senID 0 5 then
        let parsed := { parsed with senID := senID }
        match Json.getObjectItem msgRoot (bytes "timestamp") with
        | some (.string valuestring) => do
          let ts ← strcpy tsSize valuestring
          let parsed := { parsed with ts := ts }
          match Json.getObjectItem msgRoot (bytes "temperature") with
          | some (.number _ valuedouble) => pure (0, { parsed with temp := roundTenth valuedouble })
          | _ => pure (-1, parsed)
        | _ => pure (-1, parsed)
      else pure (-1, parsed)
    -- Without a numeric sensorID nothing is looked at, and the result is still 0.
    | _ => pure (0, parsed)
  | _ => pure (-1, parsed)

/-! ## What a message says -/

/-- A message as far as `msg_parse` tells messages apart. -/
inductive View where
  /-- No JSON object. -/
  | other
  /-- An object without a numeric `sensorID`. -/
  | unnamed
  /-- The sensor, and the timestamp and temperature if they have the right type. -/
  | sensor (senID : Int) (ts : Option Bytes) (temp : Option Rat)

def timestampOf (root : Json) : Option Bytes :=
  match Json.getObjectItem (some root) (bytes "timestamp") with
  | some (.string valuestring) => some valuestring
  | _ => none

def temperatureOf (root : Json) : Option Rat :=
  match Json.getObjectItem (some root) (bytes "temperature") with
  | some (.number _ valuedouble) => some valuedouble
  | _ => none

def view : Option Json → View
  | some (.object members) =>
    match Json.getObjectItem (some (.object members)) (bytes "sensorID") with
    | some (.number senID _) =>
      .sensor senID (timestampOf (.object members)) (temperatureOf (.object members))
    | _ => .unnamed
  | _ => .other

variable {cJSONParse : Bytes → Option Json} (senIDs : Int → Checked Int) (parsed : Msg)
  {msg : Bytes}

theorem msgParse_other (h : view (cJSONParse msg) = .other) :
    msgParse cJSONParse senIDs parsed msg = .ok (-1, parsed) := by
  unfold view at h
  unfold msgParse
  split
  · next members hroot =>
    rw [hroot] at h
    dsimp only at h
    split at h <;> cases h
  · rfl

theorem msgParse_unnamed (h : view (cJSONParse msg) = .unnamed) :
    msgParse cJSONParse senIDs parsed msg = .ok (0, parsed) := by
  unfold view at h
  unfold msgParse
  split
  · next members hroot =>
    rw [hroot] at h
    dsimp only at h ⊢
    split at h
    · cases h
    · rfl
  · next hroot =>
    split at h
    · next members hroot' => exact absurd hroot' (hroot members)
    · cases h

theorem msgParse_sensor {senID : Int} {ts : Option Bytes} {temp : Option Rat}
    (h : view (cJSONParse msg) = .sensor senID ts temp) :
    msgParse cJSONParse senIDs parsed msg = (do
      if ← search senIDs senID 0 5 then
        match ts with
        | none => pure (-1, { parsed with senID := senID })
        | some ts => do
          let ts ← strcpy tsSize ts
          match temp with
          | none => pure (-1, { parsed with senID := senID, ts := ts })
          | some temp => pure (0, { senID := senID, ts := ts, temp := roundTenth temp })
      else pure (-1, parsed)) := by
  unfold view at h
  unfold msgParse
  split
  · next members hroot =>
    rw [hroot] at h
    dsimp only at h ⊢
    split at h
    · cases h
      refine bind_congr fun found => ?_
      cases found
      · rfl
      · rw [if_pos rfl, if_pos rfl, timestampOf]
        rcases Json.getObjectItem (some (.object members)) (bytes "timestamp") with _ | v
        · rfl
        · cases v with
          | string valuestring =>
            refine bind_congr fun ts => ?_
            rw [temperatureOf]
            rcases Json.getObjectItem (some (.object members)) (bytes "temperature") with _ | v
            · rfl
            · cases v <;> rfl
          | _ => rfl
    · cases h
  · next hroot =>
    split at h
    · next members hroot' => exact absurd hroot' (hroot members)
    · cases h

variable {senIDs} {parsed}

/-- When the search ends, a message that names a sensor is accepted exactly when the sensor
is found and the other two members have the right type.  A timestamp that does not fit
is a fault. -/
theorem msgParse_sensor_eq_ok_zero {senID : Int} {ts : Option Bytes} {temp : Option Rat}
    (h : view (cJSONParse msg) = .sensor senID ts temp) {found : Bool}
    (hsearch : search senIDs senID 0 5 = .ok found) (parsed' : Msg) :
    msgParse cJSONParse senIDs parsed msg = .ok (0, parsed') ↔
      found = true ∧ ∃ t q, ts = some t ∧ t.length < tsSize ∧ temp = some q ∧
        parsed' = ⟨t, roundTenth q, senID⟩ := by
  rw [msgParse_sensor senIDs parsed h, hsearch, ok_bind]
  cases found with
  | false => simp
  | true =>
    rw [if_pos rfl]
    cases ts with
    | none => simp
    | some t =>
      dsimp only
      by_cases hlen : t.length < tsSize
      · rw [strcpy_of_lt hlen, ok_bind]
        cases temp with
        | none => simp
        | some q => simp [hlen, eq_comm]
      · rw [strcpy_of_le (by omega), error_bind]
        simp [hlen]

theorem msgParse_sensor_ne_index {senID : Int} {ts : Option Bytes} {temp : Option Rat}
    (h : view (cJSONParse msg) = .sensor senID ts temp) {found : Bool}
    (hsearch : search senIDs senID 0 5 = .ok found) :
    msgParse cJSONParse senIDs parsed msg ≠ .error .index := by
  rw [msgParse_sensor senIDs parsed h, hsearch, ok_bind]
  cases found with
  | false => simp
  | true =>
    rw [if_pos rfl]
    cases ts with
    | none => simp
    | some t =>
      dsimp only
      rw [strcpy]
      split
      · cases temp <;> simp
      · simp

end Gateway
end LinuxPrograming
