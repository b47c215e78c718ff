import LinuxPrograming.Gateway.DataMgr
import LinuxPrograming.Lib.CInt
import Mathlib.Tactic.Linarith
import Mathlib.Tactic.Ring

/-!
# What the client sends

`getMsg` builds a JSON object from the time, the sensor and the temperature, and prints
it.  The print and the parse of cJSON are parameters; what the results need of them is that
the objects concerned survive both.
-/

namespace LinuxPrograming
namespace Gateway

open Lib

/-! ## `get_timestamp` -/

/-- The fields of `struct tm` that `get_timestamp` prints. -/
structure Tm where
  year : Int
  mon : Int
  mday : Int
  hour : Int
  min : Int
  sec : Int

/-- `%02d`. -/
def decimal02 (n : Int) : Bytes := if 0 ≤ n ∧ n < 10 then bytes "0" ++ decimal n else decimal n

/-- `TIME_LENGTH`. -/
def timeLength : Nat := 64

/-- `get_timestamp(time)` for the local time `tm`: `snprintf` cuts the text to what fits with
its NUL. -/
def getTimestamp (tm : Tm) : Bytes :=
  (decimal (tm.year + 1900) ++ bytes "/" ++ decimal02 (tm.mon + 1) ++ bytes "/" ++
    decimal02 tm.mday ++ bytes " " ++ decimal02 tm.hour ++ bytes ":" ++ decimal02 tm.min ++
    bytes ":" ++ decimal02 tm.sec).take (timeLength - 1)

theorem getTimestamp_fits (tm : Tm) : (getTimestamp tm).length < tsSize := by
  have hle : (getTimestamp tm).length ≤ timeLength - 1 := List.length_take_le _ _
  have hsize : timeLength - 1 < tsSize := by decide
  omega

example : getTimestamp ⟨123, 10, 21, 10, 5, 0⟩ = bytes "2023/11/21 10:05:00" := by
  decide +kernel

/-! ## `getMsg` -/

def intMin : Int := -maxInt - 1

/-- The conversion of a `double` to `int`, which goes towards zero. -/
def truncate (q : Rat) : Int := if 0 ≤ q then q.floor else -(-q).floor

/-- `cJSON_CreateNumber(num)`. -/
def cJSONCreateNumber (num : Rat) : Json :=
  .number (if maxInt ≤ num then maxInt else if num ≤ intMin then intMin else truncate num) num

/-- The object that `getMsg` prints. -/
def msgObject (timestamp : Bytes) (senID : Int) (temp : Rat) : Json :=
  .object [(bytes "timestamp", .string timestamp), (bytes "sensorID", cJSONCreateNumber senID),
    (bytes "temperature", cJSONCreateNumber temp)]

/-- `getMsg(msg, senID, temp)` at the time `tm`. -/
def getMsg (cJSONPrintUnformatted : Json → Bytes) (tm : Tm) (senID : Int) (temp : Rat) : Bytes :=
  cJSONPrintUnformatted (msgObject (getTimestamp tm) senID temp)

theorem truncate_intCast (n : Int) : truncate n = n := by
  unfold truncate
  split
  · exact Rat.floor_intCast n
  · rw [show (-(n : Rat)) = ((-n : Int) : Rat) by push_cast; rfl, Rat.floor_intCast]
    exact neg_neg n

/-- An `int` survives the way through `double`. -/
theorem cJSONCreateNumber_intCast {n : Int} (hmin : intMin ≤ n) (hmax : n ≤ maxInt) :
    cJSONCreateNumber n = .number n n := by
  have hle : ((maxInt : Rat) ≤ n) ↔ maxInt ≤ n := Int.cast_le
  have hge : ((n : Rat) ≤ intMin) ↔ n ≤ intMin := Int.cast_le
  have hvalue : (if (maxInt : Rat) ≤ n then maxInt else if (n : Rat) ≤ intMin then intMin
      else truncate n) = n := by
    rw [truncate_intCast]
    simp only [hle, hge]
    split
    · omega
    · split
      · omega
      · rfl
  rw [cJSONCreateNumber, hvalue]

theorem view_msgObject (timestamp : Bytes) {senID : Int} (hmin : intMin ≤ senID)
    (hmax : senID ≤ maxInt) (temp : Rat) :
    view (some (msgObject timestamp senID temp)) = .sensor senID (some timestamp) (some temp) := by
  rw [msgObject, cJSONCreateNumber_intCast hmin hmax]
  rfl

/-! ## Rounding -/

theorem floor_add_half_nearest {q : Rat} (hq : 0 ≤ q) :
    |q - (q + 1 / 2).floor| ≤ 1 / 2 ∧
      (|q - (q + 1 / 2).floor| = 1 / 2 → |q| < |((q + 1 / 2).floor : Rat)|) := by
  have hle := Rat.floor_le (q + 1 / 2)
  have hlt := Rat.lt_floor_add_one (q + 1 / 2)
  push_cast at hlt
  constructor
  · rw [abs_le]
    constructor <;> linarith
  · intro htie
    have hup : ((q + 1 / 2).floor : Rat) = q + 1 / 2 := by
      rcases abs_choice (q - (q + 1 / 2).floor) with habs | habs <;> linarith
    rw [hup, abs_of_nonneg hq, abs_of_nonneg (by linarith)]
    linarith

/-- The nearest integer, away from zero where two are equally near. -/
theorem roundHalfAway_nearest (q : Rat) :
    |q - roundHalfAway q| ≤ 1 / 2 ∧
      (|q - roundHalfAway q| = 1 / 2 → |q| < |(roundHalfAway q : Rat)|) := by
  by_cases hq : 0 ≤ q
  · rw [roundHalfAway, if_pos hq]
    exact floor_add_half_nearest hq
  · have hneg := floor_add_half_nearest (q := -q) (by linarith)
    have habs : |q - ((-(-q + 1 / 2).floor : Int) : Rat)| = |-q - (-q + 1 / 2).floor| := by
      push_cast
      rw [← abs_neg]
      congr 1
      ring
    rw [roundHalfAway, if_neg hq, habs]
    push_cast
    rw [abs_neg, ← abs_neg q]
    exact hneg

theorem roundHalfAway_intCast (n : Int) : roundHalfAway n = n := by
  have hfloor : ∀ k : Int, ((k : Rat) + 1 / 2).floor = k := by
    intro k
    have hle : k ≤ ((k : Rat) + 1 / 2).floor := Rat.le_floor_iff.mpr (by linarith)
    have hlt : ((k : Rat) + 1 / 2).floor < k + 1 := Rat.floor_lt_iff.mpr (by push_cast; linarith)
    omega
  rw [roundHalfAway]
  split
  · exact hfloor n
  · rw [show (-(n : Rat)) = ((-n : Int) : Rat) by push_cast; rfl, hfloor]
    exact neg_neg n

/-- The nearest tenth, away from zero where two are equally near. -/
theorem roundTenth_nearest (d : Rat) :
    ∃ n : Int, roundTenth d = n / 10 ∧ |d - roundTenth d| ≤ 1 / 20 ∧
      (|d - roundTenth d| = 1 / 20 → |d| < |roundTenth d|) := by
  obtain ⟨hnear, htie⟩ := roundHalfAway_nearest (d * 10)
  have htenth : roundTenth d = (roundHalfAway (d * 10) : Rat) / 10 := rfl
  have hdiff : |d * 10 - roundHalfAway (d * 10)| = |d - roundTenth d| * 10 := by
    rw [htenth, ← abs_of_pos (show (0 : Rat) < 10 by decide), ← abs_mul,
      abs_of_pos (show (0 : Rat) < 10 by decide)]
    congr 1
    ring
  rw [hdiff] at hnear htie
  refine ⟨roundHalfAway (d * 10), htenth, by linarith, fun heq => ?_⟩
  have hlt := htie (by linarith)
  rw [abs_mul, abs_of_pos (show (0 : Rat) < 10 by decide)] at hlt
  rw [htenth, abs_div, abs_of_pos (show (0 : Rat) < 10 by decide)]
  linarith

theorem roundTenth_roundTenth (d : Rat) : roundTenth (roundTenth d) = roundTenth d := by
  have htenth : roundTenth d * 10 = roundHalfAway (d * 10) := by
    rw [roundTenth]
    ring
  rw [roundTenth, htenth, roundHalfAway_intCast, roundTenth]

/-! ## The way to the server -/

/-- A registered sensor is found, whatever lies behind the array. -/
theorem search_registered {senIDs : Slots} {a₀ a₁ a₂ a₃ a₄ : Int}
    (hslots : ∀ k, senIDs k = [a₀, a₁, a₂, a₃, a₄][k]?)
    (hlt : [a₀, a₁, a₂, a₃, a₄].Pairwise (· < ·)) (after : Int) {senID : Int}
    (hmem : senID ∈ [a₀, a₁, a₂, a₃, a₄]) :
    search (readPast senIDs after) senID 0 5 = .ok true := by
  obtain ⟨found, hfound, hiff⟩ := search_increasing hslots hlt after senID
  rw [hfound, hiff.mpr (Or.inl hmem)]

/-- `msg_parse` on a message of `getMsg` that survives cJSON. -/
theorem msgParse_getMsg {cJSONPrintUnformatted : Json → Bytes}
    {cJSONParse : Bytes → Option Json} {senIDs : Int → Checked Int} {tm : Tm} {senID : Int}
    {temp : Rat}
    (hjson : cJSONParse (cJSONPrintUnformatted (msgObject (getTimestamp tm) senID temp)) =
      some (msgObject (getTimestamp tm) senID temp))
    (hmin : intMin ≤ senID) (hmax : senID ≤ maxInt) (hsearch : search senIDs senID 0 5 = .ok true)
    (parsed : Msg) :
    msgParse cJSONParse senIDs parsed (getMsg cJSONPrintUnformatted tm senID temp) =
      .ok (0, ⟨getTimestamp tm, roundTenth temp, senID⟩) := by
  have hview : view (cJSONParse (getMsg cJSONPrintUnformatted tm senID temp)) =
      .sensor senID (some (getTimestamp tm)) (some temp) := by
    rw [getMsg, hjson]
    exact view_msgObject _ hmin hmax temp
  exact (msgParse_sensor_eq_ok_zero hview hsearch _).mpr
    ⟨rfl, _, _, rfl, getTimestamp_fits tm, rfl, rfl⟩

/-- The server decodes what the client encoded: the same sensor, the string of
`get_timestamp`, and the nearest tenth of the temperature, which a second round through both
leaves alone. -/
theorem getMsg_decoded {senIDs : Slots} {a₀ a₁ a₂ a₃ a₄ : Int}
    (hslots : ∀ k, senIDs k = [a₀, a₁, a₂, a₃, a₄][k]?)
    (hlt : [a₀, a₁, a₂, a₃, a₄].Pairwise (· < ·)) (after : Int) {senID : Int}
    (hmem : senID ∈ [a₀, a₁, a₂, a₃, a₄]) (hmin : intMin ≤ senID) (hmax : senID ≤ maxInt)
    (cJSONPrintUnformatted : Json → Bytes) (cJSONParse : Bytes → Option Json) (tm tm' : Tm)
    (temp : Rat)
    (hjson : cJSONParse (cJSONPrintUnformatted (msgObject (getTimestamp tm) senID temp)) =
      some (msgObject (getTimestamp tm) senID temp))
    (hjson' : cJSONParse (cJSONPrintUnformatted
        (msgObject (getTimestamp tm') senID (roundTenth temp))) =
      some (msgObject (getTimestamp tm') senID (roundTenth temp)))
    (parsed parsed' : Msg) :
    msgParse cJSONParse (readPast senIDs after) parsed
        (getMsg cJSONPrintUnformatted tm senID temp) =
      .ok (0, ⟨getTimestamp tm, roundTenth temp, senID⟩) ∧
    (getTimestamp tm).length < tsSize ∧
    (∃ n : Int, roundTenth temp = n / 10 ∧ |temp - roundTenth temp| ≤ 1 / 20 ∧
      (|temp - roundTenth temp| = 1 / 20 → |temp| < |roundTenth temp|)) ∧
    msgParse cJSONParse (readPast senIDs after) parsed'
        (getMsg cJSONPrintUnformatted tm' senID (roundTenth temp)) =
      .ok (0, ⟨getTimestamp tm', roundTenth temp, senID⟩) := by
  have hsearch := search_registered hslots hlt after hmem
  refine ⟨msgParse_getMsg hjson hmin hmax hsearch parsed, getTimestamp_fits tm,
    roundTenth_nearest temp, ?_⟩
  have hagain := msgParse_getMsg hjson' hmin hmax hsearch parsed'
  rwa [roundTenth_roundTenth] at hagain

def stamp : Tm := ⟨123, 10, 21, 10, 0, 0⟩

def readingQuarter : Bytes :=
  bytes "\x7b\"timestamp\":\"2023/11/21 10:00:00\",\"sensorID\":1,\"temperature\":20.25\x7d"

def readingTenth : Bytes :=
  bytes "\x7b\"timestamp\":\"2023/11/21 10:00:00\",\"sensorID\":1,\"temperature\":20.3\x7d"

/-- A printer and a parser that know the readings 20.25 and 20.3 of sensor 1. -/
def printQuarter (json : Json) : Bytes :=
  if temperatureOf json = some (81 / 4) then readingQuarter else readingTenth

def parseQuarter (text : Bytes) : Option Json :=
  if text = readingQuarter then some (msgObject (getTimestamp stamp) 1 (81 / 4))
  else if text = readingTenth then some (msgObject (getTimestamp stamp) 1 (203 / 10))
  else none

theorem getMsg_decoded_quarter :
    roundTenth (81 / 4) = 203 / 10 ∧
    msgParse parseQuarter (readPast (fun k => [1, 2, 3, 4, 5][k]?) 7) ⟨[], 0, 0⟩
        (getMsg printQuarter stamp 1 (81 / 4)) =
      .ok (0, ⟨getTimestamp stamp, roundTenth (81 / 4), 1⟩) := by
  have hround : roundTenth (81 / 4) = 203 / 10 := by decide +kernel
  have hprint : printQuarter (msgObject (getTimestamp stamp) 1 (81 / 4)) = readingQuarter :=
    if_pos rfl
  have hprint' : printQuarter (msgObject (getTimestamp stamp) 1 (203 / 10)) = readingTenth :=
    if_neg (show ¬ some (203 / 10 : Rat) = some (81 / 4) by decide +kernel)
  have hjson : parseQuarter readingQuarter = some (msgObject (getTimestamp stamp) 1 (81 / 4)) :=
    if_pos rfl
  have hjson' : parseQuarter readingTenth = some (msgObject (getTimestamp stamp) 1 (203 / 10)) := by
    rw [parseQuarter, if_neg (by decide +kernel), if_pos rfl]
  refine ⟨hround, (getMsg_decoded (fun _ => rfl) (by decide) 7 (by decide) (by decide) (by decide)
    printQuarter parseQuarter stamp stamp (81 / 4) ?_ ?_ ⟨[], 0, 0⟩ ⟨[], 0, 0⟩).1⟩
  · rw [hprint, hjson]
  · rw [hround, hprint', hjson']

end Gateway
end LinuxPrograming
