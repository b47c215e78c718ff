import LinuxPrograming.Gateway.Gen
import LinuxPrograming.Gateway.Json
import LinuxPrograming.Gateway.Memory
import Mathlib.Data.List.Nodup

/-!
# `read_room` and the registered sensor IDs

`read_room` allocates five ints and stores the `sensorID` of the `i`-th entry of
`roomIDs` in slot `i`, for as many entries as the file has.  It neither sorts them
nor reports how many there are.  `msg_parse` runs `search(senIDs, x, 0, 5)` on the
result, a binary search whose right end is inclusive.
-/

namespace LinuxPrograming
namespace Gateway

open Lib

/-- The five-int allocation.  `none` is an int that was never written. -/
abbrev Slots := Nat → Option Int

/-- The loop over `roomIDs` from entry `i` on.  The flag records that a `sensorID`
member was freed and is still linked from its object.

Freeing an entry that is no object also frees the entries behind it, and the loop test
counts the entries through their links before the body runs again. -/
def readRoomLoop : Nat → List Json → Slots → Bool → Checked (Slots × Bool)
  | _, [], senIDs, deleted => pure (senIDs, deleted)
  | i, subRID :: rest, senIDs, deleted =>
    if subRID.isObject then
      match Json.getObjectItem (some subRID) (bytes "sensorID") with
      | some (.number valueint _) =>
        if i < 5 then readRoomLoop (i + 1) rest (Function.update senIDs i (some valueint)) deleted
        else throw .wild
      | some _ => readRoomLoop (i + 1) rest senIDs true
      | none => readRoomLoop (i + 1) rest senIDs deleted
    else throw .freed

/-- `read_room` on the parsed `room.json`, `none` for a file that could not be parsed.
The result `none` is `NULL`.  The last `cJSON_Delete(root)` walks over every member, the
freed ones included. -/
def readRoom (root : Option Json) : Checked (Option Slots) :=
  match Json.getObjectItem root (bytes "roomIDs") with
  | some (.array items) => do
    let (senIDs, deleted) ← readRoomLoop 0 items (fun _ => none) false
    if deleted then throw .freed else pure (some senIDs)
  | _ => pure none

/-- Reading a slot that was allocated and written. -/
def readSlot (senIDs : Slots) (i : Int) : Checked Int :=
  if 0 ≤ i ∧ i < 5 then
    match senIDs i.toNat with
    | some v => pure v
    | none => throw .unset
  else throw .unset

/-! ## Entries -/

/-- The number an entry contributes. -/
def sensorID (item : Json) : Option Int :=
  match Json.getObjectItem (some item) (bytes "sensorID") with
  | some (.number valueint _) => some valueint
  | _ => none

/-- An entry the loop handles without freeing anything: an object whose `sensorID` is
missing or a number. -/
def Entry (item : Json) : Prop :=
  item.isObject = true ∧
    (Json.getObjectItem (some item) (bytes "sensorID") = none ∨ (sensorID item).isSome)

theorem entry_of_sensorID {item : Json} {a : Int} (h : sensorID item = some a) :
    Entry item := by
  refine ⟨?_, Or.inr (by rw [h]; rfl)⟩
  cases item with
  | object members => rfl
  | _ => simp [sensorID, Json.getObjectItem] at h

/-- Only the first five entries carry a number. -/
def FitsFrom (i : Nat) (items : List Json) : Prop :=
  ∀ j, 5 ≤ i + j → (items[j]?).bind sensorID = none

/-- Write slot `i` when there is a number to write. -/
def storeID (senIDs : Slots) (i : Nat) (a : Option Int) : Slots :=
  fun k => if k = i then a.or (senIDs k) else senIDs k

theorem storeID_none (senIDs : Slots) (i : Nat) : storeID senIDs i none = senIDs := by
  funext k
  simp [storeID]

theorem storeID_some (senIDs : Slots) (i : Nat) (a : Int) :
    storeID senIDs i (some a) = Function.update senIDs i (some a) := by
  funext k
  by_cases hk : k = i <;> simp [storeID, hk]

theorem storeID_of_ne {i k : Nat} (h : k ≠ i) (senIDs : Slots) (a : Option Int) :
    storeID senIDs i a k = senIDs k := if_neg h

/-- The slots after the loop over `items` from entry `i` on. -/
def slotsFrom : Nat → List Json → Slots → Slots
  | _, [], senIDs => senIDs
  | i, item :: rest, senIDs => slotsFrom (i + 1) rest (storeID senIDs i (sensorID item))

theorem fitsFrom_cons {i : Nat} {item : Json} {rest : List Json} :
    FitsFrom i (item :: rest) ↔ (5 ≤ i → sensorID item = none) ∧ FitsFrom (i + 1) rest := by
  constructor
  · intro h
    refine ⟨fun hi => h 0 hi, fun j hj => ?_⟩
    exact h (j + 1) (by omega)
  · rintro ⟨h0, hrest⟩ j hj
    cases j with
    | zero => exact h0 hj
    | succ j => exact hrest j (by omega)

theorem readRoomLoop_cons {i : Nat} {item : Json} {rest : List Json} {senIDs : Slots}
    {deleted : Bool} (h : Entry item) (hfit : 5 ≤ i → sensorID item = none) :
    readRoomLoop i (item :: rest) senIDs deleted =
      readRoomLoop (i + 1) rest (storeID senIDs i (sensorID item)) deleted := by
  obtain ⟨hobj, hid⟩ := h
  rw [readRoomLoop, if_pos hobj]
  unfold sensorID at hid hfit ⊢
  rcases hget : Json.getObjectItem (some item) (bytes "sensorID") with _ | v
  · dsimp only
    rw [storeID_none]
  · rw [hget] at hid hfit
    cases v with
    | number valueint valuedouble =>
      have hi : i < 5 := by
        by_contra hi
        exact absurd (hfit (by omega)) (by simp)
      dsimp only
      rw [if_pos hi, storeID_some]
    | _ => simp at hid

theorem readRoomLoop_ok {i : Nat} {items : List Json} {senIDs : Slots} {deleted : Bool}
    (h : ∀ item ∈ items, Entry item) (hfit : FitsFrom i items) :
    readRoomLoop i items senIDs deleted = .ok (slotsFrom i items senIDs, deleted) := by
  induction items generalizing i senIDs with
  | nil => rfl
  | cons item rest ih =>
    obtain ⟨h0, hrest⟩ := fitsFrom_cons.mp hfit
    rw [readRoomLoop_cons (h item List.mem_cons_self) h0,
      ih (fun x hx => h x (List.mem_cons_of_mem item hx)) hrest]
    rfl

/-- A loop that ends with nothing freed saw only such entries. -/
theorem entries_of_readRoomLoop {i : Nat} {items : List Json} {senIDs senIDs' : Slots}
    {deleted : Bool} (h : readRoomLoop i items senIDs deleted = .ok (senIDs', false)) :
    deleted = false ∧ (∀ item ∈ items, Entry item) ∧ FitsFrom i items := by
  induction items generalizing i senIDs deleted with
  | nil =>
    rw [readRoomLoop, pure_eq_ok, Except.ok.injEq, Prod.mk.injEq] at h
    exact ⟨h.2, by simp, fun j _ => by simp⟩
  | cons item rest ih =>
    rw [readRoomLoop] at h
    by_cases hobj : item.isObject = true
    · rw [if_pos hobj] at h
      rcases hget : Json.getObjectItem (some item) (bytes "sensorID") with _ | v
      · rw [hget] at h
        obtain ⟨hd, hents, hfit⟩ := ih h
        have hid : sensorID item = none := by rw [sensorID, hget]
        exact ⟨hd, List.forall_mem_cons.mpr ⟨⟨hobj, Or.inl hget⟩, hents⟩,
          fitsFrom_cons.mpr ⟨fun _ => hid, hfit⟩⟩
      · rw [hget] at h
        cases v with
        | number valueint valuedouble =>
          dsimp only at h
          by_cases hi : i < 5
          · rw [if_pos hi] at h
            obtain ⟨hd, hents, hfit⟩ := ih h
            have hid : sensorID item = some valueint := by rw [sensorID, hget]
            exact ⟨hd, List.forall_mem_cons.mpr ⟨entry_of_sensorID hid, hents⟩,
              fitsFrom_cons.mpr ⟨fun h5 => by omega, hfit⟩⟩
          · rw [if_neg hi] at h
            exact absurd h (by simp)
        | _ => exact absurd (ih h).1 (by decide)
    · rw [if_neg hobj] at h
      exact absurd h (by simp)

theorem slotsFrom_of_lt {items : List Json} {i k : Nat} (hk : k < i) (senIDs : Slots) :
    slotsFrom i items senIDs k = senIDs k := by
  induction items generalizing i senIDs with
  | nil => rfl
  | cons item rest ih =>
    rw [slotsFrom, ih (by omega), storeID_of_ne (by omega)]

theorem slotsFrom_add {items : List Json} {i : Nat} (j : Nat) {senIDs : Slots}
    (hnone : ∀ k, i ≤ k → senIDs k = none) :
    slotsFrom i items senIDs (i + j) = (items[j]?).bind sensorID := by
  induction items generalizing i j senIDs with
  | nil => exact hnone _ (Nat.le_add_right i j)
  | cons item rest ih =>
    rw [slotsFrom]
    cases j with
    | zero =>
      have hlt : i + 0 < i + 1 := by omega
      rw [slotsFrom_of_lt hlt, List.getElem?_cons_zero, storeID, if_pos (Nat.add_zero i),
        hnone _ (Nat.le_add_right i 0), Option.or_none, Option.bind_some]
    | succ j =>
      rw [List.getElem?_cons_succ, ← ih j, show i + (j + 1) = i + 1 + j by omega]
      intro k hk
      rw [storeID_of_ne (by omega), hnone k (by omega)]

theorem slotsFrom_zero (items : List Json) (k : Nat) :
    slotsFrom 0 items (fun _ => none) k = (items[k]?).bind sensorID := by
  have h : slotsFrom 0 items (fun _ => none) (0 + k) = (items[k]?).bind sensorID :=
    slotsFrom_add k fun _ _ => rfl
  rwa [Nat.zero_add] at h

/-- `read_room` returns an array, without a fault on the way, exactly for files whose
entries are objects with a numeric `sensorID` or none, no number behind the fifth. -/
theorem readRoom_array {root : Option Json} {items : List Json}
    (hroot : Json.getObjectItem root (bytes "roomIDs") = some (.array items)) :
    (∃ senIDs, readRoom root = .ok senIDs) ↔ (∀ item ∈ items, Entry item) ∧ FitsFrom 0 items := by
  rw [readRoom, hroot]
  dsimp only
  constructor
  · rintro ⟨senIDs, h⟩
    rcases hloop : readRoomLoop 0 items (fun _ => none) false with e | ⟨slots, deleted⟩
    · rw [hloop, error_bind] at h
      exact absurd h (by simp)
    · rw [hloop, ok_bind] at h
      cases deleted with
      | true => exact absurd h (by simp)
      | false => exact (entries_of_readRoomLoop hloop).2
  · rintro ⟨hents, hfit⟩
    rw [readRoomLoop_ok hents hfit, ok_bind]
    exact ⟨_, rfl⟩

theorem readRoom_eq {root : Option Json} {items : List Json}
    (hroot : Json.getObjectItem root (bytes "roomIDs") = some (.array items))
    (hents : ∀ item ∈ items, Entry item) (hfit : FitsFrom 0 items) :
    readRoom root = .ok (some (slotsFrom 0 items fun _ => none)) := by
  rw [readRoom, hroot]
  dsimp only
  rw [readRoomLoop_ok hents hfit, ok_bind]
  rfl

end Gateway
end LinuxPrograming
