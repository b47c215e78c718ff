import LinuxPrograming.Gateway.Room

/-!
# Which sensor IDs are recognised

`msg_parse` calls `search(senIDs, x, 0, 5)` on the array of `read_room`.  The search
halves its window on the order of the slots, which is the order of `room.json`, and
its last index, 5, is one past the allocation.
-/

namespace LinuxPrograming
namespace Gateway

open Lib

theorem readSlot_eq_ok {senIDs : Slots} {k : Nat} (hk : k < 5) {v : Int} :
    readSlot senIDs k = .ok v ↔ senIDs k = some v := by
  rw [readSlot, if_pos ⟨by omega, by omega⟩, Int.toNat_natCast]
  cases senIDs k <;> simp

theorem readSlot_five (senIDs : Slots) : readSlot senIDs 5 = .error .unset :=
  if_neg (by decide)

/-! ## The slots that are read -/

/-- The slots on the path of the search for `x` hold a number, and the path does not
reach slot 5. -/
def SlotsOnPath (senIDs : Slots) (x : Int) : Prop :=
  ∃ a₂, senIDs 2 = some a₂ ∧
    (x < a₂ → ∃ a₀, senIDs 0 = some a₀ ∧ (a₀ < x → ∃ a₁, senIDs 1 = some a₁)) ∧
    (a₂ < x → ∃ a₄, senIDs 4 = some a₄ ∧ x ≤ a₄ ∧ (x < a₄ → ∃ a₃, senIDs 3 = some a₃))

theorem leaf_ok_iff {senIDs : Slots} {k : Nat} (hk : k < 5) (x : Int) :
    (∃ found, (do
      let v ← readSlot senIDs k
      if v = x then pure true else pure false : Checked Bool) = .ok found) ↔
    ∃ v, senIDs k = some v := by
  rw [exists_bind_ok]
  refine exists_congr fun v => ?_
  rw [readSlot_eq_ok hk]
  exact and_iff_left ⟨decide (v = x), by by_cases hv : v = x <;> simp [hv]⟩

theorem search_ok_iff (senIDs : Slots) (x : Int) :
    (∃ found, search (readSlot senIDs) x 0 5 = .ok found) ↔ SlotsOnPath senIDs x := by
  rw [search_five, exists_bind_ok]
  refine exists_congr fun a₂ => and_congr (readSlot_eq_ok (k := 2) (by decide)) ?_
  rcases Int.lt_trichotomy a₂ x with h2 | h2 | h2
  · -- The right half: slot 4, then slot 3, or slot 5 when `x` is larger still.
    rw [if_neg (by omega), if_pos h2, exists_bind_ok]
    have hlow : ¬ x < a₂ := by omega
    simp only [hlow, h2, false_implies, true_and, true_implies]
    refine exists_congr fun a₄ => and_congr (readSlot_eq_ok (k := 4) (by decide)) ?_
    rcases Int.lt_trichotomy a₄ x with h4 | h4 | h4
    · rw [if_neg (by omega), if_pos h4, readSlot_five, error_bind]
      simp [h4]
    · rw [if_pos h4]
      simp [h4]
    · rw [if_neg (by omega), if_neg (by omega)]
      simp only [h4, Int.le_of_lt h4, true_and, true_implies]
      exact leaf_ok_iff (k := 3) (by decide) x
  · rw [if_pos h2]
    simp [h2]
  · rw [if_neg (by omega), if_neg (by omega), exists_bind_ok]
    have hhigh : ¬ a₂ < x := by omega
    simp only [hhigh, h2, false_implies, and_true, true_implies]
    refine exists_congr fun a₀ => and_congr (readSlot_eq_ok (k := 0) (by decide)) ?_
    rcases Int.lt_trichotomy a₀ x with h0 | h0 | h0
    · rw [if_neg (by omega), if_pos h0]
      simp only [h0, true_implies]
      exact leaf_ok_iff (k := 1) (by decide) x
    · rw [if_pos h0]
      simp [h0]
    · rw [if_neg (by omega), if_neg (by omega)]
      simp [Int.le_of_lt h0]

/-- `read_room` ends without a fault, and the search for `x` on a returned array reads
only slots it wrote. -/
def RegisteredAccess (root : Option Json) (x : Int) : Prop :=
  ∃ res, readRoom root = .ok res ∧
    ∀ senIDs, res = some senIDs → ∃ found, search (readSlot senIDs) x 0 5 = .ok found

/-- The accesses are in order exactly when the file has no array `roomIDs`, so that no
array is returned, or when nothing is freed and no number comes sixth or later, and the
entries the search for `x` visits carry a number. -/
theorem registeredAccess_iff (root : Option Json) (x : Int) :
    RegisteredAccess root x ↔
      ∀ items, Json.getObjectItem root (bytes "roomIDs") = some (.array items) →
        (∀ item ∈ items, Entry item) ∧ FitsFrom 0 items ∧
          SlotsOnPath (fun k => (items[k]?).bind sensorID) x := by
  constructor
  · rintro ⟨res, hres, hsearch⟩ items hroot
    obtain ⟨hents, hfit⟩ := (readRoom_array hroot).mp ⟨res, hres⟩
    have heq := readRoom_eq hroot hents hfit
    rw [hres, Except.ok.injEq] at heq
    have hok := (search_ok_iff _ x).mp (hsearch _ heq)
    rw [funext (slotsFrom_zero items)] at hok
    exact ⟨hents, hfit, hok⟩
  · intro h
    by_cases harr : ∃ items, Json.getObjectItem root (bytes "roomIDs") = some (.array items)
    · obtain ⟨items, hroot⟩ := harr
      obtain ⟨hents, hfit, hpath⟩ := h items hroot
      refine ⟨_, readRoom_eq hroot hents hfit, fun senIDs hs => ?_⟩
      obtain rfl := Option.some.inj hs
      rw [search_ok_iff, funext (slotsFrom_zero items)]
      exact hpath
    · refine ⟨none, ?_, fun senIDs hs => absurd hs (by simp)⟩
      rw [readRoom]
      split
      · next items hroot => exact absurd ⟨items, hroot⟩ harr
      · rfl

/-- An entry of `roomIDs`. -/
def roomEntry (roomID : String) (sensorID : Int) : Json :=
  .object [(bytes "roomID", .string (bytes roomID)), (bytes "sensorID", .number sensorID sensorID)]

/-- A `room.json` with the given entries. -/
def roomJson (items : List Json) : Json := .object [(bytes "roomIDs", .array items)]

/-- The shipped `room.json`. -/
def shippedRoom : Json :=
  roomJson [roomEntry "501" 1, roomEntry "602" 2, roomEntry "703" 3, roomEntry "804" 4,
    roomEntry "905" 5]

theorem getObjectItem_roomJson (items : List Json) :
    Json.getObjectItem (some (roomJson items)) (bytes "roomIDs") = some (.array items) := rfl

theorem readRoom_of_sensorIDs {root : Option Json} {items : List Json} (ids : List Int)
    (hroot : Json.getObjectItem root (bytes "roomIDs") = some (.array items))
    (hids : items.map sensorID = ids.map some) (hlen : ids.length ≤ 5) :
    ∃ senIDs, readRoom root = .ok (some senIDs) ∧ ∀ k, senIDs k = ids[k]? := by
  have hget : ∀ k : Nat, (items[k]?).bind sensorID = ids[k]? := by
    intro k
    have h := congrArg (fun l => l[k]?) hids
    simp only [List.getElem?_map] at h
    cases hi : items[k]? <;> cases hd : ids[k]? <;> simp_all
  have hents : ∀ item ∈ items, Entry item := by
    intro item hitem
    have h : sensorID item ∈ ids.map some := hids ▸ List.mem_map_of_mem hitem
    obtain ⟨a, -, ha⟩ := List.mem_map.mp h
    exact entry_of_sensorID ha.symm
  have hfit : FitsFrom 0 items := by
    intro j hj
    rw [hget, List.getElem?_eq_none (by omega)]
  exact ⟨_, readRoom_eq hroot hents hfit, fun k => (slotsFrom_zero items k).trans (hget k)⟩

theorem readRoom_shippedRoom :
    ∃ senIDs, readRoom (some shippedRoom) = .ok (some senIDs) ∧
      ∀ k, senIDs k = [1, 2, 3, 4, 5][k]? :=
  readRoom_of_sensorIDs [1, 2, 3, 4, 5] (getObjectItem_roomJson _) rfl (Nat.le_refl 5)

/-- A message from a sensor with ID 6 makes the search read behind the allocation of
the shipped configuration. -/
theorem registeredAccess_six : ¬ RegisteredAccess (some shippedRoom) 6 := by
  rintro ⟨res, hres, hsearch⟩
  obtain ⟨senIDs, hread, hslots⟩ := readRoom_shippedRoom
  have hsome := Except.ok.inj (hres.symm.trans hread)
  obtain ⟨a₂, h2, -, hhigh⟩ := (search_ok_iff _ 6).mp (hsearch _ hsome)
  rw [hslots] at h2
  obtain rfl : 3 = a₂ := Option.some.inj h2
  obtain ⟨a₄, h4, hle, -⟩ := hhigh (by decide)
  rw [hslots] at h4
  obtain rfl : 5 = a₄ := Option.some.inj h4
  exact absurd hle (by decide)

/-! ## The IDs that are found -/

/-- The array as the search sees it when the int behind the allocation can be read. -/
def readPast (senIDs : Slots) (after : Int) (i : Int) : Checked Int :=
  if i = 5 then pure after else readSlot senIDs i

theorem readPast_some {senIDs : Slots} (after : Int) {k : Nat} (hk : k < 5) {v : Int}
    (h : senIDs k = some v) : readPast senIDs after k = .ok v := by
  rw [readPast, if_neg (by omega), (readSlot_eq_ok hk).mpr h]

/-- The values of `x` for which the search in a full array ends on an equal slot. -/
def Hits (a₀ a₁ a₂ a₃ a₄ after x : Int) : Prop :=
  x = a₂ ∨ (x < a₂ ∧ (x = a₀ ∨ a₀ < x ∧ x = a₁)) ∨
    (a₂ < x ∧ (x = a₄ ∨ x < a₄ ∧ x = a₃ ∨ a₄ < x ∧ x = after))

theorem search_full {senIDs : Slots} {a₀ a₁ a₂ a₃ a₄ : Int}
    (h : ∀ k, senIDs k = [a₀, a₁, a₂, a₃, a₄][k]?) (after x : Int) :
    ∃ found, search (readPast senIDs after) x 0 5 = .ok found ∧
      (found = true ↔ Hits a₀ a₁ a₂ a₃ a₄ after x) := by
  have h0 := readPast_some after (k := 0) (by decide) (h 0)
  have h1 := readPast_some after (k := 1) (by decide) (h 1)
  have h2 := readPast_some after (k := 2) (by decide) (h 2)
  have h3 := readPast_some after (k := 3) (by decide) (h 3)
  have h4 := readPast_some after (k := 4) (by decide) (h 4)
  have h5 : readPast senIDs after 5 = .ok after := if_pos rfl
  rw [search_five]
  simp only [Nat.cast_ofNat, Nat.cast_zero, Nat.cast_one] at h0 h1 h2 h3 h4
  simp only [h0, h1, h2, h3, h4, h5, ok_bind, Hits]
  split_ifs <;> refine ⟨_, rfl, ?_⟩ <;> simp only [true_iff, Bool.false_eq_true, false_iff] <;> omega

/-- When all five numbers are found, they stand in increasing order, up to one number that
the int behind the allocation repeats. -/
theorem order_of_hits {a₀ a₁ a₂ a₃ a₄ after : Int} (hne : [a₀, a₁, a₂, a₃, a₄].Nodup)
    (h : ∀ x ∈ [a₀, a₁, a₂, a₃, a₄], Hits a₀ a₁ a₂ a₃ a₄ after x) :
    (a₀ < a₂ ∧ a₂ < a₄) ∧ (a₀ < a₁ ∧ a₁ < a₂ ∨ a₁ = after ∧ a₄ < after) ∧
      (a₂ < a₃ ∧ a₃ < a₄ ∨ a₃ = after ∧ a₄ < after) := by
  simp only [List.nodup_cons, List.mem_cons, List.not_mem_nil, or_false, not_or] at hne
  have h0 := h a₀ (by simp)
  have h1 := h a₁ (by simp)
  have h3 := h a₃ (by simp)
  have h4 := h a₄ (by simp)
  clear h
  unfold Hits at h0 h1 h3 h4
  grind

theorem mem_of_hits {a₀ a₁ a₂ a₃ a₄ after x : Int} (h : Hits a₀ a₁ a₂ a₃ a₄ after x)
    (hafter : a₄ < after → after ∈ [a₀, a₁, a₂, a₃, a₄]) : x ∈ [a₀, a₁, a₂, a₃, a₄] := by
  unfold Hits at h
  grind

theorem hits_of_order {a₀ a₁ a₂ a₃ a₄ after x : Int} (h : a₀ < a₂ ∧ a₂ < a₄)
    (h1 : a₀ < a₁ ∧ a₁ < a₂ ∨ a₁ = after ∧ a₄ < after)
    (h3 : a₂ < a₃ ∧ a₃ < a₄ ∨ a₃ = after ∧ a₄ < after)
    (hx : x ∈ [a₀, a₁, a₂, a₃, a₄]) : Hits a₀ a₁ a₂ a₃ a₄ after x := by
  unfold Hits
  grind

/-- The test of `msg_parse` recognises exactly the registered IDs when the file lists them
in increasing order and the int behind the allocation is no larger ID.  The other way
it can come out right is that this int happens to equal the one ID that is out of order. -/
theorem search_readRoom_iff {root : Option Json} {items : List Json} {a₀ a₁ a₂ a₃ a₄ : Int}
    (hroot : Json.getObjectItem root (bytes "roomIDs") = some (.array items))
    (hids : items.map sensorID = [a₀, a₁, a₂, a₃, a₄].map some)
    (hne : [a₀, a₁, a₂, a₃, a₄].Nodup) (after : Int) :
    ∃ senIDs, readRoom root = .ok (some senIDs) ∧
      ((∀ x, search (readPast senIDs after) x 0 5 = .ok true ↔ x ∈ [a₀, a₁, a₂, a₃, a₄]) ↔
        (a₀ < a₂ ∧ a₂ < a₄) ∧
        (a₀ < a₁ ∧ a₁ < a₂ ∨ a₁ = after ∧ a₄ < after) ∧
        (a₂ < a₃ ∧ a₃ < a₄ ∨ a₃ = after ∧ a₄ < after) ∧
        (a₄ < after → after ∈ [a₀, a₁, a₂, a₃, a₄])) := by
  obtain ⟨senIDs, hread, hslots⟩ := readRoom_of_sensorIDs _ hroot hids (Nat.le_refl 5)
  have hsearch : ∀ x, search (readPast senIDs after) x 0 5 = .ok true ↔
      Hits a₀ a₁ a₂ a₃ a₄ after x := by
    intro x
    obtain ⟨found, hf, hiff⟩ := search_full hslots after x
    rw [hf, Except.ok.injEq, hiff]
  refine ⟨senIDs, hread, ?_⟩
  simp only [hsearch]
  constructor
  · intro h
    obtain ⟨hmid, h1, h3⟩ := order_of_hits hne fun x hx => (h x).mpr hx
    refine ⟨hmid, h1, h3, fun hlt => (h after).mp ?_⟩
    exact Or.inr (Or.inr ⟨hmid.2.trans hlt, Or.inr (Or.inr ⟨hlt, rfl⟩)⟩)
  · rintro ⟨hmid, h1, h3, hafter⟩ x
    exact ⟨fun h => mem_of_hits h hafter, hits_of_order hmid h1 h3⟩

theorem search_readRoom_shipped :
    ∃ senIDs, readRoom (some shippedRoom) = .ok (some senIDs) ∧
      ∀ x, search (readPast senIDs 0) x 0 5 = .ok true ↔ x ∈ [1, 2, 3, 4, 5] := by
  have hids : [roomEntry "501" 1, roomEntry "602" 2, roomEntry "703" 3, roomEntry "804" 4,
      roomEntry "905" 5].map sensorID = [1, 2, 3, 4, 5].map some := rfl
  obtain ⟨senIDs, hread, hiff⟩ := search_readRoom_iff (getObjectItem_roomJson _) hids (by decide) 0
  exact ⟨senIDs, hread, hiff.mpr (by decide)⟩

/-- With the first two rooms of the shipped file exchanged, sensor 1 is not recognised,
whatever the int behind the allocation is. -/
theorem search_readRoom_exchanged :
    ∃ senIDs, readRoom (some (roomJson [roomEntry "602" 2, roomEntry "501" 1,
        roomEntry "703" 3, roomEntry "804" 4, roomEntry "905" 5])) = .ok (some senIDs) ∧
      ∀ after, search (readPast senIDs after) 1 0 5 = .ok false := by
  obtain ⟨senIDs, hread, hslots⟩ := readRoom_of_sensorIDs [2, 1, 3, 4, 5]
    (getObjectItem_roomJson [roomEntry "602" 2, roomEntry "501" 1, roomEntry "703" 3,
      roomEntry "804" 4, roomEntry "905" 5]) rfl (Nat.le_refl 5)
  refine ⟨senIDs, hread, fun after => ?_⟩
  obtain ⟨found, hf, hiff⟩ := search_full hslots after 1
  cases found with
  | false => exact hf
  | true => exact absurd (hiff.mp rfl) (by simp [Hits])

end Gateway
end LinuxPrograming
