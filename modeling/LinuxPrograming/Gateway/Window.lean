import LinuxPrograming.Gateway.Gen
import LinuxPrograming.Gateway.Memory
import LinuxPrograming.Lib.Ring
import Mathlib.Tactic.Linarith
import Mathlib.Tactic.NormNum

/-!
# The temperature windows of `data_mgr`

`val[6][6]` keeps one ring of five temperatures per sensor in the columns 1 to 5 of
its row, and the next column to write in column 0 of the same row.  `check[s - 1]` is
set once the ring of sensor `s` has been full.  Temperatures are rationals, so that
the mean is exact.
-/

namespace LinuxPrograming
namespace Gateway

/-- The locals `val` and `check` of `data_mgr`. -/
structure Windows where
  val : Int → Int → Rat
  check : Int → Rat

namespace Windows

/-- The state before the loop: `val[i][0] = 1` for the sensors 1 to 5, zero elsewhere. -/
def init : Windows where
  val i j := if 1 ≤ i ∧ i ≤ 5 ∧ j = 0 then 1 else 0
  check _ := 0

def setVal (w : Windows) (i j : Int) (q : Rat) : Windows :=
  { w with val := fun i' j' => if i' = i ∧ j' = j then q else w.val i' j' }

def setCheck (w : Windows) (i : Int) (q : Rat) : Windows :=
  { w with check := fun i' => if i' = i then q else w.check i' }

/-- The index pairs of `val[6][6]`. -/
def InVal (i j : Int) : Prop := (0 ≤ i ∧ i < 6) ∧ 0 ≤ j ∧ j < 6

/-- The indices of `check[5]`. -/
def InCheck (i : Int) : Prop := 0 ≤ i ∧ i < 5

instance (i j : Int) : Decidable (InVal i j) := inferInstanceAs (Decidable (_ ∧ _))

instance (i : Int) : Decidable (InCheck i) := inferInstanceAs (Decidable (_ ∧ _))

def readVal (w : Windows) (i j : Int) : Checked Rat :=
  if InVal i j then pure (w.val i j) else throw .index

def writeVal (w : Windows) (i j : Int) (q : Rat) : Checked Windows :=
  if InVal i j then pure (w.setVal i j q) else throw .index

def readCheck (w : Windows) (i : Int) : Checked Rat :=
  if InCheck i then pure (w.check i) else throw .index

def writeCheck (w : Windows) (i : Int) (q : Rat) : Checked Windows :=
  if InCheck i then pure (w.setCheck i q) else throw .index

@[simp] theorem setVal_check (w : Windows) (i j : Int) (q : Rat) :
    (w.setVal i j q).check = w.check := rfl

@[simp] theorem setCheck_val (w : Windows) (i : Int) (q : Rat) :
    (w.setCheck i q).val = w.val := rfl

theorem setVal_val (w : Windows) (i j i' j' : Int) (q : Rat) :
    (w.setVal i j q).val i' j' = if i' = i ∧ j' = j then q else w.val i' j' := rfl

theorem setCheck_check (w : Windows) (i i' : Int) (q : Rat) :
    (w.setCheck i q).check i' = if i' = i then q else w.check i' := rfl

theorem readVal_of_mem {w : Windows} {i j : Int} (h : InVal i j) :
    w.readVal i j = .ok (w.val i j) := if_pos h

theorem writeVal_of_mem {w : Windows} {i j : Int} (h : InVal i j) (q : Rat) :
    w.writeVal i j q = .ok (w.setVal i j q) := if_pos h

theorem readCheck_of_mem {w : Windows} {i : Int} (h : InCheck i) :
    w.readCheck i = .ok (w.check i) := if_pos h

theorem writeCheck_of_mem {w : Windows} {i : Int} (h : InCheck i) (q : Rat) :
    w.writeCheck i q = .ok (w.setCheck i q) := if_pos h

end Windows

/-- The conversion `(int)` of a `double`. -/
def trunc (q : Rat) : Int := q.num.tdiv q.den

/-- The part of the loop of `data_mgr` that runs after `msg_parse` returned 0, up to
the test of `temp_avg`.  It returns `temp_avg`. -/
def accept (w : Windows) (senID : Int) (temp : Rat) : Checked (Windows × Rat) := do
  let at₀ ← w.readVal senID 0
  let w ← w.writeVal senID 0 (at₀ + 1)
  let w ← w.writeVal senID (trunc at₀) temp
  let seen ← w.readCheck (senID - 1)
  let tempAvg ← if seen ≠ 0 then avg (w.readVal senID) else pure (-1)
  let next ← w.readVal senID 0
  if next > 5 then do
    let w ← w.writeVal senID 0 1
    let seen ← w.readCheck (senID - 1)
    if seen = 0 then do
      let w ← w.writeCheck (senID - 1) 1
      let tempAvg ← avg (w.readVal senID)
      pure (w, tempAvg)
    else pure (w, tempAvg)
  else pure (w, tempAvg)

/-- A reading that `msg_parse` accepted: sensor ID and temperature. -/
abbrev Reading := Int × Rat

/-- The loop over a sequence of accepted readings, with the value of `temp_avg` for
each. -/
def acceptAll (w : Windows) : List Reading → Checked (Windows × List Rat)
  | [] => pure (w, [])
  | r :: rs => do
    let (w, tempAvg) ← accept w r.1 r.2
    let (w, tempAvgs) ← acceptAll w rs
    pure (w, tempAvg :: tempAvgs)

/-! ## What the windows stand for -/

/-- The temperatures of sensor `s` in `rs`, oldest first. -/
def ofSensor (s : Int) (rs : List Reading) : List Rat :=
  (rs.filter fun r => r.1 = s).map Prod.snd

/-- The value the reporting code is meant to get after the readings `xs` of one
sensor: the mean of the last five, or -1 when there are fewer. -/
def meanOfLastFive (xs : List Rat) : Rat :=
  if xs.length < 5 then -1 else (xs.drop (xs.length - 5)).sum / 5

/-- The windows after the readings `rs`: the write index counts modulo 5, `check` is set
from the fifth reading on, and the ring holds the last five temperatures. -/
structure Windows.Rep (w : Windows) (rs : List Reading) : Prop where
  index : ∀ s, 1 ≤ s → s ≤ 5 → w.val s 0 = ((ofSensor s rs).length % 5 : Nat) + 1
  check : ∀ s, 1 ≤ s → s ≤ 5 →
    w.check (s - 1) = if 5 ≤ (ofSensor s rs).length then 1 else 0
  ring : ∀ s, 1 ≤ s → s ≤ 5 →
    Lib.RingHolds 5 (fun i => w.val s ((i : Int) + 1)) (ofSensor s rs)

theorem ofSensor_append_self (s : Int) (rs : List Reading) (t : Rat) :
    ofSensor s (rs ++ [(s, t)]) = ofSensor s rs ++ [t] := by
  simp [ofSensor, List.filter_append]

theorem ofSensor_append_of_ne {s s' : Int} (h : s' ≠ s) (rs : List Reading) (t : Rat) :
    ofSensor s (rs ++ [(s', t)]) = ofSensor s rs := by
  simp [ofSensor, List.filter_append, h]

theorem Windows.init_rep : Windows.init.Rep [] where
  index s h1 h5 := by simp [Windows.init, ofSensor, h1, h5]
  check s _ _ := by simp [Windows.init, ofSensor]
  ring s _ _ := Lib.ringHolds_nil 5 _

theorem trunc_natCast_add_one (k : Nat) : trunc ((k : Rat) + 1) = (k : Int) + 1 := by
  have h : ((k : Rat) + 1) = (((k : Int) + 1 : Int) : Rat) := by push_cast; rfl
  rw [trunc, h, Rat.num_intCast, Rat.den_intCast]
  exact Int.tdiv_one _

theorem avg_eq {w : Windows} {s : Int} (h1 : 1 ≤ s) (h5 : s ≤ 5) {xs : List Rat}
    (h : Lib.RingHolds 5 (fun i => w.val s ((i : Int) + 1)) xs) (hlen : 5 ≤ xs.length) :
    avg (w.readVal s) = .ok ((xs.drop (xs.length - 5)).sum / 5) := by
  have hread : ∀ j : Int, 0 ≤ j → j < 6 → w.readVal s j = .ok (w.val s j) :=
    fun j hj0 hj6 => Windows.readVal_of_mem ⟨⟨by omega, by omega⟩, hj0, hj6⟩
  have hsum := Lib.sum_ring h hlen
  simp only [Finset.sum_range_succ, Finset.sum_range_zero] at hsum
  simp only [avg, List.foldlM, hread 1 (by decide) (by decide), hread 2 (by decide) (by decide),
    hread 3 (by decide) (by decide), hread 4 (by decide) (by decide),
    hread 5 (by decide) (by decide), ← hsum]
  rfl

/-- The windows after `val[s][(int)val[s][0]++] = temp` with write index `k + 1`. -/
def Windows.store (w : Windows) (s : Int) (k : Nat) (t : Rat) : Windows :=
  (w.setVal s 0 ((k : Rat) + 1 + 1)).setVal s ((k : Int) + 1) t

theorem Windows.store_val (w : Windows) (s : Int) (k : Nat) (t : Rat) (i j : Int) :
    (w.store s k t).val i j = if i = s ∧ j = (k : Int) + 1 then t else
      if i = s ∧ j = 0 then (k : Rat) + 1 + 1 else w.val i j := rfl

@[simp] theorem Windows.store_check (w : Windows) (s : Int) (k : Nat) (t : Rat) :
    (w.store s k t).check = w.check := rfl

theorem accept_eq {w : Windows} {s : Int} (h1 : 1 ≤ s) (h5 : s ≤ 5) {k : Nat} (hk : k < 5)
    (hidx : w.val s 0 = (k : Rat) + 1) (t : Rat) :
    accept w s t = (do
      let tempAvg ← if w.check (s - 1) ≠ 0 then avg ((w.store s k t).readVal s) else pure (-1)
      if (k : Rat) + 1 + 1 > 5 then
        if w.check (s - 1) = 0 then do
          let w' := ((w.store s k t).setVal s 0 1).setCheck (s - 1) 1
          let tempAvg ← avg (w'.readVal s)
          pure (w', tempAvg)
        else pure ((w.store s k t).setVal s 0 1, tempAvg)
      else pure (w.store s k t, tempAvg)) := by
  have hin : ∀ j : Int, 0 ≤ j → j < 6 → Windows.InVal s j :=
    fun j hj0 hj6 => ⟨⟨by omega, by omega⟩, hj0, hj6⟩
  have hinc : Windows.InCheck (s - 1) := ⟨by omega, by omega⟩
  have hnext : (w.store s k t).val s 0 = (k : Rat) + 1 + 1 := by
    rw [Windows.store_val, if_neg (by omega), if_pos ⟨rfl, rfl⟩]
  simp only [accept, Windows.readVal_of_mem (hin 0 (by omega) (by omega)), ok_bind,
    Windows.writeVal_of_mem (hin 0 (by omega) (by omega)), hidx, trunc_natCast_add_one,
    Windows.writeVal_of_mem (hin ((k : Int) + 1) (by omega) (by omega)),
    Windows.readCheck_of_mem hinc, Windows.writeCheck_of_mem hinc]
  rw [← Windows.store]
  simp only [hnext, Windows.store_check, Windows.setVal_check]
  rfl

namespace Windows.Rep

variable {w w' : Windows} {rs : List Reading} {s : Int}

theorem store_ring (h : w.Rep rs) (h1 : 1 ≤ s) (h5 : s ≤ 5) (t : Rat) :
    Lib.RingHolds 5
      (fun i => (w.store s ((ofSensor s rs).length % 5) t).val s ((i : Int) + 1))
      (ofSensor s rs ++ [t]) := by
  refine Lib.ringHolds_append (h.ring s h1 h5) ?_ fun i hi hne => ?_
  · rw [store_val, if_pos ⟨rfl, rfl⟩]
  · rw [store_val, if_neg (by omega), if_neg (by omega)]

/-- Windows that agree with the write outside column 0 of the sensor, and have the next
index there, stand for the longer sequence. -/
theorem append (h : w.Rep rs) (h1 : 1 ≤ s) (h5 : s ≤ 5) {t : Rat}
    (hval : ∀ i j, j ≠ 0 ∨ i ≠ s →
      w'.val i j = (w.store s ((ofSensor s rs).length % 5) t).val i j)
    (hindex : w'.val s 0 = (((ofSensor s rs).length + 1) % 5 : Nat) + 1)
    (hcheck : w'.check (s - 1) = if 5 ≤ (ofSensor s rs).length + 1 then 1 else 0)
    (hother : ∀ i, i ≠ s - 1 → w'.check i = w.check i) : w'.Rep (rs ++ [(s, t)]) := by
  have hrow : ∀ s', s' ≠ s → w'.val s' = w.val s' := by
    intro s' hs
    funext j
    rw [hval _ _ (Or.inr hs), store_val, if_neg (fun e => hs e.1), if_neg (fun e => hs e.1)]
  have hring : (fun i : Nat => w'.val s ((i : Int) + 1)) =
      fun i : Nat => (w.store s ((ofSensor s rs).length % 5) t).val s ((i : Int) + 1) :=
    funext fun i => hval _ _ (Or.inl (by omega))
  constructor <;> intro s' h1' h5' <;> by_cases hs : s' = s
  · rw [hs, ofSensor_append_self, List.length_append, List.length_singleton, hindex]
  · rw [ofSensor_append_of_ne (Ne.symm hs), hrow s' hs, h.index s' h1' h5']
  · rw [hs, ofSensor_append_self, List.length_append, List.length_singleton, hcheck]
  · rw [ofSensor_append_of_ne (Ne.symm hs), hother _ (by omega), h.check s' h1' h5']
  · rw [hs, ofSensor_append_self, hring]
    exact h.store_ring h1 h5 t
  · rw [ofSensor_append_of_ne (Ne.symm hs), hrow s' hs]
    exact h.ring s' h1' h5'

end Windows.Rep

theorem meanOfLastFive_of_le {xs : List Rat} (h : 5 ≤ xs.length) :
    meanOfLastFive xs = (xs.drop (xs.length - 5)).sum / 5 := if_neg (by omega)

theorem meanOfLastFive_of_lt {xs : List Rat} (h : xs.length < 5) :
    meanOfLastFive xs = -1 := if_pos h

section

variable {w : Windows} {rs : List Reading} {s : Int}

/-- A reading that does not fill the last cell of the ring. -/
theorem accept_below (h : w.Rep rs) (h1 : 1 ≤ s) (h5 : s ≤ 5) (t : Rat)
    (hk : (ofSensor s rs).length % 5 < 4) :
    ∃ w', accept w s t = .ok (w', meanOfLastFive (ofSensor s rs ++ [t])) ∧
      w'.Rep (rs ++ [(s, t)]) := by
  have hlen : (ofSensor s rs ++ [t]).length = (ofSensor s rs).length + 1 := List.length_append
  have hnext : ¬ (((ofSensor s rs).length % 5 : Nat) : Rat) + 1 + 1 > 5 := by
    have hle : (((ofSensor s rs).length % 5 : Nat) : Rat) ≤ 3 := by
      exact_mod_cast (by omega : (ofSensor s rs).length % 5 ≤ 3)
    intro hgt
    linarith
  refine ⟨w.store s ((ofSensor s rs).length % 5) t, ?_,
    h.append h1 h5 (fun _ _ _ => rfl) ?_ ?_ fun _ _ => rfl⟩
  · rw [accept_eq h1 h5 (by omega) (h.index s h1 h5), h.check s h1 h5]
    by_cases hwarm : 5 ≤ (ofSensor s rs).length
    · have hlen5 : 5 ≤ (ofSensor s rs ++ [t]).length := by omega
      rw [if_pos hwarm, if_pos one_ne_zero, avg_eq h1 h5 (h.store_ring h1 h5 t) hlen5, ok_bind]
      dsimp only
      rw [if_neg hnext, meanOfLastFive_of_le hlen5, pure_eq_ok]
    · rw [if_neg hwarm, if_neg (not_not_intro rfl), pure_bind]
      dsimp only
      rw [if_neg hnext, meanOfLastFive_of_lt (by omega), pure_eq_ok]
  · rw [Windows.store_val, if_neg (by omega), if_pos ⟨rfl, rfl⟩,
      show ((ofSensor s rs).length + 1) % 5 = (ofSensor s rs).length % 5 + 1 by omega]
    push_cast
    rfl
  · rw [Windows.store_check, h.check s h1 h5]
    by_cases hwarm : 5 ≤ (ofSensor s rs).length
    · rw [if_pos hwarm, if_pos (by omega)]
    · rw [if_neg hwarm, if_neg (by omega)]

/-- A reading that fills the last cell of the ring, so that the write index wraps.  The
mean is taken from the unwrapped windows once the ring has been full, and from the
wrapped ones the first time. -/
theorem accept_wrap (h : w.Rep rs) (h1 : 1 ≤ s) (h5 : s ≤ 5) (t : Rat)
    (hk : (ofSensor s rs).length % 5 = 4) :
    ∃ w', accept w s t = .ok (w', meanOfLastFive (ofSensor s rs ++ [t])) ∧
      w'.Rep (rs ++ [(s, t)]) := by
  have hlen5 : 5 ≤ (ofSensor s rs ++ [t]).length := by
    rw [List.length_append, List.length_singleton]
    omega
  have hnext : (((ofSensor s rs).length % 5 : Nat) : Rat) + 1 + 1 > 5 := by
    rw [hk]
    norm_num
  have hval : ∀ i j, j ≠ 0 ∨ i ≠ s →
      ((w.store s ((ofSensor s rs).length % 5) t).setVal s 0 1).val i j =
        (w.store s ((ofSensor s rs).length % 5) t).val i j := by
    intro i j hij
    rw [Windows.setVal_val, if_neg (by omega)]
  have hindex : ((w.store s ((ofSensor s rs).length % 5) t).setVal s 0 1).val s 0 =
      (((ofSensor s rs).length + 1) % 5 : Nat) + 1 := by
    rw [Windows.setVal_val, if_pos ⟨rfl, rfl⟩,
      show ((ofSensor s rs).length + 1) % 5 = 0 by omega]
    norm_num
  rw [accept_eq h1 h5 (by omega) (h.index s h1 h5), h.check s h1 h5,
    meanOfLastFive_of_le hlen5]
  by_cases hwarm : 5 ≤ (ofSensor s rs).length
  · refine ⟨(w.store s ((ofSensor s rs).length % 5) t).setVal s 0 1, ?_,
      h.append h1 h5 hval hindex ?_ fun _ _ => rfl⟩
    · rw [if_pos hwarm, if_pos one_ne_zero, avg_eq h1 h5 (h.store_ring h1 h5 t) hlen5, ok_bind]
      dsimp only
      rw [if_pos hnext, if_neg one_ne_zero, pure_eq_ok]
    · rw [Windows.setVal_check, Windows.store_check, h.check s h1 h5, if_pos hwarm,
        if_pos (by omega)]
  · -- The fifth reading fills the ring: `check` is set and the mean taken after the wrap.
    have hrep : (((w.store s ((ofSensor s rs).length % 5) t).setVal s 0 1).setCheck
        (s - 1) 1).Rep (rs ++ [(s, t)]) := by
      refine h.append h1 h5 hval hindex ?_ fun i hi => ?_
      · rw [Windows.setCheck_check, if_pos rfl, if_pos (by omega)]
      · rw [Windows.setCheck_check, if_neg hi]
        rfl
    refine ⟨_, ?_, hrep⟩
    rw [if_neg hwarm, if_neg (not_not_intro rfl), pure_bind]
    dsimp only
    rw [if_pos hnext, if_pos rfl,
      avg_eq h1 h5 (ofSensor_append_self s rs t ▸ hrep.ring s h1 h5) hlen5, ok_bind, pure_eq_ok]

/-- One accepted reading of a sensor in 1..5. -/
theorem accept_spec (h : w.Rep rs) (h1 : 1 ≤ s) (h5 : s ≤ 5) (t : Rat) :
    ∃ w', accept w s t = .ok (w', meanOfLastFive (ofSensor s rs ++ [t])) ∧
      w'.Rep (rs ++ [(s, t)]) := by
  have hlt : (ofSensor s rs).length % 5 < 5 := Nat.mod_lt _ (by decide)
  by_cases hk : (ofSensor s rs).length % 5 = 4
  · exact accept_wrap h h1 h5 t hk
  · exact accept_below h h1 h5 t (by omega)

end

theorem accept_error {w : Windows} {s : Int} (hs : ¬(1 ≤ s ∧ s ≤ 5)) (t : Rat) :
    accept w s t = .error .index := by
  by_cases hin : Windows.InVal s 0
  · have hs0 : s = 0 := by
      have h0 := hin.1
      omega
    have hcheck : ∀ w : Windows, w.readCheck (s - 1) = .error .index :=
      fun w => if_neg fun h => by have := h.1; omega
    rw [accept, Windows.readVal_of_mem hin, ok_bind, Windows.writeVal_of_mem hin, ok_bind,
      Windows.writeVal]
    by_cases hcol : Windows.InVal s (trunc (w.val s 0))
    · rw [if_pos hcol, pure_eq_ok, ok_bind, hcheck, error_bind]
    · rw [if_neg hcol, throw_eq_error, error_bind]
  · rw [accept, Windows.readVal, if_neg hin, throw_eq_error, error_bind]

theorem acceptAll_spec {w : Windows} {rs : List Reading} (h : w.Rep rs) {rs' : List Reading}
    (hrs : ∀ r ∈ rs', 1 ≤ r.1 ∧ r.1 ≤ 5) :
    ∃ w' out, acceptAll w rs' = .ok (w', out) ∧ w'.Rep (rs ++ rs') ∧
      out.length = rs'.length ∧ ∀ n r, rs'[n]? = some r →
        out[n]? = some (meanOfLastFive (ofSensor r.1 (rs ++ rs'.take (n + 1)))) := by
  induction rs' generalizing w rs with
  | nil => exact ⟨w, [], rfl, (List.append_nil rs).symm ▸ h, rfl, by simp⟩
  | cons r rs' ih =>
    obtain ⟨h1, h5⟩ := hrs r List.mem_cons_self
    obtain ⟨w₁, hstep, hrep⟩ := accept_spec h h1 h5 r.2
    obtain ⟨w', out, hrun, hrep', hlen, hout⟩ :=
      ih hrep fun r' hr' => hrs r' (List.mem_cons_of_mem r hr')
    refine ⟨w', meanOfLastFive (ofSensor r.1 rs ++ [r.2]) :: out, ?_, ?_, ?_, ?_⟩
    · simp only [acceptAll, hstep, ok_bind, hrun, pure_eq_ok]
    · rwa [List.append_assoc] at hrep'
    · rw [List.length_cons, List.length_cons, hlen]
    · intro n r' hr'
      cases n with
      | zero =>
        rw [List.getElem?_cons_zero] at hr'
        obtain rfl := Option.some.inj hr'
        rw [List.getElem?_cons_zero, ← ofSensor_append_self]
        rfl
      | succ n =>
        rw [List.getElem?_cons_succ] at hr' ⊢
        rw [hout n r' hr', List.take_succ_cons, List.append_assoc]
        rfl

/-- Over any sequence of accepted readings, the write index of every sensor stays in
1..5, `check` tells whether the sensor had five readings, and `temp_avg` is -1 for the
first four readings of a sensor and the mean of its own last five from then on. -/
theorem acceptAll_init (rs : List Reading) (hrs : ∀ r ∈ rs, 1 ≤ r.1 ∧ r.1 ≤ 5) :
    ∃ w out, acceptAll Windows.init rs = .ok (w, out) ∧
      (∀ s, 1 ≤ s → s ≤ 5 → (∃ i : Nat, 1 ≤ i ∧ i ≤ 5 ∧ w.val s 0 = i) ∧
        (w.check (s - 1) ≠ 0 ↔ 5 ≤ (ofSensor s rs).length)) ∧
      out.length = rs.length ∧
      ∀ n r, rs[n]? = some r →
        out[n]? = some (meanOfLastFive (ofSensor r.1 (rs.take (n + 1)))) := by
  obtain ⟨w, out, hrun, hrep, hlen, hout⟩ := acceptAll_spec Windows.init_rep hrs
  refine ⟨w, out, hrun, fun s h1 h5 => ⟨⟨(ofSensor s rs).length % 5 + 1, ?_, ?_, ?_⟩, ?_⟩, hlen,
    hout⟩
  · omega
  · omega
  · rw [hrep.index s h1 h5]
    push_cast
    rfl
  · rw [hrep.check s h1 h5]
    by_cases h : 5 ≤ (ofSensor s rs).length
    · exact ⟨fun _ => h, fun _ => by rw [List.nil_append, if_pos h]; exact one_ne_zero⟩
    · rw [List.nil_append, if_neg h]
      exact ⟨fun h0 => absurd rfl h0, fun h' => absurd h' h⟩

/-- The fifth reading of sensor 1, with one of sensor 2 in between, yields the mean 23. -/
theorem acceptAll_init_five :
    ∃ w out, acceptAll Windows.init
        [(1, 21), (1, 22), (2, 30), (1, 23), (1, 24), (1, 25)] = .ok (w, out) ∧
      out[2]? = some (-1 : Rat) ∧ out[5]? = some (23 : Rat) := by
  obtain ⟨w, out, hrun, -, -, hout⟩ := acceptAll_init
    [(1, 21), (1, 22), (2, 30), (1, 23), (1, 24), (1, 25)] (by decide)
  refine ⟨w, out, hrun, ?_, ?_⟩
  · rw [hout 2 (2, 30) rfl]
    norm_num [meanOfLastFive, ofSensor]
  · rw [hout 5 (1, 25) rfl]
    norm_num [meanOfLastFive, ofSensor]

end Gateway
end LinuxPrograming
