import LinuxPrograming.Gateway.ThreadsSafety
import Mathlib.Logic.Relation

/-!
# Progress of the threads

A manager parks in `cond_wait` while it holds `cnt_mutex`, so the other manager waits for it.
Between two calls of `list_push` it is parked only while the list is empty.
-/

namespace LinuxPrograming
namespace Gateway
namespace Threads

open Lib
open Handoff (Who Node Payload)

/-- At a lock of `list->mutex`, the one inside `cond_wait` included. -/
def ConnPc.WantsList : ConnPc → Prop
  | .lock => True
  | _ => False

def MgrPc.WantsList : MgrPc → Prop
  | .lockGet | .woken | .lockRemove _ => True
  | _ => False

def State.WantsList (s : State) : Thread → Prop
  | .conn => s.conn.WantsList
  | .mgr w => (s.mgr w).pc.WantsList

/-- A thread at the lock of a mutex waits for the owner of it. -/
inductive WaitsFor (s : State) : Thread → Thread → Prop where
  | list (t u : Thread) (hwants : s.WantsList t) (howner : s.mutex = some u) : WaitsFor s t u
  | cnt (w v : Who) (hpc : (s.mgr w).pc = .lockCnt) (howner : s.cntMutex = some v) :
    WaitsFor s (.mgr w) (.mgr v)

/-- How many locks a thread at a lock waits for at most, one after the other. -/
def ConnPc.rank : ConnPc → Nat
  | .lock => 1
  | _ => 0

def MgrPc.rank : MgrPc → Nat
  | .lockCnt => 2
  | .lockGet | .woken | .lockRemove _ => 1
  | _ => 0

def State.rank (s : State) : Thread → Nat
  | .conn => s.conn.rank
  | .mgr w => (s.mgr w).pc.rank

variable {p : Payload} {s t : State} {w : Who}

theorem ConnPc.rank_of_inList {k : ConnPc} (h : k.InList) : k.rank = 0 := by
  cases k
  case lock => exact h.elim
  all_goals rfl

theorem ConnPc.rank_of_wantsList {k : ConnPc} (h : k.WantsList) : k.rank = 1 := by
  cases k
  case lock => rfl
  all_goals exact h.elim

theorem MgrPc.rank_of_inList {k : MgrPc} (h : k.InList) : k.rank = 0 := by
  cases k
  case lockCnt | lockGet | woken | lockRemove => exact h.elim
  all_goals rfl

theorem MgrPc.rank_of_wantsList {k : MgrPc} (h : k.WantsList) : k.rank = 1 := by
  cases k
  case lockGet | woken | lockRemove => rfl
  all_goals exact h.elim

theorem MgrPc.rank_le_one {k : MgrPc} (h : k.InCnt) : k.rank ≤ 1 := by
  cases k
  case lockCnt => exact h.elim
  case lockGet | woken | lockRemove => exact Nat.le_refl 1
  all_goals exact Nat.zero_le 1

theorem rank_of_inList {u : Thread} (h : s.InList u) : s.rank u = 0 := by
  cases u with
  | conn => exact ConnPc.rank_of_inList h
  | mgr w => exact MgrPc.rank_of_inList h

theorem rank_of_wantsList {u : Thread} (h : s.WantsList u) : s.rank u = 1 := by
  cases u with
  | conn => exact ConnPc.rank_of_wantsList h
  | mgr w => exact MgrPc.rank_of_wantsList h

/-- The owner of `list->mutex` waits for nothing, and the owner of `cnt_mutex` at most for the
owner of `list->mutex`. -/
theorem WaitsFor.rank_lt (h : Inv s) {t u : Thread} (hwaits : WaitsFor s t u) :
    s.rank u < s.rank t := by
  cases hwaits with
  | list _ _ hwants howner =>
    have hin : s.InList u := (h.mutex u).mpr howner
    rw [rank_of_inList hin, rank_of_wantsList hwants]
    exact Nat.one_pos
  | cnt w v hpc howner =>
    have hin : s.InCnt v := (h.cntMutex v).mpr howner
    have hle : s.rank (.mgr v) ≤ 1 := MgrPc.rank_le_one hin
    have htwo : s.rank (.mgr w) = 2 := by rw [State.rank, hpc]; rfl
    omega

theorem waitsFor_acyclic (h : Inv s) (t : Thread) : ¬ Relation.TransGen (WaitsFor s) t t := by
  intro hcycle
  have hlt : Relation.TransGen (· > ·) (s.rank t) (s.rank t) :=
    hcycle.lift s.rank fun _ _ hwaits => hwaits.rank_lt h
  rw [Relation.transGen_eq_self] at hlt
  exact Nat.lt_irrefl _ hlt

/-! ## An enabled manager -/

/-- The places where a manager may have no step. -/
theorem mgrStep_ne_none (hcnt : (s.mgr w).pc = .lockCnt → s.cntMutex = none)
    (hlist : (s.mgr w).pc.WantsList → s.mutex = none) (hwait : (s.mgr w).pc ≠ .waiting) :
    mgrStep p s w ≠ none := by
  unfold mgrStep
  dsimp only
  split
  case h_1 hpc => simp [hcnt hpc]
  case h_2 hpc | h_6 hpc | h_14 hpc =>
    have hfree := hlist (hpc ▸ trivial)
    simp [hfree]
  case h_5 hpc => exact absurd hpc hwait
  case h_3 | h_9 | h_13 =>
    split
    all_goals simp
  all_goals simp

theorem Inv.enabled (h : Inv s) (hcnt : (s.mgr w).pc = .lockCnt → s.cntMutex = none)
    (hlist : (s.mgr w).pc.WantsList → s.mutex = none) (hwait : (s.mgr w).pc ≠ .waiting) :
    ∃ t, Threads.next p s (.mgr w) = some (.ok t) := by
  have hsome : Threads.mgrStep p s w ≠ none := mgrStep_ne_none hcnt hlist hwait
  obtain ⟨x, hx⟩ := Option.ne_none_iff_exists'.mp hsome
  cases x with
  | error f => exact absurd hx (h.mgrStep_ne_error w)
  | ok t => exact ⟨t, hx⟩

/-- Between two calls of `list_push`, `list->mutex` belongs to the owner of `cnt_mutex`. -/
theorem Inv.mutex_free (h : Inv s) (hconn : ¬ s.conn.InList) (hcnt : s.InCnt w)
    (hout : ¬ (s.mgr w).pc.InList) : s.mutex = none := by
  cases hmutex : s.mutex with
  | none => rfl
  | some u =>
    have hin : s.InList u := (h.mutex u).mpr hmutex
    cases u with
    | conn => exact absurd hin hconn
    | mgr v =>
      have hv : v = w := h.cntMutex.unique (MgrPc.InList.inCnt hin) hcnt
      exact absurd (hv ▸ hin) hout

/-- No wake-up is lost: a manager that is not notified waits for a list that is empty. -/
theorem Inv.not_waiting (h : Inv s) (hconn : s.conn = .idle) (hempty : ¬ listEmpty s.list)
    (w : Who) : (s.mgr w).pc ≠ .waiting := by
  intro hpc
  have hknows := h.knows w
  rw [hpc, hconn] at hknows
  rcases hknows with hnone | ⟨k, hk⟩
  · exact hempty (.inr hnone)
  · exact absurd hk (by simp)

theorem MgrPc.WantsList.inCnt {k : MgrPc} (h : k.WantsList) : k.InCnt := by
  cases k
  case lockGet | woken | lockRemove => exact trivial
  all_goals exact h.elim

theorem MgrPc.WantsList.not_inList {k : MgrPc} (h : k.WantsList) : ¬ k.InList := by
  cases k
  case lockGet | woken | lockRemove => exact id
  all_goals exact h.elim

theorem Inv.exists_enabled (h : Inv s) (hconn : s.conn = .idle) (hempty : ¬ listEmpty s.list) :
    ∃ w t, Threads.next p s (.mgr w) = some (.ok t) := by
  have hout : ¬ s.conn.InList := hconn ▸ id
  cases hcnt : s.cntMutex with
  | none =>
    refine ⟨.data, h.enabled (fun _ => hcnt) (fun hwants => ?_) (h.not_waiting hconn hempty _)⟩
    exact h.mutex_free hout hwants.inCnt hwants.not_inList
  | some w =>
    have hin : s.InCnt w := (h.cntMutex w).mpr hcnt
    refine ⟨w, h.enabled (fun hpc => ?_) (fun hwants => ?_) (h.not_waiting hconn hempty _)⟩
    · rw [State.InCnt, hpc] at hin
      exact hin.elim
    · exact h.mutex_free hout hwants.inCnt hwants.not_inList

/-- The threads never deadlock, and a message in the list is never left to two parked
managers. -/
theorem threads_live {size : Nat} {buf : Bytes} {es : List Event}
    (h : run (advance p) (start size buf) es = some s) :
    (s.conn = .idle → ¬ listEmpty s.list → ∃ w t, next p s (.mgr w) = some (.ok t)) ∧
      ∀ t, ¬ Relation.TransGen (WaitsFor s) t t :=
  ⟨(inv_of_run h).exists_enabled, waitsFor_acyclic (inv_of_run h)⟩

/-- `data_mgr` parks before the message comes, and `storage_mgr` waits for `cnt_mutex`. -/
def parked : List Event :=
  List.replicate 4 (.mgr .data) ++ .recv (bytes "a") :: List.replicate 8 (.conn true)

theorem threads_live_parked :
    ∃ s, run (advance Handoff.byValue) (start 1 []) parked = some s ∧
      WaitsFor s (.mgr .storage) (.mgr .data) ∧
      (∃ w t, next Handoff.byValue s (.mgr w) = some (.ok t)) ∧
      ∀ t, ¬ Relation.TransGen (WaitsFor s) t t := by
  have hparked : ∃ s, run (advance Handoff.byValue) (start 1 []) parked = some s ∧
      s.conn = .idle ∧ ¬ listEmpty s.list ∧ (s.mgr .storage).pc = .lockCnt ∧
      s.cntMutex = some .data := ⟨_, rfl, rfl, by decide, rfl, rfl⟩
  obtain ⟨s, hs, hconn, hempty, hpc, howner⟩ := hparked
  have hlive := threads_live hs
  exact ⟨s, hs, .cnt .storage .data hpc howner, hlive.1 hconn hempty, hlive.2⟩

end Threads
end Gateway
end LinuxPrograming
