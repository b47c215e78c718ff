import LinuxPrograming.Eloop.Model

/-!
# The entries of signals

`eloop.signals` against the notes of what happened to the signals.  A signal is owed a call of its
handler from the time that it is counted, and exactly then its first entry is above 0.
-/

namespace LinuxPrograming
namespace Eloop

/-! ## What is owed -/

section

variable {α : Type*}

/-- Something with `p` is in the list, the newest first, and nothing with `q` came since. -/
def since (p q : α → Bool) : List α → Bool
  | [] => false
  | note :: notes => p note || !q note && since p q notes

theorem since_iff {p q : α → Bool} {notes : List α} :
    since p q notes = true ↔ ∃ later note earlier, notes = later ++ note :: earlier ∧
      p note = true ∧ ∀ other ∈ later, q other = false := by
  induction notes with
  | nil => simp [since]
  | cons note notes ih =>
    rw [since, Bool.or_eq_true, Bool.and_eq_true, Bool.not_eq_true', ih]
    constructor
    · rintro (hnote | ⟨hpast, later, found, earlier, rfl, hfound, hlater⟩)
      · exact ⟨[], note, notes, rfl, hnote, fun _ h => absurd h List.not_mem_nil⟩
      · exact ⟨note :: later, found, earlier, rfl, hfound, List.forall_mem_cons.mpr
          ⟨hpast, hlater⟩⟩
    · rintro ⟨later, found, earlier, heq, hfound, hlater⟩
      cases later with
      | nil =>
        left
        rw [(List.cons.inj heq).1]
        exact hfound
      | cons head later =>
        obtain ⟨rfl, rfl⟩ := List.cons.inj heq
        obtain ⟨hpast, hlater⟩ := List.forall_mem_cons.mp hlater
        exact Or.inr ⟨hpast, later, found, earlier, rfl, hfound, hlater⟩

end

/-- The signal was counted, and its handler was not called since. -/
def owes (sig : Nat) (notes : List Note) : Bool :=
  since (fun note => note == .delivered sig) (fun note => note == .handled sig) notes

section

variable {sig other : Nat} {notes : List Note}

theorem owes_iff : owes sig notes = true ↔ ∃ later earlier,
    notes = later ++ .delivered sig :: earlier ∧ .handled sig ∉ later := by
  rw [owes, since_iff]
  constructor
  · rintro ⟨later, note, earlier, heq, hnote, hlater⟩
    rw [eq_of_beq hnote] at heq
    exact ⟨later, earlier, heq, fun h => absurd (hlater _ h) (by simp)⟩
  · rintro ⟨later, earlier, heq, hlater⟩
    refine ⟨later, _, earlier, heq, beq_self_eq_true _, fun note hnote => ?_⟩
    rw [beq_eq_false_iff_ne]
    rintro rfl
    exact hlater hnote

theorem owes_delivered : owes sig (.delivered other :: notes) = true ↔
    other = sig ∨ owes sig notes = true := by
  rw [owes, since]
  simp [owes]

theorem owes_handled : owes sig (.handled other :: notes) = true ↔
    other ≠ sig ∧ owes sig notes = true := by
  rw [owes, since]
  simp [owes]

theorem owes_other {note : Note} (hdelivered : note ≠ .delivered sig)
    (hhandled : note ≠ .handled sig) : owes sig (note :: notes) = owes sig notes := by
  rw [owes, since, beq_eq_false_iff_ne.mpr hdelivered, beq_eq_false_iff_ne.mpr hhandled,
    Bool.false_or, Bool.not_false, Bool.true_and]
  rfl

end

/-- `SIGINT` or `SIGTERM` arrived. -/
def Note.terminates : Note → Bool
  | .delivered sig | .lost sig => sig == sigint || sig == sigterm
  | _ => false

/-- `SIGINT` or `SIGTERM` arrived since `alarm(0)` was called. -/
def waits (notes : List Note) : Bool := since Note.terminates (fun note => note == .disarmed) notes

theorem waits_iff {notes : List Note} : waits notes = true ↔ ∃ later note earlier,
    notes = later ++ note :: earlier ∧ note.terminates = true ∧ .disarmed ∉ later := by
  rw [waits, since_iff]
  refine exists₃_congr fun later note earlier => and_congr_right fun _ => and_congr_right
    fun _ => ?_
  exact ⟨fun h hmem => absurd (h _ hmem) (by simp), fun h other hother => by
    rw [beq_eq_false_iff_ne]
    rintro rfl
    exact h hother⟩

theorem waits_cons {note : Note} {notes : List Note} (hnote : note ≠ .disarmed)
    (h : waits notes = true) : waits (note :: notes) = true := by
  rw [waits, since, beq_eq_false_iff_ne.mpr hnote, Bool.not_false, Bool.true_and]
  exact Bool.or_eq_true_iff.mpr (Or.inr h)

theorem waits_of_terminates {note : Note} (hnote : note.terminates = true) (notes : List Note) :
    waits (note :: notes) = true := by
  rw [waits, since, hnote, Bool.true_or]

/-- Every call of a handler is for a signal that was counted since the call before. -/
def WellNoted (notes : List Note) : Prop :=
  ∀ later sig earlier, notes = later ++ .handled sig :: earlier → owes sig earlier = true

theorem WellNoted.cons {notes : List Note} (h : WellNoted notes) {note : Note}
    (hnote : ∀ sig, note = .handled sig → owes sig notes = true) : WellNoted (note :: notes) := by
  intro later sig earlier heq
  cases later with
  | nil =>
    obtain ⟨rfl, rfl⟩ := List.cons.inj heq
    exact hnote sig rfl
  | cons head later => exact h later sig earlier (List.cons.inj heq).2

/-! ## The entries -/

theorem countSignal_get (sig : Nat) {signals : List Signal} {i : Nat} {signal : Signal}
    (h : (countSignal sig signals)[i]? = some signal) :
    ∃ old, signals[i]? = some old ∧ old.sig = signal.sig ∧ old.signaled ≤ signal.signaled ∧
      (old.signaled < signal.signaled → signal.sig = sig ∧
        ∀ j < i, ∀ other, signals[j]? = some other → other.sig ≠ sig) := by
  induction signals generalizing i with
  | nil => cases h
  | cons head signals ih =>
    rw [countSignal] at h
    by_cases hhead : head.sig = sig
    · rw [if_pos hhead] at h
      cases i with
      | zero =>
        obtain rfl := Option.some.inj h
        exact ⟨head, rfl, rfl, Nat.le_succ _, fun _ => ⟨hhead, fun j hj => by omega⟩⟩
      | succ i =>
        refine ⟨signal, h, rfl, Nat.le_refl _, fun hlt => ?_⟩
        omega
    · rw [if_neg hhead] at h
      cases i with
      | zero =>
        obtain rfl := Option.some.inj h
        exact ⟨head, rfl, rfl, Nat.le_refl _, fun hlt => by omega⟩
      | succ i =>
        obtain ⟨old, hold, hsig, hle, hfirst⟩ := ih h
        refine ⟨old, hold, hsig, hle, fun hlt => ⟨(hfirst hlt).1, fun j hj other hother => ?_⟩⟩
        cases j with
        | zero =>
          obtain rfl := Option.some.inj hother
          exact hhead
        | succ j => exact (hfirst hlt).2 j (by omega) other hother

theorem countSignal_keeps (sig : Nat) {signals : List Signal} {i : Nat} {signal : Signal}
    (h : signals[i]? = some signal) :
    ∃ new, (countSignal sig signals)[i]? = some new ∧ new.sig = signal.sig ∧
      signal.signaled ≤ new.signaled := by
  induction signals generalizing i with
  | nil => cases h
  | cons head signals ih =>
    rw [countSignal]
    by_cases hhead : head.sig = sig
    · rw [if_pos hhead]
      cases i with
      | zero =>
        obtain rfl := Option.some.inj h
        exact ⟨_, rfl, rfl, Nat.le_succ _⟩
      | succ i => exact ⟨signal, h, rfl, Nat.le_refl _⟩
    · rw [if_neg hhead]
      cases i with
      | zero => exact ⟨signal, h, rfl, Nat.le_refl _⟩
      | succ i => exact ih h

/-- Some entry is counted up. -/
theorem exists_countSignal {sig : Nat} {signals : List Signal}
    (h : (signals.any fun signal => signal.sig == sig) = true) :
    ∃ i : Nat, ∃ signal : Signal, (countSignal sig signals)[i]? = some signal ∧ signal.sig = sig ∧
      0 < signal.signaled := by
  induction signals with
  | nil => cases h
  | cons head signals ih =>
    rw [countSignal]
    by_cases hhead : head.sig = sig
    · rw [if_pos hhead]
      exact ⟨0, _, rfl, hhead, Nat.succ_pos _⟩
    · rw [if_neg hhead]
      rw [List.any_cons, Bool.or_eq_true, beq_iff_eq] at h
      obtain ⟨i, signal, hi, hsig, hpos⟩ := ih (h.resolve_left hhead)
      exact ⟨i + 1, signal, hi, hsig, hpos⟩

/-- The entries agree with the notes. -/
structure Entries (signals : List Signal) (notes : List Note) : Prop where
  owed : ∀ (i : Nat) (signal : Signal), signals[i]? = some signal → 0 < signal.signaled →
    owes signal.sig notes = true ∧
      ∀ j < i, ∀ other : Signal, signals[j]? = some other → other.sig ≠ signal.sig
  counted : ∀ sig, owes sig notes = true → ∃ i : Nat, ∃ signal : Signal,
    signals[i]? = some signal ∧ signal.sig = sig ∧ 0 < signal.signaled
  noted : WellNoted notes

namespace Entries

variable {signals : List Signal} {notes : List Note}

/-- A signal that is counted. -/
theorem count (h : Entries signals notes) {sig : Nat}
    (hany : (signals.any fun signal => signal.sig == sig) = true) :
    Entries (countSignal sig signals) (.delivered sig :: notes) := by
  refine ⟨fun i signal hi hpos => ?_, fun other howes => ?_,
    h.noted.cons fun _ heq => by cases heq⟩
  · obtain ⟨old, hold, hsig, hle, hfirst⟩ := countSignal_get sig hi
    have hothers : ∀ j < i, ∀ new : Signal, (countSignal sig signals)[j]? = some new →
        ∃ other : Signal, signals[j]? = some other ∧ other.sig = new.sig := by
      intro j _ new hnew
      obtain ⟨other, hother, heq, -⟩ := countSignal_get sig hnew
      exact ⟨other, hother, heq⟩
    rw [owes_delivered]
    by_cases hlt : old.signaled < signal.signaled
    · obtain ⟨heq, hnone⟩ := hfirst hlt
      refine ⟨Or.inl heq.symm, fun j hj new hnew => ?_⟩
      obtain ⟨other, hother, hsame⟩ := hothers j hj new hnew
      rw [← hsame, heq]
      exact hnone j hj other hother
    · obtain ⟨howes, hnone⟩ := h.owed i old hold (by omega)
      rw [hsig] at howes hnone
      refine ⟨Or.inr howes, fun j hj new hnew => ?_⟩
      obtain ⟨other, hother, hsame⟩ := hothers j hj new hnew
      rw [← hsame]
      exact hnone j hj other hother
  · rcases owes_delivered.mp howes with rfl | howes
    · exact exists_countSignal hany
    · obtain ⟨i, signal, hi, hsig, hpos⟩ := h.counted other howes
      obtain ⟨new, hnew, hsame, hle⟩ := countSignal_keeps sig hi
      exact ⟨i, new, hnew, hsame.trans hsig, by omega⟩

/-- A note of something else. -/
theorem note (h : Entries signals notes) {note : Note} (hdelivered : ∀ sig, note ≠ .delivered sig)
    (hhandled : ∀ sig, note ≠ .handled sig) : Entries signals (note :: notes) := by
  refine ⟨fun i signal hi hpos => ?_, fun sig hsig => ?_,
    h.noted.cons fun sig heq => absurd heq (hhandled sig)⟩
  · rw [owes_other (hdelivered _) (hhandled _)]
    exact h.owed i signal hi hpos
  · rw [owes_other (hdelivered _) (hhandled _)] at hsig
    exact h.counted sig hsig

/-- A new entry. -/
theorem add (h : Entries signals notes) {signal : Signal} (hzero : signal.signaled = 0) :
    Entries (signals ++ [signal]) notes := by
  refine ⟨fun i other hi hpos => ?_, fun sig howes => ?_, h.noted⟩
  · rcases Nat.lt_or_ge i signals.length with hlt | hge
    · rw [List.getElem?_append_left hlt] at hi
      obtain ⟨howes, hnone⟩ := h.owed i other hi hpos
      refine ⟨howes, fun j hj third hthird => hnone j hj third ?_⟩
      rwa [List.getElem?_append_left (Nat.lt_trans hj hlt)] at hthird
    · rw [List.getElem?_append_right hge] at hi
      rw [List.mem_singleton.mp (List.mem_of_getElem? hi), hzero] at hpos
      exact absurd hpos (Nat.lt_irrefl 0)
  · obtain ⟨i, other, hi, hsig, hpos⟩ := h.counted sig howes
    refine ⟨i, other, ?_, hsig, hpos⟩
    rw [List.getElem?_append_left (List.getElem?_eq_some_iff.mp hi).1]
    exact hi

/-- An entry that is cleared for a call of its handler. -/
theorem clear (h : Entries signals notes) {i : Nat} {signal : Signal}
    (hi : signals[i]? = some signal) (hpos : 0 < signal.signaled) :
    Entries (signals.set i { signal with signaled := 0 }) (.handled signal.sig :: notes) := by
  obtain ⟨howes, hnone⟩ := h.owed i signal hi hpos
  have hlt := (List.getElem?_eq_some_iff.mp hi).1
  have hself : (signals.set i { signal with signaled := 0 })[i]? =
      some { signal with signaled := 0 } := by
    rw [List.getElem?_set_self hlt]
  have hother : ∀ {j : Nat}, j ≠ i →
      (signals.set i { signal with signaled := 0 })[j]? = signals[j]? :=
    fun hne => List.getElem?_set_ne (Ne.symm hne)
  -- An entry for the same signal is never counted behind the first one.
  have hsig : ∀ {j : Nat} {other : Signal}, j ≠ i → signals[j]? = some other →
      0 < other.signaled → other.sig ≠ signal.sig := by
    intro j other hne hj hpos' heq
    rcases Nat.lt_or_gt_of_ne hne with hlt' | hgt
    · exact hnone j hlt' other hj heq
    · exact (h.owed j other hj hpos').2 i hgt signal hi heq.symm
  refine ⟨fun j other hj hpos' => ?_, fun sig howes' => ?_, h.noted.cons fun sig heq => ?_⟩
  · have hne : j ≠ i := by
      rintro rfl
      rw [hself] at hj
      rw [← Option.some.inj hj] at hpos'
      exact absurd hpos' (Nat.lt_irrefl 0)
    rw [hother hne] at hj
    obtain ⟨howes', hnone'⟩ := h.owed j other hj hpos'
    have hne' := hsig hne hj hpos'
    refine ⟨owes_handled.mpr ⟨hne'.symm, howes'⟩, fun l hl third hthird => ?_⟩
    by_cases hsame : l = i
    · rw [hsame, hself] at hthird
      rw [← Option.some.inj hthird]
      exact hne'.symm
    · rw [hother hsame] at hthird
      exact hnone' l hl third hthird
  · obtain ⟨hdiffers, howes'⟩ := owes_handled.mp howes'
    obtain ⟨j, other, hj, hsame, hpos'⟩ := h.counted sig howes'
    have hne : j ≠ i := by
      rintro rfl
      rw [hi] at hj
      obtain rfl := Option.some.inj hj
      exact hdiffers hsame
    exact ⟨j, other, (hother hne).trans hj, hsame, hpos'⟩
  · cases heq
    exact howes

end Entries

end Eloop
end LinuxPrograming
