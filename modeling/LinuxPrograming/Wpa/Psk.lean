import LinuxPrograming.Wpa.Commands

/-!
# The two ways to give the psk

`config_wifi` takes the psk as its second argument or reads it from standard input.  The array
for the line has 64 bytes, but `fgets` is given the size of the pointer to it.
-/

namespace LinuxPrograming
namespace Wpa

open Lib

/-- The value of `config_wifi` and the commands that have been sent. -/
def Env.outcome (env : Env) (args : List Bytes) (s : Session) : Option (Int × List Bytes) :=
  ((env.configWifi args).run s).map fun r => (r.1, r.2.sent)

/-- The psk as an argument, and the psk as the next line of standard input: both are rejected
when the length is wrong, and otherwise both are sent as they are. -/
structure Env.Agree (env : Env) (s : Session) (ssid psk rest : Bytes) : Prop where
  same : env.outcome [ssid, psk] s = env.outcome [ssid] { s with stdin := psk ++ 10 :: rest }
  rejected : psk.length < 8 ∨ psk.length > 63 → env.outcome [ssid, psk] s = some (-1, s.sent)
  sent : 8 ≤ psk.length → psk.length ≤ 63 → ∀ ret cmds,
    env.outcome [ssid, psk] s = some (ret, cmds) →
      ∃ netid, setText netid (bytes "psk") psk ∈ cmds.drop s.sent.length

section

variable {env : Env} {s : Session} {ssid psk : Bytes}

/-- From standard input every psk is rejected. -/
theorem outcome_stdin : env.outcome [ssid] s = some (-1, s.sent) := by
  obtain ⟨t, hrun, hsent⟩ := (configWifi_stdin_sends env ssid s _ rfl).1 trivial
  rw [Env.outcome, hrun]
  show some (-1, env.dialogue.sent t) = some (-1, s.sent)
  rw [hsent, List.map_nil, List.append_nil]
  rfl

theorem outcome_rejected (hpsk : psk.length < 8 ∨ psk.length > 63) :
    env.outcome [ssid, psk] s = some (-1, s.sent) := by
  have hcheck := checkPsk_sends env ssid psk
  simp only [if_pos hpsk] at hcheck
  obtain ⟨t, hrun, hsent⟩ := (hcheck s _ rfl).1 trivial
  rw [Env.outcome, Env.configWifi, hrun]
  show some (-1, env.dialogue.sent t) = some (-1, s.sent)
  rw [hsent, List.map_nil, List.append_nil]
  rfl

/-- An accepted psk is sent, and the value is 0. -/
theorem outcome_accepted (hpsk : ¬ (psk.length < 8 ∨ psk.length > 63)) {ret : Int}
    {cmds : List Bytes} (h : env.outcome [ssid, psk] s = some (ret, cmds)) :
    ret = 0 ∧ cmds = s.sent ++ (env.connectPlan ssid psk s.sent.length).map Exchange.cmd := by
  have hcheck := checkPsk_sends env ssid psk
  simp only [if_neg hpsk] at hcheck
  obtain ⟨r, hrun, hr⟩ := Option.map_eq_some_iff.mp h
  obtain ⟨hret, hsent⟩ := hcheck.of_run hrun
  obtain ⟨rfl, rfl⟩ := Prod.mk.inj hr
  exact ⟨hret, hsent⟩

variable (env ssid psk) in
theorem setText_mem_connectPlan (n : Nat) :
    ∃ netid, setText netid (bytes "psk") psk ∈ (env.connectPlan ssid psk n).map Exchange.cmd := by
  refine ⟨min (env.networkId (env.answers n)) networkIdMax, ?_⟩
  simp [Env.connectPlan, configure]

end

/-- The two ways agree exactly on the psks that are rejected. -/
theorem psk_ways_agree_iff (env : Env) (s : Session) (ssid psk rest : Bytes) :
    env.Agree s ssid psk rest ↔ psk.length < 8 ∨ psk.length > 63 := by
  constructor
  · intro h
    by_contra hpsk
    have hsame := h.same
    rw [outcome_stdin] at hsame
    have hret : (-1 : Int) = 0 := (outcome_accepted hpsk hsame).1
    exact absurd hret (by decide)
  · intro hpsk
    have hrejected : env.outcome [ssid, psk] s = some (-1, s.sent) := outcome_rejected hpsk
    refine ⟨?_, fun _ => hrejected, ?_⟩
    · rw [hrejected, outcome_stdin]
    · intro hmin hmax
      omega

/-- Eight characters connect as an argument and are rejected as a line of input. -/
theorem psk_stdin_rejected :
    (∃ netid cmds, (always "0\n").outcome [bytes "home", bytes "12345678"] ⟨[], [], []⟩ =
        some (0, cmds) ∧ setText netid (bytes "psk") (bytes "12345678") ∈ cmds) ∧
      (always "0\n").outcome [bytes "home"] ⟨[], [], bytes "12345678\n"⟩ = some (-1, []) ∧
      ¬ (always "0\n").Agree ⟨[], [], []⟩ (bytes "home") (bytes "12345678") [] := by
  have hpsk : ¬ ((bytes "12345678").length < 8 ∨ (bytes "12345678").length > 63) := by decide
  have hbounds : (always "0\n").InBounds (.configWifi [bytes "home", bytes "12345678"])
      ⟨[], [], []⟩ := by
    rw [inBounds_iff_plan]
    decide +kernel
  obtain ⟨ret, t, hrun⟩ := hbounds
  have houtcome : (always "0\n").outcome [bytes "home", bytes "12345678"] ⟨[], [], []⟩ =
      some (ret, t.sent) := by
    show ((_ : Controller Int).run _).map _ = _
    exact congrArg (Option.map _) hrun
  obtain ⟨rfl, hcmds⟩ := outcome_accepted hpsk houtcome
  obtain ⟨netid, hmem⟩ :=
    setText_mem_connectPlan (always "0\n") (bytes "home") (bytes "12345678") 0
  refine ⟨⟨netid, t.sent, houtcome, ?_⟩, outcome_stdin, ?_⟩
  · rw [hcmds]
    exact hmem
  · intro h
    have hsame := h.same
    rw [houtcome, outcome_stdin] at hsame
    cases hsame

end Wpa
end LinuxPrograming
