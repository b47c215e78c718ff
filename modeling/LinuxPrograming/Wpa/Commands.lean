import LinuxPrograming.Lib.Dialogue
import LinuxPrograming.Wpa.Controller

/-!
# Commands and replies in their arrays

The requests that each member function of the controller sends, with the array the command was
formatted in and the array the reply is stored in.  A member function writes outside an array
exactly when one of its requests does not fit.
-/

namespace LinuxPrograming
namespace Wpa

open Lib

/-- A request: the command, the size of the array it is in and the size of the array for the
reply. -/
structure Exchange where
  cmd : Bytes
  room : Nat
  cap : Nat

/-- A command that stands in the program as it is. -/
def Exchange.literal (cmd : Bytes) (cap : Nat) : Exchange := ⟨cmd, cmd.length + 1, cap⟩

/-- A reply is not empty, and what is stored of it fits in `cap` bytes. -/
def Request.FitsIn (cap : Nat) : Request → Prop
  | .reply bs => bs ≠ [] ∧ min bs.length replyLen ≤ cap
  | _ => True

instance (cap : Nat) (a : Request) : Decidable (a.FitsIn cap) := by
  cases a
  · exact inferInstanceAs (Decidable True)
  · exact inferInstanceAs (Decidable True)
  · exact inferInstanceAs (Decidable (_ ∧ _))

/-- The command fits with its NUL, and so does the reply. -/
def Exchange.Fits (e : Exchange) (a : Request) : Prop :=
  e.cmd.length < e.room ∧ a.FitsIn e.cap

instance (e : Exchange) (a : Request) : Decidable (e.Fits a) :=
  inferInstanceAs (Decidable (_ ∧ _))

def Env.dialogue (env : Env) : Dialogue Session Bytes Exchange Request :=
  ⟨Session.sent, Exchange.cmd, Exchange.Fits, env.answers⟩

instance (env : Env) (e : Exchange) (a : Request) : Decidable (env.dialogue.Fits e a) :=
  inferInstanceAs (Decidable (e.Fits a))

/-! ## One request -/

/-- What `_wpa_ctrl_cmd` returns for a reply that fits. -/
theorem wpaCtrlCmd_of_fits {bs buf : Bytes} (hne : bs ≠ [])
    (hle : min bs.length replyLen ≤ buf.length) :
    ∃ rest, wpaCtrlCmd (.reply bs) buf = some (0, (bs.take replyLen).dropLast ++ 0 :: rest) := by
  have hstored : wpaCtrlCmd (.reply bs) buf = wpaCtrlCmd (.reply (bs.take replyLen)) buf := by
    rw [wpaCtrlCmd, wpaCtrlCmd, List.take_take, Nat.min_self]
  have hne' : bs.take replyLen ≠ [] := by
    intro hnil
    rcases List.take_eq_nil_iff.mp hnil with h | h
    · exact absurd h (by decide)
    · exact hne h
  have hlen : (bs.take replyLen).length = min bs.length replyLen := by
    rw [List.length_take, Nat.min_comm]
  refine ⟨buf.drop (bs.take replyLen).length, ?_⟩
  rw [hstored]
  exact wpaCtrlCmd_reply hne' (by omega) (by omega)

/-- A reply that does not fit, or an empty one, is written outside the array. -/
theorem wpaCtrlCmd_of_not_fits {bs buf : Bytes}
    (h : ¬ (bs ≠ [] ∧ min bs.length replyLen ≤ buf.length)) :
    wpaCtrlCmd (.reply bs) buf = none := by
  have hlen : (bs.take replyLen).length = min bs.length replyLen := by
    rw [List.length_take, Nat.min_comm]
  by_cases hnil : bs = []
  · rw [hnil, wpaCtrlCmd]
    simp [put]
  · have hout : ¬ 0 + (bs.take replyLen).length ≤ buf.length := by
      intro hle
      exact h ⟨hnil, by omega⟩
    simp only [wpaCtrlCmd, put, if_neg hout, Option.bind_eq_bind, Option.bind_none]

section

variable {env : Env}

variable (env) in
/-- `_wpa_ctrl_cmd` as a function of the answer. -/
theorem command_run (cmd buf : Bytes) (s : Session) :
    ∃ printed, (env.command cmd buf).run s =
      (wpaCtrlCmd (env.answers s.sent.length) buf).map fun r =>
        (r, ⟨s.sent ++ [cmd], printed, s.stdin⟩) := by
  cases ha : env.answers s.sent.length with
  | timedOut =>
    refine ⟨s.printed ++ vsprintf (bytes "'%s' command timed out.\n") [.str cmd], ?_⟩
    simp [Env.command, ha, print, wpaCtrlCmd]
  | failed =>
    refine ⟨s.printed ++ vsprintf (bytes "'%s' command failed.\n") [.str cmd], ?_⟩
    simp [Env.command, ha, print, wpaCtrlCmd]
  | reply bs =>
    refine ⟨s.printed, ?_⟩
    cases hr : wpaCtrlCmd (.reply bs) buf with
    | none => simp [Env.command, ha, hr]
    | some r => simp [Env.command, ha, hr]

/-- The request is answered exactly when it fits. -/
theorem exists_wpaCtrlCmd_iff {cmd buf : Bytes} {room : Nat} (hcmd : cmd.length < room)
    (a : Request) :
    (∃ r, wpaCtrlCmd a buf = some r) ↔ (⟨cmd, room, buf.length⟩ : Exchange).Fits a := by
  cases a with
  | timedOut => exact iff_of_true ⟨_, rfl⟩ ⟨hcmd, trivial⟩
  | failed => exact iff_of_true ⟨_, rfl⟩ ⟨hcmd, trivial⟩
  | reply bs =>
    constructor
    · intro h
      obtain ⟨r, hr⟩ := h
      by_contra hfits
      rw [wpaCtrlCmd_of_not_fits fun hbs => hfits ⟨hcmd, hbs⟩] at hr
      cases hr
    · intro h
      obtain ⟨-, hne, hle⟩ := h
      obtain ⟨rest, hr⟩ := wpaCtrlCmd_of_fits hne hle
      exact ⟨_, hr⟩

/-- The result of a request that fits. -/
def Env.reply (env : Env) (buf : Bytes) (n : Nat) : Int × Bytes :=
  (wpaCtrlCmd (env.answers n) buf).getD (0, [])

variable (env) in
theorem command_sends {cmd : Bytes} {room : Nat} (hcmd : cmd.length < room) (buf : Bytes) :
    env.dialogue.Sends (env.command cmd buf) (fun _ => [⟨cmd, room, buf.length⟩])
      (env.reply buf) := by
  intro s n hn
  have hn' : n = s.sent.length := hn
  obtain ⟨printed, hrun⟩ := command_run env cmd buf s
  rw [← hn'] at hrun
  rw [hrun]
  constructor
  · intro hfit
    obtain ⟨r, hr⟩ := (exists_wpaCtrlCmd_iff hcmd (env.answers n)).mpr hfit.1
    rw [Env.reply, hr]
    exact ⟨_, rfl, rfl⟩
  · intro hfit
    cases hr : wpaCtrlCmd (env.answers n) buf with
    | none => rfl
    | some r => exact absurd ⟨(exists_wpaCtrlCmd_iff hcmd _).mp ⟨r, hr⟩, trivial⟩ hfit

/-- A command that `sprintf` puts in an array is sent from there. -/
theorem sprintf_sends {α : Type} {size : Nat} {fmt : Bytes} {args : List Arg}
    {f : Bytes → Controller α} {cap : Nat} {result : Nat → α}
    (h : (vsprintf fmt args).length < size →
      env.dialogue.Sends (f (vsprintf fmt args)) (fun _ => [⟨vsprintf fmt args, size, cap⟩])
        result) :
    env.dialogue.Sends (do let cmd ← sprintf size fmt args; f cmd)
      (fun _ => [⟨vsprintf fmt args, size, cap⟩]) result := by
  by_cases hfits : (vsprintf fmt args).length < size
  · have hsprintf : sprintf size fmt args = pure (vsprintf fmt args) := if_pos hfits
    rw [hsprintf, pure_bind]
    exact h hfits
  · have hsprintf : sprintf size fmt args = failure := if_neg hfits
    intro s n hn
    constructor
    · intro hall
      exact absurd hall.1.1 hfits
    · intro hall
      rw [hsprintf]
      rfl

/-- What only prints sends nothing. -/
theorem print_sends (text : Bytes) :
    env.dialogue.Sends (print text) (fun _ => []) (fun _ => ()) :=
  Dialogue.Sends.of_modify fun _ => rfl

theorem length_array (size : Nat) : (env.array size).length = size := by
  rw [Env.array, List.length_map, List.length_range]

/-- The value of a member function that sends one command. -/
def Env.code (env : Env) (size n : Nat) : Int :=
  if (env.reply (env.array size) n).1 < 0 then -1 else 0

theorem simple_sends {cmd : Bytes} {room size : Nat} {use : Bytes → Controller Unit}
    (hcmd : cmd.length < room)
    (huse : ∀ b, env.dialogue.Sends (use b) (fun _ => []) (fun _ => ())) :
    env.dialogue.Sends (env.simple cmd size use) (fun _ => [⟨cmd, room, size⟩])
      (env.code size) := by
  have hcommand := command_sends env hcmd (env.array size)
  rw [length_array] at hcommand
  have hrest : ∀ r : Int × Bytes, env.dialogue.Sends
      (if r.1 < 0 then pure (-1) else do use r.2; pure 0) (fun _ => [])
      (fun _ => if r.1 < 0 then -1 else 0) := by
    intro r
    by_cases hr : r.1 < 0
    · simp only [if_pos hr]
      exact .of_pure (-1)
    · simp only [if_neg hr]
      exact ((huse r.2).bind fun _ => .of_pure 0).congr (fun _ => rfl) fun _ _ => rfl
  exact (hcommand.bind hrest).congr (fun _ => rfl) fun _ _ => rfl

end

/-! ## The member functions -/

/-- The text of a `SET_NETWORK` command. -/
def setText (netid : Int) (argv1 argv2 : Bytes) : Bytes :=
  vsprintf (bytes "%s %d %s \"%s\"")
    [.str (bytes "SET_NETWORK"), .int netid, .str argv1, .str argv2]

/-- The text of a command about a network. -/
def networkText (name : Bytes) (netid : Int) : Bytes :=
  vsprintf (bytes "%s %d") [.str name, .int netid]

/-- What `add_network` returns. -/
def Env.networkId (env : Env) : Request → Int
  | .reply bs => (sscanfInt (cStr bs.dropLast)).getD env.netid
  | _ => -1

/-- The requests about the network `netid`. -/
def configure (netid : Int) (ssid psk : Bytes) : List Exchange :=
  [⟨setText netid (bytes "ssid") ssid, 64, 1024⟩, ⟨setText netid (bytes "psk") psk, 64, 1024⟩,
    ⟨networkText (bytes "SELECT_NETWORK") netid, 64, 1024⟩, .literal (bytes "STATUS") 1024]

/-- The requests that make room when there are too many networks. -/
def makeRoom (netid : Int) : List Exchange :=
  if netid > networkIdMax then
    [⟨networkText (bytes "REMOVE_NETWORK") 0, 64, 1024⟩, .literal (bytes "SAVE_CONFIG") 1024,
      .literal (bytes "RECONFIGURE") 1024]
  else []

/-- The requests of `config_wifi` for a psk that it accepts. -/
def Env.connectPlan (env : Env) (ssid psk : Bytes) (n : Nat) : List Exchange :=
  let netid := env.networkId (env.answers n)
  .literal (bytes "ADD_NETWORK") 2 ::
    (makeRoom netid ++ configure (min netid networkIdMax) ssid psk)

/-- The requests of `scan_results`. -/
def Env.scanPlan (env : Env) (n : Nat) : List Exchange :=
  if env.opened then
    .literal (bytes "SCAN") 2 ::
      match env.answers n with
      | .reply _ => [.literal (bytes "SCAN_RESULTS") 4096]
      | _ => []
  else []

section

variable {env : Env}

theorem literal_sends {cmd : Bytes} {size : Nat} {use : Bytes → Controller Unit}
    (huse : ∀ b, env.dialogue.Sends (use b) (fun _ => []) (fun _ => ())) :
    env.dialogue.Sends (env.simple cmd size use) (fun _ => [.literal cmd size])
      (env.code size) :=
  simple_sends (Nat.lt_succ_self _) huse

theorem setNetwork_sends (netid : Int) (argv1 argv2 : Bytes) :
    env.dialogue.Sends (env.setNetwork netid argv1 argv2)
      (fun _ => [⟨setText netid argv1 argv2, 64, 1024⟩]) (env.code 1024) :=
  sprintf_sends fun hfits => simple_sends hfits fun _ => .of_pure ()

theorem selectNetwork_sends (netid : Int) :
    env.dialogue.Sends (env.selectNetwork netid)
      (fun _ => [⟨networkText (bytes "SELECT_NETWORK") netid, 64, 1024⟩]) (env.code 1024) :=
  sprintf_sends fun hfits => simple_sends hfits fun _ => print_sends _

theorem removeNetwork_sends (netid : Int) :
    env.dialogue.Sends (env.removeNetwork netid)
      (fun _ => [⟨networkText (bytes "REMOVE_NETWORK") netid, 64, 1024⟩]) (env.code 1024) :=
  sprintf_sends fun hfits => simple_sends hfits fun _ => print_sends _

theorem status_sends (ssid : Bytes) :
    env.dialogue.Sends (env.status ssid) (fun _ => [.literal (bytes "STATUS") 1024])
      (env.code 1024) := by
  refine literal_sends fun buffer => ?_
  split
  · exact print_sends _
  · exact print_sends _

theorem disconnect_sends :
    env.dialogue.Sends env.disconnect (fun _ => [.literal (bytes "DISCONNECT") 1024])
      (env.code 1024) :=
  literal_sends fun _ => print_sends _

theorem addNetwork_sends :
    env.dialogue.Sends env.addNetwork (fun _ => [.literal (bytes "ADD_NETWORK") 2])
      (fun n => env.networkId (env.answers n)) := by
  have hcommand := command_sends env (Nat.lt_succ_self (bytes "ADD_NETWORK").length)
    (env.array 2)
  rw [length_array] at hcommand
  have hrest : ∀ r : Int × Bytes, env.dialogue.Sends
      (if r.1 < 0 then pure (-1) else pure ((sscanfInt (cStr r.2)).getD env.netid)) (fun _ => [])
      (fun _ => if r.1 < 0 then -1 else (sscanfInt (cStr r.2)).getD env.netid) := by
    intro r
    by_cases hr : r.1 < 0
    · simp only [if_pos hr]
      exact .of_pure (-1)
    · simp only [if_neg hr]
      exact .of_pure _
  refine (hcommand.bind hrest).congr (fun _ => rfl) fun n hall => ?_
  have hfits : (Exchange.literal (bytes "ADD_NETWORK") 2).Fits (env.answers n) := hall.1
  rw [Env.reply]
  revert hfits
  cases env.answers n with
  | timedOut => exact fun _ => rfl
  | failed => exact fun _ => rfl
  | reply bs =>
    intro hfits
    obtain ⟨-, hne, hle⟩ := hfits
    have htwo : min bs.length replyLen ≤ 2 := hle
    have hlimit : replyLen = 4096 := rfl
    have hshort : bs.length ≤ replyLen := by omega
    have hle' : min bs.length replyLen ≤ (env.array 2).length := by
      rw [length_array]
      exact htwo
    obtain ⟨rest, hr⟩ := wpaCtrlCmd_of_fits hne hle'
    rw [hr, List.take_of_length_le hshort]
    have hstr : cStr (bs.dropLast ++ 0 :: rest) = cStr bs.dropLast := by
      rw [cStr, takeWhile_append_cons (by decide)]
      rfl
    show (sscanfInt (cStr bs.dropLast)).getD env.netid =
      (sscanfInt (cStr (bs.dropLast ++ 0 :: rest))).getD env.netid
    rw [hstr]

theorem limitId_sends (netid : Int) :
    env.dialogue.Sends (env.limitId netid) (fun _ => makeRoom netid)
      (fun _ => min netid networkIdMax) := by
  rw [Env.limitId]
  by_cases hmany : netid > networkIdMax
  · rw [if_pos hmany]
    refine ((removeNetwork_sends 0).bind fun _ => (literal_sends fun _ => .of_pure ()).bind
      fun _ => (literal_sends fun _ => .of_pure ()).bind fun _ => .of_pure networkIdMax).congr
      (fun _ => ?_) fun _ _ => ?_
    · rw [makeRoom, if_pos hmany]
      rfl
    · exact min_eq_right (Int.le_of_lt hmany)
  · rw [if_neg hmany]
    refine (Dialogue.Sends.of_pure netid).congr (fun _ => ?_) fun _ _ => ?_
    · rw [makeRoom, if_neg hmany]
    · exact min_eq_left (Int.not_lt.mp hmany)

theorem connect_sends (ssid psk : Bytes) :
    env.dialogue.Sends (env.connect ssid psk) (env.connectPlan ssid psk) (fun _ => 0) := by
  refine (addNetwork_sends.bind fun netid => (limitId_sends netid).bind fun netid =>
    (setNetwork_sends netid (bytes "ssid") ssid).bind fun _ =>
      (setNetwork_sends netid (bytes "psk") psk).bind fun _ =>
        (selectNetwork_sends netid).bind fun _ => (status_sends ssid).bind fun _ =>
          .of_pure 0).congr (fun _ => ?_) fun _ _ => rfl
  rfl

/-- A reply, whether or not it fits, is no failure. -/
theorem reply_of_reply {buf bs : Bytes} {n : Nat} (h : env.answers n = .reply bs) :
    (env.reply buf n).1 = 0 := by
  rw [Env.reply, h]
  by_cases hfits : bs ≠ [] ∧ min bs.length replyLen ≤ buf.length
  · obtain ⟨rest, hr⟩ := wpaCtrlCmd_of_fits hfits.1 hfits.2
    rw [hr]
    rfl
  · rw [wpaCtrlCmd_of_not_fits hfits]
    rfl

theorem scanResults_sends :
    env.dialogue.Sends env.scanResults env.scanPlan fun n =>
      if env.opened ∧ 0 ≤ (env.reply (env.array 2) n).1 then env.code 4096 (n + 1) else -1 := by
  by_cases hopened : env.opened = true
  · have hcommand := command_sends env (Nat.lt_succ_self (bytes "SCAN").length) (env.array 2)
    rw [length_array] at hcommand
    have hrest : ∀ ok : Int × Bytes, env.dialogue.Sends
        (if ok.1 < 0 then pure (-1)
        else do
          print (bytes "scan wifi status: " ++ cStr ok.2 ++ bytes "\n")
          env.simple (bytes "SCAN_RESULTS") 4096 fun buff =>
            print (bytes "List SSID: \n" ++ parseToWifiName (cStr buff)))
        (fun _ => if ok.1 < 0 then [] else [.literal (bytes "SCAN_RESULTS") 4096])
        (fun n => if ok.1 < 0 then -1 else env.code 4096 n) := by
      intro ok
      by_cases hok : ok.1 < 0
      · simp only [if_pos hok]
        exact .of_pure (-1)
      · simp only [if_neg hok]
        exact ((print_sends _).bind fun _ => literal_sends fun _ => print_sends _).congr
          (fun _ => rfl) fun _ _ => rfl
    rw [Env.scanResults, if_pos hopened]
    refine (hcommand.bind hrest).congr (fun n => ?_) fun n _ => ?_
    · rw [Env.scanPlan, if_pos hopened]
      cases hn : env.answers n with
      | timedOut =>
        rw [Env.reply, hn]
        rfl
      | failed =>
        rw [Env.reply, hn]
        rfl
      | reply bs =>
        rw [reply_of_reply hn]
        rfl
    · by_cases hok : (env.reply (env.array 2) n).1 < 0
      · rw [if_pos hok, if_neg fun h => Int.not_le.mpr hok h.2]
      · rw [if_neg hok, if_pos ⟨hopened, Int.not_lt.mp hok⟩]
        rfl
  · rw [Env.scanResults, if_neg hopened]
    refine ((print_sends _).bind fun _ => .of_pure (-1)).congr (fun _ => ?_) fun _ _ => ?_
    · rw [Env.scanPlan, if_neg hopened]
      rfl
    · rw [if_neg fun h => hopened h.1]

end

/-! ## The psk from standard input -/

theorem length_firstLine_le (t : Bytes) : (firstLine t).length ≤ t.length := by
  induction t with
  | nil => exact Nat.le_refl 0
  | cons c t ih =>
    rw [firstLine]
    split
    · rw [List.length_singleton, List.length_cons]
      omega
    · rw [List.length_cons, List.length_cons]
      omega

/-- The loop over a text ends at its NUL at the latest. -/
theorem endLine_of_nul (a b : Bytes) :
    ∃ m, endLine (a ++ 0 :: b) = some m ∧ (cStr m).length ≤ a.length := by
  induction a with
  | nil => exact ⟨0 :: b, rfl, Nat.le_refl 0⟩
  | cons c a ih =>
    obtain ⟨m, hend, hlen⟩ := ih
    rw [List.cons_append, endLine]
    by_cases hnul : c = 0
    · rw [if_pos hnul, hnul]
      exact ⟨_, rfl, Nat.zero_le _⟩
    · rw [if_neg hnul]
      by_cases hline : c = 13 ∨ c = 10
      · rw [if_pos hline]
        exact ⟨_, rfl, Nat.zero_le _⟩
      · rw [if_neg hline, hend]
        refine ⟨c :: m, rfl, ?_⟩
        rw [cStr_cons, if_neg hnul, List.length_cons, List.length_cons]
        omega

section

variable {env : Env}

variable (env) in
/-- `fgets` is given the size of a pointer, so what it reads is too short for a psk. -/
theorem readPsk_run (s : Session) :
    ∃ r t, env.readPsk.run s = some (r, t) ∧ t.sent = s.sent ∧
      ∀ psk, r = some psk → psk.length < 8 := by
  by_cases hinput : s.stdin = []
  · refine ⟨none, ⟨s.sent, s.printed ++ bytes "Reading psk from stdin\n", s.stdin⟩, ?_, rfl, ?_⟩
    · simp [Env.readPsk, print, fgets, hinput]
    · intro psk hpsk
      cases hpsk
  · have hline := length_firstLine_le (s.stdin.take (sizeofPointer - 1))
    generalize hl : firstLine (s.stdin.take (sizeofPointer - 1)) = line at hline
    have hlen : line.length ≤ 7 := by
      rw [List.length_take, sizeofPointer] at hline
      omega
    have hfirst : put (env.array 64) 0 (line ++ [0]) =
        some (patch (env.array 64) 0 (line ++ [0])) := by
      rw [put, if_pos]
      rw [length_array, List.length_append, List.length_singleton]
      omega
    generalize hm : patch (env.array 64) 0 (line ++ [0]) = m at hfirst
    have hmlen : m.length = 64 := by
      rw [← hm, length_patch, length_array]
      rw [length_array, List.length_append, List.length_singleton]
      omega
    have hsecond : put m (sizeofPointer - 1) [0] = some (m.take 7 ++ 0 :: m.drop 8) := by
      rw [put, if_pos]
      · rw [patch, List.append_assoc]
        rfl
      · rw [hmlen]
        decide
    obtain ⟨m', hend, hstr⟩ := endLine_of_nul (m.take 7) (m.drop 8)
    rw [List.length_take] at hstr
    refine ⟨some (cStr m'), ⟨s.sent, s.printed ++ bytes "Reading psk from stdin\n",
      s.stdin.drop line.length⟩, ?_, rfl, ?_⟩
    · simp [Env.readPsk, print, fgets, hinput, hl, hfirst, hsecond, hend]
    · intro psk hpsk
      rw [← Option.some.inj hpsk]
      omega

end

/-! ## Lengths -/

theorem length_setText (netid : Int) (argv1 argv2 : Bytes) :
    (setText netid argv1 argv2).length =
      16 + (decimal netid).length + argv1.length + argv2.length := by
  have htext : setText netid argv1 argv2 = bytes "SET_NETWORK" ++ 32 :: (decimal netid ++
      32 :: (argv1 ++ 32 :: 34 :: (argv2 ++ [34]))) := rfl
  have hname : (bytes "SET_NETWORK").length = 11 := rfl
  rw [htext]
  simp only [List.length_append, List.length_cons, List.length_nil, hname]
  omega

theorem length_networkText_le {name : Bytes} {netid : Int} (hname : name.length ≤ 14)
    (hnetid : FitsInt netid) : (networkText name netid).length < 64 := by
  have htext : networkText name netid = name ++ 32 :: (decimal netid ++ []) := rfl
  have hdecimal : (decimal netid).length ≤ 10 + 1 := by
    refine length_decimal_le (by decide) ?_
    obtain ⟨hmin, hmax⟩ := hnetid
    rw [maxInt] at hmin hmax
    omega
  rw [htext]
  simp only [List.length_append, List.length_cons, List.length_nil]
  omega

theorem readDigits_short {t : Bytes} {n : Int} (ht : t.length ≤ 1) (h : readDigits t = some n) :
    0 ≤ n ∧ n ≤ 9 := by
  cases t with
  | nil => cases h
  | cons c t =>
    have hnil : t = [] := by
      rw [List.length_cons] at ht
      exact List.eq_nil_of_length_eq_zero (by omega)
    rw [hnil] at h
    by_cases hc : 48 ≤ c ∧ c ≤ 57
    · have hdigit : [c].takeWhile (fun c : UInt8 => 48 ≤ c ∧ c ≤ 57) = [c] := by simp [hc]
      rw [readDigits, hdigit, if_neg (List.cons_ne_nil c [])] at h
      have hle : c.toNat ≤ 57 := UInt8.le_iff_toNat_le.mp hc.2
      have hn : 10 * 0 + ((c.toNat - 48 : Nat) : Int) = n := Option.some.inj h
      omega
    · have hnone : [c].takeWhile (fun c : UInt8 => 48 ≤ c ∧ c ≤ 57) = [] := by simp [hc]
      rw [readDigits, hnone, if_pos rfl] at h
      cases h

/-- One character is no number or a digit. -/
theorem sscanfInt_short {t : Bytes} {n : Int} (ht : t.length ≤ 1) (h : sscanfInt t = some n) :
    0 ≤ n ∧ n ≤ 9 := by
  have hlen := (List.dropWhile_sublist (l := t)
    fun c : UInt8 => c = 32 ∨ 9 ≤ c ∧ c ≤ 13).length_le
  rw [sscanfInt] at h
  generalize t.dropWhile (fun c : UInt8 => c = 32 ∨ 9 ≤ c ∧ c ≤ 13) = u at hlen h
  split at h
  · next u =>
    rw [List.length_cons] at hlen
    rw [List.eq_nil_of_length_eq_zero (show u.length = 0 by omega)] at h
    cases h
  · next u =>
    rw [List.length_cons] at hlen
    exact readDigits_short (by omega) h
  · exact readDigits_short (by omega) h

section

variable {env : Env}

theorem networkId_fits {a : Request} (h : a.FitsIn 2) : FitsInt (env.networkId a) := by
  cases a with
  | timedOut =>
    show FitsInt (-1)
    decide
  | failed =>
    show FitsInt (-1)
    decide
  | reply bs =>
    obtain ⟨-, hle⟩ := h
    have hlimit : replyLen = 4096 := rfl
    have hstr : (cStr bs.dropLast).length ≤ 1 := by
      have hcut := (List.takeWhile_sublist (l := bs.dropLast) (· != 0)).length_le
      rw [List.length_dropLast] at hcut
      rw [cStr]
      omega
    show FitsInt ((sscanfInt (cStr bs.dropLast)).getD env.netid)
    cases hscan : sscanfInt (cStr bs.dropLast) with
    | none => exact env.netid_fits
    | some n =>
      obtain ⟨hmin, hmax⟩ := sscanfInt_short hstr hscan
      refine fitsInt_of_bounds hmin ?_
      rw [maxInt]
      show n ≤ 2147483647
      omega

theorem allFit_literal {cmd : Bytes} {cap n : Nat} {es : List Exchange} :
    env.dialogue.AllFit n (.literal cmd cap :: es) ↔
      (env.answers n).FitsIn cap ∧ env.dialogue.AllFit (n + 1) es :=
  and_congr_left' (and_iff_right (Nat.lt_succ_self _))

/-- Requests with replies in arrays of one size. -/
theorem allFit_iff_of_cap {es : List Exchange} {cap : Nat} (hcap : ∀ e ∈ es, e.cap = cap)
    (n : Nat) : env.dialogue.AllFit n es ↔
      (∀ e ∈ es, e.cmd.length < e.room) ∧ ∀ i < es.length, (env.answers (n + i)).FitsIn cap := by
  induction es generalizing n with
  | nil => simp [Dialogue.AllFit]
  | cons e es ih =>
    obtain ⟨rfl, hrest⟩ := List.forall_mem_cons.mp hcap
    rw [Dialogue.AllFit, ih hrest, List.forall_mem_cons, List.length_cons,
      Nat.forall_lt_succ_left]
    have hnext : ∀ i, n + 1 + i = n + (i + 1) := by
      intro i
      omega
    simp only [hnext]
    show (_ ∧ (env.answers n).FitsIn e.cap) ∧ _ ↔ _
    rw [Nat.add_zero]
    exact and_and_and_comm

/-- The commands that can be too long are the two that hold the ssid and the psk. -/
theorem connect_texts_iff {netid : Int} (hnetid : FitsInt netid) (ssid psk : Bytes) :
    (∀ e ∈ makeRoom netid ++ configure (min netid networkIdMax) ssid psk,
      e.cmd.length < e.room) ↔
      (decimal (min netid networkIdMax)).length + ssid.length < 44 ∧
        (decimal (min netid networkIdMax)).length + psk.length < 45 := by
  have hmin : FitsInt (min netid networkIdMax) := by
    obtain ⟨hlow, hhigh⟩ := hnetid
    rw [maxInt] at hlow hhigh
    rw [FitsInt, maxInt, networkIdMax]
    omega
  have hroom : ∀ e ∈ makeRoom netid, e.cmd.length < e.room := by
    intro e he
    rw [makeRoom] at he
    split at he
    · simp only [List.mem_cons, List.not_mem_nil, or_false] at he
      rcases he with rfl | rfl | rfl
      · exact length_networkText_le (by decide) (by decide)
      · exact Nat.lt_succ_self _
      · exact Nat.lt_succ_self _
    · cases he
  have hselect : (networkText (bytes "SELECT_NETWORK") (min netid networkIdMax)).length < 64 :=
    length_networkText_le (by decide) hmin
  have hstatus : (bytes "STATUS").length < (bytes "STATUS").length + 1 := Nat.lt_succ_self _
  have hssid : (bytes "ssid").length = 4 := rfl
  have hpsk : (bytes "psk").length = 3 := rfl
  rw [List.forall_mem_append, and_iff_right hroom, configure]
  simp only [List.forall_mem_cons, List.not_mem_nil, false_implies, implies_true, and_true,
    Exchange.literal, length_setText, hssid, hpsk, hselect, hstatus]
  omega

end

/-! ## Calls -/

/-- A call of a member function from outside. -/
inductive Call where
  | configWifi (args : List Bytes)
  | scanResults
  | disconnect
  | status (ssid : Bytes)

def Env.perform (env : Env) : Call → Controller Int
  | .configWifi args => env.configWifi args
  | .scanResults => env.scanResults
  | .disconnect => env.disconnect
  | .status ssid => env.status ssid

/-- The requests of a call. -/
def Env.plan (env : Env) : Call → Nat → List Exchange
  | .configWifi (ssid :: psk :: _), n =>
    if psk.length < 8 ∨ psk.length > 63 then [] else env.connectPlan ssid psk n
  | .configWifi _, _ => []
  | .scanResults, n => env.scanPlan n
  | .disconnect, _ => [.literal (bytes "DISCONNECT") 1024]
  | .status _, _ => [.literal (bytes "STATUS") 1024]

/-- All that the call writes lies within the arrays. -/
def Env.InBounds (env : Env) (c : Call) (s : Session) : Prop :=
  ∃ ret t, (env.perform c).run s = some (ret, t)

/-- What the call needs of the lengths of its arguments and of the replies from number `n` on. -/
def Env.Within (env : Env) (n : Nat) : Call → Prop
  | .configWifi (ssid :: psk :: _) =>
    8 ≤ psk.length → psk.length ≤ 63 →
      let netid := env.networkId (env.answers n)
      let digits := (decimal (min netid networkIdMax)).length
      (env.answers n).FitsIn 2 ∧ digits + ssid.length < 44 ∧ digits + psk.length < 45 ∧
        ∀ i < if netid > networkIdMax then 7 else 4, (env.answers (n + 1 + i)).FitsIn 1024
  | .configWifi _ => True
  | .scanResults =>
    env.opened = true → (env.answers n).FitsIn 2 ∧
      ∀ bs, env.answers n = .reply bs → (env.answers (n + 1)).FitsIn 4096
  | .disconnect => (env.answers n).FitsIn 1024
  | .status _ => (env.answers n).FitsIn 1024

section

variable {env : Env}

theorem connectPlan_fits_iff (ssid psk : Bytes) (n : Nat) :
    env.dialogue.AllFit n (env.connectPlan ssid psk n) ↔
      let netid := env.networkId (env.answers n)
      let digits := (decimal (min netid networkIdMax)).length
      (env.answers n).FitsIn 2 ∧ digits + ssid.length < 44 ∧ digits + psk.length < 45 ∧
        ∀ i < if netid > networkIdMax then 7 else 4, (env.answers (n + 1 + i)).FitsIn 1024 := by
  have hcap : ∀ netid : Int, ∀ e ∈ makeRoom netid ++ configure (min netid networkIdMax) ssid psk,
      e.cap = 1024 := by
    intro netid
    rw [makeRoom, configure]
    split
    · simp [Exchange.literal]
    · simp [Exchange.literal]
  have hlength : ∀ netid : Int,
      (makeRoom netid ++ configure (min netid networkIdMax) ssid psk).length =
        if netid > networkIdMax then 7 else 4 := by
    intro netid
    rw [makeRoom, configure]
    split
    · rfl
    · rfl
  rw [Env.connectPlan, allFit_literal, allFit_iff_of_cap (hcap _), hlength]
  refine and_congr_right fun hfits => ?_
  rw [connect_texts_iff (networkId_fits hfits), and_assoc]

theorem scanPlan_fits_iff (n : Nat) :
    env.dialogue.AllFit n (env.scanPlan n) ↔ env.Within n .scanResults := by
  rw [Env.scanPlan, Env.Within]
  by_cases hopened : env.opened = true
  · rw [if_pos hopened, allFit_literal]
    simp only [hopened, true_implies]
    refine and_congr_right fun _ => ?_
    cases hn : env.answers n with
    | timedOut => exact iff_of_true trivial fun _ h => nomatch h
    | failed => exact iff_of_true trivial fun _ h => nomatch h
    | reply bs =>
      rw [allFit_literal]
      exact ⟨fun h _ _ => h.1, fun h => ⟨h bs rfl, trivial⟩⟩
  · rw [if_neg hopened]
    exact iff_of_true trivial fun h => absurd h hopened

variable (env) in
theorem checkPsk_sends (ssid psk : Bytes) :
    env.dialogue.Sends (env.checkPsk ssid psk)
      (fun n => if psk.length < 8 ∨ psk.length > 63 then [] else env.connectPlan ssid psk n)
      (fun _ => if psk.length < 8 ∨ psk.length > 63 then -1 else 0) := by
  rw [Env.checkPsk]
  by_cases hpsk : psk.length < 8 ∨ psk.length > 63
  · simp only [if_pos hpsk]
    exact ((print_sends _).bind fun _ => .of_pure (-1)).congr (fun _ => rfl) fun _ _ => rfl
  · simp only [if_neg hpsk]
    exact connect_sends ssid psk

variable (env) in
/-- Without a second argument the psk is too short, or missing. -/
theorem configWifi_stdin_sends (ssid : Bytes) :
    env.dialogue.Sends (env.configWifi [ssid]) (fun _ => []) (fun _ => -1) := by
  intro s n hn
  refine ⟨fun _ => ?_, fun hall => absurd trivial hall⟩
  obtain ⟨r, t, hrun, hsent, hshort⟩ := readPsk_run env s
  show ∃ u, (env.readPsk >>= _).run s = _ ∧ _
  rw [StateT.run_bind, hrun]
  have hnone : env.dialogue.sent t = env.dialogue.sent s ++ [] := by
    rw [List.append_nil]
    exact hsent
  cases r with
  | none => exact ⟨_, rfl, hnone⟩
  | some psk =>
    have hpsk : psk.length < 8 ∨ psk.length > 63 := .inl (hshort psk rfl)
    have hcheck := checkPsk_sends env ssid psk
    simp only [if_pos hpsk] at hcheck
    obtain ⟨u, hu, hu'⟩ := (hcheck t _ rfl).1 trivial
    rw [List.map_nil, List.append_nil] at hu'
    exact ⟨u, hu, hu'.trans hnone⟩

variable (env) in
theorem perform_sends (c : Call) :
    ∃ result, env.dialogue.Sends (env.perform c) (env.plan c) result := by
  cases c with
  | configWifi args =>
    cases args with
    | nil =>
      exact ⟨_, ((print_sends _).bind fun _ => .of_pure (-1)).congr (fun _ => rfl) fun _ _ => rfl⟩
    | cons ssid args =>
      cases args with
      | nil => exact ⟨_, configWifi_stdin_sends env ssid⟩
      | cons psk args => exact ⟨_, checkPsk_sends env ssid psk⟩
  | scanResults => exact ⟨_, scanResults_sends⟩
  | disconnect => exact ⟨_, disconnect_sends⟩
  | status ssid => exact ⟨_, status_sends ssid⟩

theorem inBounds_iff_plan (c : Call) (s : Session) :
    env.InBounds c s ↔ env.dialogue.AllFit s.sent.length (env.plan c s.sent.length) := by
  obtain ⟨result, hsends⟩ := perform_sends env c
  exact hsends.exists_run_iff s

theorem plan_fits_iff (c : Call) (n : Nat) :
    env.dialogue.AllFit n (env.plan c n) ↔ env.Within n c := by
  cases c with
  | configWifi args =>
    cases args with
    | nil => exact Iff.rfl
    | cons ssid args =>
      cases args with
      | nil => exact Iff.rfl
      | cons psk args =>
        rw [Env.plan, Env.Within]
        by_cases hpsk : psk.length < 8 ∨ psk.length > 63
        · rw [if_pos hpsk]
          refine iff_of_true trivial fun hmin hmax => ?_
          omega
        · obtain ⟨hmin, hmax⟩ := not_or.mp hpsk
          rw [if_neg hpsk, connectPlan_fits_iff]
          exact ⟨fun h _ _ => h, fun h => h (Nat.not_lt.mp hmin) (Nat.not_lt.mp hmax)⟩
  | scanResults => exact scanPlan_fits_iff n
  | disconnect => exact allFit_literal.trans (and_iff_left trivial)
  | status ssid => exact allFit_literal.trans (and_iff_left trivial)

end

/-- Whatever the controller has done before, a call stays within its arrays exactly when its
arguments and the replies to it are of fitting lengths. -/
theorem commands_fit_iff (env : Env) (c : Call) (s : Session) :
    env.InBounds c s ↔ env.Within s.sent.length c :=
  (inBounds_iff_plan c s).trans (plan_fits_iff c _)

/-- `wpa_supplicant` answers each request with `answer`. -/
def always (answer : String) : Env where
  answers _ := .reply (bytes answer)
  opened := true
  garbage _ := 0
  netid := 0
  netid_fits := by decide

/-- The command with a psk of 63 characters is too long, and the usual answer to `SCAN` is. -/
theorem commands_overflow :
    ¬ (always "0\n").InBounds (.configWifi [bytes "home", List.replicate 63 97]) ⟨[], [], []⟩ ∧
      ¬ (always "OK\n").InBounds .scanResults ⟨[], [], []⟩ := by
  constructor
  · intro h
    rw [inBounds_iff_plan, plan_fits_iff] at h
    have hpsk := (h (by decide) (by decide)).2.2.1
    rw [List.length_replicate] at hpsk
    omega
  · intro h
    rw [inBounds_iff_plan, plan_fits_iff] at h
    exact absurd (h rfl).1 (by decide)

end Wpa
end LinuxPrograming
