import LinuxPrograming.Wpa.Ctrl
import Mathlib.Algebra.Group.Action.Defs
import Mathlib.Algebra.Order.BigOperators.Group.List
import Mathlib.Algebra.Order.Ring.Nat
import Mathlib.Data.List.GetD
import Mathlib.Data.List.Intervals

/-!
# The list of networks

`parse_to_wifi_name` splits the reply to `SCAN_RESULTS` into lines and columns and prints the
fifth column of the lines from the second on.
-/

namespace LinuxPrograming
namespace Wpa

open Lib

/-- The body of the printing loop. -/
def printRow (row : List Bytes) : Bytes :=
  if row.length ≠ 5 then [] else 9 :: (row.getD 4 [] ++ [10])

/-- What `parse_to_wifi_name` prints for the string in its buffer. -/
def parseToWifiName (myStr : Bytes) : Bytes :=
  let array := (pieces 10 myStr).map (pieces 9)
  let rSize := array.length
  (List.Ico 1 (rSize - 1)).flatMap fun i => printRow (array.getD i [])

/-- A network as `wpa_supplicant` lists it. -/
structure Network where
  bssid : Bytes
  frequency : Bytes
  signal : Bytes
  flags : Bytes
  ssid : Bytes
  plain : ∀ c ∈ [bssid, frequency, signal, flags, ssid], c ≠ [] ∧ 9 ∉ c ∧ 10 ∉ c

def Network.line (n : Network) : Bytes :=
  n.bssid ++ 9 :: (n.frequency ++ 9 :: (n.signal ++ 9 :: (n.flags ++ 9 :: n.ssid)))

/-- The line that should be printed for a network. -/
def Network.entry (n : Network) : Bytes := 9 :: (n.ssid ++ [10])

/-- The reply to `SCAN_RESULTS`. -/
def scanReply (header : Bytes) (networks : List Network) : Bytes :=
  header ++ 10 :: networks.flatMap fun n => n.line ++ [10]

/-- What is printed after the reply has been stored in `buff`. -/
def listed (buff : Bytes) (reply : Bytes) : Option Bytes := do
  let r ← wpaCtrlCmd (.reply reply) buff
  pure (parseToWifiName (cStr r.2))

/-! ## What is printed -/

/-- The loop leaves out the first line and the last. -/
theorem parseToWifiName_eq (t : Bytes) :
    parseToWifiName t = (pieces 10 t).tail.dropLast.flatMap fun l => printRow (pieces 9 l) := by
  have hrows : (List.Ico 1 ((pieces 10 t).length - 1)).map
      (fun i => ((pieces 10 t).map (pieces 9)).getD i []) =
        (pieces 10 t).tail.dropLast.map (pieces 9) := by
    refine List.ext_getElem ?_ fun i hi hi' => ?_
    · simp only [List.length_map, List.Ico.length, List.length_dropLast, List.length_tail]
    · simp only [List.length_map, List.length_dropLast, List.length_tail] at hi'
      have hlt : i + 1 < ((pieces 10 t).map (pieces 9)).length := by
        rw [List.length_map]
        omega
      simp only [List.getElem_map, List.Ico, List.getElem_range', List.getElem_dropLast,
        List.getElem_tail, Nat.one_mul, Nat.add_comm 1 i]
      rw [List.getD_eq_getElem _ _ hlt, List.getElem_map]
  rw [parseToWifiName]
  simp only [List.length_map]
  rw [← List.flatMap_map, hrows, List.flatMap_map]

/-- A line prints one newline at most. -/
theorem count_printRow_le {t l : Bytes} (hl : l ∈ pieces 10 t) :
    (printRow (pieces 9 l)).count 10 ≤ 1 := by
  rw [printRow]
  split
  · exact Nat.zero_le 1
  · next hfive =>
    have hmem : (pieces 9 l).getD 4 [] ∈ pieces 9 l := by
      rw [List.getD_eq_getElem _ _ (by omega)]
      exact List.getElem_mem _
    have hcol : (10 : UInt8) ∉ (pieces 9 l).getD 4 [] :=
      fun h => (mem_pieces hl).1 ((mem_pieces hmem).2 h)
    rw [List.count_cons_of_ne (by decide), List.count_append, List.count_eq_zero.mpr hcol]
    decide

theorem count_parseToWifiName_le (t : Bytes) :
    (parseToWifiName t).count 10 ≤ t.count 10 - 1 := by
  have hlen := length_pieces_le (10 : UInt8) t
  rw [parseToWifiName_eq, List.count_flatMap]
  refine (List.sum_le_card_nsmul _ 1 fun x hx => ?_).trans ?_
  · obtain ⟨l, hl, rfl⟩ := List.mem_map.mp hx
    exact count_printRow_le (List.mem_of_mem_tail (List.dropLast_subset _ hl))
  · rw [List.length_map, List.length_dropLast, List.length_tail, smul_eq_mul]
    omega

namespace Network

theorem newline_not_mem_line (n : Network) : 10 ∉ n.line := by
  have hplain := n.plain
  simp only [List.forall_mem_cons] at hplain
  simp [line, hplain]

theorem pieces_line (n : Network) :
    pieces 9 n.line = [n.bssid, n.frequency, n.signal, n.flags, n.ssid] := by
  have hplain := n.plain
  simp only [List.forall_mem_cons] at hplain
  obtain ⟨hbssid, hfreq, hsignal, hflags, hssid, -⟩ := hplain
  rw [line, pieces_append_cons hbssid.2.1, pieces_append_cons hfreq.2.1,
    pieces_append_cons hsignal.2.1, pieces_append_cons hflags.2.1,
    pieces_of_not_mem hssid.2.1 hssid.1]

theorem printRow_line (n : Network) : printRow (pieces 9 n.line) = n.entry := by
  rw [pieces_line]
  rfl

theorem count_entry (n : Network) : n.entry.count 10 = 1 := by
  have hssid := (n.plain n.ssid (by simp)).2.2
  rw [entry, List.count_cons_of_ne (by decide), List.count_append, List.count_eq_zero.mpr hssid]
  rfl

end Network

section

variable {header buff : Bytes} {networks : List Network}

theorem count_scanReply (hheader : 10 ∉ header) :
    (scanReply header networks).count 10 = networks.length + 1 := by
  have hline : ∀ n : Network, (n.line ++ [10]).count 10 = 1 := by
    intro n
    rw [List.count_append, List.count_eq_zero.mpr n.newline_not_mem_line]
    rfl
  rw [scanReply, List.count_append, List.count_eq_zero.mpr hheader, List.count_cons_self,
    List.count_flatMap, Nat.zero_add]
  simp [Function.comp_def, hline]

/-- The last byte of the reply is the newline of its last line. -/
theorem count_dropLast_scanReply (hheader : 10 ∉ header) :
    (scanReply header networks).dropLast.count 10 = networks.length := by
  obtain ⟨t, ht⟩ : ∃ t, scanReply header networks = t ++ [10] := by
    rcases List.eq_nil_or_concat networks with rfl | ⟨ns, n, rfl⟩
    · exact ⟨header, rfl⟩
    · refine ⟨header ++ 10 :: (ns.flatMap (fun n => n.line ++ [10]) ++ n.line), ?_⟩
      rw [scanReply, List.concat_eq_append, List.flatMap_append, List.flatMap_singleton]
      simp only [List.append_assoc, List.cons_append]
  have hcount : (scanReply header networks).count 10 = networks.length + 1 :=
    count_scanReply hheader
  rw [ht, List.count_append, List.count_singleton_self] at hcount
  rw [ht, List.dropLast_concat]
  omega

theorem listed_eq (hbuff : buff.length = replyLen)
    (hlen : (scanReply header networks).length < replyLen) :
    listed buff (scanReply header networks) =
      some (parseToWifiName (cStr (scanReply header networks).dropLast)) := by
  have hne : scanReply header networks ≠ [] := by simp [scanReply]
  rw [listed, wpaCtrlCmd_reply hne (by omega) (by omega)]
  simp only [Option.bind_eq_bind, Option.bind_some]
  rw [cStr, takeWhile_append_cons (by decide)]
  rfl

/-- In a reply without NULs every network but the last is listed. -/
theorem listed_eq_dropLast (hbuff : buff.length = replyLen)
    (hlen : (scanReply header networks).length < replyLen) (hheader : 10 ∉ header)
    (hstr : 0 ∉ scanReply header networks) :
    listed buff (scanReply header networks) =
      some (networks.dropLast.flatMap Network.entry) := by
  have hstr' : 0 ∉ (scanReply header networks).dropLast :=
    fun h => hstr (List.dropLast_subset _ h)
  rw [listed_eq hbuff hlen, cStr_eq_self hstr', parseToWifiName_eq]
  congr 1
  rcases List.eq_nil_or_concat networks with rfl | ⟨ns, n, rfl⟩
  · rw [scanReply, List.flatMap_nil, List.dropLast_concat]
    cases hh : header with
    | nil => rfl
    | cons c h => rw [← hh, pieces_of_not_mem hheader (hh ▸ List.cons_ne_nil c h)]; rfl
  · have hsplit : (scanReply header (ns.concat n)).dropLast =
        header ++ 10 :: ((ns.map Network.line).flatMap (· ++ [10]) ++ n.line) := by
      rw [scanReply, List.concat_eq_append, List.flatMap_append, List.flatMap_singleton,
        List.flatMap_map, ← List.append_assoc (List.flatMap _ _), ← List.cons_append,
        ← List.append_assoc header, List.dropLast_concat]
    have hlines : ∀ l ∈ ns.map Network.line, 10 ∉ l := by
      intro l hl
      obtain ⟨m, -, rfl⟩ := List.mem_map.mp hl
      exact m.newline_not_mem_line
    have hlast : pieces 10 n.line = [n.line] :=
      pieces_of_not_mem n.newline_not_mem_line (by simp [Network.line])
    rw [hsplit, pieces_append_cons hheader, pieces_flatMap hlines, hlast, List.tail_cons,
      List.dropLast_concat, List.concat_eq_append, List.dropLast_concat, List.flatMap_map]
    simp only [Network.printRow_line]

end

/-- Each network is printed once, in the order of the reply. -/
def Listed (buff header : Bytes) (networks : List Network) : Prop :=
  listed buff (scanReply header networks) = some (networks.flatMap Network.entry)

theorem scan_listed_iff {buff header : Bytes} {networks : List Network}
    (hbuff : buff.length = replyLen) (hheader : 10 ∉ header)
    (hlen : (scanReply header networks).length < replyLen) :
    Listed buff header networks ↔ networks = [] := by
  rw [Listed, listed_eq hbuff hlen, Option.some_inj]
  constructor
  · intro h
    have hcount : (networks.flatMap Network.entry).count 10 = networks.length := by
      rw [List.count_flatMap]
      simp [Function.comp_def, Network.count_entry]
    have hle := count_parseToWifiName_le (cStr (scanReply header networks).dropLast)
    have htext : (cStr (scanReply header networks).dropLast).count 10 ≤ networks.length := by
      rw [← count_dropLast_scanReply hheader]
      exact (List.takeWhile_sublist _).count_le 10
    rw [h, hcount] at hle
    exact List.eq_nil_of_length_eq_zero (by omega)
  · rintro rfl
    have hnone : (10 : UInt8) ∉ cStr header :=
      fun h => hheader ((List.takeWhile_sublist _).subset h)
    have hone := length_pieces_le (10 : UInt8) (cStr header)
    rw [List.count_eq_zero.mpr hnone] at hone
    have htail : (pieces 10 (cStr header)).tail = [] := by
      rw [← List.length_eq_zero_iff, List.length_tail]
      omega
    rw [scanReply, List.flatMap_nil, List.dropLast_concat, parseToWifiName_eq, htail]
    rfl

/-- One network, which is the last one. -/
def cafe : Network where
  bssid := bytes "02:00:00:00:00:01"
  frequency := bytes "2412"
  signal := bytes "-40"
  flags := bytes "[WPA2-PSK-CCMP]"
  ssid := bytes "cafe"
  plain := by decide

theorem scan_listed_iff_header :
    Listed (List.replicate replyLen 0) (bytes "bssid / frequency") [] :=
  (scan_listed_iff (List.length_replicate ..) (by decide) (by decide)).mpr rfl

theorem scan_last_dropped :
    listed (List.replicate replyLen 0) (scanReply (bytes "bssid / frequency") [cafe]) = some [] ∧
      ¬ Listed (List.replicate replyLen 0) (bytes "bssid / frequency") [cafe] := by
  have h : listed (List.replicate replyLen 0) (scanReply (bytes "bssid / frequency") [cafe]) =
      some ([cafe].dropLast.flatMap Network.entry) :=
    listed_eq_dropLast (List.length_replicate ..) (by decide) (by decide) (by decide)
  refine ⟨h, fun hlisted => ?_⟩
  exact absurd (h.symm.trans hlisted) (by decide)

end Wpa
end LinuxPrograming
