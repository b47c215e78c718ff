import LinuxPrograming.Wpa.Ctrl

/-!
# The connected network

`check_status` looks for the ssid behind the fifth byte of each line of the reply to `STATUS`.
It does not look at those five bytes, nor at what follows the ssid.
-/

namespace LinuxPrograming
namespace Wpa

open Lib

/-- `val.compare(pos, strlen(ssid), ssid) == 0`; the position lies in the string. -/
def compareAt (val : Bytes) (pos : Nat) (ssid : Bytes) : Bool :=
  (val.drop pos).take ssid.length == ssid

/-- The loop over the lines of the reply. -/
def checkLines (ssid : Bytes) : List Bytes → Int
  | [] => -1
  | val :: rest =>
    if val.length > 4 then
      if compareAt val 5 ssid then 0 else checkLines ssid rest
    else checkLines ssid rest

/-- `check_status`. -/
def checkStatus (buffer ssid : Bytes) : Int := checkLines ssid (pieces 10 (cStr buffer))

/-- A line of the reply to `STATUS`. -/
structure StatusLine where
  key : Bytes
  value : Bytes
  plain : ∀ c ∈ [key, value], 10 ∉ c ∧ 0 ∉ c

def StatusLine.line (s : StatusLine) : Bytes := s.key ++ 61 :: s.value

/-- The lines of a reply, each with its newline. -/
def statusReply (lines : List StatusLine) : Bytes := lines.flatMap fun s => s.line ++ [10]

/-- The line that names the connected network. -/
def ssidLine (ssid : Bytes) : Bytes := bytes "ssid=" ++ ssid

/-- A line that has the ssid behind its fifth byte and does not name it. -/
def Misleading (ssid line : Bytes) : Prop :=
  ssid <+: line.drop 5 ∧ line ≠ ssidLine ssid

instance (ssid line : Bytes) : Decidable (Misleading ssid line) :=
  inferInstanceAs (Decidable (_ ∧ _))

/-- `check_status` tells whether a line names the network. -/
def Tells (lines : List StatusLine) (buffer ssid : Bytes) : Prop :=
  ((∃ s ∈ lines, s.line = ssidLine ssid) → checkStatus buffer ssid = 0) ∧
    ((¬ ∃ s ∈ lines, s.line = ssidLine ssid) → checkStatus buffer ssid = -1)

theorem compareAt_iff {val ssid : Bytes} {pos : Nat} :
    compareAt val pos ssid = true ↔ ssid <+: val.drop pos := by
  rw [compareAt, beq_iff_eq, List.prefix_iff_eq_take]
  exact eq_comm

theorem checkLines_eq {ssid : Bytes} (hssid : ssid ≠ []) (lines : List Bytes) :
    checkLines ssid lines = if ∃ l ∈ lines, ssid <+: l.drop 5 then 0 else -1 := by
  induction lines with
  | nil => simp [checkLines]
  | cons val rest ih =>
    rw [checkLines, ih]
    simp only [compareAt_iff, List.mem_cons, exists_eq_or_imp]
    by_cases hmatch : ssid <+: val.drop 5
    · have hlong : val.length > 4 := by
        by_contra hshort
        rw [List.drop_eq_nil_of_le (by omega)] at hmatch
        exact hssid (List.prefix_nil.mp hmatch)
      rw [if_pos hlong, if_pos hmatch, if_pos (.inl hmatch)]
    · simp only [hmatch, false_or, if_false, ite_self]

/-- The buffer holds the reply with or without its last newline. -/
theorem pieces_reply {lines : List StatusLine} {text : Bytes} (rest : Bytes)
    (htext : text = statusReply lines ∨ text = (statusReply lines).dropLast) :
    pieces 10 (cStr (text ++ 0 :: rest)) = lines.map StatusLine.line := by
  have hline : ∀ s : StatusLine, 10 ∉ s.line ∧ 0 ∉ s.line := by
    intro s
    have hplain := s.plain
    simp only [List.forall_mem_cons] at hplain
    simp [StatusLine.line, hplain]
  have hlines : ∀ ls : List StatusLine, ∀ l ∈ ls.map StatusLine.line, 10 ∉ l := by
    intro ls l hl
    obtain ⟨s, -, rfl⟩ := List.mem_map.mp hl
    exact (hline s).1
  have hreply : ∀ ls : List StatusLine,
      statusReply ls = (ls.map StatusLine.line).flatMap (· ++ [10]) := by
    intro ls
    rw [statusReply, List.flatMap_map]
  have hstr : 0 ∉ statusReply lines := by
    intro h
    obtain ⟨s, -, hs⟩ := List.mem_flatMap.mp h
    rcases List.mem_append.mp hs with hs | hs
    · exact (hline s).2 hs
    · exact absurd hs (by decide)
  have hcstr : cStr (text ++ 0 :: rest) = text := by
    have htext0 : 0 ∉ text := by
      rcases htext with rfl | rfl
      · exact hstr
      · exact fun h => hstr (List.dropLast_subset _ h)
    rw [cStr_append htext0, cStr_cons, if_pos rfl, List.append_nil]
  rw [hcstr]
  rcases htext with rfl | rfl
  · have h := pieces_flatMap (hlines lines) []
    rw [List.append_nil] at h
    rw [hreply, h, pieces, List.append_nil]
  · rcases List.eq_nil_or_concat lines with rfl | ⟨ls, l, rfl⟩
    · rfl
    · have hlast : pieces 10 l.line = [l.line] :=
        pieces_of_not_mem (hline l).1 (by simp [StatusLine.line])
      rw [statusReply, List.concat_eq_append, List.flatMap_append, List.flatMap_singleton,
        ← List.append_assoc, List.dropLast_concat, ← statusReply, hreply,
        pieces_flatMap (hlines ls), hlast, List.map_append]
      rfl

theorem checkStatus_tells_iff {lines : List StatusLine} {text rest ssid : Bytes}
    (htext : text = statusReply lines ∨ text = (statusReply lines).dropLast)
    (hssid : ssid ≠ []) :
    Tells lines (text ++ 0 :: rest) ssid ↔
      (∃ s ∈ lines, s.line = ssidLine ssid) ∨ ∀ s ∈ lines, ¬ Misleading ssid s.line := by
  have hstatus : checkStatus (text ++ 0 :: rest) ssid =
      if ∃ s ∈ lines, ssid <+: s.line.drop 5 then 0 else -1 := by
    rw [checkStatus, pieces_reply rest htext, checkLines_eq hssid]
    simp only [List.mem_map, exists_exists_and_eq_and]
  have hexact : (∃ s ∈ lines, s.line = ssidLine ssid) →
      ∃ s ∈ lines, ssid <+: s.line.drop 5 := by
    rintro ⟨s, hs, heq⟩
    exact ⟨s, hs, by rw [heq]; exact List.prefix_refl ssid⟩
  rw [Tells, hstatus]
  by_cases hnamed : ∃ s ∈ lines, s.line = ssidLine ssid
  · simp [hnamed, hexact hnamed]
  · simp only [hnamed, false_or, not_false_eq_true, true_implies, false_implies, true_and]
    constructor
    · intro hret s hs hmis
      rw [if_pos ⟨s, hs, hmis.1⟩] at hret
      cases hret
    · intro hnone
      rw [if_neg]
      rintro ⟨s, hs, hpre⟩
      exact hnone s hs ⟨hpre, fun heq => hnamed ⟨s, hs, heq⟩⟩

/-- The line `ssid=home2`. -/
def home2 : StatusLine := ⟨bytes "ssid", bytes "home2", by decide⟩

theorem checkStatus_tells_iff_home2 :
    Tells [home2] (statusReply [home2] ++ 0 :: []) (bytes "home2") :=
  (checkStatus_tells_iff (.inl rfl) (by decide)).mpr (.inl ⟨home2, List.mem_cons_self, rfl⟩)

/-- The network `home` is taken for connected while `home2` is. -/
theorem checkStatus_misled :
    checkStatus (bytes "ssid=home2" ++ [0]) (bytes "home") = 0 ∧
      ¬ Tells [home2] ((statusReply [home2]).dropLast ++ 0 :: []) (bytes "home") := by
  refine ⟨by decide, fun h => ?_⟩
  have hret := h.2 (by
    rintro ⟨s, hs, heq⟩
    rw [List.mem_singleton] at hs
    subst hs
    exact absurd heq (by decide))
  exact absurd hret (by decide)

end Wpa
end LinuxPrograming
