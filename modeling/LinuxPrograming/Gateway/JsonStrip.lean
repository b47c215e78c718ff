import LinuxPrograming.Gateway.CString

/-!
# `json_strip`

The loop goes through the text in place, line by line.  It ends the current line with a NUL
for its tests and puts the newline back in each branch.  Comments are only looked for behind
the blanks at the start of a line, and again at the same place when a block comment has been
removed there.
-/

namespace LinuxPrograming
namespace Gateway

open Lib

/-- Store `c` in the place of the newline, when the line has one. -/
def mark (m : Bytes) (next : Option Nat) (c : UInt8) : Checked Bytes :=
  match next with
  | some n => store m n [c]
  | none => pure m

/-- The branch of a `//` comment: the new buffer, and the next line if there is one. -/
def stripLineComment (m : Bytes) (cursor : Nat) (next : Option Nat) :
    Checked (Bytes × Option Nat) :=
  match next with
  | some n => do
    let m ← store m n [10]
    let len ← strlen m n
    let m ← memmove m cursor n (len + 1)
    pure (m, some (cursor + 1))
  | none => do
    let m ← store m cursor [0]
    pure (m, none)

/-- The branch of a `/*` comment.  The text goes on where the comment stood. -/
def stripBlockComment (m : Bytes) (cursor : Nat) (next : Option Nat) :
    Checked (Bytes × Option Nat) := do
  let m ← mark m next 10
  match ← strstr m (cursor + 2) (bytes "*/") with
  | some next => do
    let len ← strlen m (next + 2)
    let m ← memmove m cursor (next + 2) (len + 1)
    pure (m, some cursor)
  | none => pure (m, none)

/-- The branch of any other line. -/
def stripPlain (m : Bytes) (next : Option Nat) : Checked (Bytes × Option Nat) := do
  let m ← mark m next 10
  pure (m, next.map (· + 1))

/-- One pass of the loop of `json_strip` at `line`, without the two trace prints. -/
def stripStep (m : Bytes) (line : Nat) : Checked (Bytes × Option Nat) := do
  let next ← strchr m line 10
  let m ← mark m next 0
  let cursor := line + (← strspn m line (bytes " \t"))
  if ← startsWith m cursor (bytes "//") then stripLineComment m cursor next
  else if ← startsWith m cursor (bytes "/*") then stripBlockComment m cursor next
  else stripPlain m next

/-- At most `n` passes of the loop.  It has ended when no line is left. -/
def stripLoop : Nat → Bytes → Option Nat → Checked (Bytes × Option Nat)
  | _, m, none => pure (m, none)
  | 0, m, some line => pure (m, some line)
  | n + 1, m, some line => do
    let r ← stripStep m line
    stripLoop n r.1 r.2

/-- `json_strip`.  A text has fewer lines than its buffer has bytes. -/
def jsonStrip (m : Bytes) : Checked Bytes := do
  let r ← stripLoop m.length m (some 0)
  pure r.1

example : (stripLoop 9 (bytes " /*a*/ //b" ++ [0]) (some 0)).map (cStr ·.1) =
    .ok (bytes "  ") := by decide

/-! ## What the loop is meant to do -/

/-- The blanks at the start of a text. -/
def blanks (t : Bytes) : Bytes := t.takeWhile (· ∈ bytes " \t")

def afterBlanks (t : Bytes) : Bytes := t.dropWhile (· ∈ bytes " \t")

theorem length_afterBlanks (t : Bytes) : (afterBlanks t).length ≤ t.length :=
  List.length_dropWhile_le _ t

/-- The text without the comments at the start of its lines. -/
def strip (t : Bytes) : Bytes :=
  if bytes "//" <+: afterBlanks t then
    match _h : cut [10] (afterBlanks t) with
    | some (_, tail) => blanks t ++ 10 :: strip tail
    | none => blanks t
  else if bytes "/*" <+: afterBlanks t then
    match _h : cut (bytes "*/") ((afterBlanks t).drop 2) with
    | some (_, tail) => blanks t ++ strip tail
    | none => t
  else
    match _h : cut [10] (afterBlanks t) with
    | some (line, tail) => blanks t ++ (line ++ 10 :: strip tail)
    | none => t
termination_by t.length
decreasing_by
  · have hcut := cut_length (by assumption)
    have hle := length_afterBlanks t
    rw [List.length_singleton] at hcut
    omega
  · have hcut := cut_length (by assumption)
    have hle := length_afterBlanks t
    rw [List.length_drop, show (bytes "*/").length = 2 from rfl] at hcut
    omega
  · have hcut := cut_length (by assumption)
    have hle := length_afterBlanks t
    rw [List.length_singleton] at hcut
    omega

section

variable {t a b : Bytes}

theorem strip_line (hline : bytes "//" <+: afterBlanks t)
    (hcut : cut [10] (afterBlanks t) = some (a, b)) : strip t = blanks t ++ 10 :: strip b := by
  rw [strip, if_pos hline]
  split
  · next x y heq =>
    obtain ⟨-, rfl⟩ := Prod.mk.inj (Option.some.inj (hcut.symm.trans heq))
    rfl
  · next heq => cases hcut.symm.trans heq

theorem strip_last_line (hline : bytes "//" <+: afterBlanks t)
    (hcut : cut [10] (afterBlanks t) = none) : strip t = blanks t := by
  rw [strip, if_pos hline]
  split
  · next heq => cases hcut.symm.trans heq
  · rfl

theorem strip_block (hline : ¬ bytes "//" <+: afterBlanks t) (hblock : bytes "/*" <+: afterBlanks t)
    (hcut : cut (bytes "*/") ((afterBlanks t).drop 2) = some (a, b)) :
    strip t = blanks t ++ strip b := by
  rw [strip, if_neg hline, if_pos hblock]
  split
  · next x y heq =>
    obtain ⟨-, rfl⟩ := Prod.mk.inj (Option.some.inj (hcut.symm.trans heq))
    rfl
  · next heq => cases hcut.symm.trans heq

theorem strip_open_block (hline : ¬ bytes "//" <+: afterBlanks t)
    (hblock : bytes "/*" <+: afterBlanks t)
    (hcut : cut (bytes "*/") ((afterBlanks t).drop 2) = none) : strip t = t := by
  rw [strip, if_neg hline, if_pos hblock]
  split
  · next heq => cases hcut.symm.trans heq
  · rfl

theorem strip_plain (hline : ¬ bytes "//" <+: afterBlanks t)
    (hblock : ¬ bytes "/*" <+: afterBlanks t)
    (hcut : cut [10] (afterBlanks t) = some (a, b)) :
    strip t = blanks t ++ (a ++ 10 :: strip b) := by
  rw [strip, if_neg hline, if_neg hblock]
  split
  · next x y heq =>
    obtain ⟨rfl, rfl⟩ := Prod.mk.inj (Option.some.inj (hcut.symm.trans heq))
    rfl
  · next heq => cases hcut.symm.trans heq

theorem strip_last_plain (hline : ¬ bytes "//" <+: afterBlanks t)
    (hblock : ¬ bytes "/*" <+: afterBlanks t)
    (hcut : cut [10] (afterBlanks t) = none) : strip t = t := by
  rw [strip, if_neg hline, if_neg hblock]
  split
  · next heq => cases hcut.symm.trans heq
  · rfl

theorem blanks_append_afterBlanks (t : Bytes) : blanks t ++ afterBlanks t = t :=
  List.takeWhile_append_dropWhile

/-- The newline ends the blanks. -/
theorem blanks_append_newline (l b : Bytes) : blanks (l ++ 10 :: b) = blanks l :=
  takeWhile_append_cons (by decide) l b

end

/-! ## One pass -/

section

variable {d w u b j : Bytes}

theorem mark_append (x y : UInt8) :
    mark (d ++ (u ++ x :: j)) (some (d ++ u).length) y = .ok (d ++ (u ++ y :: j)) := by
  have h := store_append (a := d ++ u) (b := [x]) (c := j) (x := [y]) rfl rfl
  rwa [List.append_assoc, List.append_assoc] at h

/-- A pass at a line that ends in a newline sees this line alone. -/
theorem stripStep_newline (hw : blanks (w ++ u) = w) (hnl : 10 ∉ w ++ u)
    (hstr : 0 ∉ w ++ u ++ 10 :: b) :
    stripStep (d ++ (w ++ u ++ 10 :: b ++ 0 :: j)) d.length =
      if bytes "//" <+: u then
        stripLineComment (d ++ w ++ (u ++ 0 :: (b ++ 0 :: j))) (d ++ w).length
          (some (d ++ w ++ u).length)
      else if bytes "/*" <+: u then
        stripBlockComment (d ++ w ++ (u ++ 0 :: (b ++ 0 :: j))) (d ++ w).length
          (some (d ++ w ++ u).length)
      else stripPlain (d ++ w ++ (u ++ 0 :: (b ++ 0 :: j))) (some (d ++ w ++ u).length) := by
  have hline : 0 ∉ w ++ u := fun h => hstr (List.mem_append_left _ h)
  have hu : 0 ∉ u := fun h => hline (List.mem_append_right w h)
  have hnext := strchr_append (a := d) (r := j) rfl hstr 10
  rw [find_singleton_append hnl, Option.map_some, ← List.length_append,
    ← List.append_assoc] at hnext
  have hmark := mark_append (d := d) (u := w ++ u) (j := b ++ 0 :: j) 10 0
  rw [← List.append_assoc d w u] at hmark
  have hspn := strspn_append (a := d) (r := b ++ 0 :: j) rfl hline (bytes " \t")
  rw [show ((w ++ u).takeWhile (· ∈ bytes " \t")) = w from hw] at hspn
  have hstart := startsWith_append (a := d ++ w) (r := b ++ 0 :: j) rfl hu
  rw [stripStep]
  simp only [List.append_assoc, List.cons_append] at hnext hmark hspn hstart ⊢
  rw [hnext, ok_bind, hmark, ok_bind, hspn, ok_bind, ← List.length_append, hstart, ok_bind, hstart,
    ok_bind]
  simp

/-- A pass at the last line. -/
theorem stripStep_last (hw : blanks (w ++ u) = w) (hnl : 10 ∉ w ++ u) (hstr : 0 ∉ w ++ u) :
    stripStep (d ++ (w ++ u ++ 0 :: j)) d.length =
      if bytes "//" <+: u then stripLineComment (d ++ w ++ (u ++ 0 :: j)) (d ++ w).length none
      else if bytes "/*" <+: u then
        stripBlockComment (d ++ w ++ (u ++ 0 :: j)) (d ++ w).length none
      else stripPlain (d ++ w ++ (u ++ 0 :: j)) none := by
  have hu : 0 ∉ u := fun h => hstr (List.mem_append_right w h)
  have hnext := strchr_append (a := d) (r := j) rfl hstr 10
  rw [find_singleton_eq_none.mpr hnl, Option.map_none] at hnext
  have hspn := strspn_append (a := d) (r := j) rfl hstr (bytes " \t")
  rw [show ((w ++ u).takeWhile (· ∈ bytes " \t")) = w from hw] at hspn
  have hstart := startsWith_append (a := d ++ w) (r := j) rfl hu
  rw [stripStep]
  simp only [List.append_assoc] at hnext hspn hstart ⊢
  rw [hnext, ok_bind, mark, pure_eq_ok, ok_bind, hspn, ok_bind, ← List.length_append, hstart,
    ok_bind, hstart, ok_bind]
  simp

theorem stripLineComment_some (hb : 0 ∉ b) :
    ∃ r, stripLineComment (d ++ w ++ (u ++ 0 :: (b ++ 0 :: j))) (d ++ w).length
        (some (d ++ w ++ u).length) =
      .ok (d ++ w ++ [10] ++ (b ++ 0 :: r), some (d ++ w ++ [10]).length) ∧
      (d ++ w ++ [10] ++ (b ++ 0 :: r)).length = (d ++ w ++ (u ++ 0 :: (b ++ 0 :: j))).length := by
  have hstore : store (d ++ w ++ (u ++ 0 :: (b ++ 0 :: j))) (d ++ w ++ u).length [10] =
      .ok (d ++ w ++ (u ++ ((10 :: b) ++ 0 :: j))) := by
    have h := store_append (a := d ++ w ++ u) (b := [0]) (c := b ++ 0 :: j) (x := [10]) rfl rfl
    simpa using h
  have hnl : (0 : UInt8) ∉ 10 :: b := by simp [hb]
  have hlen := strlen_append (a := d ++ w ++ u) (r := j) rfl hnl
  obtain ⟨r, hmove, hsize⟩ := memmove_append (a := d ++ w) (b := u) (t := 10 :: b) (r := j)
    rfl rfl rfl
  rw [List.append_assoc (d ++ w)] at hlen
  refine ⟨r, ?_, ?_⟩
  · rw [stripLineComment, hstore, ok_bind, hlen, ok_bind, hmove, ok_bind]
    simp [Nat.add_assoc]
  · simp only [List.length_append, List.length_cons] at hsize ⊢
    simp only [List.length_nil]
    omega

/-- Without a newline the string ends where the comment starts. -/
theorem stripLineComment_none (hu : u ≠ []) :
    ∃ r, stripLineComment (d ++ w ++ (u ++ 0 :: j)) (d ++ w).length none =
      .ok (d ++ w ++ 0 :: r, none) ∧
      (d ++ w ++ 0 :: r).length = (d ++ w ++ (u ++ 0 :: j)).length := by
  cases u with
  | nil => exact absurd rfl hu
  | cons x u =>
    have h := store_append (a := d ++ w) (b := [x]) (c := u ++ 0 :: j) (x := [0]) rfl rfl
    simp only [List.cons_append, List.nil_append] at h
    refine ⟨u ++ 0 :: j, ?_, ?_⟩
    · rw [stripLineComment, List.cons_append, h, ok_bind]
      rfl
    · simp only [List.length_append, List.length_cons]
      omega

/-- A closed comment is moved over by what stands behind it. -/
theorem stripBlockComment_some {m c a e : Bytes} {next : Option Nat}
    (hmark : mark m next 10 = .ok (d ++ (c ++ 0 :: j))) (hc : 0 ∉ c)
    (hblock : bytes "/*" <+: c) (hcut : cut (bytes "*/") (c.drop 2) = some (a, e)) :
    ∃ r, stripBlockComment m d.length next = .ok (d ++ (e ++ 0 :: r), some d.length) ∧
      (d ++ (e ++ 0 :: r)).length = (d ++ (c ++ 0 :: j)).length ∧ 0 ∉ e ∧
      e.length < c.length := by
  obtain ⟨c', rfl⟩ := hblock
  rw [show (bytes "/*" ++ c').drop 2 = c' from rfl] at hcut
  obtain ⟨i, hfind, hpair⟩ := Option.map_eq_some_iff.mp hcut
  obtain ⟨ha, he⟩ := Prod.mk.inj hpair
  obtain ⟨hsplit, hle⟩ := find_eq_some hfind
  rw [ha, he] at hsplit
  have hai : a.length = i := by
    rw [← ha, List.length_take]
    omega
  have hc' : 0 ∉ c' := fun h => hc (List.mem_append_right _ h)
  have he0 : 0 ∉ e := fun h => hc' (hsplit ▸ List.mem_append_right _ h)
  have hbuf : d ++ (bytes "/*" ++ c' ++ 0 :: j) =
      d ++ ((bytes "/*" ++ a ++ bytes "*/") ++ (e ++ 0 :: j)) := by
    rw [hsplit]
    simp only [List.append_assoc]
  have hstr := strstr_append (a := d ++ bytes "/*") (r := j) rfl hc' (bytes "*/")
  rw [hfind, Option.map_some, List.append_assoc, ← List.append_assoc _ c'] at hstr
  have hplace : d.length + 2 + i + 2 = (d ++ (bytes "/*" ++ a ++ bytes "*/")).length := by
    simp only [List.length_append, show (bytes "/*").length = 2 from rfl,
      show (bytes "*/").length = 2 from rfl]
    omega
  have hlen := strlen_append (a := d ++ (bytes "/*" ++ a ++ bytes "*/")) (r := j) rfl he0
  obtain ⟨r, hmove, hsize⟩ := memmove_append (a := d) (b := bytes "/*" ++ a ++ bytes "*/")
    (t := e) (r := j) rfl rfl rfl
  rw [List.append_assoc d] at hlen
  refine ⟨r, ?_, ?_, he0, ?_⟩
  · have hstr' : strstr (d ++ (bytes "/*" ++ c' ++ 0 :: j)) (d.length + 2) (bytes "*/") =
        .ok (some (d.length + 2 + i)) := by
      rw [List.length_append] at hstr
      exact hstr
    rw [stripBlockComment, hmark, ok_bind, hstr', ok_bind]
    simp only [hplace]
    rw [hbuf, hlen, ok_bind, hmove, ok_bind]
    rfl
  · rw [hbuf, List.length_append, hsize, ← List.length_append]
  · rw [hsplit]
    simp only [List.length_append, show (bytes "/*").length = 2 from rfl]
    omega

theorem stripBlockComment_none {m c : Bytes} {next : Option Nat}
    (hmark : mark m next 10 = .ok (d ++ (c ++ 0 :: j))) (hc : 0 ∉ c)
    (hblock : bytes "/*" <+: c) (hcut : cut (bytes "*/") (c.drop 2) = none) :
    stripBlockComment m d.length next = .ok (d ++ (c ++ 0 :: j), none) := by
  obtain ⟨c', rfl⟩ := hblock
  have hfind : find (bytes "*/") c' = none := Option.map_eq_none_iff.mp hcut
  have hc' : 0 ∉ c' := fun h => hc (List.mem_append_right _ h)
  have hstr := strstr_append (a := d ++ bytes "/*") (r := j) rfl hc' (bytes "*/")
  rw [hfind, Option.map_none, List.append_assoc, ← List.append_assoc _ c',
    List.length_append] at hstr
  have hstr' : strstr (d ++ (bytes "/*" ++ c' ++ 0 :: j)) (d.length + 2) (bytes "*/") =
      .ok none := hstr
  rw [stripBlockComment, hmark, ok_bind, hstr', ok_bind]
  rfl

end

/-- What a pass at `line = d.length` leaves of the text `t` behind `d`: either the loop ends
with the stripped text, or a shorter text is left whose stripped form belongs behind what is
done. -/
def Passed (d t : Bytes) (size : Nat) (r : Bytes × Option Nat) : Prop :=
  r.1.length = size ∧
    ((r.2 = none ∧ ∃ j, r.1 = d ++ (strip t ++ 0 :: j)) ∨
      ∃ d' t' j, r = (d' ++ (t' ++ 0 :: j), some d'.length) ∧ 0 ∉ t' ∧ t'.length < t.length ∧
        d ++ strip t = d' ++ strip t')

section

variable {d w u b j : Bytes}

theorem afterBlanks_eq {t c : Bytes} (hw : blanks t = w) (ht : t = w ++ c) :
    afterBlanks t = c := by
  have h := blanks_append_afterBlanks t
  rw [hw] at h
  exact List.append_cancel_left (h.trans ht)

theorem stripBlockComment_passed {m t c : Bytes} {next : Option Nat}
    (hmark : mark m next 10 = .ok (d ++ w ++ (c ++ 0 :: j))) (hw : blanks t = w)
    (hafter : afterBlanks t = c) (hstr : 0 ∉ c) (hline : ¬ bytes "//" <+: c)
    (hblock : bytes "/*" <+: c) :
    ∃ r, stripBlockComment m (d ++ w).length next = .ok r ∧
      Passed d t (d ++ (t ++ 0 :: j)).length r := by
  have ht : w ++ c = t := by rw [← hw, ← hafter, blanks_append_afterBlanks]
  have hline' : ¬ bytes "//" <+: afterBlanks t := hafter.symm ▸ hline
  have hblock' : bytes "/*" <+: afterBlanks t := hafter.symm ▸ hblock
  have hsize : (d ++ w ++ (c ++ 0 :: j)).length = (d ++ (t ++ 0 :: j)).length := by
    rw [← ht]
    simp only [List.append_assoc]
  cases hend : cut (bytes "*/") (c.drop 2) with
  | some p =>
    have hend' : cut (bytes "*/") ((afterBlanks t).drop 2) = some (p.1, p.2) := by
      rw [hafter, hend]
    obtain ⟨r, hr, hlen, he, hlt⟩ := stripBlockComment_some hmark hstr hblock hend
    refine ⟨_, hr, hlen.trans hsize, .inr ⟨d ++ w, p.2, r, rfl, he, ?_, ?_⟩⟩
    · rw [← ht, List.length_append]
      omega
    · rw [strip_block hline' hblock' hend', hw, List.append_assoc]
  | none =>
    have hend' : cut (bytes "*/") ((afterBlanks t).drop 2) = none := by rw [hafter, hend]
    refine ⟨_, stripBlockComment_none hmark hstr hblock hend, hsize, .inl ⟨rfl, j, ?_⟩⟩
    rw [strip_open_block hline' hblock' hend', ← ht]
    simp only [List.append_assoc]

theorem stripStep_passed_newline (hw : blanks (w ++ u) = w) (hnl : 10 ∉ w ++ u)
    (hstr : 0 ∉ w ++ u ++ 10 :: b) :
    ∃ r, stripStep (d ++ (w ++ u ++ 10 :: b ++ 0 :: j)) d.length = .ok r ∧
      Passed d (w ++ u ++ 10 :: b) (d ++ (w ++ u ++ 10 :: b ++ 0 :: j)).length r := by
  have hblanks : blanks (w ++ u ++ 10 :: b) = w := (blanks_append_newline _ b).trans hw
  have hafter : afterBlanks (w ++ u ++ 10 :: b) = u ++ 10 :: b :=
    afterBlanks_eq hblanks (List.append_assoc ..)
  have hu10 : 10 ∉ u := fun h => hnl (List.mem_append_right w h)
  have hc : 0 ∉ u ++ 10 :: b := by
    rw [List.append_assoc] at hstr
    exact fun h => hstr (List.mem_append_right w h)
  have hb : 0 ∉ b := fun h => hc (List.mem_append_right u (List.mem_cons_of_mem 10 h))
  have hcut : cut [10] (afterBlanks (w ++ u ++ 10 :: b)) = some (u, b) := by
    rw [hafter, cut_singleton_append hu10]
  have hslash : bytes "//" <+: afterBlanks (w ++ u ++ 10 :: b) ↔ bytes "//" <+: u := by
    rw [hafter, isPrefix_append_cons (by decide)]
  have hstar : bytes "/*" <+: afterBlanks (w ++ u ++ 10 :: b) ↔ bytes "/*" <+: u := by
    rw [hafter, isPrefix_append_cons (by decide)]
  have hmark : mark (d ++ w ++ (u ++ 0 :: (b ++ 0 :: j))) (some (d ++ w ++ u).length) 10 =
      .ok (d ++ w ++ (u ++ 10 :: b ++ 0 :: j)) := by
    rw [mark_append, List.append_assoc u, List.cons_append]
  have hsize : (d ++ (w ++ u ++ 10 :: b ++ 0 :: j)).length =
      (d ++ w ++ (u ++ 0 :: (b ++ 0 :: j))).length := by
    simp only [List.length_append, List.length_cons]
    omega
  rw [stripStep_newline hw hnl hstr]
  split
  · next hline =>
    obtain ⟨r, hr, hlen⟩ := stripLineComment_some (d := d) (w := w) (u := u) (j := j) hb
    refine ⟨_, hr, hlen.trans hsize.symm, .inr ⟨d ++ w ++ [10], b, r, rfl, hb, ?_, ?_⟩⟩
    · simp only [List.length_append, List.length_cons]
      omega
    · rw [strip_line (hslash.mpr hline) hcut, hblanks]
      simp
  · next hline =>
    have hline' := mt hslash.mp hline
    split
    · next hblock =>
      exact stripBlockComment_passed hmark hblanks hafter hc (hafter ▸ hline')
        ((isPrefix_append_cons (by decide)).mpr hblock)
    · next hblock =>
      have hblock' := mt hstar.mp hblock
      refine ⟨(d ++ (w ++ u ++ 10 :: b ++ 0 :: j), some (d ++ w ++ u ++ [10]).length), ?_, rfl,
        .inr ⟨d ++ w ++ u ++ [10], b, j, ?_, hb, ?_, ?_⟩⟩
      · rw [stripPlain, hmark, ok_bind]
        simp [Nat.add_assoc]
      · simp
      · simp only [List.length_append, List.length_cons]
        omega
      · rw [strip_plain hline' hblock' hcut, hblanks]
        simp

theorem stripStep_passed_last (hw : blanks (w ++ u) = w) (hnl : 10 ∉ w ++ u)
    (hstr : 0 ∉ w ++ u) :
    ∃ r, stripStep (d ++ (w ++ u ++ 0 :: j)) d.length = .ok r ∧
      Passed d (w ++ u) (d ++ (w ++ u ++ 0 :: j)).length r := by
  have hafter : afterBlanks (w ++ u) = u := afterBlanks_eq hw rfl
  have hu : 0 ∉ u := fun h => hstr (List.mem_append_right w h)
  have hcut : cut [10] (afterBlanks (w ++ u)) = none := by
    rw [hafter, cut_singleton_eq_none]
    exact fun h => hnl (List.mem_append_right w h)
  have hsize : (d ++ w ++ (u ++ 0 :: j)).length = (d ++ (w ++ u ++ 0 :: j)).length := by
    simp only [List.append_assoc]
  have hmark : mark (d ++ w ++ (u ++ 0 :: j)) none 10 = .ok (d ++ w ++ (u ++ 0 :: j)) := rfl
  rw [stripStep_last hw hnl hstr]
  split
  · next hline =>
    have hne : u ≠ [] := by
      rintro rfl
      exact absurd hline (by decide)
    obtain ⟨r, hr, hlen⟩ := stripLineComment_none (d := d) (w := w) (j := j) hne
    refine ⟨_, hr, hlen.trans hsize, .inl ⟨rfl, r, ?_⟩⟩
    rw [strip_last_line (hafter.symm ▸ hline) hcut, hw, List.append_assoc]
  · next hline =>
    have hline' : ¬ bytes "//" <+: afterBlanks (w ++ u) := hafter.symm ▸ hline
    split
    · next hblock => exact stripBlockComment_passed hmark hw hafter hu hline hblock
    · next hblock =>
      have hblock' : ¬ bytes "/*" <+: afterBlanks (w ++ u) := hafter.symm ▸ hblock
      refine ⟨(d ++ w ++ (u ++ 0 :: j), none), rfl, hsize, .inl ⟨rfl, j, ?_⟩⟩
      rw [strip_last_plain hline' hblock' hcut]
      simp only [List.append_assoc]

end

theorem blanks_afterBlanks (t : Bytes) : blanks (afterBlanks t) = [] := by
  rw [blanks, afterBlanks, List.takeWhile_eq_nil_iff]
  intro h
  exact List.dropWhile_get_zero_not _ _ h

theorem mem_blanks {t : Bytes} {x : UInt8} (h : x ∈ blanks t) : x ∈ bytes " \t" := by
  have hx := List.mem_takeWhile_imp h
  exact of_decide_eq_true hx

theorem newline_not_mem_blanks (t : Bytes) : 10 ∉ blanks t := by
  intro h
  exact absurd (mem_blanks h) (by decide)

theorem stripStep_passed {d t j : Bytes} (hstr : 0 ∉ t) :
    ∃ r, stripStep (d ++ (t ++ 0 :: j)) d.length = .ok r ∧
      Passed d t (d ++ (t ++ 0 :: j)).length r := by
  have ht := blanks_append_afterBlanks t
  have hblanks := newline_not_mem_blanks t
  by_cases hmem : 10 ∈ afterBlanks t
  · obtain ⟨u, b, hafter, hu⟩ := List.eq_append_cons_of_mem hmem
    have hsplit : t = blanks t ++ u ++ 10 :: b := by rw [List.append_assoc, ← hafter, ht]
    have hw : blanks (blanks t ++ u) = blanks t := by
      rw [← blanks_append_newline _ b, ← hsplit]
    have hnl : 10 ∉ blanks t ++ u := by
      rw [List.mem_append]
      exact fun h => h.elim hblanks hu
    rw [hsplit] at hstr
    have h := stripStep_passed_newline (d := d) (j := j) hw hnl hstr
    rwa [← hsplit] at h
  · have hw : blanks (blanks t ++ afterBlanks t) = blanks t := by rw [ht]
    have hnl : 10 ∉ blanks t ++ afterBlanks t := by
      rw [List.mem_append]
      exact fun h => h.elim hblanks hmem
    have h := stripStep_passed_last (d := d) (j := j) hw hnl (ht.symm ▸ hstr)
    rwa [ht] at h

/-! ## The whole loop -/

/-- The text gets shorter with each pass, so its length and one bound the number of them. -/
theorem stripLoop_eq {d t j : Bytes} (hstr : 0 ∉ t) :
    ∃ r, (d ++ (strip t ++ 0 :: r)).length = (d ++ (t ++ 0 :: j)).length ∧
      ∀ n, t.length < n → stripLoop n (d ++ (t ++ 0 :: j)) (some d.length) =
        .ok (d ++ (strip t ++ 0 :: r), none) := by
  induction hlen : t.length using Nat.strong_induction_on generalizing d t j with
  | _ k ih =>
  obtain ⟨⟨m, next⟩, hstep, hsize, hend | ⟨d', t', j', hr, ht', hlt, hjoin⟩⟩ :=
    stripStep_passed (d := d) (j := j) hstr
  · obtain ⟨rfl, r, rfl⟩ := hend
    refine ⟨r, hsize, fun n hn => ?_⟩
    cases n with
    | zero => omega
    | succ n =>
      rw [stripLoop, hstep, ok_bind]
      cases n <;> rfl
  · obtain ⟨rfl, rfl⟩ := Prod.mk.inj hr
    obtain ⟨r, hsame, hrun⟩ := ih t'.length (hlen ▸ hlt) (d := d') (j := j') ht' rfl
    have hbuf : d' ++ (strip t' ++ 0 :: r) = d ++ (strip t ++ 0 :: r) := by
      rw [← List.append_assoc, ← hjoin, List.append_assoc]
    rw [hbuf] at hsame hrun
    refine ⟨r, hsame.trans hsize, fun n hn => ?_⟩
    cases n with
    | zero => omega
    | succ n =>
      rw [stripLoop, hstep, ok_bind]
      exact hrun n (by omega)

theorem jsonStrip_eq {t j : Bytes} (hstr : 0 ∉ t) :
    ∃ r, jsonStrip (t ++ 0 :: j) = .ok (strip t ++ 0 :: r) := by
  obtain ⟨r, -, hrun⟩ := stripLoop_eq (d := []) (j := j) hstr
  have h := hrun (t ++ 0 :: j).length (by rw [List.length_append, List.length_cons]; omega)
  refine ⟨r, ?_⟩
  rw [jsonStrip]
  rw [List.nil_append, List.nil_append, List.length_nil] at h
  rw [h, ok_bind]
  rfl

/-! ## Stripping twice -/

theorem strip_nil : strip [] = [] := strip_last_plain (by decide) (by decide) rfl

/-- Blanks in front stay. -/
theorem strip_blanks_append (t s : Bytes) : strip (blanks t ++ s) = blanks t ++ strip s := by
  have hblanks : blanks (blanks t ++ s) = blanks t ++ blanks s := by
    exact List.takeWhile_append_of_pos fun x hx => decide_eq_true (mem_blanks hx)
  have hafter : afterBlanks (blanks t ++ s) = afterBlanks s :=
    afterBlanks_eq hblanks (by rw [List.append_assoc, blanks_append_afterBlanks])
  by_cases hline : bytes "//" <+: afterBlanks s
  · cases hcut : cut [10] (afterBlanks s) with
    | some p =>
      rw [strip_line (a := p.1) (b := p.2) (hafter ▸ hline) (hafter ▸ hcut), hblanks,
        strip_line (a := p.1) (b := p.2) hline hcut, List.append_assoc]
    | none =>
      rw [strip_last_line (hafter ▸ hline) (hafter ▸ hcut), hblanks, strip_last_line hline hcut]
  · by_cases hblock : bytes "/*" <+: afterBlanks s
    · cases hcut : cut (bytes "*/") ((afterBlanks s).drop 2) with
      | some p =>
        rw [strip_block (a := p.1) (b := p.2) (hafter ▸ hline) (hafter ▸ hblock)
          (hafter ▸ hcut), hblanks, strip_block (a := p.1) (b := p.2) hline hblock hcut,
          List.append_assoc]
      | none =>
        rw [strip_open_block (hafter ▸ hline) (hafter ▸ hblock) (hafter ▸ hcut),
          strip_open_block hline hblock hcut]
    · cases hcut : cut [10] (afterBlanks s) with
      | some p =>
        rw [strip_plain (a := p.1) (b := p.2) (hafter ▸ hline) (hafter ▸ hblock)
          (hafter ▸ hcut), hblanks, strip_plain (a := p.1) (b := p.2) hline hblock hcut,
          List.append_assoc]
      | none =>
        rw [strip_last_plain (hafter ▸ hline) (hafter ▸ hblock) (hafter ▸ hcut),
          strip_last_plain hline hblock hcut]

/-- A line that is no comment stays, with its newline. -/
theorem strip_line_append {u : Bytes} (hu : 10 ∉ u) (hblanks : blanks u = [])
    (hline : ¬ bytes "//" <+: u) (hblock : ¬ bytes "/*" <+: u) (s : Bytes) :
    strip (u ++ 10 :: s) = u ++ 10 :: strip s := by
  have hb : blanks (u ++ 10 :: s) = [] := (blanks_append_newline u s).trans hblanks
  have hafter : afterBlanks (u ++ 10 :: s) = u ++ 10 :: s := afterBlanks_eq hb rfl
  rw [strip_plain (a := u) (b := s), hb, List.nil_append]
  · rwa [hafter, isPrefix_append_cons (by decide)]
  · rwa [hafter, isPrefix_append_cons (by decide)]
  · rw [hafter, cut_singleton_append hu]

theorem strip_strip (t : Bytes) : strip (strip t) = strip t := by
  induction t using strip.induct with
  | case1 t hline _ tail hcut ih =>
    have hnl := strip_line_append (u := []) List.not_mem_nil rfl (by decide) (by decide)
      (strip tail)
    rw [List.nil_append, List.nil_append, ih] at hnl
    rw [strip_line hline hcut, strip_blanks_append, hnl]
  | case2 t hline hcut =>
    have h := strip_blanks_append t []
    rw [strip_nil, List.append_nil] at h
    rw [strip_last_line hline hcut, h]
  | case3 t hline hblock _ tail hcut ih =>
    rw [strip_block hline hblock hcut, strip_blanks_append, ih]
  | case4 t hline hblock hcut =>
    rw [strip_open_block hline hblock hcut, strip_open_block hline hblock hcut]
  | case5 t hline hblock line tail hcut ih =>
    have hafter : afterBlanks t = line ++ 10 :: tail := by
      rw [cut_eq_some hcut, List.append_assoc]
      rfl
    have hu : 10 ∉ line := not_mem_of_cut_singleton hcut
    have hblanks : blanks line = [] := by
      rw [← blanks_append_newline line tail, ← hafter, blanks_afterBlanks]
    have hline' : ¬ bytes "//" <+: line := by
      rwa [hafter, isPrefix_append_cons (by decide)] at hline
    have hblock' : ¬ bytes "/*" <+: line := by
      rwa [hafter, isPrefix_append_cons (by decide)] at hblock
    rw [strip_plain hline hblock hcut, strip_blanks_append,
      strip_line_append hu hblanks hline' hblock', ih]
  | case6 t hline hblock hcut =>
    rw [strip_last_plain hline hblock hcut, strip_last_plain hline hblock hcut]

/-- Stripping only takes bytes away. -/
theorem strip_sublist (t : Bytes) : (strip t).Sublist t := by
  have hsplit := blanks_append_afterBlanks
  induction t using strip.induct with
  | case1 t hline line tail hcut ih =>
    have h : (strip t).Sublist (blanks t ++ (line ++ [10] ++ tail)) := by
      rw [strip_line hline hcut, List.append_assoc]
      exact (List.Sublist.refl _).append
        ((ih.cons_cons 10).trans (List.sublist_append_right line _))
    rwa [← cut_eq_some hcut, hsplit] at h
  | case2 t hline hcut =>
    rw [strip_last_line hline hcut]
    exact List.takeWhile_sublist _
  | case3 t hline hblock _ tail hcut ih =>
    have htail : tail.Sublist (afterBlanks t) := by
      have h := List.drop_sublist 2 (afterBlanks t)
      rw [cut_eq_some hcut] at h
      exact (List.sublist_append_right _ tail).trans h
    have h : (strip t).Sublist (blanks t ++ afterBlanks t) := by
      rw [strip_block hline hblock hcut]
      exact (List.Sublist.refl _).append (ih.trans htail)
    rwa [hsplit] at h
  | case4 t hline hblock hcut =>
    exact (strip_open_block hline hblock hcut).symm ▸ List.Sublist.refl t
  | case5 t hline hblock line tail hcut ih =>
    have h : (strip t).Sublist (blanks t ++ (line ++ [10] ++ tail)) := by
      rw [strip_plain hline hblock hcut, List.append_assoc]
      exact (List.Sublist.refl _).append ((List.Sublist.refl _).append (ih.cons_cons 10))
    rwa [← cut_eq_some hcut, hsplit] at h
  | case6 t hline hblock hcut =>
    exact (strip_last_plain hline hblock hcut).symm ▸ List.Sublist.refl t

/-- `json_strip` ends, never leaves the buffer of the text and its NUL, and leaves the stripped
text there.  Running it on what it left changes nothing. -/
theorem json_strip_refines {t : Bytes} (hstr : 0 ∉ t) :
    (∃ r r', (strip t ++ 0 :: r).length = (t ++ [0]).length ∧ 0 ∉ strip t ∧
      ∀ n, t.length < n → stripLoop n (t ++ [0]) (some 0) = .ok (strip t ++ 0 :: r, none) ∧
        stripLoop n (strip t ++ 0 :: r) (some 0) = .ok (strip t ++ 0 :: r', none)) ∧
      strip (strip t) = strip t := by
  have hstr' : 0 ∉ strip t := fun h => hstr ((strip_sublist t).subset h)
  have hle := (strip_sublist t).length_le
  obtain ⟨r, hsize, hrun⟩ := stripLoop_eq (d := []) (j := []) hstr
  obtain ⟨r', -, hagain⟩ := stripLoop_eq (d := []) (j := r) hstr'
  rw [strip_strip] at hagain
  refine ⟨⟨r, r', hsize, hstr', fun n hn => ⟨hrun n hn, hagain n ?_⟩⟩, strip_strip t⟩
  omega

theorem json_strip_refines_comments :
    ∃ r, stripLoop 40 (bytes "\t/* a */ // b\n1 // c\n/*\n*/2" ++ [0]) (some 0) =
      .ok (strip (bytes "\t/* a */ // b\n1 // c\n/*\n*/2") ++ 0 :: r, none) := by
  obtain ⟨⟨r, _, -, -, h⟩, -⟩ :=
    json_strip_refines (t := bytes "\t/* a */ // b\n1 // c\n/*\n*/2") (by decide)
  exact ⟨r, (h 40 (by decide)).1⟩

end Gateway
end LinuxPrograming
