import LinuxPrograming.Lib.Text

/-!
# `_wpa_ctrl_cmd`

The helper announces 4096 bytes for the reply, whatever array its caller passes, and ends the
reply with a NUL in the place of its last byte.
-/

namespace LinuxPrograming
namespace Wpa

open Lib

/-- What `wpa_ctrl_request` comes to: a time-out, an error, or a reply. -/
inductive Request where
  | timedOut
  | failed
  | reply (bs : Bytes)
  deriving DecidableEq, Repr

/-- Store `bs` in the array `buf` from place `i` on; `none` when it does not fit. -/
def put (buf : Bytes) (i : Nat) (bs : Bytes) : Option Bytes :=
  if i + bs.length ≤ buf.length then some (patch buf i bs) else none

/-- The `len` that is announced to `wpa_ctrl_request`. -/
def replyLen : Nat := 4096

/-- `_wpa_ctrl_cmd`: its result and the array with the reply.  For an empty reply `len - 1`
wraps around, and the NUL is stored outside the array. -/
def wpaCtrlCmd (request : Request) (buf : Bytes) : Option (Int × Bytes) :=
  match request with
  | .timedOut => some (-2, buf)
  | .failed => some (-1, buf)
  | .reply bs => do
    let stored := bs.take replyLen
    let buf ← put buf 0 stored
    if stored.length = 0 then none
    else
      let buf ← put buf (stored.length - 1) [0]
      pure (0, buf)

/-- A reply that fits is a string without its last byte. -/
theorem wpaCtrlCmd_reply {bs buf : Bytes} (hne : bs ≠ []) (hlen : bs.length ≤ replyLen)
    (hbuf : bs.length ≤ buf.length) :
    wpaCtrlCmd (.reply bs) buf = some (0, bs.dropLast ++ 0 :: buf.drop bs.length) := by
  have hpos : 0 < bs.length := List.length_pos_iff.mpr hne
  have hsize : (overwrite buf bs).length = buf.length := length_overwrite hbuf
  have hfirst : put buf 0 bs = some (overwrite buf bs) := by
    rw [put, if_pos (by omega), patch_zero]
  have hlast : put (overwrite buf bs) (bs.length - 1) [0] =
      some (bs.dropLast ++ 0 :: buf.drop bs.length) := by
    have hone : bs.length - 1 + [(0 : UInt8)].length = bs.length := by
      rw [List.length_singleton]
      omega
    rw [put, if_pos (by omega), patch, hone, overwrite,
      List.take_append_of_le_length (Nat.sub_le _ _), List.drop_left, ← List.dropLast_eq_take]
    simp
  rw [wpaCtrlCmd]
  simp only [List.take_of_length_le hlen, hfirst, Option.bind_eq_bind, Option.bind_some, hlast]
  rw [if_neg (by omega)]
  rfl

end Wpa
end LinuxPrograming
