import LinuxPrograming.Lib.Bytes
import Mathlib.Data.List.Forall2

/-!
# The receive path of the gateway

`client.c` sends one JSON text per `OS_SendTCP` call, `strlen` bytes and no
delimiter.  `connection_mgr` receives into the local `buf`, adds no NUL, and hands
the address of `buf` to `list_push` once per successful `recv`.

`mem` is the memory behind `buf`.  A string without NUL in `buf` is read on into
it, so the results below hold whatever lies there.
-/

namespace LinuxPrograming
namespace Gateway

open Lib

/-- `OS_BUFFER_SIZE`. -/
def osBufferSize : Nat := 512

/-- The bytes `OS_SendTCP` puts on the wire: `strlen(msg)` of them. -/
def osSendTCP (msg : Bytes) : Bytes := cStr msg

/-- `recv(i, buf, sizeof buf, 0)` returning `bs`.  Behind the received bytes `buf`
keeps what it held. -/
def recv (buf bs : Bytes) : Bytes := overwrite buf bs

/-- The C string a reader of the pointer `buf` sees. -/
def bufStr (mem buf : Bytes) : Bytes := cStr (buf ++ mem)

/-- The strings `connection_mgr` hands to `list_push` on one connection, each read
from `buf` at the time of the push. -/
def connectionMgr (mem : Bytes) : Bytes → List Bytes → List Bytes
  | _, [] => []
  | buf, bs :: rest => bufStr mem (recv buf bs) :: connectionMgr mem (recv buf bs) rest

theorem recv_length {buf bs : Bytes} (hbuf : buf.length = osBufferSize)
    (hbs : bs.length ≤ osBufferSize) : (recv buf bs).length = osBufferSize := by
  rw [recv, length_overwrite (by omega), hbuf]

/-- What is left of earlier receptions behind the first `n` bytes, as a C string. -/
def leftover (mem buf : Bytes) (n : Nat) : Bytes := cStr (buf.drop n ++ mem)

theorem bufStr_recv {mem buf bs : Bytes} (hbs : 0 ∉ bs) :
    bufStr mem (recv buf bs) = bs ++ leftover mem buf bs.length := by
  rw [bufStr, recv, overwrite, List.append_assoc, cStr_append hbs]
  rfl

theorem leftover_eq_nil_iff {mem buf : Bytes} {n : Nat} (hn : n < buf.length) :
    leftover mem buf n = [] ↔ buf[n]? = some 0 := by
  have hhead : (buf.drop n ++ mem)[0]? = some buf[n] := by
    rw [List.getElem?_append_left (by rw [List.length_drop]; omega), List.getElem?_drop,
      Nat.add_zero, List.getElem?_eq_getElem hn]
  rw [leftover, cStr_eq_nil_iff, hhead, List.getElem?_eq_getElem hn]
  simp

theorem connectionMgr_forall₂ {mem : Bytes} : ∀ {chunks : List Bytes} (buf : Bytes),
    (∀ c ∈ chunks, 0 ∉ c) →
    List.Forall₂ (fun c s => ∃ t, s = c ++ t) chunks (connectionMgr mem buf chunks)
  | [], _, _ => .nil
  | c :: _, buf, h =>
    .cons ⟨_, bufStr_recv (h c List.mem_cons_self)⟩
      (connectionMgr_forall₂ (recv buf c) fun d hd => h d (List.mem_cons_of_mem c hd))

theorem length_flatten_le {chunks strs : List Bytes}
    (h : List.Forall₂ (fun c s => ∃ t, s = c ++ t) chunks strs) :
    chunks.flatten.length ≤ strs.flatten.length := by
  induction h with
  | nil => exact Nat.le_refl _
  | cons hcs _ ih =>
    obtain ⟨t, rfl⟩ := hcs
    simp only [List.flatten_cons, List.length_append]
    omega

theorem eq_of_forall₂_of_length_le {chunks strs : List Bytes}
    (h : List.Forall₂ (fun c s => ∃ t, s = c ++ t) chunks strs)
    (hlen : strs.flatten.length ≤ chunks.flatten.length) : chunks = strs := by
  induction h with
  | nil => rfl
  | cons hcs hrest ih =>
    obtain ⟨t, rfl⟩ := hcs
    have hle := length_flatten_le hrest
    simp only [List.flatten_cons, List.length_append] at hlen
    have ht : t = [] := List.eq_nil_of_length_eq_zero (by omega)
    rw [ht, List.append_nil, ih (by omega)]

/-- One reception per message: the pushes are the messages when every message
leaves nothing of an earlier one behind it. -/
theorem connectionMgr_self_iff {mem : Bytes} {msgs : List Bytes}
    (hmsgs : ∀ m ∈ msgs, 0 ∉ m ∧ m.length < osBufferSize) {buf : Bytes}
    (hbuf : buf.length = osBufferSize) :
    connectionMgr mem buf msgs = msgs ↔
      msgs.Pairwise (fun a b => a.length ≤ b.length) ∧ ∀ m ∈ msgs, buf[m.length]? = some 0 := by
  induction msgs generalizing buf with
  | nil => simp [connectionMgr]
  | cons m msgs ih =>
    have hm := hmsgs m List.mem_cons_self
    have hrest : ∀ x ∈ msgs, 0 ∉ x ∧ x.length < osBufferSize :=
      fun x hx => hmsgs x (List.mem_cons_of_mem m hx)
    have hhead : bufStr mem (recv buf m) = m ↔ buf[m.length]? = some 0 := by
      rw [bufStr_recv hm.1, List.append_right_eq_self, leftover_eq_nil_iff (by omega)]
    -- A byte of `m` is not NUL, so a later message must not end inside `m`.
    have htail : ∀ x : Bytes, (recv buf m)[x.length]? = some 0 ↔
        m.length ≤ x.length ∧ buf[x.length]? = some 0 := by
      intro x
      by_cases hx : x.length < m.length
      · rw [recv, getElem?_overwrite_of_lt hx]
        constructor
        · intro h
          exact absurd (List.mem_of_getElem? h) hm.1
        · intro h
          omega
      · rw [recv, getElem?_overwrite_of_le (by omega)]
        exact ⟨fun h => ⟨by omega, h⟩, fun h => h.2⟩
    rw [connectionMgr, List.cons.injEq, hhead, ih hrest (recv_length hbuf (by omega)),
      List.pairwise_cons, List.forall_mem_cons]
    constructor
    · rintro ⟨h0, hpair, hnul⟩
      exact ⟨⟨fun x hx => ((htail x).mp (hnul x hx)).1, hpair⟩, h0,
        fun x hx => ((htail x).mp (hnul x hx)).2⟩
    · rintro ⟨⟨hle, hpair⟩, h0, hnul⟩
      exact ⟨h0, hpair, fun x hx => (htail x).mpr ⟨hle x hx, hnul x hx⟩⟩

theorem wire_eq {msgs : List Bytes} (hmsgs : ∀ m ∈ msgs, 0 ∉ m) :
    (msgs.map osSendTCP).flatten = msgs.flatten := by
  have h : msgs.map osSendTCP = msgs.map id :=
    List.map_congr_left fun m hm => cStr_eq_self (hmsgs m hm)
  rw [h, List.map_id]

/-- The strings handed to `list_push` are the messages sent exactly when TCP
delivers one message per `recv`, no message is shorter than one before it, and the
buffer started with a NUL where each of them ends. -/
theorem connectionMgr_eq_iff {mem buf : Bytes} {msgs chunks : List Bytes}
    (hbuf : buf.length = osBufferSize)
    (hmsgs : ∀ m ∈ msgs, 0 ∉ m ∧ m.length < osBufferSize)
    (hstream : chunks.flatten = (msgs.map osSendTCP).flatten) :
    connectionMgr mem buf chunks = msgs ↔
      chunks = msgs ∧ msgs.Pairwise (fun a b => a.length ≤ b.length) ∧
        ∀ m ∈ msgs, buf[m.length]? = some 0 := by
  rw [wire_eq fun m hm => (hmsgs m hm).1] at hstream
  have hnul : ∀ c ∈ chunks, 0 ∉ c := by
    intro c hc h0
    have h : (0 : UInt8) ∈ msgs.flatten := hstream ▸ List.mem_flatten.mpr ⟨c, hc, h0⟩
    obtain ⟨m, hm, h0m⟩ := List.mem_flatten.mp h
    exact (hmsgs m hm).1 h0m
  constructor
  · intro h
    have hext : List.Forall₂ _ _ (connectionMgr mem buf chunks) := connectionMgr_forall₂ buf hnul
    rw [h] at hext
    have heq : chunks = msgs := eq_of_forall₂_of_length_le hext (by rw [hstream])
    exact ⟨heq, (connectionMgr_self_iff hmsgs hbuf).mp (heq ▸ h)⟩
  · rintro ⟨rfl, h⟩
    exact (connectionMgr_self_iff hmsgs hbuf).mpr h

/-- Two texts as `getMsg` prints them. -/
def reading₁ : Bytes :=
  bytes "\x7b\"timestamp\":\"2023/11/21 10:00:00\",\"sensorID\":1,\"temperature\":20.5\x7d"

def reading₂ : Bytes :=
  bytes "\x7b\"timestamp\":\"2023/11/21 10:00:02\",\"sensorID\":2,\"temperature\":27.5\x7d"

/-- Two readings that TCP merges into one segment arrive as one string. -/
theorem connectionMgr_merged :
    (reading₁.length < osBufferSize ∧ reading₂.length < osBufferSize) ∧
      (0 ∉ reading₁ ∧ 0 ∉ reading₂) ∧
      [reading₁ ++ reading₂].flatten = ([reading₁, reading₂].map osSendTCP).flatten ∧
      (reading₁ ++ reading₂).length ≤ osBufferSize ∧
      connectionMgr [] (List.replicate osBufferSize 0) [reading₁ ++ reading₂] ≠
        [reading₁, reading₂] := by
  refine ⟨by decide, by decide, by decide, by decide, fun h => ?_⟩
  exact absurd (congrArg List.length h) (by decide)

/-- Unmerged, unsplit and of equal length, they arrive as sent. -/
theorem connectionMgr_two_readings :
    connectionMgr [] (List.replicate osBufferSize 0) [reading₁, reading₂] =
      [reading₁, reading₂] := by
  have hlen : ∀ m ∈ [reading₁, reading₂], m.length < osBufferSize := by decide
  refine (connectionMgr_eq_iff List.length_replicate (by decide) (by decide)).mpr
    ⟨rfl, by decide, ?_⟩
  intro m hm
  rw [List.getElem?_replicate, if_pos (hlen m hm)]

end Gateway
end LinuxPrograming
