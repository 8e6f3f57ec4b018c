import Ostadix.Lib.Bytes

/-! # Length-prefixed frames

A frame is a four-byte length and a payload. What stands at the start of a byte string is an
incomplete frame, a frame over the limit, or a complete frame with the bytes behind it. A proper
prefix of a frame is always incomplete, so that a log of frames can tell an interrupted write
from a damaged one. -/

namespace Ostadix.Lib

open List

def frame (payload : Bytes) : Bytes :=
  toBigEndian 4 payload.length ++ payload

inductive FrameAt where
  | incomplete
  | oversized (length : Nat)
  | complete (payload rest : Bytes)
deriving DecidableEq

def frameAt (limit : Nat) (bytes : Bytes) : FrameAt :=
  if bytes.length < 4 then .incomplete
  else
    let length := ofBigEndian (bytes.take 4)
    if limit < length then .oversized length
    else if bytes.length < 4 + length then .incomplete
    else .complete ((bytes.drop 4).take length) (bytes.drop (4 + length))

@[simp] theorem length_frame (pl : Bytes) : (frame pl).length = 4 + pl.length := by
  simp [frame]

theorem frame_ne_nil (pl : Bytes) : frame pl ≠ [] := by
  intro empty
  have len := congrArg List.length empty
  simp at len

variable {limit : Nat}

/-- The length prefix survives in every string that starts with a frame's first four bytes. -/
private theorem length_prefix {pl : Bytes} (narrow : limit < 256 ^ 4)
    (short : pl.length ≤ limit) (rest : Bytes) :
    ofBigEndian ((toBigEndian 4 pl.length ++ rest).take 4) = pl.length := by
  rw [take_left' (length_toBigEndian 4 _)]
  exact ofBigEndian_toBigEndian_of_lt (by omega)

theorem frameAt_frame_append {pl : Bytes} (narrow : limit < 256 ^ 4)
    (short : pl.length ≤ limit) (tl : Bytes) :
    frameAt limit (frame pl ++ tl) = .complete pl tl := by
  have split : frame pl ++ tl = toBigEndian 4 pl.length ++ (pl ++ tl) := append_assoc ..
  have num := length_prefix narrow short (pl ++ tl)
  have behind : (frame pl ++ tl).drop (4 + pl.length) = tl := drop_left' (length_frame pl)
  have body : ((frame pl ++ tl).drop 4).take pl.length = pl := by
    rw [split, drop_left' (length_toBigEndian 4 _), take_left]
  rw [← split] at num
  simp only [frameAt, num, behind, body, length_append, length_frame]
  rw [if_neg (by omega), if_neg (by omega), if_neg (by omega)]

theorem frameAt_take_frame {pl : Bytes} (narrow : limit < 256 ^ 4)
    (short : pl.length ≤ limit) {kept : Nat} (cut : kept < (frame pl).length) :
    frameAt limit ((frame pl).take kept) = .incomplete := by
  have hb : ((frame pl).take kept).length = kept := by
    rw [length_take]
    omega
  rw [length_frame] at cut
  unfold frameAt
  split
  · rfl
  · rename_i long
    have prefixed : ((frame pl).take kept).take 4 = (frame pl).take 4 := by
      rw [take_take, Nat.min_eq_left (by omega)]
    have num := length_prefix narrow short pl
    rw [show toBigEndian 4 pl.length ++ pl = frame pl from rfl, ← prefixed] at num
    simp only [num, hb]
    rw [if_neg (by omega), if_pos (by omega)]

theorem frameAt_eq_complete {bs pl tl : Bytes} (hf : frameAt limit bs = .complete pl tl) :
    bs = frame pl ++ tl ∧ pl.length ≤ limit := by
  unfold frameAt at hf
  split at hf
  · cases hf
  · rename_i long
    dsimp only at hf
    split at hf
    · cases hf
    · rename_i within
      split at hf
      · cases hf
      · rename_i whole
        obtain ⟨rfl, rfl⟩ := FrameAt.complete.inj hf
        have len : ((bs.drop 4).take (ofBigEndian (bs.take 4))).length =
            ofBigEndian (bs.take 4) := by
          rw [length_take, length_drop]
          omega
        have num : toBigEndian 4 (ofBigEndian (bs.take 4)) = bs.take 4 := by
          have digits := toBigEndian_ofBigEndian (bs.take 4)
          rwa [length_take, Nat.min_eq_left (by omega)] at digits
        refine ⟨?_, by omega⟩
        rw [frame, len, num, append_assoc, ← drop_drop, take_append_drop, take_append_drop]

end Ostadix.Lib
