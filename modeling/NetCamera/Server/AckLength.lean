import NetCamera.Protocol.Malformed
import NetCamera.Server.Replies

/-!
# NetCamera.Server.AckLength

The length field of an acknowledgement.

A client that has read the twelve bytes up to the length field expects as many
more as the field says.  A get command computes it from the end of its text, a set
command from the number of integers parsed, though the acknowledgement of a set
command always has the same size; `ackSized_iff` says when the two agree.  A call
that resets the processor sends no acknowledgement, however it was built.
-/

namespace NetCamera

open CString Run

/-- A big-endian number. -/
def bigEndian (bs : List UInt8) : Nat := bs.foldl (fun v b => 256 * v + b.toNat) 0

/-- The reply in the state is as long as its length field says, and ends with the end mark. -/
structure AckSized (s : Cam) : Prop where
  length : bigEndian ((s.reply.drop 8).take 4) = s.replyLen - 12
  sent : s.reply.length = s.replyLen
  endMark : s.reply.drop (s.replyLen - 2) = endText

/-- An acknowledgement with `n` bytes of value field. -/
theorem ackSized_iff_of_reply {s : Cam} {c : Cmd} {AckLen : UInt8} {body : List UInt8}
    (hreply : s.reply = ackFrame c AckLen body) (hlen : s.ParaLen.toNat = 24 + body.length) :
    AckSized s ↔ AckLen.toNat = 15 + body.length := by
  have hstart : startText.length = 8 := rfl
  have hcmd := c.length_text
  have hsize : (ackFrame c AckLen body).length = 27 + body.length := by
    simp [ackFrame, hstart, hcmd, headText, endText]
    omega
  have hfield : ((ackFrame c AckLen body).drop 8).take 4 = [0, 0, 0, AckLen] := by
    simp only [ackFrame, List.append_assoc]
    rw [List.drop_left' hstart]
    rfl
  have hend : (ackFrame c AckLen body).drop (25 + body.length) = endText := by
    have hfront : (startText ++ [0, 0, 0, AckLen] ++ [0, 0, 0, 0] ++ headText ++ c.text ++
        body).length = 25 + body.length := by
      simp [hstart, hcmd, headText]
      omega
    rw [ackFrame, List.drop_left' hfront]
  have hreplyLen : s.replyLen = 27 + body.length := by
    rw [Cam.replyLen, hlen]
    omega
  have hnat : bigEndian [0, 0, 0, AckLen] = AckLen.toNat := by
    simp [bigEndian]
  constructor
  · intro h
    have := h.length
    rw [hreply, hfield, hnat, hreplyLen] at this
    omega
  · intro h
    refine ⟨?_, ?_, ?_⟩
    · rw [hreply, hfield, hnat, hreplyLen]
      omega
    · rw [hreply, hsize, hreplyLen]
    · rw [hreply, hreplyLen, show 27 + body.length - 2 = 25 + body.length by omega, hend]

/-- A get command announces the right length. -/
theorem GetAck.sized {c : Cmd} {s s' : Cam} (h : GetAck c s s')
    (hlen : (valueText c s).length ≤ 55) : AckSized s' := by
  have hbody : (valueText c s ++ [0]).length = (valueText c s).length + 1 := by simp
  rw [ackSized_iff_of_reply h.reply (by rw [h.ParaLen, hbody]; omega), hbody, UInt8.toNat_sub_of_le,
    UInt8.toNat_ofNat']
  · have h9 : (9 : UInt8).toNat = 9 := rfl
    omega
  · rw [UInt8.le_iff_toNat_le, UInt8.toNat_ofNat']
    have h9 : (9 : UInt8).toNat = 9 := rfl
    omega

/-- A set command announces the right length exactly when its handler counted one
integer. -/
theorem SetAck.sized_iff {c : Cmd} {RtnLen : UInt8} {s s' : Cam} (h : SetAck c RtnLen s s') :
    AckSized s' ↔ RtnLen = 1 := by
  have h15 : (15 : UInt8).toNat = 15 := rfl
  have h1 : (1 : UInt8).toNat = 1 := rfl
  have hlt := RtnLen.toNat_lt
  rw [ackSized_iff_of_reply h.reply (by rw [h.ParaLen]; rfl), ← UInt8.toNat_inj, UInt8.toNat_add,
    UInt8.toNat_add, h15, h1, List.length_cons, List.length_singleton]
  omega

/-- A parameter that yields exactly one integer: a short number, or a list of at most eight
elements one of which is short. -/
def OneInteger (t : List UInt8) : Prop :=
  ¬ Overfull 8 t ∧ (shorts (allElements t)).length = 1

instance (t : List UInt8) : Decidable (OneInteger t) := by
  unfold OneInteger
  infer_instance

theorem ofNat_counted_eq_one_iff (t : List UInt8) :
    UInt8.ofNat (counted 8 t) = 1 ↔ OneInteger t := by
  have hle := counted_le 8 t
  have hshorts := length_shorts_le (looked 8 t)
  have hlook := length_looked_le (by decide : 0 < 8) t
  have hone : (1 : UInt8).toNat = 1 := rfl
  rw [← UInt8.toNat_inj, UInt8.toNat_ofNat', hone, OneInteger]
  rcases counted_cases 8 t with ⟨hover, hcnt⟩ | ⟨hover, hcnt⟩
  · exact iff_of_false (by omega) fun h => h.1 hover
  · rw [← hcnt]
    exact ⟨fun h => ⟨hover, by omega⟩, fun h => by omega⟩

end NetCamera
