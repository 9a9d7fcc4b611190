import NetCamera.Server.Capture
import NetCamera.Server.Image

/-!
# NetCamera.Server.Holes

Failing writes in the middle of an image.

The server notices two error codes; behind any other it goes on with the frame.
An image is `Good` as long as its bytes are the front of the frame, and `Holed`
once a write behind a failed one has been made; a failure that is not noticed
leads from the first to the second (`no_hole_iff`).
-/

namespace NetCamera

open Run

/-! ## Frames without a hole -/

/-- The bytes a call asks to be written. -/
def Call.asked : Call → Nat
  | write size _ _ => size
  | _ => 0

/-- The calls made for an image leave no hole: what is accepted is the front of its
frame, and after a failed write nothing more is written. -/
structure NoHole (frame : List UInt8) (cs : List Call) : Prop where
  front : accepted cs <+: frame
  stop : cs.Pairwise fun c d => c.failed = true → d.asked = 0

/-- As long as no write failed none has to be the last. -/
theorem pairwise_of_not_failed {cs : List Call} (h : ∀ c ∈ cs, c.failed = false) :
    cs.Pairwise fun c d => c.failed = true → d.asked = 0 := by
  refine List.Pairwise.imp_of_mem (R := fun _ _ => True) ?_
    (List.pairwise_of_forall fun _ _ => trivial)
  intro c d hc _ _ hfail
  rw [h c hc] at hfail
  cases hfail

/-! ## The steps of an image -/

/-- The event is a reboot. -/
def Event.isReboot : Event → Bool
  | reboot _ => true
  | _ => false

/-- A step of the writing of an image: a write or a frame interrupt, and the buffer shows
the bytes of `img` whenever they are handed to a write. -/
structure SendStep (b : FrameBuf) (img : List UInt8) (s : Server) (e : Event) : Prop where
  writes : s.pc.imageOf = some b
  alive : e.isReboot = false
  finds : s.Finds img

instance (s : Server) (img : List UInt8) : Decidable (s.Finds img) := by
  unfold Server.Finds
  split <;> infer_instance

instance (b : FrameBuf) (img : List UInt8) (s : Server) (e : Event) :
    Decidable (SendStep b img s e) :=
  decidable_of_iff (s.pc.imageOf = some b ∧ e.isReboot = false ∧ s.Finds img)
    ⟨fun h => ⟨h.1, h.2.1, h.2.2⟩, fun h => ⟨h.writes, h.alive, h.finds⟩⟩

/-- Within an image the thread only writes. -/
theorem sendStep_cases {b : FrameBuf} {img : List UInt8} {s s' : Server} {e : Event}
    (h : SendStep b img s e) (hstep : step s e = some s') :
    FrameStep s s' ∨ ∃ err, e = .ret err ∧ PartStep s err s' := by
  have hb := h.writes
  cases e with
  | frame ws => exact Or.inl (frameStep hstep)
  | ret err => exact Or.inr ⟨err, rfl, partStep hb hstep⟩
  | reboot mem => cases h.alive
  | tick =>
      cases hpc : s.pc <;> simp only [hpc, Pc.imageOf, reduceCtorEq] at hb <;>
        simp [step, tickStep, hpc] at hstep
  | recvd chain stk =>
      cases hpc : s.pc <;> simp only [hpc, Pc.imageOf, reduceCtorEq] at hb <;>
        simp [step, recvdStep, hpc] at hstep
  | recvFail err =>
      cases hpc : s.pc <;> simp only [hpc, Pc.imageOf, reduceCtorEq] at hb <;>
        simp [step, recvFailStep, hpc] at hstep

theorem atPart_frame {s₀ s s' : Server} {b : FrameBuf} {len : Nat} (h : AtPart s₀ b len s)
    (hf : FrameStep s s') : AtPart s₀ b len s' := by
  unfold AtPart at h ⊢
  rw [hf.pc, hf.send_logo, hf.cam]
  exact h

theorem whole_frame {s₀ s s' : Server} {b : FrameBuf} {img : List UInt8} {cs : List Call}
    (h : Whole s₀ b img cs s) (hf : FrameStep s s') : Whole s₀ b img cs s' where
  calls := hf.calls.trans h.calls
  kept := h.kept
  part := atPart_frame h.part hf
  pc := hf.pc ▸ h.pc
  frame := hf.pc ▸ h.frame

/-! ## Failing writes -/

/-- The write does not fail, or its failure is noticed, or it is the last one of the
frame. -/
def WriteKept (s : Server) (e : Event) : Prop :=
  ∀ err, e = .ret err → err = .ERR_OK ∨ err.gone = true ∨ ∃ b, s.pc = .endMark b

/-- The image is on its way, or has ended without a hole. -/
def Good (s₀ : Server) (b : FrameBuf) (img : List UInt8) (s : Server) : Prop :=
  ∃ cs, Whole s₀ b img cs s ∨ (s.calls = s₀.calls ++ cs ∧ s.pc.imageOf = none ∧
    NoHole (s₀.imageFrame img.length img) cs)

/-- A write has failed and the image goes on, or has a hole. -/
def Holed (s₀ : Server) (b : FrameBuf) (img : List UInt8) (s : Server) : Prop :=
  ∃ cs, s.calls = s₀.calls ++ cs ∧
    ((AtPart s₀ b img.length s ∧ s.pc.imageOf = some b ∧ ∃ c ∈ cs, c.failed = true) ∨
      ¬ cs.Pairwise fun c d => c.failed = true → d.asked = 0)

/-- A failed write behind which nothing more is asked for leaves no hole. -/
theorem noHole_of_last {s₀ s : Server} {b : FrameBuf} {img : List UInt8} {cs : List Call}
    (h : Whole s₀ b img cs s) {size : Nat} {bytes : List UInt8} {err : Err}
    (herr : err ≠ .ERR_OK) {ds : List Call} (hds : ∀ d ∈ ds, d = .close ∨ d = .delete) :
    NoHole (s₀.imageFrame img.length img) (cs ++ .write size bytes err :: ds) := by
  have hnone : accepted (.write size bytes err :: ds) = [] := by
    refine List.flatMap_eq_nil_iff.mpr fun c hc => ?_
    rcases List.mem_cons.mp hc with rfl | hc
    · cases err <;> first | rfl | exact absurd rfl herr
    · rcases hds c hc with rfl | rfl <;> rfl
  have hasked : ∀ d ∈ ds, d.asked = 0 := by
    intro d hd
    rcases hds d hd with rfl | rfl <;> rfl
  refine ⟨?_, List.pairwise_append.mpr ⟨pairwise_of_not_failed h.kept, ?_, ?_⟩⟩
  · rw [accepted_append, hnone, List.append_nil]
    exact h.front
  · refine List.pairwise_cons.mpr ⟨fun d hd _ => hasked d hd, ?_⟩
    exact List.Pairwise.imp_of_mem (R := fun _ _ => True) (fun _ hd _ _ => hasked _ hd)
      (List.pairwise_of_forall fun _ _ => trivial)
  · intro c hc d _ hfail
    rw [h.kept c hc] at hfail
    cases hfail

theorem good_step {s₀ : Server} {b : FrameBuf} {img : List UInt8} (s : Server) (e : Event)
    (s' : Server) (h : Good s₀ b img s) (hsend : SendStep b img s e) (hkept : WriteKept s e)
    (hstep : step s e = some s') : Good s₀ b img s' := by
  obtain ⟨cs, hwhole | ⟨-, hnone, -⟩⟩ := h
  · rcases sendStep_cases hsend hstep with hf | ⟨err, rfl, hpart⟩
    · exact ⟨cs, Or.inl (whole_frame hwhole hf)⟩
    · by_cases hok : err = .ERR_OK
      · subst hok
        exact ⟨_, Or.inl (whole_ok hwhole hsend.writes hsend.finds hpart)⟩
      · cases hgone : err.gone with
        | true =>
            refine ⟨cs ++ .write s.writeSize s.part err :: [.close, .delete], Or.inr ⟨?_, ?_, ?_⟩⟩
            · rw [hpart.calls, hwhole.calls, List.append_assoc, if_pos hgone]
            · rw [hpart.pc_gone hgone]
              rfl
            · exact noHole_of_last hwhole hok (by simp)
        | false =>
            -- the last write of the frame
            obtain ⟨b', hend⟩ := ((hkept err rfl).resolve_left hok).resolve_left (by simp [hgone])
            refine ⟨cs ++ .write s.writeSize s.part err :: [], Or.inr ⟨?_, ?_, ?_⟩⟩
            · rw [hpart.calls, hwhole.calls, List.append_assoc, if_neg (by simp [hgone])]
            · rw [hpart.pc_next hgone, Server.nextPc, hend]
              rfl
            · exact noHole_of_last hwhole hok (by simp)
  · rw [hsend.writes] at hnone
    cases hnone

theorem good_break {s₀ : Server} {b : FrameBuf} {img : List UInt8} (s : Server) (e : Event)
    (s' : Server) (h : Good s₀ b img s) (hsend : SendStep b img s e) (hkept : ¬ WriteKept s e)
    (hstep : step s e = some s') : Holed s₀ b img s' := by
  simp only [WriteKept, Classical.not_forall, not_or, not_exists] at hkept
  obtain ⟨err, rfl, hok, hgone, hend⟩ := hkept
  rw [Bool.not_eq_true] at hgone
  obtain ⟨cs, hwhole | ⟨-, hnone, -⟩⟩ := h
  · have hpart := partStep hsend.writes hstep
    refine ⟨cs ++ [.write s.writeSize s.part err], ?_, Or.inl ⟨?_, ?_, ?_⟩⟩
    · rw [hpart.calls, hwhole.calls, List.append_assoc, if_neg (by simp [hgone])]
    · exact atPart_write hwhole.part hsend.writes hpart
    · rw [hpart.pc_next hgone]
      exact (nextPc_imageOf hsend.writes).resolve_right fun h => hend b h.1
    · refine ⟨_, List.mem_append_right _ List.mem_cons_self, ?_⟩
      simpa [Call.failed] using hok
  · rw [hsend.writes] at hnone
    cases hnone

theorem jpegHeader_ne_nil (p : SavePara) : jpegHeader p ≠ [] := by
  rw [jpegHeader, (CreateJpegHeader_eq _ _ _ _ _).1]
  exact List.cons_ne_nil _ _

/-- The one write that may ask for nothing is that of the rest behind the chunks. -/
theorem writeSize_eq_zero {s₀ s s' : Server} {b : FrameBuf} {len : Nat} {err : Err}
    (h : AtPart s₀ b len s) (hb : s.pc.imageOf = some b) (hzero : s.writeSize = 0)
    (hstep : step s (.ret err) = some s') : err = .ERR_OK ∧ (s.nextPc err).imageOf = some b := by
  unfold AtPart at h
  unfold Server.writeSize at hzero
  cases hpc : s.pc <;> simp only [hpc, Pc.imageOf, reduceCtorEq, Option.some.injEq] at hb <;>
    subst hb <;> simp only [hpc] at h hzero
  case logo => cases hzero
  case header b' len' g_header =>
    rw [h.2.2] at hzero
    exact absurd (List.length_eq_zero_iff.mp hzero) (jpegHeader_ne_nil _)
  case chunk => cases hzero
  case tail b' len' =>
    by_cases herr : err = .ERR_OK
    · exact ⟨herr, by simp [Server.nextPc, hpc, Pc.imageOf]⟩
    · simp only [step, retStep, hpc, if_pos (And.intro hzero herr), reduceCtorEq] at hstep
  case endMark => cases hzero

theorem holed_step {s₀ : Server} {b : FrameBuf} {img : List UInt8} (s : Server) (e : Event)
    (s' : Server) (h : Holed s₀ b img s) (hsend : SendStep b img s e)
    (hstep : step s e = some s') : Holed s₀ b img s' := by
  obtain ⟨cs, hcalls, hcs⟩ := h
  rcases sendStep_cases hsend hstep with hf | ⟨err, rfl, hpart⟩
  · refine ⟨cs, hf.calls.trans hcalls, hcs.imp_left fun ⟨hat, hb, hfail⟩ => ?_⟩
    exact ⟨atPart_frame hat hf, hf.pc ▸ hb, hfail⟩
  · refine ⟨cs ++ .write s.writeSize s.part err :: (if err.gone then [.close, .delete] else []),
      by rw [hpart.calls, hcalls, List.append_assoc], ?_⟩
    rcases hcs with ⟨hat, hb, c, hc, hfail⟩ | hpair
    · by_cases hzero : s.writeSize = 0
      · obtain ⟨rfl, hnext⟩ := writeSize_eq_zero hat hb hzero hstep
        refine Or.inl ⟨atPart_write hat hb hpart, ?_, c, List.mem_append_left _ hc, hfail⟩
        rw [hpart.pc_next rfl]
        exact hnext
      · refine Or.inr fun hpair => hzero ?_
        exact (List.pairwise_append.mp hpair).2.2 c hc _ List.mem_cons_self hfail
    · exact Or.inr fun hpair' => hpair (List.pairwise_append.mp hpair').1

/-- **Holes**: while the server writes an image, the calls it makes leave no hole in the
frame exactly when every write before the end mark either succeeds or fails with
`ERR_CLSD` or `ERR_RST`. -/
theorem no_hole_iff {s s₁ u : Server} {b : FrameBuf} {img : List UInt8} {es : List Event}
    (hpc : s.pc = .readLen b) (hlen : img.length = s.jpeg_data_len * 4 % 2 ^ 32)
    (htick : step s .tick = some s₁) (hrun : RunBy step (SendStep b img) s₁ es u)
    (hend : u.pc.imageOf = none) :
    NoHole (s.imageFrame img.length img) (u.calls.drop s.calls.length) ↔
      Steps step WriteKept s₁ es := by
  obtain ⟨hgood, hbad⟩ := hrun.last_iff good_step good_break holed_step
    (⟨[], Or.inl (whole_start hpc hlen htick)⟩ : Good s b img s₁)
  by_cases hkept : Steps step WriteKept s₁ es
  · refine ⟨fun _ => hkept, fun _ => ?_⟩
    obtain ⟨cs, hwhole | ⟨hcalls, -, hno⟩⟩ := hgood hkept
    · rw [hwhole.calls, List.drop_left]
      exact ⟨hwhole.front, pairwise_of_not_failed hwhole.kept⟩
    · rw [hcalls, List.drop_left]
      exact hno
  · refine ⟨fun hno => ?_, fun h => absurd h hkept⟩
    obtain ⟨cs, hcalls, ⟨-, hb, -⟩ | hpair⟩ := hbad hkept
    · rw [hend] at hb
      cases hb
    · rw [hcalls, List.drop_left] at hno
      exact absurd hno.stop hpair

/-- The twelve bytes of the image of `oneImage`. -/
def threeWords : List UInt8 := [1, 0, 0, 0, 2, 0, 0, 0, 3, 0, 0, 0]

/-- The connection is reset while the JPEG header is written. -/
theorem no_hole_reset : ∃ s s₁ u : Server,
    run step (boot defaultFlash fun _ _ => 0) oneImage = some s ∧ step s .tick = some s₁ ∧
    run step s₁ [.ret .ERR_OK, .ret .ERR_RST] = some u ∧
    NoHole (s.imageFrame 12 threeWords) (u.calls.drop s.calls.length) := by
  have hend : ((run step (boot defaultFlash fun _ _ => 0) oneImage).bind fun s =>
      (step s .tick).bind fun s₁ => (run step s₁ [.ret .ERR_OK, .ret .ERR_RST]).map fun u =>
        (s.pc, s.jpeg_data_len, u.pc, decide (Steps step (SendStep .jpeg_data_buf threeWords) s₁
          [.ret .ERR_OK, .ret .ERR_RST]))) =
      some (.readLen .jpeg_data_buf, 3, .accept, true) := by decide +kernel
  obtain ⟨s, s₁, u, hs, hs₁, hu, hr⟩ := exists_of_stretches hend
  simp only [Prod.mk.injEq] at hr
  obtain ⟨hpc, hlen, hend, hsend⟩ := hr
  have himg : threeWords.length = s.jpeg_data_len * 4 % 2 ^ 32 := by
    rw [hlen]
    rfl
  refine ⟨s, s₁, u, hs, hs₁, hu, (no_hole_iff hpc himg hs₁
    ⟨hu, of_decide_eq_true hsend⟩ ?_).mpr ?_⟩
  · rw [hend]
    rfl
  · refine ⟨?_, fun _ _ => ⟨?_, fun _ _ => trivial⟩⟩
    · intro err herr
      cases herr
      exact Or.inl rfl
    · intro err herr
      cases herr
      exact Or.inr (Or.inl rfl)

/-- lwIP has no memory for the image header, and the JPEG header is sent without it. -/
theorem hole_sent :
    ¬ ∀ (f : Flash) (mem : FrameBuf → Nat → BitVec 32) (es fs : List Event) (s s₁ u : Server)
      (b : FrameBuf) (img : List UInt8), run step (boot f mem) es = some s → s.pc = .readLen b →
        img.length = s.jpeg_data_len * 4 % 2 ^ 32 → step s .tick = some s₁ →
        RunBy step (SendStep b img) s₁ fs u →
        NoHole (s.imageFrame img.length img) (u.calls.drop s.calls.length) := by
  intro h
  have hend : ((run step (boot defaultFlash fun _ _ => 0) oneImage).bind fun s =>
      (step s .tick).bind fun s₁ => (run step s₁ [.ret .ERR_MEM, .ret .ERR_OK]).map fun u =>
        (s.pc, s.jpeg_data_len, decide (Steps step (SendStep .jpeg_data_buf threeWords) s₁
            [.ret .ERR_MEM, .ret .ERR_OK]),
          decide (accepted (u.calls.drop s.calls.length) <+: s.imageFrame 12 threeWords))) =
      some (.readLen .jpeg_data_buf, 3, true, false) := by decide +kernel
  obtain ⟨s, s₁, u, hs, hs₁, hu, hr⟩ := exists_of_stretches hend
  simp only [Prod.mk.injEq] at hr
  obtain ⟨hpc, hlen, hsend, hfront⟩ := hr
  have hno := h _ _ _ _ _ _ _ _ threeWords hs hpc (by rw [hlen]; rfl) hs₁
    ⟨hu, of_decide_eq_true hsend⟩
  exact absurd hno.front (of_decide_eq_false hfront)

end NetCamera
