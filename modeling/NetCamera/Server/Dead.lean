import NetCamera.Server.Capture
import NetCamera.Server.Resources

/-!
# NetCamera.Server.Dead

A connection that lwIP has given up.

Once `last_err` of a connection is fatal, every `netconn_write` of at least one
byte and every `netconn_recv` on it returns that code (`DeadRun`).  The server
tests for two of the fatal codes: with these the first image it finds makes it
close the connection (`givenUp_of_gone`), with any other it goes around the loop
for ever (`not_givenUp`).
-/

namespace NetCamera

open Run

/-! ## Fatal codes -/

/-- The number of an `err_t`. -/
def Err.code : Err → Int
  | ERR_OK => 0 | ERR_MEM => -1 | ERR_BUF => -2 | ERR_TIMEOUT => -3 | ERR_RTE => -4
  | ERR_INPROGRESS => -5 | ERR_VAL => -6 | ERR_WOULDBLOCK => -7 | ERR_USE => -8
  | ERR_ISCONN => -9 | ERR_ABRT => -10 | ERR_RST => -11 | ERR_CLSD => -12 | ERR_CONN => -13
  | ERR_ARG => -14 | ERR_IF => -15

/-- `ERR_IS_FATAL(e)`. -/
def ERR_IS_FATAL (e : Err) : Bool := e.code < Err.ERR_ISCONN.code

theorem gone_iff (e : Err) : e.gone = true ↔ e = .ERR_CLSD ∨ e = .ERR_RST := by
  cases e <;> decide

theorem ne_ok_of_fatal {e : Err} (h : ERR_IS_FATAL e = true) : e ≠ .ERR_OK := by
  rintro rfl
  cases h

/-! ## Runs on a dead connection -/

/-- The inner loop of the thread. -/
def Pc.inLoop : Pc → Bool
  | accept => false
  | reset => false
  | fault => false
  | _ => true

/-- What `netconn_write` returns on a connection whose error is `e`. -/
def Server.deadWrite (s : Server) (e : Err) : Err := if s.writeSize = 0 then .ERR_OK else e

/-- What the thread does next on a connection whose error is `e`. -/
def deadEvent (e : Err) (s : Server) : Option Event :=
  match s.pc with
  | .accept => none
  | .reset => none
  | .fault => none
  | .check1 => some .tick
  | .check2 => some .tick
  | .readLen _ => some .tick
  | .idle => some .tick
  | .ack _ => some .tick
  | .recv _ => some (.recvFail e)
  | _ => some (.ret (s.deadWrite e))

/-- A step of the thread on a dead connection, or a frame interrupt. -/
def Dead (e : Err) (s : Server) (ev : Event) : Prop :=
  ev.isFrame = true ∨ deadEvent e s = some ev

/-- A run in which every write of at least one byte and every receive returns `e`, as
long as the connection is there. -/
abbrev DeadRun (e : Err) : Server → List Event → Server → Prop := RunBy step (Dead e)

/-- The steps of the thread in a run. -/
def threadSteps (es : List Event) : Nat := es.countP fun ev => !ev.isFrame

/-- The connection has been given up: closed and deleted once since `s`, behind
writes. -/
def ClosedSince (s t : Server) : Prop :=
  t.pc = .accept ∧ ∃ cs, t.calls = s.calls ++ cs ++ [.close, .delete] ∧ ∀ c ∈ cs, c.isWrite = true

/-- The connection is given up before the loop iteration that `s` is in ends: within
some number of steps of the thread, none of which the thread is kept from. -/
def GivenUp (e : Err) (s : Server) : Prop :=
  ∃ n, ∀ es t, DeadRun e s es t → ClosedSince s t ∨
    (t.pc ≠ .check1 ∧ threadSteps es < n ∧
      ∃ ev, deadEvent e t = some ev ∧ (step t ev).isSome = true)

/-- From `s` on, the first iteration that finds an image ready gives the connection
up. -/
def GivesUp (e : Err) (s : Server) : Prop :=
  ∀ es t b, DeadRun e s es t → t.pc = .readLen b → GivenUp e t

/-- A run has no step of the thread, or frame interrupts up to its first one, which
comes from a state `r` that differs from `s` in the capture alone. -/
theorem deadRun_first {e : Err} {s t : Server} {es : List Event} (h : DeadRun e s es t) :
    (t.pc = s.pc ∧ t.calls = s.calls ∧ threadSteps es = 0) ∨
    ∃ r ev s' fs, r.pc = s.pc ∧ r.calls = s.calls ∧ r.err = s.err ∧ deadEvent e r = some ev ∧
      step r ev = some s' ∧ DeadRun e s' fs t ∧ threadSteps es = threadSteps fs + 1 := by
  induction es generalizing s with
  | nil =>
      have hs := runBy_nil h
      subst hs
      exact Or.inl ⟨rfl, rfl, rfl⟩
  | cons ev es ih =>
      obtain ⟨hdead, s', hstep, hrest⟩ := runBy_cons.mp h
      cases hframe : ev.isFrame with
      | true =>
          have hcount : threadSteps (ev :: es) = threadSteps es := by simp [threadSteps, hframe]
          cases ev <;> cases hframe
          obtain ⟨hpc, hcalls, herr, -, -⟩ := frameStep hstep
          rw [hcount]
          rcases ih hrest with ⟨hpc', hcalls', hno⟩ | ⟨r, ev, s'', fs, hpc', hcalls', herr', hr⟩
          · exact Or.inl ⟨hpc'.trans hpc, hcalls'.trans hcalls, hno⟩
          · exact Or.inr ⟨r, ev, s'', fs, hpc'.trans hpc, hcalls'.trans hcalls, herr'.trans herr,
              hr⟩
      | false =>
          have hcount : threadSteps (ev :: es) = threadSteps es + 1 := by simp [threadSteps, hframe]
          have hev : deadEvent e s = some ev := hdead.resolve_left (by simp [hframe])
          exact Or.inr ⟨s, ev, s', es, rfl, rfl, rfl, hev, hstep, hrest, hcount⟩

/-! ## The two codes that are tested -/

/-- After the connection is given up only frame interrupts come. -/
theorem deadRun_accept {e : Err} {s t : Server} {es : List Event} (hpc : s.pc = .accept)
    (h : DeadRun e s es t) : t.pc = .accept ∧ t.calls = s.calls := by
  rcases deadRun_first h with ⟨hpc', hcalls', -⟩ | ⟨r, ev, s', fs, hr, -, -, hev, -⟩
  · exact ⟨hpc'.trans hpc, hcalls'⟩
  · simp [deadEvent, hr, hpc] at hev

theorem step_logo_gone {s : Server} {e : Err} {b : FrameBuf} {len : Nat} (hgone : e.gone = true)
    (hpc : s.pc = .logo b len) :
    step s (.ret e) = some (s.wrote 16 s.send_logo e).giveUp := by
  simp only [step, retStep, hpc, hgone, if_true]

/-- The write of the image header finds the connection gone. -/
theorem deadRun_logo {e : Err} (hgone : e.gone = true) {s t : Server} {es : List Event}
    {b : FrameBuf} {len : Nat} (hpc : s.pc = .logo b len) (h : DeadRun e s es t) :
    ClosedSince s t ∨ (t.pc = .logo b len ∧ threadSteps es = 0) := by
  rcases deadRun_first h with ⟨hpc', -, hno⟩ | ⟨r, ev, s', fs, hr, hcalls, -, hev, hstep, hrest, -⟩
  · exact Or.inr ⟨hpc'.trans hpc, hno⟩
  · have hret : ev = .ret e := by
      simpa [deadEvent, hr, hpc, Server.deadWrite, Server.writeSize, eq_comm] using hev
    subst hret
    rw [step_logo_gone hgone (hr.trans hpc), Option.some.injEq] at hstep
    subst hstep
    obtain ⟨hacc, hcalls'⟩ := deadRun_accept rfl hrest
    refine Or.inl ⟨hacc, [.write 16 r.send_logo e], ?_, by simp [Call.isWrite]⟩
    rw [hcalls', ← hcalls]
    rfl

/-- **A tested code**: the iteration that finds an image gives the connection up, in
two steps of the thread. -/
theorem givenUp_of_gone {e : Err} (hgone : e.gone = true) {s : Server} {b : FrameBuf}
    (hpc : s.pc = .readLen b) : GivenUp e s := by
  refine ⟨2, fun es t h => ?_⟩
  rcases deadRun_first h with
    ⟨hpc', -, hno⟩ | ⟨r, ev, s', fs, hr, hcalls, -, hev, hstep, hrest, hcount⟩
  · rw [hpc] at hpc'
    refine Or.inr ⟨by simp [hpc'], by omega, .tick, by simp [deadEvent, hpc'], ?_⟩
    simp [step, tickStep, hpc']
  · have htick : ev = .tick := by simpa [deadEvent, hr, hpc, eq_comm] using hev
    subst htick
    simp only [step, tickStep, hr, hpc, Option.some.injEq] at hstep
    subst hstep
    rcases deadRun_logo hgone rfl hrest with ⟨hacc, cs, hcs, hw⟩ | ⟨hlogo, hsteps⟩
    · exact Or.inl ⟨hacc, cs, hcalls ▸ hcs, hw⟩
    · refine Or.inr ⟨by simp [hlogo], by omega, .ret e, ?_, ?_⟩
      · simp [deadEvent, hlogo, Server.deadWrite, Server.writeSize]
      · rw [step_logo_gone hgone hlogo]
        rfl

/-! ## The other codes -/

/-- On a dead connection the server gets from `P` to `P'`. -/
abbrev DeadLeads (e : Err) : (Server → Prop) → (Server → Prop) → Prop := Leads step (Dead e)

/-- The thread makes a step on a dead connection. -/
theorem leads_of_step {e : Err} {P P' : Server → Prop}
    (h : ∀ s, P s → ∃ ev s', deadEvent e s = some ev ∧ step s ev = some s' ∧ P' s') :
    DeadLeads e P P' := by
  refine Leads.of_step fun s hs => ?_
  obtain ⟨ev, s', hev, hstep, hs'⟩ := h s hs
  exact ⟨ev, s', Or.inr hev, hstep, hs'⟩

theorem goOn_err (s : Server) (e : Err) (pc : Pc) : (s.goOn e pc).err = s.err := by
  unfold Server.goOn
  split <;> rfl

section untested

variable {e : Err} (hok : e ≠ .ERR_OK) (hgone : e.gone = false)
include hok hgone

omit hok in
/-- What a write on the dead connection returns is not tested for. -/
theorem deadWrite_not_gone (s : Server) : (s.deadWrite e).gone = false := by
  unfold Server.deadWrite
  split
  · rfl
  · exact hgone

/-- The writes of an image fail one after the other, and the thread makes them all but
the chunks behind the first. -/
theorem leads_endMark (b : FrameBuf) :
    DeadLeads e (fun s => s.pc = .readLen b) (fun s => s.pc = .endMark b) := by
  have hlogo : DeadLeads e (fun s => s.pc = .readLen b) (fun s => ∃ len, s.pc = .logo b len) :=
    leads_of_step fun s hpc => ⟨.tick, _, by simp [deadEvent, hpc],
      by simp [step, tickStep, hpc]; rfl, _, rfl⟩
  have hheader : DeadLeads e (fun s => ∃ len, s.pc = .logo b len)
      (fun s => ∃ len g_header, s.pc = .header b len g_header) := by
    refine leads_of_step ?_
    rintro s ⟨len, hpc⟩
    refine ⟨.ret e, { s.wrote 16 s.send_logo e with
      cam := (MT9D111_Greate_Header s.cam).1
      pc := .header b len (MT9D111_Greate_Header s.cam).2 }, ?_, ?_, len, _, rfl⟩
    · simp [deadEvent, hpc, Server.deadWrite, Server.writeSize]
    · simp only [step, retStep, hpc, hgone, Bool.false_eq_true, if_false]
      rfl
  have hchunk : DeadLeads e (fun s => ∃ len g_header, s.pc = .header b len g_header)
      (fun s => ∃ len, s.pc = chunkPc b len 0) := by
    refine leads_of_step ?_
    rintro s ⟨len, g_header, hpc⟩
    refine ⟨.ret (s.deadWrite e),
      (s.wrote g_header.length g_header (s.deadWrite e)).goOn (s.deadWrite e) (chunkPc b len 0),
      ?_, ?_, len, goOn_of_not_gone (deadWrite_not_gone hgone s)⟩
    · simp [deadEvent, hpc]
    · simp only [step, retStep, hpc]
  have htail : DeadLeads e (fun s => ∃ len, s.pc = chunkPc b len 0)
      (fun s => ∃ len, s.pc = .tail b len) := by
    rintro s ⟨len, hpc⟩
    unfold chunkPc at hpc
    split at hpc
    · refine leads_of_step (P := fun s => s.pc = .chunk b len 0) (fun s hpc => ?_) s hpc
      refine ⟨.ret e, (s.wrote 1024 (imageBytes (s.mem b) (0 * 1024) 1024) e).goOn e (.tail b len),
        ?_, ?_, len, goOn_of_not_gone hgone⟩
      · simp [deadEvent, hpc, Server.deadWrite, Server.writeSize]
      · simp only [step, retStep, hpc, hok, ne_eq, not_false_eq_true, if_true]
    · exact ⟨[], s, .refl _ s, len, hpc⟩
  have hend : DeadLeads e (fun s => ∃ len, s.pc = .tail b len) (fun s => s.pc = .endMark b) := by
    refine leads_of_step ?_
    rintro s ⟨len, hpc⟩
    refine ⟨.ret (s.deadWrite e),
      (s.wrote (len % 1024) (imageBytes (s.mem b) (len / 1024 * 1024) (len % 1024))
        (s.deadWrite e)).goOn (s.deadWrite e) (.endMark b),
      ?_, ?_, goOn_of_not_gone (deadWrite_not_gone hgone s)⟩
    · simp [deadEvent, hpc]
    · have hsize : ¬ (len % 1024 = 0 ∧ s.deadWrite e ≠ .ERR_OK) := by
        intro h
        exact h.2 (by simp [Server.deadWrite, Server.writeSize, hpc, h.1])
      simp only [step, retStep, hpc, if_neg hsize]
  exact (((hlogo.trans hheader).trans hchunk).trans htail).trans hend

/-- From the end of the image the thread gets back to the top of the loop. -/
theorem leads_check1 (b : FrameBuf) :
    DeadLeads e (fun s => s.pc = .endMark b) (fun s => s.pc = .check1) := by
  have hrecv : DeadLeads e (fun s => s.pc = .endMark b)
      (fun s => s.pc = .recv (.image b) ∧ s.err = e) := by
    refine leads_of_step fun s hpc => ⟨.ret e,
      (s.wrote 2 send_end e).goOn e (.recv (.image b)), ?_, ?_,
      goOn_of_not_gone hgone, goOn_err _ _ _⟩
    · simp [deadEvent, hpc, Server.deadWrite, Server.writeSize]
    · simp only [step, retStep, hpc]
  have hfail (ctx : RecvCtx) : DeadLeads e (fun s => s.pc = .recv ctx ∧ s.err = e)
      (fun s => s.pc = ctx.next ∧ s.err = e) := by
    have hclsd : e ≠ .ERR_CLSD := by
      rintro rfl
      cases hgone
    refine leads_of_step ?_
    rintro s ⟨hpc, herr⟩
    refine ⟨.recvFail e, { s with pc := ctx.next }, ?_, ?_, rfl, herr⟩
    · simp [deadEvent, hpc]
    · simp only [step, recvFailStep, hpc, if_neg hok, if_neg hclsd]
  have hidle : DeadLeads e (fun s => s.pc = .idle ∧ s.err = e)
      (fun s => s.pc = .recv .idle ∧ s.err = e) := by
    refine leads_of_step ?_
    rintro s ⟨hpc, herr⟩
    refine ⟨.tick, s.goOn s.err (.recv .idle), ?_, ?_, ?_, ?_⟩
    · simp [deadEvent, hpc]
    · simp only [step, tickStep, hpc]
    · exact goOn_of_not_gone (by rw [herr]; exact hgone)
    · rw [goOn_err, herr]
  have hback : DeadLeads e (fun s => s.pc = .ack b ∧ s.err = e) (fun s => s.pc = .check1) := by
    cases b with
    | jpeg_data_buf2 =>
        exact leads_of_step fun s hs =>
          ⟨.tick, { s with jpeg_data_ok := .processed, pc := .check1 },
          by simp [deadEvent, hs.1], by simp only [step, tickStep, hs.1], rfl⟩
    | jpeg_data_buf =>
        -- the second test comes next and finds no image
        have hcheck : DeadLeads e (fun s => s.pc = .ack .jpeg_data_buf ∧ s.err = e)
            (fun s => s.pc = .check2 ∧ s.jpeg_data_ok = .processed ∧ s.err = e) :=
          leads_of_step fun s hs =>
            ⟨.tick, { s with jpeg_data_ok := .processed, pc := .check2 },
            by simp [deadEvent, hs.1], by simp only [step, tickStep, hs.1], rfl, rfl, hs.2⟩
        have hno : DeadLeads e (fun s => s.pc = .check2 ∧ s.jpeg_data_ok = .processed ∧ s.err = e)
            (fun s => s.pc = .idle ∧ s.err = e) :=
          leads_of_step fun s hs => ⟨.tick, { s with pc := .idle },
            by simp [deadEvent, hs.1], by simp [step, tickStep, hs.1, hs.2.1], rfl, hs.2.2⟩
        exact (((hcheck.trans hno).trans hidle).trans (hfail .idle)).trans
          (.of_imp fun s hs => hs.1)
  exact (hrecv.trans (hfail (.image b))).trans hback

/-- **Any other code**: the iteration that finds an image does not give the connection
up. -/
theorem not_givenUp {s : Server} {b : FrameBuf} (hpc : s.pc = .readLen b) : ¬ GivenUp e s := by
  rintro ⟨n, hall⟩
  obtain ⟨es, t, hrun, hcheck⟩ :=
    ((leads_endMark hok hgone b).trans (leads_check1 hok hgone b)) s hpc
  rcases hall es t hrun with ⟨hacc, -⟩ | ⟨hne, -⟩
  · rw [hcheck] at hacc
    cases hacc
  · exact hne hcheck

end untested

/-- **Dead connections**: a fatal code makes the server give the connection up, from
every state of the inner loop and with any frame interrupts, exactly when it is
`ERR_CLSD` or `ERR_RST`. -/
theorem gives_up_iff {e : Err} (hfatal : ERR_IS_FATAL e = true) :
    (∀ s : Server, s.pc.inLoop = true → GivesUp e s) ↔ e = .ERR_CLSD ∨ e = .ERR_RST := by
  rw [← gone_iff]
  constructor
  · intro hall
    cases hgone : e.gone with
    | true => rfl
    | false =>
        have hups := hall { boot (fun _ => NorFlash.blank) (fun _ _ => 0) with
          pc := .readLen .jpeg_data_buf } rfl
        exact absurd (hups [] _ .jpeg_data_buf (.refl _ _) rfl)
          (not_givenUp (ne_ok_of_fatal hfatal) hgone rfl)
  · intro hgone s _ es t b _ hpc
    exact givenUp_of_gone hgone hpc

theorem gives_up_clsd : ERR_IS_FATAL .ERR_CLSD = true ∧
    ((∀ s : Server, s.pc.inLoop = true → GivesUp .ERR_CLSD s) ↔
      Err.ERR_CLSD = .ERR_CLSD ∨ Err.ERR_CLSD = .ERR_RST) :=
  ⟨rfl, gives_up_iff rfl⟩

/-- lwIP aborts the connection when the client is unplugged: the server never
notices. -/
theorem never_given_up :
    ¬ ∀ (f : Flash) (mem : FrameBuf → Nat → BitVec 32) (es : List Event) (s : Server) (e : Err),
      run step (boot f mem) es = some s → s.pc.inLoop = true → ERR_IS_FATAL e = true →
        GivesUp e s := by
  intro h
  have hend : (run step (boot defaultFlash fun _ _ => 0) oneImage).map Server.pc =
      some (.readLen .jpeg_data_buf) := by decide +kernel
  obtain ⟨s, hrun, hpc⟩ := Option.map_eq_some_iff.mp hend
  have hups := h _ _ _ s .ERR_ABRT hrun (by rw [hpc]; rfl) rfl
  exact not_givenUp (fun h => by cases h) rfl hpc (hups [] s .jpeg_data_buf (.refl _ s) hpc)

end NetCamera
