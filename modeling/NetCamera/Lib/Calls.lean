import NetCamera.Lib.Run

/-!
# Calls

Programs that call a machine, and the machine at work.

A program is a value, or a call with what follows each answer to it.  `Runs p cs a`
says that `p` returns `a` when its calls are answered as in `cs`, whoever answers.

A `Machine` answers calls out of a state that changes by itself, too.  A call may
take several steps: the machine takes it without an answer, and it does not serve
a caller that has to wait.  Whatever happens between the steps, a program returns
what it returns on the answers it was given (`runs_of_run`).
-/

namespace Calls

open Run

variable {Q α β σ ε : Type} {A : Q → Type}

/-! ## Programs -/

/-- A program: each call `q` is answered by an `A q`. -/
inductive Prog (A : Q → Type) (α : Type) where
  | ret (a : α)
  | call (q : Q) (k : A q → Prog A α)

/-- A call and nothing else. -/
def ask (q : Q) : Prog A (A q) := .call q .ret

instance decidableRet [DecidableEq α] (a : α) : (p : Prog A α) → Decidable (p = .ret a)
  | .ret a' => decidable_of_iff (a' = a) ⟨congrArg Prog.ret, Prog.ret.inj⟩
  | .call _ _ => .isFalse nofun

/-- One program and then another. -/
def Prog.bind : Prog A α → (α → Prog A β) → Prog A β
  | .ret a, f => f a
  | .call q k, f => .call q fun b => (k b).bind f

instance : Monad (Prog A) where
  pure := .ret
  bind := Prog.bind

/-- Calls with their answers, in order. -/
abbrev Answers (A : Q → Type) := List (Sigma A)

/-- With these answers the program returns `r`. -/
def Runs : Prog A α → Answers A → α → Prop
  | .ret a, cs, r => cs = [] ∧ a = r
  | .call q k, cs, r => ∃ b rest, cs = ⟨q, b⟩ :: rest ∧ Runs (k b) rest r

/-- An answer goes to what follows the call. -/
theorem runs_call {q : Q} {k : A q → Prog A α} {b : A q} {cs : Answers A} {r : α} :
    Runs (.call q k) (⟨q, b⟩ :: cs) r ↔ Runs (k b) cs r := by
  constructor
  · rintro ⟨b', rest, heq, hrest⟩
    obtain ⟨hb, rfl⟩ := List.cons.inj heq
    obtain rfl := eq_of_heq (Sigma.mk.inj hb).2
    exact hrest
  · exact fun h => ⟨b, cs, rfl, h⟩

/-- The answers to one program come before those to the next. -/
theorem runs_bind {p : Prog A α} {f : α → Prog A β} {cs : Answers A} {r : β} :
    Runs (p >>= f) cs r ↔ ∃ as bs a, cs = as ++ bs ∧ Runs p as a ∧ Runs (f a) bs r := by
  induction p generalizing cs with
  | ret a =>
      constructor
      · exact fun h => ⟨[], cs, a, rfl, ⟨rfl, rfl⟩, h⟩
      · rintro ⟨as, bs, a', rfl, ⟨rfl, rfl⟩, h⟩
        exact h
  | call q k ih =>
      constructor
      · rintro ⟨b, rest, rfl, h⟩
        obtain ⟨as, bs, a, rfl, hp, hf⟩ := (ih b).mp h
        exact ⟨⟨q, b⟩ :: as, bs, a, rfl, ⟨b, as, rfl, hp⟩, hf⟩
      · rintro ⟨_, bs, a, rfl, ⟨b, as, rfl, hp⟩, hf⟩
        exact ⟨b, as ++ bs, rfl, (ih b).mpr ⟨as, bs, a, rfl, hp, hf⟩⟩

/-- Each call of the program is in `P`, whatever was answered before it. -/
def Prog.OnlyCalls (P : Q → Prop) : Prog A α → Prop
  | .ret _ => True
  | .call q k => P q ∧ ∀ b, (k b).OnlyCalls P

theorem Prog.OnlyCalls.mono {P P' : Q → Prop} {p : Prog A α} (h : p.OnlyCalls P)
    (hP : ∀ q, P q → P' q) : p.OnlyCalls P' := by
  induction p with
  | ret a => trivial
  | call q k ih => exact ⟨hP q h.1, fun b => ih b (h.2 b)⟩

/-- So are the calls of each run. -/
theorem calls_of_runs {P : Q → Prop} {p : Prog A α} (h : p.OnlyCalls P) {cs : Answers A} {r : α}
    (hr : Runs p cs r) : ∀ c ∈ cs, P c.1 := by
  induction p generalizing cs with
  | ret a =>
      obtain ⟨rfl, -⟩ := hr
      exact List.forall_mem_nil _
  | call q k ih =>
      obtain ⟨b, rest, rfl, hrest⟩ := hr
      exact List.forall_mem_cons.mpr ⟨h.1, ih b (h.2 b) hrest⟩

/-! ## The machine at work -/

/-- What answers the calls, and what else happens.  `serve` is `none` while the caller has to
wait; else the call is answered, or taken and not answered yet. -/
structure Machine (A : Q → Type) (σ ε : Type) where
  serve : (q : Q) → σ → Option (Option (A q) × σ)
  env : ε → σ → σ

/-- The caller goes on, or something else happens. -/
inductive Event (ε : Type) where
  | go
  | env (e : ε)
  deriving DecidableEq, Repr

/-- A program at work: what is left of it, the machine, and the answers so far. -/
structure Thread (A : Q → Type) (σ α : Type) where
  prog : Prog A α
  state : σ
  log : Answers A

/-- A program that was just called. -/
def Thread.start (p : Prog A α) (s : σ) : Thread A σ α := ⟨p, s, []⟩

/-- The program goes from its call on. -/
def Thread.answer (t : Thread A σ α) (q : Q) (k : A q → Prog A α) : Option (A q) × σ → Thread A σ α
  | (none, s) => { t with state := s }
  | (some b, s) => ⟨k b, s, t.log ++ [⟨q, b⟩]⟩

/-- One event. -/
def Machine.step (M : Machine A σ ε) (t : Thread A σ α) : Event ε → Option (Thread A σ α)
  | .env e => some { t with state := M.env e t.state }
  | .go =>
    match t.prog with
    | .ret _ => none
    | .call q k => (M.serve q t.state).map (t.answer q k)

section machine

variable {M : Machine A σ ε} {t t' : Thread A σ α} {p : Prog A α}

/-- The caller goes on: what it called is served. -/
theorem step_go (h : M.step t .go = some t') : ∃ q k ans s, t.prog = .call q k ∧
    M.serve q t.state = some (ans, s) ∧ t' = t.answer q k (ans, s) := by
  cases hprog : t.prog with
  | ret a => simp [Machine.step, hprog] at h
  | call q k =>
      simp only [Machine.step, hprog, Option.map_eq_some_iff] at h
      obtain ⟨⟨ans, s⟩, hserve, rfl⟩ := h
      exact ⟨q, k, ans, s, rfl, hserve, rfl⟩

/-- And it does so when it can be served. -/
theorem step_of_serve {q : Q} {k : A q → Prog A α} {r : Option (A q) × σ}
    (hprog : t.prog = .call q k) (hserve : M.serve q t.state = some r) :
    M.step t .go = some (t.answer q k r) := by
  simp only [Machine.step, hprog, hserve, Option.map_some]

/-- What is left of `p` returns what `p` returns. -/
def Thread.Follows (t : Thread A σ α) (p : Prog A α) : Prop :=
  ∀ cs r, Runs t.prog cs r → Runs p (t.log ++ cs) r

theorem follows_start (p : Prog A α) (s : σ) : (Thread.start p s).Follows p := fun _ _ h => h

/-- **An event keeps the answers and the program together.** -/
theorem Thread.Follows.step (h : t.Follows p) {e : Event ε} (hstep : M.step t e = some t') :
    t'.Follows p := by
  cases e with
  | env e =>
      cases hstep
      exact h
  | go =>
      obtain ⟨q, k, ans, s, hprog, -, rfl⟩ := step_go hstep
      cases ans with
      | none => exact h
      | some b =>
          intro cs r hr
          have hcall : Runs t.prog (⟨q, b⟩ :: cs) r := by
            rw [hprog]
            exact runs_call.mpr hr
          have hp := h _ _ hcall
          rwa [List.append_cons] at hp

/-- **What a program returns at work** it returns on the answers it was given. -/
theorem runs_of_run {s : σ} {es : List (Event ε)} {a : α}
    (hrun : run M.step (Thread.start p s) es = some t) (hret : t.prog = .ret a) :
    Runs p t.log a := by
  have hfollows := run_invariant (I := fun t : Thread A σ α => t.Follows p)
    (fun _ _ _ h hstep => h.step hstep) (follows_start p s) hrun
  have hp := hfollows [] a (by rw [hret]; exact ⟨rfl, rfl⟩)
  rwa [List.append_nil] at hp

/-- Answers are kept. -/
theorem log_run {es : List (Event ε)} (hrun : run M.step t es = some t') :
    ∃ cs, t'.log = t.log ++ cs := by
  induction es generalizing t with
  | nil =>
      cases hrun
      exact ⟨[], (List.append_nil _).symm⟩
  | cons e es ih =>
      obtain ⟨s, hstep, hrest⟩ := run_cons_eq_some.mp hrun
      obtain ⟨cs, hcs⟩ := ih hrest
      cases e with
      | env e =>
          cases hstep
          exact ⟨cs, hcs⟩
      | go =>
          obtain ⟨q, k, ans, s', -, -, rfl⟩ := step_go hstep
          cases ans with
          | none => exact ⟨cs, hcs⟩
          | some b =>
              refine ⟨⟨q, b⟩ :: cs, ?_⟩
              rw [hcs]
              exact List.append_assoc _ _ _

/-- A program returns at the answer to its last call. -/
theorem last_answer {a : α} (hstep : M.step t .go = some t') (hret : t'.prog = .ret a) :
    ∃ q b, M.serve q t.state = some (some b, t'.state) ∧ t'.log = t.log ++ [⟨q, b⟩] := by
  obtain ⟨q, k, ans, s, hprog, hserve, rfl⟩ := step_go hstep
  cases ans with
  | none =>
      have hcall : t.prog = .ret a := hret
      rw [hprog] at hcall
      cases hcall
  | some b => exact ⟨q, b, hserve, rfl⟩

/-- While the caller does not go on, only the machine changes. -/
theorem run_env (es : List ε) : run M.step t (es.map .env) =
    some { t with state := es.foldl (fun s e => M.env e s) t.state } := by
  induction es generalizing t with
  | nil => rfl
  | cons e es ih =>
      rw [List.map_cons, run_cons, Machine.step, Option.bind_some, ih]
      rfl

end machine

/-! ## Simulation -/

/-- What happened at the machine besides the calls. -/
def envs (es : List (Event ε)) : List ε :=
  es.filterMap fun
    | .go => none
    | .env e => some e

theorem envs_append (es fs : List (Event ε)) : envs (es ++ fs) = envs es ++ envs fs :=
  List.filterMap_append

theorem envs_map_env (es : List ε) : envs (es.map .env) = es := by
  induction es with
  | nil => rfl
  | cons e es ih => exact congrArg (e :: ·) ih

theorem count_envs [DecidableEq ε] (e : ε) (es : List (Event ε)) :
    (envs es).count e = es.count (.env e) := by
  induction es with
  | nil => rfl
  | cons e' es ih =>
      cases e' with
      | go => exact ih.trans (List.count_cons_of_ne (by simp)).symm
      | env e' =>
          rw [List.count_cons, ← ih]
          simp [envs, List.count_cons]

/-- A condition on what happens at the machine. -/
def OnEnv (Q : σ → ε → Prop) (t : Thread A σ α) (e : Event ε) : Prop :=
  ∀ e', e = .env e' → Q t.state e'

instance decidableOnEnv {Q : σ → ε → Prop} [∀ s e, Decidable (Q s e)] (t : Thread A σ α) :
    (e : Event ε) → Decidable (OnEnv Q t e)
  | .go => .isTrue nofun
  | .env e => decidable_of_iff (Q t.state e)
      ⟨fun h _ he => Event.env.inj he ▸ h, fun h => h e rfl⟩

/-- Two threads that have the same left to do and were answered the same. -/
structure Alike {σ' : Type} (R : σ → σ' → Prop) (t : Thread A σ α) (t' : Thread A σ' α) : Prop where
  prog : t'.prog = t.prog
  log : t'.log = t.log
  state : R t.state t'.state

/-- **Simulation**: a machine whose calls are answered as those of `M'`, but may take more steps
until they are, and at which each event stands for some of `M'`, runs a program as `M'` does. -/
theorem simulates {σ' ε' : Type} {M : Machine A σ ε} {M' : Machine A σ' ε'} {R : σ → σ' → Prop}
    {Q : σ → ε → Prop} {proj : ε → List ε'}
    (hserve : ∀ {q s s' ans u}, R s s' → M.serve q s = some (ans, u) →
      (∃ u', M'.serve q s' = some (ans, u') ∧ R u u') ∨ ans = none ∧ R u s')
    (henv : ∀ {e s s'}, R s s' → Q s e →
      R (M.env e s) ((proj e).foldl (fun s e => M'.env e s) s'))
    {t u : Thread A σ α} {t' : Thread A σ' α} {es : List (Event ε)} (h : Alike R t t')
    (hrun : RunBy M.step (OnEnv Q) t es u) :
    ∃ es' u', run M'.step t' es' = some u' ∧ Alike R u u' ∧ envs es' = (envs es).flatMap proj := by
  induction es generalizing t t' with
  | nil =>
      obtain rfl := runBy_nil hrun
      exact ⟨[], t', rfl, h, rfl⟩
  | cons e es ih =>
      obtain ⟨hQ, s, hstep, hrest⟩ := runBy_cons.mp hrun
      cases e with
      | env e =>
          cases hstep
          have hnext : Alike R { t with state := M.env e t.state }
              { t' with state := (proj e).foldl (fun s e => M'.env e s) t'.state } :=
            ⟨h.prog, h.log, henv h.state (hQ e rfl)⟩
          obtain ⟨es', u', hrun', halike, henvs⟩ := ih hnext hrest
          refine ⟨(proj e).map .env ++ es', u', ?_, halike, ?_⟩
          · rw [run_append, run_env, Option.bind_some]
            exact hrun'
          · rw [envs_append, envs_map_env, henvs]
            rfl
      | go =>
          obtain ⟨q, k, ans, v, hcall, hans, rfl⟩ := step_go hstep
          obtain ⟨v', hans', hR⟩ | ⟨rfl, hR⟩ := hserve h.state hans
          · have hnext : Alike R (t.answer q k (ans, v)) (t'.answer q k (ans, v')) := by
              cases ans with
              | none => exact ⟨h.prog, h.log, hR⟩
              | some b => exact ⟨rfl, congrArg (· ++ _) h.log, hR⟩
            obtain ⟨es', u', hrun', hrest'⟩ := ih hnext hrest
            have hstep' := step_of_serve (h.prog.trans hcall) hans'
            exact ⟨.go :: es', u', run_cons_eq_some.mpr ⟨_, hstep', hrun'⟩, hrest'⟩
          · -- the caller waits on, and `M'` does not move
            have hnext : Alike R { t with state := v } t' := ⟨h.prog, h.log, hR⟩
            exact ih hnext hrest

end Calls
