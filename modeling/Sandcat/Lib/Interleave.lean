import Sandcat.Lib.Remote
import Mathlib.Logic.Function.Basic

/-!
# Programs side by side

A pool holds a shared state and one program for each process. A step is one call of
one process, or the launch of a new program by a process that has finished. A guard
may forbid a call in a state.
-/

namespace Remote

variable {ι σ ε α β : Type}

namespace Prog

/-- One call. -/
def step : Prog σ ε α → σ → Option (Prog σ ε α × σ)
  | .ret _, _ => none
  | .raise _, _ => none
  | .call g k, s =>
    match g s with
    | .ok (b, t) => some (k (.ok b), t)
    | .error e => some (k (.error e), s)

/-- One call of a program: it is answered, or its answer is lost, or it is refused or lost
before the service acts on it. -/
inductive Calls : Prog σ ε α → σ → Prog σ ε α → σ → Prop where
  | answered {β : Type} {g : σ → Except ε (β × σ)} {k : Except ε β → Prog σ ε α} {s t : σ}
      {b : β} : g s = .ok (b, t) → Calls (.call g k) s (k (.ok b)) t
  | unanswered {β : Type} {g : σ → Except ε (β × σ)} {k : Except ε β → Prog σ ε α} {s t : σ}
      {b : β} (e : ε) : g s = .ok (b, t) → Calls (.call g k) s (k (.error e)) t
  | lost {β : Type} {g : σ → Except ε (β × σ)} {k : Except ε β → Prog σ ε α} {s : σ} (e : ε) :
      Calls (.call g k) s (k (.error e)) s

/-- The undisturbed call is one of them. -/
theorem calls_of_step {m n : Prog σ ε α} {s t : σ} (h : step m s = some (n, t)) :
    Calls m s n t := by
  cases m with
  | ret a => cases h
  | raise e => cases h
  | call g k =>
    simp only [step] at h
    cases hg : g s with
    | ok p =>
      rw [hg] at h
      cases h
      exact .answered hg
    | error e =>
      rw [hg] at h
      cases h
      exact .lost e

def finished : Prog σ ε α → Bool
  | .ret _ => true
  | .raise _ => true
  | .call _ _ => false

/-- At most `n` calls. -/
def advance : Nat → Prog σ ε α → σ → Prog σ ε α × σ
  | 0, m, s => (m, s)
  | n + 1, m, s =>
    match step m s with
    | none => (m, s)
    | some (m', s') => advance n m' s'

/-- The calls of a program preserve a predicate where the guard lets them happen, along
the answers that the calls can give. -/
def Guarded (guard : σ → Prog σ ε α → Prop) (I : σ → Prop) : Prog σ ε α → Prop
  | .ret _ => True
  | .raise _ => True
  | .call g k => ∀ s, I s → guard s (.call g k) →
      (∀ b t, g s = .ok (b, t) → I t ∧ Guarded guard I (k (.ok b))) ∧
        ∀ e, Guarded guard I (k (.error e))

section Guarded

variable {guard : σ → Prog σ ε β → Prop} {I : σ → Prop}

theorem guarded_bind {m : Prog σ ε α} {f : α → Prog σ ε β} (hm : Stable I m)
    (hf : ∀ a, Guarded guard I (f a)) : Guarded guard I (m >>= f) := by
  induction m with
  | ret a => exact hf a
  | raise e => trivial
  | call g k ih =>
    intro s hs _
    refine ⟨?_, fun e => ih _ (hm.2 _)⟩
    intro b t h
    exact ⟨hm.1 s b t hs h, ih _ (hm.2 _)⟩

theorem guarded_of_stable {m : Prog σ ε β} (hm : Stable I m) : Guarded guard I m := by
  have h : Guarded guard I (m >>= Prog.ret) := guarded_bind hm fun a => trivial
  rwa [bind_ret] at h

/-- A call whose answer and effect are known. -/
theorem guarded_request {g : σ → Except ε (α × σ)} {f : α → Prog σ ε β}
    (hg : ∀ s b t, I s → g s = .ok (b, t) → I t ∧ Guarded guard I (f b)) :
    Guarded guard I (request g >>= f) := by
  intro s hs _
  exact ⟨fun b t h => hg s b t hs h, fun e => trivial⟩

/-- An attempted call whose effect is known under the guard. -/
theorem guarded_attempt {g : σ → α × σ} {f : Except ε α → Prog σ ε β}
    (hg : ∀ s, I s → guard s (attempt (update g) >>= f) → I (g s).2)
    (hf : ∀ r, Guarded guard I (f r)) : Guarded guard I (attempt (update g) >>= f) := by
  intro s hs hguard
  refine ⟨?_, fun e => hf (.error e)⟩
  intro b t h
  have ht : (g s).2 = t := congrArg Prod.snd (Except.ok.inj h)
  exact ⟨ht ▸ hg s hs hguard, hf (.ok b)⟩

theorem guarded_step {m m' : Prog σ ε β} {s s' : σ} (h : step m s = some (m', s'))
    (hguard : guard s m) (hm : Guarded guard I m) (hs : I s) : I s' ∧ Guarded guard I m' := by
  cases m with
  | ret a => cases h
  | raise e => cases h
  | call g k =>
    obtain ⟨hok, herror⟩ := hm s hs hguard
    simp only [step] at h
    cases hg : g s with
    | ok p =>
      rw [hg] at h
      cases h
      exact hok p.1 p.2 hg
    | error e =>
      rw [hg] at h
      cases h
      exact ⟨hs, herror e⟩

end Guarded

end Prog

/-- Programs that share a state. -/
structure Pool (ι σ ε : Type) where
  state : σ
  progs : ι → Prog σ ε Unit

namespace Pool

variable [DecidableEq ι]

/-- Process `i` makes at most `n` calls. -/
def advance (P : Pool ι σ ε) (i : ι) (n : Nat) : Pool ι σ ε :=
  let r := Prog.advance n (P.progs i) P.state
  ⟨r.2, Function.update P.progs i r.1⟩

/-- Process `i` starts a program. -/
def launch (P : Pool ι σ ε) (i : ι) (m : Prog σ ε Unit) : Pool ι σ ε :=
  { P with progs := Function.update P.progs i m }

/-- The pools that the interleavings of a pool lead to. -/
inductive Reachable (guard : σ → Prog σ ε Unit → Prop) (tasks : Prog σ ε Unit → Prop)
    (start : Pool ι σ ε) : Pool ι σ ε → Prop where
  | start : Reachable guard tasks start start
  | call {P : Pool ι σ ε} {m : Prog σ ε Unit} {s : σ} (i : ι) : Reachable guard tasks start P →
      guard P.state (P.progs i) → Prog.step (P.progs i) P.state = some (m, s) →
      Reachable guard tasks start ⟨s, Function.update P.progs i m⟩
  | launch {P : Pool ι σ ε} (i : ι) (m : Prog σ ε Unit) : Reachable guard tasks start P →
      (P.progs i).finished = true → tasks m → Reachable guard tasks start (P.launch i m)

variable {guard : σ → Prog σ ε Unit → Prop} {tasks : Prog σ ε Unit → Prop}
  {start P : Pool ι σ ε} {I : σ → Prop}

theorem update_guarded {progs : ι → Prog σ ε Unit} {m : Prog σ ε Unit} {i : ι}
    (h : ∀ j, Prog.Guarded guard I (progs j)) (hm : Prog.Guarded guard I m) (j : ι) :
    Prog.Guarded guard I (Function.update progs i m j) := by
  by_cases hj : j = i
  · subst hj
    rwa [Function.update_self]
  · rw [Function.update_of_ne hj]
    exact h j

/-- The invariant rule for interleavings. -/
theorem Reachable.invariant (h : Reachable guard tasks start P) (hs : I start.state)
    (hstart : ∀ i, Prog.Guarded guard I (start.progs i))
    (htasks : ∀ m, tasks m → Prog.Guarded guard I m) :
    I P.state ∧ ∀ i, Prog.Guarded guard I (P.progs i) := by
  induction h with
  | start => exact ⟨hs, hstart⟩
  | call i _ hguard hstep ih =>
    obtain ⟨hI, hm⟩ := Prog.guarded_step hstep hguard (ih.2 i) ih.1
    exact ⟨hI, update_guarded ih.2 hm⟩
  | launch i m _ _ hm ih => exact ⟨ih.1, update_guarded ih.2 (htasks m hm)⟩

/-- Where nothing is forbidden, a process may run on alone. -/
theorem Reachable.advance (h : Reachable (fun _ _ => True) tasks start P) (i : ι) (n : Nat) :
    Reachable (fun _ _ => True) tasks start (P.advance i n) := by
  induction n generalizing P with
  | zero =>
    have he : P.advance i 0 = P := by simp [Pool.advance, Prog.advance]
    rwa [he]
  | succ n ih =>
    cases hstep : Prog.step (P.progs i) P.state with
    | none =>
      have he : P.advance i (n + 1) = P := by simp [Pool.advance, Prog.advance, hstep]
      rwa [he]
    | some r =>
      have he : P.advance i (n + 1) =
          (⟨r.2, Function.update P.progs i r.1⟩ : Pool ι σ ε).advance i n := by
        simp [Pool.advance, Prog.advance, hstep]
      rw [he]
      exact ih (.call i h trivial hstep)

end Pool

end Remote
