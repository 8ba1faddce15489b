import Mathlib.Logic.Basic

/-!
# Programs that talk to remote services

A program is a finite tree of atomic calls on a shared state. A call may answer
or refuse, and what the program does next depends on that answer, so the same
text can be executed alone, executed with lost calls, or interleaved call by
call with other programs. The three semantics below share one notion of a
state predicate that every call preserves.
-/

namespace Remote

variable {σ ε α β : Type}

theorem eq_ok_of_map {x : Except ε α} {f : α → β} {b : β} (h : x.map f = .ok b) :
    ∃ a, x = .ok a ∧ f a = b := by
  cases x with
  | error e => cases h
  | ok a => exact ⟨a, rfl, Except.ok.inj h⟩

/-- A tree of atomic calls. A refused call leaves the state alone. -/
inductive Prog (σ ε α : Type) : Type 1 where
  | ret : α → Prog σ ε α
  | raise : ε → Prog σ ε α
  | call {β : Type} : (σ → Except ε (β × σ)) → (Except ε β → Prog σ ε α) → Prog σ ε α

namespace Prog

def bind : Prog σ ε α → (α → Prog σ ε β) → Prog σ ε β
  | .ret a, f => f a
  | .raise e, _ => .raise e
  | .call g k, f => .call g fun r => bind (k r) f

instance : Monad (Prog σ ε) where
  pure := Prog.ret
  bind := Prog.bind

@[simp] theorem ret_bind (a : α) (f : α → Prog σ ε β) : (Prog.ret a >>= f) = f a := rfl
@[simp] theorem raise_bind (e : ε) (f : α → Prog σ ε β) :
    ((Prog.raise e : Prog σ ε α) >>= f) = .raise e := rfl
@[simp] theorem call_bind {γ : Type} (g : σ → Except ε (γ × σ))
    (k : Except ε γ → Prog σ ε α) (f : α → Prog σ ε β) :
    (Prog.call g k >>= f) = .call g fun r => k r >>= f := rfl
@[simp] theorem pure_eq (a : α) : (pure a : Prog σ ε α) = .ret a := rfl

theorem bind_ret (m : Prog σ ε α) : (m >>= Prog.ret) = m := by
  induction m with
  | ret a => rfl
  | raise e => rfl
  | call g k ih =>
    rw [call_bind]
    congr 1
    funext r
    exact ih r

theorem bind_bind {γ : Type} (m : Prog σ ε α) (f : α → Prog σ ε β) (h : β → Prog σ ε γ) :
    (m >>= f >>= h) = m >>= fun a => f a >>= h := by
  induction m with
  | ret a => rfl
  | raise e => rfl
  | call g k ih =>
    simp only [call_bind]
    congr 1
    funext r
    exact ih r

instance : LawfulMonad (Prog σ ε) :=
  LawfulMonad.mk' _ bind_ret (fun _ _ => rfl) bind_bind

/-- One call whose refusal is passed on to the caller. -/
def request (g : σ → Except ε (β × σ)) : Prog σ ε β :=
  .call g fun
    | .ok b => .ret b
    | .error e => .raise e

/-- A call that cannot be refused by the service itself. -/
def update (g : σ → β × σ) : Prog σ ε β := request fun s => .ok (g s)

/-- Run a program and hand its outcome, failure included, to the caller. -/
def attempt : Prog σ ε α → Prog σ ε (Except ε α)
  | .ret a => .ret (.ok a)
  | .raise e => .ret (.error e)
  | .call g k => .call g fun r => attempt (k r)

/-- A program whose answer is not looked at. -/
def void (m : Prog σ ε α) : Prog σ ε Unit := m >>= fun _ => .ret ()

/-- A program run under a condition. -/
def onlyIf (c : Bool) (m : Prog σ ε Unit) : Prog σ ε Unit := if c then m else .ret ()

/-- A loop over a list that stops at the first failure. -/
def each (f : α → Prog σ ε Unit) : List α → Prog σ ε Unit
  | [] => .ret ()
  | a :: as => f a >>= fun _ => each f as

/-- All programs of a list, each one attempted whatever became of the others. -/
def all : List (Prog σ ε Unit) → Prog σ ε (List (Except ε Unit))
  | [] => .ret []
  | m :: ms => attempt m >>= fun r => all ms >>= fun rs => .ret (r :: rs)

/-- Execution alone and without losses. -/
def exec : Prog σ ε α → σ → Except ε α × σ
  | .ret a, s => (.ok a, s)
  | .raise e, s => (.error e, s)
  | .call g k, s =>
    match g s with
    | .ok (b, t) => exec (k (.ok b)) t
    | .error e => exec (k (.error e)) s

/-- No call of the execution is refused. -/
def clean : Prog σ ε α → σ → Bool
  | .ret _, _ => true
  | .raise _, _ => true
  | .call g k, s =>
    match g s with
    | .ok (b, t) => clean (k (.ok b)) t
    | .error _ => false

/-- The state after execution. -/
def after (m : Prog σ ε α) (s : σ) : σ := (exec m s).2

@[simp] theorem exec_ret (a : α) (s : σ) : exec (.ret a : Prog σ ε α) s = (.ok a, s) := rfl
@[simp] theorem exec_raise (e : ε) (s : σ) : exec (.raise e : Prog σ ε α) s = (.error e, s) := rfl
@[simp] theorem clean_ret (a : α) (s : σ) : clean (.ret a : Prog σ ε α) s = true := rfl
@[simp] theorem clean_raise (e : ε) (s : σ) : clean (.raise e : Prog σ ε α) s = true := rfl

theorem exec_bind (m : Prog σ ε α) (f : α → Prog σ ε β) (s : σ) :
    exec (m >>= f) s =
      match exec m s with
      | (.ok a, t) => exec (f a) t
      | (.error e, t) => (.error e, t) := by
  induction m generalizing s with
  | ret a => rfl
  | raise e => rfl
  | call g k ih =>
    simp only [call_bind, exec]
    cases g s with
    | error e => exact ih _ _
    | ok p => exact ih _ _

@[simp] theorem after_void (m : Prog σ ε α) (s : σ) : (void m).after s = m.after s := by
  rw [after, void, exec_bind, after]
  split
  · rename_i h
    rw [h]
    rfl
  · rename_i h
    rw [h]

theorem clean_bind (m : Prog σ ε α) (f : α → Prog σ ε β) (s : σ) :
    clean (m >>= f) s =
      (clean m s && match exec m s with
        | (.ok a, t) => clean (f a) t
        | (.error _, _) => true) := by
  induction m generalizing s with
  | ret a => rfl
  | raise e => rfl
  | call g k ih =>
    simp only [call_bind, clean, exec]
    cases g s with
    | error e => rfl
    | ok p => exact ih _ _

@[simp] theorem exec_attempt (m : Prog σ ε α) (s : σ) :
    exec (attempt m) s = (.ok (exec m s).1, (exec m s).2) := by
  induction m generalizing s with
  | ret a => rfl
  | raise e => rfl
  | call g k ih =>
    simp only [attempt, exec]
    cases g s with
    | error e => exact ih _ _
    | ok p => exact ih _ _

@[simp] theorem clean_attempt (m : Prog σ ε α) (s : σ) : clean (attempt m) s = clean m s := by
  induction m generalizing s with
  | ret a => rfl
  | raise e => rfl
  | call g k ih =>
    simp only [attempt, clean]
    cases g s with
    | error e => rfl
    | ok p => exact ih _ _

theorem exec_request (g : σ → Except ε (β × σ)) (s : σ) :
    exec (request g) s =
      match g s with
      | .ok (b, t) => (.ok b, t)
      | .error e => (.error e, s) := by
  simp only [request, exec]

theorem clean_request (g : σ → Except ε (β × σ)) (s : σ) :
    clean (request g) s =
      match g s with
      | .ok _ => true
      | .error _ => false := by
  simp only [request, clean]
  cases g s <;> rfl

@[simp] theorem exec_update (g : σ → β × σ) (s : σ) :
    exec (update g : Prog σ ε β) s = (.ok (g s).1, (g s).2) := rfl
@[simp] theorem clean_update (g : σ → β × σ) (s : σ) :
    clean (update g : Prog σ ε β) s = true := rfl

/-- What the execution ends in when no call of it is refused. -/
structure Ensures (m : Prog σ ε α) (s : σ) (Q : Except ε α → σ → Prop) : Prop where
  holds : clean m s = true → Q (exec m s).1 (exec m s).2

section Ensures

variable {s : σ}

theorem ensures_ret {a : α} {Q : Except ε α → σ → Prop} (h : Q (.ok a) s) :
    Ensures (.ret a) s Q := ⟨fun _ => h⟩

theorem ensures_raise {e : ε} {Q : Except ε α → σ → Prop} (h : Q (.error e) s) :
    Ensures (.raise e) s Q := ⟨fun _ => h⟩

theorem ensures_mono {m : Prog σ ε α} {Q R : Except ε α → σ → Prop} (hm : Ensures m s Q)
    (h : ∀ r t, Q r t → R r t) : Ensures m s R := ⟨fun hc => h _ _ (hm.holds hc)⟩

theorem ensures_and {m : Prog σ ε α} {Q R : Except ε α → σ → Prop} (hq : Ensures m s Q)
    (hr : Ensures m s R) : Ensures m s fun r t => Q r t ∧ R r t :=
  ⟨fun hc => ⟨hq.holds hc, hr.holds hc⟩⟩

theorem ensures_bind {m : Prog σ ε α} {f : α → Prog σ ε β} {Q : Except ε β → σ → Prop}
    (hm : Ensures m s fun r t =>
      match r with
      | .ok a => Ensures (f a) t Q
      | .error e => Q (.error e) t) : Ensures (m >>= f) s Q := by
  constructor
  intro hc
  rw [clean_bind, Bool.and_eq_true] at hc
  have h := hm.holds hc.1
  rw [exec_bind]
  rcases hr : exec m s with ⟨r, t⟩
  rw [hr] at h hc
  cases r with
  | ok a => exact h.holds hc.2
  | error e => exact h

theorem ensures_bind_ok {m : Prog σ ε α} {f : α → Prog σ ε β} {P : α → σ → Prop}
    {Q : Except ε β → σ → Prop} (hm : Ensures m s fun r t => ∃ a, r = .ok a ∧ P a t)
    (hf : ∀ a t, P a t → Ensures (f a) t Q) : Ensures (m >>= f) s Q := by
  apply ensures_bind
  apply ensures_mono hm
  rintro r t ⟨a, rfl, ha⟩
  exact hf a t ha

/-- Sequencing where only the states matter. -/
theorem ensures_bind_any {m : Prog σ ε α} {f : α → Prog σ ε β} {P Q : σ → Prop}
    (hm : Ensures m s fun _ t => P t) (hf : ∀ a t, P t → Ensures (f a) t fun _ u => Q u)
    (he : ∀ t, P t → Q t) : Ensures (m >>= f) s fun _ t => Q t := by
  apply ensures_bind
  apply ensures_mono hm
  intro r t ht
  cases r with
  | ok a => exact hf a t ht
  | error e => exact he t ht

/-- The rule for a loop whose turns all succeed; the invariant speaks of what is left. -/
theorem ensures_each {f : α → Prog σ ε Unit} {I : List α → σ → Prop}
    (hf : ∀ a as t, I (a :: as) t → Ensures (f a) t fun r u => r = .ok () ∧ I as u) (as : List α)
    (hs : I as s) : Ensures (each f as) s fun r t => r = .ok () ∧ I [] t := by
  induction as generalizing s with
  | nil => exact ensures_ret ⟨rfl, hs⟩
  | cons a as ih =>
    apply ensures_bind_ok (P := fun _ t => I as t)
    · apply ensures_mono (hf a as s hs)
      rintro r t ⟨rfl, ht⟩
      exact ⟨(), rfl, ht⟩
    · intro _ t ht
      exact ih ht

theorem ensures_attempt {m : Prog σ ε α} {Q : Except ε (Except ε α) → σ → Prop}
    (hm : Ensures m s fun r t => Q (.ok r) t) : Ensures (attempt m) s Q := by
  constructor
  intro hc
  rw [clean_attempt] at hc
  rw [exec_attempt]
  exact hm.holds hc

theorem ensures_all {f : α → Prog σ ε Unit} {I : List α → σ → Prop}
    (hf : ∀ a as t, I (a :: as) t → Ensures (f a) t fun r u => r = .ok () ∧ I as u) (as : List α)
    (hs : I as s) :
    Ensures (all (as.map f)) s fun r t => r = .ok (as.map fun _ => .ok ()) ∧ I [] t := by
  induction as generalizing s with
  | nil => exact ensures_ret ⟨rfl, hs⟩
  | cons a as ih =>
    apply ensures_bind_ok (P := fun b t => b = .ok () ∧ I as t)
    · apply ensures_attempt
      apply ensures_mono (hf a as s hs)
      rintro r t ⟨rfl, ht⟩
      exact ⟨.ok (), rfl, rfl, ht⟩
    · rintro b t ⟨rfl, ht⟩
      apply ensures_bind_ok (P := fun bs u => bs = as.map (fun _ => .ok ()) ∧ I [] u)
      · apply ensures_mono (ih ht)
        rintro r u ⟨rfl, hu⟩
        exact ⟨_, rfl, rfl, hu⟩
      · rintro bs u ⟨rfl, hu⟩
        exact ensures_ret ⟨rfl, hu⟩

theorem ensures_void {m : Prog σ ε α} {Q : Except ε Unit → σ → Prop}
    (hm : Ensures m s fun r t => Q (r.map fun _ => ()) t) : Ensures (void m) s Q := by
  apply ensures_bind
  apply ensures_mono hm
  intro r t h
  cases r with
  | ok a => exact ensures_ret h
  | error e => exact h

theorem ensures_onlyIf {c : Bool} {m : Prog σ ε Unit} {Q : Except ε Unit → σ → Prop}
    (ht : c = true → Ensures m s Q) (hf : c = false → Q (.ok ()) s) :
    Ensures (onlyIf c m) s Q := by
  cases c with
  | true => exact ht rfl
  | false => exact ensures_ret (hf rfl)

theorem ensures_request {g : σ → Except ε (β × σ)} {Q : Except ε β → σ → Prop}
    (hg : ∀ b t, g s = .ok (b, t) → Q (.ok b) t) : Ensures (request g) s Q := by
  constructor
  intro hc
  rw [clean_request] at hc
  rw [exec_request]
  cases hr : g s with
  | ok p => exact hg p.1 p.2 hr
  | error e => rw [hr] at hc; cases hc

theorem ensures_update {g : σ → β × σ} {Q : Except ε β → σ → Prop} (hg : Q (.ok (g s).1) (g s).2) :
    Ensures (update g) s Q := ⟨fun _ => hg⟩

end Ensures

/-- No call of the program is ever refused. -/
def Unrefused (m : Prog σ ε α) : Prop := ∀ s, clean m s = true

section Unrefused

theorem clean_bind_unrefused {m : Prog σ ε α} {f : α → Prog σ ε β} {s : σ} (hm : clean m s = true)
    (hf : ∀ a, Unrefused (f a)) : clean (m >>= f) s = true := by
  rw [clean_bind, hm, Bool.true_and]
  rcases exec m s with ⟨r, t⟩
  cases r with
  | ok a => exact hf a t
  | error e => rfl

theorem unrefused_ret (a : α) : Unrefused (.ret a : Prog σ ε α) := fun _ => rfl

theorem unrefused_raise (e : ε) : Unrefused (.raise e : Prog σ ε α) := fun _ => rfl

theorem unrefused_update (g : σ → β × σ) : Unrefused (update g : Prog σ ε β) := fun _ => rfl

theorem unrefused_bind {m : Prog σ ε α} {f : α → Prog σ ε β} (hm : Unrefused m)
    (hf : ∀ a, Unrefused (f a)) : Unrefused (m >>= f) :=
  fun s => clean_bind_unrefused (hm s) hf

theorem unrefused_attempt {m : Prog σ ε α} (hm : Unrefused m) : Unrefused (attempt m) :=
  fun s => (clean_attempt m s).trans (hm s)

theorem unrefused_each {f : α → Prog σ ε Unit} (hf : ∀ a, Unrefused (f a)) (as : List α) :
    Unrefused (each f as) := by
  induction as with
  | nil => exact unrefused_ret ()
  | cons a as ih => exact unrefused_bind (hf a) fun _ => ih

end Unrefused

/-- Execution in which any call may also be lost: before it reaches the service,
or after the service has acted on it. -/
inductive Faulty : Prog σ ε α → σ → Except ε α → σ → Prop where
  | ret (a : α) (s : σ) : Faulty (.ret a) s (.ok a) s
  | raise (e : ε) (s : σ) : Faulty (.raise e) s (.error e) s
  | answered {γ : Type} {g : σ → Except ε (γ × σ)} {k : Except ε γ → Prog σ ε α} {s t u : σ}
      {b : γ} {r : Except ε α} :
      g s = .ok (b, t) → Faulty (k (.ok b)) t r u → Faulty (.call g k) s r u
  | unanswered {γ : Type} {g : σ → Except ε (γ × σ)} {k : Except ε γ → Prog σ ε α} {s t u : σ}
      {b : γ} {r : Except ε α} (e : ε) :
      g s = .ok (b, t) → Faulty (k (.error e)) t r u → Faulty (.call g k) s r u
  | lost {γ : Type} {g : σ → Except ε (γ × σ)} {k : Except ε γ → Prog σ ε α} {s u : σ}
      {r : Except ε α} (e : ε) :
      Faulty (k (.error e)) s r u → Faulty (.call g k) s r u

/-- The undisturbed execution is one of the faulty ones. -/
theorem faulty_exec (m : Prog σ ε α) (s : σ) : Faulty m s (exec m s).1 (exec m s).2 := by
  induction m generalizing s with
  | ret a => exact .ret a s
  | raise e => exact .raise e s
  | call g k ih =>
    simp only [exec]
    cases hg : g s with
    | error e => exact .lost e (ih _ s)
    | ok p => exact .answered hg (ih _ p.2)

theorem faulty_bind {m : Prog σ ε α} {f : α → Prog σ ε β} {s u : σ} {r : Except ε β}
    (h : Faulty (m >>= f) s r u) :
    (∃ a t, Faulty m s (.ok a) t ∧ Faulty (f a) t r u) ∨
      ∃ e, Faulty m s (.error e) u ∧ r = .error e := by
  induction m generalizing s with
  | ret a => exact .inl ⟨a, s, .ret a s, h⟩
  | raise e =>
    cases h
    exact .inr ⟨e, .raise e _, rfl⟩
  | call g k ih =>
    cases h with
    | answered hg h =>
      obtain ⟨a, t, ha, ht⟩ | ⟨e, he, hr⟩ := ih _ h
      · exact .inl ⟨a, t, .answered hg ha, ht⟩
      · exact .inr ⟨e, .answered hg he, hr⟩
    | unanswered e' hg h =>
      obtain ⟨a, t, ha, ht⟩ | ⟨e, he, hr⟩ := ih _ h
      · exact .inl ⟨a, t, .unanswered e' hg ha, ht⟩
      · exact .inr ⟨e, .unanswered e' hg he, hr⟩
    | lost e' h =>
      obtain ⟨a, t, ha, ht⟩ | ⟨e, he, hr⟩ := ih _ h
      · exact .inl ⟨a, t, .lost e' ha, ht⟩
      · exact .inr ⟨e, .lost e' he, hr⟩

/-- A sequence that succeeds has succeeded twice. -/
theorem faulty_bind_ok {m : Prog σ ε α} {f : α → Prog σ ε β} {s u : σ} {b : β}
    (h : Faulty (m >>= f) s (.ok b) u) :
    ∃ a t, Faulty m s (.ok a) t ∧ Faulty (f a) t (.ok b) u := by
  obtain h | ⟨e, -, he⟩ := faulty_bind h
  · exact h
  · cases he

theorem faulty_attempt {m : Prog σ ε α} {s u : σ} {r : Except ε (Except ε α)}
    (h : Faulty (attempt m) s r u) : ∃ r', r = .ok r' ∧ Faulty m s r' u := by
  induction m generalizing s with
  | ret a => cases h; exact ⟨_, rfl, .ret a _⟩
  | raise e => cases h; exact ⟨_, rfl, .raise e _⟩
  | call g k ih =>
    cases h with
    | answered hg h =>
      obtain ⟨r', hr, h'⟩ := ih _ h
      exact ⟨r', hr, .answered hg h'⟩
    | unanswered e hg h =>
      obtain ⟨r', hr, h'⟩ := ih _ h
      exact ⟨r', hr, .unanswered e hg h'⟩
    | lost e h =>
      obtain ⟨r', hr, h'⟩ := ih _ h
      exact ⟨r', hr, .lost e h'⟩

theorem faulty_request {g : σ → Except ε (β × σ)} {s u : σ} {r : Except ε β}
    (h : Faulty (request g) s r u) :
    (u = s ∧ ∃ e, r = .error e) ∨
      ∃ b, g s = .ok (b, u) ∧ (r = .ok b ∨ ∃ e, r = .error e) := by
  cases h with
  | answered hg h => cases h; exact .inr ⟨_, hg, .inl rfl⟩
  | unanswered e hg h => cases h; exact .inr ⟨_, hg, .inr ⟨e, rfl⟩⟩
  | lost e h => cases h; exact .inl ⟨rfl, e, rfl⟩

/-- A request that is answered has been carried out. -/
theorem faulty_request_ok {g : σ → Except ε (β × σ)} {s u : σ} {b : β}
    (h : Faulty (request g) s (.ok b) u) : g s = .ok (b, u) := by
  obtain ⟨-, e, he⟩ | ⟨b', hb, hr | ⟨e, he⟩⟩ := faulty_request h
  · cases he
  · cases hr
    exact hb
  · cases he

/-- Every call of the program preserves the state predicate. -/
def Stable (I : σ → Prop) : Prog σ ε α → Prop
  | .ret _ => True
  | .raise _ => True
  | .call g k => (∀ s b t, I s → g s = .ok (b, t) → I t) ∧ ∀ r, Stable I (k r)

section Stable

variable {I : σ → Prop}

@[simp] theorem stable_ret (a : α) : Stable I (.ret a : Prog σ ε α) := trivial
@[simp] theorem stable_raise (e : ε) : Stable I (.raise e : Prog σ ε α) := trivial

theorem stable_bind {m : Prog σ ε α} {f : α → Prog σ ε β} (hm : Stable I m)
    (hf : ∀ a, Stable I (f a)) : Stable I (m >>= f) := by
  induction m with
  | ret a => exact hf a
  | raise e => trivial
  | call g k ih => exact ⟨hm.1, fun r => ih r (hm.2 r)⟩

theorem stable_attempt {m : Prog σ ε α} (hm : Stable I m) : Stable I (attempt m) := by
  induction m with
  | ret a => trivial
  | raise e => trivial
  | call g k ih => exact ⟨hm.1, fun r => ih r (hm.2 r)⟩

theorem stable_request {g : σ → Except ε (β × σ)}
    (hg : ∀ s b t, I s → g s = .ok (b, t) → I t) : Stable I (request g) := by
  refine ⟨hg, ?_⟩
  intro r
  cases r <;> trivial

theorem stable_update {g : σ → β × σ} (hg : ∀ s, I s → I (g s).2) :
    Stable I (update g : Prog σ ε β) := by
  apply stable_request
  intro s b t hs h
  have ht : (g s).2 = t := congrArg Prod.snd (Except.ok.inj h)
  exact ht ▸ hg s hs

theorem stable_void {m : Prog σ ε α} (hm : Stable I m) : Stable I (void m) :=
  stable_bind hm fun _ => trivial

theorem stable_onlyIf {c : Bool} {m : Prog σ ε Unit} (hm : Stable I m) : Stable I (onlyIf c m) := by
  cases c
  · trivial
  · exact hm

theorem stable_each {f : α → Prog σ ε Unit} (hf : ∀ a, Stable I (f a)) (as : List α) :
    Stable I (each f as) := by
  induction as with
  | nil => trivial
  | cons a as ih => exact stable_bind (hf a) fun _ => ih

theorem stable_all {ms : List (Prog σ ε Unit)} (h : ∀ m ∈ ms, Stable I m) : Stable I (all ms) := by
  induction ms with
  | nil => trivial
  | cons m ms ih =>
    apply stable_bind (stable_attempt (h m (by simp)))
    intro r
    apply stable_bind (ih fun m' hm' => h m' (by simp [hm']))
    intro rs
    trivial

/-- The invariant rule: what every call preserves, every faulty execution preserves. -/
theorem stable_faulty {m : Prog σ ε α} (hm : Stable I m) {s t : σ} {r : Except ε α}
    (h : Faulty m s r t) (hs : I s) : I t := by
  induction h with
  | ret a s => exact hs
  | raise e s => exact hs
  | answered hg _ ih => exact ih (hm.2 _) (hm.1 _ _ _ hs hg)
  | unanswered e hg _ ih => exact ih (hm.2 _) (hm.1 _ _ _ hs hg)
  | lost e _ ih => exact ih (hm.2 _) hs

theorem stable_after {m : Prog σ ε α} (hm : Stable I m) {s : σ} (hs : I s) : I (after m s) :=
  stable_faulty hm (faulty_exec m s) hs

end Stable

/-- The program, executed alone, ends in a state with `I` whenever it starts in one; in between `I` may
fail. -/
def Maintains (I : σ → Prop) (m : Prog σ ε α) : Prop := ∀ s, I s → I (after m s)

theorem maintains_of_stable {I : σ → Prop} {m : Prog σ ε α} (hm : Stable I m) : Maintains I m :=
  fun _ hs => stable_after hm hs

theorem maintains_bind {I : σ → Prop} {m : Prog σ ε α} {f : α → Prog σ ε β} (hm : Maintains I m)
    (hf : ∀ a, Maintains I (f a)) : Maintains I (m >>= f) := by
  intro s hs
  have hfirst := hm s hs
  rw [after] at hfirst ⊢
  rw [exec_bind]
  split
  · rename_i a t hexec
    rw [hexec] at hfirst
    exact hf a t hfirst
  · rename_i e t hexec
    rw [hexec] at hfirst
    exact hfirst

/-- What a program leaves unchanged: a function of the state that no call changes. -/
def Frame {γ : Type} (f : σ → γ) (m : Prog σ ε α) : Prop := ∀ c, Stable (fun s => f s = c) m

section Frame

variable {γ : Type} {f : σ → γ}

@[simp] theorem frame_ret (a : α) : Frame f (.ret a : Prog σ ε α) := fun _ => trivial
@[simp] theorem frame_raise (e : ε) : Frame f (.raise e : Prog σ ε α) := fun _ => trivial

theorem frame_bind {m : Prog σ ε α} {k : α → Prog σ ε β} (hm : Frame f m)
    (hk : ∀ a, Frame f (k a)) : Frame f (m >>= k) :=
  fun c => stable_bind (hm c) fun a => hk a c

theorem frame_attempt {m : Prog σ ε α} (hm : Frame f m) : Frame f (attempt m) :=
  fun c => stable_attempt (hm c)

theorem frame_request {g : σ → Except ε (β × σ)} (hg : ∀ s b t, g s = .ok (b, t) → f t = f s) :
    Frame f (request g) :=
  fun _ => stable_request fun s b t hs h => (hg s b t h).trans hs

theorem frame_update {g : σ → β × σ} (hg : ∀ s, f (g s).2 = f s) :
    Frame f (update g : Prog σ ε β) :=
  fun _ => stable_update fun s hs => (hg s).trans hs

theorem frame_void {m : Prog σ ε α} (hm : Frame f m) : Frame f (void m) :=
  fun c => stable_void (hm c)

theorem frame_onlyIf {c : Bool} {m : Prog σ ε Unit} (hm : Frame f m) : Frame f (onlyIf c m) :=
  fun d => stable_onlyIf (hm d)

theorem frame_each {k : α → Prog σ ε Unit} (hk : ∀ a, Frame f (k a)) (as : List α) :
    Frame f (each k as) := fun c => stable_each (fun a => hk a c) as

theorem frame_all {ms : List (Prog σ ε Unit)} (h : ∀ m ∈ ms, Frame f m) : Frame f (all ms) :=
  fun c => stable_all fun m hm => h m hm c

theorem frame_after {m : Prog σ ε α} (hm : Frame f m) (s : σ) : f (after m s) = f s :=
  stable_after (hm (f s)) rfl

theorem frame_faulty {m : Prog σ ε α} (hm : Frame f m) {s t : σ} {r : Except ε α}
    (h : Faulty m s r t) : f t = f s := stable_faulty (hm (f s)) h rfl

/-- An invariant adds to what an execution ends in. -/
theorem ensures_stable {I : σ → Prop} {m : Prog σ ε α} (hm : Stable I m) {s : σ} (hs : I s)
    {Q : Except ε α → σ → Prop} (h : Ensures m s fun r t => I t → Q r t) : Ensures m s Q :=
  ⟨fun hc => h.holds hc (stable_after hm hs)⟩

/-- A predicate that depends on the unchanged part only is preserved. -/
theorem stable_of_frame {I : σ → Prop} {m : Prog σ ε α} (hm : Frame f m)
    (hI : ∀ s t, f t = f s → I s → I t) : Stable I m := by
  induction m with
  | ret a => trivial
  | raise e => trivial
  | call g k ih =>
    refine ⟨?_, fun r => ih r fun c => (hm c).2 r⟩
    intro s b t hs hg
    exact hI s t ((hm (f s)).1 s b t rfl hg) hs

/-- A function of the unchanged part is unchanged. -/
theorem frame_mono {δ : Type} {g : σ → δ} {m : Prog σ ε α} (hm : Frame f m)
    (h : ∀ s t, f t = f s → g t = g s) : Frame g m :=
  fun _ => stable_of_frame hm fun s t ht hs => (h s t ht).trans hs

/-- A frame adds to what an execution ends in. -/
theorem ensures_frame {m : Prog σ ε α} (hm : Frame f m) {s : σ} {Q : Except ε α → σ → Prop}
    (h : Ensures m s fun r t => f t = f s → Q r t) : Ensures m s Q :=
  ⟨fun hc => h.holds hc (frame_after hm s)⟩

end Frame

end Prog

end Remote
