import Sandcat.Lib.Windows
import Mathlib.Logic.Function.Basic
import Mathlib.Algebra.Ring.Nat

/-!
# The connection limiter

The handler of a websocket keeps a window and a count for every address. The check runs under a lock
that is held from the look at the clock to the last write, so that attempts come one after the other
with times that do not go back.
-/

namespace Sandcat

open Windows

/-- `MAX_CONN_PER_MINUTE`. -/
def maxConnPerMinute : Nat := 10

/-- `RATE_LIMIT_WINDOW` in nanoseconds. -/
def rateLimitWindow : Nat := 60 * 10 ^ 9

/-- The count and the start of the window of an address. -/
abbrev RateLimiter (ι : Type) := ι → Option (Nat × Nat)

section RateLimiter

variable {ι : Type} [DecidableEq ι]

namespace RateLimiter

/-- The check of `websocket_handler`: whether an attempt is refused, and the limiter after it. -/
def check (ip : ι) (now : Nat) (rateLimiter : RateLimiter ι) : Bool × RateLimiter ι :=
  match rateLimiter ip with
  | some (count, timestamp) =>
    if now - timestamp < rateLimitWindow ∧ count ≥ maxConnPerMinute then (true, rateLimiter)
    else if now - timestamp ≥ rateLimitWindow then
      (false, Function.update rateLimiter ip (some (1, now)))
    else (false, Function.update rateLimiter ip (some (count + 1, timestamp)))
  | none => (false, Function.update rateLimiter ip (some (1, now)))

/-- Which attempts are refused. -/
def decisions (rateLimiter : RateLimiter ι) : List (ι × Nat) → List Bool
  | [] => []
  | (ip, now) :: attempts =>
    let (refused, rateLimiter) := rateLimiter.check ip now
    refused :: rateLimiter.decisions attempts

/-- The same for the attempts of one address. -/
def decisionsOf (ip : ι) (rateLimiter : RateLimiter ι) (attempts : List (ι × Nat)) : List Bool :=
  ((attempts.zip (rateLimiter.decisions attempts)).filter fun p => p.1.1 = ip).map Prod.snd

/-- What a check can do. -/
inductive Checked (ip : ι) (now : Nat) (r : RateLimiter ι) : Bool × RateLimiter ι → Prop where
  | refused {count start : Nat} (hentry : r ip = some (count, start))
      (hyoung : now - start < rateLimitWindow) (hfull : maxConnPerMinute ≤ count) :
      Checked ip now r (true, r)
  | joined {count start : Nat} (hentry : r ip = some (count, start))
      (hyoung : now - start < rateLimitWindow) (hroom : count < maxConnPerMinute) :
      Checked ip now r (false, Function.update r ip (some (count + 1, start)))
  | opened (hlate : ∀ count start, r ip = some (count, start) → rateLimitWindow ≤ now - start) :
      Checked ip now r (false, Function.update r ip (some (1, now)))

variable {ip : ι} {now : Nat} {r r' : RateLimiter ι}

theorem checked (ip : ι) (now : Nat) (r : RateLimiter ι) : Checked ip now r (r.check ip now) := by
  unfold check
  split
  · rename_i count start hentry
    split
    · rename_i hrefused
      exact .refused hentry hrefused.1 hrefused.2
    · split
      · rename_i hold
        refine .opened fun count' start' h => ?_
        rw [hentry] at h
        cases h
        exact hold
      · exact .joined hentry (by omega) (by omega)
  · rename_i hnone
    refine .opened fun count start h => ?_
    rw [hnone] at h
    cases h

/-- A refused attempt changes nothing. -/
theorem check_refused (h : (r.check ip now).1 = true) : (r.check ip now).2 = r := by
  have hchecked := checked ip now r
  generalize r.check ip now = p at h hchecked ⊢
  cases hchecked with
  | refused => rfl
  | joined => cases h
  | opened => cases h

/-- A window that has run out does not refuse. -/
theorem check_reopens {count start : Nat} (h : r ip = some (count, start))
    (hlate : start + rateLimitWindow ≤ now) : (r.check ip now).1 = false := by
  have hchecked := checked ip now r
  generalize r.check ip now = p at hchecked ⊢
  cases hchecked with
  | refused hentry hyoung =>
    rw [h] at hentry
    cases hentry
    omega
  | joined => rfl
  | opened => rfl

theorem check_other {other : ι} (h : ip ≠ other) : (r.check other now).2 ip = r ip := by
  unfold check
  split
  · split
    · rfl
    · split <;> exact Function.update_of_ne h _ _
  · exact Function.update_of_ne h _ _

theorem check_same (now : Nat) (h : r ip = r' ip) :
    (r.check ip now).1 = (r'.check ip now).1 ∧ (r.check ip now).2 ip = (r'.check ip now).2 ip := by
  unfold check
  rw [← h]
  split
  · split
    · exact ⟨rfl, h⟩
    · split <;> simp
  · simp

/-- The attempts of others do not matter. -/
theorem decisionsOf_eq (h : r ip = r' ip) (attempts : List (ι × Nat)) :
    r.decisionsOf ip attempts = r'.decisions (attempts.filter fun a => a.1 = ip) := by
  induction attempts generalizing r r' with
  | nil => rfl
  | cons a attempts ih =>
    obtain ⟨other, now⟩ := a
    by_cases he : other = ip
    · subst he
      obtain ⟨hrefused, hnext⟩ := check_same now h
      have hrest := ih hnext
      simp only [decisionsOf] at hrest
      simp [decisionsOf, decisions, hrefused, hrest]
    · have hrest := ih ((check_other (Ne.symm he)).trans h) (r := (r.check other now).2)
      simp only [decisionsOf] at hrest
      simp [decisionsOf, decisions, he, hrest]

end RateLimiter

/-- A limiter, with the attempts of each address that it has let in. -/
structure Gate (ι : Type) where
  rateLimiter : RateLimiter ι
  admitted : ι → List Admission

namespace Gate

def start : Gate ι := ⟨fun _ => none, fun _ => []⟩

/-- An attempt that is let in counts for the window recorded then. -/
def attempt (s : Gate ι) (a : ι × Nat) : Gate ι :=
  let (refused, rateLimiter) := s.rateLimiter.check a.1 a.2
  let opened := ((rateLimiter a.1).map Prod.snd).toList
  if refused then { s with rateLimiter }
  else
    ⟨rateLimiter, Function.update s.admitted a.1
      (s.admitted a.1 ++ opened.map fun start => ⟨start, a.2⟩)⟩

def run (attempts : List (ι × Nat)) : Gate ι := attempts.foldl attempt start

theorem attempt_rateLimiter (s : Gate ι) (a : ι × Nat) :
    (s.attempt a).rateLimiter = (s.rateLimiter.check a.1 a.2).2 := by
  simp only [attempt]
  split
  · rfl
  · rfl

/-- An attempt is among those let in if the check lets it in. -/
theorem attempt_admitted (s : Gate ι) (a : ι × Nat) (ip : ι) :
    ((s.attempt a).admitted ip).map Admission.time = (s.admitted ip).map Admission.time ++
      if a.1 = ip ∧ (s.rateLimiter.check a.1 a.2).1 = false then [a.2] else [] := by
  obtain ⟨other, now⟩ := a
  have hchecked := RateLimiter.checked other now s.rateLimiter
  unfold attempt
  generalize s.rateLimiter.check other now = p at hchecked
  by_cases he : other = ip
  · subst he
    cases hchecked with
    | refused => simp
    | joined => simp
    | opened => simp
  · have hne := Ne.symm he
    cases hchecked with
    | refused => simp
    | joined => simp [he, hne]
    | opened => simp [he, hne]

theorem foldl_admitted (s : Gate ι) (attempts : List (ι × Nat)) (ip : ι) :
    ((attempts.foldl attempt s).admitted ip).map Admission.time = (s.admitted ip).map Admission.time ++
      ((attempts.zip (s.rateLimiter.decisions attempts)).filter
        fun p => p.1.1 = ip ∧ p.2 = false).map fun p => p.1.2 := by
  induction attempts generalizing s with
  | nil => simp
  | cons a attempts ih =>
    have hstep := attempt_admitted s a ip
    have hrest := ih (s.attempt a)
    rw [attempt_rateLimiter] at hrest
    rw [List.foldl_cons, hrest, hstep, List.append_assoc]
    congr 1
    rw [RateLimiter.decisions, List.zip_cons_cons]
    by_cases hlet : a.1 = ip ∧ (s.rateLimiter.check a.1 a.2).1 = false
    · rw [if_pos hlet, List.filter_cons_of_pos (by simpa using hlet)]
      rfl
    · rw [if_neg hlet, List.filter_cons_of_neg (by simpa using hlet)]
      rfl

/-- The attempts of an address that are let in are those that the decisions do not refuse. -/
theorem run_admitted (attempts : List (ι × Nat)) (ip : ι) :
    ((run attempts).admitted ip).map Admission.time =
      ((attempts.zip (RateLimiter.decisions (fun _ => none) attempts)).filter
        fun p => p.1.1 = ip ∧ p.2 = false).map fun p => p.1.2 :=
  foldl_admitted start attempts ip

/-- The window recorded for an address is its last one, with the number of attempts let in. -/
structure Recorded (l : List Admission) (entry : Option (Nat × Nat)) (last : Nat) : Prop where
  counted : Counted rateLimitWindow maxConnPerMinute l
  fresh : entry = none → l = []
  window : ∀ count start, entry = some (count, start) →
    l.countP (fun a => a.start = start) = count ∧ 0 < count ∧ start ≤ last ∧
      ∀ a ∈ l, a.start ≤ start

def Inv (last : Nat) (s : Gate ι) : Prop :=
  ∀ ip, Recorded (s.admitted ip) (s.rateLimiter ip) last

variable {s : Gate ι} {last : Nat}

theorem recorded_nil : Recorded [] none last :=
  ⟨counted_nil _ _, fun _ => rfl, fun _ _ h => by cases h⟩

theorem Recorded.mono {l : List Admission} {entry : Option (Nat × Nat)} (h : Recorded l entry last)
    {now : Nat} (hle : last ≤ now) : Recorded l entry now := by
  refine ⟨h.counted, h.fresh, fun count start hentry => ?_⟩
  obtain ⟨hcount, hpos, hstart, hlast⟩ := h.window count start hentry
  exact ⟨hcount, hpos, Nat.le_trans hstart hle, hlast⟩

theorem Recorded.join {l : List Admission} {count start now : Nat}
    (h : Recorded l (some (count, start)) last) (hle : last ≤ now)
    (hyoung : now - start < rateLimitWindow) (hroom : count < maxConnPerMinute) :
    Recorded (l ++ [⟨start, now⟩]) (some (count + 1, start)) now := by
  obtain ⟨hcount, hpos, hstart, hlast⟩ := h.window count start rfl
  refine ⟨?_, fun hnone => absurd hnone (Option.some_ne_none _), ?_⟩
  · refine h.counted.join ?_ (by omega) (by omega)
    obtain ⟨a, ha, he⟩ := List.countP_pos_iff.mp (hcount ▸ hpos)
    exact ⟨a, ha, of_decide_eq_true he⟩
  · intro count' start' he
    cases he
    refine ⟨?_, by omega, by omega, ?_⟩
    · rw [List.countP_append, List.countP_singleton, if_pos (decide_eq_true rfl), hcount]
    · intro a ha
      obtain ha | ha := List.mem_append.mp ha
      · exact hlast a ha
      · obtain rfl := List.mem_singleton.mp ha
        exact Nat.le_refl _

theorem Recorded.opens {l : List Admission} {entry : Option (Nat × Nat)} {now : Nat}
    (h : Recorded l entry last)
    (hlate : ∀ count start, entry = some (count, start) → rateLimitWindow ≤ now - start) :
    Recorded (l ++ [⟨now, now⟩]) (some (1, now)) now := by
  have hwindow : 0 < rateLimitWindow := by decide
  have hold : ∀ a ∈ l, a.start + rateLimitWindow ≤ now := by
    intro a ha
    cases hentry : entry with
    | none =>
      rw [h.fresh hentry] at ha
      cases ha
    | some p =>
      obtain ⟨count, start⟩ := p
      obtain ⟨-, -, -, hlast⟩ := h.window count start hentry
      have hstart := hlate count start hentry
      have hle := hlast a ha
      omega
  have hnone := Windows.countP_start_eq_zero hwindow hold
  refine ⟨h.counted.opens hwindow (by decide) hold, fun hnone => absurd hnone (Option.some_ne_none _), ?_⟩
  intro count' start' he
  cases he
  refine ⟨?_, Nat.one_pos, Nat.le_refl _, ?_⟩
  · rw [List.countP_append, List.countP_singleton, if_pos (decide_eq_true rfl), hnone]
  · intro a ha
    obtain ha | ha := List.mem_append.mp ha
    · exact Nat.le_trans (Nat.le_add_right _ _) (hold a ha)
    · obtain rfl := List.mem_singleton.mp ha
      exact Nat.le_refl _

/-- One attempt. -/
theorem inv_attempt (h : s.Inv last) {a : ι × Nat} (hle : last ≤ a.2) : (s.attempt a).Inv a.2 := by
  obtain ⟨ip, now⟩ := a
  intro other
  have hother := (h other).mono hle
  have hchecked := RateLimiter.checked ip now s.rateLimiter
  unfold attempt
  generalize s.rateLimiter.check ip now = p at hchecked
  cases hchecked with
  | refused => exact hother
  | joined hentry hyoung hroom =>
    have hip := h ip
    rw [hentry] at hip
    by_cases he : other = ip
    · subst he
      simpa using hip.join hle hyoung hroom
    · simpa [he] using hother
  | opened hlate =>
    by_cases he : other = ip
    · subst he
      simpa using (h other).opens hlate
    · simpa [he] using hother

theorem inv_run {attempts : List (ι × Nat)} (h : s.Inv last)
    (hsorted : (attempts.map Prod.snd).Pairwise (· ≤ ·)) (hlast : ∀ a ∈ attempts, last ≤ a.2) :
    ∃ last, (attempts.foldl attempt s).Inv last := by
  induction attempts generalizing s last with
  | nil => exact ⟨last, h⟩
  | cons a attempts ih =>
    rw [List.map_cons, List.pairwise_cons] at hsorted
    refine ih (inv_attempt h (hlast a List.mem_cons_self)) hsorted.2 fun b hb => ?_
    exact hsorted.1 b.2 (List.mem_map_of_mem hb)

end Gate

/-- The windows of an address are a minute apart with ten attempts in each, so that there are twenty
in a minute; a window that has run out refuses nothing; and neither the attempts of others nor those
refused matter. -/
theorem connections_limited (attempts : List (ι × Nat))
    (hsorted : (attempts.map Prod.snd).Pairwise (· ≤ ·)) (ip : ι) :
    Counted rateLimitWindow maxConnPerMinute ((Gate.run attempts).admitted ip) ∧
      (∀ t, ((Gate.run attempts).admitted ip).countP
        (fun a => t ≤ a.time ∧ a.time ≤ t + rateLimitWindow) ≤ 20) ∧
      (∀ now count start, (Gate.run attempts).rateLimiter ip = some (count, start) →
        start + rateLimitWindow ≤ now →
        ((Gate.run attempts).rateLimiter.check ip now).1 = false) ∧
      RateLimiter.decisionsOf ip (fun _ => none) attempts =
        RateLimiter.decisions (fun _ => none) (attempts.filter fun a => a.1 = ip) ∧
      ∀ now, ((Gate.run attempts).rateLimiter.check ip now).1 = true →
        ((Gate.run attempts).rateLimiter.check ip now).2 = (Gate.run attempts).rateLimiter := by
  have hstart : Gate.Inv 0 (Gate.start : Gate ι) := fun _ => Gate.recorded_nil
  obtain ⟨last, hinv⟩ := Gate.inv_run hstart hsorted fun _ _ => Nat.zero_le _
  have hcounted := (hinv ip).counted
  exact ⟨hcounted, hcounted.interval, fun _ _ _ => RateLimiter.check_reopens,
    RateLimiter.decisionsOf_eq rfl attempts, fun _ => RateLimiter.check_refused⟩

end RateLimiter

/-- Eleven attempts at once, one of another address, and one a minute later. -/
def burst : List (Bool × Nat) := List.replicate 11 (true, 0) ++ [(false, 1), (true, rateLimitWindow)]

theorem connections_limited_burst :
    Counted rateLimitWindow maxConnPerMinute ((Gate.run burst).admitted true) ∧
      RateLimiter.decisionsOf true (fun _ => none) burst =
        List.replicate 10 false ++ [true, false] := by
  obtain ⟨hcounted, -, -, hdecisions, -⟩ := connections_limited burst (by decide) true
  exact ⟨hcounted, hdecisions.trans (by decide)⟩

end Sandcat
