import Mathlib.Data.Finset.Sort
import Mathlib.Data.Int.CardIntervalMod
import Mathlib.Data.String.Basic
import Mathlib.Logic.Relation

/-!
# The load balancer

A call reads the size of the set, draws from the shared counter and looks up one address, all under
one read guard. Calls interleave between these steps, and the set changes only while no guard is
alive. A call that has not got its guard yet has done nothing.
-/

namespace Sandcat

/-- A `BTreeSet` of addresses. -/
abbrev ServiceSet := Finset String

/-- `services.iter().nth(index).cloned()`. -/
def ServiceSet.nth (services : ServiceSet) (index : Nat) : Option String :=
  (services.sort (· ≤ ·))[index]?

namespace RoundRobin

/-- The index drawn, and the counter after `fetch_add`. -/
def index (counter servicesCount : Nat) : Nat × Nat := (counter % servicesCount, (counter + 1) % 2 ^ 64)

end RoundRobin

/-- A call of `get_service` that has got its guard. -/
inductive Call where
  | counted (servicesCount : Nat)
  | indexed (index : Nat)
  | answered (service : Option String)
  deriving DecidableEq, Repr

def Call.holdsGuard : Call → Bool
  | .answered _ => false
  | _ => true

structure LoadBalancer where
  services : ServiceSet
  counter : Nat
  calls : List Call

namespace LoadBalancer

/-- What the calls and the task of `update` do in one step. -/
inductive Step : LoadBalancer → LoadBalancer → Prop where
  | empty {s : LoadBalancer} : s.services.card = 0 → Step s { s with calls := .answered none :: s.calls }
  | read {s : LoadBalancer} : s.services.card ≠ 0 →
      Step s { s with calls := .counted s.services.card :: s.calls }
  | index {s : LoadBalancer} {xs ys : List Call} {servicesCount : Nat} :
      s.calls = xs ++ .counted servicesCount :: ys →
      Step s { s with
        counter := (RoundRobin.index s.counter servicesCount).2
        calls := xs ++ .indexed ((RoundRobin.index s.counter servicesCount).1 % servicesCount) :: ys }
  | nth {s : LoadBalancer} {xs ys : List Call} {index : Nat} :
      s.calls = xs ++ .indexed index :: ys →
      Step s { s with calls := xs ++ .answered (s.services.nth index) :: ys }
  | insert {s : LoadBalancer} (addr : String) : (∀ call ∈ s.calls, call.holdsGuard = false) →
      Step s { s with services := Insert.insert addr s.services }
  | remove {s : LoadBalancer} (addr : String) : (∀ call ∈ s.calls, call.holdsGuard = false) →
      Step s { s with services := s.services.erase addr }

/-- A step that leaves the set as it is. -/
def Steady (s t : LoadBalancer) : Prop := Step s t ∧ t.services = s.services

abbrev Reaches := Relation.ReflTransGen Step
abbrev SteadyReaches := Relation.ReflTransGen Steady

/-- A balancer before its calls. -/
def fresh (services : ServiceSet) (counter : Nat) : LoadBalancer := ⟨services, counter, []⟩

/-- What a call that holds its guard knows is true of the set. -/
def Informed (services : ServiceSet) : Call → Prop
  | .counted servicesCount => servicesCount = services.card ∧ 0 < servicesCount
  | .indexed index => index < services.card
  | .answered _ => True

end LoadBalancer

section Residues

variable {c k j : Nat}

/-- From `c` on a residue comes at the places of one residue. -/
theorem add_mod_eq_iff (hj : j < k) (i : Nat) : (c + i) % k = j ↔ i ≡ j + (k - 1) * c [MOD k] := by
  have hshift : c + (j + (k - 1) * c) = j + k * c := by
    obtain ⟨d, rfl⟩ := Nat.exists_eq_add_of_lt (Nat.zero_lt_of_lt hj)
    simp only [Nat.zero_add, Nat.add_sub_cancel]
    ring
  constructor
  · intro h
    apply Nat.ModEq.add_left_cancel' c
    rw [hshift, Nat.ModEq, Nat.add_mul_mod_self_left, h, Nat.mod_eq_of_lt hj]
  · intro h
    have hc := h.add_left c
    rw [hshift, Nat.ModEq, Nat.add_mul_mod_self_left, Nat.mod_eq_of_lt hj] at hc
    exact hc

theorem div_succ_eq (hk : 0 < k) {n : Nat} (hrest : 0 < n % k) : n / k + 1 = (n + k - 1) / k := by
  have hlast := Nat.mod_lt n hk
  have hdiv := Nat.mod_add_div n k
  have hsplit : n + k - 1 = (n % k - 1) + k * (n / k + 1) := by
    rw [Nat.mul_add]
    omega
  have hzero : (n % k - 1) / k = 0 := Nat.div_eq_of_lt (by omega)
  rw [hsplit, Nat.add_mul_div_left _ _ hk, hzero, Nat.zero_add]

/-- Consecutive numbers have a residue as often as any other, up to one. -/
theorem count_residue (hj : j < k) (n : Nat) :
    Nat.count (fun i => (c + i) % k = j) n = n / k ∨
      Nat.count (fun i => (c + i) % k = j) n = (n + k - 1) / k := by
  have hk : 0 < k := Nat.zero_lt_of_lt hj
  simp only [add_mod_eq_iff hj, Nat.count_modEq_card _ hk]
  split
  · rename_i hlt
    exact .inr (div_succ_eq hk (Nat.zero_lt_of_lt hlt))
  · exact .inl rfl

end Residues

namespace ServiceSet

variable {services : ServiceSet} {index index' : Nat} {service : String}

theorem exists_nth (h : index < services.card) : ∃ service ∈ services, services.nth index = some service := by
  rw [← Finset.length_sort (· ≤ ·)] at h
  exact ⟨_, (Finset.mem_sort _).mp (List.getElem_mem h), List.getElem?_eq_getElem h⟩

/-- A member has one place. -/
theorem exists_place (h : service ∈ services) :
    ∃ place < services.card, ∀ index, services.nth index = some service ↔ index = place := by
  obtain ⟨place, hlt, hplace⟩ := List.getElem_of_mem ((Finset.mem_sort (· ≤ ·)).mpr h)
  refine ⟨place, by rwa [Finset.length_sort] at hlt, ?_⟩
  intro index
  rw [nth, List.getElem?_eq_some_iff]
  constructor
  · rintro ⟨hindex, hservice⟩
    exact (Finset.sort_nodup services (· ≤ ·)).getElem_inj_iff.mp (hservice.trans hplace.symm)
  · rintro rfl
    exact ⟨hlt, hplace⟩

end ServiceSet

/-- The steps a call has before it. -/
def Call.stepsLeft : Call → Nat
  | .counted _ => 2
  | .indexed _ => 1
  | .answered _ => 0

/-- A call that has drawn from the counter. -/
def Call.drawn : Call → Bool
  | .counted _ => false
  | _ => true

/-- What a call answers, once that is settled. -/
def Call.settled (services : ServiceSet) : Call → Option String
  | .counted _ => none
  | .indexed index => services.nth index
  | .answered service => service

namespace Call

/-- A call that answers with an address. -/
def settles (services : ServiceSet) (m : String) (call : Call) : Bool :=
  decide (call.settled services = some m)

variable {services : ServiceSet} {n : Nat} {service : Option String} {m : String}

@[simp] theorem drawn_counted : (counted n).drawn = false := rfl
@[simp] theorem drawn_indexed : (indexed n).drawn = true := rfl
@[simp] theorem drawn_answered : (answered service).drawn = true := rfl
@[simp] theorem settles_counted : (counted n).settles services m = false := rfl
@[simp] theorem settles_indexed : (indexed n).settles services m = true ↔ services.nth n = some m :=
  decide_eq_true_iff
@[simp] theorem settles_answered : (answered service).settles services m = true ↔ service = some m :=
  decide_eq_true_iff

end Call

namespace LoadBalancer

variable {services : ServiceSet} {c : Nat} {s t : LoadBalancer}

theorem informed_step (h : ∀ call ∈ s.calls, Informed s.services call) (hstep : Step s t) :
    ∀ call ∈ t.calls, Informed t.services call := by
  cases hstep with
  | empty => exact List.forall_mem_cons.mpr ⟨trivial, h⟩
  | read hcard => exact List.forall_mem_cons.mpr ⟨⟨rfl, Nat.pos_of_ne_zero hcard⟩, h⟩
  | index hcalls =>
    rw [hcalls] at h
    simp only [List.forall_mem_append, List.forall_mem_cons] at h ⊢
    obtain ⟨hxs, ⟨rfl, hpos⟩, hys⟩ := h
    exact ⟨hxs, Nat.mod_lt _ hpos, hys⟩
  | nth hcalls =>
    rw [hcalls] at h
    simp only [List.forall_mem_append, List.forall_mem_cons] at h ⊢
    exact ⟨h.1, trivial, h.2.2⟩
  | insert addr hfree | remove addr hfree =>
    intro call hcall
    cases call with
    | answered service => trivial
    | counted n => cases hfree _ hcall
    | indexed n => cases hfree _ hcall

theorem informed (h : Reaches (fresh services c) s) : ∀ call ∈ s.calls, Informed s.services call := by
  induction h with
  | refl => exact fun call h => by cases h
  | tail _ hstep ih => exact informed_step ih hstep

/-- In one step at most one call returns, with a member of the set as it is then, or with nothing if
the set is empty. -/
theorem answer_step (h : ∀ call ∈ s.calls, Informed s.services call) (hstep : Step s t)
    {service : Option String}
    (hreturns : s.calls.count (.answered service) < t.calls.count (.answered service)) :
    (∃ m ∈ t.services, service = some m) ∨ t.services = ∅ ∧ service = none := by
  cases hstep with
  | empty hcard =>
    rw [List.count_cons] at hreturns
    have hnone : service = none := by
      by_contra hne
      rw [if_neg (by simpa using Ne.symm hne)] at hreturns
      omega
    exact .inr ⟨Finset.card_eq_zero.mp hcard, hnone⟩
  | read hcard => simp at hreturns
  | index hcalls => simp [hcalls] at hreturns
  | nth hcalls =>
    rename_i xs ys index
    simp only [hcalls, List.count_append, List.count_cons] at hreturns
    obtain ⟨m, hm, hnth⟩ := ServiceSet.exists_nth (h (.indexed index) (by simp [hcalls]))
    have hservice : s.services.nth index = service := by
      by_contra hne
      simp [hne] at hreturns
    exact .inl ⟨m, hm, hservice.symm.trans hnth⟩
  | insert addr hfree | remove addr hfree => exact absurd hreturns (lt_irrefl _)

/-- While the set is the same, the answers that are settled are the ones of the numbers drawn. -/
structure Spread (services : ServiceSet) (c : Nat) (s : LoadBalancer) : Prop where
  services_eq : s.services = services
  counter : s.counter = (c + s.calls.countP Call.drawn) % 2 ^ 64
  informed : ∀ call ∈ s.calls, Informed services call
  members : ∀ service, .answered service ∈ s.calls → ∃ m ∈ services, service = some m
  settled : ∀ m, s.calls.countP (Call.settles services m) =
    Nat.count (fun i => services.nth ((c + i) % 2 ^ 64 % services.card) = some m)
      (s.calls.countP Call.drawn)

theorem spread_fresh (hc : c < 2 ^ 64) : Spread services c (fresh services c) where
  services_eq := rfl
  counter := (Nat.mod_eq_of_lt hc).symm
  informed := fun call h => by cases h
  members := fun service h => by cases h
  settled := fun m => by simp [fresh]

theorem Spread.step (h : Spread services c s) (hne : services.card ≠ 0) (hstep : Steady s t) :
    Spread services c t := by
  obtain ⟨hstep, hsame⟩ := hstep
  have hold := h.informed
  have hinformed := informed_step (h.services_eq.symm ▸ h.informed) hstep
  rw [hsame, h.services_eq] at hinformed
  obtain ⟨rfl, hcounter, -, hmembers, hsettled⟩ := h
  cases hstep with
  | empty hcard => exact absurd hcard hne
  | read _ =>
    refine ⟨rfl, ?_, hinformed, ?_, ?_⟩
    · simpa using hcounter
    · intro service h
      exact hmembers service (by simpa using h)
    · intro m
      simpa using hsettled m
  | index hcalls =>
    rename_i xs ys servicesCount
    rw [hcalls] at hold hcounter hmembers hsettled
    obtain ⟨rfl, -⟩ := hold (.counted servicesCount) (by simp)
    -- the number drawn is the next one after those drawn before
    simp only [List.countP_append, List.countP_cons, Call.drawn_counted, Call.settles_counted,
      Bool.false_eq_true, if_false, Nat.add_zero] at hcounter hsettled
    refine ⟨rfl, ?_, hinformed, ?_, ?_⟩
    · simp only [List.countP_append, List.countP_cons, Call.drawn_indexed, if_true, RoundRobin.index,
        hcounter]
      omega
    · intro service h
      exact hmembers service (by simpa using h)
    · intro m
      simp only [List.countP_append, List.countP_cons, Call.drawn_indexed, Call.settles_indexed,
        if_true, ← Nat.add_assoc, Nat.count_succ, ← hsettled m, RoundRobin.index, hcounter,
        Nat.mod_mod]
  | nth hcalls =>
    rename_i xs ys index
    rw [hcalls] at hold hcounter hmembers hsettled
    have hlt : index < s.services.card := hold (.indexed index) (by simp)
    refine ⟨rfl, ?_, hinformed, ?_, ?_⟩
    · simpa [List.countP_cons] using hcounter
    · intro service h
      simp only [List.mem_append, List.mem_cons, Call.answered.injEq] at h
      obtain h | rfl | h := h
      · exact hmembers service (by simp [h])
      · exact ServiceSet.exists_nth hlt
      · exact hmembers service (by simp [h])
    · intro m
      simpa [List.countP_cons] using hsettled m
  | insert addr hfree | remove addr hfree =>
    exact ⟨hsame, hcounter, hinformed, hmembers, hsettled⟩

theorem SteadyReaches.spread (h : SteadyReaches (fresh services c) s) (hc : c < 2 ^ 64)
    (hne : services.card ≠ 0) : Spread services c s := by
  induction h with
  | refl => exact spread_fresh hc
  | tail _ hstep ih => exact ih.step hne hstep

/-- When all calls have answered, an address has as many answers as numbers drawn fall on it. -/
theorem Spread.count_answered (h : Spread services c s)
    (hdone : ∀ call ∈ s.calls, ∃ service, call = .answered service) (m : String) :
    s.calls.count (.answered (some m)) =
      Nat.count (fun i => services.nth ((c + i) % 2 ^ 64 % services.card) = some m)
        s.calls.length := by
  have hdrawn : s.calls.countP Call.drawn = s.calls.length := by
    rw [List.countP_eq_length]
    intro call hcall
    obtain ⟨service, rfl⟩ := hdone call hcall
    rfl
  rw [← hdrawn, ← h.settled, List.count]
  apply List.countP_congr
  intro call hcall
  obtain ⟨service, rfl⟩ := hdone call hcall
  simp

/-- Calls under way can all come to their ends, whatever the others did. -/
theorem exists_answered (s : LoadBalancer) : ∃ t, SteadyReaches s t ∧
    t.calls.length = s.calls.length ∧ ∀ call ∈ t.calls, ∃ service, call = .answered service := by
  induction hn : (s.calls.map Call.stepsLeft).sum using Nat.strongRecOn generalizing s with
  | _ n ih =>
    by_cases hall : ∀ call ∈ s.calls, ∃ service, call = .answered service
    · exact ⟨s, .refl, rfl, hall⟩
    · obtain ⟨call, hcall, hopen⟩ : ∃ call ∈ s.calls, ∀ service, call ≠ .answered service := by
        simpa using hall
      obtain ⟨xs, ys, hcalls⟩ := List.append_of_mem hcall
      obtain ⟨t, hstep, hlength, hlt⟩ : ∃ t, Steady s t ∧ t.calls.length = s.calls.length ∧
          (t.calls.map Call.stepsLeft).sum < (s.calls.map Call.stepsLeft).sum := by
        cases call with
        | counted servicesCount =>
          exact ⟨_, ⟨.index hcalls, rfl⟩, by simp [hcalls], by simp [hcalls, Call.stepsLeft]⟩
        | indexed index =>
          exact ⟨_, ⟨.nth hcalls, rfl⟩, by simp [hcalls], by simp [hcalls, Call.stepsLeft]⟩
        | answered service => exact absurd rfl (hopen service)
      obtain ⟨u, hrun, hsame, hdone⟩ := ih _ (hn ▸ hlt) t rfl
      exact ⟨u, .head hstep hrun, hsame.trans hlength, hdone⟩

end LoadBalancer

open LoadBalancer

/-- While the set does not change, all calls return members, each as often as any other up to one.
Whatever changes, a call returns a member of the set as it is then, and nothing only if it is
empty; and the calls under way can always come to their ends. -/
theorem round_robin_fair (services : ServiceSet) (c : Nat) :
    (services ≠ ∅ → ∀ s, SteadyReaches (fresh services c) s →
      (∀ call ∈ s.calls, ∃ service, call = .answered service) → c + s.calls.length < 2 ^ 64 →
      (∀ call ∈ s.calls, ∃ m ∈ services, call = .answered (some m)) ∧
      ∀ m ∈ services,
        s.calls.count (.answered (some m)) = s.calls.length / services.card ∨
        s.calls.count (.answered (some m)) =
          (s.calls.length + services.card - 1) / services.card) ∧
    (∀ s t service, Reaches (fresh services c) s → Step s t →
      s.calls.count (.answered service) < t.calls.count (.answered service) →
      (∃ m ∈ t.services, service = some m) ∨ t.services = ∅ ∧ service = none) ∧
    ∀ s, Reaches (fresh services c) s → ∃ t, SteadyReaches s t ∧
      t.calls.length = s.calls.length ∧ ∀ call ∈ t.calls, ∃ service, call = .answered service := by
  refine ⟨?_, ?_, fun s _ => exists_answered s⟩
  · intro hne s hrun hdone hn
    have hcard : services.card ≠ 0 := by simpa using hne
    have hspread := hrun.spread (by omega) hcard
    refine ⟨?_, ?_⟩
    · intro call hcall
      obtain ⟨service, rfl⟩ := hdone call hcall
      obtain ⟨m, hm, rfl⟩ := hspread.members service hcall
      exact ⟨m, hm, rfl⟩
    · intro m hm
      obtain ⟨place, hplace, hnth⟩ := ServiceSet.exists_place hm
      have hcount : s.calls.count (.answered (some m)) =
          Nat.count (fun i => (c + i) % services.card = place) s.calls.length := by
        rw [hspread.count_answered hdone m, Nat.count_eq_card_filter_range,
          Nat.count_eq_card_filter_range]
        congr 1
        apply Finset.filter_congr
        intro i hi
        rw [Finset.mem_range] at hi
        rw [hnth, Nat.mod_eq_of_lt (by omega : c + i < 2 ^ 64)]
      rw [hcount]
      exact count_residue hplace _
  · intro s t service hrun hstep hreturns
    exact answer_step (informed hrun) hstep hreturns

/-- Two calls side by side take the two addresses. -/
theorem round_robin_fair_two : ∃ s, SteadyReaches (fresh {"a", "b"} 0) s ∧
    s.calls.count (.answered (some "a")) = 1 ∧ s.calls.count (.answered (some "b")) = 1 := by
  have hread : Steady (fresh {"a", "b"} 0) ⟨{"a", "b"}, 0, [.counted 2]⟩ := ⟨.read (by decide), rfl⟩
  have hread' : Steady ⟨{"a", "b"}, 0, [.counted 2]⟩ ⟨{"a", "b"}, 0, [.counted 2, .counted 2]⟩ :=
    ⟨.read (by decide), rfl⟩
  have hindex : Steady ⟨{"a", "b"}, 0, [.counted 2, .counted 2]⟩
      ⟨{"a", "b"}, 1, [.counted 2, .indexed 0]⟩ := ⟨@Step.index ⟨_, 0, _⟩ [.counted 2] [] 2 rfl, rfl⟩
  have hindex' : Steady ⟨{"a", "b"}, 1, [.counted 2, .indexed 0]⟩
      ⟨{"a", "b"}, 2, [.indexed 1, .indexed 0]⟩ := ⟨@Step.index ⟨_, 1, _⟩ [] [.indexed 0] 2 rfl, rfl⟩
  have hnth : Steady ⟨{"a", "b"}, 2, [.indexed 1, .indexed 0]⟩
      ⟨{"a", "b"}, 2, [.answered (ServiceSet.nth {"a", "b"} 1), .indexed 0]⟩ :=
    ⟨@Step.nth ⟨_, 2, _⟩ [] [.indexed 0] 1 rfl, rfl⟩
  have hnth' : Steady ⟨{"a", "b"}, 2, [.answered (ServiceSet.nth {"a", "b"} 1), .indexed 0]⟩
      ⟨{"a", "b"}, 2, [.answered (ServiceSet.nth {"a", "b"} 1),
        .answered (ServiceSet.nth {"a", "b"} 0)]⟩ :=
    ⟨@Step.nth ⟨_, 2, _⟩ [.answered (ServiceSet.nth {"a", "b"} 1)] [] 0 rfl, rfl⟩
  have hrun := (((((Relation.ReflTransGen.single hread).tail hread').tail hindex).tail hindex').tail
    hnth).tail hnth'
  obtain ⟨-, hcount⟩ := (round_robin_fair {"a", "b"} 0).1 (by decide) _ hrun (by simp) (by decide)
  refine ⟨_, hrun, ?_, ?_⟩
  · simpa using hcount "a" (by decide)
  · simpa using hcount "b" (by decide)

end Sandcat
