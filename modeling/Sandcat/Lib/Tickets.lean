import Mathlib.Data.List.Nodup
import Mathlib.Data.List.Pairwise
import Mathlib.Logic.Function.Basic

/-!
# Tickets

A counter hands out numbered tickets. A ticket is held by one party, who may drop it or spend it once. What
holds between any two tickets that were handed out holds then between any two that were spent.
-/

/-- The tickets that parties hold and those that were spent, with what they were handed out for. -/
structure Tickets {ι α : Type*} (held : ι → Option (ℕ × α)) (issued : List α) (spent : List (ℕ × α)) : Prop where
  of_held : ∀ i k a, held i = some (k, a) → issued[k]? = some a
  alone : ∀ i j k a b, held i = some (k, a) → held j = some (k, b) → i = j
  of_spent : ∀ p ∈ spent, issued[p.1]? = some p.2
  nodup : (spent.map Prod.fst).Nodup
  unspent : ∀ i k a, held i = some (k, a) → k ∉ spent.map Prod.fst

namespace Tickets

variable {ι α : Type*} {held held' : ι → Option (ℕ × α)} {issued : List α} {spent : List (ℕ × α)}

theorem empty : Tickets (fun _ : ι => none) ([] : List α) [] where
  of_held := fun _ _ _ h => by cases h
  alone := fun _ _ _ _ _ h => by cases h
  of_spent := fun _ h => by cases h
  nodup := List.nodup_nil
  unspent := fun _ _ _ h => by cases h

/-- Parties may drop their tickets. -/
theorem drop (h : Tickets held issued spent) (hheld : ∀ i p, held' i = some p → held i = some p) :
    Tickets held' issued spent where
  of_held := fun i k a hi => h.of_held i k a (hheld i _ hi)
  alone := fun i j k a b hi hj => h.alone i j k a b (hheld i _ hi) (hheld j _ hj)
  of_spent := h.of_spent
  nodup := h.nodup
  unspent := fun i k a hi => h.unspent i k a (hheld i _ hi)

theorem lt_of_held (h : Tickets held issued spent) {i : ι} {k : ℕ} {a : α} (hi : held i = some (k, a)) :
    k < issued.length :=
  (List.getElem?_eq_some_iff.mp (h.of_held i k a hi)).1

theorem getElem?_concat {k : ℕ} {a b : α} (h : issued[k]? = some a) : (issued ++ [b])[k]? = some a := by
  rw [List.getElem?_append_left (List.getElem?_eq_some_iff.mp h).1]
  exact h

/-- The next ticket goes to a party. -/
theorem issue [DecidableEq ι] (h : Tickets held issued spent) (i : ι) (a : α) :
    Tickets (Function.update held i (some (issued.length, a))) (issued ++ [a]) spent := by
  have hcases : ∀ j k b, Function.update held i (some (issued.length, a)) j = some (k, b) →
      j = i ∧ k = issued.length ∧ a = b ∨ j ≠ i ∧ held j = some (k, b) := by
    intro j k b hj
    by_cases hij : j = i
    · subst hij
      rw [Function.update_self] at hj
      cases hj
      exact .inl ⟨rfl, rfl, rfl⟩
    · rw [Function.update_of_ne hij] at hj
      exact .inr ⟨hij, hj⟩
  refine ⟨?_, ?_, ?_, h.nodup, ?_⟩
  · intro j k b hj
    obtain ⟨-, rfl, rfl⟩ | ⟨-, hj⟩ := hcases j k b hj
    · simp
    · exact getElem?_concat (h.of_held j k b hj)
  · intro j j' k b b' hj hj'
    obtain ⟨rfl, rfl, -⟩ | ⟨-, hold⟩ := hcases j k b hj
    · obtain ⟨rfl, -, -⟩ | ⟨-, hold⟩ := hcases j' _ b' hj'
      · rfl
      · exact absurd (h.lt_of_held hold) (Nat.lt_irrefl _)
    · obtain ⟨rfl, rfl, -⟩ | ⟨-, hold'⟩ := hcases j' k b' hj'
      · exact absurd (h.lt_of_held hold) (Nat.lt_irrefl _)
      · exact h.alone j j' k b b' hold hold'
  · exact fun p hp => getElem?_concat (h.of_spent p hp)
  · intro j k b hj hmem
    obtain ⟨-, rfl, -⟩ | ⟨-, hj⟩ := hcases j k b hj
    · obtain ⟨p, hp, he⟩ := List.mem_map.mp hmem
      have hlt := (List.getElem?_eq_some_iff.mp (h.of_spent p hp)).1
      rw [he] at hlt
      exact Nat.lt_irrefl _ hlt
    · exact h.unspent j k b hj hmem

/-- A party spends its ticket. -/
theorem spend (h : Tickets held issued spent) {i : ι} {p : ℕ × α} (hi : held i = some p)
    (hheld : ∀ j q, held' j = some q → j ≠ i ∧ held j = some q) : Tickets held' issued (spent ++ [p]) := by
  have hdrop := h.drop fun j q hj => (hheld j q hj).2
  refine ⟨hdrop.of_held, hdrop.alone, ?_, ?_, ?_⟩
  · intro q hq
    obtain hq | hq := List.mem_append.mp hq
    · exact h.of_spent q hq
    · rw [List.mem_singleton.mp hq]
      exact h.of_held i _ _ hi
  · rw [List.map_append, List.nodup_append]
    refine ⟨h.nodup, List.nodup_singleton _, ?_⟩
    rintro k hk l hl rfl
    rw [List.mem_singleton.mp hl] at hk
    exact h.unspent i _ _ hi hk
  · intro j k a hj hmem
    obtain ⟨hne, hheld⟩ := hheld j _ hj
    rw [List.map_append, List.mem_append] at hmem
    obtain hmem | hmem := hmem
    · exact h.unspent j k a hheld hmem
    · rw [List.map_singleton, List.mem_singleton] at hmem
      subst hmem
      exact hne (h.alone j i _ a p.2 hheld hi)

/-- What holds between the tickets holds between the spent ones. -/
theorem pairwise (h : Tickets held issued spent) {R : α → α → Prop} (hsymm : ∀ a b, R a b → R b a)
    (hissued : issued.Pairwise R) : spent.Pairwise fun p q => R p.2 q.2 := by
  refine (List.pairwise_map.mp h.nodup).imp_of_mem ?_
  intro p q hp hq hne
  obtain ⟨hltp, hgetp⟩ := List.getElem?_eq_some_iff.mp (h.of_spent p hp)
  obtain ⟨hltq, hgetq⟩ := List.getElem?_eq_some_iff.mp (h.of_spent q hq)
  rw [← hgetp, ← hgetq]
  obtain hlt | hlt := Nat.lt_or_gt_of_ne hne
  · exact List.pairwise_iff_getElem.mp hissued _ _ hltp hltq hlt
  · exact hsymm _ _ (List.pairwise_iff_getElem.mp hissued _ _ hltq hltp hlt)

end Tickets
