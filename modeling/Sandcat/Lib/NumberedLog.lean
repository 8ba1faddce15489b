import Sandcat.Lib.Consecutive
import Mathlib.Data.List.Nodup
import Mathlib.Data.List.Perm.Basic
import Mathlib.Data.List.ReduceOption

/-!
# Numbered logs

A log gives its entries consecutive numbers, from the one after `base` on. Entries are added at the end;
an entry can be changed or taken out, and then its number stays empty.
-/

namespace NumberedLog

open Consecutive

variable {α κ : Type}

abbrev Log (α : Type) := List (Option α)

/-- The entry with a number. -/
def entry (base : Int) (log : Log α) (n : Int) : Option α :=
  if base < n then (log[(n - base - 1).toNat]?).join else none

/-- A new entry, or a number without one. -/
def post (o : Option α) (log : Log α) : Log α := log ++ [o]

/-- Change the entries whose numbers are chosen. -/
def amend (base : Int) (p : Int → Bool) (f : α → α) (log : Log α) : Log α :=
  log.mapIdx fun i o => if p (base + i + 1) then o.map f else o

/-- Take the entries out whose numbers are chosen. -/
def discard (base : Int) (p : Int → Bool) (log : Log α) : Log α :=
  log.mapIdx fun i o => if p (base + i + 1) then none else o

/-- The entries with the numbers after `c` up to `c + n`, in order. -/
def entries (base : Int) (log : Log α) (c : Int) (n : Nat) : List α :=
  (above c n).filterMap (entry base log)

variable {base : Int} {log : Log α} {n : Int}

@[simp] theorem length_post (o : Option α) : (post o log).length = log.length + 1 := by simp [post]

@[simp] theorem length_amend (p : Int → Bool) (f : α → α) : (amend base p f log).length = log.length := by
  simp [amend]

@[simp] theorem length_discard (p : Int → Bool) : (discard base p log).length = log.length := by
  simp [discard]

theorem entry_nil : entry base ([] : Log α) n = none := by simp [entry]

theorem entry_of_gt (h : base + log.length < n) : entry base log n = none := by
  unfold entry
  split
  · rw [List.getElem?_eq_none (by omega)]
    rfl
  · rfl

theorem entry_post (o : Option α) :
    entry base (post o log) n = if n = base + log.length + 1 then o else entry base log n := by
  by_cases hn : n = base + log.length + 1
  · rw [if_pos hn, entry, if_pos (by omega), post, show (n - base - 1).toNat = log.length from by omega,
      List.getElem?_concat_length]
    rfl
  · rw [if_neg hn]
    by_cases hlt : n ≤ base + log.length
    · unfold entry
      split
      · rw [post, List.getElem?_append_left (by omega)]
      · rfl
    · have hpost : base + (post o log).length < n := by
        rw [length_post]
        omega
      rw [entry_of_gt hpost, entry_of_gt (by omega)]

theorem entry_amend (p : Int → Bool) (f : α → α) :
    entry base (amend base p f log) n =
      if p n then (entry base log n).map f else entry base log n := by
  unfold entry amend
  by_cases hn : base < n
  · rw [if_pos hn, if_pos hn, List.getElem?_mapIdx,
      show base + ((n - base - 1).toNat : Int) + 1 = n from by omega]
    cases log[(n - base - 1).toNat]? with
    | none => simp
    | some o => cases p n <;> simp
  · simp [hn]

theorem entry_discard (p : Int → Bool) :
    entry base (discard base p log) n = if p n then none else entry base log n := by
  unfold entry discard
  by_cases hn : base < n
  · rw [if_pos hn, if_pos hn, List.getElem?_mapIdx,
      show base + ((n - base - 1).toNat : Int) + 1 = n from by omega]
    cases log[(n - base - 1).toNat]? with
    | none => simp
    | some o => cases p n <;> simp
  · simp [hn]

/-- Entries that are changed in place or taken out stay in order. -/
theorem mapIdx_sublist (key : α → κ) (log : Log α) {f : Nat → Option α → Option α}
    (hf : ∀ i o, f i o = none ∨ (f i o).map key = o.map key) :
    ((log.mapIdx f).reduceOption.map key).Sublist (log.reduceOption.map key) := by
  induction log generalizing f with
  | nil => exact List.Sublist.refl _
  | cons o log ih =>
    have hrest := ih (f := fun i => f (i + 1)) fun i => hf (i + 1)
    rw [List.mapIdx_cons]
    rcases hf 0 o with h0 | h0
    · rw [h0, List.reduceOption_cons_of_none]
      cases o with
      | none => exact hrest
      | some a => exact hrest.cons _
    · cases o with
      | none =>
        rw [Option.map_none, Option.map_eq_none_iff] at h0
        rw [h0]
        exact hrest
      | some a =>
        obtain ⟨b, hb, hkey⟩ := Option.map_eq_some_iff.mp h0
        rw [hb, List.reduceOption_cons_of_some, List.reduceOption_cons_of_some, List.map_cons, List.map_cons,
          hkey]
        exact hrest.cons_cons _

theorem amend_sublist (key : α → κ) (p : Int → Bool) {f : α → α} (hf : ∀ a, key (f a) = key a) :
    ((amend base p f log).reduceOption.map key).Sublist (log.reduceOption.map key) := by
  apply mapIdx_sublist
  intro i o
  right
  split
  · rw [Option.map_map]
    exact congrArg (Option.map · o) (funext hf)
  · rfl

theorem discard_sublist (key : α → κ) (p : Int → Bool) :
    ((discard base p log).reduceOption.map key).Sublist (log.reduceOption.map key) := by
  apply mapIdx_sublist
  intro i o
  split
  · exact .inl rfl
  · exact .inr rfl

theorem mem_amend {p : Int → Bool} {f : α → α} {a : α} (h : some a ∈ amend base p f log) :
    some a ∈ log ∨ ∃ b, some b ∈ log ∧ a = f b := by
  obtain ⟨i, hi, hai⟩ := List.mem_mapIdx.mp h
  split at hai
  · obtain ⟨b, hb, rfl⟩ := Option.map_eq_some_iff.mp hai
    exact .inr ⟨b, hb ▸ List.getElem_mem hi, rfl⟩
  · exact .inl (hai ▸ List.getElem_mem hi)

theorem mem_discard {p : Int → Bool} {a : α} (h : some a ∈ discard base p log) : some a ∈ log := by
  obtain ⟨i, hi, hai⟩ := List.mem_mapIdx.mp h
  split at hai
  · cases hai
  · exact hai ▸ List.getElem_mem hi

/-- The items whose keys are listed, key by key. -/
theorem filter_perm_flatMap [DecidableEq κ] (key : α → κ) (l : List α) {ks : List κ} (hks : ks.Nodup)
    {p : α → Bool} (hp : ∀ a, p a = true ↔ key a ∈ ks) :
    (l.filter p).Perm (ks.flatMap fun k => l.filter fun a => key a = k) := by
  induction ks generalizing p with
  | nil =>
    have hnone : l.filter p = [] := by
      rw [List.filter_eq_nil_iff]
      intro a _ ha
      cases (hp a).mp ha
    rw [hnone, List.flatMap_nil]
  | cons k ks ih =>
    obtain ⟨hk, hks⟩ := List.nodup_cons.mp hks
    rw [List.flatMap_cons]
    have hrest := ih hks (p := fun a => p a && !decide (key a = k)) fun a => by
      rw [Bool.and_eq_true, hp, List.mem_cons, Bool.not_eq_true', decide_eq_false_iff_not]
      constructor
      · rintro ⟨h | h, hne⟩
        · exact absurd h hne
        · exact h
      · intro h
        exact ⟨.inr h, fun he => hk (he ▸ h)⟩
    refine List.Perm.trans ?_ (hrest.append_left _)
    refine (List.filter_append_perm (fun a => decide (key a = k)) (l.filter p)).symm.trans (.of_eq ?_)
    rw [List.filter_filter, List.filter_filter]
    congr 1
    · apply List.filter_congr
      intro a _
      by_cases ha : key a = k
      · have : p a = true := (hp a).mpr (ha ▸ List.mem_cons_self)
        simp [ha, this]
      · simp [ha]
    · apply List.filter_congr
      intro a _
      exact Bool.and_comm ..

end NumberedLog
