import Mathlib.Data.Finset.Basic

/-!
# A set kept up to date by changes

Whoever holds a copy of a set is told what is inserted and what is removed. The changes from one set
to another are the insertions of what is new and then the removals of what is gone; an element that
cannot be inserted is passed over, and removed all the same.
-/

namespace Changes

variable {α ε : Type}

/-- A change, with what goes with a new element. -/
inductive Change (α ε : Type) where
  | insert (a : α) (e : ε)
  | remove (a : α)

/-- The insertions of what can be inserted. -/
def inserts (build : α → Option ε) (l : List α) : List (Change α ε) :=
  l.filterMap fun a => (build a).map (.insert a)

def removes (l : List α) : List (Change α ε) := l.map .remove

section Inserts

variable {build : α → Option ε} {a : α}

@[simp] theorem inserts_nil : inserts build [] = [] := rfl

theorem inserts_cons_none (h : build a = none) (l : List α) :
    inserts build (a :: l) = inserts build l := by
  simp [inserts, h]

theorem inserts_cons_some {e : ε} (h : build a = some e) (l : List α) :
    inserts build (a :: l) = .insert a e :: inserts build l := by
  simp [inserts, h]

@[simp] theorem removes_nil : (removes [] : List (Change α ε)) = [] := rfl

@[simp] theorem removes_cons (l : List α) :
    (removes (a :: l) : List (Change α ε)) = .remove a :: removes l :=
  rfl

end Inserts

variable [DecidableEq α]

def Change.apply (s : Finset α) : Change α ε → Finset α
  | .insert a _ => Insert.insert a s
  | .remove a => s.erase a

def applyAll (s : Finset α) (cs : List (Change α ε)) : Finset α := cs.foldl Change.apply s

/-- No change inserts what is there. -/
def Fresh (s : Finset α) : List (Change α ε) → Prop
  | [] => True
  | c :: cs => (∀ a e, c = .insert a e → a ∉ s) ∧ Fresh (c.apply s) cs

variable {s : Finset α} {cs ds : List (Change α ε)}

@[simp] theorem applyAll_nil : applyAll s ([] : List (Change α ε)) = s := rfl

@[simp] theorem applyAll_cons_insert (a : α) (e : ε) :
    applyAll s (.insert a e :: cs) = applyAll (Insert.insert a s) cs :=
  rfl

@[simp] theorem applyAll_cons_remove (a : α) :
    applyAll s (.remove a :: cs) = applyAll (s.erase a) cs :=
  rfl

theorem applyAll_append (s : Finset α) (cs ds : List (Change α ε)) :
    applyAll s (cs ++ ds) = applyAll (applyAll s cs) ds := List.foldl_append

theorem fresh_append : Fresh s (cs ++ ds) ↔ Fresh s cs ∧ Fresh (applyAll s cs) ds := by
  induction cs generalizing s with
  | nil => simp [Fresh]
  | cons c cs ih =>
    rw [List.cons_append, Fresh, Fresh, ih, and_assoc]
    rfl

/-- What is inserted was not there. -/
theorem Fresh.not_mem {a : α} {e : ε} (h : Fresh s (cs ++ .insert a e :: ds)) : a ∉ applyAll s cs :=
  (fresh_append.mp h).2.1 a e rfl

/-- In the set at first or inserted since, and not removed after that. -/
def Stays (s : Finset α) (a : α) (cs : List (Change α ε)) : Prop :=
  (a ∈ s ∧ .remove a ∉ cs) ∨
    ∃ e before after, cs = before ++ .insert a e :: after ∧ .remove a ∉ after

theorem stays_cons {a : α} {c : Change α ε} :
    Stays s a (c :: cs) ↔ Stays (c.apply s) a cs := by
  constructor
  · rintro (⟨ha, hnot⟩ | ⟨e, before, after, hcs, hnot⟩)
    · rw [List.mem_cons, not_or] at hnot
      refine .inl ⟨?_, hnot.2⟩
      cases c with
      | insert b e => exact Finset.mem_insert_of_mem ha
      | remove b => exact Finset.mem_erase.mpr ⟨fun h => hnot.1 (by rw [h]), ha⟩
    · obtain ⟨-, hc⟩ | ⟨rest, -, hrest⟩ := List.cons_eq_append_iff.mp hcs
      · cases hc
        exact .inl ⟨Finset.mem_insert_self a s, hnot⟩
      · exact .inr ⟨e, rest, after, hrest, hnot⟩
  · rintro (⟨ha, hnot⟩ | ⟨e, before, after, rfl, hnot⟩)
    · cases c with
      | insert b e =>
        obtain rfl | ha := Finset.mem_insert.mp ha
        · exact .inr ⟨e, [], cs, rfl, hnot⟩
        · exact .inl ⟨ha, by simpa using hnot⟩
      | remove b =>
        obtain ⟨hne, ha⟩ := Finset.mem_erase.mp ha
        exact .inl ⟨ha, by simp [hne, hnot]⟩
    · exact .inr ⟨e, c :: before, after, rfl, hnot⟩

theorem mem_applyAll_iff {a : α} : a ∈ applyAll s cs ↔ Stays s a cs := by
  induction cs generalizing s with
  | nil => simp [Stays]
  | cons c cs ih => exact ih.trans stays_cons.symm
variable {build : α → Option ε} {l : List α}

theorem mem_applyAll_inserts {x : α} :
    x ∈ applyAll s (inserts build l) ↔ x ∈ s ∨ x ∈ l ∧ (build x).isSome := by
  induction l generalizing s with
  | nil => simp
  | cons a l ih =>
    cases h : build a with
    | none =>
      rw [inserts_cons_none h, ih, List.mem_cons, or_and_right]
      have hnone : ¬(x = a ∧ (build x).isSome) := by
        rintro ⟨rfl, hbuild⟩
        rw [h] at hbuild
        cases hbuild
      simp [hnone]
    | some e =>
      rw [inserts_cons_some h, applyAll_cons_insert, ih, Finset.mem_insert, List.mem_cons,
        or_and_right]
      have hsome : x = a ∧ (build x).isSome ↔ x = a := by
        refine and_iff_left_of_imp ?_
        rintro rfl
        rw [h]
        rfl
      rw [hsome, ← or_assoc, or_comm (a := x ∈ s)]

/-- Different elements that are not there. -/
theorem fresh_inserts (hn : l.Nodup) (hnew : ∀ a ∈ l, a ∉ s) : Fresh s (inserts build l) := by
  induction l generalizing s with
  | nil => trivial
  | cons a l ih =>
    rw [List.nodup_cons] at hn
    rw [List.forall_mem_cons] at hnew
    cases h : build a with
    | none =>
      rw [inserts_cons_none h]
      exact ih hn.2 hnew.2
    | some e =>
      rw [inserts_cons_some h]
      have hnext : ∀ b ∈ l, b ∉ Insert.insert a s := by
        intro b hb
        rw [Finset.mem_insert]
        rintro (rfl | hmem)
        · exact hn.1 hb
        · exact hnew.2 b hb hmem
      refine ⟨?_, ih hn.2 hnext⟩
      intro b e' he
      cases he
      exact hnew.1

theorem mem_applyAll_removes {x : α} :
    x ∈ applyAll s (removes l : List (Change α ε)) ↔ x ∈ s ∧ x ∉ l := by
  induction l generalizing s with
  | nil => simp
  | cons a l ih =>
    rw [removes_cons, applyAll_cons_remove, ih, Finset.mem_erase, List.mem_cons, not_or]
    tauto

theorem fresh_removes : Fresh s (removes l : List (Change α ε)) := by
  induction l generalizing s with
  | nil => trivial
  | cons a l ih =>
    refine ⟨?_, ih⟩
    intro b e h
    cases h

/-- The changes from one set to another. -/
def difference (build : α → Option ε) (old new : List α) : List (Change α ε) :=
  inserts build (new.filter (· ∉ old)) ++ removes (old.filter (· ∉ new))

/-- What of a set can be inserted. -/
def built (build : α → Option ε) (l : List α) : Finset α := (l.filter fun a => (build a).isSome).toFinset

theorem mem_built {x : α} : x ∈ built build l ↔ x ∈ l ∧ (build x).isSome := by
  rw [built, List.mem_toFinset, List.mem_filter]

theorem applyAll_difference (old new : List α) :
    applyAll (built build old) (difference build old new) = built build new := by
  ext x
  rw [difference, applyAll_append, mem_applyAll_removes, mem_applyAll_inserts, mem_built, mem_built,
    List.mem_filter, List.mem_filter, decide_eq_true_eq, decide_eq_true_eq]
  by_cases hold : x ∈ old <;> by_cases hnew : x ∈ new <;> simp [hold, hnew]

theorem fresh_difference {old new : List α} (hn : new.Nodup) :
    Fresh (built build old) (difference build old new) := by
  refine fresh_append.mpr ⟨fresh_inserts (hn.filter _) fun a ha hmem => ?_, fresh_removes⟩
  rw [List.mem_filter, decide_eq_true_eq] at ha
  exact ha.2 (mem_built.mp hmem).1

end Changes
