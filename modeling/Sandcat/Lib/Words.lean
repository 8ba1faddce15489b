import Mathlib.Data.List.Basic

/-!
# Words of a text

A text is split into words at the characters of a gap. Gaps before the first word and after the last
one do not show in the words.
-/

namespace Words

variable {α : Type} {p : α → Bool} {l : List α}

/-- The words between the gaps; `p` says what belongs to a gap. -/
def words (p : α → Bool) (l : List α) : List (List α) := (l.splitOnP p).filter fun w => !w.isEmpty

/-- A word by itself. -/
structure IsWord (p : α → Bool) (w : List α) : Prop where
  ne_nil : w ≠ []
  letters : ∀ c ∈ w, p c = false

theorem words_append {c : α} (hc : p c = true) (x y : List α) :
    words p (x ++ c :: y) = words p x ++ words p y := by
  rw [words, List.splitOnP_append_cons x y hc, List.filter_append]
  rfl

@[simp] theorem words_nil (p : α → Bool) : words p [] = [] := rfl

theorem words_cons_gap {c : α} (hc : p c = true) (l : List α) : words p (c :: l) = words p l :=
  words_append hc [] l

theorem words_gap_append {gap : List α} (hgap : ∀ c ∈ gap, p c = true) (l : List α) :
    words p (gap ++ l) = words p l := by
  induction gap with
  | nil => rfl
  | cons c gap ih =>
    rw [List.forall_mem_cons] at hgap
    rw [List.cons_append, words_cons_gap hgap.1]
    exact ih hgap.2

theorem IsWord.words_eq {w : List α} (h : IsWord p w) : words p w = [w] := by
  rw [words, List.splitOnP_eq_singleton h.letters, List.filter_cons_of_pos (by simp [h.ne_nil]),
    List.filter_nil]

theorem IsWord.words_append_gap {w gap : List α} (h : IsWord p w) (hne : gap ≠ [])
    (hgap : ∀ c ∈ gap, p c = true) (l : List α) : words p (w ++ gap ++ l) = w :: words p l := by
  cases gap with
  | nil => exact absurd rfl hne
  | cons c gap =>
    rw [List.forall_mem_cons] at hgap
    rw [List.append_assoc, List.cons_append, words_append hgap.1, h.words_eq, words_gap_append hgap.2]
    rfl

theorem IsWord.head {w : List α} (h : IsWord p w) : ∀ c ∈ w.head?, p c = false :=
  fun c hc => h.letters c (List.mem_of_mem_head? hc)

/-- A text that starts with a letter starts with a word, and a gap comes after it or nothing. -/
theorem exists_word {c : α} (hc : p c = false) (l : List α) :
    ∃ w rest, c :: l = w ++ rest ∧ IsWord p w ∧ ∀ d ∈ rest.head?, p d = true := by
  induction l generalizing c with
  | nil => exact ⟨[c], [], rfl, ⟨by simp, by simp [hc]⟩, by simp⟩
  | cons d l ih =>
    cases hd : p d with
    | true => exact ⟨[c], d :: l, rfl, ⟨by simp, by simp [hc]⟩, by simp [hd]⟩
    | false =>
      obtain ⟨w, rest, hsplit, hw, hrest⟩ := ih hd
      refine ⟨c :: w, rest, by rw [hsplit, List.cons_append], ⟨by simp, ?_⟩, hrest⟩
      rw [List.forall_mem_cons]
      exact ⟨hc, hw.letters⟩

theorem IsWord.words_append_rest {w rest : List α} (h : IsWord p w)
    (hrest : ∀ c ∈ rest.head?, p c = true) : words p (w ++ rest) = w :: words p rest := by
  cases rest with
  | nil => rw [List.append_nil, h.words_eq, words_nil]
  | cons c rest =>
    have hc := hrest c rfl
    rw [words_append hc, h.words_eq, words_cons_gap hc, List.singleton_append]

/-- Up to its first word a text is a gap, and after it comes a gap or nothing. -/
theorem words_eq_cons {w : List α} {ws : List (List α)} (h : words p l = w :: ws) :
    ∃ gap rest, l = gap ++ w ++ rest ∧ (∀ c ∈ gap, p c = true) ∧ IsWord p w ∧
      (∀ c ∈ rest.head?, p c = true) ∧ words p rest = ws := by
  induction l with
  | nil => cases h
  | cons c l ih =>
    cases hc : p c with
    | true =>
      rw [words_cons_gap hc] at h
      obtain ⟨gap, rest, rfl, hgaps, hrest⟩ := ih h
      refine ⟨c :: gap, rest, rfl, ?_, hrest⟩
      rw [List.forall_mem_cons]
      exact ⟨hc, hgaps⟩
    | false =>
      obtain ⟨w', rest, hsplit, hw, hrest⟩ := exists_word hc l
      rw [hsplit, hw.words_append_rest hrest, List.cons.injEq] at h
      obtain ⟨rfl, hws⟩ := h
      exact ⟨[], rest, hsplit, by simp, hw, hrest, hws⟩

theorem words_eq_nil (h : words p l = []) : ∀ c ∈ l, p c = true := by
  induction l with
  | nil => simp
  | cons c l ih =>
    cases hc : p c with
    | true =>
      rw [words_cons_gap hc] at h
      rw [List.forall_mem_cons]
      exact ⟨hc, ih h⟩
    | false =>
      obtain ⟨w, rest, hsplit, hw, hrest⟩ := exists_word hc l
      rw [hsplit, hw.words_append_rest hrest] at h
      cases h

/-- A gap does not start with a letter. -/
theorem gap_eq_nil {gap : List α} (hgap : ∀ c ∈ gap, p c = true)
    (hhead : ∀ c ∈ gap.head?, p c = false) : gap = [] := by
  cases gap with
  | nil => rfl
  | cons c gap =>
    have hc := hhead c rfl
    rw [hgap c List.mem_cons_self] at hc
    cases hc

/-- Two words with nothing around them. -/
theorem words_pair_iff {a b : List α} :
    (words p l = [a, b] ∧ (∀ c ∈ l.head?, p c = false) ∧ ∀ c ∈ l.getLast?, p c = false) ↔
      IsWord p a ∧ IsWord p b ∧ ∃ gap, gap ≠ [] ∧ (∀ c ∈ gap, p c = true) ∧ l = a ++ gap ++ b := by
  constructor
  · rintro ⟨hwords, hhead, hlast⟩
    obtain ⟨start, rest, rfl, hstart, ha, hsep, hrest⟩ := words_eq_cons hwords
    obtain ⟨gap, last, rfl, hgap, hb, -, hnone⟩ := words_eq_cons hrest
    have hstartNil : start = [] := by
      apply gap_eq_nil hstart
      intro c hc
      exact hhead c (by simp_all [List.head?_append])
    have hlastNil : last = [] := by
      apply List.reverse_eq_nil_iff.mp
      apply gap_eq_nil (by simpa using words_eq_nil hnone)
      intro c hc
      rw [List.head?_reverse] at hc
      exact hlast c (by simp_all [List.getLast?_append])
    subst hstartNil hlastNil
    refine ⟨ha, hb, gap, ?_, hgap, by simp⟩
    -- without a gap the second word would go on with the first
    rintro rfl
    rw [List.nil_append, List.append_nil] at hsep
    cases b with
    | nil => exact hb.ne_nil rfl
    | cons c b =>
      have hc := hsep c rfl
      rw [hb.head c rfl] at hc
      cases hc
  · rintro ⟨ha, hb, gap, hne, hgap, rfl⟩
    refine ⟨?_, ?_, ?_⟩
    · rw [ha.words_append_gap hne hgap, hb.words_eq]
    · intro c hc
      rw [List.append_assoc, List.head?_append_of_ne_nil _ ha.ne_nil] at hc
      exact ha.head c hc
    · intro c hc
      rw [List.getLast?_append_of_ne_nil _ hb.ne_nil] at hc
      exact hb.letters c (List.mem_of_getLast? hc)

end Words
