import Mathlib.Data.List.Nodup
import Mathlib.Data.List.Perm.Basic

/-!
# Values under keys

A collection with a unique index admits a value unless it holds one with the same
key. Whatever is tried later, the first value of a key stays. Reading a list part
by part, by the values of a key, gives the values whose key was asked for.
-/

namespace Unique

variable {α κ : Type} [DecidableEq κ] (key : α → κ)

def enter (xs : List α) (x : α) : List α := if key x ∈ xs.map key then xs else xs ++ [x]

/-- The values of a list are tried one after another. -/
def enterAll (xs ys : List α) : List α := ys.foldl (enter key) xs

@[simp] theorem enterAll_nil (xs : List α) : enterAll key xs [] = xs := rfl
@[simp] theorem enterAll_cons (xs ys : List α) (y : α) :
    enterAll key xs (y :: ys) = enterAll key (enter key xs y) ys := rfl

theorem enterAll_append (xs ys zs : List α) :
    enterAll key xs (ys ++ zs) = enterAll key (enterAll key xs ys) zs := List.foldl_append ..

variable {key} {xs ys : List α} {x : α} {k : κ}

theorem enter_of_mem (h : key x ∈ xs.map key) : enter key xs x = xs := if_pos h

theorem enter_of_notMem (h : key x ∉ xs.map key) : enter key xs x = xs ++ [x] := if_neg h

theorem mem_keys_enter : k ∈ (enter key xs x).map key ↔ k ∈ xs.map key ∨ k = key x := by
  by_cases h : key x ∈ xs.map key
  · rw [enter_of_mem h]
    constructor
    · exact .inl
    · rintro (hk | rfl)
      · exact hk
      · exact h
  · rw [enter_of_notMem h]
    simp

theorem mem_keys_enterAll :
    k ∈ (enterAll key xs ys).map key ↔ k ∈ xs.map key ∨ k ∈ ys.map key := by
  induction ys generalizing xs with
  | nil => simp
  | cons y ys ih =>
    rw [enterAll_cons, ih, mem_keys_enter, List.map_cons, List.mem_cons, or_assoc]

theorem nodup_enter (h : (xs.map key).Nodup) : ((enter key xs x).map key).Nodup := by
  by_cases hx : key x ∈ xs.map key
  · rwa [enter_of_mem hx]
  · rw [enter_of_notMem hx, List.map_append, List.map_singleton]
    exact List.nodup_append.mpr ⟨h, List.nodup_singleton _, by simpa using hx⟩

theorem nodup_enterAll (h : (xs.map key).Nodup) : ((enterAll key xs ys).map key).Nodup := by
  induction ys generalizing xs with
  | nil => exact h
  | cons y ys ih => exact ih (nodup_enter h)

theorem mem_enterAll (h : x ∈ enterAll key xs ys) : x ∈ xs ∨ x ∈ ys := by
  induction ys generalizing xs with
  | nil => exact .inl h
  | cons y ys ih =>
    obtain h | h := ih h
    · unfold enter at h
      split at h
      · exact .inl h
      · obtain h | h := List.mem_append.mp h
        · exact .inl h
        · exact .inr (by simp_all)
    · exact .inr (List.mem_cons_of_mem _ h)

/-- A choice that depends on the key only may be made before or after. -/
theorem filter_enterAll (key : α → κ) {p : α → Bool} (q : κ → Bool) (hp : ∀ a, p a = q (key a)) :
    (enterAll key xs ys).filter p = enterAll key (xs.filter p) (ys.filter p) := by
  induction ys generalizing xs with
  | nil => rfl
  | cons y ys ih =>
    rw [enterAll_cons, ih, List.filter_cons]
    by_cases hy : p y = true
    · rw [if_pos hy, enterAll_cons]
      congr 1
      have hiff : key y ∈ (xs.filter p).map key ↔ key y ∈ xs.map key := by
        constructor
        · intro h
          obtain ⟨a, ha, he⟩ := List.mem_map.mp h
          exact he ▸ List.mem_map_of_mem (List.mem_of_mem_filter ha)
        · intro h
          obtain ⟨a, ha, he⟩ := List.mem_map.mp h
          refine he ▸ List.mem_map_of_mem (List.mem_filter.mpr ⟨ha, ?_⟩)
          rw [hp, he, ← hp, hy]
      unfold enter
      simp only [hiff]
      split
      · rfl
      · rw [List.filter_append, List.filter_cons, if_pos hy]
        rfl
    · rw [if_neg hy]
      congr 1
      unfold enter
      split
      · rfl
      · rw [List.filter_append, List.filter_cons, if_neg hy]
        simp

/-- Values whose keys are new to a part do not see the part. -/
theorem enterAll_append_left {z : List α} (h : ∀ y ∈ ys, key y ∉ xs.map key) :
    enterAll key (xs ++ z) ys = xs ++ enterAll key z ys := by
  induction ys generalizing z with
  | nil => rfl
  | cons y ys ih =>
    have hy := h y List.mem_cons_self
    have hstep : enter key (xs ++ z) y = xs ++ enter key z y := by
      have hiff : key y ∈ (xs ++ z).map key ↔ key y ∈ z.map key := by
        rw [List.map_append, List.mem_append, or_iff_right hy]
      unfold enter
      simp only [hiff]
      split
      · rfl
      · rw [List.append_assoc]
    rw [enterAll_cons, hstep, ih fun x hx => h x (List.mem_cons_of_mem _ hx), enterAll_cons]

omit [DecidableEq κ] in
theorem length_le_one_iff (h : (xs.map key).Nodup) :
    xs.length ≤ 1 ↔ ∀ a ∈ xs, ∀ b ∈ xs, key a = key b := by
  match xs with
  | [] => simp
  | [a] => simp
  | a :: b :: xs =>
    have hab : key a ≠ key b := by
      rw [List.map_cons, List.nodup_cons] at h
      exact fun he => h.1 (he ▸ List.mem_cons_self)
    refine iff_of_false (by simp) fun hall => hab (hall a ?_ b ?_) <;> simp

/-- At most one value is kept exactly if there is at most one key. -/
theorem length_enterAll_le_one :
    (enterAll key [] ys).length ≤ 1 ↔ ∀ a ∈ ys, ∀ b ∈ ys, key a = key b := by
  have hkeys : ∀ k, k ∈ (enterAll key [] ys).map key ↔ k ∈ ys.map key := by
    intro k
    rw [mem_keys_enterAll]
    simp
  have hnodup : ((enterAll key [] ys).map key).Nodup := nodup_enterAll (by simp)
  rw [length_le_one_iff hnodup]
  constructor
  · intro h a ha b hb
    obtain ⟨a', ha', he⟩ := List.mem_map.mp ((hkeys _).mpr (List.mem_map_of_mem ha))
    obtain ⟨b', hb', he'⟩ := List.mem_map.mp ((hkeys _).mpr (List.mem_map_of_mem hb))
    rw [← he, ← he']
    exact h a' ha' b' hb'
  · intro h a ha b hb
    obtain ⟨a', ha', he⟩ := List.mem_map.mp ((hkeys _).mp (List.mem_map_of_mem ha))
    obtain ⟨b', hb', he'⟩ := List.mem_map.mp ((hkeys _).mp (List.mem_map_of_mem hb))
    rw [← he, ← he']
    exact h a' ha' b' hb'

theorem enterAll_eq_nil : enterAll key [] ys = [] ↔ ys = [] := by
  constructor
  · intro h
    rw [List.eq_nil_iff_forall_not_mem]
    intro y hy
    have hk : key y ∈ (enterAll key [] ys).map key :=
      mem_keys_enterAll.mpr (.inr (List.mem_map_of_mem hy))
    rw [h] at hk
    cases hk
  · rintro rfl
    rfl

section Tries

/-- The values of a list with the answer whether each is the first of its key. -/
def tries (key : α → κ) : List κ → List α → List (α × Bool)
  | _, [] => []
  | seen, y :: ys => (y, decide (key y ∉ seen)) :: tries key (key y :: seen) ys

theorem map_fst_tries (key : α → κ) (seen : List κ) (ys : List α) :
    (tries key seen ys).map Prod.fst = ys := by
  induction ys generalizing seen with
  | nil => rfl
  | cons y ys ih => rw [tries, List.map_cons, ih]

/-- What has been seen counts as a set. -/
theorem tries_congr {s t : List κ} (h : ∀ k, k ∈ s ↔ k ∈ t) :
    tries key s ys = tries key t ys := by
  induction ys generalizing s t with
  | nil => rfl
  | cons y ys ih =>
    rw [tries, tries, ih (t := key y :: t) (by simp [h])]
    simp [h]

/-- The values that are admitted are the first ones of their keys. -/
theorem enterAll_eq_tries :
    enterAll key xs ys = xs ++ ((tries key (xs.map key) ys).filter Prod.snd).map Prod.fst := by
  induction ys generalizing xs with
  | nil => simp [tries]
  | cons y ys ih =>
    rw [enterAll_cons, ih, tries]
    by_cases hy : key y ∈ xs.map key
    · have hseen : tries key (key y :: xs.map key) ys = tries key (xs.map key) ys :=
        tries_congr fun k => ⟨fun h => (List.mem_cons.mp h).elim (fun he => he ▸ hy) id,
          List.mem_cons_of_mem _⟩
      rw [enter_of_mem hy, hseen]
      simp [hy]
    · have hseen : tries key (key y :: xs.map key) ys = tries key ((xs ++ [y]).map key) ys :=
        tries_congr fun k => by
          rw [List.mem_cons, List.map_append, List.mem_append, List.map_singleton,
            List.mem_singleton, or_comm]
      rw [enter_of_notMem hy, hseen]
      simp [hy]

/-- What is added is taken from what was tried. -/
theorem enterAll_eq_append : ∃ zs : List α, zs.Sublist ys ∧ enterAll key xs ys = xs ++ zs := by
  refine ⟨_, ?_, enterAll_eq_tries⟩
  have hsub := (List.filter_sublist (p := Prod.snd) (l := tries key (xs.map key) ys)).map Prod.fst
  rwa [map_fst_tries] at hsub

/-- The values of a list, of which only some are tried, with the answer whether each is tried
and is the first of its key among those. -/
def outcomes (key : α → κ) (tried : α → Bool) : List κ → List α → List (α × Bool)
  | _, [] => []
  | seen, y :: ys =>
    if tried y then (y, decide (key y ∉ seen)) :: outcomes key tried (key y :: seen) ys
    else (y, false) :: outcomes key tried seen ys

theorem map_fst_outcomes (key : α → κ) (tried : α → Bool) (seen : List κ) (ys : List α) :
    (outcomes key tried seen ys).map Prod.fst = ys := by
  induction ys generalizing seen with
  | nil => rfl
  | cons y ys ih =>
    unfold outcomes
    split <;> rw [List.map_cons, ih]

theorem filter_outcomes (key : α → κ) (tried : α → Bool) (seen : List κ) (ys : List α) :
    (outcomes key tried seen ys).filter Prod.snd =
      (tries key seen (ys.filter tried)).filter Prod.snd := by
  induction ys generalizing seen with
  | nil => rfl
  | cons y ys ih =>
    unfold outcomes
    cases hy : tried y with
    | true => simp [hy, tries, List.filter_cons, ih]
    | false => simp [hy, ih]

/-- The values that are admitted are the first ones of their keys that are tried. -/
theorem enterAll_eq_outcomes {tried : α → Bool} :
    enterAll key [] (ys.filter tried) =
      ((outcomes key tried [] ys).filter Prod.snd).map Prod.fst := by
  rw [enterAll_eq_tries, filter_outcomes]
  rfl

/-- Keys that are read off an image. -/
theorem enterAll_map {β : Type} (f : β → α) (bs : List β) (xs : List β) :
    enterAll key (xs.map f) (bs.map f) = (enterAll (fun b => key (f b)) xs bs).map f := by
  induction bs generalizing xs with
  | nil => rfl
  | cons b bs ih =>
    have hkeys : (xs.map f).map key = xs.map fun b => key (f b) := by simp
    rw [List.map_cons, enterAll_cons, enterAll_cons, ← ih]
    by_cases hb : key (f b) ∈ xs.map fun b => key (f b)
    · rw [enter_of_mem (hkeys ▸ hb), enter_of_mem hb]
    · rw [enter_of_notMem (hkeys ▸ hb), enter_of_notMem hb, List.map_append]
      rfl

/-- An element with a new key is entered. -/
theorem mem_enterAll_head {y : α} (h : key y ∉ xs.map key) : y ∈ enterAll key xs (y :: ys) := by
  obtain ⟨zs, -, hzs⟩ : ∃ zs : List α, zs.Sublist ys ∧
      enterAll key (xs ++ [y]) ys = xs ++ [y] ++ zs := enterAll_eq_append
  rw [enterAll_cons, enter_of_notMem h, hzs]
  simp

end Tries

section Parts

/-- Two conditions that exclude each other. -/
theorem filter_append_perm {p q : α → Bool} (xs : List α)
    (h : ∀ x ∈ xs, ¬ (p x = true ∧ q x = true)) :
    (xs.filter p ++ xs.filter q).Perm (xs.filter fun x => p x || q x) := by
  induction xs with
  | nil => exact .nil
  | cons x xs ih =>
    have ih := ih fun y hy => h y (List.mem_cons_of_mem _ hy)
    have hx := h x List.mem_cons_self
    by_cases hp : p x = true
    · have hq : ¬ q x = true := fun hq => hx ⟨hp, hq⟩
      simpa [List.filter_cons, hp, hq] using ih
    · by_cases hq : q x = true
      · simp only [List.filter_cons, hp, hq, Bool.false_eq_true, if_false, if_true, Bool.or_true]
        exact List.perm_middle.trans (ih.cons x)
      · simpa [List.filter_cons, hp, hq] using ih

/-- Different parts, read one after another. -/
theorem flatMap_filter_perm (key : α → κ) {ks : List κ} (h : ks.Nodup) (xs : List α) :
    (ks.flatMap fun k => xs.filter (key · = k)).Perm (xs.filter (key · ∈ ks)) := by
  induction ks with
  | nil => simp
  | cons k ks ih =>
    obtain ⟨hk, hks⟩ := List.nodup_cons.mp h
    rw [List.flatMap_cons]
    refine ((ih hks).append_left _).trans ((filter_append_perm xs ?_).trans (.of_eq ?_))
    · rintro x - ⟨hx, hmem⟩
      rw [decide_eq_true_eq] at hx hmem
      exact hk (hx ▸ hmem)
    · congr 1
      funext x
      simp

end Parts

section Groups

variable {σ : Type} {f : σ → List α} {id : σ → κ} {l : List σ}

/-- The values of one group are found by the key of the group. -/
theorem filter_flatMap_key (hid : (l.map id).Nodup) (hf : ∀ s ∈ l, ∀ a ∈ f s, key a = id s) {s : σ}
    (hs : s ∈ l) : (l.flatMap f).filter (key · = id s) = f s := by
  induction l with
  | nil => cases hs
  | cons t l ih =>
    rw [List.map_cons, List.nodup_cons] at hid
    have hrest := fun r hr => hf r (List.mem_cons_of_mem _ hr)
    rw [List.flatMap_cons, List.filter_append]
    obtain rfl | hs := List.mem_cons.mp hs
    · have hnone : (l.flatMap f).filter (key · = id s) = [] := by
        rw [List.filter_eq_nil_iff]
        intro a ha hk
        obtain ⟨r, hr, ha⟩ := List.mem_flatMap.mp ha
        rw [decide_eq_true_eq, hrest r hr a ha] at hk
        exact hid.1 (hk ▸ List.mem_map_of_mem hr)
      have hall : (f s).filter (key · = id s) = f s := by
        rw [List.filter_eq_self]
        intro a ha
        simpa using hf s List.mem_cons_self a ha
      rw [hnone, hall, List.append_nil]
    · have hnone : (f t).filter (key · = id s) = [] := by
        rw [List.filter_eq_nil_iff]
        intro a ha hk
        rw [decide_eq_true_eq, hf t List.mem_cons_self a ha] at hk
        exact hid.1 (hk ▸ List.mem_map_of_mem hs)
      rw [hnone, List.nil_append, ih hid.2 hrest hs]

/-- Groups with different keys are entered one by one. -/
theorem enterAll_flatMap {κ' : Type} {g : κ → κ'} {id : σ → κ'} (hid : (l.map id).Nodup)
    (hf : ∀ s ∈ l, ∀ a ∈ f s, g (key a) = id s) :
    enterAll key [] (l.flatMap f) = l.flatMap fun s => enterAll key [] (f s) := by
  induction l with
  | nil => rfl
  | cons s l ih =>
    rw [List.map_cons, List.nodup_cons] at hid
    have hrest := fun r hr => hf r (List.mem_cons_of_mem _ hr)
    have hnew : ∀ y ∈ l.flatMap f, key y ∉ (enterAll key [] (f s)).map key := by
      intro y hy hk
      obtain ⟨r, hr, hy⟩ := List.mem_flatMap.mp hy
      obtain hk | hk := mem_keys_enterAll.mp hk
      · cases hk
      · obtain ⟨a, ha, he⟩ := List.mem_map.mp hk
        have hsame : id s = id r := by
          rw [← hf s List.mem_cons_self a ha, he, hrest r hr y hy]
        exact hid.1 (hsame ▸ List.mem_map_of_mem hr)
    have hsplit := enterAll_append_left (z := []) hnew
    rw [List.append_nil] at hsplit
    rw [List.flatMap_cons, enterAll_append, hsplit, ih hid.2 hrest, List.flatMap_cons]

/-- No key comes twice exactly if no group has two values. -/
theorem nodup_flatMap_key (hid : (l.map id).Nodup) (hf : ∀ s ∈ l, ∀ a ∈ f s, key a = id s) :
    ((l.flatMap f).map key).Nodup ↔ ∀ s ∈ l, (f s).length ≤ 1 := by
  have hcount : ∀ s ∈ l, ((l.flatMap f).map key).count (id s) = (f s).length := by
    intro s hs
    rw [← filter_flatMap_key hid hf hs, List.count, List.countP_map, List.countP_eq_length_filter]
    congr 1
  rw [List.nodup_iff_count_le_one]
  constructor
  · intro h s hs
    rw [← hcount s hs]
    exact h _
  · intro h k
    by_cases hk : k ∈ (l.flatMap f).map key
    · obtain ⟨a, ha, rfl⟩ := List.mem_map.mp hk
      obtain ⟨s, hs, ha⟩ := List.mem_flatMap.mp ha
      rw [hf s hs a ha, hcount s hs]
      exact h s hs
    · rw [List.count_eq_zero_of_not_mem hk]
      exact Nat.zero_le _

omit [DecidableEq κ] in
theorem mem_flatMap_key (hf : ∀ s ∈ l, ∀ a ∈ f s, key a = id s) :
    k ∈ (l.flatMap f).map key ↔ ∃ s ∈ l, id s = k ∧ ∃ a, a ∈ f s := by
  constructor
  · intro h
    obtain ⟨a, ha, rfl⟩ := List.mem_map.mp h
    obtain ⟨s, hs, ha⟩ := List.mem_flatMap.mp ha
    exact ⟨s, hs, (hf s hs a ha).symm, a, ha⟩
  · rintro ⟨s, hs, rfl, a, ha⟩
    exact List.mem_map.mpr ⟨a, List.mem_flatMap.mpr ⟨s, hs, ha⟩, hf s hs a ha⟩

end Groups

section Images

variable {β : Type} [DecidableEq β] {f : α → β} {p q : α → Bool} {l : List α}

omit [DecidableEq κ] in
theorem count_map_filter (b : β) :
    ((l.filter p).map f).count b = l.countP fun y => p y && f y = b := by
  rw [List.count, List.countP_map, List.countP_filter]
  congr 1
  funext y
  rw [Bool.and_comm]
  rfl

omit [DecidableEq κ] in
/-- Two choices from a list leave the same images if they agree on how many of each. -/
theorem perm_map_filter_iff : ((l.filter p).map f).Perm ((l.filter q).map f) ↔
    ∀ x ∈ l, (l.countP fun y => p y && f y = f x) = l.countP fun y => q y && f y = f x := by
  rw [List.perm_iff_count]
  simp only [count_map_filter]
  constructor
  · intro h x _
    exact h (f x)
  · intro h b
    by_cases hb : ∃ x ∈ l, f x = b
    · obtain ⟨x, hx, rfl⟩ := hb
      exact h x hx
    · have hnone : ∀ r : α → Bool, (l.countP fun y => r y && f y = b) = 0 := by
        intro r
        rw [List.countP_eq_zero]
        intro y hy hr
        simp only [Bool.and_eq_true, decide_eq_true_eq] at hr
        exact hb ⟨y, hy, hr.2⟩
      rw [hnone, hnone]

omit [DecidableEq κ] in
/-- Where one choice takes all of an image or none, the other takes the same ones. -/
theorem countP_image_iff {x : α} (hp : ∀ y ∈ l, f y = f x → p y = p x) :
    ((l.countP fun y => p y && f y = f x) = l.countP fun y => q y && f y = f x) ↔
      ∀ y ∈ l, f y = f x → q y = p x := by
  have hcount : ∀ r : α → Bool, (l.countP fun y => r y && f y = f x) =
      (l.filter fun y => f y = f x).countP r := fun r => (List.countP_filter ..).symm
  have hconst : (l.filter fun y => f y = f x).countP p =
      (l.filter fun y => f y = f x).countP fun _ => p x := by
    apply List.countP_congr
    intro y hy
    obtain ⟨hy, he⟩ := List.mem_filter.mp hy
    rw [hp y hy (of_decide_eq_true he)]
  rw [hcount, hcount, hconst]
  cases hx : p x with
  | true =>
    rw [List.countP_true, eq_comm, List.countP_eq_length]
    simp
  | false =>
    rw [List.countP_false, eq_comm, Function.const, List.countP_eq_zero]
    simp

end Images

end Unique
