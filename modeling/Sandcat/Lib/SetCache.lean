import Mathlib.Data.Set.Basic
import Mathlib.Logic.Function.Basic

/-!
# Cached sets that several processes keep up to date

Each key has a set of rows and a cached copy of it. A process that adds rows owes
the cache their addition, a process that deletes rows owes it a removal, which may
travel through a queue to another process. A cached set that is empty counts as
absent and is read from the rows again; one that is not empty is trusted. The cache
may forget a set at any time.
-/

namespace SetCache

variable {ι K V : Type}

structure View (K V : Type) where
  rows : K → Set V
  cached : K → Set V
  queued : List (K × V)

/-- What one process still owes to the cache. -/
structure Owed (K V : Type) where
  adds : List (K × V)
  removals : List (K × V)

/-- Nothing is owed. -/
def Owed.none : Owed K V := ⟨[], []⟩

/-- What one call of a process does to the rows, the cached sets and the queue. -/
inductive Effect (K V : Type) where
  | other
  | join (k : K) (vs : List V)
  | leave (k : K) (vs : List V)
  | publish
  | read (k : K)
  | save (k : K) (v : V)
  | unsave (k : K) (vs : List V)
  | forget (k : K)

/-- The effects, with what the process owes before and after. Rows that are to be deleted
may stay. -/
inductive Does : Effect K V → Owed K V → View K V → Owed K V → View K V → Prop where
  | other (o : Owed K V) (s : View K V) : Does .other o s o s
  | join {o : Owed K V} {s t : View K V} (k : K) (vs : List V) : o.adds = [] →
      (∀ j ≠ k, t.rows j = s.rows j) → s.rows k ⊆ t.rows k → (∀ v ∈ t.rows k, v ∈ s.rows k ∨ v ∈ vs) →
      (∀ v ∈ vs, v ∈ t.rows k) → t.cached = s.cached → t.queued = s.queued →
      Does (.join k vs) o s ⟨vs.map (k, ·), o.removals⟩ t
  | leave {o : Owed K V} {s t : View K V} (k : K) (vs : List V) : o.removals = [] →
      (∀ j ≠ k, t.rows j = s.rows j) → t.rows k ⊆ s.rows k → (∀ v ∈ s.rows k, v ∈ t.rows k ∨ v ∈ vs) →
      t.cached = s.cached → t.queued = s.queued →
      Does (.leave k vs) o s ⟨o.adds, vs.map (k, ·)⟩ t
  | publish (o : Owed K V) (s : View K V) :
      Does .publish o s ⟨o.adds, []⟩ { s with queued := s.queued ++ o.removals }
  | read {o : Owed K V} (s : View K V) (k : K) (vs : List V) : o.adds = [] →
      (∀ v ∈ vs, v ∈ s.rows k) → Does (.read k) o s ⟨vs.map (k, ·), o.removals⟩ s
  | save {adds removals : List (K × V)} {s t : View K V} (k : K) (v : V) : t.rows = s.rows →
      t.queued = s.queued → (∀ j ≠ k, t.cached j = s.cached j) →
      (∀ u, u ∈ t.cached k ↔ u = v ∨ u ∈ s.cached k) →
      Does (.save k v) ⟨(k, v) :: adds, removals⟩ s ⟨adds, removals⟩ t
  | unsave {adds : List (K × V)} {s t : View K V} (k : K) (vs : List V) : t.rows = s.rows →
      t.queued = s.queued → (∀ j ≠ k, t.cached j = s.cached j) →
      (∀ u, u ∈ t.cached k ↔ u ∈ s.cached k ∧ u ∉ vs) →
      Does (.unsave k vs) ⟨adds, vs.map (k, ·)⟩ s ⟨adds, []⟩ t
  | forget {s t : View K V} (o : Owed K V) (k : K) : t.rows = s.rows → t.queued = s.queued →
      (∀ j ≠ k, t.cached j = s.cached j) → (∀ u, u ∉ t.cached k) →
      Does (.forget k) o s o t

/-- A process still has to add a value. -/
def PendingAdd (owed : ι → Owed K V) (k : K) (v : V) : Prop := ∃ i, (k, v) ∈ (owed i).adds

/-- A removal of a value is on its way. -/
def PendingRemoval (s : View K V) (owed : ι → Owed K V) (k : K) (v : V) : Prop :=
  (k, v) ∈ s.queued ∨ ∃ i, (k, v) ∈ (owed i).removals

/-- A removal of a value is on its way, apart from those of process `i`. -/
def OtherRemoval (s : View K V) (owed : ι → Owed K V) (i : ι) (k : K) (v : V) : Prop :=
  (k, v) ∈ s.queued ∨ ∃ j ≠ i, (k, v) ∈ (owed j).removals

/-- A cached set is absent, or it has every row but for the additions to come and nothing
else but for the removals to come. -/
structure Coherent (s : View K V) (owed : ι → Owed K V) : Prop where
  sets : ∀ k, (∀ v, v ∉ s.cached k) ∨
    (∀ v ∈ s.rows k, v ∈ s.cached k ∨ PendingAdd owed k v) ∧
      ∀ v ∈ s.cached k, v ∈ s.rows k ∨ PendingRemoval s owed k v
  adds : ∀ k v, PendingAdd owed k v → v ∈ s.rows k ∨ PendingRemoval s owed k v

/-- When process `i` may make a call. A value is added to an absent set only if all rows of
the set are to be added. A value is removed from a set that keeps others only if it has no
row, or its addition is to come; and if its addition is to come, it has a row, or another
removal is to come. -/
def Orderly (s : View K V) (owed : ι → Owed K V) (i : ι) : Effect K V → Prop
  | .save k _ => (∀ u, u ∉ s.cached k) → ∀ u ∈ s.rows k, PendingAdd owed k u
  | .unsave k vs => ∀ v ∈ vs,
      ((∃ u ∈ s.cached k, u ∉ vs) → v ∈ s.rows k → PendingAdd owed k v) ∧
        (PendingAdd owed k v → v ∈ s.rows k ∨ OtherRemoval s owed i k v)
  | _ => True

/-- A set that is lost is read from the rows again. -/
theorem Coherent.forget {owed : ι → Owed K V} {s t : View K V} (h : Coherent s owed)
    (hrows : t.rows = s.rows) (hqueued : t.queued = s.queued)
    (hcached : ∀ j, t.cached j = s.cached j ∨ ∀ u, u ∉ t.cached j) : Coherent t owed := by
  have hrem : ∀ {j u}, PendingRemoval t owed j u ↔ PendingRemoval s owed j u := by
    intro j u
    rw [PendingRemoval, hqueued, PendingRemoval]
  constructor
  · intro j
    obtain he | hnone := hcached j
    · rw [he, hrows]
      simp only [hrem]
      exact h.sets j
    · exact .inl hnone
  · intro j u hp
    rw [hrows, hrem]
    exact h.adds j u hp

section Update

variable [DecidableEq ι] {owed : ι → Owed K V} {o : Owed K V} {i : ι} {s t : View K V} {k : K} {v : V}

theorem pendingAdd_update : PendingAdd (Function.update owed i o) k v ↔
    (k, v) ∈ o.adds ∨ ∃ j ≠ i, (k, v) ∈ (owed j).adds := by
  constructor
  · rintro ⟨j, hj⟩
    by_cases h : j = i
    · subst h
      rw [Function.update_self] at hj
      exact .inl hj
    · rw [Function.update_of_ne h] at hj
      exact .inr ⟨j, h, hj⟩
  · rintro (h | ⟨j, hne, hj⟩)
    · exact ⟨i, by rwa [Function.update_self]⟩
    · exact ⟨j, by rwa [Function.update_of_ne hne]⟩

theorem pendingAdd_iff (i : ι) : PendingAdd owed k v ↔
    (k, v) ∈ (owed i).adds ∨ ∃ j ≠ i, (k, v) ∈ (owed j).adds := by
  have h : PendingAdd (Function.update owed i (owed i)) k v ↔ _ := pendingAdd_update
  rwa [Function.update_eq_self] at h

theorem pendingRemoval_update : PendingRemoval s (Function.update owed i o) k v ↔
    (k, v) ∈ o.removals ∨ OtherRemoval s owed i k v := by
  constructor
  · rintro (h | ⟨j, hj⟩)
    · exact .inr (.inl h)
    · by_cases h : j = i
      · subst h
        rw [Function.update_self] at hj
        exact .inl hj
      · rw [Function.update_of_ne h] at hj
        exact .inr (.inr ⟨j, h, hj⟩)
  · rintro (h | h | ⟨j, hne, hj⟩)
    · exact .inr ⟨i, by rwa [Function.update_self]⟩
    · exact .inl h
    · exact .inr ⟨j, by rwa [Function.update_of_ne hne]⟩

theorem pendingRemoval_iff (i : ι) : PendingRemoval s owed k v ↔
    (k, v) ∈ (owed i).removals ∨ OtherRemoval s owed i k v := by
  have h : PendingRemoval s (Function.update owed i (owed i)) k v ↔ _ := pendingRemoval_update
  rwa [Function.update_eq_self] at h

/-- More additions to come, all of them for rows that exist. -/
theorem Coherent.moreAdds (h : Coherent s owed) (hrows : ∀ k, s.rows k ⊆ t.rows k)
    (hnew : ∀ k, ∀ v ∈ t.rows k, v ∈ s.rows k ∨ (k, v) ∈ o.adds)
    (hcached : t.cached = s.cached) (hqueued : t.queued = s.queued) (hold : (owed i).adds = [])
    (hremovals : o.removals = (owed i).removals) (hadds : ∀ k v, (k, v) ∈ o.adds → v ∈ t.rows k) :
    Coherent t (Function.update owed i o) := by
  have hadd : ∀ {k v}, PendingAdd owed k v → PendingAdd (Function.update owed i o) k v := by
    intro k v hp
    rw [pendingAdd_iff i, hold] at hp
    rw [pendingAdd_update]
    exact hp.elim (fun hp => by cases hp) .inr
  have hrem : ∀ {k v}, PendingRemoval s owed k v →
      PendingRemoval t (Function.update owed i o) k v := by
    intro k v hp
    rw [pendingRemoval_iff i] at hp
    rw [pendingRemoval_update, hremovals, OtherRemoval, hqueued]
    exact hp
  constructor
  · intro k
    rw [hcached]
    obtain hnone | ⟨hall, honly⟩ := h.sets k
    · exact .inl hnone
    · refine .inr ⟨?_, ?_⟩
      · intro v hv
        obtain hv | hv := hnew k v hv
        · exact (hall v hv).imp_right hadd
        · exact .inr (pendingAdd_update.mpr (.inl hv))
      · intro v hv
        exact (honly v hv).imp (fun hv => hrows k hv) hrem
  · intro k v hp
    obtain hp | hp := pendingAdd_update.mp hp
    · exact .inl (hadds k v hp)
    · obtain hv | hv := h.adds k v ((pendingAdd_iff i).mpr (.inr hp))
      · exact .inl (hrows k hv)
      · exact .inr (hrem hv)

/-- Fewer rows, all of those that are gone with a removal to come. -/
theorem Coherent.fewerRows (h : Coherent s owed) (hrows : ∀ k, t.rows k ⊆ s.rows k)
    (hgone : ∀ k, ∀ v ∈ s.rows k, v ∈ t.rows k ∨ PendingRemoval t (Function.update owed i o) k v)
    (hcached : t.cached = s.cached) (hadds : o.adds = (owed i).adds)
    (hremovals : ∀ k v, PendingRemoval s owed k v →
      PendingRemoval t (Function.update owed i o) k v) :
    Coherent t (Function.update owed i o) := by
  have hadd : ∀ {k v}, PendingAdd (Function.update owed i o) k v ↔ PendingAdd owed k v := by
    intro k v
    rw [pendingAdd_update, pendingAdd_iff i, hadds]
  have hmove : ∀ {k v}, v ∈ s.rows k ∨ PendingRemoval s owed k v →
      v ∈ t.rows k ∨ PendingRemoval t (Function.update owed i o) k v := by
    rintro k v (hv | hv)
    · exact hgone k v hv
    · exact .inr (hremovals k v hv)
  constructor
  · intro k
    rw [hcached]
    obtain hnone | ⟨hall, honly⟩ := h.sets k
    · exact .inl hnone
    · refine .inr ⟨?_, fun v hv => hmove (honly v hv)⟩
      intro v hv
      exact (hall v (hrows k hv)).imp_right hadd.mpr
  · intro k v hp
    exact hmove (h.adds k v (hadd.mp hp))

/-- An addition reaches the cache. -/
theorem Coherent.save {adds removals : List (K × V)} (h : Coherent s owed)
    (howed : owed i = ⟨(k, v) :: adds, removals⟩)
    (habsent : (∀ u, u ∉ s.cached k) → ∀ u ∈ s.rows k, PendingAdd owed k u)
    (hrows : t.rows = s.rows) (hqueued : t.queued = s.queued)
    (hother : ∀ j ≠ k, t.cached j = s.cached j)
    (hcached : ∀ u, u ∈ t.cached k ↔ u = v ∨ u ∈ s.cached k) :
    Coherent t (Function.update owed i ⟨adds, removals⟩) := by
  have hrem : ∀ {j u}, PendingRemoval t (Function.update owed i ⟨adds, removals⟩) j u ↔
      PendingRemoval s owed j u := by
    intro j u
    rw [pendingRemoval_update, pendingRemoval_iff i, howed, OtherRemoval, hqueued, OtherRemoval]
  have hadd : ∀ {j u}, PendingAdd owed j u →
      (j, u) = (k, v) ∨ PendingAdd (Function.update owed i ⟨adds, removals⟩) j u := by
    intro j u hp
    rw [pendingAdd_iff i, howed, List.mem_cons] at hp
    rw [pendingAdd_update]
    obtain (hp | hp) | hp := hp
    · exact .inl hp
    · exact .inr (.inl hp)
    · exact .inr (.inr hp)
  have hback : ∀ {j u}, PendingAdd (Function.update owed i ⟨adds, removals⟩) j u →
      PendingAdd owed j u := by
    intro j u hp
    rw [pendingAdd_iff i, howed]
    exact (pendingAdd_update.mp hp).imp_left fun hp => List.mem_cons_of_mem _ hp
  constructor
  · intro j
    rw [hrows]
    by_cases hj : j = k
    · subst hj
      have hv : v ∈ s.rows j ∨ PendingRemoval s owed j v :=
        h.adds j v ((pendingAdd_iff i).mpr (.inl (by rw [howed]; exact List.mem_cons_self)))
      have hall : ∀ u ∈ s.rows j, u ∈ s.cached j ∨ PendingAdd owed j u := by
        intro u hu
        obtain hnone | ⟨hall, -⟩ := h.sets j
        · exact .inr (habsent hnone u hu)
        · exact hall u hu
      have honly : ∀ u ∈ s.cached j, u ∈ s.rows j ∨ PendingRemoval s owed j u := by
        intro u hu
        obtain hnone | ⟨-, honly⟩ := h.sets j
        · exact absurd hu (hnone u)
        · exact honly u hu
      refine .inr ⟨?_, ?_⟩
      · intro u hu
        rw [hcached]
        obtain hu | hu := hall u hu
        · exact .inl (.inr hu)
        · obtain he | hu := hadd hu
          · cases he
            exact .inl (.inl rfl)
          · exact .inr hu
      · intro u hu
        rw [hcached] at hu
        rw [hrem]
        obtain rfl | hu := hu
        · exact hv
        · exact honly u hu
    · rw [hother j hj]
      obtain hnone | ⟨hall, honly⟩ := h.sets j
      · exact .inl hnone
      · refine .inr ⟨?_, fun u hu => (honly u hu).imp_right hrem.mpr⟩
        intro u hu
        apply (hall u hu).imp_right
        intro hp
        obtain he | hp := hadd hp
        · cases he
          exact absurd rfl hj
        · exact hp
  · intro j u hp
    rw [hrows, hrem]
    exact h.adds j u (hback hp)

/-- A removal reaches the cache. -/
theorem Coherent.unsave {adds : List (K × V)} {vs : List V} (h : Coherent s owed)
    (howed : owed i = ⟨adds, vs.map (k, ·)⟩)
    (horder : ∀ v ∈ vs,
      ((∃ u ∈ s.cached k, u ∉ vs) → v ∈ s.rows k → PendingAdd owed k v) ∧
        (PendingAdd owed k v → v ∈ s.rows k ∨ OtherRemoval s owed i k v))
    (hrows : t.rows = s.rows) (hqueued : t.queued = s.queued)
    (hother : ∀ j ≠ k, t.cached j = s.cached j)
    (hcached : ∀ u, u ∈ t.cached k ↔ u ∈ s.cached k ∧ u ∉ vs) :
    Coherent t (Function.update owed i ⟨adds, []⟩) := by
  have hadd : ∀ {j u}, PendingAdd (Function.update owed i ⟨adds, []⟩) j u ↔ PendingAdd owed j u := by
    intro j u
    rw [pendingAdd_update, pendingAdd_iff i, howed]
  have hrem : ∀ {j u}, OtherRemoval s owed i j u →
      PendingRemoval t (Function.update owed i ⟨adds, []⟩) j u := by
    intro j u hp
    rw [pendingRemoval_update, OtherRemoval, hqueued]
    exact .inr hp
  have hsplit : ∀ {j u}, PendingRemoval s owed j u → (j = k ∧ u ∈ vs) ∨
      PendingRemoval t (Function.update owed i ⟨adds, []⟩) j u := by
    intro j u hp
    rw [pendingRemoval_iff i, howed, List.mem_map] at hp
    obtain ⟨u, hu, he⟩ | hp := hp
    · cases he
      exact .inl ⟨rfl, hu⟩
    · exact .inr (hrem hp)
  constructor
  · intro j
    rw [hrows]
    by_cases hj : j = k
    · subst hj
      by_cases hrest : ∃ u ∈ s.cached j, u ∉ vs
      · obtain hnone | ⟨hall, honly⟩ := h.sets j
        · obtain ⟨u, hu, -⟩ := hrest
          exact absurd hu (hnone u)
        · refine .inr ⟨?_, ?_⟩
          · intro u hu
            by_cases hvs : u ∈ vs
            · exact .inr (hadd.mpr ((horder u hvs).1 hrest hu))
            · exact (hall u hu).imp (fun hc => (hcached u).mpr ⟨hc, hvs⟩) hadd.mpr
          · intro u hu
            rw [hcached] at hu
            obtain hr | hr := honly u hu.1
            · exact .inl hr
            · exact (hsplit hr).elim (fun he => absurd he.2 hu.2) .inr
      · left
        intro u hu
        exact hrest ⟨u, (hcached u).mp hu⟩
    · rw [hother j hj]
      obtain hnone | ⟨hall, honly⟩ := h.sets j
      · exact .inl hnone
      · refine .inr ⟨fun u hu => (hall u hu).imp_right hadd.mpr, ?_⟩
        intro u hu
        obtain hr | hr := honly u hu
        · exact .inl hr
        · exact (hsplit hr).elim (fun he => absurd he.1 hj) .inr
  · intro j u hp
    rw [hrows]
    have hp := hadd.mp hp
    obtain hr | hr := h.adds j u hp
    · exact .inl hr
    · obtain ⟨rfl, hu⟩ | hr := hsplit hr
      · exact ((horder u hu).2 hp).imp_right hrem
      · exact .inr hr

/-- A call keeps the sets coherent when it is orderly. -/
theorem Coherent.does {e : Effect K V} (h : Coherent s owed) (hd : Does e (owed i) s o t)
    (horder : Orderly s owed i e) : Coherent t (Function.update owed i o) := by
  generalize hi : owed i = p at hd
  cases hd with
  | other =>
    rw [← hi, Function.update_eq_self]
    exact h
  | join k vs hold hother hrows hnew hvs hcached hqueued =>
    rw [← hi] at hold
    refine h.moreAdds ?_ ?_ hcached hqueued hold (by rw [hi]) ?_
    · intro j
      by_cases hj : j = k
      · exact hj ▸ hrows
      · exact (hother j hj).ge
    · intro j v hv
      by_cases hj : j = k
      · subst hj
        exact (hnew v hv).imp_right fun hv => List.mem_map_of_mem hv
      · exact .inl (hother j hj ▸ hv)
    · intro j v hm
      obtain ⟨u, hu, he⟩ := List.mem_map.mp hm
      cases he
      exact hvs _ hu
  | leave k vs hold hother hrows hgone hcached hqueued =>
    refine h.fewerRows ?_ ?_ hcached (by rw [hi]) ?_
    · intro j
      by_cases hj : j = k
      · exact hj ▸ hrows
      · exact (hother j hj).le
    · intro j v hv
      by_cases hj : j = k
      · subst hj
        exact (hgone v hv).imp_right fun hv =>
          pendingRemoval_update.mpr (.inl (List.mem_map_of_mem hv))
      · exact .inl (hother j hj ▸ hv)
    · intro j v hp
      rw [pendingRemoval_iff i, hi, hold] at hp
      rw [pendingRemoval_update, OtherRemoval, hqueued]
      exact hp.elim (fun hp => by cases hp) .inr
  | publish =>
    refine h.fewerRows (fun _ _ => id) (fun _ _ => .inl) rfl (by rw [hi]) ?_
    intro j v hp
    rw [pendingRemoval_iff i, hi, OtherRemoval] at hp
    rw [pendingRemoval_update, OtherRemoval, List.mem_append]
    obtain hp | hp | hp := hp
    · exact .inr (.inl (.inr hp))
    · exact .inr (.inl (.inl hp))
    · exact .inr (.inr hp)
  | read _ k vs hold hvs =>
    rw [← hi] at hold
    refine h.moreAdds (fun _ _ => id) (fun _ _ => .inl) rfl rfl hold (by rw [hi]) ?_
    intro j v hm
    obtain ⟨u, hu, he⟩ := List.mem_map.mp hm
    cases he
    exact hvs _ hu
  | save k v hrows hqueued hother hcached => exact h.save hi horder hrows hqueued hother hcached
  | unsave k vs hrows hqueued hother hcached => exact h.unsave hi horder hrows hqueued hother hcached
  | forget _ k hrows hqueued hother hnone =>
    rw [← hi, Function.update_eq_self]
    apply h.forget hrows hqueued
    intro j
    by_cases hj : j = k
    · exact .inr (hj ▸ hnone)
    · exact .inl (hother j hj)

/-- A call that is not orderly leaves a set without a row, or a value to be added without a
row. -/
theorem Coherent.orderly {e : Effect K V} (hd : Does e (owed i) s o t)
    (h : Coherent t (Function.update owed i o)) : Orderly s owed i e := by
  generalize hi : owed i = p at hd
  cases hd with
  | @save adds removals _ _ k v hrows hqueued hother hcached =>
    intro habsent u hu
    have hsets := h.sets k
    rw [hrows] at hsets
    obtain hnone | ⟨hall, -⟩ := hsets
    · exact absurd ((hcached v).mpr (.inl rfl)) (hnone v)
    · obtain hc | hp := hall u hu
      · obtain rfl | hc := (hcached u).mp hc
        · exact ⟨i, by rw [hi]; exact List.mem_cons_self⟩
        · exact absurd hc (habsent u)
      · obtain hp | hp := pendingAdd_update.mp hp
        · exact ⟨i, by rw [hi]; exact List.mem_cons_of_mem _ hp⟩
        · exact (pendingAdd_iff i).mpr (.inr hp)
  | @unsave adds _ _ k vs hrows hqueued hother hcached =>
    have hadd : ∀ {u}, PendingAdd (Function.update owed i ⟨adds, []⟩) k u ↔ PendingAdd owed k u := by
      intro u
      rw [pendingAdd_update, pendingAdd_iff i, hi]
    intro v hv
    refine ⟨?_, ?_⟩
    · rintro ⟨u, hu, huv⟩ hrow
      have hsets := h.sets k
      rw [hrows] at hsets
      obtain hnone | ⟨hall, -⟩ := hsets
      · exact absurd ((hcached u).mpr ⟨hu, huv⟩) (hnone u)
      · obtain hc | hp := hall v hrow
        · exact absurd hv ((hcached v).mp hc).2
        · exact hadd.mp hp
    · intro hp
      have hadds := h.adds k v (hadd.mpr hp)
      rw [hrows, pendingRemoval_update, OtherRemoval, hqueued] at hadds
      obtain hr | hr | hr := hadds
      · exact .inl hr
      · cases hr
      · exact .inr hr
  | _ => trivial

/-- From a coherent state, exactly the orderly calls lead to a coherent one. -/
theorem Coherent.does_iff {e : Effect K V} (h : Coherent s owed) (hd : Does e (owed i) s o t) :
    Coherent t (Function.update owed i o) ↔ Orderly s owed i e :=
  ⟨Coherent.orderly hd, h.does hd⟩

/-- A process that owes nothing takes removals from the queue. -/
theorem Coherent.take {taken rest : List (K × V)} (h : Coherent s owed) (hi : owed i = .none)
    (hs : s.queued = taken ++ rest) (ht : t = { s with queued := rest }) :
    Coherent t (Function.update owed i ⟨[], taken⟩) := by
  subst ht
  refine h.fewerRows (fun _ _ => id) (fun _ _ => .inl) rfl (by rw [hi]; rfl) ?_
  intro j v hp
  rw [pendingRemoval_iff i, hi, OtherRemoval, hs, List.mem_append] at hp
  rw [pendingRemoval_update, OtherRemoval]
  obtain hp | (hp | hp) | hp := hp
  · cases hp
  · exact .inl hp
  · exact .inr (.inl hp)
  · exact .inr (.inr hp)

end Update

/-- When nothing is owed, every set that is present is the set of the rows. -/
theorem Coherent.settled {owed : ι → Owed K V} {s : View K V} (h : Coherent s owed)
    (howed : ∀ i, owed i = .none) (hqueued : s.queued = []) (k : K) :
    (∀ v, v ∉ s.cached k) ∨ s.cached k = s.rows k := by
  have hadd : ∀ v, ¬ PendingAdd owed k v := by
    rintro v ⟨i, hi⟩
    rw [howed] at hi
    cases hi
  have hrem : ∀ v, ¬ PendingRemoval s owed k v := by
    rintro v (hq | ⟨i, hi⟩)
    · rw [hqueued] at hq
      cases hq
    · rw [howed] at hi
      cases hi
  obtain hnone | ⟨hall, honly⟩ := h.sets k
  · exact .inl hnone
  · right
    ext v
    exact ⟨fun hv => (honly v hv).resolve_right (hrem v),
      fun hv => (hall v hv).resolve_right (hadd v)⟩

end SetCache
