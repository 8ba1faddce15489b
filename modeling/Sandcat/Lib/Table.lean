import Mathlib.Data.List.Nodup

/-!
# Tables with a primary key

A table is a list of rows whose keys are distinct. Insertion of a present key is
refused, so the key constraint is a field of the structure and not a premise of
the lemmas. Selection, update and deletion follow the row order. A second unique
column is one more field.
-/

structure Table {R K : Type} (key : R → K) where
  rows : List R
  nodup : (rows.map key).Nodup

namespace Table

variable {R K : Type} {key : R → K}

def empty : Table key := ⟨[], by simp⟩

instance : EmptyCollection (Table key) := ⟨empty⟩

@[simp] theorem rows_empty : (∅ : Table key).rows = [] := rfl

/-- Two rows of a table with one key are one row. -/
theorem row_unique (t : Table key) {a b : R} (ha : a ∈ t.rows) (hb : b ∈ t.rows)
    (h : key a = key b) : a = b := List.inj_on_of_nodup_map t.nodup ha hb h

/-- `UPDATE ... WHERE p`, for updates that do not touch the key. -/
def modify (t : Table key) (p : R → Bool) (f : R → R) (hf : ∀ r, key (f r) = key r) :
    Table key where
  rows := t.rows.map fun r => if p r then f r else r
  nodup := by
    have h : key ∘ (fun r => if p r then f r else r) = key := by
      funext r
      by_cases hp : p r = true <;> simp [hp, hf]
    rw [List.map_map, h]
    exact t.nodup

theorem ext_rows {t t' : Table key} (h : t.rows = t'.rows) : t = t' := by
  cases t
  cases t'
  cases h
  rfl

/-- An update that selects no row. -/
theorem modify_eq_self (t : Table key) (p : R → Bool) (f : R → R) (hf : ∀ r, key (f r) = key r)
    (h : ∀ r ∈ t.rows, p r = false) : t.modify p f hf = t := by
  apply ext_rows
  apply (List.map_congr_left _).trans (List.map_id _)
  intro r hr
  simp [h r hr]

/-- `DELETE ... WHERE p`. -/
def delete (t : Table key) (p : R → Bool) : Table key where
  rows := t.rows.filter fun r => !p r
  nodup := t.nodup.sublist (List.filter_sublist.map key)

@[simp] theorem mem_delete (t : Table key) (p : R → Bool) (r : R) :
    r ∈ (t.delete p).rows ↔ r ∈ t.rows ∧ p r = false := by simp [delete]

section Find

variable [DecidableEq K]

/-- The row with a given key. -/
def find (t : Table key) (k : K) : Option R := t.rows.find? fun r => key r = k

@[simp] theorem find_empty (k : K) : (∅ : Table key).find k = none := rfl

theorem find_eq_some (t : Table key) (k : K) (r : R) :
    t.find k = some r ↔ r ∈ t.rows ∧ key r = k := by
  constructor
  · intro h
    exact ⟨List.mem_of_find?_eq_some h, by simpa using List.find?_some h⟩
  · rintro ⟨hr, rfl⟩
    cases h : t.find (key r) with
    | none => simpa using List.find?_eq_none.mp h r hr
    | some q =>
      have hq : key q = key r := by simpa using List.find?_some h
      rw [t.row_unique (List.mem_of_find?_eq_some h) hr hq]

theorem find_eq_none (t : Table key) (k : K) : t.find k = none ↔ ∀ r ∈ t.rows, key r ≠ k := by
  simp [find]

/-- At most one row has a given key. -/
theorem filter_key (t : Table key) (k : K) :
    (t.rows.filter fun r => key r = k) = (t.find k).toList := by
  cases h : t.find k with
  | none =>
    rw [find_eq_none] at h
    simpa [List.filter_eq_nil_iff] using h
  | some r =>
    have hnodup : (t.rows.filter fun r => key r = k).Nodup := t.nodup.of_map.filter _
    rw [Option.toList_some, ← List.perm_singleton, List.perm_ext_iff_of_nodup hnodup (by simp)]
    intro q
    rw [List.mem_filter, decide_eq_true_eq, ← find_eq_some, h, Option.some.injEq,
      List.mem_singleton, eq_comm]

theorem find_delete (t : Table key) (p : R → Bool) (k : K) :
    (t.delete p).find k = (t.find k).filter fun r => !p r := by
  cases h : t.find k with
  | none =>
    rw [find_eq_none] at h
    rw [Option.filter_none, find_eq_none]
    intro r hr
    exact h r ((mem_delete _ _ _).mp hr).1
  | some r =>
    obtain ⟨hr, hk⟩ := (t.find_eq_some _ _).mp h
    cases hp : p r with
    | true =>
      rw [Option.filter_some, if_neg (by simp [hp]), find_eq_none]
      intro q hq hqk
      obtain ⟨hq, hpq⟩ := (mem_delete _ _ _).mp hq
      rw [t.row_unique hq hr (hqk.trans hk.symm), hp] at hpq
      cases hpq
    | false =>
      rw [Option.filter_some, if_pos (by simp [hp]), find_eq_some]
      exact ⟨(mem_delete _ _ _).mpr ⟨hr, hp⟩, hk⟩

/-- `INSERT`; a present key is a violation of the primary key. -/
def insert (t : Table key) (r : R) : Option (Table key) :=
  if h : key r ∈ t.rows.map key then none
  else some ⟨t.rows ++ [r], by
    rw [List.map_append]
    exact t.nodup.append (by simp) (by simpa using h)⟩

/-- `INSERT ... ON CONFLICT DO NOTHING`. -/
def insertNew (t : Table key) (r : R) : Table key := (t.insert r).getD t

theorem insert_eq_some {t t' : Table key} {r : R} (h : t.insert r = some t') :
    t.find (key r) = none ∧ t'.rows = t.rows ++ [r] := by
  unfold insert at h
  split at h
  · cases h
  · rename_i hk
    cases h
    refine ⟨?_, rfl⟩
    rw [find_eq_none]
    intro q hq he
    exact hk (he ▸ List.mem_map_of_mem hq)

theorem insert_eq_none {t : Table key} {r : R} (h : t.insert r = none) :
    ∃ q ∈ t.rows, key q = key r := by
  unfold insert at h
  split at h
  · rename_i hk
    simpa using hk
  · cases h

theorem find_insert {t t' : Table key} {r : R} (h : t.insert r = some t') (k : K) :
    t'.find k = if k = key r then some r else t.find k := by
  obtain ⟨hn, hr⟩ := insert_eq_some h
  by_cases hk : k = key r
  · rw [if_pos hk, find_eq_some, hr]
    simp [hk]
  · have hk' : ¬ key r = k := fun h => hk h.symm
    simp [find, hr, hk, hk', List.find?_append]

theorem find_modify (t : Table key) (p : R → Bool) (f : R → R) (hf : ∀ r, key (f r) = key r)
    (k : K) : (t.modify p f hf).find k = (t.find k).map fun r => if p r then f r else r := by
  have h : (fun r => decide (key r = k)) ∘ (fun r => if p r then f r else r) =
      fun r => decide (key r = k) := by
    funext r
    by_cases hp : p r = true <;> simp [hp, hf]
  simp only [find, modify, List.find?_map, h]

/-- A row inserted unless its key is present: the rows found are the old ones and the new one. -/
theorem find_insertNew (t : Table key) (r : R) (k : K) :
    (t.insertNew r).find k = (t.find k).or (if k = key r then some r else none) := by
  unfold insertNew
  cases h : t.insert r with
  | none =>
    obtain ⟨q, hq, hk⟩ := insert_eq_none h
    rw [Option.getD_none]
    split
    · rename_i he
      rw [(t.find_eq_some k q).mpr ⟨hq, hk.trans he.symm⟩, Option.some_or]
    · rw [Option.or_none]
  | some t' =>
    rw [Option.getD_some, find_insert h]
    split
    · rename_i he
      rw [he, (insert_eq_some h).1, Option.none_or]
    · rw [Option.or_none]

/-- A row inserted unless its key is present: the keys are the old ones and the new one. -/
theorem mem_insertNew (t : Table key) (r : R) (k : K) :
    (∃ q ∈ (t.insertNew r).rows, key q = k) ↔ (∃ q ∈ t.rows, key q = k) ∨ key r = k := by
  unfold insertNew
  cases h : t.insert r with
  | none =>
    obtain ⟨q, hq, hk⟩ := insert_eq_none h
    simp only [Option.getD_none]
    constructor
    · exact .inl
    · rintro (hq' | rfl)
      · exact hq'
      · exact ⟨q, hq, hk⟩
  | some t' =>
    obtain ⟨-, hr⟩ := insert_eq_some h
    simp only [Option.getD_some, hr, List.mem_append, List.mem_singleton]
    constructor
    · rintro ⟨q, hq | rfl, hk⟩
      · exact .inl ⟨q, hq, hk⟩
      · exact .inr hk
    · rintro (⟨q, hq, hk⟩ | hk)
      · exact ⟨q, .inl hq, hk⟩
      · exact ⟨r, .inr rfl, hk⟩

/-- Insertions none of which is refused. -/
theorem rows_foldlM_insert {rows : List R} {t t' : Table key}
    (h : rows.foldlM (fun t r => t.insert r) t = some t') : t'.rows = t.rows ++ rows := by
  induction rows generalizing t with
  | nil =>
    cases h
    rw [List.append_nil]
  | cons r rows ih =>
    rw [List.foldlM_cons] at h
    obtain ⟨t₁, h₁, h⟩ := Option.bind_eq_some_iff.mp h
    rw [ih h, (insert_eq_some h₁).2, List.append_assoc, List.singleton_append]

/-- New rows with new keys are not refused. -/
theorem exists_foldlM_insert {rows : List R} {t : Table key} (hn : (rows.map key).Nodup)
    (hnew : ∀ r ∈ rows, t.find (key r) = none) :
    ∃ t', rows.foldlM (fun t r => t.insert r) t = some t' := by
  induction rows generalizing t with
  | nil => exact ⟨t, rfl⟩
  | cons r rows ih =>
    rw [List.map_cons, List.nodup_cons] at hn
    cases h : t.insert r with
    | none =>
      obtain ⟨q, hq, hk⟩ := insert_eq_none h
      exact absurd hk ((find_eq_none _ _).mp (hnew r List.mem_cons_self) q hq)
    | some t₁ =>
      have hnew₁ : ∀ q ∈ rows, t₁.find (key q) = none := by
        intro q hq
        rw [find_insert h, if_neg, hnew q (List.mem_cons_of_mem _ hq)]
        intro he
        exact hn.1 (he ▸ List.mem_map_of_mem hq)
      obtain ⟨t', ht'⟩ := ih hn.2 hnew₁
      exact ⟨t', by simp [List.foldlM_cons, h, ht']⟩

theorem mem_foldl_insertNew (rows : List R) (t : Table key) (k : K) :
    (∃ q ∈ (rows.foldl (fun t r => t.insertNew r) t).rows, key q = k) ↔
      (∃ q ∈ t.rows, key q = k) ∨ ∃ r ∈ rows, key r = k := by
  induction rows generalizing t with
  | nil => simp
  | cons r rows ih =>
    rw [List.foldl_cons, ih, mem_insertNew, or_assoc]
    simp

/-- `INSERT ... ON CONFLICT (key) DO UPDATE`. -/
def upsert (t : Table key) (r : R) (f : R → R) (hf : ∀ q, key (f q) = key q) : Table key :=
  (t.insert r).getD (t.modify (fun q => key q = key r) f hf)

theorem find_upsert (t : Table key) (r : R) (f : R → R) (hf : ∀ q, key (f q) = key q) (k : K) :
    (t.upsert r f hf).find k =
      if k = key r then some (((t.find k).map f).getD r) else t.find k := by
  unfold upsert
  cases h : t.insert r with
  | some t' =>
    rw [Option.getD_some, find_insert h]
    by_cases hk : k = key r
    · simp [hk, (insert_eq_some h).1]
    · simp [hk]
  | none =>
    rw [Option.getD_none, find_modify]
    obtain ⟨q, hq, hqr⟩ := insert_eq_none h
    by_cases hk : k = key r
    · rw [if_pos hk, (t.find_eq_some k q).mpr ⟨hq, hqr.trans hk.symm⟩]
      simp [hqr]
    · rw [if_neg hk]
      cases hf' : t.find k with
      | none => rfl
      | some p =>
        have hp := ((t.find_eq_some k p).mp hf').2
        simp [hp, hk]

/-- The same for several rows at once, where `f` is given the row proposed; two proposed
rows with one key would touch a row twice, which is refused. -/
def upsertAll (t : Table key) (rows : List R) (f : R → R → R) (hf : ∀ e q, key (f e q) = key q) :
    Option (Table key) :=
  if (rows.map key).Nodup then some (rows.foldl (fun t r => t.upsert r (f r) (hf r)) t) else none

section Stamps

variable {V : Type} {view : R → V} {time : R → Int} {now : Int} {t t' : Table key}

/-- Every row found was changed at `now`, or it was there with the same view and time. -/
def Stamps (view : R → V) (time : R → Int) (now : Int) (t t' : Table key) : Prop :=
  ∀ k r', t'.find k = some r' →
    time r' = now ∨ ∃ r, t.find k = some r ∧ view r = view r' ∧ time r = time r'

theorem Stamps.refl (t : Table key) : Stamps view time now t t :=
  fun _ r h => .inr ⟨r, h, rfl, rfl⟩

/-- An update that stamps the rows it changes. -/
theorem stamps_modify {p : R → Bool} {f : R → R} (hf : ∀ r, key (f r) = key r)
    (h : ∀ r ∈ t.rows, p r = true → time (f r) = now ∨ view (f r) = view r ∧ time (f r) = time r) :
    Stamps view time now t (t.modify p f hf) := by
  intro k r' hr'
  rw [find_modify, Option.map_eq_some_iff] at hr'
  obtain ⟨r, hr, rfl⟩ := hr'
  by_cases hp : p r = true
  · rw [if_pos hp]
    obtain hnow | ⟨hview, htime⟩ := h r ((t.find_eq_some _ _).mp hr).1 hp
    · exact .inl hnow
    · exact .inr ⟨r, hr, hview.symm, htime.symm⟩
  · rw [if_neg hp]
    exact .inr ⟨r, hr, rfl, rfl⟩

theorem stamps_insert {r : R} (h : t.insert r = some t') (hr : time r = now) :
    Stamps view time now t t' := by
  intro k r' hr'
  rw [find_insert h] at hr'
  split at hr'
  · cases hr'
    exact .inl hr
  · exact .inr ⟨r', hr', rfl, rfl⟩

/-- Every row is later than `T`, or it was there at first with the same view. -/
def Since (view : R → V) (time : R → Int) (T : Int) (t₀ t : Table key) : Prop :=
  ∀ k r, t.find k = some r → T < time r ∨ (t₀.find k).map view = some (view r)

theorem Since.refl {T : Int} (t : Table key) : Since view time T t t := by
  intro k r h
  exact .inr (by rw [h, Option.map_some])

/-- Changes later than `T`, each with its stamp. -/
theorem Since.step {T : Int} {t₀ : Table key} (h : Since view time T t₀ t) (hT : T < now)
    (hstamps : Stamps view time now t t') : Since view time T t₀ t' := by
  intro k r' hr'
  obtain hnow | ⟨r, hr, hview, htime⟩ := hstamps k r' hr'
  · exact .inl (by omega)
  · rw [← hview, ← htime]
    exact h k r hr

end Stamps

end Find

end Table

/-- A table with a second unique column. -/
structure UniqueTable {R K L : Type} (key : R → K) (alt : R → L) extends Table key where
  unique : (rows.map alt).Nodup

namespace UniqueTable

variable {R K L : Type} {key : R → K} {alt : R → L}

instance : EmptyCollection (UniqueTable key alt) := ⟨⟨∅, by simp⟩⟩

theorem ext_table {t t' : UniqueTable key alt} (h : t.toTable = t'.toTable) : t = t' := by
  cases t
  cases t'
  cases h
  rfl

/-- The same rows under the second column. -/
def byAlt (t : UniqueTable key alt) : Table alt := ⟨t.rows, t.unique⟩

/-- `UPDATE ... WHERE p`, for updates that touch neither column. -/
def modify (t : UniqueTable key alt) (p : R → Bool) (f : R → R) (hf : ∀ r, key (f r) = key r)
    (hg : ∀ r, alt (f r) = alt r) : UniqueTable key alt where
  toTable := t.toTable.modify p f hf
  unique := (t.byAlt.modify p f hg).nodup

variable [DecidableEq L]

/-- Every row is still there under the second column, and under the same key. -/
def Keeps (t t' : UniqueTable key alt) : Prop :=
  ∀ l r, t.byAlt.find l = some r → ∃ r', t'.byAlt.find l = some r' ∧ key r' = key r

theorem Keeps.refl (t : UniqueTable key alt) : Keeps t t := fun _ r h => ⟨r, h, rfl⟩

theorem find_alt_modify (t : UniqueTable key alt) (p : R → Bool) (f : R → R)
    (hf : ∀ r, key (f r) = key r) (hg : ∀ r, alt (f r) = alt r) (l : L) :
    (t.modify p f hf hg).byAlt.find l = (t.byAlt.find l).map fun r => if p r then f r else r :=
  t.byAlt.find_modify p f hg l

theorem keeps_modify (t : UniqueTable key alt) (p : R → Bool) (f : R → R)
    (hf : ∀ r, key (f r) = key r) (hg : ∀ r, alt (f r) = alt r) : Keeps t (t.modify p f hf hg) := by
  intro l r h
  refine ⟨_, by rw [find_alt_modify, h]; rfl, ?_⟩
  dsimp only
  split
  · exact hf r
  · rfl

/-- An update of a row that is not there. -/
theorem modify_of_alt_none {t : UniqueTable key alt} {l : L} (h : t.byAlt.find l = none)
    (f : R → R) (hf : ∀ r, key (f r) = key r) (hg : ∀ r, alt (f r) = alt r) :
    t.modify (fun r => alt r = l) f hf hg = t := by
  apply ext_table
  refine t.toTable.modify_eq_self _ f hf ?_
  intro r hr
  exact decide_eq_false ((t.byAlt.find_eq_none l).mp h r hr)

variable [DecidableEq K]

/-- `INSERT`, refused by either column. -/
def insert (t : UniqueTable key alt) (r : R) : Option (UniqueTable key alt) :=
  if h : key r ∈ t.rows.map key ∨ alt r ∈ t.rows.map alt then none
  else some ⟨⟨t.rows ++ [r], by
    rw [List.map_append]
    exact t.nodup.append (by simp) (by simpa using (not_or.mp h).1)⟩, by
    rw [List.map_append]
    exact t.unique.append (by simp) (by simpa using (not_or.mp h).2)⟩

/-- `INSERT ... ON CONFLICT (key) DO UPDATE`; a conflict in the other column is refused. -/
def upsert (t : UniqueTable key alt) (r : R) (f : R → R) (hf : ∀ q, key (f q) = key q)
    (hg : ∀ q, alt (f q) = alt q) : Option (UniqueTable key alt) :=
  match t.find (key r) with
  | some _ => some (t.modify (fun q => key q = key r) f hf hg)
  | none => t.insert r

/-- What is refused: a new key with a value of the other column that is taken. -/
theorem upsert_eq_none_iff {t : UniqueTable key alt} {r : R} {f : R → R}
    {hf : ∀ q, key (f q) = key q} {hg : ∀ q, alt (f q) = alt q} :
    t.upsert r f hf hg = none ↔ t.find (key r) = none ∧ ∃ q ∈ t.rows, alt q = alt r := by
  unfold upsert
  cases h : t.find (key r) with
  | some q => simp
  | none =>
    have hkey : key r ∉ t.rows.map key := by simpa [Table.find] using h
    simp [insert, hkey]

theorem insert_eq_some {t t' : UniqueTable key alt} {r : R} (h : t.insert r = some t') :
    t.toTable.insert r = some t'.toTable ∧ t.byAlt.insert r = some t'.byAlt := by
  unfold insert at h
  split at h
  · cases h
  · rename_i hk
    cases h
    unfold Table.insert byAlt
    rw [dif_neg (not_or.mp hk).1, dif_neg (not_or.mp hk).2]
    exact ⟨rfl, rfl⟩

theorem find_upsert {t t' : UniqueTable key alt} {r : R} {f : R → R} {hf : ∀ q, key (f q) = key q}
    {hg : ∀ q, alt (f q) = alt q} (h : t.upsert r f hf hg = some t') (k : K) :
    t'.find k = if k = key r then some (((t.find (key r)).map f).getD r) else t.find k := by
  have hsame : t'.toTable = t.toTable.upsert r f hf := by
    unfold upsert at h
    unfold Table.upsert
    split at h
    · rename_i q hq
      cases h
      cases hi : t.toTable.insert r with
      | none => rfl
      | some t₁ =>
        rw [(Table.insert_eq_some hi).1] at hq
        cases hq
    · rw [(insert_eq_some h).1]
      rfl
  rw [hsame, Table.find_upsert]
  by_cases hk : k = key r
  · rw [if_pos hk, if_pos hk, hk]
  · rw [if_neg hk, if_neg hk]

/-- A row that is there after an insertion with an update: an old one under another key, the one
proposed, or the update of the one in its place. -/
theorem find_alt_upsert {t t' : UniqueTable key alt} {r : R} {f : R → R}
    {hf : ∀ q, key (f q) = key q} {hg : ∀ q, alt (f q) = alt q}
    (h : t.upsert r f hf hg = some t') {l : L} {q' : R} (hq' : t'.byAlt.find l = some q') :
    t.byAlt.find l = some q' ∧ key q' ≠ key r ∨ q' = r ∨
      ∃ q, t.byAlt.find l = some q ∧ key q = key r ∧ q' = f q := by
  unfold upsert at h
  split at h
  · cases h
    rw [find_alt_modify, Option.map_eq_some_iff] at hq'
    obtain ⟨q, hq, rfl⟩ := hq'
    by_cases hk : key q = key r
    · simp only [hk, decide_true, if_true]
      exact .inr (.inr ⟨q, hq, hk, rfl⟩)
    · simp only [hk, decide_false]
      exact .inl ⟨hq, hk⟩
  · rename_i hnone
    rw [Table.find_insert (insert_eq_some h).2] at hq'
    split at hq'
    · cases hq'
      exact .inr (.inl rfl)
    · refine .inl ⟨hq', ?_⟩
      exact (t.toTable.find_eq_none _).mp hnone q' ((t.byAlt.find_eq_some _ _).mp hq').1

/-- An update of the row found under the second column. -/
theorem find_modify_of_alt {t : UniqueTable key alt} {l : L} {q : R} (h : t.byAlt.find l = some q)
    (f : R → R) (hf : ∀ r, key (f r) = key r) (hg : ∀ r, alt (f r) = alt r) (k : K) :
    (t.modify (fun r => alt r = l) f hf hg).find k = if k = key q then some (f q) else t.find k := by
  obtain ⟨hq, rfl⟩ := (t.byAlt.find_eq_some _ _).mp h
  refine (t.toTable.find_modify _ f hf k).trans ?_
  split
  · rename_i hk
    rw [(t.toTable.find_eq_some k q).mpr ⟨hq, hk.symm⟩]
    simp
  · rename_i hk
    cases hr : t.toTable.find k with
    | none => rfl
    | some r =>
      obtain ⟨hmem, hrk⟩ := (t.toTable.find_eq_some _ _).mp hr
      have hne : alt r ≠ alt q := by
        intro he
        apply hk
        rw [← hrk, t.byAlt.row_unique hmem hq he]
      simp [hne]

/-- An insertion that stamps, or an update that does. -/
theorem stamps_upsert {V : Type} {view : R → V} {time : R → Int} {now : Int}
    {t t' : UniqueTable key alt} {r : R} {f : R → R} {hf : ∀ q, key (f q) = key q}
    {hg : ∀ q, alt (f q) = alt q} (h : t.upsert r f hf hg = some t') (hr : time r = now)
    (hnow : ∀ q, time (f q) = now) : Table.Stamps view time now t.byAlt t'.byAlt := by
  unfold upsert at h
  split at h
  · cases h
    exact Table.stamps_modify (t := t.byAlt) hg fun q _ _ => .inl (hnow q)
  · exact Table.stamps_insert (insert_eq_some h).2 hr

theorem keeps_upsert {t t' : UniqueTable key alt} {r : R} {f : R → R}
    {hf : ∀ q, key (f q) = key q} {hg : ∀ q, alt (f q) = alt q}
    (h : t.upsert r f hf hg = some t') : Keeps t t' := by
  unfold upsert at h
  split at h
  · cases h
    exact t.keeps_modify _ f hf hg
  · intro l q hq
    have hins := (insert_eq_some h).2
    refine ⟨q, ?_, rfl⟩
    rw [Table.find_insert hins, if_neg, hq]
    rintro rfl
    rw [(Table.insert_eq_some hins).1] at hq
    cases hq

end UniqueTable
