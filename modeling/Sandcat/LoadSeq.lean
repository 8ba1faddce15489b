import Sandcat.World

/-!
# Loading the counters at start-up

Each process checks a flag, copies the rows of the `sequence` table to Redis in
batches, and sets the flag. A batch that fails is logged. The stream of rows is
taken to end; its channel is not part of this program.
-/

namespace Sandcat

open Remote

namespace LoadSeq

def batchSize : Nat := 50

/-- One `set_seq`, whose failure is logged. -/
def flush (list : List (UserId × Int × Int)) : M Unit := Prog.void (Prog.attempt (Cache.setSeq list))

/-- The loop over the stream with the batch collected so far. -/
def loadRows (list : List (UserId × Int × Int)) : List (UserId × Int × Int) → M Unit
  | [] => if list ≠ [] then flush list else pure ()
  | item :: rx =>
    let list := list ++ [item]
    if list.length = batchSize then do
      flush list
      loadRows [] rx
    else loadRows list rx

def loadSeq : M Unit := do
  let flag ← Cache.checkSeqLoaded
  if !flag then pure ()
  else
    let rx ← Db.getMaxSeq
    loadRows [] rx
    Cache.setSeqLoaded

end LoadSeq

/-- The users that are streamed, one after another. -/
theorem Postgres.fst_getMaxSeq (pg : Postgres) :
    pg.getMaxSeq.map Prod.fst = pg.sequence.rows.map (·.userId) := by
  rw [getMaxSeq, List.map_map]
  rfl

theorem Postgres.nodup_fst_getMaxSeq (pg : Postgres) : (pg.getMaxSeq.map Prod.fst).Nodup := by
  rw [fst_getMaxSeq]
  exact pg.sequence.nodup

namespace Redis

theorem hashes_setSeqRow (r : Redis) (row : UserId × Int × Int) (u : UserId) :
    (r.setSeqRow row).hashes (seqKey u) =
        (if u = row.1 then ⟨some row.2.2, some row.2.2⟩ else r.hashes (seqKey u)) ∧
      (r.setSeqRow row).hashes (sendSeqKey u) =
        if u = row.1 then ⟨some row.2.1, some row.2.1⟩ else r.hashes (sendSeqKey u) := by
  simp [setSeqRow, Function.update_apply, sendSeqKey_ne_seqKey,
    (sendSeqKey_ne_seqKey _ _).symm]

/-- A batch leaves a counter alone or sets it to the value of one of its rows. -/
theorem hashes_setSeq_cases (r : Redis) (rows : List (UserId × Int × Int)) (key : String) :
    (r.setSeq rows).hashes key = r.hashes key ∨ ∃ row ∈ rows,
      key = seqKey row.1 ∧ (r.setSeq rows).hashes key = ⟨some row.2.2, some row.2.2⟩ ∨
        key = sendSeqKey row.1 ∧ (r.setSeq rows).hashes key = ⟨some row.2.1, some row.2.1⟩ := by
  induction rows generalizing r with
  | nil => exact .inl rfl
  | cons row rows ih =>
    obtain h | ⟨row', hrow', h⟩ := ih (r.setSeqRow row)
    · have hset : (r.setSeq (row :: rows)).hashes key = (r.setSeqRow row).hashes key := h
      rw [hset]
      by_cases hk : key = seqKey row.1
      · exact .inr ⟨row, List.mem_cons_self, .inl ⟨hk, by simp [setSeqRow, hk]⟩⟩
      · by_cases hk' : key = sendSeqKey row.1
        · refine .inr ⟨row, List.mem_cons_self, .inr ⟨hk', ?_⟩⟩
          simp [setSeqRow, hk', sendSeqKey_ne_seqKey]
        · exact .inl (by simp [setSeqRow, hk, hk'])
    · exact .inr ⟨row', List.mem_cons_of_mem _ hrow', h⟩

/-- The counters of a user without a row stay as they are. -/
theorem hashes_setSeq_of_not_mem (r : Redis) {rows : List (UserId × Int × Int)} {u : UserId}
    (h : u ∉ rows.map Prod.fst) :
    (r.setSeq rows).hashes (seqKey u) = r.hashes (seqKey u) ∧
      (r.setSeq rows).hashes (sendSeqKey u) = r.hashes (sendSeqKey u) := by
  induction rows generalizing r with
  | nil => exact ⟨rfl, rfl⟩
  | cons row rows ih =>
    rw [List.map_cons, List.mem_cons, not_or] at h
    have hrow := hashes_setSeqRow r row u
    rw [if_neg h.1, if_neg h.1] at hrow
    have hrest := ih (r.setSeqRow row) h.2
    exact ⟨hrest.1.trans hrow.1, hrest.2.trans hrow.2⟩

/-- The counters of a user with a row start again at its ceilings. -/
theorem hashes_setSeq_of_mem (r : Redis) {rows : List (UserId × Int × Int)}
    (hn : (rows.map Prod.fst).Nodup) {row : UserId × Int × Int} (h : row ∈ rows) :
    (r.setSeq rows).hashes (seqKey row.1) = ⟨some row.2.2, some row.2.2⟩ ∧
      (r.setSeq rows).hashes (sendSeqKey row.1) = ⟨some row.2.1, some row.2.1⟩ := by
  induction rows generalizing r with
  | nil => cases h
  | cons row' rows ih =>
    rw [List.map_cons, List.nodup_cons] at hn
    obtain rfl | h := List.mem_cons.mp h
    · have hrest := hashes_setSeq_of_not_mem (r.setSeqRow row) hn.1
      have hrow := hashes_setSeqRow r row row.1
      rw [if_pos rfl, if_pos rfl] at hrow
      exact ⟨hrest.1.trans hrow.1, hrest.2.trans hrow.2⟩
    · exact ih (r.setSeqRow row') hn.2 h

/-- Batches of distinct users that write the same hold the same rows. -/
theorem mem_of_setSeq_eq {rows rows' : List (UserId × Int × Int)} (hn : (rows.map Prod.fst).Nodup)
    (hn' : (rows'.map Prod.fst).Nodup) (h : Redis.empty.setSeq rows = Redis.empty.setSeq rows')
    {row : UserId × Int × Int} (hrow : row ∈ rows') : row ∈ rows := by
  obtain ⟨hrec, hsend⟩ := hashes_setSeq_of_mem .empty hn' hrow
  rw [← h] at hrec hsend
  by_cases hmem : row.1 ∈ rows.map Prod.fst
  · obtain ⟨row', hrow', he⟩ := List.mem_map.mp hmem
    obtain ⟨hrec', hsend'⟩ := hashes_setSeq_of_mem .empty hn hrow'
    rw [he, hrec] at hrec'
    rw [he, hsend] at hsend'
    have hrow : row = row' := by
      refine Prod.ext he.symm (Prod.ext ?_ ?_)
      · simpa using hsend'
      · simpa using hrec'
    exact hrow ▸ hrow'
  · rw [(hashes_setSeq_of_not_mem .empty hmem).1] at hrec
    cases hrec

end Redis

namespace World

/-- Redis loses all its data. -/
def lose (w : World) : World := { w with redis := .empty }

/-- Redis loses all its data and one process loads the counters again. -/
def reload (w : World) : World := LoadSeq.loadSeq.after w.lose

end World

namespace LoadSeq

theorem exec_flush (list : List (UserId × Int × Int)) (w : World) :
    (flush list).exec w = (.ok (), { w with redis := w.redis.setSeq list }) := rfl

/-- The batches together write every row once, in order. -/
theorem exec_loadRows (list rx : List (UserId × Int × Int)) (w : World) :
    (loadRows list rx).exec w = (.ok (), { w with redis := w.redis.setSeq (list ++ rx) }) := by
  induction rx generalizing list w with
  | nil =>
    unfold loadRows
    split
    · rw [exec_flush, List.append_nil]
    · rename_i h
      rw [not_not] at h
      subst h
      rfl
  | cons item rx ih =>
    unfold loadRows
    dsimp only
    split
    · rw [Prog.exec_bind, exec_flush]
      simp only [ih, Redis.setSeq, List.nil_append, ← List.foldl_append, List.append_assoc,
        List.cons_append]
    · rw [ih, List.append_assoc, List.cons_append, List.nil_append]

end LoadSeq

namespace World

theorem reload_eq (w : World) :
    w.reload = { w with redis := (Redis.empty.setSeq w.pg.getMaxSeq).setSeqLoaded } := by
  have hcheck : Cache.checkSeqLoaded.exec w.lose = (.ok true, w.lose) := rfl
  have hrows : Db.getMaxSeq.exec w.lose = (.ok w.pg.getMaxSeq, w.lose) := rfl
  have hload : (LoadSeq.loadSeq).exec w.lose =
      Cache.setSeqLoaded.exec { w.lose with redis := w.lose.redis.setSeq w.pg.getMaxSeq } := by
    rw [LoadSeq.loadSeq, Prog.exec_bind, hcheck]
    change Prog.exec (Db.getMaxSeq >>= _) w.lose = _
    rw [Prog.exec_bind, hrows]
    change Prog.exec (LoadSeq.loadRows [] w.pg.getMaxSeq >>= _) w.lose = _
    rw [Prog.exec_bind, LoadSeq.exec_loadRows]
    rfl
  rw [reload, Prog.after, hload]
  rfl

@[simp] theorem reload_pg (w : World) : w.reload.pg = w.pg := by rw [reload_eq]
@[simp] theorem reload_scripts (w : World) : w.reload.scripts = w.scripts := by rw [reload_eq]
@[simp] theorem reload_handled (w : World) : w.reload.handled = w.handled := by rw [reload_eq]

/-- After a reload a counter is at the ceiling the database keeps, or missing. -/
theorem reload_hashes (w : World) (u : UserId) :
    w.reload.redis.hashes (seqKey u) =
        (match w.pg.sequence.find u with
          | some row => ⟨some row.recMaxSeq, some row.recMaxSeq⟩
          | none => {}) ∧
      w.reload.redis.hashes (sendSeqKey u) =
        match w.pg.sequence.find u with
        | some row => ⟨some row.sendMaxSeq, some row.sendMaxSeq⟩
        | none => {} := by
  rw [reload_eq]
  cases hf : w.pg.sequence.find u with
  | none =>
    have hu : u ∉ w.pg.getMaxSeq.map Prod.fst := by
      rw [Postgres.fst_getMaxSeq, List.mem_map]
      rintro ⟨row, hrow, rfl⟩
      exact (Table.find_eq_none _ _).mp hf row hrow rfl
    exact Redis.hashes_setSeq_of_not_mem .empty hu
  | some row =>
    obtain ⟨hrow, rfl⟩ := (Table.find_eq_some _ _ _).mp hf
    exact Redis.hashes_setSeq_of_mem .empty w.pg.nodup_fst_getMaxSeq
      (List.mem_map_of_mem (f := fun r : SeqRow => (r.userId, r.sendMaxSeq, r.recMaxSeq)) hrow)

theorem reload_ok (w : World) (u : UserId) : (w.reload.redis.hashes (seqKey u)).Ok := by
  rw [(w.reload_hashes u).1]
  cases w.pg.sequence.find u with
  | none => exact .inl ⟨rfl, rfl⟩
  | some row => exact .inr ⟨_, _, rfl, rfl, Int.le_refl _⟩

end World

end Sandcat
