import Mathlib.Data.List.Nodup
import Sandcat.LoadSeq
import Sandcat.Lib.Waiting

/-!
# The stream of rows at start-up

`get_max_seq` sends all rows into a channel and returns the receiver after the last one. The task
that would receive is the one that sends, so that a row more than the channel has room for is never
sent.
-/

namespace Sandcat

open Waiting

/-- A row of the stream: the user and its two ceilings. -/
abbrev SeqItem := UserId × Int × Int

/-- What the task is about to do: send the rest of the rows, receive with a batch collected so
far, or nothing more. -/
inductive LoadStage where
  | sending (rest : List SeqItem)
  | receiving (list : List SeqItem)
  | done

/-- The task, its channel, and the calls of `set_seq` with what they wrote. -/
structure LoadRun where
  stage : LoadStage
  channel : Channel SeqItem 1024
  calls : List (List SeqItem)
  redis : Redis

namespace LoadRun

/-- The loading of some rows begins. -/
def start (rows : List SeqItem) (redis : Redis) : LoadRun := ⟨.sending rows, .empty, [], redis⟩

def setSeq (list : List SeqItem) (s : LoadRun) : LoadRun :=
  { s with calls := s.calls ++ [list], redis := s.redis.setSeq list }

/-- `set_seq_loaded`, the last thing to be done. -/
def finish (s : LoadRun) : LoadRun := { s with stage := .done, redis := s.redis.setSeqLoaded }

/-- A step of the task; `none` if it waits or is done. -/
def step (s : LoadRun) : Option LoadRun :=
  match s.stage with
  | .sending [] => some { s with stage := .receiving [] }
  | .sending (item :: rest) =>
    (s.channel.send item).map fun channel => { s with stage := .sending rest, channel }
  | .receiving list =>
    match s.channel.recv with
    | some (item, channel) =>
      let list := list ++ [item]
      if list.length = LoadSeq.batchSize then
        some { s.setSeq list with stage := .receiving [], channel }
      else some { s with stage := .receiving list, channel }
    -- the sender was dropped when `get_max_seq` returned
    | none => if list ≠ [] then some (s.setSeq list).finish else some s.finish
  | .done => none

/-- The loading ends and never waits for itself, and it leaves to every user with a row its
ceilings, written by one call. -/
structure Loads (rows : List SeqItem) (redis : Redis) : Prop where
  never : ∀ s, Reaches step (start rows redis) s → s.stage ≠ .done → s.step ≠ none
  ends : ∃ s, Reaches step (start rows redis) s ∧ s.stage = .done
  once : ∀ s, Reaches step (start rows redis) s → s.stage = .done → ∀ row ∈ rows,
    (s.calls.countP fun call => row.1 ∈ call.map Prod.fst) = 1
  written : ∀ s, Reaches step (start rows redis) s → s.stage = .done → ∀ row ∈ rows,
    s.redis.hashes (seqKey row.1) = ⟨some row.2.2, some row.2.2⟩ ∧
      s.redis.hashes (sendSeqKey row.1) = ⟨some row.2.1, some row.2.1⟩

/-- Where the rows are at each stage, and what was written. -/
def Inv (rows : List SeqItem) (redis : Redis) (s : LoadRun) : Prop :=
  match s.stage with
  | .sending rest => s.channel.buffer ++ rest = rows ∧ s.calls = [] ∧ s.redis = redis
  | .receiving list =>
    s.calls.flatten ++ list ++ s.channel.buffer = rows ∧ s.redis = redis.setSeq s.calls.flatten
  | .done => s.calls.flatten = rows ∧ s.redis = (redis.setSeq rows).setSeqLoaded

/-- Each row is to be sent and received, and the two loops are to end. -/
def todo (s : LoadRun) : Nat :=
  match s.stage with
  | .sending rest => 2 * rest.length + s.channel.buffer.length + 2
  | .receiving _ => s.channel.buffer.length + 1
  | .done => 0

variable {rows : List SeqItem} {redis : Redis} {s t : LoadRun}

theorem inv_start (rows : List SeqItem) (redis : Redis) : (start rows redis).Inv rows redis :=
  ⟨rfl, rfl, rfl⟩

theorem setSeq_append (r : Redis) (xs ys : List SeqItem) : (r.setSeq xs).setSeq ys = r.setSeq (xs ++ ys) :=
  List.foldl_append.symm

theorem inv_step (h : s.Inv rows redis) (hstep : s.step = some t) :
    t.Inv rows redis ∧ t.todo < s.todo := by
  obtain ⟨stage, channel, calls, r⟩ := s
  cases stage with
  | sending rest =>
    cases rest with
    | nil =>
      cases hstep
      obtain ⟨hrows, rfl, rfl⟩ := h
      exact ⟨⟨by simpa using hrows, rfl⟩, by simp [todo]⟩
    | cons item rest =>
      obtain ⟨channel', hsend, rfl⟩ := Option.map_eq_some_iff.mp hstep
      obtain ⟨hrows, rfl, rfl⟩ := h
      have hbuffer := Channel.send_eq_some hsend
      refine ⟨⟨?_, rfl, rfl⟩, ?_⟩
      · rw [hbuffer, List.append_assoc]
        exact hrows
      · simp only [todo, hbuffer, List.length_append, List.length_cons, List.length_nil]
        omega
  | receiving list =>
    obtain ⟨hrows, hredis⟩ := h
    dsimp only at hrows hredis
    subst hredis
    simp only [step] at hstep
    cases hrecv : channel.recv with
    | some p =>
      obtain ⟨item, channel'⟩ := p
      have hbuffer := Channel.recv_eq_some hrecv
      rw [hbuffer] at hrows
      rw [hrecv] at hstep
      dsimp only at hstep
      split at hstep
      · cases hstep
        refine ⟨⟨?_, ?_⟩, ?_⟩
        · simpa [setSeq] using hrows
        · simp [setSeq, setSeq_append]
        · simp [todo, hbuffer]
      · cases hstep
        refine ⟨⟨?_, rfl⟩, ?_⟩
        · simpa using hrows
        · simp [todo, hbuffer]
    | none =>
      rw [Channel.recv_eq_none.mp hrecv, List.append_nil] at hrows
      rw [hrecv] at hstep
      dsimp only at hstep
      split at hstep
      · cases hstep
        refine ⟨⟨?_, ?_⟩, by simp [todo, finish]⟩
        · simpa [setSeq, finish] using hrows
        · simp [setSeq, finish, setSeq_append, hrows]
      · rename_i hlist
        rw [not_not] at hlist
        cases hstep
        rw [hlist, List.append_nil] at hrows
        exact ⟨⟨hrows, by simp [finish, hrows]⟩, by simp [todo, finish]⟩
  | done => cases hstep

/-- A task that is not done waits at a full channel, with a row more to send. -/
theorem not_waiting (hlength : rows.length ≤ 1024) (h : s.Inv rows redis) (hstage : s.stage ≠ .done) :
    s.step ≠ none := by
  obtain ⟨stage, channel, calls, r⟩ := s
  cases stage with
  | sending rest =>
    cases rest with
    | nil => exact fun hnone => by cases hnone
    | cons item rest =>
      intro hnone
      have hfull := Channel.send_eq_none.mp (Option.map_eq_none_iff.mp hnone)
      rw [← h.1, List.length_append, hfull, List.length_cons] at hlength
      omega
  | receiving list =>
    simp only [step]
    split
    · split <;> simp
    · split <;> simp
  | done => exact absurd rfl hstage

/-- With more rows than the channel has room for, a row more is to be sent at any time. -/
theorem sending_step (hlength : 1024 < rows.length) (h : s.Inv rows redis)
    (hstage : ∃ item rest, s.stage = .sending (item :: rest)) (hstep : s.step = some t) :
    ∃ item rest, t.stage = .sending (item :: rest) := by
  obtain ⟨item, rest, hstage⟩ := hstage
  have ht := (inv_step h hstep).1
  have htstage : t.stage = .sending rest := by
    simp only [step, hstage] at hstep
    obtain ⟨channel, -, rfl⟩ := Option.map_eq_some_iff.mp hstep
    rfl
  simp only [Inv, htstage] at ht
  cases rest with
  | nil =>
    have hbounded := t.channel.bounded
    rw [← ht.1, List.append_nil] at hlength
    omega
  | cons item rest => exact ⟨item, rest, htstage⟩

/-- More rows than the channel has room for are never sent. -/
theorem exists_waiting (hlength : 1024 < rows.length) (redis : Redis) :
    ∃ s, Reaches step (start rows redis) s ∧ s.stage ≠ .done ∧ s.step = none := by
  have hstart : ∃ item rest, (start rows redis).stage = .sending (item :: rest) := by
    cases rows with
    | nil => cases hlength
    | cons item rest => exact ⟨item, rest, rfl⟩
  have hstep : ∀ s t : LoadRun, (s.Inv rows redis ∧ ∃ item rest, s.stage = .sending (item :: rest)) →
      s.step = some t →
      (t.Inv rows redis ∧ ∃ item rest, t.stage = .sending (item :: rest)) ∧ t.todo < s.todo := by
    rintro s t ⟨hs, hstage⟩ hstep
    obtain ⟨ht, hlt⟩ := inv_step hs hstep
    exact ⟨⟨ht, sending_step hlength hs hstage hstep⟩, hlt⟩
  obtain ⟨s, hreach, ⟨-, item, rest, hstage⟩, hnone⟩ :=
    exists_last todo hstep ⟨inv_start rows redis, hstart⟩
  refine ⟨s, hreach, ?_, hnone⟩
  rw [hstage]
  exact fun h => by cases h

theorem inv_reaches (h : Reaches step (start rows redis) s) : s.Inv rows redis :=
  h.invariant (inv_start rows redis) fun _ _ hs hstep => (inv_step hs hstep).1

theorem inv_done (h : s.Inv rows redis) (hdone : s.stage = .done) :
    s.calls.flatten = rows ∧ s.redis = (redis.setSeq rows).setSeqLoaded := by
  rw [Inv, hdone] at h
  exact h

/-- A run that ends leaves what the loop alone would. -/
theorem redis_of_done {w : World} (h : Reaches step (start w.pg.getMaxSeq .empty) s)
    (hdone : s.stage = .done) : s.redis = w.reload.redis := by
  rw [w.reload_eq, (inv_done (inv_reaches h) hdone).2]

end LoadRun

/-- Batches of distinct users: a user is in one of them. -/
theorem countP_of_mem_flatten {calls : List (List SeqItem)} {row : SeqItem}
    (hn : (calls.flatten.map Prod.fst).Nodup) (h : row ∈ calls.flatten) :
    (calls.countP fun call => row.1 ∈ call.map Prod.fst) = 1 := by
  induction calls with
  | nil => cases h
  | cons call calls ih =>
    rw [List.flatten_cons, List.map_append] at hn
    have hdisjoint := List.disjoint_of_nodup_append hn
    rw [List.countP_cons]
    obtain h | h := List.mem_append.mp (List.flatten_cons ▸ h)
    · have hmem : row.1 ∈ call.map Prod.fst := List.mem_map_of_mem h
      have hnone : (calls.countP fun call => row.1 ∈ call.map Prod.fst) = 0 := by
        rw [List.countP_eq_zero]
        intro call' hcall'
        rw [decide_eq_true_eq]
        intro hmem'
        obtain ⟨row', hrow', he⟩ := List.mem_map.mp hmem'
        refine hdisjoint hmem ?_
        rw [← he]
        exact List.mem_map_of_mem (List.mem_flatten.mpr ⟨call', hcall', hrow'⟩)
      rw [hnone, if_pos (decide_eq_true hmem)]
    · have hmem : row.1 ∉ call.map Prod.fst := fun hmem => hdisjoint hmem (List.mem_map_of_mem h)
      rw [ih (List.nodup_append.mp hn).2.1 h, if_neg (by simpa using hmem)]

/-- The loading is complete exactly when the channel has room for all rows. -/
theorem loads_iff (pg : Postgres) (redis : Redis) :
    LoadRun.Loads pg.getMaxSeq redis ↔ pg.sequence.rows.length ≤ 1024 := by
  have hlength : pg.getMaxSeq.length = pg.sequence.rows.length := List.length_map _
  rw [← hlength]
  constructor
  · intro h
    by_contra hlong
    obtain ⟨s, hreach, hstage, hnone⟩ := LoadRun.exists_waiting (Nat.lt_of_not_le hlong) redis
    exact h.never s hreach hstage hnone
  · intro hshort
    have hlast := exists_last LoadRun.todo (fun s t hs hstep => LoadRun.inv_step hs hstep)
      (LoadRun.inv_start pg.getMaxSeq redis)
    refine ⟨?_, ?_, ?_, ?_⟩
    · exact fun s hreach => LoadRun.not_waiting hshort (LoadRun.inv_reaches hreach)
    · obtain ⟨s, hreach, hs, hnone⟩ := hlast
      refine ⟨s, hreach, ?_⟩
      by_contra hstage
      exact LoadRun.not_waiting hshort hs hstage hnone
    · intro s hreach hdone row hrow
      obtain ⟨hcalls, -⟩ := LoadRun.inv_done (LoadRun.inv_reaches hreach) hdone
      rw [← hcalls] at hrow
      exact countP_of_mem_flatten (hcalls ▸ pg.nodup_fst_getMaxSeq) hrow
    · intro s hreach hdone row hrow
      obtain ⟨-, hredis⟩ := LoadRun.inv_done (LoadRun.inv_reaches hreach) hdone
      rw [hredis]
      exact Redis.hashes_setSeq_of_mem redis pg.nodup_fst_getMaxSeq hrow

/-- One row for each of 1025 users. -/
def longSequence : Table SeqRow.userId :=
  ⟨(List.range 1025).map fun n => ⟨String.ofList (List.replicate n 'u'), 5000, 5000⟩, by
    rw [List.map_map]
    refine List.nodup_range.map fun m n h => ?_
    have hlength := congrArg (fun s : String => s.toList.length) h
    simpa using hlength⟩

/-- The row after the first 1024 is waited with for ever. -/
theorem load_waits : ¬ ∀ (pg : Postgres) (redis : Redis), LoadRun.Loads pg.getMaxSeq redis := by
  intro h
  have hlength : 1024 < ({ Postgres.empty with sequence := longSequence } : Postgres).getMaxSeq.length := by
    simp [Postgres.getMaxSeq, longSequence]
  obtain ⟨s, hreach, hstage, hnone⟩ := LoadRun.exists_waiting hlength .empty
  exact (h _ .empty).never s hreach hstage hnone

end Sandcat
