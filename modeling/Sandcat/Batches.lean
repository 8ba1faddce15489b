import Mathlib.Data.List.Basic
import Mathlib.Logic.Relation
import Mathlib.Algebra.Ring.Nat
import Sandcat.Migration

/-!
# The batches of a migration

The loop of `migrate` fills a batch from the cursor and hands it to a task as soon as it is full; what
is left at the end is one more batch. A task holds a permit of the semaphore until it ends, and sends
the size of its batch to the reporter before that. Tasks end in any order, and one whose save panics
sends nothing. The batches are the same for documents of any kind; the cursor does not fail.
-/

namespace Sandcat

namespace Migrator

/-- The save of a document panics, in some store. -/
def Panics (cfg : Config) (doc : Document) : Prop :=
  ∃ (reaches : Bool) (w : World), w.mongo.Sound ∧ ((processDoc cfg reaches doc).exec w).1 ≠ .ok ()

/-- The remainder by zero shards is the one panic. -/
theorem panics_iff {cfg : Config} {doc : Document} : Panics cfg doc ↔ cfg.box = .sharded 0 := by
  constructor
  · rintro ⟨reaches, w, hsound, hpanics⟩
    by_contra hzero
    have hquiet : ((saveMessage cfg reaches (Msg.tryFrom doc)).exec w).1 ≠ .error .panic := by
      cases hbox : cfg.box with
      | plain =>
        simp only [saveMessage, MsgRecBox.saveMessage, hbox]
        cases reaches with
        | true => exact insertOne_quiet _ _
        | false => exact fun h => by cases h
      | sharded n =>
        have hn : n ≠ 0 := by
          rintro rfl
          exact hzero hbox
        exact saveMessage_quiet hbox hn hsound reaches _
    rw [exec_processDoc hquiet] at hpanics
    exact hpanics rfl
  · intro hbox
    refine ⟨true, World.empty, Mongo.Sound.empty, ?_⟩
    unfold processDoc saveMessage MsgRecBox.saveMessage
    rw [hbox]
    exact fun h => by cases h

end Migrator

variable {δ : Type}

structure MessageMigrator where
  batchSize : Nat
  concurrency : Nat
  deriving DecidableEq

inductive TaskState where
  | running | done | panicked
  deriving DecidableEq, Repr

/-- A task of `migrate` with its batch. -/
structure BatchTask (δ : Type) where
  batch : List δ
  state : TaskState

/-- `migrate` under way: what the cursor still has, the buffer, the tasks in the order of their
creation and the counts sent. -/
structure MigrateRun (δ : Type) where
  source : List δ
  batch : List δ
  tasks : List (BatchTask δ)
  sent : List Nat

namespace MigrateRun

/-- The batches handed to `process_batch`. -/
def batches (s : MigrateRun δ) : List (List δ) := s.tasks.map BatchTask.batch

/-- The permits taken. -/
def running (s : MigrateRun δ) : Nat := s.tasks.countP (·.state = .running)

/-- `tokio::spawn` with the buffer, which is replaced by an empty one. -/
def spawn (s : MigrateRun δ) : MigrateRun δ :=
  { s with batch := [], tasks := s.tasks ++ [⟨s.batch, .running⟩] }

end MigrateRun

namespace MessageMigrator

/-- `Semaphore::MAX_PERMITS`. -/
def maxPermits : Nat := (2 ^ 64 - 1) / 8

/-- The start of `migrate`, for documents of a size: the semaphore takes so many permits, `find` accepts
`batch_size as u32`, which the driver sends as an `i32`, and `Vec::with_capacity` accepts the batch size.
Otherwise it fails or panics. -/
def start (docSize : Nat) (m : MessageMigrator) (source : List δ) : Option (MigrateRun δ) :=
  if m.concurrency ≤ maxPermits ∧ m.batchSize % 2 ^ 32 ≤ 2 ^ 31 - 1 ∧ m.batchSize * docSize ≤ 2 ^ 63 - 1 then
    some ⟨source, [], [], []⟩
  else none

/-- `batch.len() >= self.batch_size`, after a document. -/
def Full (m : MessageMigrator) (s : MigrateRun δ) : Prop := s.batch ≠ [] ∧ m.batchSize ≤ s.batch.length

/-- The steps of the loop, of the tail and of the tasks, where the saves of some documents panic. -/
inductive Step (m : MessageMigrator) (panics : δ → Prop) : MigrateRun δ → MigrateRun δ → Prop where
  | next {s : MigrateRun δ} {doc : δ} {rest : List δ} : ¬m.Full s → s.source = doc :: rest →
      Step m panics s { s with source := rest, batch := s.batch ++ [doc] }
  | full {s : MigrateRun δ} : m.Full s → s.running < m.concurrency → Step m panics s s.spawn
  | remaining {s : MigrateRun δ} : ¬m.Full s → s.source = [] → s.batch ≠ [] →
      s.running < m.concurrency → Step m panics s s.spawn
  | done {s : MigrateRun δ} {xs ys : List (BatchTask δ)} {batch : List δ} :
      s.tasks = xs ++ ⟨batch, .running⟩ :: ys → (∀ doc ∈ batch, ¬panics doc) →
      Step m panics s { s with tasks := xs ++ ⟨batch, .done⟩ :: ys, sent := s.sent ++ [batch.length] }
  | panicked {s : MigrateRun δ} {xs ys : List (BatchTask δ)} {batch : List δ} :
      s.tasks = xs ++ ⟨batch, .running⟩ :: ys → (∃ doc ∈ batch, panics doc) →
      Step m panics s { s with tasks := xs ++ ⟨batch, .panicked⟩ :: ys }

abbrev Reaches (m : MessageMigrator) (panics : δ → Prop) : MigrateRun δ → MigrateRun δ → Prop :=
  Relation.ReflTransGen (m.Step panics)

/-- The batches of a migration that is over. -/
structure Partitioned (m : MessageMigrator) (panics : δ → Prop) (source : List δ) (s : MigrateRun δ) :
    Prop where
  flatten : s.batches.flatten = source
  ne_nil : ∀ batch ∈ s.batches, batch ≠ []
  le : ∀ batch ∈ s.batches, batch.length ≤ max 1 m.batchSize
  full : ∀ batch ∈ s.batches.dropLast, batch.length = max 1 m.batchSize
  sent : (∀ doc ∈ source, ¬panics doc) → s.sent.sum = source.length

/-- The migration starts, comes to its end whatever its tasks do, and has partitioned the source
then. -/
def Migrates (docSize : Nat) (m : MessageMigrator) (panics : δ → Prop) (source : List δ) : Prop :=
  ∃ s₀, m.start docSize source = some s₀ ∧ Acc (fun t s => m.Step panics s t) s₀ ∧
    ∀ s, m.Reaches panics s₀ s → (∃ t, m.Step panics s t) ∨ m.Partitioned panics source s

end MessageMigrator

/-- What a task has counted. -/
def BatchTask.counted (task : BatchTask δ) : Nat := if task.state = .done then task.batch.length else 0

namespace MessageMigrator

variable {m : MessageMigrator} {panics : δ → Prop} {source : List δ} {s t : MigrateRun δ}

/-- What is left to do. -/
def left (s : MigrateRun δ) : Nat := 3 * s.source.length + 2 * s.batch.length + s.running

theorem left_spawn (h : s.batch ≠ []) : left s.spawn < left s := by
  have hpos := List.length_pos_of_ne_nil h
  simp [left, MigrateRun.spawn, MigrateRun.running, List.countP_append]
  omega

theorem step_left (h : m.Step panics s t) : left t < left s := by
  cases h with
  | next hfull hsource =>
    simp only [left, hsource, List.length_append, List.length_cons, List.length_nil,
      MigrateRun.running]
    omega
  | full hfull hpermit => exact left_spawn hfull.1
  | remaining hfull hsource hbatch hpermit => exact left_spawn hbatch
  | done htasks _ | panicked htasks _ => simp [left, MigrateRun.running, htasks, List.countP_append]

/-- What holds in the course of a migration: all batches so far are full, or the last one was the
rest and there is nothing more. -/
structure Underway (m : MessageMigrator) (panics : δ → Prop) (source : List δ) (s : MigrateRun δ) : Prop where
  flatten : s.batches.flatten ++ s.batch ++ s.source = source
  le : s.batch.length ≤ max 1 m.batchSize
  sizes : (∀ batch ∈ s.batches, batch.length = max 1 m.batchSize) ∨
    s.source = [] ∧ s.batch = [] ∧ ∃ before last, s.batches = before ++ [last] ∧
      (∀ batch ∈ before, batch.length = max 1 m.batchSize) ∧ last ≠ [] ∧
      last.length ≤ max 1 m.batchSize
  sent : s.sent.sum = (s.tasks.map BatchTask.counted).sum
  panicked : ∀ task ∈ s.tasks, task.state = .panicked → ∃ doc ∈ task.batch, panics doc

theorem Underway.length_of_full (h : m.Underway panics source s) (hfull : m.Full s) :
    s.batch.length = max 1 m.batchSize := by
  have hpos := List.length_pos_of_ne_nil hfull.1
  have hle := h.le
  have hfull := hfull.2
  omega

theorem Underway.spawn (h : m.Underway panics source s) (hbatch : s.batch ≠ [])
    (hsize : s.batch.length = max 1 m.batchSize ∨ s.source = []) : m.Underway panics source s.spawn := by
  obtain ⟨hflatten, hle, hsizes, hsent, hpanicked⟩ := h
  have hall : ∀ batch ∈ s.batches, batch.length = max 1 m.batchSize := by
    obtain hall | ⟨-, hnil, -⟩ := hsizes
    · exact hall
    · exact absurd hnil hbatch
  have hbatches : s.spawn.batches = s.batches ++ [s.batch] := by
    simp [MigrateRun.batches, MigrateRun.spawn]
  refine ⟨?_, Nat.zero_le _, ?_, ?_, ?_⟩
  · rw [hbatches]
    simpa [MigrateRun.spawn] using hflatten
  · obtain hsize | hsource := hsize
    · left
      rw [hbatches]
      simpa [or_imp, forall_and] using ⟨hall, hsize⟩
    · exact .inr ⟨hsource, rfl, s.batches, s.batch, hbatches, hall, hbatch, hle⟩
  · simpa [MigrateRun.spawn, BatchTask.counted] using hsent
  · intro task htask hstate
    rw [MigrateRun.spawn, List.mem_append, List.mem_singleton] at htask
    obtain htask | rfl := htask
    · exact hpanicked task htask hstate
    · cases hstate

/-- The end of a task keeps the batches. -/
theorem Underway.of_batches (h : m.Underway panics source s) (hbatches : t.batches = s.batches)
    (hsource : t.source = s.source) (hbatch : t.batch = s.batch)
    (hsent : t.sent.sum = (t.tasks.map BatchTask.counted).sum)
    (hpanicked : ∀ task ∈ t.tasks, task.state = .panicked → ∃ doc ∈ task.batch, panics doc) :
    m.Underway panics source t := by
  obtain ⟨hflatten, hle, hsizes, -, -⟩ := h
  refine ⟨?_, ?_, ?_, hsent, hpanicked⟩
  · rw [hbatches, hsource, hbatch]
    exact hflatten
  · rw [hbatch]
    exact hle
  · rw [hbatches, hsource, hbatch]
    exact hsizes

theorem Underway.step (h : m.Underway panics source s) (hstep : m.Step panics s t) : m.Underway panics source t := by
  cases hstep with
  | next hfull hsource =>
    rename_i doc rest
    obtain ⟨hflatten, hle, hsizes, hsent, hpanicked⟩ := h
    refine ⟨?_, ?_, ?_, hsent, hpanicked⟩
    · rw [← hflatten, hsource]
      simp [MigrateRun.batches]
    · by_cases hbatch : s.batch = []
      · rw [hbatch]
        exact Nat.le_max_left 1 m.batchSize
      · have hlt : s.batch.length < m.batchSize := by
          by_contra hge
          exact hfull ⟨hbatch, Nat.le_of_not_lt hge⟩
        rw [List.length_append, List.length_singleton]
        omega
    · obtain hall | ⟨hnil, -⟩ := hsizes
      · exact .inl hall
      · rw [hsource] at hnil
        cases hnil
  | full hfull hpermit => exact h.spawn hfull.1 (.inl (h.length_of_full hfull))
  | remaining hfull hsource hbatch hpermit => exact h.spawn hbatch (.inr hsource)
  | done htasks hquiet =>
    obtain ⟨hsent, hpanicked⟩ := And.intro h.sent h.panicked
    rw [htasks] at hsent hpanicked
    refine h.of_batches (by simp [MigrateRun.batches, htasks]) rfl rfl ?_ ?_
    · simp only [List.map_append, List.map_cons, List.sum_append, List.sum_cons, List.sum_nil,
        BatchTask.counted, reduceCtorEq, if_true, if_false] at hsent ⊢
      omega
    · intro task htask hstate
      obtain hmem | rfl | hmem := by simpa using htask
      · exact hpanicked task (by simp [hmem]) hstate
      · cases hstate
      · exact hpanicked task (by simp [hmem]) hstate
  | panicked htasks hpanics =>
    obtain ⟨hsent, hpanicked⟩ := And.intro h.sent h.panicked
    rw [htasks] at hsent hpanicked
    refine h.of_batches (by simp [MigrateRun.batches, htasks]) rfl rfl ?_ ?_
    · simpa [BatchTask.counted] using hsent
    · intro task htask hstate
      obtain hmem | rfl | hmem := by simpa using htask
      · exact hpanicked task (by simp [hmem]) hstate
      · exact hpanics
      · exact hpanicked task (by simp [hmem]) hstate

theorem Reaches.underway {docSize : Nat} {s₀ : MigrateRun δ} (hstart : m.start docSize source = some s₀)
    (h : m.Reaches panics s₀ s) : m.Underway panics source s := by
  induction h with
  | refl =>
    unfold start at hstart
    split at hstart
    · cases hstart
      exact ⟨rfl, Nat.zero_le _, .inl (fun batch h => by cases h), rfl, fun task h => by cases h⟩
    · cases hstart
  | tail _ hstep ih => exact ih.step hstep

/-- A migration that has something left can go on: a permit is free, or a task is running. -/
theorem exists_step (hconcurrency : 1 ≤ m.concurrency)
    (h : s.source ≠ [] ∨ s.batch ≠ [] ∨ ∃ task ∈ s.tasks, task.state = .running) :
    ∃ t, m.Step panics s t := by
  by_cases hrunning : ∃ task ∈ s.tasks, task.state = .running
  · obtain ⟨⟨batch, state⟩, htask, rfl⟩ := hrunning
    obtain ⟨xs, ys, htasks⟩ := List.append_of_mem htask
    by_cases hpanics : ∃ doc ∈ batch, panics doc
    · exact ⟨_, .panicked htasks hpanics⟩
    · exact ⟨_, .done htasks fun doc hdoc hdocPanics => hpanics ⟨doc, hdoc, hdocPanics⟩⟩
  · have hpermit : s.running < m.concurrency := by
      have hnone : s.running = 0 := by
        rw [MigrateRun.running, List.countP_eq_zero]
        intro task htask
        simpa using fun hstate => hrunning ⟨task, htask, hstate⟩
      omega
    by_cases hfull : m.Full s
    · exact ⟨_, .full hfull hpermit⟩
    · cases hsource : s.source with
      | nil =>
        have hbatch : s.batch ≠ [] := by
          obtain h | h | h := h
          · exact absurd hsource h
          · exact h
          · exact absurd h hrunning
        exact ⟨_, .remaining hfull hsource hbatch hpermit⟩
      | cons doc rest => exact ⟨_, .next hfull hsource⟩

theorem Underway.batch_size (h : m.Underway panics source s) :
    ∀ batch ∈ s.batches, batch ≠ [] ∧ batch.length ≤ max 1 m.batchSize := by
  have hfull : ∀ batch : List δ, batch.length = max 1 m.batchSize →
      batch ≠ [] ∧ batch.length ≤ max 1 m.batchSize := by
    intro batch hlength
    refine ⟨?_, Nat.le_of_eq hlength⟩
    rintro rfl
    rw [List.length_nil] at hlength
    omega
  intro batch hmem
  obtain hall | ⟨-, -, before, last, hbatches, hbefore, hne, hlast⟩ := h.sizes
  · exact hfull batch (hall batch hmem)
  · rw [hbatches, List.mem_append, List.mem_singleton] at hmem
    obtain hmem | rfl := hmem
    · exact hfull batch (hbefore batch hmem)
    · exact ⟨hne, hlast⟩

theorem Underway.full (h : m.Underway panics source s) :
    ∀ batch ∈ s.batches.dropLast, batch.length = max 1 m.batchSize := by
  intro batch hmem
  obtain hall | ⟨-, -, before, last, hbatches, hbefore, -⟩ := h.sizes
  · exact hall batch (List.dropLast_subset _ hmem)
  · rw [hbatches, List.dropLast_concat] at hmem
    exact hbefore batch hmem

/-- When all tasks have ended without a panic, they have counted their batches. -/
theorem counted_eq (hdone : ∀ task ∈ s.tasks, task.state = .done) :
    s.tasks.map BatchTask.counted = s.batches.map List.length := by
  rw [MigrateRun.batches, List.map_map]
  apply List.map_congr_left
  intro task htask
  simp [BatchTask.counted, hdone task htask]

/-- Once nothing is left the source is partitioned. -/
theorem Underway.partitioned (h : m.Underway panics source s) (hsource : s.source = [])
    (hbatch : s.batch = []) (hrunning : ∀ task ∈ s.tasks, task.state ≠ .running) :
    m.Partitioned panics source s := by
  have hflatten : s.batches.flatten = source := by
    simpa [hsource, hbatch] using h.flatten
  refine ⟨hflatten, fun batch hmem => (h.batch_size batch hmem).1,
    fun batch hmem => (h.batch_size batch hmem).2, h.full, ?_⟩
  intro hquiet
  have hdone : ∀ task ∈ s.tasks, task.state = .done := by
    intro task htask
    cases hstate : task.state with
    | running => exact absurd hstate (hrunning task htask)
    | done => rfl
    | panicked =>
      obtain ⟨doc, hdoc, hpanics⟩ := h.panicked task htask hstate
      have hmem : doc ∈ source := by
        rw [← hflatten]
        exact List.mem_flatten.mpr ⟨task.batch, List.mem_map.mpr ⟨task, htask, rfl⟩, hdoc⟩
      exact absurd hpanics (hquiet doc hmem)
  rw [h.sent, counted_eq hdone, ← List.length_flatten, hflatten]

end MessageMigrator

/-- With a batch size and a concurrency that the start accepts, and at least one permit, the batches
partition the source, whatever order the tasks end in. Where no save panics the counts add up. -/
theorem batches_partition (cfg : Config) (docSize : Nat) (m : MessageMigrator) (source : List Document)
    (hfind : m.batchSize % 2 ^ 32 ≤ 2 ^ 31 - 1) (hcapacity : m.batchSize * docSize ≤ 2 ^ 63 - 1)
    (hone : 1 ≤ m.concurrency) (hpermits : m.concurrency ≤ MessageMigrator.maxPermits) :
    m.Migrates docSize (Migrator.Panics cfg) source := by
  have hstart : m.start docSize source = some ⟨source, [], [], []⟩ := if_pos ⟨hpermits, hfind, hcapacity⟩
  have hwf : WellFounded fun t s : MigrateRun Document => m.Step (Migrator.Panics cfg) s t :=
    Subrelation.wf (fun h => MessageMigrator.step_left h) (measure MessageMigrator.left).wf
  refine ⟨_, hstart, hwf.apply _, ?_⟩
  intro s hreach
  have hunderway := hreach.underway hstart
  by_cases hleft : s.source ≠ [] ∨ s.batch ≠ [] ∨ ∃ task ∈ s.tasks, task.state = .running
  · exact .inl (MessageMigrator.exists_step hone hleft)
  · simp only [not_or, not_not, not_exists, not_and] at hleft
    exact .inr (hunderway.partitioned hleft.1 hleft.2.1 hleft.2.2)

/-- A hundred documents at a time, ten tasks at once, into a box of one shard. -/
theorem batches_partition_default : MessageMigrator.Migrates 88 ⟨100, 10⟩ (Migrator.Panics .oneShard)
    [toDoc { serverId := "m1" }, toDoc { serverId := "m2" }] :=
  batches_partition .oneShard 88 ⟨100, 10⟩ _ (by decide) (by decide) (by decide) (by decide)

/-- Another batch size or concurrency does not start. -/
theorem MessageMigrator.not_migrates {m : MessageMigrator} {docSize : Nat} {panics : δ → Prop}
    {source : List δ} (h : ¬(m.concurrency ≤ maxPermits ∧ m.batchSize % 2 ^ 32 ≤ 2 ^ 31 - 1 ∧
      m.batchSize * docSize ≤ 2 ^ 63 - 1)) : ¬m.Migrates docSize panics source := by
  rintro ⟨s₀, hstart, -⟩
  rw [start, if_neg h] at hstart
  cases hstart

def letterDoc : Document := toDoc { senderId := "a", receiverId := "b", serverId := "m1" }

/-- A box that the configuration gives no shards. -/
def Config.noShards : Config := { Config.oneShard with box := (MongoConfig.mk (some true) (some 0)).target }

/-- The driver refuses a batch size of `2 ^ 31`, `Vec::with_capacity` one of `2 ^ 63` and the semaphore the
largest concurrency. Into a box without shards the one document is handed on and not counted. -/
theorem largest_not_migrates :
    (∀ docSize, 0 < docSize →
      ¬MessageMigrator.Migrates docSize ⟨2 ^ 31, 1⟩ (Migrator.Panics .oneShard) [letterDoc] ∧
      ¬MessageMigrator.Migrates docSize ⟨2 ^ 63, 1⟩ (Migrator.Panics .oneShard) [letterDoc] ∧
      ¬MessageMigrator.Migrates docSize ⟨1, 2 ^ 64 - 1⟩ (Migrator.Panics .oneShard) [letterDoc]) ∧
    ∃ s₀ s, MessageMigrator.start 88 ⟨1, 1⟩ [letterDoc] = some s₀ ∧
      MessageMigrator.Reaches ⟨1, 1⟩ (Migrator.Panics .noShards) s₀ s ∧
      (¬∃ t, MessageMigrator.Step ⟨1, 1⟩ (Migrator.Panics .noShards) s t) ∧
      s.batches = [[letterDoc]] ∧ s.sent.sum = 0 := by
  refine ⟨?_, ?_⟩
  · intro docSize hpos
    refine ⟨MessageMigrator.not_migrates ?_, MessageMigrator.not_migrates ?_, MessageMigrator.not_migrates ?_⟩
    · rintro ⟨-, hfind, -⟩
      revert hfind
      decide
    · rintro ⟨-, -, hcapacity⟩
      have hmul := Nat.mul_le_mul_left (2 ^ 63) (show 1 ≤ docSize from hpos)
      simp only [Nat.mul_one] at hmul hcapacity
      omega
    · rintro ⟨hpermits, -⟩
      revert hpermits
      decide
  · refine ⟨⟨[letterDoc], [], [], []⟩, ⟨[], [], [⟨[letterDoc], .panicked⟩], []⟩, rfl, ?_, ?_, rfl, rfl⟩
    · have hpanics : ∃ doc ∈ [letterDoc], Migrator.Panics .noShards doc :=
        ⟨letterDoc, List.mem_singleton_self _, Migrator.panics_iff.mpr rfl⟩
      refine .tail (.tail (.tail .refl (.next ?_ rfl)) (.full ?_ ?_))
        (@MessageMigrator.Step.panicked _ _ _ _ [] [] _ rfl hpanics)
      · exact fun hfull => hfull.1 rfl
      · exact ⟨List.cons_ne_nil _ _, Nat.le_refl _⟩
      · exact Nat.one_pos
    · rintro ⟨t, hstep⟩
      have hleft := MessageMigrator.step_left hstep
      exact Nat.not_lt_zero _ hleft

end Sandcat
