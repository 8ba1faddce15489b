import Sandcat.Lookup
import Sandcat.Lib.Waiting

/-!
# The cleaner and its lock

An iteration of the cleaner reads the tracked collections under a guard that lives until the
iteration ends, and asks for the write lock if one of them is outdated. Other tasks take and give
back the lock in any order meanwhile, and change the tracked collections when they hold it to write.
-/

namespace Sandcat

open Remote Waiting RwLock HybridShardedMsgBox

/-- Where the cleaner is in an iteration: it holds its read guard, it has asked for the write lock,
or the iteration has ended. -/
inductive CleanStage where
  | holding
  | writing (toRemove : List String)
  | ended

/-- The lock on the tracked collections, with `none` for the cleaner. -/
structure CleanRun (ι : Type) where
  lock : RwLock (Option ι)
  world : World
  stage : CleanStage

namespace CleanRun

variable {ι : Type} [DecidableEq ι]

/-- The tracked collections. -/
def active (s : CleanRun ι) : List String := s.world.mongo.activeCollections

def withActive (activeCollections : List String) (s : CleanRun ι) : CleanRun ι :=
  { s with world := { s.world with mongo := { s.world.mongo with activeCollections } } }

/-- The end of an iteration drops the read guard. -/
def finish (s : CleanRun ι) : CleanRun ι := { s with lock := s.lock.releaseRead none, stage := .ended }

/-- A step of the cleaner: the pass up to the write lock, or the removal under it; `none` if it
waits or has ended. -/
def proceed (period : Int) (types : List Int) (s : CleanRun ι) : Option (CleanRun ι) :=
  match s.stage with
  | .holding =>
    match (cleanReceiveBox period types).exec s.world with
    | (.error _, world) => some { s with world }.finish
    | (.ok toRemove, world) =>
      if toRemove = [] then some { s with world }.finish
      else some { s with world, lock := s.lock.acquire none .write, stage := .writing toRemove }
  | .writing toRemove =>
    if s.lock.writer = some none then
      let s := s.withActive (s.active.filter (· ∉ toRemove))
      some { s with lock := s.lock.releaseWrite none }.finish
    else none
  | .ended => none

/-- The cleaner has asked for the write lock and does not have it. -/
def Waits (s : CleanRun ι) : Prop := ∃ toRemove, s.stage = .writing toRemove ∧ s.lock.writer ≠ some none

/-- A step of the cleaner or of another task. -/
inductive Step (period : Int) (types : List Int) (s : CleanRun ι) : CleanRun ι → Prop where
  | cleaner {t : CleanRun ι} (h : s.proceed period types = some t) : Step period types s t
  | lock (op : LockOp (Option ι)) (hop : op.task ≠ none) :
      Step period types s { s with lock := s.lock.act op }
  | edit {i : ι} (h : s.lock.writer = some (some i)) (active : List String) :
      Step period types s (s.withActive active)

abbrev Runs (period : Int) (types : List Int) : CleanRun ι → CleanRun ι → Prop :=
  Relation.ReflTransGen (Step period types)

/-- The read guard of an iteration has been granted. -/
structure Started (s : CleanRun ι) : Prop where
  stage : s.stage = .holding
  lock : Holds none 1 s.lock

/-- Whether the threshold of an iteration leaves a collection tracked. -/
def Kept (period : Int) (s : CleanRun ι) (coll : String) : Bool :=
  outdated (outdatedThreshold (s.world.now / 1000) period) coll ≠ some true

/-- The cleaner never waits for itself and can always end its iteration, the iteration leaves the
collections that are not outdated, and afterwards the cleaner has no part in the lock, which every
other task can get to read. -/
structure RunsThrough (period : Int) (types : List Int) (s : CleanRun ι) : Prop where
  free : ∀ t, Runs period types s t → ¬ (t.Waits ∧ none ∈ t.lock.readers)
  ends : ∀ t, Runs period types s t → ∃ u, Runs period types t u ∧ u.stage = .ended
  left : ∀ t u, Runs period types s t → t.proceed period types = some u → u.stage = .ended →
    u.active = s.active.filter (s.Kept period)
  released : ∀ t, Runs period types s t → t.stage = .ended → Holds none 0 t.lock
  lockable : ∀ t, Runs period types s t → t.stage = .ended → ∀ i : ι,
    ∃ u, Runs period types t u ∧ u.stage = .ended ∧ some i ∈ u.lock.readers

variable {period : Int} {types : List Int} {s t : CleanRun ι}

theorem runs_lock (ops : List (LockOp (Option ι))) (hops : ∀ op ∈ ops, op.task ≠ none) :
    Runs period types s { s with lock := ops.foldl act s.lock } := by
  induction ops generalizing s with
  | nil => exact .refl
  | cons op ops ih =>
    rw [List.forall_mem_cons] at hops
    exact .head (.lock op hops.1) (ih hops.2)

/-- What the cleaner does after its pass: the iteration ends, or there is something to remove. -/
theorem proceed_holding (period : Int) (types : List Int) (hstage : s.stage = .holding) :
    ∃ v : World, v.mongo.activeCollections = s.active ∧
      (s.proceed period types = some { s with world := v }.finish ∨
      ∃ coll ∈ s.active, s.Kept period coll = false ∧ ∃ toRemove, s.proceed period types =
        some { s with world := v, lock := s.lock.acquire none .write, stage := .writing toRemove }) := by
  have hframe := Prog.frame_after (frame_cleanReceiveBox period types) s.world
  rw [Prog.after] at hframe
  simp only [proceed, hstage]
  rcases hexec : (cleanReceiveBox period types).exec s.world with ⟨r, v⟩
  rw [hexec] at hframe
  have hactive := congrArg Mongo.activeCollections hframe
  refine ⟨v, hactive, ?_⟩
  cases r with
  | error e => exact .inl rfl
  | ok toRemove =>
    dsimp only
    split
    · exact .inl rfl
    · rename_i hne
      obtain ⟨coll, hcoll⟩ := List.exists_mem_of_ne_nil _ hne
      rw [cleanReceiveBox_ok hexec, List.mem_filter, decide_eq_true_eq] at hcoll
      exact .inr ⟨coll, hcoll.1, by simp [Kept, hcoll.2], toRemove, rfl⟩

/-- With nothing to remove the iteration ends. -/
theorem proceed_of_kept (types : List Int) (hkept : ∀ coll ∈ s.active, s.Kept period coll = true)
    (hworld : t.world = s.world) (hstage : t.stage = .holding) :
    ∃ v : World, v.mongo.activeCollections = s.active ∧
      t.proceed period types = some { t with world := v }.finish := by
  obtain ⟨v, hv, hfinish | ⟨coll, hcoll, hnot, -⟩⟩ := proceed_holding period types hstage
  · exact ⟨v, by rw [hv, active, hworld]; rfl, hfinish⟩
  · rw [active, hworld] at hcoll
    rw [Kept, hworld] at hnot
    have htrue := hkept coll hcoll
    rw [Kept, hnot] at htrue
    cases htrue

/-- Before its end such an iteration is as it was at its start, and after its end the cleaner has
no part in the lock. -/
def Undisturbed (s t : CleanRun ι) : Prop :=
  t.stage = .holding ∧ Holds none 1 t.lock ∧ t.world = s.world ∨ t.stage = .ended ∧ Holds none 0 t.lock

theorem undisturbed_runs (h : s.Started) (hkept : ∀ coll ∈ s.active, s.Kept period coll = true)
    (hruns : Runs period types s t) : s.Undisturbed t := by
  induction hruns with
  | refl => exact .inl ⟨h.stage, h.lock, rfl⟩
  | tail _ hstep ih =>
    rename_i t u _
    obtain ⟨hstage, hlock, hworld⟩ | ⟨hstage, hlock⟩ := ih
    · cases hstep with
      | cleaner hproceed =>
        obtain ⟨v, -, hfinish⟩ := proceed_of_kept types hkept hworld hstage
        rw [hproceed] at hfinish
        cases hfinish
        exact .inr ⟨rfl, holds_releaseRead hlock⟩
      | lock op hop => exact .inl ⟨hstage, holds_act hlock op hop, hworld⟩
      | edit hwriter active =>
        have hreads := hlock.reads
        rw [t.lock.exclusive (by rw [hwriter]; rfl)] at hreads
        cases hreads
    · refine .inr ?_
      cases hstep with
      | cleaner hproceed =>
        simp only [proceed, hstage] at hproceed
        cases hproceed
      | lock op hop => exact ⟨hstage, holds_act hlock op hop⟩
      | edit hwriter active => exact ⟨hstage, hlock⟩

theorem runsThrough_of_kept (h : s.Started) (hkept : ∀ coll ∈ s.active, s.Kept period coll = true) :
    s.RunsThrough period types := by
  have hreleased : ∀ t, Runs period types s t → t.stage = .ended → Holds none 0 t.lock := by
    intro t hruns hended
    obtain ⟨hstage, -⟩ | ⟨-, hlock⟩ := undisturbed_runs h hkept hruns
    · rw [hended] at hstage
      cases hstage
    · exact hlock
  refine ⟨?_, ?_, ?_, hreleased, ?_⟩
  · rintro t hruns ⟨⟨toRemove, hwriting, -⟩, -⟩
    obtain ⟨hstage, -⟩ | ⟨hstage, -⟩ := undisturbed_runs h hkept hruns
    · rw [hwriting] at hstage
      cases hstage
    · rw [hwriting] at hstage
      cases hstage
  · intro t hruns
    obtain ⟨hstage, -, hworld⟩ | ⟨hstage, -⟩ := undisturbed_runs h hkept hruns
    · obtain ⟨v, -, hfinish⟩ := proceed_of_kept types hkept hworld hstage
      exact ⟨_, .single (.cleaner hfinish), rfl⟩
    · exact ⟨t, .refl, hstage⟩
  · intro t u hruns hproceed hended
    obtain ⟨hstage, -, hworld⟩ | ⟨hstage, -⟩ := undisturbed_runs h hkept hruns
    · obtain ⟨v, hv, hfinish⟩ := proceed_of_kept types hkept hworld hstage
      rw [hproceed] at hfinish
      cases hfinish
      rw [List.filter_eq_self.mpr hkept]
      exact hv
    · simp only [proceed, hstage] at hproceed
      cases hproceed
  · intro t hruns hended i
    obtain ⟨ops, hops, hmem⟩ := exists_grant (hreleased t hruns hended) (Option.some_ne_none i)
    exact ⟨_, runs_lock ops hops, hended, hmem⟩

/-- Something to remove is not removed. -/
theorem not_runsThrough (h : s.Started) {coll : String} (hcoll : coll ∈ s.active)
    (hnot : s.Kept period coll = false) : ¬ s.RunsThrough period types := by
  intro hthrough
  obtain ⟨v, hv, hfinish | ⟨-, -, -, toRemove, hask⟩⟩ :=
    proceed_holding period types h.stage
  · have hleft := hthrough.left s _ .refl hfinish rfl
    have hsame : s.active = s.active.filter (s.Kept period) := hv.symm.trans hleft
    rw [hsame, List.mem_filter, hnot] at hcoll
    exact absurd hcoll.2 (by decide)
  · have hblocks := blocks_acquire h.lock
    refine hthrough.free _ (.single (.cleaner hask)) ⟨⟨toRemove, rfl, fun hwriter => ?_⟩, hblocks.reads⟩
    rw [hblocks.writer_eq_none] at hwriter
    cases hwriter

/-- The cleaner waits for itself. -/
structure Stuck (behind : List (Option ι × Mode)) (s : CleanRun ι) : Prop where
  stage : ∃ toRemove, s.stage = .writing toRemove
  lock : Blocks none behind s.lock

/-- It does so for ever, and nobody gets the lock who asks for it behind. -/
theorem stuck_runs {behind : List (Option ι × Mode)} (h : s.Stuck behind)
    (hruns : Runs period types s t) : ∃ more, t.Stuck (behind ++ more) := by
  induction hruns with
  | refl => exact ⟨[], by rwa [List.append_nil]⟩
  | tail _ hstep ih =>
    obtain ⟨more, ⟨toRemove, hstage⟩, hlock⟩ := ih
    have hwriter := hlock.writer_eq_none
    cases hstep with
    | cleaner hproceed =>
      simp only [proceed, hstage, hwriter] at hproceed
      cases hproceed
    | lock op hop =>
      obtain ⟨new, hnew, -⟩ := blocks_act hlock op hop
      exact ⟨more ++ new, ⟨toRemove, hstage⟩, by rwa [← List.append_assoc]⟩
    | edit hedit active =>
      rw [hwriter] at hedit
      cases hedit

/-- The flag of a box says whether the iteration gets there. -/
theorem waiting_iff (hstage : s.stage = .holding) (scheduled : Bool) :
    (Instance.clean period types ⟨s.world, scheduled, false⟩).waiting = true ↔
      ∃ t toRemove, s.proceed period types = some t ∧ t.stage = .writing toRemove := by
  simp only [Instance.clean, Instance.afterPass, proceed, hstage]
  rcases (cleanReceiveBox period types).exec s.world with ⟨r, v⟩
  cases r with
  | error e => simp [finish]
  | ok toRemove =>
    by_cases hempty : toRemove = []
    · simp [hempty, finish]
    · simp [hempty]

end CleanRun

/-- An iteration runs through exactly when it finds no outdated collection. -/
theorem cleaner_runs_through_iff {ι : Type} [DecidableEq ι] (period : Int) (types : List Int)
    (s : CleanRun ι) (h : s.Started) :
    s.RunsThrough period types ↔ ∀ coll ∈ s.active, s.Kept period coll = true := by
  constructor
  · intro hthrough coll hcoll
    by_contra hnot
    exact CleanRun.not_runsThrough h hcoll (by simpa using hnot) hthrough
  · exact CleanRun.runsThrough_of_kept h

/-- A box at an instant of June 2025 that tracks one collection, and the cleaner's read guard. -/
def juneRun (coll : String) : CleanRun Unit where
  lock := ⟨[none], none, [], by simp, by simp⟩
  world := { World.empty with
    mongo := { World.empty.mongo with activeCollections := [coll] }
    now := 1750000000000 }
  stage := .holding

theorem started_juneRun (coll : String) : (juneRun coll).Started := by
  refine ⟨rfl, rfl, ?_, ?_⟩
  · intro hwriter
    cases hwriter
  · intro request hrequest
    cases hrequest

theorem cleaner_runs_through_june : (juneRun "msg_box_2025_06_0").RunsThrough 30 [] := by
  rw [cleaner_runs_through_iff 30 [] _ (started_juneRun _)]
  decide +kernel

/-- The collection of January is outdated. -/
theorem cleaner_blocks_itself : ¬ (juneRun "msg_box_2025_01_0").RunsThrough 30 [] :=
  CleanRun.not_runsThrough (started_juneRun _) List.mem_cons_self (by decide +kernel)

end Sandcat
