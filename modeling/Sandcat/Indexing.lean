import Sandcat.Maintenance
import Sandcat.Lib.Interleave

/-!
# The indexes of the collections handed out

`initialize_system`, the ticks of the maintenance and `get_collection` create the same four indexes
and fill the same cache, and they run beside each other call by call. Any creation of an index may
fail; one that finds the index there succeeds. Nobody drops an index.
-/

namespace Sandcat

open Remote

/-- The index models, in the order of their creation. -/
def Index.models : List Index := [.receiverSeq, .sendTime, .senderSendSeq, .serverReceiver]

theorem Index.mem_models (i : Index) : i ∈ Index.models := by cases i <;> decide

/-- What a box has created and remembers, and whether its maintenance is scheduled. -/
structure IndexedBox where
  indexes : List (String × Index)
  collectionCache : List String
  activeCollections : List String
  scheduled : Bool

/-- A task before its next call. The indexes and the collections listed are still to come. -/
inductive IndexTask where
  | indexing (coll : String) (left : List Index) (colls : List String)
  | recording (coll : String) (colls : List String)
  | initialized
  | ticking (colls : List String)
  | adopting (coll : String) (left : List Index) (colls : List String)
  | adopted (coll : String) (colls : List String)
  | getting (coll : String)
  | creating (coll : String) (left : List Index)
  | checking (coll : String)
  | got (coll : String)
  | failed
  | finished
  deriving DecidableEq

namespace IndexTask

/-- The loop of `initialize_system`. -/
def initializing : List String → IndexTask
  | [] => .initialized
  | coll :: colls => .indexing coll Index.models colls

end IndexTask

namespace IndexedBox

/-- All four indexes are there. -/
def Indexed (s : IndexedBox) (coll : String) : Prop := ∀ i, (coll, i) ∈ s.indexes

def createIndex (coll : String) (i : Index) (s : IndexedBox) : IndexedBox :=
  { s with indexes := (coll, i) :: s.indexes }

def cache (coll : String) (s : IndexedBox) : IndexedBox :=
  { s with collectionCache := coll :: s.collectionCache }

def track (coll : String) (s : IndexedBox) : IndexedBox :=
  { s with activeCollections := s.activeCollections.insert coll }

end IndexedBox

namespace IndexTask

/-- One call of a task; `fails` is whether the creation of an index fails. The maintenance goes on
then, and the others return the error. -/
def call (fails : Bool) (s : IndexedBox) : IndexTask → IndexTask × IndexedBox
  | .indexing coll (i :: left) colls =>
    if fails then (.failed, s) else (.indexing coll left colls, s.createIndex coll i)
  | .indexing coll [] colls => (.recording coll colls, s.cache coll)
  | .recording coll colls => (initializing colls, s.track coll)
  | .initialized => (.finished, { s with scheduled := true })
  | .ticking [] => (.finished, s)
  | .ticking (coll :: colls) =>
    (if coll ∈ s.activeCollections then .ticking colls else .adopting coll Index.models colls, s)
  | .adopting coll (i :: left) colls =>
    (.adopting coll left colls, if fails then s else s.createIndex coll i)
  | .adopting coll [] colls => (.adopted coll colls, s.track coll)
  | .adopted coll colls => (.ticking colls, s.cache coll)
  | .getting coll =>
    (if coll ∈ s.collectionCache then .got coll else .creating coll Index.models, s)
  | .creating coll (i :: left) =>
    if fails then (.failed, s) else (.creating coll left, s.createIndex coll i)
  | .creating coll [] => (.checking coll, s.cache coll)
  | .checking coll => (if coll ∈ s.collectionCache then .got coll else .failed, s)
  | .got coll => (.got coll, s)
  | .failed => (.failed, s)
  | .finished => (.finished, s)

end IndexTask

/-- A box with the tasks started so far. -/
structure IndexRun where
  box : IndexedBox
  tasks : List IndexTask

/-- What happens next: a task is started at an instant, or a task makes a call. -/
inductive IndexAct where
  | initializeSystem (now : Int)
  | maintain (now : Int)
  | getCollection (coll : String)
  | call (task : Nat) (fails : Bool)
  deriving DecidableEq

namespace IndexRun

open HybridShardedMsgBox (collectionsOf)

/-- A process over a database that has some indexes. -/
def fresh (indexes : List (String × Index)) : IndexRun := ⟨⟨indexes, [], [], false⟩, []⟩

def start (task : IndexTask) (r : IndexRun) : IndexRun := { r with tasks := r.tasks ++ [task] }

/-- The maintenance ticks once it is scheduled. -/
def act (userShards : Nat) (r : IndexRun) : IndexAct → IndexRun
  | .initializeSystem now => r.start (.initializing (collectionsOf userShards now [-1, 0, 1, 2, 3]))
  | .maintain now =>
    if r.box.scheduled then r.start (.ticking (collectionsOf userShards now [0, 1, 2, 3])) else r
  | .getCollection coll => r.start (.getting coll)
  | .call task fails =>
    match r.tasks[task]? with
    | none => r
    | some t => ⟨(t.call fails r.box).2, r.tasks.set task (t.call fails r.box).1⟩

def run (userShards : Nat) (r : IndexRun) (acts : List IndexAct) : IndexRun :=
  acts.foldl (act userShards) r

/-- A creation that fails in a tick of the maintenance finds the index there. -/
def Harmless (r : IndexRun) (a : IndexAct) : Prop :=
  ∀ task coll i left colls, a = .call task true →
    r.tasks[task]? = some (.adopting coll (i :: left) colls) → (coll, i) ∈ r.box.indexes

/-- Every failure in the maintenance is harmless where it happens. -/
def Meets (userShards : Nat) : IndexRun → List IndexAct → Prop
  | _, [] => True
  | r, a :: acts => r.Harmless a ∧ Meets userShards (r.act userShards a) acts

end IndexRun

/-- What a task relies on: the indexes that are no longer to come are there. -/
def IndexTask.Owes (s : IndexedBox) : IndexTask → Prop
  | .indexing coll left _ | .adopting coll left _ | .creating coll left =>
    ∀ i, i ∉ left → (coll, i) ∈ s.indexes
  | .adopted coll _ | .got coll => s.Indexed coll
  | _ => True

/-- What is cached is indexed. -/
def IndexedBox.Sound (s : IndexedBox) : Prop := ∀ coll ∈ s.collectionCache, s.Indexed coll

namespace IndexTask

variable {s t : IndexedBox} {task : IndexTask} {coll : String} {left : List Index}

theorem Owes.mono (h : task.Owes s) (hsub : s.indexes ⊆ t.indexes) : task.Owes t := by
  cases task with
  | indexing coll left colls | adopting coll left colls | creating coll left =>
    exact fun i hi => hsub (h i hi)
  | adopted coll colls | got coll => exact fun i => hsub (h i)
  | _ => trivial

theorem owes_initializing (colls : List String) : (initializing colls).Owes s := by
  cases colls with
  | nil => trivial
  | cons coll colls => exact fun i hi => absurd i.mem_models hi

/-- One index less is to come. -/
theorem created {i : Index} (h : ∀ j, j ∉ i :: left → (coll, j) ∈ s.indexes) :
    ∀ j, j ∉ left → (coll, j) ∈ (s.createIndex coll i).indexes := by
  intro j hj
  by_cases hji : j = i
  · subst hji
    exact List.mem_cons_self
  · exact List.mem_cons_of_mem _ (h j (by simp [hji, hj]))

theorem sound_cache (h : s.Sound) (hcoll : s.Indexed coll) : (s.cache coll).Sound := by
  intro c hc
  obtain rfl | hc := List.mem_cons.mp hc
  · exact hcoll
  · exact h c hc

theorem sound_createIndex (h : s.Sound) (i : Index) : (s.createIndex coll i).Sound :=
  fun c hc j => List.mem_cons_of_mem _ (h c hc j)

/-- A call keeps the indexes. -/
theorem call_indexes (fails : Bool) (s : IndexedBox) (task : IndexTask) :
    s.indexes ⊆ (task.call fails s).2.indexes := by
  fun_cases task.call fails s
  case case2 | case13 => exact List.subset_cons_self _ _
  case case8 =>
    split
    · exact List.Subset.refl _
    · exact List.subset_cons_self _ _
  all_goals exact List.Subset.refl _

/-- What is cached stays indexed, and the task goes on with what it relies on. -/
theorem call_sound {fails : Bool} (hs : s.Sound) (howes : task.Owes s)
    (hmeets : ∀ coll i left colls, fails = true → task = .adopting coll (i :: left) colls →
      (coll, i) ∈ s.indexes) :
    (task.call fails s).2.Sound ∧ (task.call fails s).1.Owes (task.call fails s).2 := by
  cases task with
  | indexing coll left colls | creating coll left =>
    cases left with
    | nil => exact ⟨sound_cache hs fun i => howes i List.not_mem_nil, trivial⟩
    | cons i left =>
      cases fails with
      | true => exact ⟨hs, trivial⟩
      | false => exact ⟨sound_createIndex hs i, created howes⟩
  | recording coll colls => exact ⟨hs, owes_initializing colls⟩
  | initialized => exact ⟨hs, trivial⟩
  | ticking colls =>
    cases colls with
    | nil => exact ⟨hs, trivial⟩
    | cons coll colls =>
      refine ⟨hs, ?_⟩
      simp only [call]
      split
      · trivial
      · exact fun i hi => absurd i.mem_models hi
  | adopting coll left colls =>
    cases left with
    | nil => exact ⟨hs, fun i => howes i List.not_mem_nil⟩
    | cons i left =>
      cases fails with
      | true =>
        -- the index that could not be created is there all the same
        refine ⟨hs, fun j hj => ?_⟩
        by_cases hji : j = i
        · exact hji ▸ hmeets coll i left colls rfl rfl
        · exact howes j (by simp [hji, hj])
      | false => exact ⟨sound_createIndex hs i, created howes⟩
  | adopted coll colls => exact ⟨sound_cache hs howes, trivial⟩
  | getting coll =>
    refine ⟨hs, ?_⟩
    simp only [call]
    split
    · rename_i hcached
      exact hs coll hcached
    · exact fun i hi => absurd i.mem_models hi
  | checking coll =>
    refine ⟨hs, ?_⟩
    simp only [call]
    split
    · rename_i hcached
      exact hs coll hcached
    · trivial
  | got coll => exact ⟨hs, howes⟩
  | failed | finished => exact ⟨hs, trivial⟩

end IndexTask

namespace IndexRun

variable {userShards : Nat} {r : IndexRun} {a : IndexAct}

/-- The cache holds indexed collections only, and the tasks have what they rely on. -/
structure Inv (r : IndexRun) : Prop where
  sound : r.box.Sound
  owes : ∀ task ∈ r.tasks, task.Owes r.box

theorem inv_fresh (indexes : List (String × Index)) : (fresh indexes).Inv :=
  ⟨fun _ h => absurd h List.not_mem_nil, fun _ h => absurd h List.not_mem_nil⟩

theorem Inv.start {task : IndexTask} (h : r.Inv) (howes : task.Owes r.box) : (r.start task).Inv := by
  refine ⟨h.sound, ?_⟩
  intro t ht
  obtain ht | ht := List.mem_append.mp ht
  · exact h.owes t ht
  · rw [List.mem_singleton.mp ht]
    exact howes

theorem Inv.act (h : r.Inv) (hmeets : r.Harmless a) : (r.act userShards a).Inv := by
  cases a with
  | initializeSystem now => exact h.start (IndexTask.owes_initializing _)
  | maintain now =>
    simp only [IndexRun.act]
    split
    · exact h.start trivial
    · exact h
  | getCollection coll => exact h.start trivial
  | call task fails =>
    simp only [IndexRun.act]
    split
    · exact h
    · rename_i t htask
      have hmem := List.mem_of_getElem? htask
      have hfound : ∀ coll i left colls, fails = true → t = .adopting coll (i :: left) colls →
          (coll, i) ∈ r.box.indexes := by
        intro coll i left colls hfails ht
        exact hmeets task coll i left colls (by rw [hfails]) (by rw [htask, ht])
      obtain ⟨hsound, howes⟩ := IndexTask.call_sound h.sound (h.owes t hmem) hfound
      refine ⟨hsound, ?_⟩
      intro u hu
      obtain hu | rfl := List.mem_or_eq_of_mem_set hu
      · exact (h.owes u hu).mono (IndexTask.call_indexes fails r.box t)
      · exact howes

theorem Meets.inv {acts : List IndexAct} (hmeets : Meets userShards r acts) (h : r.Inv) :
    (r.run userShards acts).Inv := by
  induction acts generalizing r with
  | nil => exact h
  | cons a acts ih => exact ih hmeets.2 (h.act hmeets.1)

theorem meets_append {acts acts' : List IndexAct} : Meets userShards r (acts ++ acts') ↔
    Meets userShards r acts ∧ Meets userShards (r.run userShards acts) acts' := by
  induction acts generalizing r with
  | nil => simp [Meets, run]
  | cons a acts ih =>
    rw [List.cons_append, Meets, Meets, ih, and_assoc]
    rfl

theorem meets_of_no_failure {acts : List IndexAct} (h : ∀ task, .call task true ∉ acts) :
    Meets userShards r acts := by
  induction acts generalizing r with
  | nil => trivial
  | cons a acts ih =>
    refine ⟨?_, ih fun task hmem => h task (List.mem_cons_of_mem _ hmem)⟩
    rintro task coll i left colls rfl _
    exact absurd List.mem_cons_self (h task)

end IndexRun

/-- In every run in which the creations that fail in the maintenance find their index there, a
collection that is handed out carries the four indexes. -/
theorem handed_out_indexed (userShards : Nat) (indexes : List (String × Index))
    (acts : List IndexAct) (hmeets : IndexRun.Meets userShards (.fresh indexes) acts) (coll : String)
    (hgot : .got coll ∈ ((IndexRun.fresh indexes).run userShards acts).tasks) :
    ((IndexRun.fresh indexes).run userShards acts).box.Indexed coll :=
  (hmeets.inv (IndexRun.inv_fresh indexes)).owes _ hgot

/-- Start-up in January with everything created, and a tick in May that has one index left to create
for the new month. -/
def untilTick : List IndexAct := List.flatten [
  .initializeSystem 0 :: List.replicate 31 (.call 0 false),
  .maintain (130 * 86400) :: List.replicate 4 (.call 1 false)]

/-- The last creation of the tick fails, and the collection is asked for. -/
def failingTick : List IndexAct :=
  [.call 1 true, .call 1 false, .call 1 false, .getCollection "msg_box_1970_05_0", .call 2 false]

/-- With the index there from before, the failure does no harm. -/
theorem handed_out_indexed_before :
    ((IndexRun.fresh [("msg_box_1970_05_0", .serverReceiver)]).run 1 (untilTick ++ failingTick)).box.Indexed
      "msg_box_1970_05_0" := by
  apply handed_out_indexed 1 _ (untilTick ++ failingTick) _ "msg_box_1970_05_0"
  · decide +kernel
  · refine IndexRun.meets_append.mpr ⟨IndexRun.meets_of_no_failure (by simp [untilTick]), ?_, ?_⟩
    · rintro task coll i left colls htask hadopting
      cases htask
      have hlast : ((IndexRun.fresh [("msg_box_1970_05_0", .serverReceiver)]).run 1
          untilTick).tasks[1]? = some (.adopting "msg_box_1970_05_0" [.serverReceiver]
            ["msg_box_1970_06_0", "msg_box_1970_07_0", "msg_box_1970_08_0"]) := by
        decide +kernel
      rw [hlast] at hadopting
      cases hadopting
      decide +kernel
    · exact IndexRun.meets_of_no_failure (by simp)

/-- The collection that the tick could not give its unique index is handed out. -/
theorem unindexed_handed_out : ¬∀ userShards indexes acts coll,
    .got coll ∈ ((IndexRun.fresh indexes).run userShards acts).tasks →
      ((IndexRun.fresh indexes).run userShards acts).box.Indexed coll := by
  intro h
  have hindex := h 1 [] (untilTick ++ failingTick) "msg_box_1970_05_0" (by decide +kernel)
    .serverReceiver
  exact absurd hindex (by decide +kernel)

section Programs

open HybridShardedMsgBox

/-- The program that a task has before it. -/
def IndexTask.program : IndexTask → M Unit
  | .indexing coll left colls => do
    (do
      (do
        Prog.each (fun i => mongoCall (Mongo.createIndex coll i)) left
        mongoCall fun m => .ok ((), { m with collectionCache := coll :: m.collectionCache }))
      mongoCall fun m => .ok ((), m.track coll))
    Prog.each register colls
  | .recording coll colls => do
    mongoCall fun m => .ok ((), m.track coll)
    Prog.each register colls
  | .initialized => pure ()
  | .ticking colls => Prog.each adopt colls
  | .adopting coll left colls => do
    (do
      Prog.each (fun i => Prog.void (Prog.attempt (mongoCall (Mongo.createIndex coll i)))) left
      mongoCall fun m => .ok ((), m.track coll)
      mongoCall fun m => .ok ((), { m with collectionCache := coll :: m.collectionCache }))
    Prog.each adopt colls
  | .adopted coll colls => do
    mongoCall fun m => .ok ((), { m with collectionCache := coll :: m.collectionCache })
    Prog.each adopt colls
  | .getting coll => Prog.void (getCollection coll)
  | .creating coll left => Prog.void do
    (do
      Prog.each (fun i => mongoCall (Mongo.createIndex coll i)) left
      mongoCall fun m => .ok ((), { m with collectionCache := coll :: m.collectionCache }))
    if ← cached coll then pure coll
    else Prog.raise (.mk .internalServer (some "Failed to cache collection"))
  | .checking coll => Prog.void do
    if ← cached coll then pure coll
    else Prog.raise (.mk .internalServer (some "Failed to cache collection"))
  | .got coll => Prog.void (pure coll)
  | .failed => Prog.raise .panic
  | .finished => pure ()

/-- What a task sees of a world. -/
def IndexedBox.ofWorld (scheduled : Bool) (w : World) : IndexedBox :=
  ⟨w.mongo.indexes, w.mongo.collectionCache, w.mongo.activeCollections, scheduled⟩

theorem program_initializing (colls : List String) :
    (IndexTask.initializing colls).program = Prog.each register colls := by
  cases colls <;> rfl

/-- The tasks are started as the programs are. -/
theorem initializeSystem_program (userShards : Nat) (w : World) :
    Prog.step (initializeSystem userShards) w = some ((IndexTask.initializing
      (collectionsOf userShards (w.now / 1000) [-1, 0, 1, 2, 3])).program, w) := by
  rw [program_initializing]
  rfl

theorem maintain_program (userShards : Nat) (w : World) :
    Prog.step (maintain userShards) w = some
      ((IndexTask.ticking (collectionsOf userShards (w.now / 1000) [0, 1, 2, 3])).program, w) := rfl

/-- The step of a program that creates an index next. -/
theorem step_createIndex {coll : String} {i : Index} {k : Except Error Unit → M Unit} {w w' : World}
    {m : M Unit} (scheduled : Bool)
    (h : Prog.step (.call (fun w => (Mongo.createIndex coll i w.mongo).map
      fun (b, mongo) => (b, { w with mongo })) k) w = some (m, w')) :
    (∃ e, m = k (.error e) ∧ w' = w) ∨ m = k (.ok ()) ∧
      IndexedBox.ofWorld scheduled w' = (IndexedBox.ofWorld scheduled w).createIndex coll i := by
  simp only [Prog.step, Mongo.createIndex] at h
  split at h
  · rename_i happlied
    split at happlied
    · cases happlied
    · cases happlied
      cases h
      exact .inr ⟨rfl, rfl⟩
  · cases h
    exact .inl ⟨_, rfl, rfl⟩

/-- A call that a program makes undisturbed is one of its task; its creation of an index fails where
the server refuses it. -/
theorem call_program {task : IndexTask} {w w' : World} {m : M Unit} {scheduled : Bool}
    (h : Prog.step task.program w = some (m, w')) : ∃ fails,
      let r := task.call fails (.ofWorld scheduled w)
      (m = r.1.program ∨ r.1 = .failed ∧ ∃ e, m = Prog.raise e) ∧ .ofWorld scheduled w' = r.2 := by
  cases task with
  | indexing coll left colls =>
    cases left with
    | nil =>
      cases h
      exact ⟨false, .inl rfl, rfl⟩
    | cons i left =>
      obtain ⟨e, hm, rfl⟩ | ⟨hm, hcreated⟩ := step_createIndex scheduled h
      · exact ⟨true, .inr ⟨rfl, e, hm⟩, rfl⟩
      · exact ⟨false, .inl hm, hcreated⟩
  | recording coll colls =>
    cases h
    exact ⟨false, .inl (program_initializing colls).symm, rfl⟩
  | initialized => cases h
  | ticking colls =>
    cases colls with
    | nil => cases h
    | cons coll colls =>
      cases h
      refine ⟨false, .inl ?_, rfl⟩
      by_cases hactive : coll ∈ w.mongo.activeCollections
      · simp only [IndexTask.call, IndexedBox.ofWorld, hactive, if_true]
        rfl
      · simp only [IndexTask.call, IndexedBox.ofWorld, hactive, if_false]
        rfl
  | adopting coll left colls =>
    cases left with
    | nil =>
      cases h
      exact ⟨false, .inl rfl, rfl⟩
    | cons i left =>
      obtain ⟨e, hm, rfl⟩ | ⟨hm, hcreated⟩ := step_createIndex scheduled h
      · exact ⟨true, .inl hm, rfl⟩
      · exact ⟨false, .inl hm, hcreated⟩
  | adopted coll colls =>
    cases h
    exact ⟨false, .inl rfl, rfl⟩
  | getting coll =>
    cases h
    refine ⟨false, .inl ?_, rfl⟩
    by_cases hcached : coll ∈ w.mongo.collectionCache
    · simp only [IndexTask.call, IndexedBox.ofWorld, hcached, if_true]
      rfl
    · simp only [IndexTask.call, IndexedBox.ofWorld, hcached, if_false]
      rfl
  | creating coll left =>
    cases left with
    | nil =>
      cases h
      exact ⟨false, .inl rfl, rfl⟩
    | cons i left =>
      obtain ⟨e, hm, rfl⟩ | ⟨hm, hcreated⟩ := step_createIndex scheduled h
      · exact ⟨true, .inr ⟨rfl, e, hm⟩, rfl⟩
      · exact ⟨false, .inl hm, hcreated⟩
  | checking coll =>
    cases h
    by_cases hcached : coll ∈ w.mongo.collectionCache
    · refine ⟨false, .inl ?_, rfl⟩
      simp only [IndexTask.call, IndexedBox.ofWorld, hcached, if_true]
      rfl
    · refine ⟨false, .inr ⟨?_, .mk .internalServer (some "Failed to cache collection"), ?_⟩, rfl⟩
      · simp only [IndexTask.call, IndexedBox.ofWorld, hcached, if_false]
      · simp only [hcached, decide_false]
        rfl
  | got coll => cases h
  | failed => cases h
  | finished => cases h

end Programs

end Sandcat
