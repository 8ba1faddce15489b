import Sandcat.Lookup
import Sandcat.Lib.Blind

/-!
# The migration from one collection to many

`run_migration` opens the repository that a configuration selects, reads the documents
of the single collection and saves each of them as a single message. Batches of
documents are worked off side by side, so their saves take effect in some order; each
save has its instant, and may fail to reach the server, which is logged. The sharded
box neither sees nor changes the single collection.
-/

namespace Sandcat

open Remote

/-- The fields of the configuration that select the inbox. -/
structure MongoConfig where
  useSharding : Option Bool
  userShards : Option Nat
  deriving DecidableEq, Repr

namespace MongoConfig

/-- `user_shards.unwrap_or(10) as u8`. -/
def shards (config : MongoConfig) : Nat := config.userShards.getD 10 % 2 ^ 8

def msgRecBoxRepo (config : MongoConfig) : Box :=
  if config.useSharding = some true then .sharded config.shards else .plain

/-- The configuration of the target: a field that is set stays as it is. -/
def shardingConfig (config : MongoConfig) : MongoConfig :=
  ⟨config.useSharding.or (some true), config.userShards.or (some 10)⟩

/-- The box that the migration writes to. -/
def target (config : MongoConfig) : Box := config.shardingConfig.msgRecBoxRepo

@[simp] theorem shards_shardingConfig (config : MongoConfig) :
    config.shardingConfig.shards = config.shards := by
  cases config with
  | mk useSharding userShards => cases userShards <;> rfl

/-- Sharding is forced only where the configuration leaves it open. -/
theorem target_eq (config : MongoConfig) :
    config.target = if config.useSharding = some false then .plain else .sharded config.shards := by
  unfold target msgRecBoxRepo
  rw [shards_shardingConfig]
  cases config with
  | mk useSharding userShards =>
    cases useSharding with
    | none => rfl
    | some b => cases b <;> rfl

theorem shards_of_target {config : MongoConfig} {n : Nat} (h : config.target = .sharded n) :
    config.shards = n := by
  rw [target_eq] at h
  split at h
  · cases h
  · exact Box.sharded.inj h

end MongoConfig

/-- The save of a document: its instant, and whether it reaches the server. -/
structure Transfer where
  now : Int
  doc : Document
  reaches : Bool

namespace Migrator

def connectionLost : Error := .mk .mongoDbOperateError (some "connection lost")

/-- `save_message`; the collection is computed before the server is called. -/
def saveMessage (cfg : Config) (reaches : Bool) (message : Msg) : M Unit :=
  if reaches then MsgRecBox.saveMessage cfg message
  else
    match cfg.box with
    | .plain => Prog.raise connectionLost
    | .sharded n => do
      let _ ← HybridShardedMsgBox.userCollection cfg n message.receiverId message.sendTime
      Prog.raise connectionLost

/-- The loop body of `process_batch`: an error is logged, a panic ends the task. -/
def processDoc (cfg : Config) (reaches : Bool) (doc : Document) : M Unit := do
  let saved ← Consumer.spawnLogged (saveMessage cfg reaches (Msg.tryFrom doc))
  Consumer.orRaise saved

/-- The saves in the order in which they take effect. A task that has panicked makes `migrate`
return its `JoinError`. -/
def processAll (cfg : Config) : List Transfer → World → Except Error Unit × World
  | [], w => (.ok (), w)
  | s :: schedule, w =>
    match (processDoc cfg s.reaches s.doc).exec (w.atTime s.now) with
    | (.ok _, t) => processAll cfg schedule t
    | (.error e, t) => (.error e, t)

/-- The start of a repository; a failure is logged. -/
def openRepo : Box → M Unit
  | .plain => pure ()
  | .sharded n => Prog.void (Prog.attempt (HybridShardedMsgBox.initializeSystem n))

def runMigration (cfg : Config) (config : MongoConfig) (start : Int) (schedule : List Transfer)
    (w : World) : Except Error Unit × World :=
  let cfg := { cfg with box := config.target }
  processAll cfg schedule ((openRepo cfg.box).after (w.atTime start))

end Migrator

/-- Documents of the single collection beside what a database holds. -/
def Mongo.beside (ds : List Document) (m : Mongo) : Mongo :=
  { m with docs := ds.map (Mongo.collSingleBox, ·) ++ m.docs }

def World.beside (ds : List Document) (w : World) : World := w.onMongo (Mongo.beside ds)

theorem collectionName_ne (ym : Int × Int) (r : Nat) : collectionName ym r ≠ Mongo.collSingleBox := by
  intro h
  have hl := congrArg String.toList h
  have hm : "msg_box_".toList = ['m', 's', 'g', '_', 'b', 'o', 'x', '_'] := by decide
  have hs : Mongo.collSingleBox.toList =
      ['s', 'i', 'n', 'g', 'l', 'e', '_', 'm', 's', 'g', '_', 'b', 'o', 'x'] := by decide
  rw [collectionName, String.toList_append, String.toList_append, String.toList_append, hm, hs] at hl
  simp at hl

section Beside

variable {ds : List Document}

theorem Mongo.filter_beside {coll : String} (hc : coll ≠ Mongo.collSingleBox) (m : Mongo) :
    (m.beside ds).docs.filter (·.1 = coll) = m.docs.filter (·.1 = coll) := by
  rw [beside, List.filter_append, List.filter_map]
  simp [Function.comp_def, hc.symm]

theorem blind_mongoCall {α : Type} {g : Mongo → Except Error (α × Mongo)}
    (hg : ∀ m, g (m.beside ds) = (g m).map fun r => (r.1, r.2.beside ds)) :
    Prog.Blind (World.beside ds) (mongoCall g) fun _ => True := by
  apply Prog.blind_request
  intro w
  change (g (w.mongo.beside ds)).map _ = _
  rw [hg]
  cases g w.mongo <;> rfl

theorem blind_nowSecs : Prog.Blind (World.beside ds) nowSecs fun _ => True :=
  Prog.blind_request fun _ => rfl

theorem blind_createIndex {coll : String} (hc : coll ≠ Mongo.collSingleBox) (i : Index) :
    Prog.Blind (World.beside ds) (mongoCall (Mongo.createIndex coll i)) fun _ => True := by
  apply blind_mongoCall
  intro m
  unfold Mongo.createIndex
  rw [Mongo.filter_beside hc]
  split <;> rfl

namespace HybridShardedMsgBox

variable {coll : String}

theorem blind_userRange (cfg : Config) (n : Nat) (u : UserId) :
    Prog.Blind (World.beside ds) (userRange cfg n u) fun _ => True := by
  apply Prog.blind_request
  intro w
  cases getUserRange cfg.hash n u <;> rfl

theorem blind_userCollection (cfg : Config) (n : Nat) (u : UserId) (ts : Int) :
    Prog.Blind (World.beside ds) (userCollection cfg n u ts) fun c => c ≠ Mongo.collSingleBox := by
  apply Prog.blind_bind (blind_userRange cfg n u)
  intro range _
  apply Prog.blind_bind blind_nowSecs
  intro now _
  exact collectionName_ne _ _

theorem blind_cached : Prog.Blind (World.beside ds) (cached coll) fun _ => True :=
  blind_mongoCall fun _ => rfl

theorem blind_ensureCollectionIndexed (hc : coll ≠ Mongo.collSingleBox) :
    Prog.Blind (World.beside ds) (ensureCollectionIndexed coll) fun _ => True := by
  apply Prog.blind_bind (Prog.blind_each fun i _ => blind_createIndex hc i)
  intro _ _
  exact blind_mongoCall fun _ => rfl

theorem blind_getCollection (hc : coll ≠ Mongo.collSingleBox) :
    Prog.Blind (World.beside ds) (getCollection coll) fun c => c = coll := by
  apply Prog.blind_bind blind_cached
  intro hit _
  split
  · rfl
  · apply Prog.blind_bind (blind_ensureCollectionIndexed hc)
    intro _ _
    apply Prog.blind_bind blind_cached
    intro hit _
    split
    · rfl
    · trivial

theorem blind_insertOne (hc : coll ≠ Mongo.collSingleBox) (d : Document) :
    Prog.Blind (World.beside ds) (insertOne coll d) fun _ => True := by
  apply blind_mongoCall
  intro m
  have hiff : (∃ p ∈ (m.beside ds).docs, p.1 = coll ∧ Mongo.uniqueKey p.2 = Mongo.uniqueKey d) ↔
      ∃ p ∈ m.docs, p.1 = coll ∧ Mongo.uniqueKey p.2 = Mongo.uniqueKey d := by
    constructor
    · rintro ⟨p, hp, he, hk⟩
      obtain hp | hp := List.mem_append.mp hp
      · obtain ⟨e, -, rfl⟩ := List.mem_map.mp hp
        exact absurd he.symm hc
      · exact ⟨p, hp, he, hk⟩
    · rintro ⟨p, hp, he, hk⟩
      exact ⟨p, List.mem_append_right _ hp, he, hk⟩
  have hindexes : (m.beside ds).indexes = m.indexes := rfl
  unfold Mongo.insertOne
  simp only [hiff, hindexes]
  split
  · rfl
  · simp [Except.map, Mongo.beside]

theorem blind_saveMessage (cfg : Config) (n : Nat) (message : Msg) :
    Prog.Blind (World.beside ds) (saveMessage cfg n message) fun _ => True := by
  apply Prog.blind_bind (blind_userCollection cfg n _ _)
  intro collName hc
  apply Prog.blind_bind (blind_getCollection hc)
  rintro collection rfl
  exact blind_insertOne hc _

theorem blind_initializeSystem (n : Nat) :
    Prog.Blind (World.beside ds) (initializeSystem n) fun _ => True := by
  apply Prog.blind_bind blind_nowSecs
  intro now _
  apply Prog.blind_each
  intro collName hmem
  obtain ⟨offset, -, hmem⟩ := List.mem_flatMap.mp hmem
  obtain ⟨range, -, rfl⟩ := List.mem_map.mp hmem
  apply Prog.blind_bind (blind_ensureCollectionIndexed (collectionName_ne _ _))
  intro _ _
  exact blind_mongoCall fun _ => rfl

theorem blind_queryEach {query : String → Mongo → List Document} {colls : List String}
    (hcolls : ∀ c ∈ colls, c ≠ Mongo.collSingleBox)
    (hq : ∀ c, c ≠ Mongo.collSingleBox → ∀ m : Mongo, query c (m.beside ds) = query c m) :
    Prog.Blind (World.beside ds) (queryEach query colls) fun _ => True := by
  induction colls with
  | nil => trivial
  | cons collName colls ih =>
    have hc := hcolls collName List.mem_cons_self
    apply Prog.blind_bind (P := fun _ => True)
    · apply Prog.blind_bind (Prog.blind_attempt (blind_getCollection hc))
      intro r hr
      cases r with
      | ok collection =>
        obtain rfl := hr collection rfl
        apply blind_mongoCall
        intro m
        rw [hq collection hc]
        rfl
      | error e => trivial
    · intro found _
      apply Prog.blind_bind (ih fun c h => hcolls c (List.mem_cons_of_mem _ h))
      exact fun _ _ => trivial

/-- The reader of the sharded box does not see the single collection. -/
theorem blind_getMsgs (cfg : Config) (n : Nat) (u : UserId) (ss se rs re : Int) :
    Prog.Blind (World.beside ds) (getMsgs cfg n u ss se rs re) fun _ => True := by
  have hread : Prog.Blind (World.beside ds) (readCollections cfg n u)
      fun colls => ∀ c ∈ colls, c ≠ Mongo.collSingleBox := by
    apply Prog.blind_bind (blind_userRange cfg n u)
    intro range _
    apply Prog.blind_bind blind_nowSecs
    intro now _ c hc
    simp only [List.mem_cons, List.not_mem_nil, or_false] at hc
    obtain rfl | rfl | rfl := hc <;> exact collectionName_ne _ _
  apply Prog.blind_bind hread
  intro colls hcolls
  apply Prog.blind_bind (P := fun _ => True)
  · unfold withCapacity
    split <;> trivial
  · intro _ _
    apply Prog.blind_bind (blind_queryEach hcolls ?_)
    · exact fun _ _ => trivial
    · intro c hc m
      simp only [aggregate, Mongo.find, Mongo.filter_beside hc]

end HybridShardedMsgBox

end Beside

namespace Migrator

variable {cfg : Config} {n : Nat} {w : World}

section Sharded

variable {ds : List Document}

theorem blind_processDoc (hbox : cfg.box = .sharded n) (reaches : Bool) (doc : Document) :
    Prog.Blind (World.beside ds) (processDoc cfg reaches doc) fun _ => True := by
  have hsave : Prog.Blind (World.beside ds) (saveMessage cfg reaches (Msg.tryFrom doc))
      fun _ => True := by
    unfold saveMessage MsgRecBox.saveMessage
    rw [hbox]
    cases reaches with
    | true => exact HybridShardedMsgBox.blind_saveMessage cfg n _
    | false =>
      apply Prog.blind_bind (HybridShardedMsgBox.blind_userCollection cfg n _ _)
      exact fun _ _ => trivial
  have hspawn : Prog.Blind (World.beside ds)
      (Consumer.spawnLogged (saveMessage cfg reaches (Msg.tryFrom doc))) fun _ => True := by
    apply Prog.blind_bind (Prog.blind_attempt hsave)
    intro r _
    split <;> trivial
  apply Prog.blind_bind hspawn
  intro saved _
  cases saved <;> trivial

theorem processAll_beside (hbox : cfg.box = .sharded n) (schedule : List Transfer) (w : World) :
    processAll cfg schedule (w.beside ds) =
      ((processAll cfg schedule w).1, (processAll cfg schedule w).2.beside ds) := by
  induction schedule generalizing w with
  | nil => rfl
  | cons s schedule ih =>
    have hdoc := Prog.blind_exec (φ := World.beside ds) (blind_processDoc hbox s.reaches s.doc)
      (w.atTime s.now)
    have hclock : (w.beside ds).atTime s.now = (w.atTime s.now).beside ds := rfl
    rw [processAll, processAll, hclock, hdoc]
    rcases (processDoc cfg s.reaches s.doc).exec (w.atTime s.now) with ⟨r, t⟩
    cases r with
    | ok _ => exact ih t
    | error e => rfl

theorem openRepo_beside (n : Nat) (w : World) :
    (openRepo (.sharded n)).after (w.beside ds) = ((openRepo (.sharded n)).after w).beside ds := by
  have hopen : Prog.Blind (World.beside ds) (openRepo (.sharded n)) fun _ => True := by
    apply Prog.blind_bind (Prog.blind_attempt (HybridShardedMsgBox.blind_initializeSystem n))
    exact fun _ _ => trivial
  exact congrArg Prod.snd (Prog.blind_exec hopen w)

end Sharded

/-- A task that does not panic counts as done. -/
theorem spawnLogged_quiet {task : M Unit} (h : (task.exec w).1 ≠ .error .panic) :
    (Consumer.spawnLogged task).exec w = (.ok (.ok ()), task.after w) := by
  rw [Consumer.spawnLogged, Prog.exec_bind, Prog.exec_attempt]
  dsimp only
  split
  · rename_i hpanic
    exact absurd hpanic h
  · rfl

theorem exec_processDoc {reaches : Bool} {doc : Document}
    (h : ((saveMessage cfg reaches (Msg.tryFrom doc)).exec w).1 ≠ .error .panic) :
    (processDoc cfg reaches doc).exec w =
      (.ok (), (saveMessage cfg reaches (Msg.tryFrom doc)).after w) := by
  rw [processDoc, Prog.exec_bind, spawnLogged_quiet h]
  rfl

/-- Saves that do not panic take effect one after another. -/
theorem processAll_cons {s : Transfer} {schedule : List Transfer}
    (h : ((saveMessage cfg s.reaches (Msg.tryFrom s.doc)).exec (w.atTime s.now)).1 ≠ .error .panic) :
    processAll cfg (s :: schedule) w = processAll cfg schedule
      ((saveMessage cfg s.reaches (Msg.tryFrom s.doc)).after (w.atTime s.now)) := by
  rw [processAll, exec_processDoc h]

section Effects

theorem insertOne_quiet (coll : String) (d : Document) :
    ((mongoCall (Mongo.insertOne coll d)).exec w).1 ≠ .error .panic := by
  rw [exec_mongoCall]
  by_cases hdup : (coll, Index.serverReceiver) ∈ w.mongo.indexes ∧
      ∃ p ∈ w.mongo.docs, p.1 = coll ∧ Mongo.uniqueKey p.2 = Mongo.uniqueKey d
  · rw [Mongo.insertOne, if_pos hdup]
    intro hpanic
    cases hpanic
  · rw [Mongo.insertOne, if_neg hdup]
    intro hpanic
    cases hpanic

theorem saveMessage_quiet (hbox : cfg.box = .sharded n) (hn : n ≠ 0) (h : w.mongo.Sound)
    (reaches : Bool) (message : Msg) :
    ((saveMessage cfg reaches message).exec w).1 ≠ .error .panic := by
  simp only [saveMessage, MsgRecBox.saveMessage, hbox]
  cases reaches with
  | true =>
    simp only [if_true, HybridShardedMsgBox.saveMessage, Prog.exec_bind,
      HybridShardedMsgBox.exec_userCollection hn, HybridShardedMsgBox.exec_getCollection h]
    exact insertOne_quiet _ _
  | false =>
    rw [if_neg Bool.false_ne_true, Prog.exec_bind, HybridShardedMsgBox.exec_userCollection hn]
    intro hpanic
    cases hpanic

theorem after_saveMessage (hbox : cfg.box = .sharded n) (hn : n ≠ 0) (h : w.mongo.Sound)
    (reaches : Bool) (message : Msg) : (saveMessage cfg reaches message).after w =
      if reaches then w.onMongo (·.filed (HybridShardedMsgBox.placed cfg n w.now [message]))
      else w := by
  simp only [saveMessage, MsgRecBox.saveMessage, hbox]
  cases reaches with
  | true => exact HybridShardedMsgBox.after_saveMessage hn h message
  | false =>
    rw [if_neg Bool.false_ne_true, if_neg Bool.false_ne_true, Prog.after, Prog.exec_bind,
      HybridShardedMsgBox.exec_userCollection hn]
    rfl

/-- What a transfer puts into a sharded box, with its collection. -/
def entry (cfg : Config) (userShards : Nat) (s : Transfer) : String × Document :=
  (HybridShardedMsgBox.shelf cfg userShards s.now (Msg.tryFrom s.doc).receiverId
    (Msg.tryFrom s.doc).sendTime, toDoc (Msg.tryFrom s.doc))

/-- The index decides which of the documents that reach the server are stored. -/
theorem processAll_sharded (hbox : cfg.box = .sharded n) (hn : n ≠ 0) (h : w.mongo.Sound)
    (schedule : List Transfer) : ∃ t, processAll cfg schedule w = (.ok (), t) ∧ t.mongo.Sound ∧
      t.mongo.docs = Unique.enterAll Mongo.docKey w.mongo.docs
        ((schedule.filter (·.reaches)).map (entry cfg n)) := by
  induction schedule generalizing w with
  | nil => exact ⟨w, rfl, h, rfl⟩
  | cons s schedule ih =>
    have hquiet := saveMessage_quiet (w := w.atTime s.now) hbox hn h s.reaches (Msg.tryFrom s.doc)
    rw [processAll_cons hquiet, after_saveMessage (w := w.atTime s.now) hbox hn h]
    cases hs : s.reaches with
    | true =>
      obtain ⟨t, hexec, hsound, hdocs⟩ := ih (w := (w.atTime s.now).onMongo (·.filed
        (HybridShardedMsgBox.placed cfg n s.now [Msg.tryFrom s.doc]))) (h.filed _)
      refine ⟨t, hexec, hsound, ?_⟩
      rw [hdocs, World.onMongo_mongo, Mongo.docs_filed, ← Unique.enterAll_append, List.filter_cons,
        if_pos hs]
      rfl
    | false =>
      obtain ⟨t, hexec, hsound, hdocs⟩ := ih (w := w.atTime s.now) h
      refine ⟨t, hexec, hsound, ?_⟩
      rw [hdocs, List.filter_cons, if_neg (by simp [hs])]
      rfl

/-- A box without shards panics at the first document. -/
theorem processAll_zero (hbox : cfg.box = .sharded 0) {schedule : List Transfer}
    (h : schedule ≠ []) : (processAll cfg schedule w).1 = .error Consumer.joinError := by
  cases schedule with
  | nil => exact absurd rfl h
  | cons s schedule =>
    have hdoc : (processDoc cfg s.reaches s.doc).exec (w.atTime s.now) =
        (.error Consumer.joinError, w.atTime s.now) := by
      unfold processDoc saveMessage MsgRecBox.saveMessage
      rw [hbox]
      cases s.reaches <;> rfl
    rw [processAll, hdoc]

theorem exec_saveMessage_plain (hbox : cfg.box = .plain)
    (h : (Mongo.collSingleBox, Index.serverReceiver) ∉ w.mongo.indexes) (reaches : Bool)
    (message : Msg) : (saveMessage cfg reaches message).exec w =
      if reaches then (.ok (), w.onMongo (MsgBox.appended · [toDoc message]))
      else (.error connectionLost, w) := by
  simp only [saveMessage, MsgRecBox.saveMessage, hbox]
  cases reaches with
  | true => exact MsgBox.exec_insertOne h _
  | false => rfl

/-- The single collection takes every document that reaches the server. -/
theorem processAll_plain (hbox : cfg.box = .plain)
    (h : (Mongo.collSingleBox, Index.serverReceiver) ∉ w.mongo.indexes) (schedule : List Transfer) :
    ∃ last, processAll cfg schedule w = (.ok (), (w.atTime last).onMongo (MsgBox.appended ·
      ((schedule.filter (·.reaches)).map fun s => toDoc (Msg.tryFrom s.doc)))) := by
  induction schedule generalizing w with
  | nil => exact ⟨w.now, by simp [processAll, World.onMongo, World.atTime, MsgBox.appended]⟩
  | cons s schedule ih =>
    have hexec := exec_saveMessage_plain (w := w.atTime s.now) hbox h s.reaches (Msg.tryFrom s.doc)
    have hquiet : ((saveMessage cfg s.reaches (Msg.tryFrom s.doc)).exec (w.atTime s.now)).1 ≠
        .error .panic := by
      rw [hexec]
      intro hpanic
      split at hpanic <;> cases hpanic
    rw [processAll_cons hquiet, Prog.after, hexec, List.filter_cons]
    cases s.reaches with
    | true =>
      obtain ⟨last, hrest⟩ := ih (w := (w.atTime s.now).onMongo
        (MsgBox.appended · [toDoc (Msg.tryFrom s.doc)])) h
      refine ⟨last, ?_⟩
      rw [if_pos rfl, if_pos rfl, hrest, List.map_cons]
      simp [World.onMongo, World.atTime, MsgBox.appended]
    | false =>
      obtain ⟨last, hrest⟩ := ih (w := w.atTime s.now) h
      exact ⟨last, hrest⟩

end Effects

section Run

variable {config : MongoConfig}

/-- A migration to a sharded box leaves the single collection alone. -/
theorem runMigration_sharded (cfg : Config) (htarget : config.target = .sharded n) (hn : n ≠ 0)
    (h : w.mongo.Sound) (ds : List Document) (start : Int) (schedule : List Transfer) :
    ∃ t : World, runMigration cfg config start schedule (w.beside ds) = (.ok (), t.beside ds) ∧
      t.mongo.Sound ∧ t.mongo.docs = Unique.enterAll Mongo.docKey w.mongo.docs
        ((schedule.filter (·.reaches)).map (entry cfg n)) := by
  obtain ⟨m, hinit, htrack⟩ :=
    HybridShardedMsgBox.exec_initializeSystem (n := n) (w := w.atTime start) h
  have hopen : (openRepo (.sharded n)).after (w.atTime start) =
      (w.atTime start).onMongo fun _ => m := by
    rw [openRepo, Prog.after, Prog.void, Prog.exec_bind, Prog.exec_attempt, hinit]
    rfl
  have hbox : ({ cfg with box := .sharded n } : Config).box = .sharded n := rfl
  obtain ⟨t, hall, hsound, hdocs⟩ := processAll_sharded
    (w := (w.atTime start).onMongo fun _ => m) hbox hn htrack.sound schedule
  refine ⟨t, ?_, hsound, hdocs.trans (congrArg (Unique.enterAll _ · _) htrack.docs)⟩
  have hclock : (w.beside ds).atTime start = (w.atTime start).beside ds := rfl
  rw [runMigration, htarget]
  dsimp only
  rw [hclock, openRepo_beside, processAll_beside hbox, hopen, hall]

/-- Without shards there is nothing to open. -/
theorem openRepo_zero (w : World) : (openRepo (.sharded 0)).after w = w := rfl

/-- Without shards there is no migration that does anything and succeeds. -/
theorem runMigration_zero (cfg : Config) (htarget : config.target = .sharded 0) (start : Int)
    {schedule : List Transfer} (h : schedule ≠ []) :
    (runMigration cfg config start schedule w).1 = .error Consumer.joinError := by
  rw [runMigration, htarget]
  exact processAll_zero rfl h

theorem runMigration_plain (cfg : Config) (htarget : config.target = .plain)
    (h : (Mongo.collSingleBox, Index.serverReceiver) ∉ w.mongo.indexes) (start : Int)
    (schedule : List Transfer) : ∃ last, runMigration cfg config start schedule w =
      (.ok (), (w.atTime last).onMongo (MsgBox.appended ·
        ((schedule.filter (·.reaches)).map fun s => toDoc (Msg.tryFrom s.doc)))) := by
  rw [runMigration, htarget]
  exact processAll_plain (w := w.atTime start) rfl h schedule

end Run

end Migrator

end Sandcat
