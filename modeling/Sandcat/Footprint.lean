import Sandcat.Consumer
import Sandcat.Counters
import Sandcat.Producer

/-!
# What each component can change

The inbox changes MongoDB, the pusher its connections and the deliveries, the group
operations of the cache the cached sets. `Kept` lists the effects the consumer has
on the shared state; a predicate that survives each of them survives every run of
`handleMsg`, whatever calls are lost.
-/

namespace Sandcat

open Remote

namespace World

def outsideMongo (w : World) : World := { w with mongo := .empty }
def outsidePusher (w : World) : World := { w with wsRpcList := [], deliveries := [] }
def outsideSets (w : World) : World :=
  let redis := { w.redis with sets := fun _ => ∅ }
  { w with redis }

def outsideNumbering (w : World) : World := { w with redis := .empty, pg := .empty, scripts := [] }
def outsideStores (w : World) : World := { w with pg := .empty, mongo := .empty }
def outsideQueue (w : World) : World := { w with queue := [] }

theorem eq_of_outsideMongo {w t : World} (h : t.outsideMongo = w.outsideMongo) :
    t = { w with mongo := t.mongo } := by
  cases w
  cases t
  simp_all [outsideMongo]

theorem eq_of_outsidePusher {w t : World} (h : t.outsidePusher = w.outsidePusher) :
    t = { w with wsRpcList := t.wsRpcList, deliveries := t.deliveries } := by
  cases w
  cases t
  simp_all [outsidePusher]

theorem eq_of_outsideQueue {w t : World} (h : t.outsideQueue = w.outsideQueue) :
    t = { w with queue := t.queue } := by
  cases w
  cases t
  simp_all [outsideQueue]

theorem eq_of_outsideSets {w t : World} (h : t.outsideSets = w.outsideSets) :
    t = { w with redis := { w.redis with sets := t.redis.sets } } := by
  rcases w with ⟨⟨⟩⟩
  rcases t with ⟨⟨⟩⟩
  simp_all [outsideSets]

end World

open World

section Mongo

theorem frame_mongoCall {α : Type} (g : Mongo → Except Error (α × Mongo)) :
    Prog.Frame outsideMongo (mongoCall g) := by
  apply Prog.frame_request
  intro w a t h
  obtain ⟨p, -, hp⟩ := eq_ok_of_map h
  cases hp
  rfl

/-- A function that sees of MongoDB its documents only. -/
def SeesDocs {γ : Type} (f : World → γ) : Prop :=
  ∀ (w : World) mongo, mongo.docs = w.mongo.docs → f { w with mongo } = f w

theorem seesDocs_outsideMongo : SeesDocs outsideMongo := fun _ _ _ => rfl

theorem frame_mongoCall_docs {α γ : Type} {f : World → γ} (hf : SeesDocs f)
    {g : Mongo → Except Error (α × Mongo)} (hg : ∀ m a m', g m = .ok (a, m') → m'.docs = m.docs) :
    Prog.Frame f (mongoCall g) := by
  apply Prog.frame_request
  intro w a t h
  obtain ⟨p, hr, hp⟩ := eq_ok_of_map h
  cases hp
  exact hf w p.2 (hg w.mongo p.1 p.2 hr)

theorem frame_nowSecs {γ : Type} (f : World → γ) : Prog.Frame f nowSecs :=
  Prog.frame_update fun _ => rfl

namespace HybridShardedMsgBox

theorem frame_userRange {γ : Type} (f : World → γ) (cfg : Config) (n : Nat) (u : UserId) :
    Prog.Frame f (userRange cfg n u) := by
  apply Prog.frame_request
  intro w a t h
  cases hr : getUserRange cfg.hash n u with
  | none => rw [hr] at h; cases h
  | some r => rw [hr] at h; cases h; rfl

theorem frame_userCollection {γ : Type} (f : World → γ) (cfg : Config) (n : Nat) (u : UserId)
    (ts : Int) : Prog.Frame f (userCollection cfg n u ts) := by
  apply Prog.frame_bind (frame_userRange f cfg n u)
  intro r
  apply Prog.frame_bind (frame_nowSecs f)
  intro now
  exact Prog.frame_ret _

/-- Opening a collection touches no document. -/
theorem frame_getCollection {γ : Type} {f : World → γ} (hf : SeesDocs f) (coll : String) :
    Prog.Frame f (getCollection coll) := by
  have hcached : Prog.Frame f (cached coll) :=
    frame_mongoCall_docs hf fun m a m' h => by cases h; rfl
  apply Prog.frame_bind hcached
  intro hit
  split
  · exact Prog.frame_ret _
  · apply Prog.frame_bind
    · apply Prog.frame_bind
      · apply Prog.frame_each
        intro i
        apply frame_mongoCall_docs hf
        intro m a m' h
        unfold Mongo.createIndex at h
        split at h <;> cases h
        rfl
      · intro _
        exact frame_mongoCall_docs hf fun m a m' h => by cases h; rfl
    · intro _
      apply Prog.frame_bind hcached
      intro hit
      split
      · exact Prog.frame_ret _
      · exact Prog.frame_raise _

theorem frame_placeCopies {γ : Type} {f : World → γ} (hf : SeesDocs f) (cfg : Config) (n : Nat)
    (messages : List Msg) : Prog.Frame f (placeCopies cfg n messages) := by
  induction messages with
  | nil => exact Prog.frame_ret _
  | cons message messages ih =>
    apply Prog.frame_bind (frame_userCollection _ _ _ _ _)
    intro collName
    apply Prog.frame_bind (frame_getCollection hf _)
    intro collection
    apply Prog.frame_bind ih
    intro placed
    exact Prog.frame_ret _

theorem frame_firstFailure {γ : Type} (f : World → γ) (results : List (Except Error Unit)) :
    Prog.Frame f (firstFailure results) := by
  induction results with
  | nil => exact Prog.frame_ret _
  | cons r results ih =>
    cases r with
    | ok _ => exact ih
    | error e => exact Prog.frame_raise e

theorem frame_deleteFrom (messageId : String) (colls : List String) :
    Prog.Frame outsideMongo (deleteFrom messageId colls) := by
  induction colls with
  | nil => exact Prog.frame_ret _
  | cons coll colls ih =>
    apply Prog.frame_bind (frame_getCollection seesDocs_outsideMongo _)
    intro collection
    apply Prog.frame_bind (frame_mongoCall _)
    intro count
    split
    · exact Prog.frame_ret _
    · exact ih

/-- What an update leaves alone in every collection. -/
theorem frame_updateRecent {γ : Type} {f : World → γ} (hf : SeesDocs f)
    {update : String → Mongo → Mongo}
    (hu : ∀ (w : World) coll, f { w with mongo := update coll w.mongo } = f w) (cfg : Config)
    (n : Nat) (u : UserId) : Prog.Frame f (updateRecent cfg n u update) := by
  apply Prog.frame_bind (frame_userRange _ _ _ _)
  intro range
  apply Prog.frame_bind (frame_nowSecs _)
  intro now
  apply Prog.frame_each
  intro collName
  apply Prog.frame_bind (Prog.frame_attempt (frame_getCollection hf _))
  intro r
  cases r with
  | ok collection => exact Prog.frame_request fun w a t h => by cases h; exact hu w collection
  | error e => exact Prog.frame_ret _

end HybridShardedMsgBox

namespace MsgRecBox

open HybridShardedMsgBox

theorem frame_saveMessage (cfg : Config) (message : Msg) :
    Prog.Frame outsideMongo (saveMessage cfg message) := by
  unfold saveMessage
  cases cfg.box with
  | plain => exact frame_mongoCall _
  | sharded n =>
    apply Prog.frame_bind (frame_userCollection _ _ _ _ _)
    intro collName
    apply Prog.frame_bind (frame_getCollection seesDocs_outsideMongo _)
    intro collection
    exact frame_mongoCall _

theorem frame_saveGroupMsg (cfg : Config) (message : Msg) (members : List GroupMemSeq) :
    Prog.Frame outsideMongo (saveGroupMsg cfg message members) := by
  unfold saveGroupMsg
  cases cfg.box with
  | plain => exact Prog.frame_each (fun d => frame_mongoCall _) _
  | sharded n =>
    apply Prog.frame_bind (frame_placeCopies seesDocs_outsideMongo _ _ _)
    intro messages
    apply Prog.frame_bind
    · apply Prog.frame_all
      intro m hm
      obtain ⟨p, -, rfl⟩ := List.mem_map.mp hm
      exact frame_mongoCall _
    · intro results
      exact frame_firstFailure _ _

theorem frame_deleteMessage (cfg : Config) (messageId : String) :
    Prog.Frame outsideMongo (deleteMessage cfg messageId) := by
  unfold deleteMessage
  cases cfg.box with
  | plain => exact frame_mongoCall _
  | sharded n =>
    apply Prog.frame_bind (frame_mongoCall _)
    intro active
    exact frame_deleteFrom _ _

theorem frame_msgRead {γ : Type} {f : World → γ} (hf : SeesDocs f) {u : UserId} {seqs : List Int}
    (hu : ∀ (w : World) coll, f { w with mongo := w.mongo.setRead coll u seqs } = f w)
    (cfg : Config) : Prog.Frame f (msgRead cfg u seqs) := by
  unfold msgRead
  cases cfg.box with
  | plain =>
    dsimp only [MsgBox.msgRead]
    split
    · exact Prog.frame_ret _
    · exact Prog.frame_request fun w a t h => by cases h; exact hu w _
  | sharded n =>
    dsimp only [HybridShardedMsgBox.msgRead]
    split
    · exact Prog.frame_ret _
    · exact frame_updateRecent hf hu cfg n u

theorem frame_deleteMessages {γ : Type} {f : World → γ} (hf : SeesDocs f) {u : UserId}
    {seqs : List Int}
    (hu : ∀ (w : World) coll, f { w with mongo := w.mongo.deleteMany coll u seqs } = f w)
    (cfg : Config) : Prog.Frame f (deleteMessages cfg u seqs) := by
  unfold deleteMessages
  cases cfg.box with
  | plain => exact Prog.frame_request fun w a t h => by cases h; exact hu w _
  | sharded n =>
    dsimp only [HybridShardedMsgBox.deleteMessages]
    split
    · exact Prog.frame_ret _
    · exact frame_updateRecent hf hu cfg n u

end MsgRecBox

end Mongo

namespace Pusher

theorem frame_connectedGateways {γ : Type} {f : World → γ}
    (hf : ∀ (w : World) wsRpcList, f { w with wsRpcList } = f w) :
    Prog.Frame f connectedGateways := by
  apply Prog.frame_bind (Prog.frame_update fun _ => rfl)
  intro known
  apply Prog.frame_bind
  · apply Prog.frame_onlyIf
    apply Prog.frame_bind (Prog.frame_update fun _ => rfl)
    intro services
    exact Prog.frame_update fun w => hf w _
  · intro _
    apply Prog.frame_bind (Prog.frame_update fun _ => rfl)
    intro wsRpc
    split
    · exact Prog.frame_raise _
    · exact Prog.frame_ret _

theorem frame_rpc (sends : Hub → List (Client × Msg)) (addr : Addr) :
    Prog.Frame outsidePusher (rpc sends addr) := by
  apply Prog.frame_request
  intro w a t h
  cases hg : w.gateways addr with
  | none => rw [hg] at h; cases h
  | some hub => rw [hg] at h; cases h; rfl

theorem frame_rpcs (sends : Hub → List (Client × Msg)) (wsRpc : List Addr) :
    Prog.Frame outsidePusher (Prog.all (wsRpc.map (rpc sends))) := by
  apply Prog.frame_all
  intro m hm
  obtain ⟨addr, -, rfl⟩ := List.mem_map.mp hm
  exact frame_rpc sends addr

/-- A push changes nothing else, whichever gateways it removes. -/
theorem frame_push (sends : Hub → List (Client × Msg))
    (failed : List Addr → List (Except Error Unit) → List Addr) : Prog.Frame outsidePusher (do
      let wsRpc ← connectedGateways
      let results ← Prog.all (wsRpc.map (rpc sends))
      remove (failed wsRpc results)) := by
  apply Prog.frame_bind (frame_connectedGateways fun _ _ => rfl)
  intro wsRpc
  apply Prog.frame_bind (frame_rpcs _ _)
  intro results
  exact Prog.frame_update fun _ => rfl

theorem frame_pushSingleMsg (msg : Msg) : Prog.Frame outsidePusher (pushSingleMsg msg) :=
  frame_push _ fun wsRpc results => ((wsRpc.zip results).filter isError).map Prod.fst

theorem frame_pushGroupMsg (msg : Msg) (members : List GroupMemSeq) :
    Prog.Frame outsidePusher (pushGroupMsg msg members) :=
  frame_push _ fun wsRpc results => ((wsRpc.zip results).takeWhile isError).map Prod.fst

end Pusher

namespace Producer

theorem frame_sendMsg (nanoid : String) (request : SendMsgRequest) :
    Prog.Frame outsideQueue (sendMsg nanoid request) := by
  unfold sendMsg
  cases request.message with
  | none => exact Prog.frame_raise _
  | some msg =>
    apply Prog.frame_bind (Prog.frame_update fun _ => rfl)
    intro now
    apply Prog.frame_bind (Prog.frame_attempt (Prog.frame_update fun _ => rfl))
    intro err
    exact Prog.frame_ret _

end Producer

namespace Cache

theorem frame_saveGroupMembersId (g : GroupId) (members : List UserId) :
    Prog.Frame outsideSets (saveGroupMembersId g members) :=
  Prog.frame_each (fun _ => Prog.frame_update fun _ => rfl) _

end Cache

namespace Consumer

theorem frame_getMembersId (g : GroupId) : Prog.Frame outsideSets (getMembersId g) := by
  apply Prog.frame_bind (Prog.frame_update fun _ => rfl)
  intro list
  split
  · exact Prog.frame_ret _
  · apply Prog.frame_bind (Prog.frame_request fun w a t h => by cases h; rfl)
    intro members
    apply Prog.frame_bind (Prog.frame_attempt (Cache.frame_saveGroupMembersId _ _))
    intro _
    exact Prog.frame_ret _

theorem frame_updateCachedMembers (msg : Msg) :
    Prog.Frame outsideSets (updateCachedMembers msg) := by
  unfold updateCachedMembers
  split
  · exact Prog.frame_update fun _ => rfl
  · split
    · exact Prog.frame_update fun _ => rfl
    · split
      · split
        · unfold Cache.removeGroupMemberBatch
          split
          · exact Prog.frame_raise _
          · exact Prog.frame_update fun _ => rfl
        · exact Prog.frame_raise _
      · exact Prog.frame_ret _

/-- An acknowledgement touches MongoDB only. -/
theorem frame_handleMsgRead (cfg : Config) (msg : Msg) :
    Prog.Frame outsideMongo (handleMsgRead cfg msg) := by
  unfold handleMsgRead
  split
  · exact MsgRecBox.frame_msgRead seesDocs_outsideMongo (fun _ _ => rfl) cfg
  · exact Prog.frame_raise _

theorem frame_pushMsg (msgType : MsgType2) (msg : Msg) (members : List GroupMemSeq) :
    Prog.Frame outsidePusher (pushMsg msgType msg members) := by
  cases msgType with
  | single => exact Pusher.frame_pushSingleMsg msg
  | group => exact Pusher.frame_pushGroupMsg msg members

end Consumer

/-- The effects of the numbering: the cached sets, the ceilings in the database, scripts. -/
structure KeptByNumbering (cfg : Config) (I : World → Prop) : Prop where
  sets : ∀ (w : World) sets, I w → I { w with redis := { w.redis with sets } }
  recMax : ∀ (w : World) p, I w → I { w with pg := w.pg.bumpRec cfg.seqStep p }
  script : ∀ (w : World) (us : List UserId), I w → I (w.bumped cfg.seqStep (us.map seqKey))

/-- The effects of the storing task: the inbox, the history, the ceilings. -/
structure KeptByStoring (cfg : Config) (I : World → Prop) : Prop where
  mongo : ∀ (w : World) mongo, I w → I { w with mongo }
  history : ∀ (w : World) messages, I w → I { w with pg := { w.pg with messages } }
  recMax : ∀ (w : World) p, I w → I { w with pg := w.pg.bumpRec cfg.seqStep p }

/-- The effects of both tasks. -/
structure KeptByTasks (cfg : Config) (I : World → Prop) : Prop extends KeptByStoring cfg I where
  push : ∀ (w : World) wsRpcList deliveries, I w → I { w with wsRpcList, deliveries }

/-- The effects of the consumer on the shared state. -/
structure Kept (cfg : Config) (I : World → Prop) : Prop extends
  KeptByNumbering cfg I, KeptByTasks cfg I

section Kept

open Consumer

variable {cfg : Config} {I : World → Prop}

theorem KeptByStoring.of_mongo {α : Type} (h : KeptByStoring cfg I) {m : M α}
    (hm : Prog.Frame outsideMongo m) : Prog.Stable I m :=
  Prog.stable_of_frame hm fun s _ ht hs => eq_of_outsideMongo ht ▸ h.mongo s _ hs

theorem KeptByTasks.of_push {α : Type} (h : KeptByTasks cfg I) {m : M α}
    (hm : Prog.Frame outsidePusher m) : Prog.Stable I m :=
  Prog.stable_of_frame hm fun s _ ht hs => eq_of_outsidePusher ht ▸ h.push s _ _ hs

theorem KeptByNumbering.of_sets {α : Type} (h : KeptByNumbering cfg I) {m : M α}
    (hm : Prog.Frame outsideSets m) : Prog.Stable I m :=
  Prog.stable_of_frame hm fun s _ ht hs => eq_of_outsideSets ht ▸ h.sets s _ hs

theorem stable_saveMaxSeq
    (h : ∀ (w : World) p, I w → I { w with pg := w.pg.bumpRec cfg.seqStep p }) (u : UserId) :
    Prog.Stable I (Db.saveMaxSeq cfg u) := by
  apply Prog.stable_request
  intro w n t hw ht
  unfold Postgres.saveMaxSeq at ht
  cases hr : w.pg.sequence.find u with
  | none => rw [hr] at ht; cases ht
  | some row => rw [hr] at ht; cases ht; exact h w _ hw

theorem KeptByStoring.saveMaxSeqBatch (h : KeptByStoring cfg I) (us : List UserId) :
    Prog.Stable I (Db.saveMaxSeqBatch cfg us) := by
  apply Prog.stable_request
  intro w n t hw ht
  cases ht
  unfold Postgres.saveMaxSeqBatch
  split
  · exact hw
  · exact h.recMax w _ hw

theorem KeptByStoring.saveMessage (h : KeptByStoring cfg I) (message : Msg) :
    Prog.Stable I (Db.saveMessage message) := by
  apply Prog.stable_bind
  · apply Prog.stable_request
    intro w n t hw ht
    cases ht
    exact h.history w _ hw
  · intro _
    trivial

theorem KeptByNumbering.handleSendSeq (h : KeptByNumbering cfg I) (u : UserId) :
    Prog.Stable I (handleSendSeq cfg u) := by
  apply Prog.stable_bind (Prog.stable_update fun _ hw => hw)
  intro sendSeq
  exact Prog.stable_onlyIf (Prog.stable_void (stable_saveMaxSeq h.recMax u))

theorem KeptByNumbering.increaseSeq (h : KeptByNumbering cfg I) (u : UserId) :
    Prog.Stable I (Cache.increaseSeq cfg u) :=
  Cache.stable_evalSingle fun w hw => h.script w [u] hw

theorem KeptByNumbering.numberReceiver (h : KeptByNumbering cfg I) (need : Bool) (msg : Msg) :
    Prog.Stable I (numberReceiver cfg need msg) := by
  unfold Consumer.numberReceiver
  split
  · apply Prog.stable_bind
    · apply Prog.stable_bind (h.increaseSeq msg.receiverId)
      intro reply
      apply Prog.stable_bind (Prog.stable_onlyIf (Prog.stable_void (stable_saveMaxSeq h.recMax _)))
      intro _
      trivial
    · intro curSeq
      trivial
  · trivial

theorem KeptByNumbering.handleGroupSeq (h : KeptByNumbering cfg I) (msgType : MsgType2) (msg : Msg) :
    Prog.Stable I (handleGroupSeq cfg msgType msg) := by
  unfold Consumer.handleGroupSeq
  split
  · trivial
  · apply Prog.stable_bind (h.of_sets (frame_getMembersId _))
    intro members
    apply Prog.stable_bind (Cache.stable_incrGroupSeq fun w hw => h.script w _ hw)
    intro seq
    apply Prog.stable_bind (h.of_sets (frame_updateCachedMembers _))
    intro _
    trivial

theorem KeptByNumbering.numberMsg (h : KeptByNumbering cfg I) (mt : MsgType) (msg : Msg) :
    Prog.Stable I (numberMsg cfg mt msg) := by
  apply Prog.stable_bind (h.handleSendSeq _)
  intro _
  apply Prog.stable_bind (h.numberReceiver _ _)
  intro msg
  apply Prog.stable_bind (h.handleGroupSeq _ _)
  intro members
  trivial

/-- The numbering touches Redis and Postgres only. -/
theorem frame_numberMsg (mt : MsgType) (msg : Msg) :
    Prog.Frame outsideNumbering (numberMsg cfg mt msg) :=
  fun _ => KeptByNumbering.numberMsg ⟨fun _ _ h => h, fun _ _ h => h, fun _ _ h => h⟩ mt msg

theorem stable_spawnLogged {task : M Unit} (ht : Prog.Stable I task) :
    Prog.Stable I (spawnLogged task) := by
  apply Prog.stable_bind (Prog.stable_attempt ht)
  intro r
  split <;> trivial

theorem stable_spawn {task : M Unit} (ht : Prog.Stable I task) : Prog.Stable I (spawn task) := by
  apply Prog.stable_bind (Prog.stable_attempt ht)
  intro r
  split <;> trivial

theorem stable_orRaise {α : Type} (r : Except Error α) : Prog.Stable I (orRaise r) := by
  cases r <;> trivial

theorem KeptByStoring.handleMessage (h : KeptByStoring cfg I) (message : Msg) (need : Bool) :
    Prog.Stable I (handleMessage cfg message need) := by
  apply Prog.stable_bind
  · split
    · exact stable_spawnLogged (h.saveMessage message)
    · trivial
  · intro db
    apply Prog.stable_bind
    · apply stable_spawnLogged
      split
      · exact h.of_mongo (MsgRecBox.frame_deleteMessage _ _)
      · exact h.of_mongo (MsgRecBox.frame_saveMessage _ _)
    · intro msgRecBox
      exact Prog.stable_bind (stable_orRaise _) fun _ => stable_orRaise _

theorem KeptByStoring.handleGroupMessage (h : KeptByStoring cfg I) (message : Msg) (need : Bool)
    (members : List GroupMemSeq) : Prog.Stable I (handleGroupMessage cfg message need members) := by
  apply Prog.stable_bind
  · apply stable_spawn
    apply Prog.stable_bind (Prog.stable_onlyIf (h.saveMaxSeqBatch _))
    intro _
    exact Prog.stable_onlyIf (h.saveMessage message)
  · intro dbTask
    apply Prog.stable_bind (stable_spawn (h.of_mongo (MsgRecBox.frame_saveGroupMsg _ _ _)))
    intro msgRecBoxTask
    apply Prog.stable_bind (stable_orRaise _)
    intro dbResult
    apply Prog.stable_bind (stable_orRaise _)
    intro msgRecBoxResult
    exact Prog.stable_bind (stable_orRaise _) fun _ => stable_orRaise _

theorem KeptByStoring.sendToDb (h : KeptByStoring cfg I) (msg : Msg) (msgType : MsgType2)
    (need : Bool) (members : List GroupMemSeq) :
    Prog.Stable I (sendToDb cfg msg msgType need members) := by
  cases msgType with
  | single => exact h.handleMessage _ _
  | group => exact h.handleGroupMessage _ _ _

theorem KeptByTasks.dispatch (h : KeptByTasks cfg I) (mt : MsgType) (msg : Msg)
    (members : List GroupMemSeq) : Prog.Stable I (dispatch cfg mt msg members) := by
  apply Prog.stable_bind
  · split
    · exact stable_spawnLogged (h.toKeptByStoring.sendToDb _ _ _ _)
    · trivial
  · intro toDb
    apply Prog.stable_bind
    · exact stable_spawnLogged (h.of_push (frame_pushMsg _ _ _))
    · intro toPusher
      exact Prog.stable_bind (stable_orRaise _) fun _ => stable_orRaise _

/-- What survives every effect survives every run of `handleMsg`. -/
theorem Kept.handleMsg (h : Kept cfg I) (payload : Payload) :
    Prog.Stable I (handleMsg cfg payload) := by
  apply handleMsg_cases (P := fun _ m => Prog.Stable I m) cfg
  · exact fun _ => trivial
  · exact fun _ _ _ => trivial
  · intro msg _
    exact h.toKeptByTasks.toKeptByStoring.of_mongo (frame_handleMsgRead cfg msg)
  · intro msg mt _ _
    apply Prog.stable_bind (h.numberMsg _ _)
    intro p
    exact h.dispatch _ _ _

/-- The consumer reads the tables of groups and members. -/
theorem frame_groupTables (cfg : Config) (payload : Payload) :
    Prog.Frame (fun w : World => (w.pg.groups, w.pg.groupMembers)) (Consumer.handleMsg cfg payload) :=
  fun _ => Kept.handleMsg ⟨⟨fun _ _ h => h, fun _ _ h => h, fun _ _ h => h⟩, fun _ _ h => h,
    fun _ _ h => h, fun _ _ _ h => h⟩ payload

end Kept

end Sandcat
