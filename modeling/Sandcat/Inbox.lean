import Sandcat.World

/-!
# The two inbox repositories

`MsgBox` keeps every document in one collection. `HybridShardedMsgBox` chooses a
collection by month and shard, creates its indexes on first use, and keeps the
handles of the collections it has opened. A box without shards divides by zero on
every call that needs one.
-/

namespace Sandcat

open Remote

/-- The loop of `save_group_msg`, which overwrites `seq` and `receiver_id` of one message. -/
def memberMsgs : Msg → List GroupMemSeq → List Msg
  | _, [] => []
  | message, seq :: members =>
    let message := { message with seq := seq.curSeq, receiverId := seq.memId }
    message :: memberMsgs message members

namespace MsgBox

def insertOne (d : Document) : M Unit := mongoCall (Mongo.insertOne Mongo.collSingleBox d)

def saveMessage (message : Msg) : M Unit := insertOne (toDoc message)

/-- `insert_many` inserts in order and stops at the first refusal. -/
def saveGroupMsg (message : Msg) (members : List GroupMemSeq) : M Unit :=
  Prog.each insertOne
    (toDoc message :: (memberMsgs { message with sendSeq := 0 } members).map toDoc)

def deleteMessage (messageId : String) : M Unit :=
  mongoCall fun m => .ok ((), (m.deleteOne Mongo.collSingleBox messageId).2)

def deleteMessages (userId : UserId) (msgSeq : List Int) : M Unit :=
  mongoCall fun m => .ok ((), m.deleteMany Mongo.collSingleBox userId msgSeq)

def msgRead (userId : UserId) (msgSeq : List Int) : M Unit :=
  if msgSeq = [] then pure ()
  else mongoCall fun m => .ok ((), m.setRead Mongo.collSingleBox userId msgSeq)

end MsgBox

namespace HybridShardedMsgBox

/-- The shard of a user. -/
def userRange (cfg : Config) (userShards : Nat) (userId : UserId) : M Nat :=
  Prog.request fun w =>
    match getUserRange cfg.hash userShards userId with
    | some range => .ok (range, w)
    | none => .error .panic

/-- The collection of a user's documents sent at `timestamp`. -/
def userCollection (cfg : Config) (userShards : Nat) (userId : UserId) (timestamp : Int) :
    M String := do
  let range ← userRange cfg userShards userId
  let now ← nowSecs
  pure (getCollectionName now timestamp range)

def ensureCollectionIndexed (coll : String) : M Unit := do
  Prog.each (fun i => mongoCall (Mongo.createIndex coll i))
    [.receiverSeq, .sendTime, .senderSendSeq, .serverReceiver]
  mongoCall fun m => .ok ((), { m with collectionCache := coll :: m.collectionCache })

def cached (coll : String) : M Bool :=
  mongoCall fun m => .ok (decide (coll ∈ m.collectionCache), m)

def getCollection (coll : String) : M String := do
  if ← cached coll then pure coll
  else
    ensureCollectionIndexed coll
    if ← cached coll then pure coll
    else Prog.raise (.mk .internalServer (some "Failed to cache collection"))

def insertOne (coll : String) (d : Document) : M Unit := mongoCall (Mongo.insertOne coll d)

def saveMessage (cfg : Config) (userShards : Nat) (message : Msg) : M Unit := do
  let collName ← userCollection cfg userShards message.receiverId message.sendTime
  let collection ← getCollection collName
  insertOne collection (toDoc message)

/-- The copies of the members, each with the collection it goes to. -/
def placeCopies (cfg : Config) (userShards : Nat) : List Msg → M (List (String × Document))
  | [] => pure []
  | message :: messages => do
    let collName ← userCollection cfg userShards message.receiverId message.sendTime
    let collection ← getCollection collName
    let placed ← placeCopies cfg userShards messages
    pure ((collection, toDoc message) :: placed)

/-- `handle.await` over the handles: the first failure is returned. -/
def firstFailure : List (Except Error Unit) → M Unit
  | [] => pure ()
  | .ok _ :: results => firstFailure results
  | .error e :: _ => Prog.raise e

/-- Every copy is placed before the first one is inserted, and every insertion is tried. -/
def saveGroupMsg (cfg : Config) (userShards : Nat) (message : Msg) (members : List GroupMemSeq) :
    M Unit := do
  let senderMsg := { message with receiverId := message.senderId }
  let messages ← placeCopies cfg userShards
    (senderMsg :: memberMsgs { message with sendSeq := 0 } members)
  let results ← Prog.all (messages.map fun p => insertOne p.1 p.2)
  firstFailure results

/-- The loop of `delete_message` over the active collections. -/
def deleteFrom (messageId : String) : List String → M Unit
  | [] => pure ()
  | collName :: colls => do
    let collection ← getCollection collName
    let deletedCount ← mongoCall fun m => .ok (m.deleteOne collection messageId)
    if deletedCount > 0 then pure () else deleteFrom messageId colls

def deleteMessage (messageId : String) : M Unit := do
  let activeCollections ← mongoCall fun m => .ok (m.activeCollections, m)
  deleteFrom messageId activeCollections

/-- One update in one collection; a collection that cannot be opened is passed over. -/
def updateIn (update : String → Mongo → Mongo) (collName : String) : M Unit := do
  match ← Prog.attempt (getCollection collName) with
  | .ok collection => mongoCall fun m => .ok ((), update collection m)
  | .error _ => pure ()

/-- The loop over the collections of the current and the previous month. -/
def updateRecent (cfg : Config) (userShards : Nat) (userId : UserId)
    (update : String → Mongo → Mongo) : M Unit := do
  let range ← userRange cfg userShards userId
  let now ← nowSecs
  let ym := Chrono.yearMonth (now / 86400)
  Prog.each (updateIn update) [collectionName ym range, collectionName (Chrono.subMonths 1 ym) range]

def deleteMessages (cfg : Config) (userShards : Nat) (userId : UserId) (msgSeq : List Int) : M Unit :=
  if msgSeq = [] then pure ()
  else updateRecent cfg userShards userId fun coll => Mongo.deleteMany coll userId msgSeq

def msgRead (cfg : Config) (userShards : Nat) (userId : UserId) (msgSeq : List Int) : M Unit :=
  if msgSeq = [] then pure ()
  else updateRecent cfg userShards userId fun coll => Mongo.setRead coll userId msgSeq

end HybridShardedMsgBox

namespace MsgRecBox

def saveMessage (cfg : Config) (message : Msg) : M Unit :=
  match cfg.box with
  | .plain => MsgBox.saveMessage message
  | .sharded n => HybridShardedMsgBox.saveMessage cfg n message

def saveGroupMsg (cfg : Config) (message : Msg) (members : List GroupMemSeq) : M Unit :=
  match cfg.box with
  | .plain => MsgBox.saveGroupMsg message members
  | .sharded n => HybridShardedMsgBox.saveGroupMsg cfg n message members

def deleteMessage (cfg : Config) (messageId : String) : M Unit :=
  match cfg.box with
  | .plain => MsgBox.deleteMessage messageId
  | .sharded _ => HybridShardedMsgBox.deleteMessage messageId

def deleteMessages (cfg : Config) (userId : UserId) (msgSeq : List Int) : M Unit :=
  match cfg.box with
  | .plain => MsgBox.deleteMessages userId msgSeq
  | .sharded n => HybridShardedMsgBox.deleteMessages cfg n userId msgSeq

def msgRead (cfg : Config) (userId : UserId) (msgSeq : List Int) : M Unit :=
  match cfg.box with
  | .plain => MsgBox.msgRead userId msgSeq
  | .sharded n => HybridShardedMsgBox.msgRead cfg n userId msgSeq

end MsgRecBox

end Sandcat
