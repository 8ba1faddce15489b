import Sandcat.Message
import Sandcat.Chrono

/-!
# Inbox documents and the collections that hold them

A document is the list of typed fields that `to_doc` writes. A database is the
list of its documents, each with the name of its collection, and the indexes that
exist. Only a collection that carries the unique index on `(server_id,
receiver_id)` refuses an insertion.
-/

namespace Sandcat

open Bincode (Bytes)

inductive Field where
  | clientId | serverId | createTime | sendTime | contentType | content | senderId | receiverId
  | seq | sendSeq | msgType | isRead | groupId | platform | avatar | nickname | relatedMsgId
  deriving DecidableEq, Repr

inductive Bson where
  | str (s : String)
  | i64 (i : Int)
  | i32 (i : Int)
  | bin (b : Bytes)
  | bool (b : Bool)
  deriving DecidableEq

abbrev Document := List (Field × Bson)

namespace Document

def get (d : Document) (f : Field) : Option Bson := (d.find? (·.1 = f)).map Prod.snd

/-- `$set` on one field. -/
def set (d : Document) (f : Field) (v : Bson) : Document :=
  d.map fun p => if p.1 = f then (f, v) else p

def getStr (d : Document) (f : Field) : Option String :=
  match d.get f with
  | some (.str s) => some s
  | _ => none

def getI64 (d : Document) (f : Field) : Option Int :=
  match d.get f with
  | some (.i64 i) => some i
  | _ => none

end Document

/-- `to_doc`. -/
def toDoc (m : Msg) : Document :=
  [(.clientId, .str m.clientId), (.serverId, .str m.serverId), (.createTime, .i64 m.createTime),
    (.sendTime, .i64 m.sendTime), (.contentType, .i32 m.contentType), (.content, .bin m.content),
    (.senderId, .str m.senderId), (.receiverId, .str m.receiverId), (.seq, .i64 m.seq),
    (.sendSeq, .i64 m.sendSeq), (.msgType, .i32 m.msgType), (.isRead, .bool m.isRead),
    (.groupId, .str m.groupId)]

@[simp] theorem toDoc_serverId (m : Msg) : (toDoc m).getStr .serverId = some m.serverId := rfl
@[simp] theorem toDoc_senderId (m : Msg) : (toDoc m).getStr .senderId = some m.senderId := rfl
@[simp] theorem toDoc_receiverId (m : Msg) : (toDoc m).getStr .receiverId = some m.receiverId := rfl
@[simp] theorem toDoc_seq (m : Msg) : (toDoc m).getI64 .seq = some m.seq := rfl
@[simp] theorem toDoc_sendSeq (m : Msg) : (toDoc m).getI64 .sendSeq = some m.sendSeq := rfl

/-- The four indexes of a sharded collection. Only the last one is unique. -/
inductive Index where
  | receiverSeq | sendTime | senderSendSeq | serverReceiver
  deriving DecidableEq, Repr

structure Mongo where
  docs : List (String × Document)
  indexes : List (String × Index)
  collectionCache : List String
  activeCollections : List String

/-- Which inbox the configuration selects, with `user_shards` as stored in a `u8`. -/
inductive Box where
  | plain
  | sharded (userShards : Nat)
  deriving DecidableEq, Repr

namespace Mongo

def empty : Mongo := ⟨[], [], [], []⟩

def collSingleBox : String := "single_msg_box"

def duplicateKey : Error := .mk .mongoDbOperateError (some "E11000 duplicate key error collection")

/-- The key of the unique index. -/
def uniqueKey (d : Document) : Option String × Option String :=
  (d.getStr .serverId, d.getStr .receiverId)

def insertOne (coll : String) (d : Document) (m : Mongo) : Except Error (Unit × Mongo) :=
  if (coll, Index.serverReceiver) ∈ m.indexes ∧
      ∃ p ∈ m.docs, p.1 = coll ∧ uniqueKey p.2 = uniqueKey d then .error duplicateKey
  else .ok ((), { m with docs := m.docs ++ [(coll, d)] })

/-- `delete_one({"server_id": id})` in one collection, with the deleted count. -/
def deleteOne (coll : String) (serverId : String) (m : Mongo) : Nat × Mongo :=
  let p : String × Document → Bool := fun q => q.1 = coll ∧ q.2.getStr .serverId = some serverId
  if m.docs.any p then (1, { m with docs := m.docs.eraseP p }) else (0, m)

/-- The query of `msg_read` and `delete_messages` in one collection. -/
def addressed (coll : String) (userId : UserId) (msgSeq : List Int) (q : String × Document) : Bool :=
  q.1 = coll ∧ q.2.getStr .receiverId = some userId ∧ q.2.getI64 .seq ∈ msgSeq.map some

/-- `update_many` of `msg_read`. -/
def setRead (coll : String) (userId : UserId) (msgSeq : List Int) (m : Mongo) : Mongo :=
  let docs := m.docs.map fun q =>
    if addressed coll userId msgSeq q then (q.1, q.2.set .isRead (.bool true)) else q
  { m with docs }

/-- `delete_many` of `delete_messages`. -/
def deleteMany (coll : String) (userId : UserId) (msgSeq : List Int) (m : Mongo) : Mongo :=
  { m with docs := m.docs.filter fun q => !addressed coll userId msgSeq q }

/-- `create_index`; the unique index cannot be built over documents that violate it. -/
def createIndex (coll : String) (i : Index) (m : Mongo) : Except Error (Unit × Mongo) :=
  if i = .serverReceiver ∧ ¬ ((m.docs.filter (·.1 = coll)).map (uniqueKey ·.2)).Nodup then
    .error duplicateKey
  else .ok ((), { m with indexes := (coll, i) :: m.indexes })

end Mongo

/-- The collection of a year and month and a shard. -/
def collectionName (ym : Int × Int) (userRange : Nat) : String :=
  "msg_box_" ++ Chrono.formatYearMonth ym ++ "_" ++ toString userRange

/-- `get_collection_name` at the instant `now`. -/
def getCollectionName (now timestamp : Int) (userRange : Nat) : String :=
  collectionName ((Chrono.fromTimestamp timestamp).getD (Chrono.yearMonth (now / 86400))) userRange

/-- `get_user_range` for a given string hash; `none` is the division by zero. -/
def getUserRange (hash : String → Nat) (userShards : Nat) (userId : UserId) : Option Nat :=
  if userShards = 0 then none else some (hash userId % userShards % 256)

end Sandcat
