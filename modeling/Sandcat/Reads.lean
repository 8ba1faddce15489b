import Sandcat.Inbox
import Mathlib.Algebra.Ring.Int.Defs
import Mathlib.Data.List.Sort

/-!
# Reading the two inboxes

A query looks at the documents of one collection in the order of their insertion,
and documents that a sort does not tell apart keep that order. `MsgBox` reads its
one collection; `HybridShardedMsgBox` reads the collections of the reader's shard
for the current month and the two before it. A message reaches its reader through
`Msg::try_from`, which gives a default to a field that is not there.
-/

namespace Sandcat

open Remote

namespace Document

def getI32 (d : Document) (f : Field) : Option Int :=
  match d.get f with
  | some (.i32 i) => some i
  | _ => none

def getBool (d : Document) (f : Field) : Option Bool :=
  match d.get f with
  | some (.bool b) => some b
  | _ => none

def getBinaryGeneric (d : Document) (f : Field) : Option Bincode.Bytes :=
  match d.get f with
  | some (.bin b) => some b
  | _ => none

/-- A condition of a query on a number. -/
def holds (d : Document) (f : Field) (p : Int → Bool) : Bool := (d.getI64 f).any p

end Document

/-- `Msg::try_from(Document)`. -/
def Msg.tryFrom (d : Document) : Msg where
  clientId := (d.getStr .clientId).getD ""
  serverId := (d.getStr .serverId).getD ""
  createTime := (d.getI64 .createTime).getD 0
  sendTime := (d.getI64 .sendTime).getD 0
  contentType := (d.getI32 .contentType).getD 0
  content := (d.getBinaryGeneric .content).getD []
  senderId := (d.getStr .senderId).getD ""
  receiverId := (d.getStr .receiverId).getD ""
  seq := (d.getI64 .seq).getD 0
  sendSeq := (d.getI64 .sendSeq).getD 0
  msgType := (d.getI32 .msgType).getD 0
  isRead := (d.getBool .isRead).getD false
  groupId := (d.getStr .groupId).getD ""
  platform := (d.getI32 .platform).getD 0
  avatar := (d.getStr .avatar).getD ""
  nickname := (d.getStr .nickname).getD ""
  relatedMsgId := d.getStr .relatedMsgId

/-- What a document keeps of a message. -/
def Msg.stored (m : Msg) : Msg :=
  { m with platform := 0, avatar := "", nickname := "", relatedMsgId := none }

@[simp] theorem Msg.tryFrom_toDoc (m : Msg) : Msg.tryFrom (toDoc m) = m.stored := rfl

/-- `size_of::<Msg>()` on a 64-bit target: nine strings and vectors, four `i64`, three `i32`
and a `bool`, rounded up to the alignment. -/
def Msg.size : Nat := (9 * 24 + 4 * 8 + 3 * 4 + 1 + 7) / 8 * 8

/-- What `Vec::<Msg>::with_capacity(len as usize)` accepts, for a length computed in wrapping
64-bit arithmetic. An allocation that is accepted succeeds. -/
def capacityFits (len : Int) : Bool := decide (len % 2 ^ 64 * Msg.size ≤ 2 ^ 63 - 1)

def withCapacity (len : Int) : M Unit := if capacityFits len then pure () else Prog.raise .panic

namespace Mongo

/-- The documents of a collection that meet a condition. -/
def find (coll : String) (p : Document → Bool) (m : Mongo) : List Document :=
  ((m.docs.filter (·.1 = coll)).map Prod.snd).filter p

/-- `find_one({"server_id": id})`. -/
def findOne (coll serverId : String) (m : Mongo) : Option Document :=
  (m.find coll (·.getStr .serverId = some serverId)).head?

end Mongo

/-- The order of numbers in BSON, where a missing field comes first. -/
def bsonLe : Option Int → Option Int → Bool
  | none, _ => true
  | some _, none => false
  | some i, some j => i ≤ j

/-- The query of `get_messages`. -/
def addressedBetween (userId : UserId) (start last : Int) (d : Document) : Bool :=
  d.getStr .receiverId = some userId && d.holds .seq fun i => start ≤ i && i ≤ last

def bySeq (d e : Document) : Prop := bsonLe (d.getI64 .seq) (e.getI64 .seq) = true

instance : DecidableRel bySeq := fun _ _ => inferInstanceAs (Decidable (_ = true))

/-- The `$match` of `get_msgs`, with the comparison that a box makes with the start of a
range. -/
def matchMsgs (above : Int → Int → Bool) (userId : UserId) (sendStart sendEnd recStart recEnd : Int)
    (d : Document) : Bool :=
  (d.getStr .receiverId = some userId && d.holds .seq fun i => above recStart i && i ≤ recEnd) ||
    (d.getStr .senderId = some userId &&
      d.holds .sendSeq fun i => above sendStart i && i ≤ sendEnd)

/-- The `sort_field` of `get_msgs`. -/
def sortField (userId : UserId) (d : Document) : Option Int :=
  if d.getStr .senderId = some userId then d.getI64 .sendSeq else d.getI64 .seq

/-- The `$sort` of `get_msgs`. -/
def byTime (userId : UserId) (d e : Document) : Prop :=
  (if d.getI64 .sendTime = e.getI64 .sendTime then bsonLe (sortField userId d) (sortField userId e)
    else bsonLe (d.getI64 .sendTime) (e.getI64 .sendTime)) = true

instance (userId : UserId) : DecidableRel (byTime userId) :=
  fun _ _ => inferInstanceAs (Decidable (_ = true))

/-- The pipeline of `get_msgs` in one collection. -/
def aggregate (above : Int → Int → Bool) (userId : UserId)
    (sendStart sendEnd recStart recEnd : Int) (coll : String) (m : Mongo) : List Document :=
  (m.find coll (matchMsgs above userId sendStart sendEnd recStart recEnd)).insertionSort
    (byTime userId)

/-- A message as `get_msgs` shows it: the number of an own message is hidden. -/
def Msg.shownTo (userId : UserId) (m : Msg) : Msg := if userId = m.senderId then { m with seq := 0 } else m

/-- The number by which `get_msgs` orders messages of one instant. -/
def Msg.sortSeq (userId : UserId) (m : Msg) : Int :=
  if m.senderId = userId then m.sendSeq else m.seq

/-- The order of the messages that `get_msgs` returns. -/
def Msg.notAfter (userId : UserId) (a b : Msg) : Prop :=
  a.sendTime < b.sendTime ∨ a.sendTime = b.sendTime ∧ a.sortSeq userId ≤ b.sortSeq userId

instance (userId : UserId) : DecidableRel (Msg.notAfter userId) :=
  fun _ _ => inferInstanceAs (Decidable (_ ∨ _ ∧ _))

namespace MsgBox

def getMessage (messageId : String) : M (Option Msg) := do
  let doc ← mongoCall fun m => .ok (m.findOne Mongo.collSingleBox messageId, m)
  pure (doc.map Msg.tryFrom)

def getMessages (userId : UserId) (start last : Int) : M (List Msg) := do
  let cursor ← mongoCall fun m =>
    .ok ((m.find Mongo.collSingleBox (addressedBetween userId start last)).insertionSort bySeq, m)
  withCapacity (last - start)
  pure (cursor.map Msg.tryFrom)

/-- The range starts after its first number. -/
def getMsgs (userId : UserId) (sendStart sendEnd recStart recEnd : Int) : M (List Msg) := do
  let cursor ← mongoCall fun m => .ok (aggregate (fun start i => start < i) userId
    sendStart sendEnd recStart recEnd Mongo.collSingleBox m, m)
  withCapacity (sendEnd - sendStart + (recEnd - recStart))
  pure (cursor.map fun d => (Msg.tryFrom d).shownTo userId)

end MsgBox

namespace HybridShardedMsgBox

/-- The loop of `get_message` over the active collections. -/
def findIn (messageId : String) : List String → M (Option Msg)
  | [] => pure none
  | collName :: colls => do
    let collection ← getCollection collName
    match ← mongoCall fun m => .ok (m.findOne collection messageId, m) with
    | some doc => pure (some (Msg.tryFrom doc))
    | none => findIn messageId colls

def getMessage (messageId : String) : M (Option Msg) := do
  let activeCollections ← mongoCall fun m => .ok (m.activeCollections, m)
  findIn messageId activeCollections

/-- The collections of a user for the current month and the two before it. -/
def readCollections (cfg : Config) (userShards : Nat) (userId : UserId) : M (List String) := do
  let range ← userRange cfg userShards userId
  let now ← nowSecs
  let ym := Chrono.yearMonth (now / 86400)
  pure [collectionName ym range, collectionName (Chrono.subMonths 1 ym) range,
    collectionName (Chrono.subMonths 2 ym) range]

/-- The loop of a query over collections; one that cannot be opened is passed over. -/
def queryEach (query : String → Mongo → List Document) : List String → M (List Document)
  | [] => pure []
  | collName :: colls => do
    let found ← (do
      match ← Prog.attempt (getCollection collName) with
      | .ok collection => mongoCall fun m => .ok (query collection m, m)
      | .error _ => pure [])
    let rest ← queryEach query colls
    pure (found ++ rest)

def getMessages (cfg : Config) (userShards : Nat) (userId : UserId) (start last : Int) :
    M (List Msg) := do
  let collections ← readCollections cfg userShards userId
  withCapacity (last - start)
  let found ← queryEach (fun coll m =>
    (m.find coll (addressedBetween userId start last)).insertionSort bySeq) collections
  pure ((found.map Msg.tryFrom).insertionSort fun a b => a.seq ≤ b.seq)

/-- The range starts at its first number. -/
def getMsgs (cfg : Config) (userShards : Nat) (userId : UserId)
    (sendStart sendEnd recStart recEnd : Int) : M (List Msg) := do
  let collections ← readCollections cfg userShards userId
  withCapacity (sendEnd - sendStart + (recEnd - recStart))
  let found ← queryEach (aggregate (fun start i => start ≤ i) userId
    sendStart sendEnd recStart recEnd) collections
  pure ((found.map fun d => (Msg.tryFrom d).shownTo userId).insertionSort (Msg.notAfter userId))

end HybridShardedMsgBox

namespace MsgRecBox

def getMsgs (cfg : Config) (userId : UserId) (sendStart sendEnd recStart recEnd : Int) :
    M (List Msg) :=
  match cfg.box with
  | .plain => MsgBox.getMsgs userId sendStart sendEnd recStart recEnd
  | .sharded n => HybridShardedMsgBox.getMsgs cfg n userId sendStart sendEnd recStart recEnd

end MsgRecBox

end Sandcat
