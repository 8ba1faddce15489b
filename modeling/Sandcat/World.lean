import Sandcat.Lib.Remote
import Sandcat.Redis
import Sandcat.Postgres
import Sandcat.Mongo
import Sandcat.Hub

/-!
# The services a process calls

Redis, Postgres, MongoDB, the queue and the gateways form one shared state. A
method of `Cache`, `DbRepo` or the inbox is a program of atomic calls on it. The
log of script calls is an observer: no call reads it.
-/

namespace Sandcat

open Remote

abbrev Addr := Nat

/-- One script run: the record then being handled, the numbers given out under the
keys of their counters, and the counters afterwards. -/
structure ScriptCall where
  record : Nat
  handed : List (String × Int)
  after : String → SeqHash

/-- `now` is the clock in milliseconds; `handled` and `scripts` belong to the observer. -/
structure World where
  redis : Redis
  pg : Postgres
  mongo : Mongo
  gateways : Addr → Option Hub
  wsRpcList : List Addr
  serviceCenter : List (Option Addr)
  deliveries : List (Addr × Client × Msg)
  queue : List Payload
  now : Int
  handled : Nat
  scripts : List ScriptCall

/-- What the components read from the configuration, and the hasher of the standard
library that places a user in a shard. -/
structure Config where
  seqStep : Int
  box : Box
  hash : String → Nat

abbrev M := Prog World Error

variable {α : Type}

namespace World

def empty : World :=
  ⟨.empty, .empty, .empty, fun _ => none, [], [], [], [], 0, 0, []⟩

/-- A script has run: the counters change and the observer sees it. -/
def script (w : World) (handed : List (String × Int)) (hashes : String → SeqHash) : World :=
  let redis := { w.redis with hashes }
  { w with redis, scripts := w.scripts ++ [⟨w.handled, handed, hashes⟩] }

/-- The numbers given out under a key, each with its record, in the order of the scripts. -/
def numbered (w : World) (key : String) : List (Nat × Int) :=
  w.scripts.flatMap fun c => (c.handed.filter (·.1 = key)).map fun p => (c.record, p.2)

/-- The numbers given out under a key. -/
def handed (w : World) (key : String) : List Int := (w.numbered key).map Prod.snd

end World

/-- A command that Redis carries out. -/
def redisCall (g : Redis → α × Redis) : M α :=
  Prog.update fun w =>
    let (a, redis) := g w.redis
    (a, { w with redis })

/-- A statement that Postgres carries out or refuses. -/
def pgCall (g : Postgres → Except Error (α × Postgres)) : M α :=
  Prog.request fun w => (g w.pg).map fun (a, pg) => (a, { w with pg })

/-- A statement of the database leaves the rest alone. -/
theorem frame_pgCall {γ : Type} {f : World → γ} (hf : ∀ (w : World) pg, f { w with pg } = f w)
    (g : Postgres → Except Error (α × Postgres)) : Prog.Frame f (pgCall g) := by
  apply Prog.frame_request
  intro w a t h
  obtain ⟨p, -, hp⟩ := eq_ok_of_map h
  cases hp
  exact hf w p.2

/-- An operation that MongoDB, or the process's view of it, carries out or refuses. -/
def mongoCall (g : Mongo → Except Error (α × Mongo)) : M α :=
  Prog.request fun w => (g w.mongo).map fun (a, mongo) => (a, { w with mongo })

/-- `Utc::now().timestamp_millis()`. -/
def nowMillis : M Int := Prog.update fun w => (w.now, w)

/-- `Utc::now().timestamp()`. -/
def nowSecs : M Int := Prog.update fun w => (w.now / 1000, w)

namespace Cache

def checkSeqLoaded : M Bool := redisCall fun r => (r.checkSeqLoaded, r)

def setSeqLoaded : M Unit := redisCall fun r => ((), r.setSeqLoaded)

def setSeq (maxSeq : List (UserId × Int × Int)) : M Unit := redisCall fun r => ((), r.setSeq maxSeq)

def getSendSeq (userId : UserId) : M (Int × Int) := redisCall fun r => (r.getSendSeq userId, r)

/-- `EVALSHA` of the single script. -/
def evalSingle (cfg : Config) (key : String) : M (Int × Int × Bool) :=
  Prog.update fun w =>
    let (h, reply) := singleScript cfg.seqStep (w.redis.hashes key)
    (reply, w.script [(key, reply.1)] (Function.update w.redis.hashes key h))

def increaseSeq (cfg : Config) (userId : UserId) : M (Int × Int × Bool) :=
  evalSingle cfg (seqKey userId)

def incrSendSeq (cfg : Config) (userId : UserId) : M (Int × Int × Bool) :=
  evalSingle cfg (sendSeqKey userId)

/-- `EVALSHA` of the group script. -/
def evalGroup (cfg : Config) (members : List UserId) : M (List Value) :=
  Prog.update fun w =>
    let (response, hashes) := groupScript cfg.seqStep members w.redis.hashes
    (response, w.script ((members.map seqKey).zip (response.map Value.curSeq)) hashes)

def incrGroupSeq (cfg : Config) (members : List UserId) : M (List GroupMemSeq) := do
  let response ← evalGroup cfg members
  match collectSeq members response with
  | some seq => pure seq
  | none => Prog.raise .panic

def queryGroupMembersId (groupId : GroupId) : M (List UserId) :=
  redisCall fun r => ((r.members groupId).elems, r)

/-- The commands of the pipeline reach the server one by one. -/
def saveGroupMembersId (groupId : GroupId) (membersId : List UserId) : M Unit :=
  Prog.each (fun v => redisCall fun r => ((), r.setMembers groupId ((r.members groupId).sadd v)))
    membersId

def removeGroupMemberId (groupId : GroupId) (memberId : UserId) : M Unit :=
  redisCall fun r => ((), r.setMembers groupId ((r.members groupId).srem [memberId]))

/-- `SREM` needs a member to remove. -/
def removeGroupMemberBatch (groupId : GroupId) (memberId : List UserId) : M Unit :=
  if memberId = [] then
    Prog.raise (.mk .redisError (some "wrong number of arguments for 'srem' command"))
  else redisCall fun r => ((), r.setMembers groupId ((r.members groupId).srem memberId))

def delGroupMembers (groupId : GroupId) : M Unit :=
  redisCall fun r => ((), r.setMembers groupId ∅)

end Cache

namespace Db

def saveMaxSeq (cfg : Config) (userId : UserId) : M Int :=
  pgCall (Postgres.saveMaxSeq cfg.seqStep userId)

def saveMaxSeqBatch (cfg : Config) (userIds : List UserId) : M Unit :=
  pgCall fun pg => .ok ((), pg.saveMaxSeqBatch cfg.seqStep userIds)

def getMaxSeq : M (List (UserId × Int × Int)) := pgCall fun pg => .ok (pg.getMaxSeq, pg)

def createUser (cfg : Config) (id : UserId) : M Unit := pgCall (Postgres.createUser cfg.seqStep id)

def queryGroupMembersId (groupId : GroupId) : M (List UserId) :=
  pgCall fun pg => .ok (pg.membersOf groupId, pg)

def createGroupWithMembers (group : GroupCreate) : M (List UserId) :=
  pgCall (Postgres.createGroupWithMembers group)

/-- The permission is checked in a statement of its own. -/
def inviteNewMembers (group : GroupInviteNew) : M Unit := do
  let userHasPermission ← pgCall fun pg => .ok (pg.mayInvite group.groupId group.userId, pg)
  if !userHasPermission then
    Prog.raise (.mk .unAuthorized (some "user doesn't have permission to invite"))
  else pgCall fun pg => .ok ((), pg.insertMembers group.groupId group.members)

def removeMember (groupId : GroupId) (userId : UserId) (memIds : List UserId) : M Unit :=
  pgCall fun pg => .ok ((), pg.removeMember groupId userId memIds)

/-- The owner is turned away by a statement of its own. -/
def exitGroup (userId : UserId) (groupId : GroupId) : M Unit := do
  let isOwner ← pgCall fun pg => .ok (decide (pg.roleOf groupId userId = some .owner), pg)
  if isOwner then
    Prog.raise (.mk .unAuthorized (some "Owner cannot exit group. Transfer ownership first"))
  else pgCall fun pg => .ok ((), pg.deleteMember userId groupId)

def deleteGroup (groupId : GroupId) (owner : UserId) : M Unit :=
  pgCall (Postgres.deleteGroup groupId owner)

def changeMemberRole (groupId : GroupId) (userId targetId : UserId) (newRole : String) : M Unit :=
  pgCall (Postgres.changeMemberRole groupId userId targetId newRole)

/-- The statement on the records of mutes, which no function here reads. -/
def writeMuteRecord : M Unit := pgCall fun pg => .ok ((), pg)

/-- The roles are compared as text. -/
def muteGroupMember (groupId : GroupId) (userId operatorId : UserId) : M Unit := do
  let hasPermission ← pgCall fun pg => .ok (pg.isAdminOrOwner groupId operatorId, pg)
  if !hasPermission then Prog.raise (.mk .unAuthorized (some "No permission to mute members"))
  else do
    let targetRole ← pgCall (Postgres.fetchRole groupId userId)
    let operatorRole ← pgCall (Postgres.fetchRole groupId operatorId)
    if targetRole.text ≤ operatorRole.text ∧ targetRole.text ≠ "Member" then
      Prog.raise (.mk .unAuthorized (some "Cannot mute higher or equal role"))
    else do
      writeMuteRecord
      pgCall fun pg => .ok ((), pg.setMuted groupId userId true)

def unmuteGroupMember (groupId : GroupId) (userId operatorId : UserId) : M Unit := do
  let hasPermission ← pgCall fun pg => .ok (pg.isAdminOrOwner groupId operatorId, pg)
  if !hasPermission then Prog.raise (.mk .unAuthorized (some "No permission to unmute members"))
  else do
    writeMuteRecord
    pgCall fun pg => .ok ((), pg.setMuted groupId userId false)

def updateGroup (groupId : GroupId) : M GroupRow := pgCall (Postgres.updateGroup groupId)

def updateGroupSettings (castRole : Int → Option GroupRole) (groupId : GroupId)
    (invitePermission : Int) : M GroupRow :=
  pgCall (Postgres.updateGroupSettings castRole groupId invitePermission)

def uploadGroupFile (groupId : GroupId) : M Unit := pgCall (Postgres.insertGroupRecord groupId)

def createPoll (groupId : GroupId) : M Unit := pgCall (Postgres.insertGroupRecord groupId)

def createAnnouncement (groupId : GroupId) (creatorId : UserId) : M Unit := do
  let hasPermission ← pgCall fun pg => .ok (pg.isAdminOrOwner groupId creatorId, pg)
  if !hasPermission then
    Prog.raise (.mk .unAuthorized (some "No permission to create announcements"))
  else pgCall (Postgres.insertGroupRecord groupId)

/-- The request and the notification carry the ids of the friend and of the user. -/
def createFs (fs : FsCreate) : M (UserId × UserId) := do
  pgCall (Postgres.fetchBoth fs.userId fs.friendId)
  pure (fs.friendId, fs.userId)

/-- The row that the update finds in `friendships`, if any, decides whom the two answers name. -/
def agreeFriendApplyRequest (friendship : Option Friendship) : M (UserId × UserId) :=
  match friendship with
  | none => Prog.raise rowNotFound
  | some row => do
    pgCall (Postgres.fetchBoth row.userId row.friendId)
    pure (row.userId, row.friendId)

/-- The history store is handed the message and answers with an error: its statement
names ten columns and eleven values. -/
def saveMessage (message : Msg) : M Unit := do
  pgCall fun pg => .ok ((), { pg with messages := pg.messages ++ [message] })
  Prog.raise (.mk .dbError (some "INSERT has more expressions than target columns"))

end Db

end Sandcat
