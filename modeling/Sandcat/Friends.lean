import Sandcat.Postgres

/-!
# The tables of friends

`friendships` holds the requests, one for each ordered pair of users, and `friends` the
two rows of an accepted pair. Every operation is run by itself at a time `now`: a
transaction that is refused changes nothing, and an answer that cannot be put together
after the commit is an error or a panic over tables that have changed. The columns that no
operation reads are left out.

Some statements do not fit the migration. `update_fs` and `update_friend_status` bind a
text for a column of an enumeration, and those on the other columns of `friends` name
columns that are not there or bind a text for a number. `Leniency` says which of them the
database would take; PostgreSQL takes neither.
-/

namespace Sandcat

inductive FriendshipStatus where
  | pending | accepted | rejected | blacked | deleted | muted | hidden
  deriving DecidableEq, Repr

/-- The decoding into `FsStatus`, which has five of the seven; the others are the default. -/
def FriendshipStatus.fsStatus : FriendshipStatus → FriendshipStatus
  | .muted => .pending
  | .hidden => .pending
  | status => status

structure UserRow where
  id : UserId
  name : String
  account : String
  avatar : String
  gender : String
  age : Int
  region : Option String
  email : Option String
  signature : String
  isDelete : Bool
  deriving DecidableEq, Repr

structure FriendshipRow where
  id : String
  userId : UserId
  friendId : UserId
  status : FriendshipStatus
  applyMsg : Option String
  reqRemark : Option String
  respMsg : Option String
  respRemark : Option String
  source : String
  createTime : Int
  updateTime : Int
  deriving DecidableEq, Repr

/-- `UNIQUE (user_id, friend_id)`. -/
def FriendshipRow.pair (r : FriendshipRow) : UserId × UserId := (r.userId, r.friendId)

structure FriendRow where
  fsId : String
  userId : UserId
  friendId : UserId
  status : FriendshipStatus
  remark : Option String
  source : String
  createTime : Int
  updateTime : Int
  deriving DecidableEq, Repr

/-- `unique_user_friend`. -/
def FriendRow.pair (r : FriendRow) : UserId × UserId := (r.userId, r.friendId)

structure FriendshipWithUser where
  fsId : String
  userId : UserId
  name : String
  avatar : String
  gender : String
  age : Int
  region : Option String
  status : FriendshipStatus
  applyMsg : Option String
  source : String
  createTime : Int
  account : String
  remark : Option String
  email : Option String
  deriving DecidableEq, Repr

structure Friend where
  fsId : String
  friendId : UserId
  account : String
  name : String
  avatar : String
  gender : String
  age : Int
  region : Option String
  status : FriendshipStatus
  remark : Option String
  email : Option String
  source : String
  signature : String
  createTime : Int
  updateTime : Int
  tags : List String
  groupName : String
  privacyLevel : String
  notificationsEnabled : Bool
  lastInteraction : Int
  deriving DecidableEq, Repr

structure AgreeReply where
  fsId : String
  respMsg : Option String
  respRemark : Option String

structure FsUpdate where
  id : String
  applyMsg : String
  reqRemark : String

/-- The request with all its fields. -/
structure FriendRequest extends FsCreate where
  applyMsg : Option String
  reqRemark : Option String
  source : String

structure Leniency where
  textForStatus : Bool
  otherColumns : Bool

abbrev Friendships := UniqueTable FriendshipRow.pair FriendshipRow.id

structure FriendTables where
  users : Table UserRow.id
  friendships : Friendships
  friends : Table FriendRow.pair

namespace FriendTables

/-- `users.remove(0)` twice, with the user of the request first. -/
def takeUsers (userId : UserId) : List UserRow → Except Error (UserRow × UserRow)
  | user1 :: user2 :: _ => .ok (if user1.id = userId then (user1, user2) else (user2, user1))
  | _ => .error .panic

/-- `SELECT * FROM users WHERE id = $1 OR id = $2`. -/
def usersOf (s : FriendTables) (u v : UserId) : List UserRow :=
  s.users.rows.filter fun r => decide (r.id = u ∨ r.id = v)

/-- The row that `create_fs` inserts. -/
def requested (fsId : String) (now : Int) (fs : FriendRequest) : FriendshipRow :=
  ⟨fsId, fs.userId, fs.friendId, .pending, fs.applyMsg, fs.reqRemark, none, none, fs.source, now, now⟩

/-- What `create_fs` makes of a row that is there. -/
def renewed (now : Int) (fs : FriendRequest) (r : FriendshipRow) : FriendshipRow :=
  { r with
    applyMsg := fs.applyMsg, reqRemark := fs.reqRemark, source := fs.source,
    createTime := now, updateTime := now, status := .pending }

/-- The answers of `create_fs`: the friend as the requester sees it, and the requester as the
friend does. -/
def packRequest (fsId : String) (now : Int) (fs : FriendRequest) (users : UserRow × UserRow) :
    FriendshipWithUser × FriendshipWithUser :=
  let (user, friend) := users
  ({ fsId, userId := friend.id, name := friend.name, avatar := friend.avatar,
     gender := friend.gender, age := friend.age, region := friend.region, status := .pending,
     applyMsg := none, source := fs.source, createTime := now, account := friend.account,
     remark := fs.reqRemark, email := none },
   { fsId, userId := fs.userId, name := user.name, avatar := user.avatar, gender := user.gender,
     age := user.age, region := user.region, status := .pending, applyMsg := fs.applyMsg,
     source := fs.source, createTime := now, account := user.account, remark := none, email := none })

/-- `create_fs`; `fsId` is the identifier drawn. The users are taken apart after the commit. -/
def createFs (fsId : String) (now : Int) (fs : FriendRequest) (s : FriendTables) :
    Except Error (FriendshipWithUser × FriendshipWithUser) × FriendTables :=
  match s.friendships.upsert (requested fsId now fs) (renewed now fs) (fun _ => rfl) fun _ => rfl with
  | none => (.error uniqueViolation, s)
  | some friendships =>
    let fsId := ((friendships.find (fs.userId, fs.friendId)).map FriendshipRow.id).getD fsId
    let users := takeUsers fs.userId (s.usersOf fs.userId fs.friendId)
    (users.map (packRequest fsId now fs), { s with friendships })

/-- The update of `update_fs`. -/
def amended (now : Int) (fs : FsUpdate) (r : FriendshipRow) : FriendshipRow :=
  { r with
    status := .pending, applyMsg := some fs.applyMsg, reqRemark := some fs.reqRemark, updateTime := now }

/-- `update_fs`. -/
def updateFs (d : Leniency) (now : Int) (fs : FsUpdate) (s : FriendTables) :
    Except Error FriendshipRow × FriendTables :=
  if d.textForStatus then
    let friendships :=
      s.friendships.modify (fun r => r.id = fs.id) (amended now fs) (fun _ => rfl) fun _ => rfl
    match s.friendships.byAlt.find fs.id with
    | none => (.error rowNotFound, s)
    | some row => (.ok (amended now fs row), { s with friendships })
  else
    (.error (.mk .dbError (some "column is of type friend_request_status but expression is of type text")), s)

/-- The update of `update_friend_remark`. -/
def remarked (now : Int) (remark : String) (r : FriendRow) : FriendRow :=
  { r with remark := some remark, updateTime := now }

/-- `update_friend_remark`. The row changes, but its decoding into `FriendDb` fails: the
column `deleted_time` is null. -/
def updateFriendRemark (now : Int) (userId friendId : UserId) (remark : String) (s : FriendTables) :
    Except Error FriendRow × FriendTables :=
  let friends :=
    s.friends.modify (fun r => r.pair = (userId, friendId)) (remarked now remark) fun _ => rfl
  match s.friends.find (userId, friendId) with
  | none => (.error rowNotFound, s)
  | some _ =>
    (.error (.mk .dbError (some "error occurred while decoding column \"deleted_time\"")),
      { s with friends })

/-- The update of `update_friend_status`. -/
def restated (status : FriendshipStatus) (r : FriendshipRow) : FriendshipRow := { r with status }

/-- `update_friend_status`: the statement returns no rows, so the answer is an error. -/
def updateFriendStatus (d : Leniency) (userId friendId : UserId) (status : FriendshipStatus)
    (s : FriendTables) : Except Error FriendshipRow × FriendTables :=
  if d.textForStatus then
    let friendships :=
      s.friendships.modify (fun r => r.pair = (userId, friendId) ∨ r.pair = (friendId, userId))
        (restated status) (fun _ => rfl) fun _ => rfl
    (.error rowNotFound, { s with friendships })
  else
    (.error (.mk .dbError (some "column is of type friend_request_status but expression is of type text")), s)

/-- The two rows that `agree_friend_apply_request` inserts; the status is the default. -/
def senderRow (now : Int) (friendship : FriendshipRow) : FriendRow :=
  ⟨friendship.id, friendship.userId, friendship.friendId, .accepted, friendship.reqRemark,
    friendship.source, now, now⟩

def receiverRow (now : Int) (friendship : FriendshipRow) : FriendRow :=
  ⟨friendship.id, friendship.friendId, friendship.userId, .accepted, friendship.respRemark,
    friendship.source, now, now⟩

/-- `DO UPDATE SET remark = EXCLUDED.remark, status = 'Accepted', source = EXCLUDED.source`. -/
def revived (excluded r : FriendRow) : FriendRow :=
  { r with remark := excluded.remark, status := .accepted, source := excluded.source }

@[simp] theorem pair_revived (excluded r : FriendRow) : (revived excluded r).pair = r.pair := rfl

/-- The answer that `agree_friend_apply_request` packs for one of the two. -/
def packFriend (now : Int) (friendship : FriendshipRow) (friendId : UserId) (user : UserRow)
    (remark : Option String) : Friend where
  fsId := friendship.id
  friendId := friendId
  account := user.account
  name := user.name
  avatar := user.avatar
  gender := user.gender
  age := user.age
  region := user.region
  status := friendship.status
  remark := remark
  email := user.email
  source := friendship.source
  signature := user.signature
  createTime := friendship.updateTime
  updateTime := now
  tags := []
  groupName := "Default"
  privacyLevel := "public"
  notificationsEnabled := true
  lastInteraction := now

/-- Both answers: the requester for the one who agrees, and the other way round. -/
def packFriends (now : Int) (friendship : FriendshipRow) (users : UserRow × UserRow) : Friend × Friend :=
  (packFriend now friendship friendship.userId users.1 friendship.respRemark,
    packFriend now friendship friendship.friendId users.2 friendship.reqRemark)

/-- The update of `friendships` in `agree_friend_apply_request`. -/
def agreed (now : Int) (fs : AgreeReply) (r : FriendshipRow) : FriendshipRow :=
  { r with status := .accepted, updateTime := now, respMsg := fs.respMsg, respRemark := fs.respRemark }

/-- `agree_friend_apply_request`. The users are taken apart after the commit. -/
def agreeFriendApplyRequest (now : Int) (fs : AgreeReply) (s : FriendTables) :
    Except Error (Friend × Friend) × FriendTables :=
  match s.friendships.byAlt.find fs.fsId with
  | none => (.error rowNotFound, s)
  | some row =>
    let friendships := s.friendships.modify (fun r => r.id = fs.fsId) (agreed now fs)
      (fun _ => rfl) fun _ => rfl
    let friendship := agreed now fs row
    match s.friends.upsertAll [senderRow now friendship, receiverRow now friendship] revived
        pair_revived with
    | none =>
      (.error (.mk .dbError (some "ON CONFLICT DO UPDATE command cannot affect row a second time")), s)
    | some friends =>
      let users := takeUsers friendship.userId (s.usersOf friendship.userId friendship.friendId)
      (users.map (packFriends now friendship), { s with friendships, friends })

/-- `EXISTS (SELECT 1 FROM friends WHERE fs_id = $1 AND user_id = $3)`. -/
def takesPart (s : FriendTables) (fsId : String) (userId : UserId) : Bool :=
  s.friends.rows.any fun r => decide (r.fsId = fsId ∧ r.userId = userId)

/-- The two updates of `delete_friend`. -/
def unfriended (now : Int) (r : FriendRow) : FriendRow :=
  { r with status := .deleted, updateTime := now }

def withdrawn (now : Int) (r : FriendshipRow) : FriendshipRow :=
  { r with status := .deleted, updateTime := now }

/-- `delete_friend`: the rows of `friends` only for one of the two, the request for anyone. -/
def deleteFriend (now : Int) (fsId : String) (userId : UserId) (s : FriendTables) :
    Except Error Unit × FriendTables :=
  let friends := s.friends.modify (fun r => decide (r.fsId = fsId) && s.takesPart fsId userId)
    (unfriended now) fun _ => rfl
  let friendships :=
    s.friendships.modify (fun r => r.id = fsId) (withdrawn now) (fun _ => rfl) fun _ => rfl
  (.ok (), { s with friends, friendships })

/-- What the statements on other columns do to the columns here. -/
def touched (now : Int) (r : FriendRow) : FriendRow := { r with updateTime := now }

/-- The statements on the other columns of `friends`, for the rows that they select: groups,
tags, privacy and the score. Each sets `update_time` as well. -/
def touchFriends (d : Leniency) (now : Int) (selected : FriendRow → Bool) (s : FriendTables) :
    Except Error Unit × FriendTables :=
  let friends := s.friends.modify selected (touched now) fun _ => rfl
  if d.otherColumns then (.ok (), { s with friends })
  else (.error (.mk .dbError (some "column of relation \"friends\" does not exist")), s)

/-- `get_friend_list`. The columns it does not select are the defaults of their types. -/
def getFriendList (userId : UserId) (offlineTime : Int) (s : FriendTables) : List Friend :=
  (s.friends.rows.filter fun f => decide (f.userId = userId ∧ f.updateTime > offlineTime)).flatMap fun f =>
    (s.users.rows.filter fun u => decide (u.id = f.friendId) && !u.isDelete).map fun u =>
      { fsId := f.fsId, friendId := u.id, account := u.account, name := u.name, avatar := u.avatar,
        gender := u.gender, age := u.age, region := u.region, status := f.status.fsStatus,
        remark := f.remark, email := u.email, source := f.source, signature := u.signature,
        createTime := f.createTime, updateTime := f.updateTime, tags := [], groupName := "",
        privacyLevel := "", notificationsEnabled := false, lastInteraction := 0 }

/-- `get_fs_list`, which selects neither the account nor the status. -/
def getFsList (userId : UserId) (offlineTime : Int) (s : FriendTables) : List FriendshipWithUser :=
  (s.friendships.rows.filter fun f =>
      decide (f.friendId = userId ∧ f.updateTime > offlineTime)).flatMap fun f =>
    (s.users.rows.filter fun u => decide (f.userId = u.id)).map fun u =>
      { fsId := f.id, userId := f.userId, name := u.name, avatar := u.avatar, gender := u.gender,
        age := u.age, region := u.region, status := .pending, applyMsg := f.applyMsg,
        source := f.source, createTime := f.createTime, account := "", remark := none, email := none }

end FriendTables

/-- The operations that write, and the writes of others to `users`, which delete no row. -/
inductive FriendOp where
  | createFs (fsId : String) (fs : FriendRequest)
  | updateFs (fs : FsUpdate)
  | agreeFriendApplyRequest (fs : AgreeReply)
  | deleteFriend (fsId : String) (userId : UserId)
  | updateFriendRemark (userId friendId : UserId) (remark : String)
  | updateFriendStatus (userId friendId : UserId) (status : FriendshipStatus)
  | touchFriends (selected : FriendRow → Bool)
  | writeUser (user : UserRow)

namespace FriendTables

def empty : FriendTables := ⟨∅, ∅, ∅⟩

/-- A row of `users` written over another. -/
def overwritten (user r : UserRow) : UserRow := { user with id := r.id }

/-- The tables after an operation. -/
def step (d : Leniency) (now : Int) (s : FriendTables) : FriendOp → FriendTables
  | .createFs fsId fs => (s.createFs fsId now fs).2
  | .updateFs fs => (s.updateFs d now fs).2
  | .agreeFriendApplyRequest fs => (s.agreeFriendApplyRequest now fs).2
  | .deleteFriend fsId userId => (s.deleteFriend now fsId userId).2
  | .updateFriendRemark userId friendId remark => (s.updateFriendRemark now userId friendId remark).2
  | .updateFriendStatus userId friendId status => (s.updateFriendStatus d userId friendId status).2
  | .touchFriends selected => (s.touchFriends d now selected).2
  | .writeUser user => { s with users := s.users.upsert user (overwritten user) fun _ => rfl }

/-- The tables after operations at their times. -/
def run (d : Leniency) (s : FriendTables) (ops : List (Int × FriendOp)) : FriendTables :=
  ops.foldl (fun s p => s.step d p.1 p.2) s

/-- Every operation meets a condition on the time and the tables that it finds. -/
def Meets (d : Leniency) (ok : Int → FriendTables → FriendOp → Prop) :
    FriendTables → List (Int × FriendOp) → Prop
  | _, [] => True
  | s, p :: ops => ok p.1 s p.2 ∧ Meets d ok (s.step d p.1 p.2) ops

theorem run_append (d : Leniency) (s : FriendTables) (ops ops' : List (Int × FriendOp)) :
    s.run d (ops ++ ops') = (s.run d ops).run d ops' := List.foldl_append

theorem meets_append {d : Leniency} {ok : Int → FriendTables → FriendOp → Prop} {s : FriendTables}
    {ops ops' : List (Int × FriendOp)} :
    s.Meets d ok (ops ++ ops') ↔ s.Meets d ok ops ∧ (s.run d ops).Meets d ok ops' := by
  induction ops generalizing s with
  | nil => simp [Meets, FriendTables.run]
  | cons p ops ih =>
    rw [List.cons_append, Meets, Meets, ih, and_assoc]
    rfl

/-- What every operation that meets the condition keeps, a run keeps. -/
theorem Meets.run {d : Leniency} {ok : Int → FriendTables → FriendOp → Prop} {s : FriendTables}
    {ops : List (Int × FriendOp)} {I : FriendTables → Prop} (hmeets : s.Meets d ok ops)
    (hstep : ∀ p ∈ ops, ∀ t, I t → ok p.1 t p.2 → I (t.step d p.1 p.2)) (h : I s) :
    I (s.run d ops) := by
  induction ops generalizing s with
  | nil => exact h
  | cons p ops ih =>
    obtain ⟨hok, hmeets⟩ := hmeets
    apply ih hmeets
    · exact fun q hq => hstep q (List.mem_cons_of_mem p hq)
    · exact hstep p List.mem_cons_self s h hok

end FriendTables

end Sandcat
