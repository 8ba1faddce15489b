import Sandcat.Message
import Sandcat.Lib.Table

/-!
# The Postgres store

The tables the message path and the group operations read: `users`, `sequence`,
`groups` and `group_members`, with the columns that decide something, and the
messages handed to the history store. Each function below is one SQL statement or
one transaction of the repository; a statement that expects a row and finds none
is refused and changes nothing. `group_members` has no foreign key to `groups`.
-/

namespace Sandcat

/-- `sqlx::Error::RowNotFound` as an `Error`. -/
def rowNotFound : Error :=
  .mk .dbError (some "no rows returned by a query that expected to return at least one row")

/-- A statement refused by a primary key. -/
def uniqueViolation : Error :=
  .mk .dbError (some "duplicate key value violates unique constraint")

structure SeqRow where
  userId : UserId
  sendMaxSeq : Int
  recMaxSeq : Int
  deriving DecidableEq, Repr

inductive GroupRole where
  | owner | admin | member
  deriving DecidableEq, Repr

/-- `role::text`. -/
def GroupRole.text : GroupRole → String
  | .owner => "Owner"
  | .admin => "Admin"
  | .member => "Member"

/-- `$1::group_role`. -/
def GroupRole.ofText (s : String) : Option GroupRole :=
  if s = "Owner" then some .owner
  else if s = "Admin" then some .admin
  else if s = "Member" then some .member
  else none

structure GroupRow where
  id : GroupId
  owner : UserId
  invitePermission : GroupRole
  deriving DecidableEq, Repr

structure GroupMemberRow where
  groupId : GroupId
  userId : UserId
  role : GroupRole
  isMuted : Bool
  deriving DecidableEq, Repr

/-- `SET is_muted`. -/
def GroupMemberRow.withMuted (isMuted : Bool) (r : GroupMemberRow) : GroupMemberRow := { r with isMuted }

/-- The primary key of `group_members`. -/
def GroupMemberRow.key (r : GroupMemberRow) : GroupId × UserId := (r.groupId, r.userId)

structure Postgres where
  users : Table (id : UserId → UserId)
  sequence : Table SeqRow.userId
  groups : Table GroupRow.id
  groupMembers : Table GroupMemberRow.key
  messages : List Msg

structure GroupCreate where
  id : GroupId
  owner : UserId
  membersId : List UserId

structure FsCreate where
  userId : UserId
  friendId : UserId

/-- A row of `friendships`. -/
structure Friendship where
  userId : UserId
  friendId : UserId

structure GroupInviteNew where
  userId : UserId
  groupId : GroupId
  members : List UserId

namespace Postgres

def empty : Postgres := ⟨∅, ∅, ∅, ∅, []⟩

/-- `save_send_max_seq`. -/
def saveSendMaxSeq (seqStep : Int) (u : UserId) (pg : Postgres) : Except Error (Int × Postgres) :=
  match pg.sequence.find u with
  | none => .error rowNotFound
  | some row =>
    let sequence := pg.sequence.modify (·.userId = u)
      (fun r => { r with sendMaxSeq := r.sendMaxSeq + seqStep }) fun _ => rfl
    .ok (row.sendMaxSeq + seqStep, { pg with sequence })

/-- The update of `rec_max_seq` for the users that satisfy `p`. -/
def bumpRec (seqStep : Int) (p : UserId → Bool) (pg : Postgres) : Postgres :=
  let sequence := pg.sequence.modify (p ·.userId)
    (fun r => { r with recMaxSeq := r.recMaxSeq + seqStep }) fun _ => rfl
  { pg with sequence }

/-- `save_max_seq`. -/
def saveMaxSeq (seqStep : Int) (u : UserId) (pg : Postgres) : Except Error (Int × Postgres) :=
  match pg.sequence.find u with
  | none => .error rowNotFound
  | some row => .ok (row.recMaxSeq + seqStep, pg.bumpRec seqStep (· = u))

/-- `save_max_seq_batch`; users without a row are skipped. -/
def saveMaxSeqBatch (seqStep : Int) (us : List UserId) (pg : Postgres) : Postgres :=
  if us = [] then pg else pg.bumpRec seqStep (· ∈ us)

/-- The rows that `get_max_seq` streams. -/
def getMaxSeq (pg : Postgres) : List (UserId × Int × Int) :=
  pg.sequence.rows.map fun r => (r.userId, r.sendMaxSeq, r.recMaxSeq)

/-- `create_user`: the user and its first block in both directions, in one transaction. -/
def createUser (initMaxSeq : Int) (u : UserId) (pg : Postgres) : Except Error (Unit × Postgres) :=
  match pg.users.insert u, pg.sequence.insert ⟨u, initMaxSeq, initMaxSeq⟩ with
  | some users, some sequence => .ok ((), { pg with users, sequence })
  | _, _ => .error uniqueViolation

/-- The members of a group. -/
def membersOf (pg : Postgres) (g : GroupId) : List UserId :=
  (pg.groupMembers.rows.filter (·.groupId = g)).map (·.userId)

def roleOf (pg : Postgres) (g : GroupId) (u : UserId) : Option GroupRole :=
  (pg.groupMembers.find (g, u)).map (·.role)

/-- `create_group_with_members`: the group row and a member row for every listed user
that exists. The answer lists the members inserted; its `GroupInfo::from_row` is taken to succeed. -/
def createGroupWithMembers (group : GroupCreate) (pg : Postgres) :
    Except Error (List UserId × Postgres) :=
  match pg.groups.insert ⟨group.id, group.owner, .admin⟩ with
  | none => .error uniqueViolation
  | some groups =>
    let members := pg.users.rows.filter (· ∈ group.membersId)
    let rows := members.map fun u =>
      ⟨group.id, u, if u = group.owner then .owner else .member, false⟩
    match rows.foldlM (fun t r => t.insert r) pg.groupMembers with
    | none => .error uniqueViolation
    | some groupMembers => .ok (members, { pg with groups, groupMembers })

/-- The permission query of `invite_new_members`, which compares the roles as text. -/
def mayInvite (pg : Postgres) (g : GroupId) (u : UserId) : Bool :=
  match pg.groups.find g, pg.roleOf g u with
  | some group, some role => role.text ≤ group.invitePermission.text
  | _, _ => false

/-- The insertion of `invite_new_members`. -/
def insertMembers (g : GroupId) (members : List UserId) (pg : Postgres) : Postgres :=
  let groupMembers := (pg.users.rows.filter (· ∈ members)).foldl
    (fun t u => t.insertNew ⟨g, u, .member, false⟩) pg.groupMembers
  { pg with groupMembers }

def isAdminOrOwner (pg : Postgres) (g : GroupId) (u : UserId) : Bool :=
  pg.roleOf g u = some .admin || pg.roleOf g u = some .owner

/-- `remove_member`: nothing is deleted, and no error returned, for other operators. -/
def removeMember (g : GroupId) (u : UserId) (memIds : List UserId) (pg : Postgres) : Postgres :=
  let groupMembers :=
    pg.groupMembers.delete fun r => decide (r.userId ∈ memIds) && decide (r.groupId = g)
  if pg.isAdminOrOwner g u then { pg with groupMembers } else pg

/-- The deletion of `exit_group`. -/
def deleteMember (u : UserId) (g : GroupId) (pg : Postgres) : Postgres :=
  let groupMembers :=
    pg.groupMembers.delete fun r => decide (r.userId = u) && decide (r.groupId = g)
  { pg with groupMembers }

/-- `delete_group`: the row of `groups` only. `GroupInfo::from_row` of that row is taken to succeed. -/
def deleteGroup (g : GroupId) (owner : UserId) (pg : Postgres) : Except Error (Unit × Postgres) :=
  if pg.groups.rows.any (fun r => decide (r.id = g) && decide (r.owner = owner)) then
    .ok ((), { pg with groups := pg.groups.delete (·.id = g) })
  else .error rowNotFound

/-- `change_member_role`: the operator's role is read, then the target's is written. -/
def changeMemberRole (g : GroupId) (operator target : UserId) (newRole : String)
    (pg : Postgres) : Except Error (Unit × Postgres) :=
  match pg.roleOf g operator with
  | none => .error rowNotFound
  | some role =>
    if role.text != "Owner" && (role.text != "Admin" || newRole == "Owner") then
      .error (.mk .unAuthorized (some "Insufficient permissions for role change"))
    else
      match GroupRole.ofText newRole, pg.groupMembers.find (g, target) with
      | some r, some _ =>
        let groupMembers := pg.groupMembers.modify (fun q => decide (q.key = (g, target)))
          (fun q => { q with role := r }) fun _ => rfl
        .ok ((), { pg with groupMembers })
      | none, _ => .error (.mk .dbError (some "invalid input value for enum group_role"))
      | _, none => .error rowNotFound

/-- `SELECT role::text` of a member that has to be there. -/
def fetchRole (g : GroupId) (u : UserId) (pg : Postgres) : Except Error (GroupRole × Postgres) :=
  match pg.roleOf g u with
  | none => .error rowNotFound
  | some role => .ok (role, pg)

/-- `UPDATE group_members SET is_muted`. -/
def setMuted (g : GroupId) (u : UserId) (isMuted : Bool) (pg : Postgres) : Postgres :=
  let groupMembers := pg.groupMembers.modify (fun q => decide (q.key = (g, u)))
    (GroupMemberRow.withMuted isMuted) fun _ => rfl
  { pg with groupMembers }

/-- `update_group`: what it writes is read by no function here. `GroupInfo::from_row` is taken to succeed. -/
def updateGroup (g : GroupId) (pg : Postgres) : Except Error (GroupRow × Postgres) :=
  match pg.groups.find g with
  | none => .error rowNotFound
  | some row => .ok (row, pg)

/-- `update_group_settings`; `castRole` is the database's cast of a number to `group_role`,
which may refuse it. -/
def updateGroupSettings (castRole : Int → Option GroupRole) (g : GroupId) (invitePermission : Int)
    (pg : Postgres) : Except Error (GroupRow × Postgres) :=
  match castRole invitePermission, pg.groups.find g with
  | some role, some row =>
    let groups := pg.groups.modify (fun r => decide (r.id = g))
      (fun r => { r with invitePermission := role }) fun _ => rfl
    .ok ({ row with invitePermission := role }, { pg with groups })
  | none, _ => .error (.mk .dbError (some "cannot cast type integer to group_role"))
  | _, none => .error rowNotFound

/-- A record for a group that has to exist; no function here reads the record. -/
def insertGroupRecord (g : GroupId) (pg : Postgres) : Except Error (Unit × Postgres) :=
  match pg.groups.find g with
  | none => .error (.mk .dbError (some "insert violates foreign key constraint"))
  | some _ => .ok ((), pg)

/-- Two users looked up by their ids; `users.remove(0)` on a row that is not there panics. -/
def fetchBoth (u v : UserId) (pg : Postgres) : Except Error (Unit × Postgres) :=
  if (pg.users.rows.filter fun w => w = u ∨ w = v).length = 2 then .ok ((), pg) else .error .panic

/-- The ceilings of a user. -/
def recMax (pg : Postgres) (u : UserId) : Option Int := (pg.sequence.find u).map (·.recMaxSeq)
def sendMax (pg : Postgres) (u : UserId) : Option Int := (pg.sequence.find u).map (·.sendMaxSeq)

theorem recMax_bumpRec (pg : Postgres) (seqStep : Int) (p : UserId → Bool) (u : UserId) :
    (pg.bumpRec seqStep p).recMax u =
      (pg.recMax u).map fun n => if p u then n + seqStep else n := by
  rw [recMax, bumpRec, Table.find_modify, recMax]
  cases hf : pg.sequence.find u with
  | none => rfl
  | some row =>
    obtain ⟨-, rfl⟩ := (Table.find_eq_some _ _ _).mp hf
    cases hp : p row.userId <;> simp [hp]

@[simp] theorem sendMax_bumpRec (pg : Postgres) (seqStep : Int) (p : UserId → Bool) (u : UserId) :
    (pg.bumpRec seqStep p).sendMax u = pg.sendMax u := by
  rw [sendMax, bumpRec, Table.find_modify, sendMax]
  cases pg.sequence.find u with
  | none => rfl
  | some row => cases hp : p row.userId <;> simp [hp]

/-- With a block size that is not negative, no ceiling has fallen, and that of each user in
`p` has grown by a block. -/
def Grown (seqStep : Int) (p : UserId → Prop) (pg pg' : Postgres) : Prop :=
  0 ≤ seqStep → ∀ u n', pg'.recMax u = some n' →
    ∃ n, pg.recMax u = some n ∧ n ≤ n' ∧ (p u → n + seqStep ≤ n')

theorem Grown.refl (seqStep : Int) (pg : Postgres) : Grown seqStep (fun _ => False) pg pg :=
  fun _ _ n' h => ⟨n', h, Int.le_refl _, False.elim⟩

theorem Grown.mono {seqStep : Int} {p q : UserId → Prop} {pg pg' : Postgres}
    (h : Grown seqStep p pg pg') (hq : ∀ u, q u → p u) : Grown seqStep q pg pg' := by
  intro hstep u n' hn'
  obtain ⟨n, hn, hle, hp⟩ := h hstep u n' hn'
  exact ⟨n, hn, hle, fun hu => hp (hq u hu)⟩

theorem Grown.trans {seqStep : Int} {p q : UserId → Prop} {pg pg' pg'' : Postgres}
    (h : Grown seqStep p pg pg') (h' : Grown seqStep q pg' pg'') :
    Grown seqStep (fun u => p u ∨ q u) pg pg'' := by
  intro hstep u n'' hn''
  obtain ⟨n', hn', hle', hq⟩ := h' hstep u n'' hn''
  obtain ⟨n, hn, hle, hp⟩ := h hstep u n' hn'
  refine ⟨n, hn, by omega, ?_⟩
  rintro (hu | hu)
  · have := hp hu
    omega
  · have := hq hu
    omega

theorem grown_bumpRec {seqStep : Int} (p : UserId → Bool) (pg : Postgres) :
    Grown seqStep (fun u => p u = true) pg (pg.bumpRec seqStep p) := by
  intro hstep u n' h
  rw [recMax_bumpRec, Option.map_eq_some_iff] at h
  obtain ⟨n, hn, rfl⟩ := h
  refine ⟨n, hn, ?_, ?_⟩
  · split <;> omega
  · intro hp
    simp [hp]

theorem grown_saveMaxSeqBatch {seqStep : Int} (us : List UserId) (pg : Postgres) :
    Grown seqStep (· ∈ us) pg (pg.saveMaxSeqBatch seqStep us) := by
  unfold saveMaxSeqBatch
  split
  · rename_i h
    exact (Grown.refl _ _).mono fun u hu => by simp [h] at hu
  · exact (grown_bumpRec _ pg).mono fun u hu => by simpa using hu

theorem mem_membersOf (pg : Postgres) (g : GroupId) (u : UserId) :
    u ∈ pg.membersOf g ↔ ∃ r ∈ pg.groupMembers.rows, r.key = (g, u) := by
  simp only [membersOf, List.mem_map, List.mem_filter, decide_eq_true_eq, GroupMemberRow.key,
    Prod.mk.injEq]
  constructor
  · rintro ⟨r, ⟨hr, hg⟩, hu⟩
    exact ⟨r, hr, hg, hu⟩
  · rintro ⟨r, hr, hg, hu⟩
    exact ⟨r, ⟨hr, hg⟩, hu⟩

/-- The keys of new member rows. -/
theorem exists_key_map (g : GroupId) (role : UserId → GroupRole) (us : List UserId) (h : GroupId)
    (u : UserId) : (∃ r ∈ us.map fun u => (⟨g, u, role u, false⟩ : GroupMemberRow), r.key = (h, u)) ↔
      h = g ∧ u ∈ us := by
  constructor
  · rintro ⟨r, hr, hk⟩
    obtain ⟨v, hv, rfl⟩ := List.mem_map.mp hr
    cases hk
    exact ⟨rfl, hv⟩
  · rintro ⟨rfl, hu⟩
    exact ⟨_, List.mem_map_of_mem hu, rfl⟩

theorem mem_createGroupWithMembers {group : GroupCreate} {pg pg' : Postgres} {members : List UserId}
    (h : pg.createGroupWithMembers group = .ok (members, pg')) :
    pg'.users = pg.users ∧ ∀ g u, u ∈ pg'.membersOf g ↔
      u ∈ pg.membersOf g ∨ g = group.id ∧ u ∈ members := by
  unfold createGroupWithMembers at h
  cases hg : pg.groups.insert ⟨group.id, group.owner, .admin⟩ with
  | none => rw [hg] at h; cases h
  | some groups =>
    rw [hg] at h
    dsimp only at h
    split at h
    · cases h
    · rename_i t ht
      cases h
      refine ⟨rfl, ?_⟩
      intro g u
      rw [mem_membersOf, mem_membersOf, Table.rows_foldlM_insert ht]
      simp only [List.mem_append, or_and_right, exists_or]
      rw [exists_key_map group.id fun u => if u = group.owner then .owner else .member]

theorem mem_insertMembers (g : GroupId) (members : List UserId) (pg : Postgres) (h : GroupId)
    (u : UserId) : u ∈ (pg.insertMembers g members).membersOf h ↔
      u ∈ pg.membersOf h ∨ h = g ∧ u ∈ pg.users.rows ∧ u ∈ members := by
  have hfold : (pg.insertMembers g members).groupMembers =
      ((pg.users.rows.filter (· ∈ members)).map fun u => (⟨g, u, .member, false⟩ : GroupMemberRow)).foldl
        (fun t r => t.insertNew r) pg.groupMembers := by
    rw [List.foldl_map]
    rfl
  rw [mem_membersOf, hfold, Table.mem_foldl_insertNew, ← mem_membersOf,
    exists_key_map g fun _ => .member, List.mem_filter, decide_eq_true_eq]

theorem mem_removeMember (g : GroupId) (operator : UserId) (memIds : List UserId) (pg : Postgres)
    (h : GroupId) (u : UserId) : u ∈ (pg.removeMember g operator memIds).membersOf h ↔
      u ∈ pg.membersOf h ∧ ¬ (pg.isAdminOrOwner g operator = true ∧ h = g ∧ u ∈ memIds) := by
  unfold removeMember
  split
  · rename_i hop
    rw [mem_membersOf, mem_membersOf]
    simp only [Table.mem_delete, GroupMemberRow.key, Prod.mk.injEq]
    constructor
    · rintro ⟨r, ⟨hr, hp⟩, rfl, rfl⟩
      refine ⟨⟨r, hr, rfl, rfl⟩, ?_⟩
      rintro ⟨-, hg, hu⟩
      simp [hg, hu] at hp
    · rintro ⟨⟨r, hr, rfl, rfl⟩, hn⟩
      refine ⟨r, ⟨hr, ?_⟩, rfl, rfl⟩
      simp only [Bool.and_eq_false_imp, decide_eq_true_eq, decide_eq_false_iff_not]
      exact fun hu hg => hn ⟨hop, hg, hu⟩
  · rename_i hop
    simp [hop]

theorem mem_deleteMember (v : UserId) (g : GroupId) (pg : Postgres) (h : GroupId) (u : UserId) :
    u ∈ (pg.deleteMember v g).membersOf h ↔ u ∈ pg.membersOf h ∧ ¬ (h = g ∧ u = v) := by
  rw [mem_membersOf, mem_membersOf]
  simp only [deleteMember, Table.mem_delete, GroupMemberRow.key, Prod.mk.injEq]
  constructor
  · rintro ⟨r, ⟨hr, hp⟩, rfl, rfl⟩
    refine ⟨⟨r, hr, rfl, rfl⟩, ?_⟩
    rintro ⟨hg, hu⟩
    simp [hg, hu] at hp
  · rintro ⟨⟨r, hr, rfl, rfl⟩, hn⟩
    refine ⟨r, ⟨hr, ?_⟩, rfl, rfl⟩
    simp only [Bool.and_eq_false_imp, decide_eq_true_eq, decide_eq_false_iff_not]
    exact fun hu hg => hn ⟨hg, hu⟩

/-- The primary key makes the members of a group distinct. -/
theorem nodup_membersOf (pg : Postgres) (g : GroupId) : (pg.membersOf g).Nodup := by
  apply List.Nodup.map_on
  · intro a ha b hb h
    simp only [List.mem_filter, decide_eq_true_eq] at ha hb
    apply pg.groupMembers.row_unique ha.1 hb.1
    rw [GroupMemberRow.key, GroupMemberRow.key, ha.2, hb.2, h]
  · exact (List.Nodup.of_map _ pg.groupMembers.nodup).filter _

end Postgres

end Sandcat
