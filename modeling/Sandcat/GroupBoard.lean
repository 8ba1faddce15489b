import Sandcat.Muting
import Sandcat.Lib.Runs

/-!
# The files and the announcements of groups

A group has files, which anybody can add, and announcements, which its owner and its admins can add. Both
are deleted by the owner, by the admins and by whoever added them and is a member. The check and the write
of a call are two statements, between which other calls run; what belongs to a group goes with it.
-/

namespace Sandcat

open Runs

/-- A row of `group_files`, where the author is `uploader_id` and the time `upload_time`, or of
`group_announcements`, where they are `creator_id` and `created_at`. -/
structure Post (π : Type) where
  id : String
  groupId : GroupId
  authorId : UserId
  time : Int
  isPinned : Bool
  body : π
  deriving DecidableEq

/-- The other columns of `group_files`. -/
structure FileBody where
  fileName : String
  fileUrl : String
  fileSize : Int
  fileType : String
  downloadCount : Int
  thumbnailUrl : String
  deriving DecidableEq

abbrev GroupFile := Post FileBody

/-- The body is the `content`. -/
abbrev GroupAnnouncement := Post String

structure GroupFileUploadRequest where
  groupId : GroupId
  uploaderId : UserId
  fileName : String
  fileUrl : String
  fileSize : Int
  fileType : String

structure CreateAnnouncementRequest where
  groupId : GroupId
  creatorId : UserId
  content : String
  isPinned : Bool

/-- A post to be, without its id and its time. -/
structure Draft (π : Type) where
  groupId : GroupId
  authorId : UserId
  isPinned : Bool
  body : π
  deriving DecidableEq

namespace Draft

variable {π : Type}

def post (d : Draft π) (id : String) (time : Int) : Post π :=
  ⟨id, d.groupId, d.authorId, time, d.isPinned, d.body⟩

end Draft

/-- With the defaults of the columns that the insertion leaves out. -/
def GroupFileUploadRequest.draft (req : GroupFileUploadRequest) : Draft FileBody :=
  ⟨req.groupId, req.uploaderId, false, req.fileName, req.fileUrl, req.fileSize, req.fileType, 0, ""⟩

def CreateAnnouncementRequest.draft (req : CreateAnnouncementRequest) : Draft String :=
  ⟨req.groupId, req.creatorId, req.isPinned, req.content⟩

namespace Post

variable {π : Type}

def withPin (isPinned : Bool) (p : Post π) : Post π := { p with isPinned }

/-- What of a post does not change. -/
def lasting (p : Post π) : Post π := p.withPin false

@[simp] theorem lasting_withPin (isPinned : Bool) (p : Post π) :
    (p.withPin isPinned).lasting = p.lasting := rfl

/-- `ORDER BY upload_time DESC`. -/
def latestFirst (p q : Post π) : Bool := q.time ≤ p.time

/-- `ORDER BY is_pinned DESC, created_at DESC`. -/
def pinnedFirst (p q : Post π) : Bool :=
  p.isPinned && !q.isPinned || p.isPinned == q.isPinned && q.time ≤ p.time

theorem id_of_lasting {p q : Post π} (h : p.lasting = q.lasting) : p.id = q.id := by
  change p.lasting.id = q.lasting.id
  rw [h]

theorem groupId_of_lasting {p q : Post π} (h : p.lasting = q.lasting) : p.groupId = q.groupId := by
  change p.lasting.groupId = q.lasting.groupId
  rw [h]

theorem authorId_of_lasting {p q : Post π} (h : p.lasting = q.lasting) : p.authorId = q.authorId := by
  change p.lasting.authorId = q.lasting.authorId
  rw [h]

end Post

/-- The tables of the groups and one of the two tables of posts, with its foreign key. -/
structure Board (π : Type) where
  pg : Postgres
  posts : Table (Post.id : Post π → String)
  inGroup : ∀ p ∈ posts.rows, (pg.groups.find p.groupId).isSome = true

namespace Board

variable {π : Type}

/-- Whatever else is done to the groups and their members, with the cascade of the foreign key. -/
def changePg (pg : Postgres) (b : Board π) : Board π where
  pg
  posts := b.posts.delete fun p => (pg.groups.find p.groupId).isNone
  inGroup p hp := by simpa using (Table.mem_delete _ _ _).mp hp |>.2

def insertPost (post : Post π) (b : Board π) : Except Error (Post π × Board π) :=
  match hinsert : b.posts.insert post with
  | none => .error uniqueViolation
  | some posts =>
    if h : (b.pg.groups.find post.groupId).isSome then
      .ok (post, ⟨b.pg, posts, fun p hp => by
        rw [(Table.insert_eq_some hinsert).2, List.mem_append, List.mem_singleton] at hp
        obtain hp | rfl := hp
        · exact b.inGroup p hp
        · exact h⟩)
    else .error foreignKeyViolation

/-- The query of `delete_group_file` and of `delete_announcement`. -/
def mayDelete (id : String) (userId : UserId) (b : Board π) : Bool :=
  match b.posts.find id with
  | none => false
  | some post => match b.pg.roleOf post.groupId userId with
    | none => false
    | some role => role == .owner || role == .admin || post.authorId == userId

def deletePost (id : String) (b : Board π) : Board π where
  pg := b.pg
  posts := b.posts.delete (·.id = id)
  inGroup p hp := b.inGroup p ((Table.mem_delete _ _ _).mp hp).1

def setPinned (id : String) (isPinned : Bool) (b : Board π) : Except Error (Post π × Board π) :=
  match b.posts.find id with
  | none => .error rowNotFound
  | some post => .ok (post.withPin isPinned, {
      pg := b.pg
      posts := b.posts.modify (·.id = id) (Post.withPin isPinned) fun _ => rfl
      inGroup := fun p hp => by
        obtain ⟨q, hq, rfl⟩ := List.mem_map.mp hp
        split <;> exact b.inGroup q hq })

def deleteBy (details id : String) (userId : UserId) (b : Board π) : Except Error (Board π) :=
  if !b.mayDelete id userId then .error (.mk .unAuthorized (some details)) else .ok (b.deletePost id)

def uploadGroupFile (id : String) (now : Int) (req : GroupFileUploadRequest) (b : Board FileBody) :
    Except Error (GroupFile × Board FileBody) :=
  b.insertPost (req.draft.post id now)

def deleteGroupFile (fileId : String) (userId : UserId) (b : Board FileBody) :
    Except Error (Board FileBody) :=
  b.deleteBy "No permission to delete this file" fileId userId

def getGroupFiles (groupId : GroupId) (b : Board FileBody) : List GroupFile :=
  (b.posts.rows.filter (·.groupId = groupId)).mergeSort Post.latestFirst

def updateFilePinStatus (fileId : String) (isPinned : Bool) (b : Board FileBody) :
    Except Error (GroupFile × Board FileBody) := b.setPinned fileId isPinned

def createAnnouncement (id : String) (now : Int) (req : CreateAnnouncementRequest) (b : Board String) :
    Except Error (GroupAnnouncement × Board String) :=
  if !b.pg.isAdminOrOwner req.groupId req.creatorId then
    .error (.mk .unAuthorized (some "No permission to create announcements"))
  else b.insertPost (req.draft.post id now)

def deleteAnnouncement (id : String) (userId : UserId) (b : Board String) : Except Error (Board String) :=
  b.deleteBy "No permission to delete this announcement" id userId

def getGroupAnnouncements (groupId : GroupId) (b : Board String) : List GroupAnnouncement :=
  (b.posts.rows.filter (·.groupId = groupId)).mergeSort Post.pinnedFirst

def pinAnnouncement (id : String) (isPinned : Bool) (b : Board String) :
    Except Error (GroupAnnouncement × Board String) := b.setPinned id isPinned

end Board

/-- What a call is about to do when its check has passed. A call that adds a file has no check. -/
inductive BoardStage (π : Type) where
  | idle
  | posting (draft : Draft π)
  | deleting (id : String)

/-- The statements of the calls; `others` is any transaction of the other functions, and `giveUp` the
failure of a call between its statements. -/
inductive BoardOp (ι π : Type) where
  | others (pg : Postgres)
  | checkPost (i : ι) (draft : Draft π)
  | insertPost (i : ι) (id : String) (time : Int)
  | checkDelete (i : ι) (id : String) (userId : UserId)
  | deletePost (i : ι)
  | setPinned (id : String) (isPinned : Bool)
  | giveUp (i : ι)

/-- The id that a statement draws for a new row. -/
def BoardOp.newId {ι π : Type} : BoardOp ι π → Option String
  | .insertPost _ id _ => some id
  | _ => none

structure BoardRun (ι π : Type) where
  board : Board π
  stages : ι → BoardStage π

namespace BoardRun

variable {ι π : Type} [DecidableEq ι]

def start (pg : Postgres) : BoardRun ι π := ⟨⟨pg, ∅, fun _ hp => nomatch hp⟩, fun _ => .idle⟩

def enter (i : ι) (stage : BoardStage π) (s : BoardRun ι π) : BoardRun ι π :=
  { s with stages := Function.update s.stages i stage }

/-- The effect of a statement, where `mayPost` says who may add a post. -/
def step (mayPost : Postgres → GroupId → UserId → Bool) (s : BoardRun ι π) : BoardOp ι π → BoardRun ι π
  | .others pg => { s with board := s.board.changePg pg }
  | .checkPost i draft =>
    match s.stages i, mayPost s.board.pg draft.groupId draft.authorId with
    | .idle, true => s.enter i (.posting draft)
    | _, _ => s
  | .insertPost i id time =>
    match s.stages i with
    | .posting draft =>
      match s.board.insertPost (draft.post id time) with
      | .ok (_, board) => { s with board }.enter i .idle
      | .error _ => s.enter i .idle
    | _ => s
  | .checkDelete i id userId =>
    match s.stages i, s.board.mayDelete id userId with
    | .idle, true => s.enter i (.deleting id)
    | _, _ => s
  | .deletePost i =>
    match s.stages i with
    | .deleting id => { s with board := s.board.deletePost id }.enter i .idle
    | _ => s
  | .setPinned id isPinned =>
    match s.board.setPinned id isPinned with
    | .ok (_, board) => { s with board }
    | .error _ => s
  | .giveUp i => s.enter i .idle

end BoardRun

namespace Board

variable {π : Type} {b b' : Board π} {p : Post π} {u : UserId}

/-- The board has the post, pinned or not. -/
def Has (p : Post π) (b : Board π) : Prop := ∃ q ∈ b.posts.rows, q.lasting = p.lasting

theorem has_of_mem (h : p ∈ b.posts.rows) : b.Has p := ⟨p, h, rfl⟩

/-- The posts of one id on one board are one post. -/
theorem Has.find (h : b.Has p) : ∃ q, b.posts.find p.id = some q ∧ q.lasting = p.lasting := by
  obtain ⟨q, hq, hqp⟩ := h
  exact ⟨q, (Table.find_eq_some _ _ _).mpr ⟨hq, Post.id_of_lasting hqp⟩, hqp⟩

theorem Has.inGroup (h : b.Has p) : (b.pg.groups.find p.groupId).isSome = true := by
  obtain ⟨q, hq, hqp⟩ := h
  rw [← Post.groupId_of_lasting hqp]
  exact b.inGroup q hq

theorem Has.changePg (pg : Postgres) (h : b.Has p) (hgroup : (pg.groups.find p.groupId).isSome = true) :
    (b.changePg pg).Has p := by
  obtain ⟨q, hq, hqp⟩ := h
  refine ⟨q, (Table.mem_delete _ _ _).mpr ⟨hq, ?_⟩, hqp⟩
  rw [Post.groupId_of_lasting hqp]
  simpa using hgroup

theorem has_of_changePg {pg : Postgres} (h : (b.changePg pg).Has p) : b.Has p := by
  obtain ⟨q, hq, hqp⟩ := h
  exact ⟨q, ((Table.mem_delete _ _ _).mp hq).1, hqp⟩

theorem Has.deletePost {id : String} (h : b.Has p) (hid : p.id ≠ id) : (b.deletePost id).Has p := by
  obtain ⟨q, hq, hqp⟩ := h
  refine ⟨q, (Table.mem_delete _ _ _).mpr ⟨hq, decide_eq_false ?_⟩, hqp⟩
  rwa [Post.id_of_lasting hqp]

theorem has_of_deletePost {id : String} (h : (b.deletePost id).Has p) : b.Has p := by
  obtain ⟨q, hq, hqp⟩ := h
  exact ⟨q, ((Table.mem_delete _ _ _).mp hq).1, hqp⟩

/-- A pin leaves every post where it is. -/
theorem has_setPinned {id : String} {isPinned : Bool} {q : Post π}
    (h : b.setPinned id isPinned = .ok (q, b')) : b'.Has p ↔ b.Has p := by
  unfold setPinned at h
  split at h
  · cases h
  · cases h
    constructor
    · rintro ⟨_, hmem, hrp⟩
      obtain ⟨r, hr, rfl⟩ := List.mem_map.mp hmem
      refine ⟨r, hr, ?_⟩
      rw [← hrp]
      split <;> rfl
    · rintro ⟨r, hr, hrp⟩
      refine ⟨_, List.mem_map.mpr ⟨r, hr, rfl⟩, ?_⟩
      rw [← hrp]
      split <;> rfl

theorem insertPost_ok {post q : Post π} (h : b.insertPost post = .ok (q, b')) :
    b'.posts.rows = b.posts.rows ++ [post] := by
  unfold insertPost at h
  split at h
  · cases h
  · rename_i hinsert
    split at h
    · cases h
      exact (Table.insert_eq_some hinsert).2
    · cases h

theorem has_insertPost {post q : Post π} (h : b.insertPost post = .ok (q, b')) :
    b'.Has p ↔ b.Has p ∨ post.lasting = p.lasting := by
  simp only [Has, insertPost_ok h, List.mem_append, List.mem_singleton, or_and_right, exists_or,
    exists_eq_left]

/-- Who may delete a post of the board. -/
theorem Has.mayDelete (h : b.Has p) : b.mayDelete p.id u = true ↔
    b.pg.isAdminOrOwner p.groupId u = true ∨
      u = p.authorId ∧ (b.pg.roleOf p.groupId u).isSome = true := by
  obtain ⟨q, hfind, hqp⟩ := h.find
  simp only [Board.mayDelete, hfind, Post.groupId_of_lasting hqp, Post.authorId_of_lasting hqp,
    Postgres.isAdminOrOwner]
  cases b.pg.roleOf p.groupId u with
  | none => simp
  | some role => cases role <;> simp [eq_comm (a := u)]

end Board

/-- What a statement can do. -/
inductive BoardMove {ι π : Type} [DecidableEq ι] (mayPost : Postgres → GroupId → UserId → Bool)
    (s : BoardRun ι π) : BoardOp ι π → BoardRun ι π → Prop where
  | others (pg : Postgres) : BoardMove mayPost s (.others pg) { s with board := s.board.changePg pg }
  | checked (i : ι) (draft : Draft π) : mayPost s.board.pg draft.groupId draft.authorId = true →
      BoardMove mayPost s (.checkPost i draft) (s.enter i (.posting draft))
  | posted (i : ι) (id : String) (time : Int) (draft : Draft π) (post : Post π) (board : Board π) :
      s.stages i = .posting draft → s.board.insertPost (draft.post id time) = .ok (post, board) →
      BoardMove mayPost s (.insertPost i id time) ({ s with board }.enter i .idle)
  | asked (i : ι) (id : String) (u : UserId) : s.board.mayDelete id u = true →
      BoardMove mayPost s (.checkDelete i id u) (s.enter i (.deleting id))
  | deleted (i : ι) (id : String) : s.stages i = .deleting id →
      BoardMove mayPost s (.deletePost i) ({ s with board := s.board.deletePost id }.enter i .idle)
  | pinned (id : String) (isPinned : Bool) (post : Post π) (board : Board π) :
      s.board.setPinned id isPinned = .ok (post, board) →
      BoardMove mayPost s (.setPinned id isPinned) { s with board }
  | ended (op : BoardOp ι π) (i : ι) : BoardMove mayPost s op (s.enter i .idle)
  | refused (op : BoardOp ι π) : BoardMove mayPost s op s

namespace BoardRun

variable {ι π : Type} [DecidableEq ι] {mayPost : Postgres → GroupId → UserId → Bool}
variable {s : BoardRun ι π} {op : BoardOp ι π} {p : Post π} {i : ι}

theorem step_move (s : BoardRun ι π) (op : BoardOp ι π) : BoardMove mayPost s op (step mayPost s op) := by
  cases op with
  | others pg => exact .others pg
  | checkPost i draft =>
    dsimp only [step]
    split
    · exact .checked i draft ‹_›
    · exact .refused _
  | insertPost i id time =>
    dsimp only [step]
    split
    · rename_i draft hstage
      split
      · exact .posted i id time draft _ _ hstage ‹_›
      · exact .ended _ i
    · exact .refused _
  | checkDelete i id u =>
    dsimp only [step]
    split
    · exact .asked i id u ‹_›
    · exact .refused _
  | deletePost i =>
    dsimp only [step]
    split
    · exact .deleted i _ ‹_›
    · exact .refused _
  | setPinned id isPinned =>
    dsimp only [step]
    split
    · exact .pinned id isPinned _ _ ‹_›
    · exact .refused _
  | giveUp i => exact .ended _ i

theorem stage_of_enter {j : ι} {stage entered : BoardStage π} (h : (s.enter j entered).stages i = stage) :
    s.stages i = stage ∨ i = j ∧ entered = stage := by
  change Function.update s.stages j entered i = stage at h
  rw [Function.update_apply] at h
  split at h
  · exact .inr ⟨‹_›, h⟩
  · exact .inl h

/-- A call is about to add a post once it has passed its check. -/
theorem posting_of_step {draft : Draft π} (hnot : s.stages i ≠ .posting draft)
    (h : (step mayPost s op).stages i = .posting draft) :
    op = .checkPost i draft ∧ mayPost s.board.pg draft.groupId draft.authorId = true := by
  generalize ht : step mayPost s op = t at h
  cases ht ▸ step_move s op with
  | checked j checked hmay =>
    obtain hsame | ⟨rfl, hstage⟩ := stage_of_enter h
    · exact absurd hsame hnot
    · cases hstage
      exact ⟨rfl, hmay⟩
  | asked _ _ _ _ =>
    obtain hsame | ⟨-, hstage⟩ := stage_of_enter h
    · exact absurd hsame hnot
    · cases hstage
  | posted _ _ _ _ _ _ _ _ | deleted _ _ _ | ended _ _ =>
    obtain hsame | ⟨-, hstage⟩ := stage_of_enter h
    · exact absurd hsame hnot
    · cases hstage
  | others _ | pinned _ _ _ _ _ | refused _ => exact absurd h hnot

theorem deleting_of_step {id : String} (hnot : s.stages i ≠ .deleting id)
    (h : (step mayPost s op).stages i = .deleting id) :
    ∃ u, op = .checkDelete i id u ∧ s.board.mayDelete id u = true := by
  generalize ht : step mayPost s op = t at h
  cases ht ▸ step_move s op with
  | asked j asked u hmay =>
    obtain hsame | ⟨rfl, hstage⟩ := stage_of_enter h
    · exact absurd hsame hnot
    · cases hstage
      exact ⟨u, rfl, hmay⟩
  | checked _ _ _ | posted _ _ _ _ _ _ _ _ | deleted _ _ _ | ended _ _ =>
    obtain hsame | ⟨-, hstage⟩ := stage_of_enter h
    · exact absurd hsame hnot
    · cases hstage
  | others _ | pinned _ _ _ _ _ | refused _ => exact absurd h hnot

/-- A post comes with the insertion of a call. -/
theorem has_of_step (hnot : ¬ s.board.Has p) (h : (step mayPost s op).board.Has p) :
    ∃ i id time draft, op = .insertPost i id time ∧ s.stages i = .posting draft ∧
      (draft.post id time).lasting = p.lasting := by
  generalize ht : step mayPost s op = t at h
  cases ht ▸ step_move s op with
  | others pg => exact absurd (Board.has_of_changePg h) hnot
  | posted j id time draft post board hstage hinsert =>
    obtain hbefore | hpost := (Board.has_insertPost hinsert).mp h
    · exact absurd hbefore hnot
    · exact ⟨j, id, time, draft, rfl, hstage, hpost⟩
  | deleted j id _ => exact absurd (Board.has_of_deletePost h) hnot
  | pinned id isPinned post board hpin => exact absurd ((Board.has_setPinned hpin).mp h) hnot
  | checked _ _ _ | asked _ _ _ _ | ended _ _ | refused _ => exact absurd h hnot

/-- A post goes with its group or with the deletion of a call. -/
theorem lost_of_step (hhas : s.board.Has p) (h : ¬ (step mayPost s op).board.Has p) :
    (∃ pg, op = .others pg ∧ pg.groups.find p.groupId = none) ∨
      ∃ i, op = .deletePost i ∧ s.stages i = .deleting p.id := by
  generalize ht : step mayPost s op = t at h
  cases ht ▸ step_move s op with
  | others pg =>
    refine .inl ⟨pg, rfl, ?_⟩
    by_contra hsome
    exact h (hhas.changePg pg (Option.isSome_iff_ne_none.mpr hsome))
  | posted j id time draft post board _ hinsert =>
    exact absurd ((Board.has_insertPost hinsert).mpr (.inl hhas)) h
  | deleted j id hstage =>
    by_cases hid : p.id = id
    · exact .inr ⟨j, rfl, hid ▸ hstage⟩
    · exact absurd (hhas.deletePost hid) h
  | pinned id isPinned post board hpin => exact absurd ((Board.has_setPinned hpin).mpr hhas) h
  | checked _ _ _ | asked _ _ _ _ | ended _ _ | refused _ => exact absurd hhas h

variable {pg : Postgres} {ops : List (BoardOp ι π)}

/-- The run of the statements from a board without posts. -/
abbrev after (mayPost : Postgres → GroupId → UserId → Bool) (pg : Postgres) (ops : List (BoardOp ι π)) :
    BoardRun ι π := run (step mayPost) (start pg) ops

theorem exists_checkPost {draft : Draft π} (h : (after mayPost pg ops).stages i = .posting draft) :
    ∃ before rest, ops = before ++ .checkPost i draft :: rest ∧
      mayPost (after mayPost pg before).board.pg draft.groupId draft.authorId = true := by
  obtain ⟨before, op, rest, hops, hnot, hgain⟩ := exists_gain (s := start pg)
    (P := fun s : BoardRun ι π => s.stages i = .posting draft) nofun h
  obtain ⟨rfl, hmay⟩ := posting_of_step hnot hgain
  exact ⟨before, rest, hops, hmay⟩

theorem exists_checkDelete {id : String} (h : (after mayPost pg ops).stages i = .deleting id) :
    ∃ before u rest, ops = before ++ .checkDelete i id u :: rest ∧
      (after mayPost pg before).board.mayDelete id u = true := by
  obtain ⟨before, op, rest, hops, hnot, hgain⟩ := exists_gain (s := start pg)
    (P := fun s : BoardRun ι π => s.stages i = .deleting id) nofun h
  obtain ⟨u, rfl, hmay⟩ := deleting_of_step hnot hgain
  exact ⟨before, u, rest, hops, hmay⟩

theorem exists_insertPost (h : (after mayPost pg ops).board.Has p) :
    ∃ before i id time draft rest, ops = before ++ .insertPost i id time :: rest ∧
      (after mayPost pg before).stages i = .posting draft ∧
      (draft.post id time).lasting = p.lasting := by
  obtain ⟨before, op, rest, hops, hnot, hgain⟩ := exists_gain (s := start pg)
    (P := fun s : BoardRun ι π => s.board.Has p) (fun ⟨q, hq, _⟩ => nomatch hq) h
  obtain ⟨i, id, time, draft, rfl, hstage, hpost⟩ := has_of_step hnot hgain
  exact ⟨before, i, id, time, draft, rest, hops, hstage, hpost⟩

/-- With ids drawn once, an id means the same post all the time. -/
theorem lasting_eq {q : Post π} {early late : List (BoardOp ι π)}
    (hfresh : (ops.filterMap BoardOp.newId).Nodup) (hearly : early <+: ops) (hlate : late <+: ops)
    (hp : (after mayPost pg early).board.Has p) (hq : (after mayPost pg late).board.Has q)
    (hid : p.id = q.id) : p.lasting = q.lasting := by
  obtain ⟨before, i, id, time, draft, rest, hops, hstage, hpost⟩ := exists_insertPost hp
  obtain ⟨before', i', id', time', draft', rest', hops', hstage', hpost'⟩ := exists_insertPost hq
  obtain ⟨more, rfl⟩ := hearly
  obtain ⟨more', hmore⟩ := hlate
  rw [hops, List.append_assoc, List.cons_append] at hfresh
  rw [hops, hops', List.append_assoc, List.append_assoc, List.cons_append, List.cons_append] at hmore
  have hkey : id = p.id := Post.id_of_lasting hpost
  have hkey' : id' = p.id := (Post.id_of_lasting hpost').trans hid.symm
  obtain ⟨rfl, hop⟩ := eq_of_nodup_keys hfresh rfl hmore.symm (congrArg some hkey) (congrArg some hkey')
  obtain ⟨rfl, rfl, rfl⟩ := BoardOp.insertPost.inj hop
  obtain rfl := BoardStage.posting.inj (hstage.symm.trans hstage')
  exact hpost.symm.trans hpost'

/-- The posts of a run are accounted for. Everything there is belongs to a group that is there, and was
added for somebody who could add it when he asked; everything that has gone went with its group, or was
there when somebody who could delete it asked. -/
structure Accounted (mayPost : Postgres → GroupId → UserId → Bool) (pg : Postgres)
    (ops : List (BoardOp ι π)) : Prop where
  inGroup : ∀ p ∈ (after mayPost pg ops).board.posts.rows,
    ((after mayPost pg ops).board.pg.groups.find p.groupId).isSome = true
  posted : ∀ p ∈ (after mayPost pg ops).board.posts.rows, ∃ before i draft rest,
    ops = before ++ .checkPost i draft :: rest ∧ (draft.post p.id p.time).lasting = p.lasting ∧
    mayPost (after mayPost pg before).board.pg p.groupId p.authorId = true
  gone : ∀ early, early <+: ops → ∀ p ∈ (after mayPost pg early).board.posts.rows,
    ¬ (after mayPost pg ops).board.Has p →
    (∃ mid, early <+: mid ∧ mid <+: ops ∧
      (after mayPost pg mid).board.pg.groups.find p.groupId = none) ∨
    ∃ before i u rest, ops = before ++ .checkDelete i p.id u :: rest ∧
      (after mayPost pg before).board.Has p ∧
      ((after mayPost pg before).board.pg.isAdminOrOwner p.groupId u = true ∨
        u = p.authorId ∧ ((after mayPost pg before).board.pg.roleOf p.groupId u).isSome = true)

theorem accounted (mayPost : Postgres → GroupId → UserId → Bool) (pg : Postgres)
    (hfresh : (ops.filterMap BoardOp.newId).Nodup) : Accounted mayPost pg ops where
  inGroup := (after mayPost pg ops).board.inGroup
  posted p hp := by
    obtain ⟨before, i, id, time, draft, rest, hops, hstage, hpost⟩ :=
      exists_insertPost (Board.has_of_mem hp)
    obtain ⟨first, more, rfl, hmay⟩ := exists_checkPost hstage
    have hid : id = p.id := Post.id_of_lasting hpost
    have htime : time = p.time := by
      change (draft.post id time).lasting.time = p.lasting.time
      rw [hpost]
    refine ⟨first, i, draft, more ++ .insertPost i id time :: rest, by simp [hops], ?_, ?_⟩
    · rw [← hid, ← htime, hpost]
    · rw [← Post.groupId_of_lasting hpost, ← Post.authorId_of_lasting hpost]
      exact hmay
  gone early hearly p hp hlost := by
    obtain ⟨later, rfl⟩ := hearly
    rw [after, run_append] at hlost
    obtain ⟨between, op, rest, rfl, hhas, hstep⟩ := exists_loss
      (P := fun s : BoardRun ι π => s.board.Has p) (Board.has_of_mem hp) hlost
    rw [← run_append] at hhas hstep
    obtain ⟨pg', rfl, hnone⟩ | ⟨i, rfl, hstage⟩ := lost_of_step hhas hstep
    · refine .inl ⟨early ++ between ++ [.others pg'], ⟨_, List.append_assoc _ _ _ |>.symm⟩,
        ⟨rest, by simp⟩, ?_⟩
      rw [after, run_append]
      exact hnone
    · obtain ⟨before, u, more, hbefore, hmay⟩ := exists_checkDelete hstage
      have hprefix : before <+: early ++ (between ++ .deletePost i :: rest) :=
        ⟨.checkDelete i p.id u :: more ++ .deletePost i :: rest, by
          rw [← List.append_assoc early, hbefore]
          simp⟩
      -- the post with this id at the check is the one that is lost
      have hthen : (after mayPost pg before).board.Has p := by
        cases hfind : (after mayPost pg before).board.posts.find p.id with
        | none => simp [Board.mayDelete, hfind] at hmay
        | some q =>
          obtain ⟨hq, hid⟩ := (Table.find_eq_some _ _ _).mp hfind
          exact ⟨q, hq, lasting_eq hfresh hprefix ⟨_, rfl⟩ (Board.has_of_mem hq) (Board.has_of_mem hp) hid⟩
      refine .inr ⟨before, i, u, more ++ .deletePost i :: rest, ?_, hthen, hthen.mayDelete.mp hmay⟩
      rw [← List.append_assoc early, hbefore]
      simp

/-- A deletion that nothing interrupts is the whole call. -/
theorem run_deleteBy (details id : String) (u : UserId) (hidle : s.stages i = .idle) :
    (run (step mayPost) s [.checkDelete i id u, .deletePost i]).board =
      (s.board.deleteBy details id u).toOption.getD s.board := by
  simp only [run_cons, run_nil, step, hidle, Board.deleteBy]
  cases hmay : s.board.mayDelete id u with
  | false => simp [hidle, Except.toOption]
  | true => simp [enter, Except.toOption]

end BoardRun

/-- Who may upload a file. -/
def anybody (_ : Postgres) (_ : GroupId) (_ : UserId) : Bool := true

namespace Board

/-- An upload, and an announcement that nothing interrupts. -/
theorem run_uploadGroupFile {ι : Type} [DecidableEq ι] {s : BoardRun ι FileBody} {i : ι} (id : String)
    (now : Int) (req : GroupFileUploadRequest) (hidle : s.stages i = .idle) :
    (run (BoardRun.step anybody) s [.checkPost i req.draft, .insertPost i id now]).board =
      ((s.board.uploadGroupFile id now req).map Prod.snd).toOption.getD s.board := by
  simp only [run_cons, run_nil, BoardRun.step, hidle, anybody, BoardRun.enter, uploadGroupFile,
    Function.update_self]
  cases s.board.insertPost (req.draft.post id now) <;> rfl

theorem run_createAnnouncement {ι : Type} [DecidableEq ι] {s : BoardRun ι String} {i : ι} (id : String)
    (now : Int) (req : CreateAnnouncementRequest) (hidle : s.stages i = .idle) :
    (run (BoardRun.step fun pg => pg.isAdminOrOwner) s
      [.checkPost i req.draft, .insertPost i id now]).board =
      ((s.board.createAnnouncement id now req).map Prod.snd).toOption.getD s.board := by
  simp only [run_cons, run_nil, BoardRun.step, hidle, createAnnouncement]
  cases hmay : s.board.pg.isAdminOrOwner req.draft.groupId req.draft.authorId with
  | false =>
    change s.board.pg.isAdminOrOwner req.groupId req.creatorId = false at hmay
    simp [hidle, hmay, Except.map, Except.toOption]
  | true =>
    change s.board.pg.isAdminOrOwner req.groupId req.creatorId = true at hmay
    simp only [hmay, BoardRun.enter, Function.update_self]
    cases s.board.insertPost (req.draft.post id now) <;> rfl

/-- A reader sees the files of the group, the latest first. -/
theorem getGroupFiles_spec (g : GroupId) (b : Board FileBody) :
    (∀ p, p ∈ b.getGroupFiles g ↔ p ∈ b.posts.rows ∧ p.groupId = g) ∧
      (b.getGroupFiles g).Pairwise fun p q => q.time ≤ p.time := by
  have hsorted : (b.getGroupFiles g).Pairwise fun p q => Post.latestFirst p q = true :=
    List.pairwise_mergeSort (fun p q r hpq hqr => by simp [Post.latestFirst] at *; omega)
      (fun p q => by simp [Post.latestFirst]; omega) _
  exact ⟨fun p => by simp [getGroupFiles], hsorted.imp of_decide_eq_true⟩

/-- A reader sees the announcements of the group, the pinned ones first and the latest of each kind
before the others of it. -/
theorem getGroupAnnouncements_spec (g : GroupId) (b : Board String) :
    (∀ p, p ∈ b.getGroupAnnouncements g ↔ p ∈ b.posts.rows ∧ p.groupId = g) ∧
      (b.getGroupAnnouncements g).Pairwise fun p q =>
        p.isPinned = true ∧ q.isPinned = false ∨ p.isPinned = q.isPinned ∧ q.time ≤ p.time := by
  have hsorted : (b.getGroupAnnouncements g).Pairwise fun p q => Post.pinnedFirst p q = true :=
    List.pairwise_mergeSort (fun p q r => by
        simp only [Post.pinnedFirst]
        cases p.isPinned <;> cases q.isPinned <;> cases r.isPinned <;> simp <;> omega)
      (fun p q => by
        simp only [Post.pinnedFirst]
        cases p.isPinned <;> cases q.isPinned <;> simp <;> omega) _
  exact ⟨fun p => by simp [getGroupAnnouncements], hsorted.imp (by simp [Post.pinnedFirst])⟩

end Board

section

variable {ι : Type} [DecidableEq ι]

/-- Whatever calls run side by side, all that was ever added to the two tables is accounted for. -/
theorem group_board_accounted (pg : Postgres) (files : List (BoardOp ι FileBody))
    (announcements : List (BoardOp ι String)) (hfiles : (files.filterMap BoardOp.newId).Nodup)
    (hannouncements : (announcements.filterMap BoardOp.newId).Nodup) :
    BoardRun.Accounted anybody pg files ∧
      BoardRun.Accounted (fun pg => pg.isAdminOrOwner) pg announcements :=
  ⟨BoardRun.accounted anybody pg hfiles, BoardRun.accounted _ pg hannouncements⟩

end

/-- A group with its owner and a member, and what is left of it when the owner has gone. -/
def boardGroup : Postgres :=
  { Postgres.empty with
    groups := ⟨[⟨"g", "ann", .admin⟩], by decide⟩
    groupMembers := ⟨[⟨"g", "ann", .owner, false⟩, ⟨"g", "bob", .member, false⟩], by decide⟩ }

def boardGroupLeft : Postgres :=
  { boardGroup with groupMembers := ⟨[⟨"g", "bob", .member, false⟩], by decide⟩ }

/-- The owner asks to delete a file of the member, leaves the group, and then deletes it. -/
def fileDeleted : List (BoardOp (Fin 2) FileBody) :=
  [.checkPost 0 ⟨"g", "bob", false, "plan", "files/plan", 10, "pdf", 0, ""⟩, .insertPost 0 "f1" 5,
    .checkDelete 1 "f1" "ann", .others boardGroupLeft, .deletePost 1]

/-- The owner announces something and leaves the group; nobody can delete it. -/
def announced : List (BoardOp (Fin 2) String) :=
  [.checkPost 0 ⟨"g", "ann", true, "moved"⟩, .insertPost 0 "a1" 6, .others boardGroupLeft,
    .checkDelete 0 "a1" "ann", .deletePost 0, .checkDelete 1 "a1" "bob", .deletePost 1]

theorem group_board_accounted_left :
    (BoardRun.after anybody boardGroup fileDeleted).board.posts.rows = [] ∧
    (BoardRun.after (fun pg => pg.isAdminOrOwner) boardGroup announced).board.posts.rows.map Post.body =
      ["moved"] ∧
    BoardRun.Accounted anybody boardGroup fileDeleted ∧
    BoardRun.Accounted (fun pg => pg.isAdminOrOwner) boardGroup announced := by
  obtain ⟨hfiles, hannouncements⟩ :=
    group_board_accounted boardGroup fileDeleted announced (by decide) (by decide)
  exact ⟨by decide, by decide, hfiles, hannouncements⟩

end Sandcat
