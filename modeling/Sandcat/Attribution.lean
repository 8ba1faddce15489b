import Sandcat.GroupApi
import Sandcat.PlainView
import Sandcat.Lib.Annotate

/-!
# Send numbers and the notifications that carry them

Twelve handlers of the API draw a number from the send counter of a user and publish
a notification. The handlers run side by side, any call may be lost, and the other
services act in between without lowering a send counter. An observer keeps for each
process the number drawn last by its request, and beside each notification the number
held by the process that published it.
-/

namespace Sandcat

open Remote

/-- The requests whose handlers draw a send number and publish. -/
inductive ApiRequest where
  | createFriendship (nanoid : String) (content : Bincode.Bytes) (newFriend : FsCreate)
  | agree (nanoid : String) (content : Bincode.Bytes) (friendship : Option Friendship)
  | createGroup (groupId nanoid : String) (content : Bincode.Bytes) (userId : UserId)
      (newGroup : GroupCreate)
  | inviteNewMembers (nanoid : String) (invitation : GroupInviteNew)
  | updateGroup (nanoid : String) (content : Bincode.Bytes) (userId : UserId) (groupId : GroupId)
  | updateGroupSettings (nanoid : String) (content : Bincode.Bytes) (userId : UserId)
      (groupId : GroupId) (invitePermission : Int)
  | removeMember (nanoid : String) (groupId : GroupId) (userId : UserId) (memId : List UserId)
  | deleteGroup (nanoid : String) (userId : UserId) (groupId : GroupId) (isDismiss : Bool)
  | uploadGroupFile (nanoid : String) (content : Bincode.Bytes) (uploaderId : UserId)
      (groupId : GroupId)
  | createPoll (nanoid : String) (content : Bincode.Bytes) (creatorId : UserId) (groupId : GroupId)
  | muteGroupMember (nanoid : String) (content : Bincode.Bytes) (groupId : GroupId)
      (userId operatorId : UserId)
  | createAnnouncement (nanoid : String) (content : Bincode.Bytes) (creatorId : UserId)
      (groupId : GroupId)

namespace ApiRequest

def handler (cfg : Config) (castRole : Int → Option GroupRole) : ApiRequest → M Unit
  | createFriendship nanoid content newFriend =>
    FriendApi.createFriendship cfg nanoid content newFriend
  | agree nanoid content friendship => FriendApi.agree cfg nanoid content friendship
  | createGroup groupId nanoid content userId newGroup =>
    GroupApi.createGroupHandler cfg groupId nanoid content userId newGroup
  | inviteNewMembers nanoid invitation => GroupApi.inviteNewMembers cfg nanoid invitation
  | updateGroup nanoid content userId groupId =>
    GroupApi.updateGroupHandler cfg nanoid content userId groupId
  | updateGroupSettings nanoid content userId groupId invitePermission =>
    GroupApi.updateGroupSettings cfg castRole nanoid content userId groupId invitePermission
  | removeMember nanoid groupId userId memId =>
    GroupApi.removeMember cfg nanoid groupId userId memId
  | deleteGroup nanoid userId groupId isDismiss =>
    GroupApi.deleteGroupHandler cfg nanoid userId groupId isDismiss
  | uploadGroupFile nanoid content uploaderId groupId =>
    GroupApi.uploadGroupFile cfg nanoid content uploaderId groupId
  | createPoll nanoid content creatorId groupId =>
    GroupApi.createPoll cfg nanoid content creatorId groupId
  | muteGroupMember nanoid content groupId userId operatorId =>
    GroupApi.muteGroupMember cfg nanoid content groupId userId operatorId
  | createAnnouncement nanoid content creatorId groupId =>
    GroupApi.createAnnouncement cfg nanoid content creatorId groupId

/-- The answer to a friend request names no sender, and the notices of files, polls, mutes
and announcements carry the number in `seq`. -/
def Attributable : ApiRequest → Prop
  | agree _ _ _ | uploadGroupFile _ _ _ _ | createPoll _ _ _ _ | muteGroupMember _ _ _ _ _
  | createAnnouncement _ _ _ _ => False
  | _ => True

end ApiRequest

/-- The part of the state that the counters, the observer and the queue make up. -/
def World.sends (w : World) : List Payload × List ScriptCall × (String → SeqHash) :=
  (w.queue, w.scripts, w.redis.hashes)

theorem World.frame_sends_pgCall {α : Type} (g : Postgres → Except Error (α × Postgres)) :
    Prog.Frame World.sends (pgCall g) := frame_pgCall (fun _ _ => rfl) g

/-- The processes of the API over the shared state, with what the observer has noted. -/
structure Office (ι : Type) where
  world : World
  procs : ι → M Unit
  drawn : ι → Option (String × Int)
  sent : List (Option (String × Int) × Payload)

namespace Office

variable {ι : Type} [DecidableEq ι]

def opened (w : World) : Office ι := ⟨w, fun _ => .ret (), fun _ => none, []⟩

/-- A process takes up a request. -/
def serve (S : Office ι) (i : ι) (m : M Unit) : Office ι :=
  { S with procs := Function.update S.procs i m, drawn := Function.update S.drawn i none }

/-- A call of a process: the numbers it is given and the records it publishes are those that
the logs of the shared state gain. -/
def advance (S : Office ι) (i : ι) (m : M Unit) (t : World) : Office ι where
  world := t
  procs := Function.update S.procs i m
  drawn :=
    Function.update S.drawn i
      ((((t.scripts.drop S.world.scripts.length).flatMap (·.handed)).getLast?).or (S.drawn i))
  sent := S.sent ++ (t.queue.drop S.world.queue.length).map fun payload => (S.drawn i, payload)

/-- The next call of a process, undisturbed. -/
def turn (S : Office ι) (i : ι) : Office ι :=
  match Prog.step (S.procs i) S.world with
  | some (m, t) => S.advance i m t
  | none => S

/-- The other services do something. -/
def elsewhere (S : Office ι) (t : World) : Office ι := { S with world := t }

end Office

/-- The runs of the API. -/
inductive Serving (cfg : Config) (castRole : Int → Option GroupRole) (allowed : ApiRequest → Prop)
    {ι : Type} [DecidableEq ι] : Office ι → Prop where
  | start (w : World) : Serving cfg castRole allowed (.opened w)
  | serve {S : Office ι} (i : ι) (q : ApiRequest) : Serving cfg castRole allowed S →
      (S.procs i).finished = true → allowed q →
      Serving cfg castRole allowed (S.serve i (q.handler cfg castRole))
  | call {S : Office ι} {m : M Unit} {t : World} (i : ι) : Serving cfg castRole allowed S →
      Prog.Calls (S.procs i) S.world m t → Serving cfg castRole allowed (S.advance i m t)
  | elsewhere {S : Office ι} (t : World) : Serving cfg castRole allowed S →
      (∀ u, (S.world.redis.hashes (sendSeqKey u)).cur ≤ (t.redis.hashes (sendSeqKey u)).cur) →
      Serving cfg castRole allowed (S.elsewhere t)

/-- Where a process stands with the number of its request. -/
inductive Note where
  | fresh
  | holds (userId : UserId) (n : Int)
  | spent

/-- What a process may do to the counters and the queue: draw one number, and publish one
message that is sent by the user of the number and carries it. -/
inductive Attributes : Note → World → Note → World → Prop where
  | quiet {x : Note} {w t : World} : t.sends = w.sends → Attributes x w x t
  | draw {w : World} (seqStep : Int) (u : UserId) :
      Attributes .fresh w (.holds u ((w.redis.hashes (sendSeqKey u)).cur + 1))
        (w.bumped seqStep [sendSeqKey u])
  | publish {w : World} (msg : Msg) :
      Attributes (.holds msg.senderId msg.sendSeq) w .spent
        { w with queue := w.queue ++ [.json msg] }

/-- A program that attributes what it publishes. -/
def Attributing (m : M Unit) (x : Note) : Prop := Prog.Tracks Attributes m x fun _ _ => True

namespace Attributing

theorem frame_bind {α : Type} {m : M α} {k : α → M Unit} {x : Note}
    (hm : Prog.Frame World.sends m) (hk : ∀ a, Attributing (k a) x) : Attributing (m >>= k) x :=
  Prog.tracks_frame_bind (fun _ _ h => .quiet h) hm hk

/-- The stamp of the chat service leaves the sender and the send number alone. -/
theorem sendMsg {u : UserId} {n : Int} {request : SendMsgRequest} (nanoid : String)
    (h : ∀ msg ∈ request.message, msg.senderId = u ∧ msg.sendSeq = n) :
    Attributing (Prog.void (Producer.sendMsg nanoid request)) (.holds u n) := by
  apply Prog.tracks_bind
  unfold Producer.sendMsg
  cases hr : request.message with
  | none => trivial
  | some msg =>
    obtain ⟨rfl, rfl⟩ := h msg hr
    apply Prog.tracks_frame_bind (fun _ _ h => .quiet h) (Prog.frame_update fun _ => rfl)
    intro now
    apply Prog.tracks_bind
    apply Prog.tracks_attempt_update
    · intro w
      refine ⟨.spent, ?_, fun r => trivial⟩
      have hstamp : (Producer.stamp nanoid now msg).senderId = msg.senderId ∧
          (Producer.stamp nanoid now msg).sendSeq = msg.sendSeq := by
        unfold Producer.stamp
        split <;> exact ⟨rfl, rfl⟩
      rw [← hstamp.1, ← hstamp.2]
      exact .publish _
    · exact fun e => trivial

theorem notify {u : UserId} {request : Int → Int → SendMsgRequest} (cfg : Config)
    (nanoid : String)
    (h : ∀ seq now, ∀ msg ∈ (request seq now).message, msg.senderId = u ∧ msg.sendSeq = seq) :
    Attributing (GroupApi.notify cfg nanoid u request) .fresh := by
  apply Prog.tracks_bind
  rw [Cache.incrSendSeq, Cache.evalSingle_eq]
  apply Prog.tracks_update
  intro w
  refine ⟨_, .draw cfg.seqStep u, ?_⟩
  apply frame_bind (Prog.frame_update fun _ => rfl)
  intro now
  have hn := singleScript_reply_cur cfg.seqStep (w.redis.hashes (sendSeqKey u))
  rw [← hn]
  exact sendMsg nanoid (h _ now)

theorem notify_addressed (cfg : Config) (nanoid u g : String) (msgType : MsgType)
    (content : Bincode.Bytes) :
    Attributing (GroupApi.notify cfg nanoid u fun seq now =>
      SendMsgRequest.addressed msgType u g seq content now) .fresh := by
  apply notify
  rintro seq now msg ⟨⟩
  exact ⟨rfl, rfl⟩

theorem frame_sends_cached (g : GroupId) (members : List UserId) :
    Prog.Frame World.sends (Cache.saveGroupMembersId g members) :=
  Prog.frame_each (fun _ => Prog.frame_update fun _ => rfl) _

theorem handler (cfg : Config) (castRole : Int → Option GroupRole) {q : ApiRequest}
    (hq : q.Attributable) : Attributing (q.handler cfg castRole) .fresh := by
  cases q with
  | createFriendship nanoid content newFriend =>
    apply frame_bind (World.frame_sends_pgCall _)
    intro _
    apply notify
    rintro seq now msg ⟨⟩
    exact ⟨rfl, rfl⟩
  | createGroup groupId nanoid content userId newGroup =>
    apply frame_bind (World.frame_sends_pgCall _)
    intro members
    apply frame_bind (frame_sends_cached _ _)
    intro _
    exact notify_addressed cfg nanoid userId groupId .groupInvitation content
  | inviteNewMembers nanoid invitation =>
    have hdb : Prog.Frame World.sends (Db.inviteNewMembers invitation) := by
      apply Prog.frame_bind (World.frame_sends_pgCall _)
      intro userHasPermission
      split
      · exact Prog.frame_raise _
      · exact World.frame_sends_pgCall _
    apply frame_bind hdb
    intro _
    apply frame_bind (frame_sends_cached _ _)
    intro _
    exact notify_addressed cfg nanoid invitation.userId invitation.groupId .groupInviteNew _
  | updateGroup nanoid content userId groupId =>
    apply frame_bind (World.frame_sends_pgCall _)
    intro groupInfo
    exact notify_addressed cfg nanoid userId groupInfo.id .groupUpdate content
  | updateGroupSettings nanoid content userId groupId invitePermission =>
    apply frame_bind (World.frame_sends_pgCall _)
    intro _
    exact notify_addressed cfg nanoid userId groupId .groupUpdate content
  | removeMember nanoid groupId userId memId =>
    apply frame_bind (World.frame_sends_pgCall _)
    intro _
    exact notify_addressed cfg nanoid userId groupId .groupRemoveMember _
  | deleteGroup nanoid userId groupId isDismiss =>
    have hexit : Prog.Frame World.sends (Db.exitGroup userId groupId) := by
      apply Prog.frame_bind (World.frame_sends_pgCall _)
      intro isOwner
      split
      · exact Prog.frame_raise _
      · exact World.frame_sends_pgCall _
    cases isDismiss with
    | true =>
      apply frame_bind (World.frame_sends_pgCall _)
      intro _
      exact notify_addressed cfg nanoid userId groupId .groupDismiss []
    | false =>
      apply frame_bind hexit
      intro _
      exact notify_addressed cfg nanoid userId groupId .groupMemberExit []
  | agree => exact hq.elim
  | uploadGroupFile => exact hq.elim
  | createPoll => exact hq.elim
  | muteGroupMember => exact hq.elim
  | createAnnouncement => exact hq.elim

end Attributing

namespace Office

variable {ι : Type}

/-- The current send number of a user. -/
def cur (S : Office ι) (u : UserId) : Int := (S.world.redis.hashes (sendSeqKey u)).cur

/-- The invariant of the runs. A number that a process holds is the last one it drew, is not
beyond the counter, and is held by no other process and carried by no message yet. -/
structure Books (S : Office ι) (notes : ι → Note) : Prop where
  attributing : ∀ i, Attributing (S.procs i) (notes i)
  held : ∀ i u n, notes i = .holds u n → S.drawn i = some (sendSeqKey u, n) ∧ n ≤ S.cur u ∧
    some (sendSeqKey u, n) ∉ S.sent.map Prod.fst
  apart : ∀ i j u n, notes i = .holds u n → notes j = .holds u n → i = j
  sent : ∀ p ∈ S.sent, ∃ msg : Msg, p = (some (sendSeqKey msg.senderId, msg.sendSeq), .json msg) ∧
    msg.sendSeq ≤ S.cur msg.senderId
  nodup : (S.sent.map Prod.fst).Nodup

variable {S : Office ι} {notes : ι → Note} {i : ι} {m : M Unit} {t : World}

theorem books_opened (w : World) : (opened w : Office ι).Books fun _ => .fresh where
  attributing _ := trivial
  held i u n h := by cases h
  apart i j u n h := by cases h
  sent p hp := by cases hp
  nodup := List.nodup_nil

theorem Books.elsewhere (h : S.Books notes)
    (ht : ∀ u, S.cur u ≤ (t.redis.hashes (sendSeqKey u)).cur) : (S.elsewhere t).Books notes where
  attributing := h.attributing
  held i u n hi := by
    obtain ⟨hdrawn, hle, hnot⟩ := h.held i u n hi
    exact ⟨hdrawn, hle.trans (ht u), hnot⟩
  apart := h.apart
  sent p hp := by
    obtain ⟨msg, he, hle⟩ := h.sent p hp
    exact ⟨msg, he, hle.trans (ht _)⟩
  nodup := h.nodup

variable [DecidableEq ι]

theorem attributing_update {x : Note} (h : ∀ j, Attributing (S.procs j) (notes j))
    (hm : Attributing m x) (j : ι) :
    Attributing (Function.update S.procs i m j) (Function.update notes i x j) := by
  by_cases hj : j = i
  · subst hj
    rwa [Function.update_self, Function.update_self]
  · rw [Function.update_of_ne hj, Function.update_of_ne hj]
    exact h j

/-- Who holds a number after a process has changed its note. -/
theorem holds_update {x : Note} {j : ι} {u : UserId} {n : Int}
    (h : Function.update notes i x j = .holds u n) :
    j = i ∧ x = .holds u n ∨ j ≠ i ∧ notes j = .holds u n := by
  by_cases hj : j = i
  · subst hj
    rw [Function.update_self] at h
    exact .inl ⟨rfl, h⟩
  · rw [Function.update_of_ne hj] at h
    exact .inr ⟨hj, h⟩

/-- A process drops its number, or never had one. -/
theorem Books.forget {x : Note} (h : S.Books notes) (hx : ∀ u n, x ≠ .holds u n) :
    ∀ j k u n, Function.update notes i x j = .holds u n →
      Function.update notes i x k = .holds u n → j = k := by
  intro j k u n hj hk
  obtain ⟨-, he⟩ | ⟨-, hj⟩ := holds_update hj
  · exact absurd he (hx u n)
  · obtain ⟨-, he⟩ | ⟨-, hk⟩ := holds_update hk
    · exact absurd he (hx u n)
    · exact h.apart j k u n hj hk

theorem Books.serve (h : S.Books notes) (hm : Attributing m .fresh) :
    (S.serve i m).Books (Function.update notes i .fresh) where
  attributing := attributing_update h.attributing hm
  held j u n hj := by
    obtain ⟨-, he⟩ | ⟨hne, hj⟩ := holds_update hj
    · cases he
    · obtain ⟨hdrawn, hrest⟩ := h.held j u n hj
      exact ⟨(Function.update_of_ne hne _ _).trans hdrawn, hrest⟩
  apart := h.forget fun u n he => by cases he
  sent := h.sent
  nodup := h.nodup

theorem advance_quiet (ht : t.sends = S.world.sends) :
    S.advance i m t = ⟨t, Function.update S.procs i m, S.drawn, S.sent⟩ := by
  obtain ⟨hqueue, hscripts, -⟩ : t.queue = S.world.queue ∧ t.scripts = S.world.scripts ∧
      t.redis.hashes = S.world.redis.hashes := by simpa [World.sends] using ht
  simp [advance, hqueue, hscripts]

theorem advance_draw (seqStep : Int) (u : UserId) :
    S.advance i m (S.world.bumped seqStep [sendSeqKey u]) =
      ⟨S.world.bumped seqStep [sendSeqKey u], Function.update S.procs i m,
        Function.update S.drawn i (some (sendSeqKey u, S.cur u + 1)), S.sent⟩ := by
  have hqueue : (S.world.bumped seqStep [sendSeqKey u]).queue = S.world.queue := rfl
  simp [advance, World.bumped_scripts, bumpNumbers, hqueue, cur]

theorem advance_publish (payload : Payload) :
    S.advance i m { S.world with queue := S.world.queue ++ [payload] } =
      ⟨{ S.world with queue := S.world.queue ++ [payload] }, Function.update S.procs i m, S.drawn,
        S.sent ++ [(S.drawn i, payload)]⟩ := by
  simp [advance]

/-- A call that touches neither the counters nor the queue. -/
theorem Books.quiet (h : S.Books notes) (ht : t.sends = S.world.sends)
    (hm : Attributing m (notes i)) :
    (S.advance i m t).Books (Function.update notes i (notes i)) := by
  have hcur : ∀ u, t.redis.hashes (sendSeqKey u) = S.world.redis.hashes (sendSeqKey u) := by
    intro u
    have hhashes : t.redis.hashes = S.world.redis.hashes := congrArg (·.2.2) ht
    rw [hhashes]
  have hat := attributing_update (i := i) h.attributing hm
  rw [Function.update_eq_self] at hat ⊢
  rw [advance_quiet ht]
  obtain ⟨-, hheld, hapart, hsent, hnodup⟩ := h.elsewhere (t := t) fun u => by
    rw [cur, hcur]
  exact ⟨hat, hheld, hapart, hsent, hnodup⟩

/-- The number just drawn is above all numbers drawn before. -/
theorem Books.draw (h : S.Books notes) (seqStep : Int) (u : UserId)
    (hm : Attributing m (.holds u (S.cur u + 1))) :
    (S.advance i m (S.world.bumped seqStep [sendSeqKey u])).Books
      (Function.update notes i (.holds u (S.cur u + 1))) := by
  rw [advance_draw]
  have hcur : ∀ v, (bumps seqStep S.world.redis.hashes [sendSeqKey u] (sendSeqKey v)).cur =
      S.cur v + [sendSeqKey u].count (sendSeqKey v) := fun v => bumps_cur _ _ _ _
  have hle : ∀ v, S.cur v ≤ (bumps seqStep S.world.redis.hashes [sendSeqKey u] (sendSeqKey v)).cur := by
    intro v
    rw [hcur]
    omega
  have hself : (bumps seqStep S.world.redis.hashes [sendSeqKey u] (sendSeqKey u)).cur =
      S.cur u + 1 := by
    rw [hcur, List.count_singleton_self]
    rfl
  have hnew : ∀ j n, notes j = .holds u n → n ≠ S.cur u + 1 := by
    intro j n hj
    have hn := (h.held j u n hj).2.1
    omega
  constructor
  · exact attributing_update h.attributing hm
  · intro j v n hj
    obtain ⟨rfl, he⟩ | ⟨hne, hj⟩ := holds_update hj
    · cases he
      refine ⟨Function.update_self _ _ _, hself.ge, ?_⟩
      intro hmem
      obtain ⟨p, hp, he⟩ := List.mem_map.mp hmem
      obtain ⟨msg, rfl, hmsg⟩ := h.sent p hp
      simp only [Option.some.injEq, Prod.mk.injEq, sendSeqKey_inj] at he
      obtain ⟨rfl, hn⟩ := he
      omega
    · obtain ⟨hdrawn, hn, hnot⟩ := h.held j v n hj
      exact ⟨(Function.update_of_ne hne _ _).trans hdrawn, hn.trans (hle v), hnot⟩
  · intro j k v n hj hk
    obtain ⟨rfl, he⟩ | ⟨-, hj⟩ := holds_update hj
    · cases he
      obtain ⟨rfl, -⟩ | ⟨-, hk⟩ := holds_update hk
      · rfl
      · exact absurd rfl (hnew k _ hk)
    · obtain ⟨-, he⟩ | ⟨-, hk⟩ := holds_update hk
      · cases he
        exact absurd rfl (hnew j _ hj)
      · exact h.apart j k v n hj hk
  · intro p hp
    obtain ⟨msg, he, hmsg⟩ := h.sent p hp
    exact ⟨msg, he, hmsg.trans (hle _)⟩
  · exact h.nodup

/-- The message of a process carries the number that the process holds. -/
theorem Books.publish (h : S.Books notes) {msg : Msg}
    (hi : notes i = .holds msg.senderId msg.sendSeq) (hm : Attributing m .spent) :
    (S.advance i m { S.world with queue := S.world.queue ++ [.json msg] }).Books
      (Function.update notes i .spent) := by
  rw [advance_publish]
  obtain ⟨hdrawn, hle, hnot⟩ := h.held i _ _ hi
  rw [hdrawn]
  constructor
  · exact attributing_update h.attributing hm
  · intro j v n hj
    obtain ⟨-, he⟩ | ⟨hne, hj⟩ := holds_update hj
    · cases he
    · obtain ⟨hdrawn', hn, hnot'⟩ := h.held j v n hj
      refine ⟨hdrawn', hn, ?_⟩
      rw [List.map_append, List.mem_append, not_or]
      refine ⟨hnot', ?_⟩
      intro hmem
      simp only [List.map_cons, List.map_nil, List.mem_singleton, Option.some.injEq, Prod.mk.injEq,
        sendSeqKey_inj] at hmem
      obtain ⟨rfl, rfl⟩ := hmem
      exact hne (h.apart j i _ _ hj hi)
  · exact h.forget fun u n he => by cases he
  · intro p hp
    rw [List.mem_append, List.mem_singleton] at hp
    obtain hp | rfl := hp
    · exact h.sent p hp
    · exact ⟨msg, rfl, hle⟩
  · rw [List.map_append, List.nodup_append]
    refine ⟨h.nodup, List.nodup_singleton _, ?_⟩
    rintro a ha b hb rfl
    rw [List.map_cons, List.map_nil, List.mem_singleton] at hb
    rw [hb] at ha
    exact hnot ha

theorem Books.advance {y : Note} (h : S.Books notes) (hstep : Attributes (notes i) S.world y t)
    (hm : Attributing m y) : (S.advance i m t).Books (Function.update notes i y) := by
  generalize hx : notes i = x at hstep
  cases hstep with
  | quiet ht =>
    subst hx
    exact h.quiet ht hm
  | draw seqStep u => exact h.draw seqStep u hm
  | publish msg => exact h.publish hx hm

end Office

theorem Serving.books {cfg : Config} {castRole : Int → Option GroupRole} {ι : Type} [DecidableEq ι]
    {S : Office ι} (h : Serving cfg castRole ApiRequest.Attributable S) :
    ∃ notes, S.Books notes := by
  induction h with
  | start w => exact ⟨_, Office.books_opened w⟩
  | serve i q _ _ hq ih =>
    obtain ⟨notes, hbooks⟩ := ih
    exact ⟨_, hbooks.serve (Attributing.handler cfg castRole hq)⟩
  | call i _ hcall ih =>
    obtain ⟨notes, hbooks⟩ := ih
    obtain ⟨y, hstep, hm⟩ | ⟨rfl, hm⟩ := Prog.tracks_calls (hbooks.attributing i) hcall
    · exact ⟨_, hbooks.advance hstep hm⟩
    · exact ⟨_, hbooks.quiet rfl hm⟩
  | elsewhere t _ ht ih =>
    obtain ⟨notes, hbooks⟩ := ih
    exact ⟨notes, hbooks.elsewhere ht⟩

namespace Save

/-- The copy of a save that keeps the send number. -/
def own (box : Box) : Save → Msg
  | single message => message
  | group message _ => senderCopy box message

/-- The collection that this copy goes to. -/
def filedIn (cfg : Config) (now : Int) (s : Save) : String :=
  match cfg.box with
  | .plain => Mongo.collSingleBox
  | .sharded n =>
    HybridShardedMsgBox.shelf cfg n now (s.own cfg.box).receiverId (s.own cfg.box).sendTime

theorem own_sender (box : Box) (s : Save) : (s.own box).senderId = s.message.senderId := by
  cases s <;> cases box <;> rfl

theorem own_sendSeq (box : Box) (s : Save) : (s.own box).sendSeq = s.message.sendSeq := by
  cases s <;> cases box <;> rfl

theorem own_serverId (box : Box) (s : Save) : (s.own box).serverId = s.message.serverId := by
  cases s <;> cases box <;> rfl

theorem copies_eq_own (box : Box) (s : Save) : ∃ rest, s.copies box = s.own box :: rest := by
  cases s with
  | single message => exact ⟨[], rfl⟩
  | group message members => exact ⟨_, rfl⟩

end Save

namespace MsgRecBox

/-- A box that a new message can be saved in. -/
def Storable (cfg : Config) (w : World) (serverId : String) : Prop :=
  match cfg.box with
  | .plain => (Mongo.collSingleBox, Index.serverReceiver) ∉ w.mongo.indexes
  | .sharded n =>
    n ≠ 0 ∧ w.mongo.Sound ∧ ∀ p ∈ w.mongo.docs, p.2.getStr .serverId ≠ some serverId

def Readable (cfg : Config) (w : World) : Prop :=
  match cfg.box with
  | .plain => True
  | .sharded n => n ≠ 0 ∧ w.mongo.Sound

/-- The collections that `get_msgs` reads for a user. -/
def readFrom (cfg : Config) (w : World) (userId : UserId) : List String :=
  match cfg.box with
  | .plain => [Mongo.collSingleBox]
  | .sharded n => HybridShardedMsgBox.readNames cfg n w.now userId

variable {cfg : Config}

/-- The sender's copy of a new message is stored. -/
theorem own_mem_docs {w : World} {s : Save} (h : Storable cfg w s.message.serverId) :
    (s.filedIn cfg w.now, toDoc (s.own cfg.box)) ∈ ((s.run cfg).after w).mongo.docs := by
  unfold Storable at h
  unfold Save.filedIn
  cases hbox : cfg.box with
  | plain =>
    rw [hbox] at h
    obtain ⟨rest, hcopies⟩ := s.copies_eq_own .plain
    rw [MsgBox.after_run hbox h, World.onMongo_mongo]
    simp [MsgBox.appended, hcopies]
  | sharded n =>
    rw [hbox] at h
    obtain ⟨hn, hsound, hfresh⟩ := h
    obtain ⟨rest, hcopies⟩ := s.copies_eq_own (.sharded n)
    rw [HybridShardedMsgBox.after_run hbox hn hsound, World.onMongo_mongo, Mongo.docs_filed, hcopies]
    apply Unique.mem_enterAll_head
    intro hk
    obtain ⟨p, hp, he⟩ := List.mem_map.mp hk
    refine hfresh p hp ?_
    rw [← s.own_serverId (.sharded n)]
    exact congrArg (fun k => k.2.1) he

/-- A message is found through a range around its send number. -/
theorem mem_getMsgs {w : World} (hw : Readable cfg w) {coll : String} {c : Msg}
    (hread : coll ∈ readFrom cfg w c.senderId) (hmem : (coll, toDoc c) ∈ w.mongo.docs)
    {ss se rs re : Int} (hss : ss < c.sendSeq) (hse : c.sendSeq ≤ se)
    (hcap : capacityFits (se - ss + (re - rs)) = true) :
    ∃ res, ((getMsgs cfg c.senderId ss se rs re).exec w).1 = .ok res ∧
      c.stored.shownTo c.senderId ∈ res := by
  unfold Readable at hw
  unfold readFrom at hread
  unfold getMsgs
  cases hbox : cfg.box with
  | plain =>
    rw [hbox, List.mem_singleton] at hread
    subst hread
    refine ⟨_, (MsgBox.getMsgs_result c.senderId ss se rs re).trans (if_pos hcap), ?_⟩
    rw [(MsgBox.msgsIn_perm c.senderId ss se rs re).mem_iff]
    refine List.mem_map.mpr ⟨_, List.mem_filter.mpr ⟨hmem, ?_⟩, rfl⟩
    simp [Save.matchMsgs_toDoc, hss, hse]
  | sharded n =>
    rw [hbox] at hw hread
    refine ⟨_, (HybridShardedMsgBox.getMsgs_result cfg hw.1 hw.2 c.senderId ss se rs re).trans
      (if_pos hcap), ?_⟩
    rw [HybridShardedMsgBox.msgsIn, (List.perm_insertionSort _ _).mem_iff]
    refine List.mem_map.mpr ⟨toDoc c, List.mem_flatMap.mpr ⟨coll, hread, ?_⟩, rfl⟩
    rw [aggregate, (List.perm_insertionSort _ _).mem_iff]
    refine List.mem_filter.mpr ⟨List.mem_map.mpr ⟨_, List.mem_filter.mpr ⟨hmem, ?_⟩, rfl⟩, ?_⟩
    · simp
    · simp [Save.matchMsgs_toDoc, hss.le, hse]

end MsgRecBox

/-- A message is saved, and its sender pulls with two ranges of numbers. -/
structure Pull where
  save : Save
  savedIn : World
  pulledIn : World
  sendStart : Int
  sendEnd : Int
  recStart : Int
  recEnd : Int

namespace Pull

variable (cfg : Config) (q : Pull)

/-- What is saved is a message of the queue with a receive number. -/
def Of (msg : Msg) : Prop := ∃ seq, q.save.message = { msg with seq }

/-- A number is in the send range. -/
def Around (n : Int) : Prop := q.sendStart < n ∧ n ≤ q.sendEnd

/-- The sender's copy is filed in a collection that the pull reads. -/
def ReadsFiled : Prop :=
  q.save.filedIn cfg q.savedIn.now ∈ MsgRecBox.readFrom cfg q.pulledIn q.save.message.senderId

/-- The pull meets the save: the message is new when it is saved, its documents are still there, the pull reads
the collection of the sender's copy and has room for the answer. -/
structure Meets : Prop where
  storable : MsgRecBox.Storable cfg q.savedIn q.save.message.serverId
  readable : MsgRecBox.Readable cfg q.pulledIn
  kept : ∀ p ∈ ((q.save.run cfg).after q.savedIn).mongo.docs,
    p.2.getStr .serverId = some q.save.message.serverId → p ∈ q.pulledIn.mongo.docs
  readsFiled : q.ReadsFiled cfg
  capacity : capacityFits (q.sendEnd - q.sendStart + (q.recEnd - q.recStart)) = true

/-- The sender gets the message. -/
def Finds : Prop :=
  ∃ res, ((MsgRecBox.getMsgs cfg q.save.message.senderId q.sendStart q.sendEnd q.recStart
      q.recEnd).exec q.pulledIn).1 = .ok res ∧
    (q.save.own cfg.box).stored.shownTo q.save.message.senderId ∈ res

variable {cfg q}

/-- The plain box has one collection. -/
theorem readsFiled_plain (h : cfg.box = .plain) : q.ReadsFiled cfg := by
  simp only [ReadsFiled, Save.filedIn, MsgRecBox.readFrom, h]
  exact List.mem_singleton_self _

/-- The sharded box files the copy in the shard of its receiver and under the month of its stamp, which it
reads as seconds. -/
theorem readsFiled_sharded_iff {n : Nat} (h : cfg.box = .sharded n) (hnow : 0 ≤ q.pulledIn.now) :
    q.ReadsFiled cfg ↔
      HybridShardedMsgBox.rangeOf cfg n (q.save.own cfg.box).receiverId =
          HybridShardedMsgBox.rangeOf cfg n q.save.message.senderId ∧
        HybridShardedMsgBox.InWindow q.pulledIn.now
          (HybridShardedMsgBox.writeMonth q.savedIn.now (q.save.own cfg.box).sendTime) := by
  simp only [ReadsFiled, Save.filedIn, MsgRecBox.readFrom, h]
  exact HybridShardedMsgBox.shelf_mem_readNames hnow _ _

/-- A pull that meets the save of a message finds the message through its send number. -/
theorem finds (h : q.Meets cfg) (hn : q.Around q.save.message.sendSeq) : q.Finds cfg := by
  have hmem : (q.save.filedIn cfg q.savedIn.now, toDoc (q.save.own cfg.box)) ∈ q.pulledIn.mongo.docs := by
    refine h.kept _ (MsgRecBox.own_mem_docs h.storable) ?_
    rw [← q.save.own_serverId cfg.box]
    rfl
  have hread : q.save.filedIn cfg q.savedIn.now ∈
      MsgRecBox.readFrom cfg q.pulledIn (q.save.own cfg.box).senderId := by
    rw [q.save.own_sender]
    exact h.readsFiled
  rw [← q.save.own_sendSeq cfg.box] at hn
  unfold Finds
  rw [← q.save.own_sender cfg.box]
  exact MsgRecBox.mem_getMsgs h.readable hread hmem hn.1 hn.2 h.capacity

end Pull

/-- Each message published by a handler is sent by the user whose number was drawn for it and
carries that number, no two messages of a sender carry the same positive number, and each of some pulls
finds its message when its range is around the number. -/
structure Office.Attributed {ι : Type} (S : Office ι) (cfg : Config) (pulls : Pull → Prop) : Prop where
  named : ∀ p ∈ S.sent, ∃ (u : UserId) (n : Int) (msg : Msg), p = (some (sendSeqKey u, n), .json msg) ∧
    msg.senderId = u ∧ msg.sendSeq = n ∧ ∀ q, pulls q → q.Of msg → q.Around n → q.Finds cfg
  distinct : S.sent.Pairwise fun p q => ∀ a b : Msg, p.2 = .json a → q.2 = .json b →
    a.senderId = b.senderId → 0 < a.sendSeq → a.sendSeq ≠ b.sendSeq

theorem sends_attributed {cfg : Config} {castRole : Int → Option GroupRole} {ι : Type}
    [DecidableEq ι] {S : Office ι} (h : Serving cfg castRole ApiRequest.Attributable S)
    {pulls : Pull → Prop} (hpulls : ∀ q, pulls q → q.Meets cfg) : S.Attributed cfg pulls := by
  obtain ⟨notes, hbooks⟩ := h.books
  constructor
  · intro p hp
    obtain ⟨msg, he, -⟩ := hbooks.sent p hp
    refine ⟨_, _, msg, he, rfl, rfl, ?_⟩
    rintro q hq ⟨seq, hmsg⟩ hn
    apply q.finds (hpulls q hq)
    rw [hmsg]
    exact hn
  · have hne := List.pairwise_map.mp hbooks.nodup
    refine hne.imp_of_mem ?_
    intro p q hp hq hpq a b ha hb hsender _ hseq
    obtain ⟨a', rfl, -⟩ := hbooks.sent p hp
    obtain ⟨b', rfl, -⟩ := hbooks.sent q hq
    cases ha
    cases hb
    exact hpq (by rw [hsender, hseq])

theorem Serving.turn {cfg : Config} {castRole : Int → Option GroupRole}
    {allowed : ApiRequest → Prop} {ι : Type} [DecidableEq ι] {S : Office ι}
    (h : Serving cfg castRole allowed S) (i : ι) : Serving cfg castRole allowed (S.turn i) := by
  unfold Office.turn
  cases hstep : Prog.step (S.procs i) S.world with
  | none => exact h
  | some r => exact h.call i (Prog.calls_of_step hstep)

/-- A group `g` of `a`. -/
def ownGroup : World :=
  let groups := ⟨[⟨"g", "a", .owner⟩], by decide⟩
  { World.empty with pg := { Postgres.empty with groups } }

/-- Two updates of the group, which draw and publish in turns. -/
def twoUpdates : Office Bool :=
  let q := ApiRequest.updateGroup "id" [] "a" "g"
  let S := ((Office.opened ownGroup).serve false (q.handler .onePlain fun _ => none)).serve true
    (q.handler .onePlain fun _ => none)
  [false, true, true, false, false, true, false, true, true, false].foldl Office.turn S

theorem twoUpdates_serving :
    Serving .onePlain (fun _ => none) ApiRequest.Attributable twoUpdates :=
  have h := ((Serving.start ownGroup).serve false (.updateGroup "id" [] "a" "g") rfl trivial).serve
    true (.updateGroup "id" [] "a" "g") rfl trivial
  (((((((((h.turn false).turn true).turn true).turn false).turn false).turn true).turn
    false).turn true).turn true).turn false

/-- The notice of the first update, as it is stored with receive number 5. -/
def updateNotice : Msg :=
  { senderId := "a", receiverId := "g", serverId := "id", groupId := "g", sendSeq := 1, seq := 5,
    msgType := MsgType.groupUpdate.toI32 }

/-- It is saved for a group of two, and `a` asks for number 1. -/
def firstPull : Pull where
  save := .group updateNotice [⟨"b", 3, 9, false⟩]
  savedIn := ownGroup
  pulledIn := ((Save.group updateNotice [⟨"b", 3, 9, false⟩]).run .onePlain).after ownGroup
  sendStart := 0
  sendEnd := 1
  recStart := 0
  recEnd := 0

theorem firstPull_meets : firstPull.Meets .onePlain where
  storable := by simp [MsgRecBox.Storable, Config.onePlain, firstPull, ownGroup, World.empty, Mongo.empty]
  readable := trivial
  kept := fun _ hp _ => hp
  readsFiled := Pull.readsFiled_plain rfl
  capacity := by decide

theorem sends_attributed_twoUpdates :
    twoUpdates.sent.map Prod.fst = [some (sendSeqKey "a", 1), some (sendSeqKey "a", 2)] ∧
      twoUpdates.Attributed .onePlain (· = firstPull) ∧ firstPull.Finds .onePlain := by
  have h : twoUpdates.Attributed .onePlain (· = firstPull) :=
    sends_attributed twoUpdates_serving fun _ hq => hq ▸ firstPull_meets
  refine ⟨by decide, h, ?_⟩
  have hsent : twoUpdates.sent = [(some (sendSeqKey "a", 1), .json { updateNotice with seq := 0 }),
      (some (sendSeqKey "a", 2), .json { updateNotice with seq := 0, sendSeq := 2 })] := rfl
  obtain ⟨u, n, msg, he, -, -, hfinds⟩ := h.named _ (hsent ▸ List.mem_cons_self)
  simp only [Prod.mk.injEq, Option.some.injEq, Payload.json.injEq] at he
  obtain ⟨⟨-, rfl⟩, rfl⟩ := he
  exact hfinds firstPull rfl ⟨5, rfl⟩ (by constructor <;> decide)

/-- A poll in the group, from the statement to the publication. -/
def onePoll : Office Unit :=
  [(), (), (), (), ()].foldl Office.turn
    ((Office.opened ownGroup).serve () (GroupApi.createPoll .onePlain "id" [] "a" "g"))

theorem onePoll_serving : Serving .onePlain (fun _ => none) (fun _ => True) onePoll :=
  have h := (Serving.start ownGroup).serve () (.createPoll "id" [] "a" "g") rfl trivial
  ((((h.turn ()).turn ()).turn ()).turn ()).turn ()

/-- The notice of a poll carries the number in the field of the receive numbers, whoever pulls. -/
theorem poll_without_send_number :
    ¬ ∃ pulls : Pull → Prop, ∀ S : Office Unit,
      Serving .onePlain (fun _ => none) (fun _ => True) S → S.Attributed .onePlain pulls := by
  rintro ⟨pulls, h⟩
  have hsent : onePoll.sent = [(some (sendSeqKey "a", 1), .json
      { senderId := "a", serverId := "id", groupId := "g", seq := 1,
        msgType := MsgType.groupPoll.toI32 })] := rfl
  obtain ⟨u, n, msg, he, -, hn, -⟩ := (h onePoll onePoll_serving).named _ (hsent ▸ List.mem_cons_self)
  simp only [Prod.mk.injEq, Option.some.injEq, Payload.json.injEq] at he
  obtain ⟨⟨-, rfl⟩, rfl⟩ := he
  cases hn

end Sandcat
