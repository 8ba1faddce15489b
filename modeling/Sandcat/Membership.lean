import Sandcat.GroupApi
import Sandcat.Undisturbed
import Sandcat.Lib.Annotate
import Sandcat.Lib.SetCache

/-!
# Group members in the database and in the cache

What the group handlers and the consumer do to the rows of `group_members` and to
the cached sets, call by call. A handler that adds rows owes the cache the new
members; one that deletes rows owes it a removal, which it publishes and the
consumer carries out.
-/

namespace Sandcat

open Remote SetCache

/-- What the consumer removes from the cached set for a record. -/
def removals : Payload → List (GroupId × UserId)
  | .malformed => []
  | .json msg =>
    if msg.msgType = MsgType.groupMemberExit.toI32 then [(msg.receiverId, msg.senderId)]
    else if msg.msgType = MsgType.groupRemoveMember.toI32 then
      ((decodeIds msg.content).getD []).map (msg.groupId, ·)
    else []

theorem removals_eq_nil {msg : Msg} (hexit : msg.msgType ≠ MsgType.groupMemberExit.toI32)
    (hremove : msg.msgType ≠ MsgType.groupRemoveMember.toI32) : removals (.json msg) = [] := by
  rw [removals, if_neg hexit, if_neg hremove]

theorem removals_exit {msg : Msg} (h : msg.msgType = MsgType.groupMemberExit.toI32) :
    removals (.json msg) = [msg.senderId].map (msg.receiverId, ·) := by
  rw [removals, if_pos h]
  rfl

theorem removals_remove {msg : Msg} (h : msg.msgType = MsgType.groupRemoveMember.toI32) :
    removals (.json msg) = ((decodeIds msg.content).getD []).map (msg.groupId, ·) := by
  rw [removals, if_neg (by rw [h]; decide), if_pos h]

/-- Only group messages remove members. -/
theorem removals_single {msg : Msg} {mt : MsgType} (ht : MsgType.tryFrom msg.msgType = some mt)
    (hk : (Consumer.classifyMsgType mt).1 = .single) : removals (.json msg) = [] := by
  have hmt := MsgType.eq_toI32_of_tryFrom ht
  apply removals_eq_nil
  · rw [hmt, Ne, MsgType.toI32_inj]
    rintro rfl
    cases hk
  · rw [hmt, Ne, MsgType.toI32_inj]
    rintro rfl
    cases hk

@[simp] theorem removals_stamp (nanoid : String) (now : Int) (msg : Msg) :
    removals (.json (Producer.stamp nanoid now msg)) = removals (.json msg) := by
  unfold Producer.stamp
  split <;> rfl

namespace World

def memberView (w : World) : View GroupId UserId where
  rows g := { v | v ∈ w.pg.membersOf g }
  cached g := { v | v ∈ w.redis.members g }
  queued := w.queue.flatMap removals

/-- What the membership depends on: the rows, the sets, the removals, and who exists. -/
def membership (w : World) : View GroupId UserId × List UserId := (w.memberView, w.pg.users.rows)

end World

/-- One call of a process that acts on users who have to exist. -/
def MemberStep (users : List UserId) (o : Owed GroupId UserId) (s : World) (p : Owed GroupId UserId)
    (t : World) : Prop :=
  (∀ v ∈ s.pg.users.rows, v ∈ t.pg.users.rows) ∧
    ((∀ v ∈ users, v ∈ s.pg.users.rows) → ∃ e, Does e o s.memberView p t.memberView)

/-- A program that pays what it owes to the cache, if no call of it is refused. -/
def Pays (users : List UserId) (m : M Unit) (o : Owed GroupId UserId) : Prop :=
  Prog.Follows (MemberStep users) m o fun _ p => p = .none

variable {users : List UserId} {o p : Owed GroupId UserId} {α : Type}

theorem memberStep_of_does {s t : World} {e : Effect GroupId UserId} (hu : t.pg.users = s.pg.users)
    (hd : Does e o s.memberView p t.memberView) : MemberStep users o s p t :=
  ⟨fun _ hv => hu ▸ hv, fun _ => ⟨e, hd⟩⟩

theorem memberStep_same {s t : World} (h : t.membership = s.membership) :
    MemberStep users o s o t := by
  have hview : t.memberView = s.memberView := congrArg Prod.fst h
  have husers : t.pg.users.rows = s.pg.users.rows := congrArg Prod.snd h
  refine ⟨fun _ hv => husers ▸ hv, fun _ => ⟨.other, ?_⟩⟩
  rw [hview]
  exact .other _ _

/-- What does not touch the membership owes what it owed. -/
theorem follows_frame {m : M α} (hm : Prog.Frame World.membership m) :
    Prog.Follows (MemberStep users) m o fun _ p => p = o :=
  Prog.follows_of_frame (fun _ _ => memberStep_same) hm

theorem keeps_update {g : World → α × World} {P : α → Prop}
    (hg : ∀ w, (g w).2.membership = w.membership) (hP : ∀ w, P (g w).1) :
    Prog.Keeps (MemberStep users) (Prog.update g : M α) o P :=
  Prog.follows_update fun w => ⟨o, memberStep_same (hg w), rfl, _, rfl, hP w⟩

theorem follows_pgCall {g : Postgres → Except Error (α × Postgres)}
    {Q : Except Error α → Owed GroupId UserId → Prop}
    (hg : ∀ (w : World) a pg, g w.pg = .ok (a, pg) →
      ∃ p, MemberStep users o w p { w with pg } ∧ Q (.ok a) p) :
    Prog.Follows (MemberStep users) (pgCall g) o Q := by
  apply Prog.follows_request
  intro w a t h
  obtain ⟨q, hr, hq⟩ := eq_ok_of_map h
  cases hq
  exact hg w q.1 q.2 hr

theorem keeps_pgCall {g : Postgres → Except Error (α × Postgres)}
    (hg : ∀ pg a pg', g pg = .ok (a, pg') →
      pg'.groupMembers = pg.groupMembers ∧ pg'.users = pg.users) :
    Prog.Keeps (MemberStep users) (pgCall g) o fun _ => True := by
  apply follows_pgCall
  intro w a pg h
  obtain ⟨hm, hu⟩ := hg w.pg a pg h
  refine ⟨o, memberStep_same ?_, rfl, _, rfl, trivial⟩
  simp only [World.membership, World.memberView, Postgres.membersOf, hm, hu]

/-- A ceiling raised under a condition. -/
theorem keeps_bumpIf (cfg : Config) (u : UserId) (c : Bool) :
    Prog.Keeps (MemberStep users) (Prog.onlyIf c (Prog.void (Db.saveMaxSeq cfg u))) o
      fun _ => True := by
  cases c with
  | false => exact ⟨rfl, _, rfl, trivial⟩
  | true =>
    apply Prog.follows_keeps_bind (P := fun _ => True)
    · apply keeps_pgCall
      intro pg n pg' h
      unfold Postgres.saveMaxSeq at h
      split at h <;> cases h
      exact ⟨rfl, rfl⟩
    · intro _ _
      exact ⟨rfl, _, rfl, trivial⟩

namespace Cache

theorem keeps_evalSingle (cfg : Config) (key : String) :
    Prog.Keeps (MemberStep users) (evalSingle cfg key) o fun _ => True := by
  rw [evalSingle_eq]
  exact keeps_update (fun _ => rfl) fun _ => trivial

theorem keeps_incrGroupSeq (cfg : Config) (members : List UserId) :
    Prog.Keeps (MemberStep users) (incrGroupSeq cfg members) o fun _ => True := by
  unfold incrGroupSeq
  rw [evalGroup_eq]
  apply Prog.follows_keeps_bind (P := fun response => ∃ seq, collectSeq members response = some seq)
  · exact keeps_update (fun _ => rfl) fun w => ⟨_, collectSeq_groupScript _ _ _⟩
  · rintro response ⟨seq, hseq⟩
    rw [hseq]
    exact ⟨rfl, _, rfl, trivial⟩

/-- The additions are paid one by one. -/
theorem follows_saveGroupMembersId (g : GroupId) (members : List UserId)
    (rem : List (GroupId × UserId)) :
    Prog.Follows (MemberStep users) (saveGroupMembersId g members) ⟨members.map (g, ·), rem⟩
      fun r p => r = .ok () ∧ p = ⟨[], rem⟩ := by
  apply Prog.follows_each (L := fun vs => (⟨vs.map (g, ·), rem⟩ : Owed GroupId UserId))
  intro v vs
  apply Prog.follows_update
  intro w
  refine ⟨_, memberStep_of_does rfl (.save g v rfl rfl ?_ ?_), rfl, rfl⟩
  · intro h hne
    simp only [World.memberView, Redis.members_setMembers, if_neg hne]
  · intro u
    simp [World.memberView]

theorem pays_remove (g : GroupId) (vs : List UserId) :
    Pays users (redisCall fun r => ((), r.setMembers g ((r.members g).srem vs)))
      ⟨[], vs.map (g, ·)⟩ := by
  apply Prog.follows_update
  intro w
  refine ⟨_, memberStep_of_does rfl (.unsave g vs rfl rfl ?_ ?_), rfl⟩
  · intro h hne
    simp only [World.memberView, Redis.members_setMembers, if_neg hne]
  · intro u
    simp [World.memberView]

theorem pays_delGroupMembers (g : GroupId) : Pays users (delGroupMembers g) .none := by
  apply Prog.follows_update
  intro w
  refine ⟨_, memberStep_of_does rfl (.forget .none g rfl rfl ?_ ?_), rfl⟩
  · intro h hne
    simp only [World.memberView, Redis.members_setMembers, if_neg hne]
  · intro u
    simp [World.memberView]

end Cache

namespace Consumer

variable {cfg : Config}

theorem keeps_handleSendSeq (u : UserId) :
    Prog.Keeps (MemberStep users) (handleSendSeq cfg u) o fun _ => True := by
  apply Prog.follows_keeps_bind (P := fun _ => True)
  · exact keeps_update (fun _ => rfl) fun _ => trivial
  · intro sendSeq _
    exact keeps_bumpIf cfg u _

theorem keeps_numberReceiver (need : Bool) (msg : Msg) :
    Prog.Keeps (MemberStep users) (numberReceiver cfg need msg) o fun _ => True := by
  unfold numberReceiver
  cases need with
  | false => exact ⟨rfl, _, rfl, trivial⟩
  | true =>
    apply Prog.follows_keeps_bind (P := fun _ => True)
    · apply Prog.follows_keeps_bind (Cache.keeps_evalSingle cfg _)
      intro reply _
      apply Prog.follows_keeps_bind (keeps_bumpIf cfg _ _)
      intro _ _
      exact ⟨rfl, _, rfl, trivial⟩
    · intro curSeq _
      exact ⟨rfl, _, rfl, trivial⟩

/-- Members read from the database are added to the cache. -/
theorem keeps_getMembersId (g : GroupId) (rem : List (GroupId × UserId)) :
    Prog.Keeps (MemberStep users) (getMembersId g) ⟨[], rem⟩ fun _ => True := by
  apply Prog.follows_keeps_bind (P := fun _ => True)
  · exact keeps_update (fun _ => rfl) fun _ => trivial
  · intro list _
    split
    · exact ⟨rfl, _, rfl, trivial⟩
    · apply Prog.follows_bind
      apply follows_pgCall
      intro w members pg h
      cases h
      refine ⟨_, memberStep_of_does rfl (.read w.memberView g _ rfl fun _ hv => hv), ?_⟩
      apply Prog.follows_bind
      apply Prog.follows_attempt
      apply Prog.follows_mono (Cache.follows_saveGroupMembersId g _ rem)
      rintro r p ⟨rfl, rfl⟩
      exact ⟨rfl, _, rfl, trivial⟩

/-- The removals are paid, unless there are none. -/
theorem pays_updateCachedMembers (msg : Msg) :
    Pays users (updateCachedMembers msg) ⟨[], removals (.json msg)⟩ := by
  unfold updateCachedMembers
  split
  · rename_i h
    rw [removals_eq_nil (by rw [h]; decide) (by rw [h]; decide)]
    exact Cache.pays_delGroupMembers _
  · split
    · rename_i h
      rw [removals_exit h]
      exact Cache.pays_remove _ _
    · split
      · rename_i h
        rw [removals_remove h]
        cases hd : decodeIds msg.content with
        | none => exact rfl
        | some ids =>
          dsimp only [Option.getD_some]
          unfold Cache.removeGroupMemberBatch
          split
          · rename_i hn
            subst hn
            exact rfl
          · exact Cache.pays_remove _ ids
      · rename_i hexit hremove
        rw [removals_eq_nil hexit hremove]
        exact rfl

theorem pays_handleGroupSeq (msg : Msg) :
    Prog.Follows (MemberStep users) (handleGroupSeq cfg .group msg) ⟨[], removals (.json msg)⟩
      fun _ p => p = .none := by
  apply Prog.follows_keeps_bind (keeps_getMembersId _ _)
  intro members _
  apply Prog.follows_keeps_bind (Cache.keeps_incrGroupSeq cfg _)
  intro seq _
  apply Prog.follows_bind
  apply Prog.follows_mono (pays_updateCachedMembers msg)
  rintro r p rfl
  cases r with
  | ok _ => rfl
  | error e => rfl

/-- The numbering pays what a record owes to the cache. -/
theorem pays_numberMsg {mt : MsgType} {msg : Msg} (ht : MsgType.tryFrom msg.msgType = some mt) :
    Prog.Follows (MemberStep users) (numberMsg cfg mt msg) ⟨[], removals (.json msg)⟩
      fun _ p => p = .none := by
  have hsingle := removals_single ht
  have hgroup : (classifyMsgType mt).1 = .group → (classifyMsgType mt).2.1 = false :=
    fun h => (classifyMsgType_group h).1
  unfold numberMsg
  generalize classifyMsgType mt = c at hsingle hgroup ⊢
  obtain ⟨kind, need, hist⟩ := c
  dsimp only at hsingle hgroup ⊢
  apply Prog.follows_keeps_bind (keeps_handleSendSeq _)
  intro _ _
  cases kind with
  | single =>
    rw [hsingle rfl]
    apply Prog.follows_keeps_bind (keeps_numberReceiver need msg)
    intro msg _
    rfl
  | group =>
    obtain rfl := hgroup rfl
    apply Prog.follows_bind (m := numberReceiver cfg false msg)
    apply Prog.follows_bind
    apply Prog.follows_mono (pays_handleGroupSeq msg)
    rintro r p rfl
    cases r with
    | ok _ => rfl
    | error e => rfl

theorem frame_dispatch (mt : MsgType) (msg : Msg) (members : List GroupMemSeq) :
    Prog.Frame World.membership (dispatch cfg mt msg members) :=
  fun _ => KeptByTasks.dispatch ⟨⟨fun _ _ h => h, fun _ _ h => h, fun _ _ h => h⟩,
    fun _ _ _ h => h⟩ mt msg members

theorem pays_handleMsg (cfg : Config) (payload : Payload) :
    Pays users (handleMsg cfg payload) ⟨[], removals payload⟩ := by
  apply handleMsg_cases (P := fun payload m => Pays users m ⟨[], removals payload⟩) cfg
  · exact fun _ => rfl
  · intro msg e ht
    have hnil : removals (.json msg) = [] := by
      apply removals_eq_nil <;> intro h <;> rw [h, MsgType.tryFrom_toI32] at ht <;> cases ht
    rw [hnil]
    exact rfl
  · intro msg ht
    rw [removals_single ht rfl]
    apply follows_frame
    exact Prog.frame_mono (frame_handleMsgRead cfg msg) fun s t h => (congrArg World.membership h :)
  · intro msg mt ht _
    apply Prog.follows_bind
    apply Prog.follows_mono (pays_numberMsg ht)
    rintro r p rfl
    cases r with
    | ok q => exact follows_frame (frame_dispatch mt q.1 q.2)
    | error e => exact rfl

end Consumer

namespace GroupApi

variable {cfg : Config}

/-- The notification carries the removals that are owed. -/
theorem pays_notify {nanoid : String} {u : UserId} {request : Int → Int → SendMsgRequest}
    {rem : List (GroupId × UserId)}
    (h : ∀ seq now, ∃ msg, (request seq now).message = some msg ∧ removals (.json msg) = rem) :
    Pays users (notify cfg nanoid u request) ⟨[], rem⟩ := by
  apply Prog.follows_keeps_bind (Cache.keeps_evalSingle cfg _)
  rintro ⟨seq, _, _⟩ _
  apply Prog.follows_keeps_bind (P := fun _ => True) (keeps_update (fun _ => rfl) fun _ => trivial)
  intro now _
  obtain ⟨msg, hmsg, hrem⟩ := h seq now
  apply Prog.follows_void
  unfold Producer.sendMsg
  rw [hmsg]
  apply Prog.follows_keeps_bind (P := fun _ => True) (keeps_update (fun _ => rfl) fun _ => trivial)
  intro now _
  apply Prog.follows_bind
  apply Prog.follows_attempt
  apply Prog.follows_update
  intro w
  refine ⟨.none, memberStep_of_does (e := .publish) rfl ?_, rfl⟩
  have hview : ({ w with queue := w.queue ++ [.json (Producer.stamp nanoid now msg)] } :
      World).memberView = { w.memberView with queued := w.memberView.queued ++ rem } := by
    simp [World.memberView, hrem]
  rw [hview]
  exact .publish ⟨[], rem⟩ w.memberView

/-- A notification that removes nobody. -/
theorem pays_announce {nanoid : String} {u : UserId} {g : GroupId} {mt : MsgType}
    {content : Bincode.Bytes} (hexit : mt ≠ .groupMemberExit) (hremove : mt ≠ .groupRemoveMember) :
    Pays users (notify cfg nanoid u fun seq now => .addressed mt u g seq content now) .none := by
  apply pays_notify
  intro seq now
  refine ⟨_, rfl, removals_eq_nil ?_ ?_⟩
  · rwa [Ne, MsgType.toI32_inj]
  · rwa [Ne, MsgType.toI32_inj]

theorem pays_createGroupHandler (groupId nanoid : String) (content : Bincode.Bytes) (u : UserId)
    (newGroup : GroupCreate) :
    Pays users (createGroupHandler cfg groupId nanoid content u newGroup) .none := by
  apply Prog.follows_bind
  apply follows_pgCall
  intro w members pg h
  obtain ⟨hu, hm⟩ := Postgres.mem_createGroupWithMembers h
  refine ⟨⟨members.map (groupId, ·), []⟩, memberStep_of_does hu
    (.join groupId members rfl ?_ ?_ ?_ ?_ rfl rfl), ?_⟩
  · intro g hne
    ext v
    simp [World.memberView, hm, hne]
  · intro v hv
    exact (hm groupId v).mpr (.inl hv)
  · intro v hv
    exact ((hm groupId v).mp hv).imp_right And.right
  · intro v hv
    exact (hm groupId v).mpr (.inr ⟨rfl, hv⟩)
  · apply Prog.follows_bind
    apply Prog.follows_mono (Cache.follows_saveGroupMembersId groupId members [])
    rintro r p ⟨rfl, rfl⟩
    exact pays_announce (by decide) (by decide)

theorem pays_inviteNewMembers (nanoid : String) (invitation : GroupInviteNew) :
    Pays invitation.members (inviteNewMembers cfg nanoid invitation) .none := by
  apply Prog.follows_bind
  apply Prog.follows_keeps_bind (P := fun _ => True)
  · exact keeps_pgCall fun pg a pg' h => by cases h; exact ⟨rfl, rfl⟩
  · intro userHasPermission _
    split
    · exact rfl
    · apply follows_pgCall
      intro w _ pg h
      cases h
      have hm := w.pg.mem_insertMembers invitation.groupId invitation.members
      refine ⟨⟨invitation.members.map (invitation.groupId, ·), []⟩,
        ⟨fun _ hv => hv, fun hexist => ⟨_, .join invitation.groupId invitation.members rfl
          ?_ ?_ ?_ ?_ rfl rfl⟩⟩, ?_⟩
      · intro g hne
        ext v
        simp [World.memberView, hm, hne]
      · intro v hv
        exact (hm _ v).mpr (.inl hv)
      · intro v hv
        exact ((hm _ v).mp hv).imp_right fun h => h.2.2
      · intro v hv
        exact (hm _ v).mpr (.inr ⟨rfl, hexist v hv, hv⟩)
      · apply Prog.follows_bind
        apply Prog.follows_mono (Cache.follows_saveGroupMembersId _ _ [])
        rintro r p ⟨rfl, rfl⟩
        exact pays_announce (by decide) (by decide)

theorem pays_removeMember (nanoid : String) (g : GroupId) (u : UserId) {memId : List UserId}
    (hmem : InMemory memId) : Pays users (removeMember cfg nanoid g u memId) .none := by
  apply Prog.follows_bind
  apply follows_pgCall
  intro w _ pg h
  cases h
  have hm := w.pg.mem_removeMember g u memId
  refine ⟨⟨[], memId.map (g, ·)⟩, memberStep_of_does ?_ (.leave g memId rfl ?_ ?_ ?_ rfl rfl), ?_⟩
  · unfold Postgres.removeMember
    split <;> rfl
  · intro j hne
    ext v
    simp [World.memberView, hm, hne]
  · intro v hv
    exact ((hm g v).mp hv).1
  · intro v hv
    by_cases hv' : v ∈ memId
    · exact .inr hv'
    · exact .inl ((hm g v).mpr ⟨hv, fun h => hv' h.2.2⟩)
  · apply pays_notify
    intro seq now
    refine ⟨_, rfl, ?_⟩
    rw [removals_remove rfl, decodeIds_encodeIds hmem]
    rfl

theorem pays_deleteGroupHandler (nanoid : String) (u : UserId) (g : GroupId) (isDismiss : Bool) :
    Pays users (deleteGroupHandler cfg nanoid u g isDismiss) .none := by
  cases isDismiss with
  | true =>
    apply Prog.follows_keeps_bind (P := fun _ => True)
    · apply keeps_pgCall
      intro pg a pg' h
      unfold Postgres.deleteGroup at h
      split at h <;> cases h
      exact ⟨rfl, rfl⟩
    · intro _ _
      exact pays_announce (by decide) (by decide)
  | false =>
    apply Prog.follows_bind
    apply Prog.follows_keeps_bind (P := fun _ => True)
    · exact keeps_pgCall fun pg a pg' h => by cases h; exact ⟨rfl, rfl⟩
    · intro isOwner _
      split
      · exact rfl
      · apply follows_pgCall
        intro w _ pg h
        cases h
        have hm := w.pg.mem_deleteMember u g
        refine ⟨⟨[], [u].map (g, ·)⟩, memberStep_of_does rfl (.leave g [u] rfl ?_ ?_ ?_ rfl rfl), ?_⟩
        · intro j hne
          ext v
          simp [World.memberView, hm, hne]
        · intro v hv
          exact ((hm g v).mp hv).1
        · intro v hv
          by_cases hv' : v = u
          · exact .inr (List.mem_singleton.mpr hv')
          · exact .inl ((hm g v).mpr ⟨hv, fun h => hv' h.2⟩)
        · apply pays_notify
          intro seq now
          exact ⟨_, rfl, removals_exit rfl⟩

end GroupApi

end Sandcat
