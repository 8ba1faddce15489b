import Sandcat.Removal
import Sandcat.Ownership

/-!
# A group that has been dismissed

`delete_group` deletes the row of the group and no member row: `group_members` does not
refer to `groups`. The consumer empties the cached set when it handles the notification, and
fills it from the member rows when the next message comes. A dismissed group is silent if
it had no member rows any more, and if no handler then under way adds one.
-/

namespace Sandcat

open Remote

variable {g : GroupId} {cfg : Config}

/-- The group stays without rows, and its cached set does not grow. -/
def StaysFresh (g : GroupId) (w t : World) : Prop :=
  w.pg.Fresh g → t.pg.Fresh g ∧ ∀ v, KeepsOut g v w t

/-- A program that leaves a group without rows as it is. -/
def KeepsFresh (g : GroupId) (m : M Unit) : Prop :=
  Prog.Guarantees (fun w : World => w.pg.Fresh g) (StaysFresh g) m fun _ => True

theorem staysFresh_refl (w : World) : StaysFresh g w w := fun h => ⟨h, fun _ => keepsOut_refl w⟩

theorem staysFresh_of_same {w t : World} (h : (t.pg, t.redis.sets) = (w.pg, w.redis.sets)) :
    StaysFresh g w t := by
  obtain ⟨hpg, hsets⟩ := Prod.mk.inj h
  intro hfresh
  exact ⟨hpg ▸ hfresh, fun _ => keepsOut_of_sets hsets⟩

theorem guarantees_fresh_pgCall {α : Type} {f : Postgres → Except Error (α × Postgres)}
    {Q : α → Prop} (h : ∀ pg a pg', pg.Fresh g → f pg = .ok (a, pg') → pg'.Fresh g ∧ Q a) :
    Prog.Guarantees (fun w : World => w.pg.Fresh g) (StaysFresh g) (pgCall f) Q := by
  apply Prog.guarantees_request
  intro w a t hw hf
  obtain ⟨⟨a', pg⟩, hpg, he⟩ := eq_ok_of_map hf
  cases he
  obtain ⟨hfresh, hQ⟩ := h _ _ _ hw hpg
  exact ⟨fun _ => ⟨hfresh, fun _ => keepsOut_of_sets rfl⟩, hQ⟩

/-- Members of another group are cached. -/
theorem guarantees_fresh_saveGroupMembersId {h : GroupId} (hne : h ≠ g) (members : List UserId) :
    KeepsFresh g (Cache.saveGroupMembersId h members) := by
  apply Prog.guarantees_each
  intro u _
  apply Prog.guarantees_update
  intro w _
  refine ⟨fun hfresh => ⟨hfresh, ?_⟩, trivial⟩
  intro v hout
  rwa [Redis.members_setMembers, if_neg (Ne.symm hne)]

namespace Postgres

variable {pg pg' : Postgres}

theorem fresh_iff : pg.Fresh g ↔ pg.groups.find g = none ∧ ∀ v, v ∉ pg.membersOf g := by
  rw [Fresh, List.eq_nil_iff_forall_not_mem]

/-- The tables have lost rows only. -/
theorem Fresh.of_le (h : pg.Fresh g) (hgroups : pg'.groups.find g = none)
    (hmembers : ∀ v, v ∈ pg'.membersOf g → v ∈ pg.membersOf g) : pg'.Fresh g :=
  fresh_iff.mpr ⟨hgroups, fun v hv => (fresh_iff.mp h).2 v (hmembers v hv)⟩

/-- Nobody may invite into a group without a row. -/
theorem Fresh.mayInvite (h : pg.Fresh g) (u : UserId) : pg.mayInvite g u = false := by
  rw [Postgres.mayInvite, h.1]

theorem Fresh.insertMembers (h : pg.Fresh g) {g' : GroupId} (hne : g' ≠ g) (members : List UserId) :
    (pg.insertMembers g' members).Fresh g := by
  refine h.of_le h.1 ?_
  intro v hv
  exact ((mem_insertMembers _ _ _ _ _).mp hv).resolve_right fun hg => hne hg.1.symm

theorem Fresh.removeMember (h : pg.Fresh g) (g' : GroupId) (u : UserId) (memIds : List UserId) :
    (pg.removeMember g' u memIds).Fresh g := by
  refine h.of_le ?_ fun v hv => ((mem_removeMember _ _ _ _ _ _).mp hv).1
  rw [Postgres.removeMember]
  split
  · exact h.1
  · exact h.1

theorem Fresh.deleteMember (h : pg.Fresh g) (u : UserId) (g' : GroupId) :
    (pg.deleteMember u g').Fresh g :=
  h.of_le h.1 fun _ hv => ((mem_deleteMember _ _ _ _ _).mp hv).1

theorem Fresh.deleteGroup (h : pg.Fresh g) {g' : GroupId} {owner : UserId}
    (hok : pg.deleteGroup g' owner = .ok ((), pg')) : pg'.Fresh g := by
  unfold Postgres.deleteGroup at hok
  split at hok
  · cases hok
    refine h.of_le ?_ fun _ hv => hv
    rw [Table.find_eq_none]
    intro r hr
    exact (Table.find_eq_none _ _).mp h.1 r ((Table.mem_delete _ _ _).mp hr).1
  · cases hok

theorem Fresh.createGroupWithMembers (h : pg.Fresh g) {group : GroupCreate} (hne : group.id ≠ g)
    {members : List UserId} (hok : pg.createGroupWithMembers group = .ok (members, pg')) :
    pg'.Fresh g := by
  refine h.of_le ?_ ?_
  · unfold Postgres.createGroupWithMembers at hok
    cases hg : pg.groups.insert ⟨group.id, group.owner, .admin⟩ with
    | none => rw [hg] at hok; cases hok
    | some groups =>
      rw [hg] at hok
      dsimp only at hok
      split at hok
      · cases hok
      · cases hok
        rw [Table.find_insert hg, if_neg (Ne.symm hne), h.1]
  · intro v hv
    exact (((mem_createGroupWithMembers hok).2 g v).mp hv).resolve_right fun hg => hne hg.1.symm

end Postgres

namespace GroupApi

theorem keepsFresh_notify (nanoid : String) (u : UserId) (request : Int → Int → SendMsgRequest) :
    KeepsFresh g (notify cfg nanoid u request) :=
  Prog.guarantees_of_frame (fun _ _ => staysFresh_of_same)
    (frame_notify (fun _ _ _ => rfl) (fun _ _ => rfl) _ _ _ _)

theorem keepsFresh_createGroupHandler {groupId : GroupId} (hne : groupId ≠ g) (nanoid : String)
    (content : Bincode.Bytes) (u : UserId) (newGroup : GroupCreate) :
    KeepsFresh g (createGroupHandler cfg groupId nanoid content u newGroup) := by
  apply Prog.guarantees_bind (P := fun _ => True)
  · apply guarantees_fresh_pgCall
    intro pg members pg' h hok
    exact ⟨h.createGroupWithMembers hne hok, trivial⟩
  · intro members _
    apply Prog.guarantees_bind (guarantees_fresh_saveGroupMembersId hne members)
    exact fun _ _ => keepsFresh_notify _ _ _

/-- An invitation into the group itself is turned away. -/
theorem keepsFresh_inviteNewMembers (nanoid : String) (invitation : GroupInviteNew) :
    KeepsFresh g (inviteNewMembers cfg nanoid invitation) := by
  apply Prog.guarantees_bind (P := fun _ => invitation.groupId ≠ g)
  · apply Prog.guarantees_bind (P := fun may => invitation.groupId = g → may = false)
    · apply guarantees_fresh_pgCall
      intro pg may pg' h hok
      cases hok
      refine ⟨h, ?_⟩
      rintro rfl
      exact h.mayInvite _
    · intro may hmay
      split
      · trivial
      · rename_i hyes
        have hne : invitation.groupId ≠ g := fun he => hyes (by rw [hmay he]; rfl)
        apply guarantees_fresh_pgCall
        intro pg _ pg' h hok
        cases hok
        exact ⟨h.insertMembers hne _, hne⟩
  · intro _ hne
    apply Prog.guarantees_bind (guarantees_fresh_saveGroupMembersId hne _)
    exact fun _ _ => keepsFresh_notify _ _ _

theorem keepsFresh_removeMember (nanoid : String) (groupId : GroupId) (u : UserId)
    (memIds : List UserId) : KeepsFresh g (removeMember cfg nanoid groupId u memIds) := by
  apply Prog.guarantees_bind (P := fun _ => True)
  · apply guarantees_fresh_pgCall
    intro pg _ pg' h hok
    cases hok
    exact ⟨h.removeMember _ _ _, trivial⟩
  · exact fun _ _ => keepsFresh_notify _ _ _

theorem keepsFresh_deleteGroupHandler (nanoid : String) (u : UserId) (groupId : GroupId)
    (isDismiss : Bool) : KeepsFresh g (deleteGroupHandler cfg nanoid u groupId isDismiss) := by
  apply Prog.guarantees_bind (P := fun _ => True)
  · cases isDismiss with
    | true =>
      apply guarantees_fresh_pgCall
      intro pg _ pg' h hok
      exact ⟨h.deleteGroup hok, trivial⟩
    | false =>
      apply Prog.guarantees_bind (P := fun _ => True)
      · apply guarantees_fresh_pgCall
        intro pg isOwner pg' h hok
        cases hok
        exact ⟨h, trivial⟩
      · intro isOwner _
        split
        · trivial
        · apply guarantees_fresh_pgCall
          intro pg _ pg' h hok
          cases hok
          exact ⟨h.deleteMember _ _, trivial⟩
  · exact fun _ _ => keepsFresh_notify _ _ _

end GroupApi

namespace GroupRequest

/-- The request makes a group of this name. -/
def Creates (g : GroupId) : GroupRequest → Prop
  | create groupId _ _ _ _ => groupId = g
  | _ => False

theorem keepsFresh_handler (cfg : Config) {q : GroupRequest} (h : ¬ q.Creates g) :
    KeepsFresh g (q.handler cfg) := by
  cases q with
  | create groupId nanoid content userId newGroup =>
    exact GroupApi.keepsFresh_createGroupHandler h _ _ _ _
  | invite nanoid invitation => exact GroupApi.keepsFresh_inviteNewMembers _ _
  | remove nanoid groupId userId memId inMemory => exact GroupApi.keepsFresh_removeMember _ _ _ _
  | delete nanoid userId groupId isDismiss => exact GroupApi.keepsFresh_deleteGroupHandler _ _ _ _

end GroupRequest

/-- The notification of a dismissal. -/
def isDismissal (g : GroupId) : Payload → Bool
  | .malformed => false
  | .json msg => msg.msgType = MsgType.groupDismiss.toI32 ∧ msg.receiverId = g

/-- No user is in the cached set once the notification has been handled. -/
theorem Consumer.stillRemoves_dismissal (cfg : Config) {payload : Payload}
    (h : isDismissal g payload = true) (v : UserId) : StillRemoves g v (handleMsg cfg payload) := by
  cases payload with
  | malformed => cases h
  | json msg =>
    obtain ⟨htype, rfl⟩ := of_decide_eq_true h
    have ht : MsgType.tryFrom msg.msgType = some .groupDismiss := by
      rw [htype, MsgType.tryFrom_toI32]
    apply stillRemoves_of_update cfg ht rfl
    intro S hS
    rw [updateCachedMembers, if_pos htype]
    apply Prog.reaches_update
    · intro w
      rw [Redis.members_setMembers_same]
      exact MemberSet.not_mem_empty v
    · exact fun _ => hS

/-- The processes and the record that the consumer handles or has handled last, with three
marks for one group: its row has been deleted, the record is the notification of that, and
such a notification has been handled. -/
structure Closing (ι : Type) where
  world : World
  api : ι → M Unit
  consumer : M Unit
  record : Payload
  dismissed : Bool
  closing : Bool
  closed : Bool

namespace Closing

variable {ι : Type} (cfg : Config) (g : GroupId)

def start (w : World) : Closing ι := ⟨w, fun _ => .ret (), .ret (), .malformed, false, false, false⟩

/-- The next record. A notification that has been handled counts from here on. -/
def take (W : Closing ι) (payload : Payload) (rest : List Payload) : Closing ι :=
  { W with
    world := { W.world with queue := rest }
    consumer := Consumer.handleMsg cfg payload
    record := payload
    closing := W.dismissed && isDismissal g payload
    closed := W.closed || (W.consumer.succeeded && W.closing) }

def callConsumer (W : Closing ι) : Closing ι :=
  match Prog.step W.consumer W.world with
  | some (m, t) => { W with world := t, consumer := m }
  | none => W

variable [DecidableEq ι]

def serve (W : Closing ι) (i : ι) (q : GroupRequest) : Closing ι :=
  { W with api := Function.update W.api i (q.handler cfg) }

/-- A call of a handler; it may delete the row of the group. -/
def callApi (W : Closing ι) (i : ι) : Closing ι :=
  match Prog.step (W.api i) W.world with
  | some (m, t) =>
    { W with
      world := t
      api := Function.update W.api i m
      dismissed := W.dismissed || (W.world.pg.groups.find g ≠ none && t.pg.groups.find g = none) }
  | none => W

/-- The group has no member rows, and no handler under way adds one or caches a member. -/
def Vacated (W : Closing ι) : Prop :=
  W.world.pg.membersOf g = [] ∧ ∀ i, KeepsFresh g (W.api i)

end Closing

/-- The runs. A name is given to one group only. The states that the deletion of the row leads
to are among those allowed. `others` stands for everything that leaves alone which groups there
are, who is in them, and the cached sets. -/
inductive Closes (cfg : Config) (g : GroupId) {ι : Type} [DecidableEq ι] (allowed : Closing ι → Prop) :
    Closing ι → Prop where
  | start (w : World) : Closes cfg g allowed (.start w)
  | serve {W : Closing ι} (i : ι) (q : GroupRequest) : Closes cfg g allowed W →
      (W.api i).finished = true → (W.dismissed = true → ¬ q.Creates g) →
      Closes cfg g allowed (W.serve cfg i q)
  | api {W : Closing ι} (i : ι) : Closes cfg g allowed W →
      (W.dismissed = false → (W.callApi g i).dismissed = true → allowed (W.callApi g i)) →
      Closes cfg g allowed (W.callApi g i)
  | take {W : Closing ι} {payload : Payload} {rest : List Payload} : Closes cfg g allowed W →
      W.consumer.finished = true → W.world.queue = payload :: rest →
      Closes cfg g allowed (W.take cfg g payload rest)
  | consume {W : Closing ι} : Closes cfg g allowed W → Closes cfg g allowed W.callConsumer
  | drop {W : Closing ι} (h : GroupId) : Closes cfg g allowed W →
      Closes cfg g allowed
        { W with world := { W.world with redis := W.world.redis.setMembers h ∅ } }
  | others {W : Closing ι} (t : World) : Closes cfg g allowed W →
      (∀ h, t.pg.membersOf h = W.world.pg.membersOf h) →
      (t.pg.groups.find g = none ↔ W.world.pg.groups.find g = none) →
      t.redis.sets = W.world.redis.sets → Closes cfg g allowed { W with world := t }

/-- Once the notification has been handled, the group has no member rows, and no call for a
message to the group gives anything to a user other than its sender. -/
def DismissalSilent (cfg : Config) (g : GroupId) (allowed : ∀ {ι : Type}, Closing ι → Prop) : Prop :=
  ∀ (ι : Type) [DecidableEq ι] (W : Closing ι), Closes cfg g allowed W → W.closed = true →
    W.world.pg.membersOf g = [] ∧
    ∀ v msg, v ≠ g → W.record = .json msg → ToGroup g v msg → W.world.HubsReachable →
      Spared v W.world W.callConsumer.world

section Closes

variable {ι : Type} {W : Closing ι}

def SameTables (w t : World) : Prop :=
  (t.pg.groups, t.pg.groupMembers) = (w.pg.groups, w.pg.groupMembers)

theorem SameTables.fresh {w t : World} (h : SameTables w t) (hw : w.pg.Fresh g) : t.pg.Fresh g := by
  obtain ⟨hgroups, hmembers⟩ := Prod.mk.inj h
  refine hw.of_le (hgroups ▸ hw.1) ?_
  intro v hv
  rwa [Postgres.membersOf, hmembers] at hv

/-- What holds between the marks, the state and the programs. -/
structure Closing.Right (g : GroupId) (W : Closing ι) : Prop where
  tables : Prog.Guarantees (fun _ => True) SameTables W.consumer fun _ => True
  dismissed : W.dismissed = true → W.world.pg.Fresh g ∧ ∀ i, KeepsFresh g (W.api i)
  closing : W.closing = true → W.dismissed = true ∧ ∀ v, StillRemoves g v W.consumer ∨
    v ∉ W.world.redis.members g ∧ KeepsOutside g v W.consumer
  closed : W.closed = true → W.dismissed = true ∧ ∀ v, v ∉ W.world.redis.members g ∧
    KeepsOutside g v W.consumer
  spares : W.closed = true → ∀ v msg, v ≠ g → W.record = .json msg → ToGroup g v msg →
    Prog.Guarantees (Out g v) (Spares v) W.consumer fun _ => True

namespace Closing

/-- Something happens to the state and to the handlers; the row may be deleted. -/
theorem Right.world (h : W.Right g) (t : World) (api : ι → M Unit) {dismissed : Bool}
    (hmark : W.dismissed = true → dismissed = true)
    (hfresh : dismissed = true → t.pg.Fresh g ∧ ∀ i, KeepsFresh g (api i))
    (hkeeps : W.dismissed = true → ∀ v, KeepsOut g v W.world t) :
    Right g { W with world := t, api, dismissed } := by
  refine ⟨h.tables, hfresh, ?_, ?_, h.spares⟩
  · intro hclosing
    obtain ⟨hd, hv⟩ := h.closing hclosing
    exact ⟨hmark hd, fun v => (hv v).imp_right fun hout => ⟨hkeeps hd v hout.1, hout.2⟩⟩
  · intro hclosed
    obtain ⟨hd, hv⟩ := h.closed hclosed
    exact ⟨hmark hd, fun v => ⟨hkeeps hd v (hv v).1, (hv v).2⟩⟩

theorem Right.out (h : W.Right g) (hclosed : W.closed = true) (v : UserId) : Out g v W.world := by
  obtain ⟨hd, hv⟩ := h.closed hclosed
  exact ⟨(Postgres.fresh_iff.mp (h.dismissed hd).1).2 v, (hv v).1⟩

theorem Right.take (h : W.Right g) (payload : Payload) (rest : List Payload) :
    (W.take cfg g payload rest).Right g := by
  have hkeeps : ∀ v, KeepsOutside g v (Consumer.handleMsg cfg payload) :=
    fun v => Consumer.keepsOutside_handleMsg cfg payload
  refine ⟨?_, h.dismissed, ?_, ?_, ?_⟩
  · exact Prog.guarantees_of_frame (fun _ _ he => he) (frame_groupTables cfg payload)
  · intro hclosing
    obtain ⟨hd, hpayload⟩ := (Bool.and_eq_true_iff).mp hclosing
    exact ⟨hd, fun v => .inl (Consumer.stillRemoves_dismissal cfg hpayload v)⟩
  · intro hclosed
    obtain hclosed | hclosed := (Bool.or_eq_true_iff).mp hclosed
    · obtain ⟨hd, hv⟩ := h.closed hclosed
      exact ⟨hd, fun v => ⟨(hv v).1, hkeeps v⟩⟩
    · obtain ⟨hsucceeded, hclosing⟩ := (Bool.and_eq_true_iff).mp hclosed
      obtain ⟨hd, hv⟩ := h.closing hclosing
      refine ⟨hd, fun v => ⟨?_, hkeeps v⟩⟩
      obtain hstill | ⟨hout, -⟩ := hv v
      · rw [Prog.not_succeeded_of_reaches hstill] at hsucceeded
        cases hsucceeded
      · exact hout
  · intro _ v msg hne hrecord hto
    obtain rfl : payload = .json msg := hrecord
    exact Consumer.spares_handleMsg cfg hne hto

theorem Right.callConsumer (h : W.Right g) : W.callConsumer.Right g := by
  unfold Closing.callConsumer
  cases hstep : Prog.step W.consumer W.world with
  | none => exact h
  | some p =>
    obtain ⟨m, t⟩ := p
    obtain ⟨hsame, hm⟩ := Prog.guarantees_step (G := SameTables) (fun _ => rfl) hstep h.tables trivial
    have hfresh : W.dismissed = true → t.pg.Fresh g := fun hd => hsame.fresh (h.dismissed hd).1
    have hkeeps : W.dismissed = true → ∀ v, v ∉ W.world.redis.members g →
        KeepsOutside g v W.consumer → v ∉ t.redis.members g ∧ KeepsOutside g v m := by
      intro hd v hout hk
      have hrow := (Postgres.fresh_iff.mp (h.dismissed hd).1).2 v
      obtain ⟨hguarantee, hkm⟩ := Prog.guarantees_step keepsOut_refl hstep hk ⟨hrow, hout⟩
      exact ⟨hguarantee hout, hkm⟩
    refine ⟨hm, fun hd => ⟨hfresh hd, (h.dismissed hd).2⟩, ?_, ?_, ?_⟩
    · intro hclosing
      obtain ⟨hd, hv⟩ := h.closing hclosing
      refine ⟨hd, fun v => ?_⟩
      obtain hstill | ⟨hout, hk⟩ := hv v
      · exact Prog.reaches_step hstep hstill
      · exact .inr (hkeeps hd v hout hk)
    · intro hclosed
      obtain ⟨hd, hv⟩ := h.closed hclosed
      exact ⟨hd, fun v => hkeeps hd v (hv v).1 (hv v).2⟩
    · intro hclosed v msg hne hrecord hto
      exact (Prog.guarantees_step spares_refl hstep (h.spares hclosed v msg hne hrecord hto)
        (h.out hclosed v)).2

variable [DecidableEq ι]

theorem keepsFresh_update {api : ι → M Unit} {m : M Unit} (h : ∀ j, KeepsFresh g (api j))
    (hm : KeepsFresh g m) (i j : ι) : KeepsFresh g (Function.update api i m j) := by
  by_cases hj : j = i
  · subst hj
    rwa [Function.update_self]
  · rw [Function.update_of_ne hj]
    exact h j

theorem Right.serve (h : W.Right g) (i : ι) {q : GroupRequest}
    (hq : W.dismissed = true → ¬ q.Creates g) : (W.serve cfg i q).Right g := by
  refine h.world W.world _ id ?_ fun _ _ => keepsOut_refl _
  intro hd
  obtain ⟨hfresh, hapi⟩ := h.dismissed hd
  exact ⟨hfresh, keepsFresh_update hapi (GroupRequest.keepsFresh_handler cfg (hq hd)) i⟩

/-- The first deletion leads to a group that is vacated, and a later call of a handler leaves
it so. -/
theorem Right.callApi (h : W.Right g) (i : ι)
    (hvacated : W.dismissed = false → (W.callApi g i).dismissed = true → (W.callApi g i).Vacated g) :
    (W.callApi g i).Right g := by
  unfold Closing.callApi at hvacated ⊢
  cases hstep : Prog.step (W.api i) W.world with
  | none => exact h
  | some p =>
    obtain ⟨m, t⟩ := p
    rw [hstep] at hvacated
    dsimp only at hvacated ⊢
    have hcall : W.dismissed = true → StaysFresh g W.world t ∧ KeepsFresh g m := fun hd =>
      Prog.guarantees_step staysFresh_refl hstep ((h.dismissed hd).2 i) (h.dismissed hd).1
    apply h.world
    · intro hd
      rw [hd, Bool.true_or]
    · intro hmark
      cases hd : W.dismissed with
      | true =>
        obtain ⟨hstays, hm⟩ := hcall hd
        obtain ⟨hfresh, hapi⟩ := h.dismissed hd
        exact ⟨(hstays hfresh).1, keepsFresh_update hapi hm i⟩
      | false =>
        obtain ⟨hrows, hapi⟩ := hvacated hd hmark
        rw [hd, Bool.false_or, Bool.and_eq_true, decide_eq_true_eq, decide_eq_true_eq] at hmark
        exact ⟨⟨hmark.2, hrows⟩, hapi⟩
    · intro hd
      exact ((hcall hd).1 (h.dismissed hd).1).2

end Closing

variable [DecidableEq ι]

/-- Every run in which the group is vacated when its row is deleted keeps the marks right. -/
theorem Closes.right (h : Closes cfg g (fun W => W.Vacated g) W) : W.Right g := by
  induction h with
  | start w =>
    refine ⟨trivial, ?_, ?_, ?_, ?_⟩ <;> intro hmark <;> cases hmark
  | serve i q _ _ hq ih => exact ih.serve i hq
  | api i _ hvacated ih => exact ih.callApi i hvacated
  | take _ _ _ ih => exact ih.take _ _
  | consume _ ih => exact ih.callConsumer
  | drop j _ ih =>
    refine ih.world _ _ id ih.dismissed ?_
    intro _ v hout
    rw [Redis.members_setMembers]
    split
    · exact MemberSet.not_mem_empty v
    · exact hout
  | others t _ hrows hgroups hsets ih =>
    refine ih.world t _ id ?_ fun _ _ => keepsOut_of_sets hsets
    intro hd
    obtain ⟨hfresh, hapi⟩ := ih.dismissed hd
    exact ⟨⟨hgroups.mpr hfresh.1, (hrows g).trans hfresh.2⟩, hapi⟩

end Closes

/-- A dismissed group is silent in every run in which it is vacated when it is dismissed. -/
theorem dismissal_silent (cfg : Config) (g : GroupId) :
    DismissalSilent cfg g fun W => W.Vacated g := by
  intro ι _ W hrun hclosed
  have hright := hrun.right
  refine ⟨(hright.dismissed (hright.closed hclosed).1).1.2, ?_⟩
  intro v msg hne hrecord hto hhubs
  unfold Closing.callConsumer
  cases hstep : Prog.step W.consumer W.world with
  | none => exact spares_refl W.world hhubs
  | some p =>
    exact (Prog.guarantees_step spares_refl hstep (hright.spares hclosed v msg hne hrecord hto)
      (hright.out hclosed v)).1 hhubs

section Runs

variable {ι : Type} [DecidableEq ι] {allowed : Closing ι → Prop} {W : Closing ι}

/-- Handlers may run on once the row has been deleted. -/
theorem Closes.apis (h : Closes cfg g allowed W) (hd : W.dismissed = true) (i : ι) (n : Nat) :
    Closes cfg g allowed ((Closing.callApi g · i)^[n] W) := by
  induction n generalizing W with
  | zero => exact h
  | succ n ih =>
    rw [Function.iterate_succ_apply]
    apply ih
    · exact h.api i fun hno => by rw [hd] at hno; cases hno
    · unfold Closing.callApi
      split
      · rw [hd, Bool.true_or]
      · exact hd

theorem Closes.consumes (h : Closes cfg g allowed W) (n : Nat) :
    Closes cfg g allowed (Closing.callConsumer^[n] W) := by
  induction n generalizing W with
  | zero => exact h
  | succ n ih => exact ih h.consume

end Runs

/-- The dismissal of the group by its owner, and the record that it publishes. -/
def dismissTwo : GroupRequest := .delete "id" "b" "g" true

def dismissRecord : Payload :=
  .json
    { senderId := "b", receiverId := "g", groupId := "g", serverId := "id", sendSeq := 1,
      msgType := MsgType.groupDismiss.toI32 }

namespace Closing

/-- The row of the group is deleted. -/
def deleted (w : World) : Closing Unit := ((start w).serve .small () dismissTwo).callApi "g" ()

/-- The notification is handled. -/
def notified (w : World) : Closing Unit :=
  callConsumer^[13] (((callApi "g" · ())^[4] (deleted w)).take .small "g" dismissRecord [])

/-- A message of `a` to the group is taken, and the consumer has made some calls for it. -/
def greeted (w : World) (n : Nat) : Closing Unit :=
  callConsumer^[n]
    ({ notified w with world := { (notified w).world with queue := [.json groupHello] } }.take .small
      "g" (.json groupHello) [])

end Closing

theorem closes_greeted {allowed : Closing Unit → Prop} {w : World}
    (hdeleted : (Closing.deleted w).dismissed = true) (hallowed : allowed (Closing.deleted w))
    (hidle : ((Closing.callApi "g" · ())^[4] (Closing.deleted w)).consumer.finished = true)
    (hqueue : ((Closing.callApi "g" · ())^[4] (Closing.deleted w)).world.queue = [dismissRecord])
    (hfinished : (Closing.notified w).consumer.finished = true) (n : Nat) :
    Closes .small "g" allowed (Closing.greeted w n) := by
  have hserved : Closes .small "g" allowed ((Closing.start w).serve .small () dismissTwo) :=
    (Closes.start w).serve () dismissTwo rfl fun hno => by cases hno
  have hnotified : Closes .small "g" allowed (Closing.notified w) :=
    (((hserved.api () fun _ _ => hallowed).apis hdeleted () 4).take hidle hqueue).consumes 13
  exact ((hnotified.others { (Closing.notified w).world with queue := [.json groupHello] }
    (fun _ => rfl) Iff.rfl rfl).take hfinished rfl).consumes n

/-- The owner has removed everybody from the group. -/
def vacantGroup : World :=
  { groupOnline with pg := groupOnline.pg.removeMember "g" "b" ["a", "b"] }

theorem vacated_vacantGroup : (Closing.deleted vacantGroup).Vacated "g" :=
  ⟨by decide, fun _ => GroupApi.keepsFresh_notify "id" "b" _⟩

theorem dismissal_silent_vacant :
    (Closing.greeted vacantGroup 3).closed = true ∧
    (Closing.greeted vacantGroup 3).world.pg.membersOf "g" = [] ∧
    Spared "b" (Closing.greeted vacantGroup 3).world
      (Closing.greeted vacantGroup 3).callConsumer.world := by
  have hclosed : (Closing.greeted vacantGroup 3).closed = true := by decide
  have hrun : Closes .small "g" (fun W => W.Vacated "g") (Closing.greeted vacantGroup 3) :=
    closes_greeted (by decide) vacated_vacantGroup rfl rfl (by decide) 3
  obtain ⟨hrows, hspared⟩ := dismissal_silent .small "g" Unit _ hrun hclosed
  refine ⟨hclosed, hrows, hspared "b" groupHello (by decide) (by rfl) ?_ ?_⟩
  · exact ⟨rfl, by decide, .groupMsg, rfl, rfl⟩
  · exact groupOnline_hubs

/-- The group of two is dismissed, and `b` is given the number of the next message. -/
theorem dismissed_group_speaks : ¬ DismissalSilent .small "g" fun _ => True := by
  intro h
  have hrun : Closes .small "g" (fun _ => True) (Closing.greeted groupOnline 5) :=
    closes_greeted (by decide) trivial rfl rfl (by decide) 5
  have hspared := ((h Unit _ hrun (by decide)).2 "b" groupHello (by decide) (by rfl)
    ⟨rfl, by decide, .groupMsg, rfl, rfl⟩ groupOnline_hubs).numbers
  revert hspared
  decide

end Sandcat
