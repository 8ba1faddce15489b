import Sandcat.Membership
import Sandcat.Fanout
import Sandcat.Lib.Interleave

/-!
# Group handlers and consumers side by side

Any number of processes execute group handlers and handle records, call by call in
any order, and Redis may drop a cached set at any time. When all is done, a message
to a group should find the members that the database has.
-/

namespace Sandcat

open Remote SetCache Consecutive

namespace Consumer

variable {cfg : Config} {w : World} {mt : MsgType} {msg : Msg}

theorem clean_handleSendSeq {u : UserId} (h : w.pg.sequence.find u ≠ none) :
    (handleSendSeq cfg u).clean w = true := by
  obtain ⟨row, hrow⟩ := Option.ne_none_iff_exists'.mp h
  have hsave : (Db.saveMaxSeq cfg u).clean w = true := by
    rw [Db.saveMaxSeq, pgCall, Prog.clean_request, Postgres.saveMaxSeq, hrow]
    rfl
  rw [handleSendSeq, Prog.clean_bind]
  change (Prog.onlyIf _ (Prog.void (Db.saveMaxSeq cfg u))).clean w = true
  unfold Prog.onlyIf
  split
  · exact Prog.clean_bind_unrefused hsave fun _ => Prog.unrefused_ret _
  · rfl

theorem unrefused_handleGroupSeq (msgType : MsgType2) (msg : Msg) :
    Prog.Unrefused (handleGroupSeq cfg msgType msg) := by
  unfold handleGroupSeq
  split
  · exact Prog.unrefused_ret _
  · apply Prog.unrefused_bind
    · apply Prog.unrefused_bind (Prog.unrefused_update _)
      intro list
      split
      · exact Prog.unrefused_ret _
      · apply Prog.unrefused_bind fun _ => rfl
        intro members
        apply Prog.unrefused_bind
        · exact Prog.unrefused_attempt (Prog.unrefused_each (fun _ => Prog.unrefused_update _) _)
        · exact fun _ => Prog.unrefused_ret _
    · intro members
      apply Prog.unrefused_bind
      · apply Prog.unrefused_bind (Prog.unrefused_update _)
        intro response
        split
        · exact Prog.unrefused_ret _
        · exact Prog.unrefused_raise _
      · intro seq
        apply Prog.unrefused_bind _ fun _ => Prog.unrefused_ret _
        unfold updateCachedMembers
        split
        · exact Prog.unrefused_update _
        · split
          · exact Prog.unrefused_update _
          · split
            · split
              · unfold Cache.removeGroupMemberBatch
                split
                · exact Prog.unrefused_raise _
                · exact Prog.unrefused_update _
              · exact Prog.unrefused_raise _
            · exact Prog.unrefused_ret _

/-- The numbering of a group message by an existing sender meets no refusal. -/
theorem clean_numberMsg (hk : (classifyMsgType mt).1 = .group)
    (h : w.pg.sequence.find msg.senderId ≠ none) : (numberMsg cfg mt msg).clean w = true := by
  unfold numberMsg
  rw [← Prod.eta (classifyMsgType mt), ← Prod.eta (classifyMsgType mt).2,
    (classifyMsgType_group hk).1]
  apply Prog.clean_bind_unrefused (clean_handleSendSeq h)
  intro _
  apply Prog.unrefused_bind (Prog.unrefused_ret msg)
  intro msg
  apply Prog.unrefused_bind (unrefused_handleGroupSeq _ _)
  exact fun _ => Prog.unrefused_ret _

/-- A group message draws one number for each recipient, whatever becomes of the tasks. -/
theorem groupMsg_handed (ht : MsgType.tryFrom msg.msgType = some mt)
    (hk : (classifyMsgType mt).1 = .group) (h : w.pg.sequence.find msg.senderId ≠ none) (v : UserId) :
    ((handleMsg cfg (.json msg)).after w).handed (seqKey v) =
      w.handed (seqKey v) ++ if v ∈ w.recipients msg then [w.recCur v + 1] else [] := by
  have hd : w.Drawn cfg.seqStep ((w.recipients msg).map seqKey)
      ((handleMsg cfg (.json msg)).after w) := by
    have hclean : (numberMsg cfg mt msg).clean w = true := clean_numberMsg hk h
    have hnumber := ensures_numberMsg.holds hclean
    rw [addressees_group hk] at hnumber
    rw [handleMsg_typed cfg ht (classifyMsgType_group hk).2.2, Prog.after, Prog.exec_bind]
    rcases hrun : (numberMsg cfg mt msg).exec w with ⟨r, t⟩
    rw [hrun] at hnumber
    cases r with
    | ok p => exact Prog.stable_after ((drawn_kept w _).dispatch mt p.1 p.2) hnumber.1
    | error e => exact hnumber.1
  split
  · rename_i hv
    exact hd.handed_recipient (w.nodup_recipients msg) hv
  · rename_i hv
    rw [hd.handed_user, List.count_eq_zero_of_not_mem hv]
    rfl

end Consumer

/-- A request to one of the group handlers. -/
inductive GroupRequest where
  | create (groupId nanoid : String) (content : Bincode.Bytes) (userId : UserId)
      (newGroup : GroupCreate)
  | invite (nanoid : String) (invitation : GroupInviteNew)
  | remove (nanoid : String) (groupId : GroupId) (userId : UserId) (memId : List UserId)
      (inMemory : InMemory memId)
  | delete (nanoid : String) (userId : UserId) (groupId : GroupId) (isDismiss : Bool)

namespace GroupRequest

def handler (cfg : Config) : GroupRequest → M Unit
  | create groupId nanoid content userId newGroup =>
    GroupApi.createGroupHandler cfg groupId nanoid content userId newGroup
  | invite nanoid invitation => GroupApi.inviteNewMembers cfg nanoid invitation
  | remove nanoid groupId userId memId _ => GroupApi.removeMember cfg nanoid groupId userId memId
  | delete nanoid userId groupId isDismiss =>
    GroupApi.deleteGroupHandler cfg nanoid userId groupId isDismiss

/-- The users a request acts on. -/
def users : GroupRequest → List UserId
  | create _ _ _ userId newGroup => userId :: newGroup.membersId.filter (· ≠ "")
  | invite _ invitation => invitation.members
  | remove _ _ _ memId _ => memId
  | delete _ userId _ _ => [userId]

/-- The operator has the role that the request asks for. -/
def Authorised (pg : Postgres) : GroupRequest → Prop
  | create _ _ _ _ _ => True
  | invite _ invitation => pg.mayInvite invitation.groupId invitation.userId = true
  | remove _ groupId userId _ _ => pg.isAdminOrOwner groupId userId = true
  | delete _ userId groupId true => ∃ row ∈ pg.groups.rows, row.id = groupId ∧ row.owner = userId
  | delete _ userId groupId false =>
    ∃ role, pg.roleOf groupId userId = some role ∧ role ≠ .owner

theorem pays_handler (cfg : Config) (q : GroupRequest) : Pays q.users (q.handler cfg) .none := by
  cases q with
  | create groupId nanoid content userId newGroup =>
    exact GroupApi.pays_createGroupHandler groupId nanoid content userId newGroup
  | invite nanoid invitation => exact GroupApi.pays_inviteNewMembers nanoid invitation
  | remove nanoid groupId userId memId inMemory =>
    exact GroupApi.pays_removeMember nanoid groupId userId inMemory
  | delete nanoid userId groupId isDismiss =>
    exact GroupApi.pays_deleteGroupHandler nanoid userId groupId isDismiss

end GroupRequest

/-- A program under way, with what it still owes to the cache. -/
structure Process where
  users : List UserId
  prog : M Unit
  owed : Owed GroupId UserId
  pays : Pays users prog owed

namespace Process

def idle : Process := ⟨[], .ret (), .none, rfl⟩

def serving (cfg : Config) (q : GroupRequest) : Process :=
  ⟨q.users, q.handler cfg, .none, q.pays_handler cfg⟩

def handling (cfg : Config) (payload : Payload) : Process :=
  ⟨[], Consumer.handleMsg cfg payload, ⟨[], removals payload⟩, Consumer.pays_handleMsg cfg payload⟩

/-- A process that has finished owes nothing. -/
theorem owed_of_finished {P : Process} (h : P.prog.finished = true) : P.owed = .none := by
  obtain ⟨users, prog, owed, pays⟩ := P
  cases prog with
  | ret a => exact pays
  | raise e => exact pays
  | call g k => cases h

/-- What an answered call does and leaves to be paid. -/
theorem step {P : Process} {w t : World} {β : Type} {g : World → Except Error (β × World)}
    {k : Except Error β → M Unit} {b : β} (hp : P.prog = .call g k) (hg : g w = .ok (b, t)) :
    (∀ v ∈ w.pg.users.rows, v ∈ t.pg.users.rows) ∧
      ((∀ v ∈ P.users, v ∈ w.pg.users.rows) → ∃ (Q : Process) (e : Effect GroupId UserId),
        Q.prog = k (.ok b) ∧ Q.users = P.users ∧ Does e P.owed w.memberView Q.owed t.memberView) := by
  obtain ⟨users, prog, owed, pays⟩ := P
  subst hp
  obtain ⟨o, ⟨husers, hdoes⟩, hk⟩ := pays w b t hg
  refine ⟨husers, ?_⟩
  intro hexist
  obtain ⟨e, he⟩ := hdoes hexist
  exact ⟨⟨users, k (.ok b), o, hk⟩, e, rfl, rfl, he⟩

end Process

structure System (ι : Type) where
  world : World
  procs : ι → Process

namespace System

variable {ι : Type}

def owed (S : System ι) (i : ι) : Owed GroupId UserId := (S.procs i).owed

/-- All requests and all records have been dealt with. -/
def Drained (S : System ι) : Prop :=
  S.world.queue = [] ∧ ∀ i, (S.procs i).prog.finished = true

variable [DecidableEq ι]

/-- The state is `t`, and process `i` goes on as `P`. -/
def proceed (S : System ι) (t : World) (i : ι) (P : Process) : System ι :=
  ⟨t, Function.update S.procs i P⟩

theorem owed_proceed (S : System ι) (t : World) (i : ι) (P : Process) :
    (S.proceed t i P).owed = Function.update S.owed i P.owed := by
  funext j
  by_cases hj : j = i
  · subst hj
    simp [owed, proceed]
  · simp [owed, proceed, hj]

theorem procs_proceed_self (S : System ι) (t : World) (i : ι) (P : Process) :
    (S.proceed t i P).procs i = P := Function.update_self ..

/-- The users that the processes act on exist. -/
def Exist (S : System ι) : Prop := ∀ i, ∀ v ∈ (S.procs i).users, v ∈ S.world.pg.users.rows

theorem Exist.proceed {S : System ι} (h : S.Exist) {t : World} {i : ι} {P : Process}
    (hmono : ∀ v ∈ S.world.pg.users.rows, v ∈ t.pg.users.rows)
    (hP : ∀ v ∈ P.users, v ∈ S.world.pg.users.rows) : (S.proceed t i P).Exist := by
  intro j v hv
  apply hmono
  by_cases hj : j = i
  · subst hj
    rw [procs_proceed_self] at hv
    exact hP v hv
  · rw [System.proceed] at hv
    dsimp only at hv
    rw [Function.update_of_ne hj] at hv
    exact h j v hv

end System

/-- The runs. They start with cached sets that are absent or right. A request is served for
an authorised operator and on users that exist. A call that a service refuses leaves the
state alone, and its process goes on if it can still pay what it owes. `others` stands for
everything else that happens. -/
inductive Managed (cfg : Config) {ι : Type} [DecidableEq ι]
    (allowed : System ι → ι → Effect GroupId UserId → Prop) : System ι → Prop where
  | start (S : System ι) : S.world.queue = [] → (∀ i, S.procs i = .idle) →
      (∀ g, S.world.memberView.cached g = ∅ ∨
        S.world.memberView.cached g = S.world.memberView.rows g) → Managed cfg allowed S
  | serve {S : System ι} (i : ι) (q : GroupRequest) : Managed cfg allowed S →
      (S.procs i).prog.finished = true → q.Authorised S.world.pg →
      (∀ v ∈ q.users, v ∈ S.world.pg.users.rows) →
      Managed cfg allowed (S.proceed S.world i (.serving cfg q))
  | take {S : System ι} (i : ι) {payload : Payload} {rest : List Payload} : Managed cfg allowed S →
      (S.procs i).prog.finished = true → S.world.queue = payload :: rest →
      Managed cfg allowed (S.proceed { S.world with queue := rest } i (.handling cfg payload))
  | call {S : System ι} {i : ι} {P : Process} {t : World} {β : Type}
      {g : World → Except Error (β × World)} {k : Except Error β → M Unit} {b : β}
      (e : Effect GroupId UserId) : Managed cfg allowed S →
      (S.procs i).prog = .call g k → g S.world = .ok (b, t) → P.prog = k (.ok b) →
      P.users = (S.procs i).users →
      Does e (S.owed i) S.world.memberView P.owed t.memberView → allowed S i e →
      Managed cfg allowed (S.proceed t i P)
  | refused {S : System ι} {i : ι} {P : Process} {β : Type}
      {g : World → Except Error (β × World)} {k : Except Error β → M Unit} {e : Error} :
      Managed cfg allowed S → (S.procs i).prog = .call g k → g S.world = .error e →
      P.prog = k (.error e) → P.users = (S.procs i).users → P.owed = S.owed i →
      Managed cfg allowed (S.proceed S.world i P)
  | drop {S : System ι} (g : GroupId) : Managed cfg allowed S →
      Managed cfg allowed ⟨{ S.world with redis := S.world.redis.setMembers g ∅ }, S.procs⟩
  | others {S : System ι} {t : World} : Managed cfg allowed S →
      t.memberView = S.world.memberView → (∀ v ∈ S.world.pg.users.rows, v ∈ t.pg.users.rows) →
      Managed cfg allowed ⟨t, S.procs⟩

section Managed

variable {cfg : Config} {ι : Type} [DecidableEq ι]
  {allowed : System ι → ι → Effect GroupId UserId → Prop} {S : System ι}

theorem Managed.exist (h : Managed cfg allowed S) : S.Exist := by
  induction h with
  | start S _ hidle _ =>
    intro i v hv
    rw [hidle] at hv
    cases hv
  | serve i q _ _ _ hexist ih => exact ih.proceed (fun _ => id) hexist
  | take i _ _ _ ih =>
    apply ih.proceed fun _ => id
    intro v hv
    cases hv
  | @call S i _ _ _ _ _ _ e _ hp hg _ husers _ _ ih =>
    apply ih.proceed (Process.step hp hg).1
    rw [husers]
    exact ih i
  | @refused S i _ _ _ _ _ _ _ _ _ husers _ ih =>
    apply ih.proceed fun _ => id
    rw [husers]
    exact ih i
  | drop g _ ih => exact ih
  | others _ _ hmono ih => exact fun i v hv => hmono v (ih i v hv)

end Managed

/-- The next message to a group by a member is given a number for each other member, and
for nobody else. -/
def ReachesMembers (cfg : Config) (w : World) : Prop :=
  ∀ msg : Msg, msg.msgType = MsgType.groupMsg.toI32 →
    (∃ row ∈ w.pg.groups.rows, row.id = msg.receiverId) →
    msg.senderId ∈ w.pg.membersOf msg.receiverId → w.pg.sequence.find msg.senderId ≠ none →
    ∀ v, ((Consumer.handleMsg cfg (.json msg)).after w).handed (seqKey v) =
      w.handed (seqKey v) ++
        if v ∈ w.pg.membersOf msg.receiverId ∧ v ≠ msg.senderId then [w.recCur v + 1] else []

/-- Group messages reach the members once everything has been dealt with. -/
def DeliveryComplete (cfg : Config)
    (allowed : ∀ {ι : Type}, System ι → ι → Effect GroupId UserId → Prop) : Prop :=
  ∀ (ι : Type) [DecidableEq ι] (S : System ι), Managed cfg allowed S → S.Drained →
    ReachesMembers cfg S.world

/-- Each call is made when the cached set is in a state for it. -/
def InOrder {ι : Type} (S : System ι) (i : ι) (e : Effect GroupId UserId) : Prop :=
  Orderly S.world.memberView S.owed i e

/-- Calls that are made in order keep the cached sets coherent. -/
theorem Managed.coherent {cfg : Config} {ι : Type} [DecidableEq ι] {S : System ι}
    (h : Managed cfg InOrder S) : Coherent S.world.memberView S.owed := by
  induction h with
  | start S hqueue hidle hsets =>
    have hadd : ∀ g v, ¬ PendingAdd S.owed g v := by
      rintro g v ⟨i, hi⟩
      rw [System.owed, hidle] at hi
      cases hi
    refine ⟨?_, fun g v hp => absurd hp (hadd g v)⟩
    intro g
    obtain hg | hg := hsets g
    · exact .inl fun v hv => by rw [hg] at hv; cases hv
    · rw [hg]
      exact .inr ⟨fun _ hv => .inl hv, fun _ hv => .inl hv⟩
  | serve i q _ hfin _ _ ih =>
    have hnone : Function.update (System.owed _) i .none = System.owed _ :=
      (congrArg _ (Process.owed_of_finished hfin).symm).trans (Function.update_eq_self i _)
    rw [System.owed_proceed]
    exact hnone.symm ▸ ih
  | @take S i payload rest _ hfin hqueue ih =>
    rw [System.owed_proceed]
    refine ih.take (Process.owed_of_finished hfin) ?_ rfl
    simp only [World.memberView, hqueue, List.flatMap_cons, System.proceed]
  | call e _ _ _ _ _ hdoes hallowed ih =>
    rw [System.owed_proceed]
    exact (ih.does_iff hdoes).mpr hallowed
  | refused _ _ _ _ _ howed ih =>
    rw [System.owed_proceed, howed, Function.update_eq_self]
    exact ih
  | @drop S g _ ih =>
    refine ih.forget rfl rfl ?_
    intro j
    by_cases hj : j = g
    · subst hj
      right
      simp [World.memberView]
    · left
      simp only [World.memberView, Redis.members_setMembers, if_neg hj]
  | others _ hview _ ih =>
    rw [hview]
    exact ih

theorem World.mem_membersId_of_settled {w : World} {g : GroupId}
    (h : (∀ v, v ∉ w.memberView.cached g) ∨ w.memberView.cached g = w.memberView.rows g)
    (v : UserId) : v ∈ w.membersId g ↔ v ∈ w.pg.membersOf g := by
  unfold World.membersId
  split
  · rename_i hne
    obtain hnone | heq := h
    · exact absurd (((w.redis.members g).elems_eq_nil).mpr hnone) hne
    · exact Set.ext_iff.mp heq v
  · rfl

theorem group_delivery_complete (cfg : Config) : DeliveryComplete cfg InOrder := by
  intro ι _ S hrun hdrained msg ht _ _ hrow v
  have htype : MsgType.tryFrom msg.msgType = some .groupMsg := by rw [ht, MsgType.tryFrom_toI32]
  have hqueued : S.world.memberView.queued = [] := by
    rw [World.memberView, hdrained.1]
    rfl
  have hsettled := hrun.coherent.settled
    (fun i => Process.owed_of_finished (hdrained.2 i)) hqueued msg.receiverId
  rw [Consumer.groupMsg_handed htype rfl hrow]
  congr 2
  rw [World.recipients, List.mem_filter, World.mem_membersId_of_settled hsettled, decide_eq_true_eq]

section Alone

variable {cfg : Config} {ι : Type} [DecidableEq ι]

/-- A process may finish while the others wait, when nothing is forbidden. -/
theorem Managed.finish {S : System ι} (h : Managed cfg (fun _ _ _ => True) S) (i : ι)
    (hclean : (S.procs i).prog.clean S.world = true) : ∃ P : Process, P.prog.finished = true ∧
      Managed cfg (fun _ _ _ => True) (S.proceed ((S.procs i).prog.after S.world) i P) := by
  generalize hm : (S.procs i).prog = m at hclean
  induction m generalizing S with
  | ret a =>
    refine ⟨S.procs i, by rw [hm]; rfl, ?_⟩
    rw [System.proceed, Function.update_eq_self]
    exact h
  | raise e =>
    refine ⟨S.procs i, by rw [hm]; rfl, ?_⟩
    rw [System.proceed, Function.update_eq_self]
    exact h
  | call g k ih =>
    cases hg : g S.world with
    | error e =>
      rw [Prog.clean, hg] at hclean
      cases hclean
    | ok p =>
      obtain ⟨b, t⟩ := p
      obtain ⟨Q, e, hprog, husers, hdoes⟩ := (Process.step hm hg).2 (h.exist i)
      have hnext := h.call e hm hg hprog husers hdoes trivial
      rw [Prog.clean, hg] at hclean
      have hself := S.procs_proceed_self t i Q
      obtain ⟨P, hfin, hP⟩ := ih (.ok b) hnext (by rw [hself, hprog]) hclean
      refine ⟨P, hfin, ?_⟩
      rw [System.proceed, System.proceed, Function.update_idem] at hP
      rw [Prog.after, Prog.exec, hg]
      exact hP

/-- The states that one process reaches without a refused call. -/
def Alone (cfg : Config) (w : World) : Prop :=
  ∃ P : Process, P.prog.finished = true ∧
    Managed cfg (fun _ _ _ => True) (⟨w, fun _ => P⟩ : System Unit)

theorem Alone.of_proceed {w t : World} {P Q : Process}
    (h : Managed cfg (fun _ _ _ => True) (System.proceed ⟨w, fun _ => P⟩ t () Q))
    (hclean : Q.prog.clean t = true) : Alone cfg (Q.prog.after t) := by
  obtain ⟨R, hfin, hR⟩ := h.finish () hclean
  refine ⟨R, hfin, ?_⟩
  have hprocs : ∀ f : Unit → Process, Function.update f () R = fun _ => R := by
    intro f
    funext _
    exact Function.update_self ..
  rwa [System.proceed, hprocs] at hR

theorem Alone.serve {w : World} (h : Alone cfg w) (q : GroupRequest) (hq : q.Authorised w.pg)
    (husers : ∀ v ∈ q.users, v ∈ w.pg.users.rows) (hclean : (q.handler cfg).clean w = true) :
    Alone cfg ((q.handler cfg).after w) := by
  obtain ⟨P, hfin, hP⟩ := h
  exact .of_proceed (hP.serve () q hfin hq husers) hclean

theorem Alone.take {w : World} (h : Alone cfg w) {payload : Payload} {rest : List Payload}
    (hq : w.queue = payload :: rest)
    (hclean : (Consumer.handleMsg cfg payload).clean { w with queue := rest } = true) :
    Alone cfg ((Consumer.handleMsg cfg payload).after { w with queue := rest }) := by
  obtain ⟨P, hfin, hP⟩ := h
  exact .of_proceed (hP.take () hfin hq) hclean

end Alone

/-- A third user and the group of `a`, who may invite, and `b`; its cached set is absent. -/
def groupOfTwo : World :=
  let t := (Db.createUser .small "c").after twoUsers
  let groups : Table GroupRow.id := ⟨[⟨"g", "b", .admin⟩], by decide⟩
  let groupMembers : Table GroupMemberRow.key :=
    ⟨[⟨"g", "a", .admin, false⟩, ⟨"g", "b", .owner, false⟩], by decide⟩
  { t with pg := { t.pg with groups, groupMembers } }

def inviteThird : GroupRequest := .invite "id" ⟨"a", "g", ["c"]⟩

/-- The state after the invitation, and the record that it publishes. -/
def thirdInvited : World := (inviteThird.handler .small).after groupOfTwo

def inviteRecord : Payload :=
  .json
    { senderId := "a", receiverId := "g", groupId := "g", serverId := "id", sendSeq := 1,
      msgType := MsgType.groupInviteNew.toI32, content := encodeIds ["c"] }

theorem thirdInvited_queue : thirdInvited.queue = [inviteRecord] := rfl

/-- The state after that record. -/
def inviteHandled : World :=
  (Consumer.handleMsg .small inviteRecord).after { thirdInvited with queue := [] }

/-- The invitation fills the absent set with the new member only, and the consumer trusts it
from then on. -/
theorem invited_group_message_incomplete : ¬ DeliveryComplete .small fun _ _ _ => True := by
  intro h
  have hstart : Alone .small groupOfTwo := by
    refine ⟨.idle, rfl, .start _ rfl (fun _ => rfl) fun g => .inl ?_⟩
    exact Set.eq_empty_of_forall_notMem fun v hv => by cases hv
  have hmay : groupOfTwo.pg.mayInvite "g" "a" = true := by decide
  have hinvited : Alone .small thirdInvited := hstart.serve inviteThird hmay (by decide) (by decide)
  have hhandled : Alone .small inviteHandled := hinvited.take thirdInvited_queue (by decide)
  obtain ⟨P, hfin, hrun⟩ := hhandled
  have hqueue : inviteHandled.queue = [] := by decide
  have hreaches : ReachesMembers .small inviteHandled := h Unit _ hrun ⟨hqueue, fun _ => hfin⟩
  have hb := hreaches groupHello rfl (by decide) (by decide) (by decide) "b"
  have hnone : ((Consumer.handleMsg .small (.json groupHello)).after inviteHandled).handed
      (seqKey "b") = inviteHandled.handed (seqKey "b") := by decide
  rw [hnone, if_pos (by decide)] at hb
  exact List.cons_ne_nil _ _ (List.self_eq_append_right.mp hb)

end Sandcat
