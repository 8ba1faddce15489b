import Sandcat.MemberCache

/-!
# A removal that the database refuses

`remove_member` deletes nothing for an operator without the role, and reports success. The
handler then publishes the notification all the same, and the consumer takes the listed
users out of the cached set.
-/

namespace Sandcat

open Remote

namespace Consumer

variable {cfg : Config} {g : GroupId} {w : World} {msg : Msg} {ids : List UserId}

theorem ensures_updateCachedMembers_removal {P : UserId → Prop}
    (htype : msg.msgType = MsgType.groupRemoveMember.toI32) (hgroup : msg.groupId = g)
    (hids : decodeIds msg.content = some ids) (h : ∀ v, v ∈ w.redis.members g ↔ P v) :
    Prog.Ensures (updateCachedMembers msg) w fun _ t =>
      ∀ v, v ∈ t.redis.members g ↔ P v ∧ v ∉ ids := by
  rw [updateCachedMembers, if_neg (by rw [htype]; decide), if_neg (by rw [htype]; decide),
    if_pos htype, hids, hgroup]
  dsimp only
  unfold Cache.removeGroupMemberBatch
  split
  · rename_i hnil
    apply Prog.ensures_raise
    simpa [hnil] using h
  · apply Prog.ensures_update
    intro v
    rw [Redis.members_setMembers_same, MemberSet.mem_srem, h]

/-- The numbering of a removal leaves those members cached that it does not name. -/
theorem ensures_numberMsg_removal (htype : msg.msgType = MsgType.groupRemoveMember.toI32)
    (hreceiver : msg.receiverId = g) (hgroup : msg.groupId = g)
    (hids : decodeIds msg.content = some ids) :
    Prog.Ensures (numberMsg cfg .groupRemoveMember msg) w fun _ t =>
      ∀ v, v ∈ t.redis.members g ↔ v ∈ w.membersId g ∧ v ∉ ids := by
  apply Prog.ensures_bind_ok ensures_handleSendSeq
  rintro _ w₁ ⟨pg, rfl, -, hrows⟩
  apply Prog.ensures_bind_ok (P := fun m t => m = msg ∧ t = { w with pg })
  · exact Prog.ensures_ret ⟨_, rfl, rfl, rfl⟩
  · rintro m w₁ ⟨rfl, rfl⟩
    have hsame : World.membersId { w with pg } g = w.membersId g := by
      simp only [World.membersId, hrows]
    apply Prog.ensures_bind_any (P := fun t => ∀ v, v ∈ t.redis.members g ↔ v ∈ w.membersId g ∧ v ∉ ids)
    · rw [← hsame, ← hreceiver]
      apply Prog.ensures_bind_ok (P := fun _ t => ∀ v,
        v ∈ t.redis.members m.receiverId ↔ v ∈ World.membersId { w with pg } m.receiverId)
      · apply Prog.ensures_mono ensures_getMembersId
        rintro r t ⟨list, rfl, -, -, ht⟩
        exact ⟨list, rfl, ht⟩
      · intro list w₂ h₂
        apply Prog.ensures_bind_ok (P := fun _ t => ∀ v,
          v ∈ t.redis.members m.receiverId ↔ v ∈ World.membersId { w with pg } m.receiverId)
        · exact Cache.ensures_incrGroupSeq ⟨_, rfl, h₂⟩
        · intro seq w₃ h₃
          apply Prog.ensures_bind_any (ensures_updateCachedMembers_removal htype
            (hgroup.trans hreceiver.symm) hids h₃)
          · exact fun _ t ht => Prog.ensures_ret ht
          · exact fun t ht => ht
    · exact fun _ t ht => Prog.ensures_ret ht
    · exact fun t ht => ht

/-- The cached set after the record of a removal. -/
theorem cached_after_removal (htype : msg.msgType = MsgType.groupRemoveMember.toI32)
    (hreceiver : msg.receiverId = g) (hgroup : msg.groupId = g)
    (hids : decodeIds msg.content = some ids) (hrow : w.pg.sequence.find msg.senderId ≠ none)
    (v : UserId) : v ∈ ((handleMsg cfg (.json msg)).after w).redis.members g ↔
      v ∈ w.membersId g ∧ v ∉ ids := by
  have ht : MsgType.tryFrom msg.msgType = some .groupRemoveMember := by
    rw [htype, MsgType.tryFrom_toI32]
  have hclean : (numberMsg cfg .groupRemoveMember msg).clean w = true := clean_numberMsg rfl hrow
  have hnumber := (ensures_numberMsg_removal htype hreceiver hgroup hids).holds hclean v
  rw [← hnumber, handleMsg_typed cfg ht (by decide), Prog.after, Prog.exec_bind]
  rcases (numberMsg cfg .groupRemoveMember msg).exec w with ⟨r, t⟩
  cases r with
  | error e => rfl
  | ok p =>
    have hframe : Prog.Frame World.membership (dispatch cfg .groupRemoveMember p.1 p.2) :=
      frame_dispatch _ _ _
    exact Set.ext_iff.mp (congrArg (fun m => m.1.cached g) (Prog.frame_after hframe t)) v

/-- The records of the queue are handled in their order; the consumer publishes none. -/
def drain (cfg : Config) (w : World) : World :=
  w.queue.foldl (fun w payload => (handleMsg cfg payload).after w) { w with queue := [] }

theorem drain_groupMembers (cfg : Config) (w : World) :
    (drain cfg w).pg.groupMembers = w.pg.groupMembers := by
  unfold drain
  generalize w.queue = records
  have hstart : ({ w with queue := [] } : World).pg.groupMembers = w.pg.groupMembers := rfl
  revert hstart
  generalize ({ w with queue := [] } : World) = t
  induction records generalizing t with
  | nil => exact id
  | cons payload records ih =>
    intro ht
    exact ih _ ((congrArg Prod.snd (Prog.frame_after (frame_groupTables cfg payload) t)).trans ht)

end Consumer

namespace GroupApi

variable {cfg : Config} {nanoid : String} {g : GroupId} {u : UserId} {memIds : List UserId} {w : World}

/-- The state after a request to remove members. -/
def removed (cfg : Config) (nanoid : String) (g : GroupId) (u : UserId) (memIds : List UserId)
    (w : World) : World := (removeMember cfg nanoid g u memIds).after w

/-- The record that the request publishes. -/
def removalRecord (cfg : Config) (nanoid : String) (g : GroupId) (u : UserId) (memIds : List UserId)
    (w : World) : Msg :=
  { senderId := u, receiverId := g, groupId := g, sendTime := w.now, serverId := nanoid,
    msgType := MsgType.groupRemoveMember.toI32, content := encodeIds memIds,
    sendSeq := (singleScript cfg.seqStep (w.redis.hashes (sendSeqKey u))).2.1 }

/-- Whatever the database does, the notification is published. -/
theorem removed_queue : (removed cfg nanoid g u memIds w).queue =
    w.queue ++ [.json (removalRecord cfg nanoid g u memIds w)] := rfl

theorem removed_pg : (removed cfg nanoid g u memIds w).pg = w.pg.removeMember g u memIds := rfl

/-- The database refuses. -/
theorem removed_pg_of_refused (cfg : Config) (nanoid : String) (memIds : List UserId)
    (h : w.pg.isAdminOrOwner g u = false) : (removed cfg nanoid g u memIds w).pg = w.pg := by
  rw [removed_pg, Postgres.removeMember, h]
  rfl

/-- The cached set once a refused removal has been through an empty queue. -/
theorem cached_drain_removed (cfg : Config) (nanoid : String) (hmem : InMemory memIds)
    (h : w.pg.isAdminOrOwner g u = false) (hqueue : w.queue = [])
    (hrow : w.pg.sequence.find u ≠ none) (v : UserId) :
    v ∈ (Consumer.drain cfg (removed cfg nanoid g u memIds w)).redis.members g ↔
      v ∈ w.membersId g ∧ v ∉ memIds := by
  have hpg := removed_pg_of_refused cfg nanoid memIds h
  have hmembers : World.membersId { removed cfg nanoid g u memIds w with queue := [] } g =
      w.membersId g := by
    unfold World.membersId
    rw [hpg]
    rfl
  rw [Consumer.drain, removed_queue, hqueue, List.nil_append, List.foldl_cons, List.foldl_nil,
    ← hmembers]
  apply Consumer.cached_after_removal rfl rfl rfl (decodeIds_encodeIds hmem)
  change (removed cfg nanoid g u memIds w).pg.sequence.find u ≠ none
  rwa [hpg]

end GroupApi

/-- The rows and the cached set of the group are as before the request, with the queue drained,
and so are the members that a later message is for; and no removal was announced. -/
structure NoEffect (cfg : Config) (g : GroupId) (w t : World) : Prop where
  rows : (Consumer.drain cfg t).pg.groupMembers = w.pg.groupMembers
  cached : ∀ v, v ∈ (Consumer.drain cfg t).redis.members g ↔ v ∈ w.redis.members g
  recipients : ∀ msg : Msg, msg.receiverId = g → ∀ v,
    v ∈ (Consumer.drain cfg t).recipients msg ↔ v ∈ w.recipients msg
  silent : ∀ published, t.queue = w.queue ++ published → ∀ msg, .json msg ∈ published →
    msg.msgType ≠ MsgType.groupRemoveMember.toI32

/-- A removal that the database refuses is never without effect: it is announced, and the
consumer takes the listed users out of the cached set although their rows are still there. A
later message then passes them by, as long as anybody is left in the set. -/
theorem refused_removal_has_effect (cfg : Config) (nanoid : String) (g : GroupId) (u : UserId)
    (memIds : List UserId) (w : World) (h : w.pg.isAdminOrOwner g u = false) :
    ¬ NoEffect cfg g w (GroupApi.removed cfg nanoid g u memIds w) ∧
    (Consumer.drain cfg (GroupApi.removed cfg nanoid g u memIds w)).pg.groupMembers =
      w.pg.groupMembers ∧
    (InMemory memIds → w.queue = [] → w.pg.sequence.find u ≠ none →
      (∀ v, v ∈ (Consumer.drain cfg (GroupApi.removed cfg nanoid g u memIds w)).redis.members g ↔
        v ∈ w.membersId g ∧ v ∉ memIds) ∧
      ∀ msg : Msg, msg.receiverId = g → (∃ v ∈ w.membersId g, v ∉ memIds) → ∀ v,
        v ∈ (Consumer.drain cfg (GroupApi.removed cfg nanoid g u memIds w)).recipients msg ↔
          v ∈ w.recipients msg ∧ v ∉ memIds) := by
  refine ⟨?_, ?_, ?_⟩
  · intro hno
    exact hno.silent _ GroupApi.removed_queue _ (List.mem_singleton_self _) rfl
  · rw [Consumer.drain_groupMembers, GroupApi.removed_pg_of_refused cfg nanoid memIds h]
  · intro hmem hqueue hrow
    have hcached := GroupApi.cached_drain_removed cfg nanoid hmem h hqueue hrow
    refine ⟨hcached, ?_⟩
    rintro msg rfl ⟨left, hleft⟩ v
    have hne : ((Consumer.drain cfg (GroupApi.removed cfg nanoid msg.receiverId u memIds w)).redis.members
        msg.receiverId).elems ≠ [] := List.ne_nil_of_mem ((hcached left).mpr hleft)
    rw [World.recipients, World.recipients, World.membersId, if_pos hne, List.mem_filter,
      List.mem_filter, MemberSet.mem_elems, hcached, and_right_comm]

/-- A user who is not in the group of two has its owner removed. -/
def ownerListed : World := GroupApi.removed .small "id" "g" "c" ["b"] groupOfTwo

theorem refused_removal_has_effect_listed : groupOfTwo.pg.isAdminOrOwner "g" "c" = false ∧
    ¬ NoEffect .small "g" groupOfTwo ownerListed ∧
    "b" ∈ groupOfTwo.pg.membersOf "g" ∧
    "b" ∉ (Consumer.drain .small ownerListed).redis.members "g" := by
  have hc : groupOfTwo.pg.isAdminOrOwner "g" "c" = false := by decide
  have hmem : InMemory ["b"] := ⟨by decide, by decide⟩
  obtain ⟨hno, -, heffect⟩ := refused_removal_has_effect .small "id" "g" "c" ["b"] groupOfTwo hc
  refine ⟨hc, hno, by decide, ?_⟩
  intro hb
  have hlisted := ((heffect hmem rfl (by decide)).1 "b").mp hb
  exact hlisted.2 List.mem_cons_self

/-- The next message to the group does not reach the owner. -/
theorem refused_removal_cuts_off :
    ¬ ∀ (cfg : Config) (nanoid : String) (g : GroupId) (u : UserId) (memIds : List UserId) (w : World),
      w.pg.isAdminOrOwner g u = false →
      NoEffect cfg g w (GroupApi.removed cfg nanoid g u memIds w) := by
  intro h
  have hno := h .small "id" "g" "c" ["b"] groupOfTwo (by decide)
  have hbefore : "b" ∈ groupOfTwo.recipients groupHello := by decide
  have hafter : "b" ∉ (Consumer.drain .small ownerListed).recipients groupHello := by decide
  exact hafter ((hno.recipients groupHello rfl "b").mpr hbefore)

end Sandcat
