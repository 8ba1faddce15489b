import Sandcat.MemberCache
import Sandcat.Lib.Rely

/-!
# A user who is not in a group

A user is out of a group without a row in the database and without a place in the
cached set. The consumer, who reads the members from the one or the other, does not
bring such a user back, and gives the user nothing of a message to the group. A record
that removes a user is not handled successfully before the user is out of the cached
set.
-/

namespace Sandcat

open Remote

variable {g : GroupId} {v : UserId} {cfg : Config}

/-- The user has no row in the group and is not in its cached set. -/
structure Out (g : GroupId) (v : UserId) (w : World) : Prop where
  row : v ∉ w.pg.membersOf g
  cached : v ∉ w.redis.members g

def KeepsOut (g : GroupId) (v : UserId) (w t : World) : Prop :=
  v ∉ w.redis.members g → v ∉ t.redis.members g

/-- Nothing has been given to a user: no number, no document, no push. -/
structure Spared (v : UserId) (w t : World) : Prop where
  numbers : t.handed (seqKey v) = w.handed (seqKey v)
  docs : t.mongo.docs.filter (fun p => p.2.getStr .receiverId = some v) =
    w.mongo.docs.filter fun p => p.2.getStr .receiverId = some v
  pushes : t.deliveries.filter (·.2.1.userId = v) = w.deliveries.filter (·.2.1.userId = v)

/-- The gateways hold hubs that register clients have built. -/
def World.HubsReachable (w : World) : Prop := ∀ addr hub, w.gateways addr = some hub → hub.Reachable

def Spares (v : UserId) (w t : World) : Prop := w.HubsReachable → Spared v w t

/-- A message to the group that another user has sent. -/
def ToGroup (g : GroupId) (v : UserId) (msg : Msg) : Prop :=
  msg.receiverId = g ∧ msg.senderId ≠ v ∧
    ∃ mt, MsgType.tryFrom msg.msgType = some mt ∧ (Consumer.classifyMsgType mt).1 = .group

/-- What is given to users is left alone. -/
def World.given (w : World) : List ScriptCall × List (String × Document) × List (Addr × Client × Msg) :=
  (w.scripts, w.mongo.docs, w.deliveries)

theorem spares_of_given {w t : World} (h : t.given = w.given) : Spares v w t := by
  obtain ⟨hscripts, hrest⟩ := Prod.mk.inj h
  obtain ⟨hdocs, hdeliveries⟩ := Prod.mk.inj hrest
  intro _
  exact ⟨World.handed_congr hscripts _, by rw [hdocs], by rw [hdeliveries]⟩

theorem spares_refl (w : World) : Spares v w w := spares_of_given rfl

theorem keepsOut_of_sets {w t : World} (h : t.redis.sets = w.redis.sets) : KeepsOut g v w t := by
  intro hv
  rwa [Redis.members, h]

theorem keepsOut_refl (w : World) : KeepsOut g v w w := id

/-- A program that does not bring the user back. -/
def KeepsOutside (g : GroupId) (v : UserId) (m : M Unit) : Prop :=
  Prog.Guarantees (Out g v) (KeepsOut g v) m fun _ => True

/-- A program that does not succeed before it has taken the user out of the cached set. -/
def StillRemoves (g : GroupId) (v : UserId) (m : M Unit) : Prop :=
  Prog.Reaches (fun w => v ∉ w.redis.members g) (KeepsOutside g v) m

namespace Consumer

section Numbering

theorem guarantees_saveGroupMembersId {h : GroupId} {members : List UserId}
    (hv : h = g → v ∉ members) :
    Prog.Guarantees (Out g v) (KeepsOut g v) (Cache.saveGroupMembersId h members) fun _ => True := by
  apply Prog.guarantees_each
  intro u hu
  apply Prog.guarantees_update
  intro w _
  refine ⟨?_, trivial⟩
  intro hout
  rw [Redis.members_setMembers]
  split
  · rename_i he
    subst he
    rw [MemberSet.mem_sadd, not_or]
    exact ⟨fun hvu => hv rfl (hvu ▸ hu), hout⟩
  · exact hout

/-- A user who is out is not among the members, from wherever they are read. -/
theorem guarantees_getMembersId (h : GroupId) :
    Prog.Guarantees (Out g v) (KeepsOut g v) (getMembersId h) fun members => h = g → v ∉ members := by
  apply Prog.guarantees_bind (P := fun list => h = g → v ∉ list)
  · apply Prog.guarantees_update
    rintro w hw
    refine ⟨keepsOut_refl w, ?_⟩
    rintro rfl
    exact hw.cached
  · intro list hlist
    split
    · exact hlist
    · apply Prog.guarantees_bind (P := fun members => h = g → v ∉ members)
      · apply Prog.guarantees_request
        rintro w members t hw hg
        cases hg
        refine ⟨keepsOut_refl w, ?_⟩
        rintro rfl
        exact hw.row
      · intro members hmembers
        apply Prog.guarantees_bind (Prog.guarantees_attempt (guarantees_saveGroupMembersId hmembers))
        intro _ _
        exact hmembers

theorem guarantees_updateCachedMembers (msg : Msg) :
    Prog.Guarantees (Out g v) (KeepsOut g v) (updateCachedMembers msg) fun _ => True := by
  have hsrem : ∀ (h : GroupId) (vs : List UserId), Prog.Guarantees (Out g v) (KeepsOut g v)
      (redisCall fun r => ((), r.setMembers h ((r.members h).srem vs))) fun _ => True := by
    intro h vs
    apply Prog.guarantees_update
    intro w _
    refine ⟨?_, trivial⟩
    intro hout
    rw [Redis.members_setMembers]
    split
    · rename_i he
      subst he
      rw [MemberSet.mem_srem]
      exact fun hin => hout hin.1
    · exact hout
  unfold updateCachedMembers
  split
  · apply Prog.guarantees_update
    intro w _
    refine ⟨?_, trivial⟩
    intro hout
    rw [Redis.members_setMembers]
    split
    · exact MemberSet.not_mem_empty v
    · exact hout
  · split
    · exact hsrem _ _
    · split
      · split
        · unfold Cache.removeGroupMemberBatch
          split
          · trivial
          · exact hsrem _ _
        · trivial
      · trivial

end Numbering

theorem keepsOutside_dispatch (mt : MsgType) (msg : Msg) (members : List GroupMemSeq) :
    KeepsOutside g v (dispatch cfg mt msg members) := by
  refine Prog.guarantees_of_frame ?_ (frame_dispatch mt msg members)
  intro w t h hout
  have hcached := congrArg (fun m => m.1.cached g) h
  exact fun hin => hout ((Set.ext_iff.mp hcached v).mp hin)

/-- No record brings a user back who is out. -/
theorem keepsOutside_handleMsg (cfg : Config) (payload : Payload) :
    KeepsOutside g v (handleMsg cfg payload) := by
  have hsets : ∀ {α : Type} {m : M α}, Prog.Frame (fun w : World => w.redis.sets) m →
      Prog.Guarantees (Out g v) (KeepsOut g v) m fun _ => True :=
    fun hm => Prog.guarantees_of_frame (fun _ _ => keepsOut_of_sets) hm
  apply handleMsg_cases (P := fun _ m => KeepsOutside g v m) cfg
  · exact fun e => trivial
  · exact fun msg e _ => trivial
  · intro msg _
    refine hsets (Prog.frame_mono (frame_handleMsgRead cfg msg) ?_)
    exact fun s t h => (congrArg (fun w : World => w.redis.sets) h :)
  · intro msg mt _ _
    refine Prog.guarantees_bind (P := fun _ => True) ?_ fun p _ => keepsOutside_dispatch mt p.1 p.2
    unfold numberMsg
    generalize classifyMsgType mt = c
    obtain ⟨kind, need, hist⟩ := c
    dsimp only
    apply Prog.guarantees_bind (hsets (frame_handleSendSeq (fun _ _ => rfl) cfg _))
    intro _ _
    apply Prog.guarantees_bind (P := fun _ => True)
    · unfold numberReceiver
      cases need with
      | false => trivial
      | true =>
        apply hsets
        apply Prog.frame_bind
        · apply Prog.frame_bind (Prog.frame_update fun _ => rfl)
          intro reply
          apply Prog.frame_bind _ fun _ => Prog.frame_ret _
          exact Prog.frame_onlyIf (Prog.frame_void (frame_pgCall (fun _ _ => rfl) _))
        · exact fun _ => Prog.frame_ret _
    · intro msg _
      refine Prog.guarantees_bind (P := fun _ => True) ?_ fun _ _ => trivial
      unfold handleGroupSeq
      split
      · trivial
      · apply Prog.guarantees_bind (guarantees_getMembersId _)
        intro members _
        apply Prog.guarantees_bind (P := fun _ => True)
        · apply hsets
          apply Prog.frame_bind (Prog.frame_update fun _ => rfl)
          intro response
          split
          · exact Prog.frame_ret _
          · exact Prog.frame_raise _
        · intro seq _
          apply Prog.guarantees_bind (guarantees_updateCachedMembers msg)
          exact fun _ _ => trivial

section Tasks

variable {R : World → Prop} {G : World → World → Prop} {task : M Unit}

theorem guarantees_spawnLogged (h : Prog.Guarantees R G task fun _ => True) :
    Prog.Guarantees R G (spawnLogged task) fun _ => True := by
  apply Prog.guarantees_bind (Prog.guarantees_attempt h)
  intro r _
  split <;> trivial

theorem guarantees_spawn (h : Prog.Guarantees R G task fun _ => True) :
    Prog.Guarantees R G (spawn task) fun _ => True := by
  apply Prog.guarantees_bind (Prog.guarantees_attempt h)
  intro r _
  split <;> trivial

theorem guarantees_orRaise {α : Type} (r : Except Error α) :
    Prog.Guarantees R G (orRaise r) fun _ => True := by
  cases r <;> trivial

theorem guarantees_handleGroupMessage {msg : Msg} {need : Bool} {members : List GroupMemSeq}
    (hbatch : ∀ us, Prog.Guarantees R G (Db.saveMaxSeqBatch cfg us) fun _ => True)
    (hhistory : Prog.Guarantees R G (Db.saveMessage msg) fun _ => True)
    (hbox : Prog.Guarantees R G (MsgRecBox.saveGroupMsg cfg msg members) fun _ => True) :
    Prog.Guarantees R G (handleGroupMessage cfg msg need members) fun _ => True := by
  apply Prog.guarantees_bind (P := fun _ => True)
  · apply guarantees_spawn
    apply Prog.guarantees_bind (Prog.guarantees_onlyIf (hbatch _))
    exact fun _ _ => Prog.guarantees_onlyIf hhistory
  · intro dbTask _
    apply Prog.guarantees_bind (guarantees_spawn hbox)
    intro msgRecBoxTask _
    apply Prog.guarantees_bind (guarantees_orRaise _)
    intro dbResult _
    apply Prog.guarantees_bind (guarantees_orRaise _)
    intro msgRecBoxResult _
    exact Prog.guarantees_bind (guarantees_orRaise _) fun _ _ => guarantees_orRaise _

theorem guarantees_dispatch {mt : MsgType} {msg : Msg} {members : List GroupMemSeq}
    (hdb : ∀ need, Prog.Guarantees R G (sendToDb cfg msg (classifyMsgType mt).1 need members)
      fun _ => True)
    (hpush : Prog.Guarantees R G (pushMsg (classifyMsgType mt).1 msg members) fun _ => True) :
    Prog.Guarantees R G (dispatch cfg mt msg members) fun _ => True := by
  apply Prog.guarantees_bind (P := fun _ => True)
  · split
    · exact guarantees_spawnLogged (hdb _)
    · trivial
  · intro toDb _
    apply Prog.guarantees_bind (guarantees_spawnLogged hpush)
    intro toPusher _
    exact Prog.guarantees_bind (guarantees_orRaise _) fun _ _ => guarantees_orRaise _

/-- Pushing changes the list of gateways and makes the sends of each gateway. -/
theorem guarantees_push {γ : Type} {f : World → γ}
    (hf : ∀ (w : World) wsRpcList, f { w with wsRpcList } = f w) (hG : ∀ w t, f t = f w → G w t)
    {sends : Hub → List (Client × Msg)}
    (hsends : ∀ (w : World) addr hub, w.gateways addr = some hub →
      G w { w with deliveries := w.deliveries ++ (sends hub).map (addr, ·) })
    (failed : List Addr → List (Except Error Unit) → List Addr) :
    Prog.Guarantees R G (do
      let wsRpc ← Pusher.connectedGateways
      let results ← Prog.all (wsRpc.map (Pusher.rpc sends))
      Pusher.remove (failed wsRpc results)) fun _ => True := by
  apply Prog.guarantees_bind (Prog.guarantees_of_frame hG (Pusher.frame_connectedGateways hf))
  intro wsRpc _
  apply Prog.guarantees_bind (P := fun _ => True)
  · apply Prog.guarantees_all
    intro m hm
    obtain ⟨addr, -, rfl⟩ := List.mem_map.mp hm
    apply Prog.guarantees_request
    intro w a t _ h
    refine ⟨?_, trivial⟩
    cases hgateway : w.gateways addr with
    | none =>
      rw [hgateway] at h
      cases h
    | some hub =>
      rw [hgateway] at h
      cases h
      exact hsends w addr hub hgateway
  · intro results _
    exact Prog.guarantees_of_frame hG (Prog.frame_update fun _ => hf _ _)

/-- The copies are placed without touching a document. -/
theorem guarantees_placeCopies {γ : Type} {f : World → γ} (hf : SeesDocs f)
    (hG : ∀ w t, f t = f w → G w t) {n : Nat} (messages : List Msg) :
    Prog.Guarantees R G (HybridShardedMsgBox.placeCopies cfg n messages)
      fun placed => ∀ p ∈ placed, ∃ m ∈ messages, p.2 = toDoc m := by
  induction messages with
  | nil =>
    intro p hp
    cases hp
  | cons message messages ih =>
    apply Prog.guarantees_bind
      (Prog.guarantees_of_frame hG (HybridShardedMsgBox.frame_userCollection f _ _ _ _))
    intro collName _
    apply Prog.guarantees_bind
      (Prog.guarantees_of_frame hG (HybridShardedMsgBox.frame_getCollection hf _))
    intro collection _
    apply Prog.guarantees_bind ih
    intro placed hplaced p hp
    obtain rfl | hp := List.mem_cons.mp hp
    · exact ⟨message, List.mem_cons_self, rfl⟩
    · obtain ⟨m, hm, he⟩ := hplaced p hp
      exact ⟨m, List.mem_cons_of_mem _ hm, he⟩

/-- A group message is stored by insertions of its copies. -/
theorem guarantees_saveCopies {γ : Type} {f : World → γ} (hf : SeesDocs f)
    (hG : ∀ w t, f t = f w → G w t) {msg : Msg} {members : List GroupMemSeq}
    (hinsert : ∀ coll, ∀ m ∈ groupCopies cfg.box msg members,
      Prog.Guarantees R G (mongoCall (Mongo.insertOne coll (toDoc m))) fun _ => True) :
    Prog.Guarantees R G (MsgRecBox.saveGroupMsg cfg msg members) fun _ => True := by
  unfold MsgRecBox.saveGroupMsg
  cases hbox : cfg.box with
  | plain =>
    rw [hbox] at hinsert
    apply Prog.guarantees_each
    intro d hd
    rw [memberMsgs_eq, ← List.map_cons] at hd
    obtain ⟨m, hm, rfl⟩ := List.mem_map.mp hd
    exact hinsert _ m hm
  | sharded n =>
    rw [hbox] at hinsert
    apply Prog.guarantees_bind (guarantees_placeCopies hf hG _)
    intro placed hplaced
    apply Prog.guarantees_bind (P := fun _ => True)
    · apply Prog.guarantees_all
      intro m hm
      obtain ⟨p, hp, rfl⟩ := List.mem_map.mp hm
      obtain ⟨copy, hcopy, he⟩ := hplaced p hp
      rw [memberMsgs_eq] at hcopy
      rw [he]
      exact hinsert _ copy hcopy
    · intro results _
      exact Prog.guarantees_of_frame hG (HybridShardedMsgBox.frame_firstFailure f results)

end Tasks

section Group

variable {R : World → Prop} {members : List GroupMemSeq} {msg : Msg}

theorem guarantees_given {α : Type} {m : M α} (hm : Prog.Frame World.given m) :
    Prog.Guarantees R (Spares v) m fun _ => True :=
  Prog.guarantees_of_frame (fun _ _ => spares_of_given) hm

theorem guarantees_incrGroupSeq {us : List UserId} (hv : v ∉ us) :
    Prog.Guarantees R (Spares v) (Cache.incrGroupSeq cfg us) fun seq => v ∉ seq.map (·.memId) := by
  unfold Cache.incrGroupSeq
  rw [Cache.evalGroup_eq]
  apply Prog.guarantees_bind
    (P := fun response => ∃ seq, collectSeq us response = some seq ∧ seq.map (·.memId) = us)
  · apply Prog.guarantees_update
    intro w _
    refine ⟨fun _ => ⟨?_, rfl, rfl⟩, _, collectSeq_groupScript _ _ _, groupSeqs_memId _ _ _⟩
    have hcount : (us.map seqKey).count (seqKey v) = 0 := by
      apply List.count_eq_zero_of_not_mem
      intro hin
      obtain ⟨u, hu, he⟩ := List.mem_map.mp hin
      exact hv (seqKey_inj.mp he ▸ hu)
    rw [World.bumped_handed, hcount]
    exact List.append_nil _
  · rintro response ⟨seq, hseq, hids⟩
    rw [hseq]
    change v ∉ seq.map (·.memId)
    rw [hids]
    exact hv

/-- The numbering of a message to the group passes a user by who is out. -/
theorem guarantees_numberMsg {mt : MsgType} (hk : (classifyMsgType mt).1 = .group)
    (hg : msg.receiverId = g) : Prog.Guarantees (Out g v) (Spares v) (numberMsg cfg mt msg)
      fun p => p.1 = msg ∧ v ∉ p.2.map (·.memId) := by
  unfold numberMsg
  rw [← Prod.eta (classifyMsgType mt), ← Prod.eta (classifyMsgType mt).2,
    (classifyMsgType_group hk).1, hk]
  dsimp only
  apply Prog.guarantees_bind (guarantees_given (frame_handleSendSeq (fun _ _ => rfl) cfg _))
  intro _ _
  apply Prog.guarantees_bind (P := fun m => m = msg)
  · exact rfl
  · intro m hm
    obtain rfl : msg = m := hm.symm
    refine Prog.guarantees_bind (P := fun seq => v ∉ seq.map (·.memId)) ?_ fun seq hseq => ⟨rfl, hseq⟩
    have hmembers : Prog.Guarantees (Out g v) (Spares v) (getMembersId msg.receiverId)
        fun members => v ∉ members := by
      have hframe : Prog.Frame World.given (getMembersId msg.receiverId) :=
        Prog.frame_mono (frame_getMembersId _) fun s t h => (congrArg World.given h :)
      apply Prog.guarantees_mono
        (Prog.guarantees_and (guarantees_given hframe) (guarantees_getMembersId _))
      · exact fun _ _ _ h => h.1
      · exact fun members h => h.2 hg
    apply Prog.guarantees_bind hmembers
    intro members hv
    apply Prog.guarantees_bind (guarantees_incrGroupSeq fun hin => hv (List.mem_filter.mp hin).1)
    intro seq hseq
    have hframe : Prog.Frame World.given (updateCachedMembers msg) :=
      Prog.frame_mono (frame_updateCachedMembers msg) fun s t h => (congrArg World.given h :)
    apply Prog.guarantees_bind (guarantees_given hframe)
    exact fun _ _ => hseq

theorem guarantees_insertOne {coll : String} {d : Document} (hd : d.getStr .receiverId ≠ some v) :
    Prog.Guarantees R (Spares v) (mongoCall (Mongo.insertOne coll d)) fun _ => True := by
  apply Prog.guarantees_request
  intro w a t _ h
  obtain ⟨p, hr, hp⟩ := eq_ok_of_map h
  cases hp
  refine ⟨fun _ => ⟨rfl, ?_, rfl⟩, trivial⟩
  unfold Mongo.insertOne at hr
  split at hr
  · cases hr
  · cases hr
    simp [hd]

/-- The copies of a message are for its sender, the group and the members. -/
theorem guarantees_saveGroupMsg (hcopies : ∀ m ∈ groupCopies cfg.box msg members, m.receiverId ≠ v) :
    Prog.Guarantees R (Spares v) (MsgRecBox.saveGroupMsg cfg msg members) fun _ => True := by
  have hgiven : SeesDocs World.given := by
    intro w mongo h
    rw [World.given, h]
    rfl
  refine guarantees_saveCopies hgiven (fun _ _ => spares_of_given) fun coll m hm => ?_
  apply guarantees_insertOne
  rw [toDoc_receiverId]
  exact fun he => hcopies m hm (Option.some.inj he)

/-- A gateway pushes a message to its members and its sender. -/
theorem guarantees_pushGroupMsg (hsender : msg.senderId ≠ v) (hv : v ∉ members.map (·.memId)) :
    Prog.Guarantees R (Spares v) (Pusher.pushGroupMsg msg members) fun _ => True := by
  refine guarantees_push (f := World.given) (fun _ _ => rfl) (fun _ _ => spares_of_given) ?_ _
  intro w addr hub hgateway hhubs
  refine ⟨rfl, rfl, ?_⟩
  have hnone : ((hub.sendGroup members msg).map (addr, ·)).filter (·.2.1.userId = v) = [] := by
    rw [List.filter_eq_nil_iff]
    intro p hp
    obtain ⟨q, hq, rfl⟩ := List.mem_map.mp hp
    simp only [decide_eq_true_eq]
    rintro rfl
    obtain hmem | ⟨hself, -⟩ := (hhubs addr hub hgateway).shape.sendGroup_cases hq
    · exact hv hmem
    · exact hsender hself.symm
  rw [List.filter_append, hnone, List.append_nil]

theorem guarantees_dispatch_group {mt : MsgType} (hk : (classifyMsgType mt).1 = .group)
    (hcopies : ∀ m ∈ groupCopies cfg.box msg members, m.receiverId ≠ v)
    (hsender : msg.senderId ≠ v) (hv : v ∉ members.map (·.memId)) :
    Prog.Guarantees R (Spares v) (dispatch cfg mt msg members) fun _ => True := by
  have hsave : Prog.Frame World.given (Db.saveMessage msg) :=
    Prog.frame_bind (frame_pgCall (fun _ _ => rfl) _) fun _ => Prog.frame_raise _
  apply guarantees_dispatch
  · intro need
    rw [hk]
    exact guarantees_handleGroupMessage (fun us => guarantees_given (frame_pgCall (fun _ _ => rfl) _))
      (guarantees_given hsave) (guarantees_saveGroupMsg hcopies)
  · rw [hk]
    exact guarantees_pushGroupMsg hsender hv

/-- A message to the group gives nothing to a user who is out. -/
theorem spares_handleMsg (cfg : Config) (hne : v ≠ g) (hto : ToGroup g v msg) :
    Prog.Guarantees (Out g v) (Spares v) (handleMsg cfg (.json msg)) fun _ => True := by
  obtain ⟨hg, hsender, mt, ht, hk⟩ := hto
  rw [handleMsg_typed cfg ht (classifyMsgType_group hk).2.2]
  apply Prog.guarantees_bind (guarantees_numberMsg hk hg)
  rintro ⟨m, members⟩ ⟨rfl, hv⟩
  refine guarantees_dispatch_group hk ?_ hsender hv
  intro copy hcopy
  obtain rfl | hcopy := List.mem_cons.mp hcopy
  · unfold senderCopy
    split
    · rw [hg]
      exact hne.symm
    · exact hsender
  · obtain ⟨s, hs, rfl⟩ := List.mem_map.mp hcopy
    exact fun he => hv (List.mem_map.mpr ⟨s, hs, he⟩)

end Group

section Removals

theorem reaches_updateCachedMembers {msg : Msg} {S : M Unit → Prop}
    (h : (g, v) ∈ removals (.json msg)) (hS : S (.ret ())) :
    Prog.Reaches (fun w => v ∉ w.redis.members g) S (updateCachedMembers msg) := by
  have hsrem : ∀ vs, v ∈ vs → Prog.Reaches (fun w : World => v ∉ w.redis.members g) S
      (redisCall fun r => ((), r.setMembers g ((r.members g).srem vs))) := by
    intro vs hv
    apply Prog.reaches_update
    · intro w
      rw [Redis.members_setMembers_same, MemberSet.mem_srem]
      exact fun hin => hin.2 hv
    · exact fun _ => hS
  by_cases hexit : msg.msgType = MsgType.groupMemberExit.toI32
  · rw [removals_exit hexit, List.map_singleton, List.mem_singleton] at h
    obtain ⟨rfl, rfl⟩ := Prod.mk.inj h
    rw [updateCachedMembers, if_neg (by rw [hexit]; decide), if_pos hexit]
    exact hsrem _ List.mem_cons_self
  · by_cases hremove : msg.msgType = MsgType.groupRemoveMember.toI32
    · rw [removals_remove hremove] at h
      obtain ⟨u, hu, he⟩ := List.mem_map.mp h
      obtain ⟨rfl, rfl⟩ := Prod.mk.inj he
      rw [updateCachedMembers, if_neg (by rw [hremove]; decide), if_neg hexit, if_pos hremove]
      cases hd : decodeIds msg.content with
      | none =>
        rw [hd] at hu
        cases hu
      | some ids =>
        rw [hd] at hu
        have hne : ids ≠ [] := List.ne_nil_of_mem hu
        dsimp only
        rw [Cache.removeGroupMemberBatch, if_neg hne]
        exact hsrem ids hu
    · rw [removals_eq_nil hexit hremove] at h
      cases h

/-- What the update of the cached set reaches is reached before a group record is handled
successfully. -/
theorem stillRemoves_of_update (cfg : Config) {msg : Msg} {mt : MsgType}
    (ht : MsgType.tryFrom msg.msgType = some mt) (hk : (classifyMsgType mt).1 = .group)
    (h : ∀ S : M Unit → Prop, S (.ret ()) →
      Prog.Reaches (fun w : World => v ∉ w.redis.members g) S (updateCachedMembers msg)) :
    StillRemoves g v (handleMsg cfg (.json msg)) := by
  rw [handleMsg_typed cfg ht (classifyMsgType_group hk).2.2]
  apply Prog.reaches_bind_left
  unfold numberMsg
  rw [← Prod.eta (classifyMsgType mt), ← Prod.eta (classifyMsgType mt).2,
    (classifyMsgType_group hk).1, hk]
  apply Prog.reaches_bind
  intro _
  have hreceiver : numberReceiver cfg false msg = .ret msg := rfl
  rw [hreceiver, Prog.ret_bind]
  apply Prog.reaches_bind_left
  apply Prog.reaches_bind
  intro members
  apply Prog.reaches_bind
  intro seq
  apply Prog.reaches_bind_left
  exact h _ (keepsOutside_dispatch mt msg seq)

/-- A record that removes a user is handled successfully only after the removal. -/
theorem stillRemoves_handleMsg (cfg : Config) {payload : Payload} (h : (g, v) ∈ removals payload) :
    StillRemoves g v (handleMsg cfg payload) := by
  cases payload with
  | malformed => cases h
  | json msg =>
    cases ht : MsgType.tryFrom msg.msgType with
    | none =>
      simp only [handleMsg, ht]
      trivial
    | some mt =>
      have hk : (classifyMsgType mt).1 = .group := by
        cases hk : (classifyMsgType mt).1 with
        | group => rfl
        | single =>
          rw [removals_single ht hk] at h
          cases h
      exact stillRemoves_of_update cfg ht hk fun S hS => reaches_updateCachedMembers h hS

end Removals

end Consumer

end Sandcat
