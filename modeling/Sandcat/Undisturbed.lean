import Sandcat.Footprint

/-!
# The consumer when no call is refused

One specification for each program the consumer is made of: its result, and what
it adds to the stores. The effect on everything else is left to the footprints.
-/

namespace Sandcat

open Remote

namespace World

/-- The stored documents, whatever collection they are in. -/
def inbox (w : World) : List Document := w.mongo.docs.map Prod.snd

/-- The members that `get_members_id` answers with. -/
def membersId (w : World) (g : GroupId) : List UserId :=
  if (w.redis.members g).elems ≠ [] then (w.redis.members g).elems else w.pg.membersOf g

/-- The members that a group message is for. -/
def recipients (w : World) (msg : Msg) : List UserId :=
  (w.membersId msg.receiverId).filter (· ≠ msg.senderId)

theorem nodup_membersId (w : World) (g : GroupId) : (w.membersId g).Nodup := by
  unfold membersId
  split
  · exact (w.redis.members g).nodup
  · exact w.pg.nodup_membersOf g

theorem nodup_recipients (w : World) (msg : Msg) : (w.recipients msg).Nodup :=
  (w.nodup_membersId _).filter _

end World

theorem ensures_mongoCall {α : Type} {g : Mongo → Except Error (α × Mongo)} {w : World}
    {Q : Except Error α → World → Prop}
    (h : ∀ a mongo, g w.mongo = .ok (a, mongo) → Q (.ok a) { w with mongo }) :
    Prog.Ensures (mongoCall g) w Q := by
  apply Prog.ensures_request
  intro a t ht
  obtain ⟨p, hg, hp⟩ := eq_ok_of_map ht
  cases hp
  exact h p.1 p.2 hg

theorem ensures_pgCall {α : Type} {g : Postgres → Except Error (α × Postgres)} {w : World}
    {Q : Except Error α → World → Prop}
    (h : ∀ a pg, g w.pg = .ok (a, pg) → Q (.ok a) { w with pg }) :
    Prog.Ensures (pgCall g) w Q := by
  apply Prog.ensures_request
  intro a t ht
  obtain ⟨p, hg, hp⟩ := eq_ok_of_map ht
  cases hp
  exact h p.1 p.2 hg

/-- The loop over the members only ever changes their own two fields. -/
theorem memberMsgs_eq (m : Msg) (members : List GroupMemSeq) :
    memberMsgs m members =
      members.map fun s => { m with seq := s.curSeq, receiverId := s.memId } := by
  induction members generalizing m with
  | nil => rfl
  | cons s members ih => rw [memberMsgs, ih, List.map_cons]

/-- The sender's own copy of a group message. -/
def senderCopy (box : Box) (msg : Msg) : Msg :=
  match box with
  | .plain => msg
  | .sharded _ => { msg with receiverId := msg.senderId }

/-- The copies of a group message that are stored. -/
def groupCopies (box : Box) (msg : Msg) (members : List GroupMemSeq) : List Msg :=
  senderCopy box msg ::
    members.map fun s => { msg with sendSeq := 0, seq := s.curSeq, receiverId := s.memId }

theorem ensures_insertOne {coll : String} {d : Document} {w : World} :
    Prog.Ensures (mongoCall (Mongo.insertOne coll d)) w fun r t =>
      r = .ok () ∧ t.inbox = w.inbox ++ [d] := by
  apply ensures_mongoCall
  intro a mongo h
  unfold Mongo.insertOne at h
  split at h
  · cases h
  · cases h
    exact ⟨rfl, by simp [World.inbox]⟩

namespace HybridShardedMsgBox

variable {cfg : Config} {n : Nat} {w : World}

theorem ensures_userCollection {u : UserId} {ts : Int} :
    Prog.Ensures (userCollection cfg n u ts) w fun r t => ∃ coll, r = .ok coll ∧ t = w := by
  apply Prog.ensures_bind_ok (P := fun _ t => t = w)
  · apply Prog.ensures_request
    intro range t h
    cases hr : getUserRange cfg.hash n u with
    | none => rw [hr] at h; cases h
    | some r => rw [hr] at h; cases h; exact ⟨_, rfl, rfl⟩
  · rintro range w rfl
    apply Prog.ensures_bind_ok (P := fun _ t => t = w)
    · exact Prog.ensures_update ⟨_, rfl, rfl⟩
    · rintro now w rfl
      exact Prog.ensures_ret ⟨_, rfl, rfl⟩

theorem ensures_cached {coll : String} :
    Prog.Ensures (cached coll) w fun r t =>
      ∃ hit, r = .ok hit ∧ hit = decide (coll ∈ w.mongo.collectionCache) ∧ t = w := by
  apply ensures_mongoCall
  intro hit mongo h
  cases h
  exact ⟨_, rfl, rfl, rfl⟩

/-- A collection is opened without touching a document. -/
theorem ensures_getCollection {coll : String} :
    Prog.Ensures (getCollection coll) w fun r t => r = .ok coll ∧ t.inbox = w.inbox := by
  apply Prog.ensures_bind_ok ensures_cached
  rintro hit w ⟨-, rfl⟩
  split
  · exact Prog.ensures_ret ⟨rfl, rfl⟩
  · apply Prog.ensures_bind_ok
      (P := fun _ u => u.inbox = w.inbox ∧ coll ∈ u.mongo.collectionCache)
    · apply Prog.ensures_bind_ok (P := fun _ u => u.inbox = w.inbox)
      · apply Prog.ensures_mono (Prog.ensures_each (I := fun _ u => u.inbox = w.inbox) ?_ _ rfl)
        · rintro r u ⟨rfl, hu⟩
          exact ⟨(), rfl, hu⟩
        · intro i _ u hu
          apply ensures_mongoCall
          intro _ mongo h
          unfold Mongo.createIndex at h
          split at h
          · cases h
          · cases h
            exact ⟨rfl, hu⟩
      · intro _ u hu
        apply ensures_mongoCall
        intro _ mongo h
        cases h
        exact ⟨(), rfl, hu, List.mem_cons_self⟩
    · rintro _ u ⟨hu, hmem⟩
      apply Prog.ensures_bind_ok ensures_cached
      rintro hit _ ⟨rfl, rfl⟩
      rw [if_pos (decide_eq_true hmem)]
      exact Prog.ensures_ret ⟨rfl, hu⟩

/-- The collection of a copy is opened before the copy is stored. -/
theorem ensures_openShelf {u : UserId} {ts : Int} {β : Type} {f : String → M β}
    {Q : Except Error β → World → Prop}
    (hf : ∀ coll t, t.inbox = w.inbox → Prog.Ensures (f coll) t Q) :
    Prog.Ensures (userCollection cfg n u ts >>= fun coll => getCollection coll >>= f) w Q := by
  apply Prog.ensures_bind_ok ensures_userCollection
  rintro coll w rfl
  apply Prog.ensures_bind_ok (P := fun _ t => t.inbox = w.inbox)
  · apply Prog.ensures_mono ensures_getCollection
    rintro r t ⟨rfl, ht⟩
    exact ⟨coll, rfl, ht⟩
  · exact hf

theorem ensures_placeCopies {messages : List Msg} :
    Prog.Ensures (placeCopies cfg n messages) w fun r t =>
      ∃ placed, r = .ok placed ∧ placed.map Prod.snd = messages.map toDoc ∧ t.inbox = w.inbox := by
  induction messages generalizing w with
  | nil => exact Prog.ensures_ret ⟨[], rfl, rfl, rfl⟩
  | cons message messages ih =>
    apply ensures_openShelf
    intro collection t ht
    apply Prog.ensures_bind_ok ih
    rintro placed u ⟨hp, hu⟩
    exact Prog.ensures_ret ⟨_, rfl, by rw [List.map_cons, hp, List.map_cons], hu.trans ht⟩

end HybridShardedMsgBox

namespace MsgRecBox

open HybridShardedMsgBox

variable {cfg : Config} {w : World}

theorem ensures_saveMessage {message : Msg} :
    Prog.Ensures (saveMessage cfg message) w fun r t =>
      r = .ok () ∧ t.inbox = w.inbox ++ [toDoc message] := by
  unfold saveMessage
  cases cfg.box with
  | plain => exact ensures_insertOne
  | sharded n =>
    apply ensures_openShelf
    intro collection t ht
    apply Prog.ensures_mono ensures_insertOne
    rintro r u ⟨rfl, hu⟩
    exact ⟨rfl, ht ▸ hu⟩

/-- Both boxes store one copy for the sender and one for each member. -/
theorem ensures_saveGroupMsg {message : Msg} {members : List GroupMemSeq} :
    Prog.Ensures (saveGroupMsg cfg message members) w fun r t =>
      r = .ok () ∧ t.inbox = w.inbox ++ (groupCopies cfg.box message members).map toDoc := by
  unfold saveGroupMsg
  cases cfg.box with
  | plain =>
    apply Prog.ensures_mono (Prog.ensures_each
      (I := fun left t => t.inbox ++ left = w.inbox ++ (groupCopies .plain message members).map toDoc)
      ?_ _ ?_)
    · rintro r t ⟨rfl, ht⟩
      exact ⟨rfl, by rwa [List.append_nil] at ht⟩
    · intro d ds t ht
      apply Prog.ensures_mono ensures_insertOne
      rintro r u ⟨rfl, hu⟩
      exact ⟨rfl, by rw [hu, ← ht, List.append_assoc, List.cons_append, List.nil_append]⟩
    · rw [memberMsgs_eq]
      rfl
  | sharded n =>
    apply Prog.ensures_bind_ok ensures_placeCopies
    rintro placed t ⟨hp, ht⟩
    have hdocs : placed.map Prod.snd = (groupCopies (.sharded n) message members).map toDoc := by
      rw [hp, memberMsgs_eq]
      rfl
    apply Prog.ensures_bind_ok
      (P := fun results u => results = placed.map (fun _ => .ok ()) ∧
        u.inbox = w.inbox ++ (groupCopies (.sharded n) message members).map toDoc)
    · apply Prog.ensures_mono (Prog.ensures_all
        (I := fun left u => u.inbox ++ left.map Prod.snd = w.inbox ++ placed.map Prod.snd) ?_ _ ?_)
      · rintro r u ⟨rfl, hu⟩
        refine ⟨_, rfl, rfl, ?_⟩
        rwa [List.map_nil, List.append_nil, hdocs] at hu
      · intro p ps u hu
        apply Prog.ensures_mono ensures_insertOne
        rintro r v ⟨rfl, hv⟩
        refine ⟨rfl, ?_⟩
        rw [hv, ← hu, List.append_assoc, List.map_cons, List.cons_append, List.nil_append]
      · rw [ht]
    · rintro results u ⟨rfl, hu⟩
      have hok : ∀ ps : List (String × Document),
          firstFailure (ps.map fun _ => .ok ()) = Prog.ret () := by
        intro ps
        induction ps with
        | nil => rfl
        | cons p ps ih => exact ih
      rw [hok]
      exact Prog.ensures_ret ⟨rfl, hu⟩

end MsgRecBox

namespace World

/-- The users whose counters a message of a type draws from. -/
def addressees (w : World) (mt : MsgType) (msg : Msg) : List UserId :=
  match Consumer.classifyMsgType mt with
  | (.single, true, _) => [msg.receiverId]
  | (.single, false, _) => []
  | (.group, _, _) => w.recipients msg

/-- The message with its number, as the tasks get it. -/
def numberedMsg (w : World) (mt : MsgType) (msg : Msg) : Msg :=
  if (Consumer.classifyMsgType mt).2.1 then
    { msg with seq := (w.redis.hashes (seqKey msg.receiverId)).cur + 1 }
  else msg

/-- The recipients with their numbers, as the tasks get them. -/
def memberSeqs (w : World) (seqStep : Int) (mt : MsgType) (msg : Msg) : List GroupMemSeq :=
  match (Consumer.classifyMsgType mt).1 with
  | .single => []
  | .group => groupSeqs seqStep w.redis.hashes (w.recipients msg)

/-- The next increment of a user's receive counter opens a new block. -/
def rollsOver (w : World) (seqStep : Int) (u : UserId) : Prop :=
  (singleScript seqStep (w.redis.hashes (seqKey u))).2.2.2 = true

/-- Numbers have been drawn under some keys. -/
structure Drawn (seqStep : Int) (keys : List String) (w t : World) : Prop where
  hashes : t.redis.hashes = bumps seqStep w.redis.hashes keys
  numbered : ∀ k, t.numbered k = w.numbered k ++
    (Consecutive.above (w.redis.hashes k).cur (keys.count k)).map fun n => (w.handled, n)

theorem Drawn.bumped (w : World) (seqStep : Int) (keys : List String) :
    Drawn seqStep keys w (w.bumped seqStep keys) :=
  ⟨rfl, w.bumped_numbered seqStep keys⟩

theorem Drawn.handed {seqStep : Int} {keys : List String} {w t : World}
    (h : Drawn seqStep keys w t) (k : String) :
    t.handed k = w.handed k ++ Consecutive.above (w.redis.hashes k).cur (keys.count k) := by
  rw [World.handed, h.numbered, List.map_append, List.map_map, World.handed]
  congr 1
  exact List.map_id _

theorem Drawn.none {seqStep : Int} {w t : World} (hh : t.redis.hashes = w.redis.hashes)
    (hs : t.scripts = w.scripts) : Drawn seqStep [] w t :=
  ⟨hh, fun k => by simp [World.numbered, hs]⟩

end World

/-- The content of a removal does not name a member. -/
def badRemoval (msg : Msg) : Bool :=
  msg.msgType = MsgType.groupRemoveMember.toI32 && ((decodeIds msg.content).getD []).isEmpty

namespace Consumer

variable {cfg : Config} {w : World}

theorem ensures_saveMaxSeq {u : UserId} :
    Prog.Ensures (Db.saveMaxSeq cfg u) w fun r t => ∃ n pg, r = .ok n ∧ t = { w with pg } ∧
      Postgres.Grown cfg.seqStep (· = u) w.pg pg ∧ pg.membersOf = w.pg.membersOf := by
  apply ensures_pgCall
  intro n pg h
  unfold Postgres.saveMaxSeq at h
  cases hr : w.pg.sequence.find u with
  | none => rw [hr] at h; cases h
  | some row =>
    rw [hr] at h
    cases h
    refine ⟨_, _, rfl, rfl, ?_, rfl⟩
    exact (Postgres.grown_bumpRec _ w.pg).mono fun v hv => by simpa using hv

/-- The check of the send counter can only raise a ceiling of the sender. -/
theorem ensures_handleSendSeq {u : UserId} :
    Prog.Ensures (handleSendSeq cfg u) w fun r t => ∃ a, r = .ok a ∧ ∃ pg, t = { w with pg } ∧
      Postgres.Grown cfg.seqStep (fun _ => False) w.pg pg ∧ pg.membersOf = w.pg.membersOf := by
  apply Prog.ensures_bind_ok (P := fun _ t => t = w)
  · exact Prog.ensures_update ⟨_, rfl, rfl⟩
  · rintro sendSeq w rfl
    apply Prog.ensures_onlyIf
    · intro _
      apply Prog.ensures_void
      apply Prog.ensures_mono ensures_saveMaxSeq
      rintro r t ⟨n, pg, rfl, rfl, hg, hm⟩
      exact ⟨(), rfl, pg, rfl, hg.mono fun _ => False.elim, hm⟩
    · intro _
      exact ⟨(), rfl, w.pg, rfl, .refl _ _, rfl⟩

theorem ensures_increaseMessageSeq {u : UserId} :
    Prog.Ensures (increaseMessageSeq cfg u) w fun r t =>
      r = .ok ((w.redis.hashes (seqKey u)).cur + 1) ∧
      w.Drawn cfg.seqStep [seqKey u] t ∧
      Postgres.Grown cfg.seqStep (fun v => v = u ∧ w.rollsOver cfg.seqStep v) w.pg t.pg := by
  apply Prog.ensures_bind_ok (P := fun reply t => t = w.bumped cfg.seqStep [seqKey u] ∧
    reply = (singleScript cfg.seqStep (w.redis.hashes (seqKey u))).2)
  · exact Cache.ensures_evalSingle ⟨_, rfl, rfl, rfl⟩
  · rintro reply t ⟨rfl, rfl⟩
    apply Prog.ensures_bind_ok (P := fun _ t => w.Drawn cfg.seqStep [seqKey u] t ∧
      Postgres.Grown cfg.seqStep (fun v => v = u ∧ w.rollsOver cfg.seqStep v) w.pg t.pg)
    · apply Prog.ensures_onlyIf
      · intro _
        apply Prog.ensures_void
        apply Prog.ensures_mono ensures_saveMaxSeq
        rintro r t ⟨n, pg, rfl, rfl, hg, -⟩
        exact ⟨(), rfl, ⟨rfl, w.bumped_numbered _ _⟩, hg.mono fun v hv => hv.1⟩
      · intro hf
        refine ⟨(), rfl, .bumped w _ _, (Postgres.Grown.refl _ _).mono ?_⟩
        rintro v ⟨rfl, hv⟩
        rw [World.rollsOver, hf] at hv
        cases hv
    · intro _ t ht
      exact Prog.ensures_ret ⟨by rw [singleScript_reply_cur], ht⟩

/-- The members are added to the cached set. -/
theorem ensures_saveGroupMembersId {g : GroupId} (members : List UserId) :
    Prog.Ensures (Cache.saveGroupMembersId g members) w fun r t => r = .ok () ∧
      ∀ v, v ∈ t.redis.members g ↔ v ∈ members ∨ v ∈ w.redis.members g := by
  have hloop := Prog.ensures_each
    (f := fun v => redisCall fun r => ((), r.setMembers g ((r.members g).sadd v))) (s := w)
    (I := fun left t => ∀ v, (v ∈ left ∨ v ∈ t.redis.members g) ↔
      v ∈ members ∨ v ∈ w.redis.members g) ?_ members fun _ => Iff.rfl
  · apply Prog.ensures_mono hloop
    rintro r t ⟨hr, ht⟩
    exact ⟨hr, fun v => by simpa using ht v⟩
  · intro u left t ht
    refine Prog.ensures_update ⟨rfl, ?_⟩
    intro v
    rw [← ht v, Redis.members_setMembers_same, MemberSet.mem_sadd, List.mem_cons]
    tauto

/-- The members are read from the cache, or from the database when there are none, and are in
the cache from then on. -/
theorem ensures_getMembersId {g : GroupId} :
    Prog.Ensures (getMembersId g) w fun r t =>
      ∃ list, r = .ok list ∧ list = w.membersId g ∧ t.outsideSets = w.outsideSets ∧
        ∀ v, v ∈ t.redis.members g ↔ v ∈ w.membersId g := by
  apply Prog.ensures_frame (frame_getMembersId g)
  apply Prog.ensures_bind_ok (P := fun list t => list = (w.redis.members g).elems ∧ t = w)
  · exact Prog.ensures_update ⟨_, rfl, rfl, rfl⟩
  · rintro list w ⟨rfl, rfl⟩
    unfold World.membersId
    split
    · exact Prog.ensures_ret fun ht => ⟨_, rfl, rfl, ht, fun _ => Iff.rfl⟩
    · rename_i he
      have hnone := ((w.redis.members g).elems_eq_nil).mp (not_not.mp he)
      apply Prog.ensures_bind_ok (P := fun members t => members = w.pg.membersOf g ∧ t = w)
      · apply ensures_pgCall
        intro members pg h
        cases h
        exact ⟨_, rfl, rfl, rfl⟩
      · rintro members w ⟨rfl, rfl⟩
        apply Prog.ensures_bind_ok (P := fun _ t =>
          ∀ v, v ∈ t.redis.members g ↔ v ∈ w.pg.membersOf g)
        · apply Prog.ensures_attempt
          apply Prog.ensures_mono (ensures_saveGroupMembersId _)
          rintro r t ⟨-, ht⟩
          exact ⟨r, rfl, fun v => by simp [ht, hnone]⟩
        · intro _ t hcached
          exact Prog.ensures_ret fun ht => ⟨_, rfl, rfl, ht, hcached⟩

/-- Only a removal that names nobody fails, after the numbers are drawn. -/
theorem ensures_updateCachedMembers {msg : Msg} :
    Prog.Ensures (updateCachedMembers msg) w fun r t =>
      t.outsideSets = w.outsideSets ∧
        if badRemoval msg then ∃ e, r = .error e else r = .ok () := by
  apply Prog.ensures_frame (frame_updateCachedMembers msg)
  unfold updateCachedMembers
  split
  · rename_i h
    exact Prog.ensures_update fun ht => ⟨ht, by simp [badRemoval, h]⟩
  · split
    · rename_i h
      exact Prog.ensures_update fun ht => ⟨ht, by simp [badRemoval, h]⟩
    · split
      · rename_i h
        cases hd : decodeIds msg.content with
        | none => exact Prog.ensures_raise fun ht => ⟨ht, by simp [badRemoval, h, hd]⟩
        | some ids =>
          dsimp only
          unfold Cache.removeGroupMemberBatch
          split
          · rename_i hn
            exact Prog.ensures_raise fun ht => ⟨ht, by simp [badRemoval, h, hd, hn]⟩
          · rename_i hn
            exact Prog.ensures_update fun ht => ⟨ht, by simp [badRemoval, h, hd, hn]⟩
      · rename_i h
        exact Prog.ensures_ret fun ht => ⟨ht, by simp [badRemoval, h]⟩

theorem ensures_handleGroupSeq {msg : Msg} :
    Prog.Ensures (handleGroupSeq cfg .group msg) w fun r t =>
      w.Drawn cfg.seqStep ((w.recipients msg).map seqKey) t ∧ t.pg = w.pg ∧
        if badRemoval msg then ∃ e, r = .error e
        else r = .ok (groupSeqs cfg.seqStep w.redis.hashes (w.recipients msg)) := by
  apply Prog.ensures_bind_ok ensures_getMembersId
  rintro list w₁ ⟨rfl, h₁, -⟩
  rw [World.eq_of_outsideSets h₁]
  apply Prog.ensures_bind_ok (P := fun seq t =>
    seq = groupSeqs cfg.seqStep w.redis.hashes (w.recipients msg) ∧
      w.Drawn cfg.seqStep ((w.recipients msg).map seqKey) t ∧ t.pg = w.pg)
  · exact Cache.ensures_incrGroupSeq ⟨_, rfl, rfl, ⟨rfl, World.bumped_numbered _ _ _⟩, rfl⟩
  · rintro seq w₂ ⟨rfl, hd, hpg⟩
    apply Prog.ensures_bind
    apply Prog.ensures_mono ensures_updateCachedMembers
    rintro r t ⟨ht, hr⟩
    rw [World.eq_of_outsideSets ht]
    have hdt : w.Drawn cfg.seqStep ((w.recipients msg).map seqKey)
        { w₂ with redis := { w₂.redis with sets := t.redis.sets } } := ⟨hd.hashes, hd.numbered⟩
    cases hb : badRemoval msg with
    | true =>
      rw [hb, if_pos rfl] at hr
      obtain ⟨e, rfl⟩ := hr
      exact ⟨hdt, hpg, e, rfl⟩
    | false =>
      rw [hb, if_neg (by decide)] at hr
      subst hr
      exact Prog.ensures_ret ⟨hdt, hpg, rfl⟩

/-- A group message is not numbered for its receiver, and it is stored. -/
theorem classifyMsgType_group {mt : MsgType} (h : (classifyMsgType mt).1 = .group) :
    (classifyMsgType mt).2.1 = false ∧ getSendToDbFlag mt = true ∧ mt ≠ .read := by
  revert h
  cases mt <;> decide

theorem not_isReceived_group {mt : MsgType} (h : (classifyMsgType mt).1 = .group) {msg : Msg}
    (ht : MsgType.tryFrom msg.msgType = some mt) : isReceived msg.msgType = false := by
  rw [MsgType.eq_toI32_of_tryFrom ht]
  revert h
  cases mt <;> decide

theorem addressees_group {mt : MsgType} (h : (classifyMsgType mt).1 = .group) (w : World)
    (msg : Msg) : w.addressees mt msg = w.recipients msg := by
  unfold World.addressees
  generalize classifyMsgType mt = c at h
  obtain ⟨kind, need, hist⟩ := c
  cases h
  rfl

/-- What is numbered, and what the tasks are handed. -/
theorem ensures_numberMsg {mt : MsgType} {msg : Msg} :
    Prog.Ensures (numberMsg cfg mt msg) w fun r t =>
      w.Drawn cfg.seqStep ((w.addressees mt msg).map seqKey) t ∧
      Postgres.Grown cfg.seqStep (fun u => (classifyMsgType mt).1 = .single ∧
        u ∈ w.addressees mt msg ∧ w.rollsOver cfg.seqStep u) w.pg t.pg ∧
      if (classifyMsgType mt).1 = .group ∧ badRemoval msg = true then ∃ e, r = .error e
      else r = .ok (w.numberedMsg mt msg, w.memberSeqs cfg.seqStep mt msg) := by
  have hgroup : (classifyMsgType mt).1 = .group → (classifyMsgType mt).2.1 = false :=
    fun h => (classifyMsgType_group h).1
  unfold numberMsg World.addressees World.numberedMsg World.memberSeqs
  generalize classifyMsgType mt = c at hgroup ⊢
  obtain ⟨kind, need, hist⟩ := c
  dsimp only at hgroup ⊢
  apply Prog.ensures_bind_ok ensures_handleSendSeq
  rintro _ w₁ ⟨pg, rfl, hg, hm⟩
  cases kind with
  | single =>
    cases need with
    | false =>
      apply Prog.ensures_bind_ok (P := fun m t => m = msg ∧ t = { w with pg })
      · exact Prog.ensures_ret ⟨_, rfl, rfl, rfl⟩
      · rintro m t ⟨rfl, rfl⟩
        apply Prog.ensures_ret
        exact ⟨.none rfl rfl, hg.mono (by simp), by simp⟩
    | true =>
      apply Prog.ensures_bind_ok (P := fun m t =>
        m = { msg with seq := (w.redis.hashes (seqKey msg.receiverId)).cur + 1 } ∧
          w.Drawn cfg.seqStep [seqKey msg.receiverId] t ∧
          Postgres.Grown cfg.seqStep
            (fun u => u = msg.receiverId ∧ w.rollsOver cfg.seqStep u) w.pg t.pg)
      · apply Prog.ensures_bind
        apply Prog.ensures_mono ensures_increaseMessageSeq
        rintro r t ⟨rfl, hd, hg'⟩
        apply Prog.ensures_ret
        exact ⟨_, rfl, rfl, ⟨hd.hashes, hd.numbered⟩, (hg.trans hg').mono fun u hu => .inr hu⟩
      · rintro m t ⟨rfl, hd, hg'⟩
        apply Prog.ensures_ret
        exact ⟨hd, hg'.mono (by simp), by simp⟩
  | group =>
    obtain rfl := hgroup rfl
    apply Prog.ensures_bind_ok (P := fun m t => m = msg ∧ t = { w with pg })
    · exact Prog.ensures_ret ⟨_, rfl, rfl, rfl⟩
    · rintro m t ⟨rfl, rfl⟩
      have hrec : World.recipients { w with pg } m = w.recipients m := by
        simp only [World.recipients, World.membersId, hm]
      apply Prog.ensures_bind
      apply Prog.ensures_mono ensures_handleGroupSeq
      rintro r t ⟨hd, hpg, hr⟩
      rw [hrec] at hd hr
      have hdt : w.Drawn cfg.seqStep ((w.recipients m).map seqKey) t := ⟨hd.hashes, hd.numbered⟩
      have hgt : Postgres.Grown cfg.seqStep (fun _ => False) w.pg t.pg := hpg ▸ hg
      cases hb : badRemoval m with
      | true =>
        rw [hb, if_pos rfl] at hr
        obtain ⟨e, rfl⟩ := hr
        exact ⟨hdt, hgt.mono (by simp), by simp⟩
      | false =>
        rw [hb, if_neg (by decide)] at hr
        subst hr
        exact Prog.ensures_ret ⟨hdt, hgt.mono (by simp), by simp⟩

end Consumer

namespace World

/-- The gateways that a push goes to. -/
def connected (w : World) : List Addr :=
  if w.wsRpcList.isEmpty then
    (w.serviceCenter.filterMap fun s => s.filter fun a => (w.gateways a).isSome).dedup
  else w.wsRpcList

/-- The sends of one push. -/
def pushes (w : World) (sends : Hub → List (Client × Msg)) : List (Addr × Client × Msg) :=
  w.connected.flatMap fun addr =>
    match w.gateways addr with
    | some hub => (sends hub).map (addr, ·)
    | none => []

end World

namespace Pusher

variable {w : World}

/-- Without a gateway the push panics. -/
theorem ensures_connectedGateways :
    Prog.Ensures connectedGateways w fun r t =>
      (t.gateways = w.gateways ∧ t.deliveries = w.deliveries) ∧
        (r = .ok w.connected ∨ w.connected = [] ∧ ∃ e, r = .error e) := by
  apply Prog.ensures_bind_ok (P := fun known t => known = w.wsRpcList ∧ t = w)
  · exact Prog.ensures_update ⟨_, rfl, rfl, rfl⟩
  · rintro known w ⟨rfl, rfl⟩
    apply Prog.ensures_bind_ok (P := fun _ t => t.wsRpcList = w.connected ∧
      t.gateways = w.gateways ∧ t.deliveries = w.deliveries)
    · apply Prog.ensures_onlyIf
      · intro he
        apply Prog.ensures_bind_ok (P := fun list t => list = w.serviceCenter ∧ t = w)
        · exact Prog.ensures_update ⟨_, rfl, rfl, rfl⟩
        · rintro list w ⟨rfl, rfl⟩
          apply Prog.ensures_update
          refine ⟨(), rfl, ?_, rfl, rfl⟩
          rw [World.connected, if_pos he, List.isEmpty_iff.mp he]
          simp
      · intro hne
        exact ⟨(), rfl, by rw [World.connected, hne]; rfl, rfl, rfl⟩
    · rintro _ t ⟨hl, hg, hd⟩
      apply Prog.ensures_bind_ok (P := fun wsRpc u => wsRpc = w.connected ∧
        u.gateways = w.gateways ∧ u.deliveries = w.deliveries)
      · exact Prog.ensures_update ⟨_, rfl, hl, hg, hd⟩
      · rintro wsRpc u ⟨rfl, hu⟩
        split
        · rename_i he
          exact Prog.ensures_raise ⟨hu, .inr ⟨List.isEmpty_iff.mp he, _, rfl⟩⟩
        · exact Prog.ensures_ret ⟨hu, .inl rfl⟩

/-- Every connected gateway makes its sends. -/
theorem ensures_rpcs {sends : Hub → List (Client × Msg)} {t : World}
    (hg : t.gateways = w.gateways) (hd : t.deliveries = w.deliveries) :
    Prog.Ensures (Prog.all (w.connected.map (rpc sends))) t fun _ u =>
      u.deliveries = w.deliveries ++ w.pushes sends := by
  apply Prog.ensures_mono (Prog.ensures_all
    (I := fun left u => u.gateways = w.gateways ∧
      u.deliveries ++ left.flatMap (fun addr =>
        match w.gateways addr with
        | some hub => (sends hub).map (addr, ·)
        | none => []) = w.deliveries ++ w.pushes sends) ?_ _ ?_)
  · rintro r u ⟨-, -, hu⟩
    rwa [List.flatMap_nil, List.append_nil] at hu
  · rintro addr left u ⟨hgu, hu⟩
    apply Prog.ensures_request
    intro b v h
    rw [hgu] at h
    rw [List.flatMap_cons] at hu
    cases hh : w.gateways addr with
    | none => rw [hh] at h; cases h
    | some hub =>
      rw [hh] at h hu
      cases h
      exact ⟨rfl, rfl, by rw [← hu, List.append_assoc]⟩
  · exact ⟨hg, by rw [hd]; rfl⟩

theorem ensures_push {sends : Hub → List (Client × Msg)}
    (failed : List Addr → List (Except Error Unit) → List Addr) :
    Prog.Ensures (do
        let wsRpc ← connectedGateways
        let results ← Prog.all (wsRpc.map (rpc sends))
        remove (failed wsRpc results)) w fun _ t =>
      t.deliveries = w.deliveries ++ w.pushes sends := by
  apply Prog.ensures_bind
  apply Prog.ensures_mono ensures_connectedGateways
  rintro r t ⟨⟨hg, hd⟩, rfl | ⟨he, e, rfl⟩⟩
  · apply Prog.ensures_bind_any (ensures_rpcs hg hd)
    · intro results u hu
      exact Prog.ensures_update hu
    · exact fun _ => id
  · dsimp only
    rw [hd, World.pushes, he, List.flatMap_nil, List.append_nil]

theorem ensures_pushSingleMsg {msg : Msg} :
    Prog.Ensures (pushSingleMsg msg) w fun _ t =>
      t.deliveries = w.deliveries ++ w.pushes fun hub => hub.sendSingleMsg msg.receiverId msg :=
  ensures_push fun wsRpc results => ((wsRpc.zip results).filter isError).map Prod.fst

theorem ensures_pushGroupMsg {msg : Msg} {members : List GroupMemSeq} :
    Prog.Ensures (pushGroupMsg msg members) w fun _ t =>
      t.deliveries = w.deliveries ++ w.pushes fun hub => hub.sendGroup members msg :=
  ensures_push fun wsRpc results => ((wsRpc.zip results).takeWhile isError).map Prod.fst

end Pusher

/-- The copies of a message that are stored. -/
def storedCopies (box : Box) (mt : MsgType) (msg : Msg) (members : List GroupMemSeq) : List Msg :=
  if Consumer.getSendToDbFlag mt then
    match (Consumer.classifyMsgType mt).1 with
    | .single => [msg]
    | .group => groupCopies box msg members
  else []

namespace Consumer

variable {cfg : Config} {w : World}

theorem ensures_spawnLogged {task : M Unit} {P : World → Prop}
    (h : Prog.Ensures task w fun _ t => P t) :
    Prog.Ensures (spawnLogged task) w fun r t => ∃ b, r = .ok b ∧ P t := by
  apply Prog.ensures_bind_ok (P := fun _ t => P t)
  · exact Prog.ensures_attempt (Prog.ensures_mono h fun r t ht => ⟨r, rfl, ht⟩)
  · intro r t ht
    split <;> exact Prog.ensures_ret ⟨_, rfl, ht⟩

theorem ensures_spawn {task : M Unit} {P : World → Prop}
    (h : Prog.Ensures task w fun _ t => P t) :
    Prog.Ensures (spawn task) w fun r t => ∃ b, r = .ok b ∧ P t := by
  apply Prog.ensures_bind_ok (P := fun _ t => P t)
  · exact Prog.ensures_attempt (Prog.ensures_mono h fun r t ht => ⟨r, rfl, ht⟩)
  · intro r t ht
    split <;> exact Prog.ensures_ret ⟨_, rfl, ht⟩

theorem ensures_orRaise {α : Type} {r : Except Error α} {P : World → Prop} (h : P w) :
    Prog.Ensures (orRaise r) w fun _ t => P t := by
  cases r with
  | ok a => exact Prog.ensures_ret h
  | error e => exact Prog.ensures_raise h

section Tasks

variable {first second : M Unit} {P Q : World → Prop}

/-- Two tasks that log their errors, the first of which may be left out. -/
theorem ensures_logged {done : M (Except Error Unit)}
    (hdone : Prog.Ensures done w fun r t => ∃ b, r = .ok b ∧ P t)
    (hsecond : ∀ t, P t → Prog.Ensures second t fun _ u => Q u) :
    Prog.Ensures (do let a ← done; let b ← spawnLogged second; orRaise a; orRaise b) w
      fun _ t => Q t := by
  apply Prog.ensures_bind_ok hdone
  intro a t ht
  apply Prog.ensures_bind_ok (ensures_spawnLogged (hsecond t ht))
  intro b u hu
  apply Prog.ensures_bind_any (ensures_orRaise hu) _ fun _ => id
  exact fun _ _ hv => ensures_orRaise hv

/-- Two tasks whose results are read. -/
theorem ensures_spawned (hfirst : Prog.Ensures first w fun _ t => P t)
    (hsecond : ∀ t, P t → Prog.Ensures second t fun _ u => Q u) :
    Prog.Ensures (do
      let a ← spawn first
      let b ← spawn second
      let x ← orRaise a
      let y ← orRaise b
      orRaise x
      orRaise y) w fun _ t => Q t := by
  apply Prog.ensures_bind_ok (ensures_spawn hfirst)
  intro a t ht
  apply Prog.ensures_bind_ok (ensures_spawn (hsecond t ht))
  intro b u hu
  apply Prog.ensures_bind_any (ensures_orRaise hu) _ fun _ => id
  intro x v hv
  apply Prog.ensures_bind_any (ensures_orRaise hv) _ fun _ => id
  intro y z hz
  apply Prog.ensures_bind_any (ensures_orRaise hz) _ fun _ => id
  exact fun _ _ hz => ensures_orRaise hz

end Tasks

/-- The history store touches neither the inbox nor a ceiling. -/
theorem ensures_saveMessage {message : Msg} :
    Prog.Ensures (Db.saveMessage message) w fun _ t =>
      ∃ messages, t = { w with pg := { w.pg with messages } } := by
  apply Prog.ensures_bind_any (P := fun t => ∃ messages, t = { w with pg := { w.pg with messages } })
  · apply ensures_pgCall
    intro _ pg h
    cases h
    exact ⟨_, rfl⟩
  · intro _ t ht
    exact Prog.ensures_raise ht
  · exact fun _ => id

/-- What the storing task leaves: the copies in the inbox, and the ceilings of the
users in `p` grown. -/
def Stored (cfg : Config) (copies : List Msg) (p : UserId → Prop) (w t : World) : Prop :=
  t.inbox = w.inbox ++ copies.map toDoc ∧ Postgres.Grown cfg.seqStep p w.pg t.pg

theorem Stored.refl (cfg : Config) (w : World) : Stored cfg [] (fun _ => False) w w :=
  ⟨by simp, .refl _ _⟩

/-- A program that touches MongoDB only, after the database task. -/
theorem Stored.mongo {copies : List Msg} {p : UserId → Prop} {w₀ : World} {m : M Unit}
    (hf : Prog.Frame World.outsideMongo m) (hw : Stored cfg [] p w₀ w)
    (hm : Prog.Ensures m w fun _ t => t.inbox = w.inbox ++ copies.map toDoc) :
    Prog.Ensures m w fun _ t => Stored cfg copies p w₀ t := by
  apply Prog.ensures_frame hf
  apply Prog.ensures_mono hm
  intro r t ht hout
  refine ⟨by rw [ht, hw.1, List.map_nil, List.append_nil], ?_⟩
  rw [World.eq_of_outsideMongo hout]
  exact hw.2

theorem ensures_handleMessage {message : Msg} {need : Bool}
    (hr : isReceived message.msgType = false) :
    Prog.Ensures (handleMessage cfg message need) w fun _ t =>
      Stored cfg [message] (fun _ => False) w t := by
  apply ensures_logged (P := Stored cfg [] (fun _ => False) w)
  · split
    · apply ensures_spawnLogged
      apply Prog.ensures_mono ensures_saveMessage
      rintro r t ⟨messages, rfl⟩
      exact Stored.refl _ w
    · exact Prog.ensures_ret ⟨_, rfl, Stored.refl _ w⟩
  · intro t ht
    rw [hr, if_neg (by decide)]
    apply Stored.mongo (MsgRecBox.frame_saveMessage _ _) ht
    exact Prog.ensures_mono MsgRecBox.ensures_saveMessage fun r u hu => hu.2

theorem ensures_handleGroupMessage {message : Msg} {need : Bool}
    {members : List GroupMemSeq} :
    Prog.Ensures (handleGroupMessage cfg message need members) w fun _ t =>
      Stored cfg (groupCopies cfg.box message members)
        (· ∈ (members.filter (·.needUpdate)).map (·.memId)) w t := by
  unfold handleGroupMessage
  dsimp only
  generalize (members.filter (·.needUpdate)).map (·.memId) = needUpdate
  apply ensures_spawned (P := Stored cfg [] (· ∈ needUpdate) w)
  · apply Prog.ensures_bind_any (P := fun t => Stored cfg [] (· ∈ needUpdate) w t)
    · apply Prog.ensures_onlyIf
      · intro _
        apply ensures_pgCall
        intro _ pg h
        cases h
        exact ⟨(Stored.refl cfg w).1, Postgres.grown_saveMaxSeqBatch _ _⟩
      · intro hne
        have hnil : needUpdate = [] := by simpa using hne
        exact ⟨(Stored.refl cfg w).1, (Postgres.Grown.refl _ _).mono (by simp [hnil])⟩
    · intro _ t ht
      apply Prog.ensures_onlyIf
      · intro _
        apply Prog.ensures_mono ensures_saveMessage
        rintro r u ⟨messages, rfl⟩
        exact ht
      · intro _
        exact ht
    · exact fun _ => id
  · intro t ht
    apply Stored.mongo (MsgRecBox.frame_saveGroupMsg _ _ _) ht
    exact Prog.ensures_mono MsgRecBox.ensures_saveGroupMsg fun r u hu => hu.2

theorem frame_sendToDb (msg : Msg) (msgType : MsgType2) (need : Bool)
    (members : List GroupMemSeq) :
    Prog.Frame World.outsideStores (sendToDb cfg msg msgType need members) :=
  fun _ => KeptByStoring.sendToDb ⟨fun _ _ h => h, fun _ _ h => h, fun _ _ h => h⟩ _ _ _ _

/-- What is not stored is not a group message. -/
theorem classifyMsgType_of_not_stored {mt : MsgType} (h : getSendToDbFlag mt = false) :
    (classifyMsgType mt).1 = .single := by
  cases mt <;> first | rfl | cases h

theorem ensures_sendToDb {mt : MsgType} {msg : Msg}
    {members : List GroupMemSeq} (hr : isReceived msg.msgType = false) :
    Prog.Ensures (if getSendToDbFlag mt then spawnLogged (sendToDb cfg msg (classifyMsgType mt).1
        (classifyMsgType mt).2.2 members) else pure (.ok ())) w fun r t =>
      ∃ b, r = .ok b ∧ Stored cfg (storedCopies cfg.box mt msg members)
        (fun u => (classifyMsgType mt).1 = .group ∧
          u ∈ (members.filter (·.needUpdate)).map (·.memId)) w t ∧
        t.outsideStores = w.outsideStores := by
  unfold storedCopies
  split
  · apply ensures_spawnLogged
    apply Prog.ensures_frame (frame_sendToDb _ _ _ _)
    cases hk : (classifyMsgType mt).1 with
    | single =>
      apply Prog.ensures_mono (ensures_handleMessage hr)
      intro r t ht hout
      exact ⟨⟨ht.1, ht.2.mono (by simp)⟩, hout⟩
    | group =>
      apply Prog.ensures_mono ensures_handleGroupMessage
      intro r t ht hout
      exact ⟨⟨ht.1, ht.2.mono fun u hu => hu.2⟩, hout⟩
  · rename_i hf
    rw [classifyMsgType_of_not_stored (by simpa using hf)]
    exact Prog.ensures_ret ⟨_, rfl, ⟨by simp, (Postgres.Grown.refl _ _).mono (by simp)⟩, rfl⟩

/-- The sends that one gateway makes for a message. -/
def sendsOf (msgType : MsgType2) (msg : Msg) (members : List GroupMemSeq) (hub : Hub) :
    List (Client × Msg) :=
  match msgType with
  | .single => hub.sendSingleMsg msg.receiverId msg
  | .group => hub.sendGroup members msg

theorem ensures_pushMsg {msgType : MsgType2} {msg : Msg} {members : List GroupMemSeq} :
    Prog.Ensures (pushMsg msgType msg members) w fun _ t =>
      t.deliveries = w.deliveries ++ w.pushes (sendsOf msgType msg members) := by
  cases msgType with
  | single => exact Pusher.ensures_pushSingleMsg
  | group => exact Pusher.ensures_pushGroupMsg

/-- What the two tasks leave: the copies, the ceilings, and the sends. -/
theorem ensures_dispatch {mt : MsgType} {msg : Msg}
    {members : List GroupMemSeq} (hr : isReceived msg.msgType = false) :
    Prog.Ensures (dispatch cfg mt msg members) w fun _ t =>
      Stored cfg (storedCopies cfg.box mt msg members)
        (fun u => (classifyMsgType mt).1 = .group ∧
          u ∈ (members.filter (·.needUpdate)).map (·.memId)) w t ∧
      t.deliveries = w.deliveries ++ w.pushes (sendsOf (classifyMsgType mt).1 msg members) := by
  apply ensures_logged (ensures_sendToDb hr)
  rintro t ⟨hst, hout⟩
  apply Prog.ensures_frame (frame_pushMsg _ _ _)
  apply Prog.ensures_mono ensures_pushMsg
  intro r u hu hpu
  have hp : t.pushes (sendsOf (classifyMsgType mt).1 msg members) =
      w.pushes (sendsOf (classifyMsgType mt).1 msg members) :=
    (congrArg (fun w => World.pushes w _) hout :)
  have hd : t.deliveries = w.deliveries := (congrArg World.deliveries hout :)
  rw [hp, hd] at hu
  refine ⟨?_, hu⟩
  rw [World.eq_of_outsidePusher hpu]
  exact hst

theorem nodup_addressees (w : World) (mt : MsgType) (msg : Msg) : (w.addressees mt msg).Nodup := by
  unfold World.addressees
  split
  · exact List.nodup_singleton _
  · exact List.nodup_nil
  · exact w.nodup_recipients msg

/-- The tasks draw no number. -/
theorem drawn_kept (w : World) (keys : List String) :
    KeptByTasks cfg (w.Drawn cfg.seqStep keys) where
  mongo _ _ h := ⟨h.hashes, h.numbered⟩
  push _ _ _ h := ⟨h.hashes, h.numbered⟩
  history _ _ h := ⟨h.hashes, h.numbered⟩
  recMax _ _ h := ⟨h.hashes, h.numbered⟩

/-- The tasks lower no ceiling. -/
theorem grown_kept (p : UserId → Prop) (pg : Postgres) :
    KeptByTasks cfg fun t => Postgres.Grown cfg.seqStep p pg t.pg where
  mongo _ _ h := h
  push _ _ _ h := h
  history _ _ h := h
  recMax _ q h := (h.trans (Postgres.grown_bumpRec q _)).mono fun _ hu => .inl hu

/-- The recipients whose blocks are full are the ones the storing task looks for. -/
theorem needUpdate_memberSeqs {mt : MsgType} {msg : Msg} {u : UserId}
    (hk : (classifyMsgType mt).1 = .group) (hu : u ∈ w.recipients msg)
    (hr : w.rollsOver cfg.seqStep u) :
    u ∈ ((w.memberSeqs cfg.seqStep mt msg).filter (·.needUpdate)).map (·.memId) := by
  simp only [World.memberSeqs, hk, groupSeqs_eq_map _ _ (w.nodup_recipients msg), List.mem_map,
    List.mem_filter]
  exact ⟨_, ⟨⟨u, hu, rfl⟩, hr⟩, rfl⟩

@[simp] theorem numberedMsg_msgType (w : World) (mt : MsgType) (msg : Msg) :
    (w.numberedMsg mt msg).msgType = msg.msgType := by
  unfold World.numberedMsg
  split <;> rfl

theorem type_of_badRemoval {msg : Msg} {mt : MsgType} (h : badRemoval msg = true)
    (ht : MsgType.tryFrom msg.msgType = some mt) : mt = .groupRemoveMember := by
  rw [badRemoval, Bool.and_eq_true, decide_eq_true_eq] at h
  rw [h.1, MsgType.tryFrom_toI32] at ht
  exact (Option.some.inj ht).symm

theorem addressees_of_isReceived {msg : Msg} {mt : MsgType} (h : isReceived msg.msgType = true)
    (ht : MsgType.tryFrom msg.msgType = some mt) (w : World) : w.addressees mt msg = [] := by
  rw [MsgType.eq_toI32_of_tryFrom ht] at h
  cases mt <;> first | rfl | (exfalso; revert h; decide)

/-- The numbers and ceilings of a record of a known type. -/
theorem ensures_handleTyped {mt : MsgType} {msg : Msg}
    (ht : MsgType.tryFrom msg.msgType = some mt) :
    Prog.Ensures (numberMsg cfg mt msg >>= fun p => dispatch cfg mt p.1 p.2) w fun _ t =>
      w.Drawn cfg.seqStep ((w.addressees mt msg).map seqKey) t ∧
      Postgres.Grown cfg.seqStep (fun u => u ∈ w.addressees mt msg ∧
        w.rollsOver cfg.seqStep u ∧ badRemoval msg = false) w.pg t.pg := by
  apply Prog.ensures_bind
  apply Prog.ensures_mono ensures_numberMsg
  rintro r t ⟨hd, hg, hr⟩
  by_cases hbad : (classifyMsgType mt).1 = .group ∧ badRemoval msg = true
  · rw [if_pos hbad] at hr
    obtain ⟨e, rfl⟩ := hr
    exact ⟨hd, hg.mono fun u hu => absurd (hbad.2.symm.trans hu.2.2) (by decide)⟩
  · rw [if_neg hbad] at hr
    subst hr
    apply Prog.ensures_stable ((drawn_kept w _).dispatch _ _ _) hd
    apply Prog.ensures_stable ((grown_kept _ w.pg).dispatch _ _ _) hg
    cases hrec : isReceived msg.msgType with
    | true =>
      constructor
      intro _ hg' hd'
      refine ⟨hd', hg'.mono fun u hu => ?_⟩
      rw [addressees_of_isReceived hrec ht] at hu
      cases hu.1
    | false =>
      apply Prog.ensures_mono (ensures_dispatch (by rw [numberedMsg_msgType, hrec]))
      rintro r v ⟨hst, -⟩ _ hd'
      refine ⟨hd', (hg.trans hst.2).mono ?_⟩
      rintro u ⟨hu, hroll, -⟩
      cases hk : (classifyMsgType mt).1 with
      | single => exact .inl ⟨rfl, hu, hroll⟩
      | group =>
        rw [addressees_group hk] at hu
        exact .inr ⟨rfl, needUpdate_memberSeqs hk hu hroll⟩

/-- The numbers that a record draws, and the ceilings it raises. Only a removal that
names nobody draws numbers and leaves the ceilings. -/
theorem ensures_handleMsg (payload : Payload) :
    Prog.Ensures (handleMsg cfg payload) w fun _ t => ∃ us : List UserId, us.Nodup ∧
      w.Drawn cfg.seqStep (us.map seqKey) t ∧
      (∀ msg, payload = .json msg → badRemoval msg = true → us = w.recipients msg) ∧
      Postgres.Grown cfg.seqStep (fun u => u ∈ us ∧ w.rollsOver cfg.seqStep u ∧
        ∀ msg, payload = .json msg → badRemoval msg = false) w.pg t.pg := by
  have hnone : ∀ p : UserId → Prop,
      Postgres.Grown cfg.seqStep (fun u => u ∈ ([] : List UserId) ∧ p u) w.pg w.pg :=
    fun p => (Postgres.Grown.refl _ _).mono fun u hu => by cases hu.1
  apply handleMsg_cases (P := fun payload m => Prog.Ensures m w fun _ t =>
    ∃ us : List UserId, us.Nodup ∧ w.Drawn cfg.seqStep (us.map seqKey) t ∧
      (∀ msg, payload = .json msg → badRemoval msg = true → us = w.recipients msg) ∧
      Postgres.Grown cfg.seqStep (fun u => u ∈ us ∧ w.rollsOver cfg.seqStep u ∧
        ∀ msg, payload = .json msg → badRemoval msg = false) w.pg t.pg) cfg
  · intro e
    exact Prog.ensures_raise ⟨[], List.nodup_nil, .none rfl rfl, by rintro _ ⟨⟩, hnone _⟩
  · intro msg e ht
    refine Prog.ensures_raise ⟨[], List.nodup_nil, .none rfl rfl, ?_, hnone _⟩
    rintro _ ⟨⟩ hb
    rw [badRemoval, Bool.and_eq_true, decide_eq_true_eq] at hb
    rw [hb.1, MsgType.tryFrom_toI32] at ht
    cases ht
  · intro msg ht
    apply Prog.ensures_frame (frame_handleMsgRead cfg msg)
    constructor
    intro _ hout
    rw [World.eq_of_outsideMongo hout]
    refine ⟨[], List.nodup_nil, .none rfl rfl, ?_, hnone _⟩
    rintro _ ⟨⟩ hb
    cases type_of_badRemoval hb ht
  · intro msg mt ht _
    apply Prog.ensures_mono (ensures_handleTyped ht)
    rintro r t ⟨hd, hg⟩
    refine ⟨_, nodup_addressees w mt msg, hd, ?_, hg.mono ?_⟩
    · rintro _ ⟨⟩ hb
      obtain rfl := type_of_badRemoval hb ht
      rfl
    · rintro u ⟨hu, hroll, hb⟩
      exact ⟨hu, hroll, hb msg rfl⟩

end Consumer

end Sandcat
