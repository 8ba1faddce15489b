import Sandcat.Undisturbed
import Sandcat.Lib.Growth

/-!
# The inbox when calls may be lost

A document is known to its readers by its receiver and its number. Whatever calls
are lost, the consumer inserts each copy of a message at most once.
-/

namespace Sandcat

open Remote

/-- The fields by which a document is read, acknowledged and deleted. -/
abbrev InboxKey := Option UserId × Option Int

def Document.inboxKey (d : Document) : InboxKey := (d.getStr .receiverId, d.getI64 .seq)

def Msg.inboxKey (m : Msg) : InboxKey := (some m.receiverId, some m.seq)

@[simp] theorem toDoc_inboxKey (m : Msg) : (toDoc m).inboxKey = m.inboxKey := rfl

theorem map_toDoc_inboxKey (ms : List Msg) :
    (ms.map toDoc).map Document.inboxKey = ms.map Msg.inboxKey := by
  rw [List.map_map]
  rfl

def GroupMemSeq.inboxKey (s : GroupMemSeq) : InboxKey := (some s.memId, some s.curSeq)

theorem memberMsgs_inboxKey (m : Msg) (members : List GroupMemSeq) :
    (memberMsgs m members).map Msg.inboxKey = members.map GroupMemSeq.inboxKey := by
  rw [memberMsgs_eq, List.map_map]
  rfl

theorem groupCopies_inboxKey (box : Box) (msg : Msg) (members : List GroupMemSeq) :
    (groupCopies box msg members).map Msg.inboxKey =
      (senderCopy box msg).inboxKey :: members.map GroupMemSeq.inboxKey := by
  rw [groupCopies, List.map_cons, List.map_map]
  rfl

def World.inboxKeys (w : World) : List InboxKey := w.inbox.map Document.inboxKey

/-- Setting another field leaves a field alone. -/
theorem Document.get_set_ne (d : Document) {f g : Field} (h : f ≠ g) (v : Bson) :
    (d.set g v).get f = d.get f := by
  induction d with
  | nil => rfl
  | cons p d ih =>
    simp only [Document.set, Document.get, List.map_cons, List.find?_cons] at ih ⊢
    by_cases hg : p.1 = g
    · have hf : ¬ g = f := fun he => h he.symm
      simp only [hg, if_true, hf, decide_false]
      exact ih
    · simp only [hg, if_false]
      split
      · rfl
      · exact ih

theorem Document.inboxKey_set_isRead (d : Document) (v : Bson) :
    (d.set .isRead v).inboxKey = d.inboxKey := by
  simp only [Document.inboxKey, Document.getStr, Document.getI64,
    d.get_set_ne (f := .receiverId) (g := .isRead) (by decide),
    d.get_set_ne (f := .seq) (g := .isRead) (by decide)]

theorem seesDocs_inboxKeys : SeesDocs World.inboxKeys := by
  intro w mongo h
  rw [World.inboxKeys, World.inbox, h]
  rfl

section Calls

theorem adds_mongoCall {α : Type} {g : Mongo → Except Error (α × Mongo)} {ks : List InboxKey}
    (hg : ∀ m a m', g m = .ok (a, m') → (m'.docs.map (·.2.inboxKey)).Sublist
      (m.docs.map (·.2.inboxKey) ++ ks)) : Prog.Adds World.inboxKeys ks (mongoCall g) := by
  apply Prog.adds_request
  intro w a t h
  obtain ⟨p, hr, hp⟩ := eq_ok_of_map h
  cases hp
  have := hg w.mongo p.1 p.2 hr
  simp only [World.inboxKeys, World.inbox, List.map_map]
  exact this

theorem adds_insertOne (coll : String) (d : Document) :
    Prog.Adds World.inboxKeys [d.inboxKey] (mongoCall (Mongo.insertOne coll d)) := by
  apply adds_mongoCall
  intro m a m' h
  unfold Mongo.insertOne at h
  split at h
  · cases h
  · cases h
    simp

end Calls

namespace HybridShardedMsgBox

/-- The copies that are placed are the ones to be stored. -/
theorem faulty_placeCopies {cfg : Config} {n : Nat} {messages : List Msg} {w t : World}
    {placed : List (String × Document)}
    (h : Prog.Faulty (placeCopies cfg n messages) w (.ok placed) t) :
    placed.map (·.2.inboxKey) = messages.map Msg.inboxKey := by
  induction messages generalizing w t placed with
  | nil => cases h; rfl
  | cons message messages ih =>
    obtain ⟨collName, w₁, -, h⟩ := Prog.faulty_bind_ok h
    obtain ⟨collection, w₂, -, h⟩ := Prog.faulty_bind_ok h
    obtain ⟨rest, w₃, hr, h⟩ := Prog.faulty_bind_ok h
    cases h
    rw [List.map_cons, ih hr, List.map_cons]
    rfl

end HybridShardedMsgBox

namespace MsgRecBox

open HybridShardedMsgBox

variable (cfg : Config)

theorem adds_saveMessage (message : Msg) :
    Prog.Adds World.inboxKeys [message.inboxKey] (saveMessage cfg message) := by
  unfold saveMessage
  cases cfg.box with
  | plain => exact adds_insertOne _ _
  | sharded n =>
    apply Prog.adds_frame_bind (frame_userCollection _ _ _ _ _)
    intro collName
    apply Prog.adds_frame_bind (frame_getCollection seesDocs_inboxKeys _)
    intro collection
    exact adds_insertOne _ _

theorem adds_saveGroupMsg (message : Msg) (members : List GroupMemSeq) :
    Prog.Adds World.inboxKeys ((groupCopies cfg.box message members).map Msg.inboxKey)
      (saveGroupMsg cfg message members) := by
  rw [groupCopies_inboxKey]
  unfold saveGroupMsg
  cases cfg.box with
  | plain =>
    have h := Prog.adds_each (fun d => adds_insertOne Mongo.collSingleBox d)
      (toDoc message :: (memberMsgs { message with sendSeq := 0 } members).map toDoc)
    rw [List.map_cons, map_toDoc_inboxKey, memberMsgs_inboxKey] at h
    exact h
  | sharded n =>
    have hplaced : ∀ (w : World) placed t, Prog.Faulty (placeCopies cfg n
        ({ message with receiverId := message.senderId } ::
          memberMsgs { message with sendSeq := 0 } members)) w (.ok placed) t →
        placed.map (·.2.inboxKey) = (senderCopy (.sharded n) message).inboxKey ::
          members.map GroupMemSeq.inboxKey := by
      intro w placed t h
      rw [faulty_placeCopies h, List.map_cons, memberMsgs_inboxKey]
      rfl
    apply Prog.adds_bind_of (Prog.adds_of_frame (frame_placeCopies seesDocs_inboxKeys _ _ _)) hplaced
    intro placed hkeys
    have h := Prog.adds_all (fun p : String × Document => adds_insertOne p.1 p.2) placed
    rw [hkeys] at h
    exact Prog.adds_bind_frame h fun results => frame_firstFailure World.inboxKeys results

theorem adds_deleteOne {α : Type} (coll messageId : String) (k : Nat × Mongo → α) :
    Prog.Adds World.inboxKeys [] (mongoCall fun m =>
      .ok (k (m.deleteOne coll messageId), (m.deleteOne coll messageId).2)) := by
  apply adds_mongoCall
  intro m a m' h
  cases h
  unfold Mongo.deleteOne
  rw [List.append_nil]
  dsimp only
  split
  · exact List.eraseP_sublist.map _
  · exact List.Sublist.refl _

theorem adds_deleteFrom (messageId : String) (colls : List String) :
    Prog.Adds World.inboxKeys [] (deleteFrom messageId colls) := by
  induction colls with
  | nil => exact Prog.adds_ret ()
  | cons coll colls ih =>
    apply Prog.adds_frame_bind (frame_getCollection seesDocs_inboxKeys coll)
    intro collection
    apply Prog.adds_bind (adds_deleteOne collection messageId Prod.fst)
    intro deletedCount
    split
    · exact Prog.adds_ret ()
    · exact ih

theorem adds_deleteMessage (messageId : String) :
    Prog.Adds World.inboxKeys [] (deleteMessage cfg messageId) := by
  unfold deleteMessage
  cases cfg.box with
  | plain => exact adds_deleteOne _ messageId fun _ => ()
  | sharded n =>
    apply Prog.adds_frame_bind (frame_mongoCall_docs seesDocs_inboxKeys ?_)
    · intro activeCollections
      exact adds_deleteFrom messageId activeCollections
    · intro m a m' h
      cases h
      rfl

/-- An acknowledgement changes neither receiver nor number. -/
theorem frame_msgRead_keys (u : UserId) (seqs : List Int) :
    Prog.Frame World.inboxKeys (msgRead cfg u seqs) := by
  apply frame_msgRead seesDocs_inboxKeys
  intro w coll
  simp only [World.inboxKeys, World.inbox, Mongo.setRead, List.map_map]
  apply List.map_congr_left
  intro q _
  simp only [Function.comp]
  split
  · exact q.2.inboxKey_set_isRead _
  · rfl

end MsgRecBox

namespace Consumer

theorem frame_handleSendSeq {γ : Type} {f : World → γ} (hf : ∀ (w : World) pg, f { w with pg } = f w)
    (cfg : Config) (u : UserId) : Prog.Frame f (handleSendSeq cfg u) := by
  apply Prog.frame_bind (Prog.frame_update fun _ => rfl)
  intro sendSeq
  exact Prog.frame_onlyIf (Prog.frame_void (frame_pgCall hf _))

section Tasks

variable {ks : List InboxKey} {task : M Unit}

theorem adds_spawnLogged (h : Prog.Adds World.inboxKeys ks task) :
    Prog.Adds World.inboxKeys ks (spawnLogged task) := by
  apply Prog.adds_bind_frame (Prog.adds_attempt h)
  intro r
  split <;> exact Prog.frame_ret _

theorem adds_spawn (h : Prog.Adds World.inboxKeys ks task) :
    Prog.Adds World.inboxKeys ks (spawn task) := by
  apply Prog.adds_bind_frame (Prog.adds_attempt h)
  intro r
  split <;> exact Prog.frame_ret _

theorem frame_spawnLogged (h : Prog.Frame World.inboxKeys task) :
    Prog.Frame World.inboxKeys (spawnLogged task) := fun c => stable_spawnLogged (h c)

theorem frame_orRaise {α : Type} (r : Except Error α) : Prog.Frame World.inboxKeys (orRaise r) :=
  fun _ => stable_orRaise r

end Tasks

theorem frame_saveMessage_keys (message : Msg) :
    Prog.Frame World.inboxKeys (Db.saveMessage message) :=
  Prog.frame_bind (frame_pgCall (fun _ _ => rfl) _) fun _ => Prog.frame_raise _

variable (cfg : Config)

/-- A delivery report is not stored. -/
def filedCopies (box : Box) (mt : MsgType) (msg : Msg) (members : List GroupMemSeq) : List Msg :=
  if isReceived msg.msgType then [] else storedCopies box mt msg members

theorem adds_handleMessage (message : Msg) (need : Bool) :
    Prog.Adds World.inboxKeys (if isReceived message.msgType then [] else [message.inboxKey])
      (handleMessage cfg message need) := by
  apply Prog.adds_frame_bind
  · split
    · exact frame_spawnLogged (frame_saveMessage_keys message)
    · exact Prog.frame_ret _
  · intro db
    apply Prog.adds_bind_frame
    · apply adds_spawnLogged
      split
      · exact MsgRecBox.adds_deleteMessage cfg _
      · exact MsgRecBox.adds_saveMessage cfg _
    · intro msgRecBox
      exact Prog.frame_bind (frame_orRaise _) fun _ => frame_orRaise _

theorem adds_handleGroupMessage (message : Msg) (need : Bool) (members : List GroupMemSeq) :
    Prog.Adds World.inboxKeys ((groupCopies cfg.box message members).map Msg.inboxKey)
      (handleGroupMessage cfg message need members) := by
  apply Prog.adds_frame_bind
  · intro c
    apply stable_spawn
    apply Prog.stable_bind (Prog.stable_onlyIf (frame_pgCall (fun _ _ => rfl) _ c))
    intro _
    exact Prog.stable_onlyIf (frame_saveMessage_keys message c)
  · intro dbTask
    apply Prog.adds_bind_frame (adds_spawn (MsgRecBox.adds_saveGroupMsg cfg message members))
    intro msgRecBoxTask
    apply Prog.frame_bind (frame_orRaise _)
    intro dbResult
    apply Prog.frame_bind (frame_orRaise _)
    intro msgRecBoxResult
    exact Prog.frame_bind (frame_orRaise _) fun _ => frame_orRaise _

theorem adds_sendToDb {mt : MsgType} (msg : Msg) (members : List GroupMemSeq)
    (hf : getSendToDbFlag mt = true) (ht : MsgType.tryFrom msg.msgType = some mt) :
    Prog.Adds World.inboxKeys ((filedCopies cfg.box mt msg members).map Msg.inboxKey)
      (sendToDb cfg msg (classifyMsgType mt).1 (classifyMsgType mt).2.2 members) := by
  rw [filedCopies, storedCopies, if_pos hf]
  cases hk : (classifyMsgType mt).1 with
  | single =>
    have h := adds_handleMessage cfg msg (classifyMsgType mt).2.2
    cases hr : isReceived msg.msgType with
    | true => rwa [hr] at h
    | false => rwa [hr] at h
  | group =>
    rw [not_isReceived_group hk ht]
    exact adds_handleGroupMessage cfg msg _ members

theorem frame_pushMsg_keys (msgType : MsgType2) (msg : Msg) (members : List GroupMemSeq) :
    Prog.Frame World.inboxKeys (pushMsg msgType msg members) := by
  apply Prog.frame_mono (frame_pushMsg msgType msg members)
  intro s t h
  rw [World.eq_of_outsidePusher h]
  rfl

/-- The two tasks insert each copy at most once. -/
theorem adds_dispatch {mt : MsgType} (msg : Msg) (members : List GroupMemSeq)
    (ht : MsgType.tryFrom msg.msgType = some mt) :
    Prog.Adds World.inboxKeys ((filedCopies cfg.box mt msg members).map Msg.inboxKey)
      (dispatch cfg mt msg members) := by
  apply Prog.adds_bind_frame
  · split
    · rename_i hf
      exact adds_spawnLogged (adds_sendToDb cfg msg members hf ht)
    · exact Prog.adds_mono (Prog.adds_ret _) (List.nil_sublist _)
  · intro toDb
    apply Prog.frame_bind (frame_spawnLogged (frame_pushMsg_keys _ _ _))
    intro toPusher
    exact Prog.frame_bind (frame_orRaise _) fun _ => frame_orRaise _

end Consumer

end Sandcat
