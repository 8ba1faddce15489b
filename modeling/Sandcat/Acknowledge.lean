import Sandcat.Filing
import Sandcat.SentView

/-!
# Acknowledging a group notification

All copies of a group message share its `server_id`. An acknowledgement deletes one
document with that `server_id`: the first of the single collection, or the first of
the first active collection that has one. It is the acknowledging member's own copy
only if that copy comes first.
-/

namespace Sandcat

open Remote

/-- A document of a collection with a `server_id`. -/
def filedUnder (coll serverId : String) (q : String × Document) : Bool :=
  q.1 = coll ∧ q.2.getStr .serverId = some serverId

/-- The copy of a message for a user. -/
def copyFor (serverId : String) (userId : UserId) (q : String × Document) : Bool :=
  q.2.getStr .serverId = some serverId && q.2.getStr .receiverId = some userId

/-- The document that `delete_message` meets first. -/
def firstMatch (box : Box) (serverId : String) (m : Mongo) : Option (String × Document) :=
  match box with
  | .plain => m.docs.find? (filedUnder Mongo.collSingleBox serverId)
  | .sharded _ => m.activeCollections.findSome? fun coll => m.docs.find? (filedUnder coll serverId)

theorem mem_of_firstMatch {box : Box} {serverId : String} {m : Mongo} {p : String × Document}
    (h : firstMatch box serverId m = some p) : p ∈ m.docs := by
  cases box with
  | plain => exact List.mem_of_find?_eq_some h
  | sharded n =>
    obtain ⟨coll, -, hp⟩ := List.exists_of_findSome?_eq_some h
    exact List.mem_of_find?_eq_some hp

/-- Documents without the first that is equal to a given one. -/
def without (p : Option (String × Document)) (docs : List (String × Document)) :
    List (String × Document) :=
  match p with
  | some p => docs.erase p
  | none => docs

theorem eraseP_eq_erase {α : Type} [BEq α] [LawfulBEq α] {p : α → Bool} {a : α} {l : List α}
    (h : l.find? p = some a) : l.eraseP p = l.erase a := by
  induction l with
  | nil => cases h
  | cons b l ih =>
    by_cases hb : p b = true
    · rw [List.find?_cons_of_pos hb] at h
      obtain rfl := Option.some.inj h
      rw [List.eraseP_cons_of_pos hb, List.erase_cons_head]
    · rw [List.find?_cons_of_neg hb] at h
      have hne : ¬ (b == a) = true := by
        rw [beq_iff_eq]
        rintro rfl
        exact hb (List.find?_some h)
      rw [List.eraseP_cons_of_neg hb, List.erase_cons_tail hne, ih h]

theorem docs_deleteOne (coll serverId : String) (m : Mongo) :
    (m.deleteOne coll serverId).2.docs =
        without (m.docs.find? (filedUnder coll serverId)) m.docs ∧
      ((m.deleteOne coll serverId).1 > 0 ↔
        (m.docs.find? (filedUnder coll serverId)).isSome = true) := by
  have hany : m.docs.any (filedUnder coll serverId) =
      (m.docs.find? (filedUnder coll serverId)).isSome := by
    rw [Bool.eq_iff_iff, List.find?_isSome, List.any_eq_true]
  change (if m.docs.any (filedUnder coll serverId) then
      (1, { m with docs := m.docs.eraseP (filedUnder coll serverId) }) else (0, m)).2.docs = _ ∧
    ((if m.docs.any (filedUnder coll serverId) then
      (1, { m with docs := m.docs.eraseP (filedUnder coll serverId) }) else (0, m)).1 > 0 ↔ _)
  rw [hany]
  cases hf : m.docs.find? (filedUnder coll serverId) with
  | none => simp [without]
  | some p => simp [without, eraseP_eq_erase hf]

namespace HybridShardedMsgBox

variable {w : World}

theorem exec_deleteFrom_cons (h : w.mongo.Sound) (serverId coll : String) (colls : List String) :
    (deleteFrom serverId (coll :: colls)).exec w =
      if (w.mongo.docs.find? (filedUnder coll serverId)).isSome then
        (.ok (), w.onMongo fun m => ((m.opened coll).deleteOne coll serverId).2)
      else (deleteFrom serverId colls).exec (w.onMongo (·.opened coll)) := by
  have hcount := (docs_deleteOne coll serverId (w.mongo.opened coll)).2
  rw [Mongo.docs_opened] at hcount
  simp only [deleteFrom, Prog.exec_bind, exec_getCollection h, exec_mongoCall, World.onMongo_mongo,
    hcount]
  split
  · rfl
  · rename_i hnone
    have hsame : ((w.mongo.opened coll).deleteOne coll serverId).2 = w.mongo.opened coll := by
      unfold Mongo.deleteOne at hcount ⊢
      dsimp only at hcount ⊢
      split
      · rename_i hany
        rw [if_pos hany] at hcount
        exact absurd (hcount.mp Nat.one_pos) hnone
      · rfl
    rw [hsame]
    rfl

/-- The scan over the active collections deletes the first match. -/
theorem docs_deleteFrom (h : w.mongo.Sound) (serverId : String) (colls : List String) :
    ((deleteFrom serverId colls).after w).mongo.docs = without
      (colls.findSome? fun coll => w.mongo.docs.find? (filedUnder coll serverId)) w.mongo.docs := by
  induction colls generalizing w with
  | nil => rfl
  | cons coll colls ih =>
    rw [List.findSome?_cons, Prog.after, exec_deleteFrom_cons h]
    cases hf : w.mongo.docs.find? (filedUnder coll serverId) with
    | some p =>
      have hdocs := (docs_deleteOne coll serverId (w.mongo.opened coll)).1
      rw [Mongo.docs_opened, hf] at hdocs
      exact hdocs
    | none =>
      have hrest := ih (w := w.onMongo (·.opened coll)) (h.opened coll)
      rw [World.onMongo_mongo, Mongo.docs_opened] at hrest
      exact hrest

end HybridShardedMsgBox

theorem MsgRecBox.docs_deleteMessage {cfg : Config} {w : World}
    (h : ∀ n, cfg.box = .sharded n → w.mongo.Sound) (serverId : String) :
    ((MsgRecBox.deleteMessage cfg serverId).after w).mongo.docs =
      without (firstMatch cfg.box serverId w.mongo) w.mongo.docs := by
  unfold MsgRecBox.deleteMessage firstMatch
  cases hbox : cfg.box with
  | plain => exact (docs_deleteOne Mongo.collSingleBox serverId w.mongo).1
  | sharded n => exact HybridShardedMsgBox.docs_deleteFrom (h n hbox) serverId _

namespace Consumer

variable {cfg : Config} {w : World}

/-- The ceiling of a sender can be raised, if it has to be. -/
def CanRecord (cfg : Config) (userId : UserId) (w : World) : Prop :=
  (w.redis.getSendSeq userId).1 = (w.redis.getSendSeq userId).2 - cfg.seqStep →
    (w.pg.sequence.find userId).isSome = true

instance (cfg : Config) (userId : UserId) (w : World) : Decidable (CanRecord cfg userId w) :=
  inferInstanceAs (Decidable (_ → _))

theorem handleSendSeq_ok_iff (u : UserId) :
    ((handleSendSeq cfg u).exec w).1 = .ok () ↔ CanRecord cfg u w := by
  have hread : (Cache.getSendSeq u).exec w = (.ok (w.redis.getSendSeq u), w) := rfl
  rw [handleSendSeq, Prog.exec_bind, hread, CanRecord]
  dsimp only
  by_cases hlast : (w.redis.getSendSeq u).1 = (w.redis.getSendSeq u).2 - cfg.seqStep
  · simp only [hlast, decide_true, Prog.onlyIf, if_true, forall_const, Prog.void, Prog.exec_bind,
      Db.saveMaxSeq, pgCall, Prog.exec_request, Postgres.saveMaxSeq]
    cases w.pg.sequence.find u with
    | none => simp [Except.map]
    | some row => simp [Except.map]
  · simp [hlast, Prog.onlyIf]

theorem mongo_handleSendSeq (u : UserId) : ((handleSendSeq cfg u).after w).mongo = w.mongo := by
  exact Prog.frame_after (f := fun w : World => w.mongo) (frame_handleSendSeq (fun _ _ => rfl) cfg u) w

/-- A task that has been spawned runs to its end. -/
theorem exec_spawnLogged (task : M Unit) (w : World) :
    ∃ r, (spawnLogged task).exec w = (.ok r, task.after w) := by
  rw [spawnLogged, Prog.exec_bind, Prog.exec_attempt]
  dsimp only
  split
  · exact ⟨_, rfl⟩
  · exact ⟨_, rfl⟩

theorem after_orRaise {α : Type} (r : Except Error α) (w : World) : (orRaise r).after w = w := by
  cases r <;> rfl

theorem mongo_saveMessage (message : Msg) : ((Db.saveMessage message).after w).mongo = w.mongo := by
  refine Prog.frame_after (f := fun w : World => w.mongo) ?_ w
  exact Prog.frame_bind (frame_pgCall (fun _ _ => rfl) _) fun _ => Prog.frame_raise _

/-- A delivery report deletes the first match. -/
theorem docs_handleMessage (h : ∀ n, cfg.box = .sharded n → w.mongo.Sound) {message : Msg}
    (hreceived : isReceived message.msgType = true) (need : Bool) :
    ((handleMessage cfg message need).after w).mongo.docs =
      without (firstMatch cfg.box message.serverId w.mongo) w.mongo.docs := by
  obtain ⟨db, t, hdb, hmongo⟩ : ∃ db t, (if !need then spawnLogged (Db.saveMessage message)
      else pure (.ok ())).exec w = (.ok db, t) ∧ t.mongo = w.mongo := by
    cases need with
    | true => exact ⟨_, w, rfl, rfl⟩
    | false =>
      obtain ⟨r, hr⟩ := exec_spawnLogged (Db.saveMessage message) w
      exact ⟨r, _, hr, mongo_saveMessage message⟩
  obtain ⟨box, hbox⟩ := exec_spawnLogged (MsgRecBox.deleteMessage cfg message.serverId) t
  have hdelete := MsgRecBox.docs_deleteMessage (w := t) (fun n hn => hmongo ▸ h n hn)
    message.serverId
  rw [hmongo] at hdelete
  rw [← hdelete]
  rw [Prog.after, handleMessage, if_pos hreceived, Prog.exec_bind, hdb]
  dsimp only
  rw [Prog.exec_bind, hbox]
  dsimp only
  rw [Prog.exec_bind]
  cases db with
  | ok a => exact congrArg (·.mongo.docs) (after_orRaise box _)
  | error e => rfl

theorem mongo_pushMsg (msgType : MsgType2) (msg : Msg) (members : List GroupMemSeq) :
    ((pushMsg msgType msg members).after w).mongo = w.mongo := by
  have hframe := Prog.frame_after (frame_pushMsg msgType msg members) w
  exact (congrArg World.mongo (World.eq_of_outsidePusher hframe)).trans rfl

/-- The two tasks, for a message that goes to a single receiver. -/
theorem docs_dispatch {mt : MsgType} (htype : (classifyMsgType mt).1 = .single)
    (hdb : getSendToDbFlag mt = true) (msg : Msg) (members : List GroupMemSeq) :
    ((dispatch cfg mt msg members).after w).mongo.docs =
      ((handleMessage cfg msg (classifyMsgType mt).2.2).after w).mongo.docs := by
  obtain ⟨r, hr⟩ := exec_spawnLogged (handleMessage cfg msg (classifyMsgType mt).2.2) w
  obtain ⟨r', hr'⟩ := exec_spawnLogged (pushMsg .single msg members)
    ((handleMessage cfg msg (classifyMsgType mt).2.2).after w)
  rw [← mongo_pushMsg (w := (handleMessage cfg msg (classifyMsgType mt).2.2).after w) .single msg
    members]
  change ((dispatch cfg mt msg members).exec w).2.mongo.docs = _
  simp only [dispatch, hdb, if_true, htype, sendToDb, Prog.exec_bind, hr, hr']
  cases r with
  | ok a => exact congrArg (·.mongo.docs) (after_orRaise r' _)
  | error e => rfl

/-- What an acknowledgement does to the inbox. -/
theorem docs_acknowledge (h : ∀ n, cfg.box = .sharded n → w.mongo.Sound) {msg : Msg}
    (hack : msg.msgType = MsgType.groupInvitationReceived.toI32 ∨
      msg.msgType = MsgType.groupDismissOrExitReceived.toI32) :
    ((handleMsg cfg (.json msg)).after w).mongo.docs =
      if CanRecord cfg msg.senderId w then
        without (firstMatch cfg.box msg.serverId w.mongo) w.mongo.docs
      else w.mongo.docs := by
  obtain ⟨mt, ht, hread, hclass, hdb, hreceived⟩ : ∃ mt, MsgType.tryFrom msg.msgType = some mt ∧
      mt ≠ .read ∧ classifyMsgType mt = (.single, false, false) ∧ getSendToDbFlag mt = true ∧
        isReceived msg.msgType = true := by
    obtain hack | hack := hack
    · exact ⟨.groupInvitationReceived, by rw [hack]; rfl, by decide, rfl, rfl, by rw [hack]; rfl⟩
    · exact ⟨.groupDismissOrExitReceived, by rw [hack]; rfl, by decide, rfl, rfl, by rw [hack]; rfl⟩
  have hnumber : numberMsg cfg mt msg = handleSendSeq cfg msg.senderId >>= fun _ => pure (msg, []) := by
    rw [numberMsg, hclass]
    rfl
  have hmongo : ((handleSendSeq cfg msg.senderId).after w).mongo = w.mongo :=
    mongo_handleSendSeq msg.senderId
  rw [handleMsg_typed cfg ht hread, hnumber, Prog.after, Prog.exec_bind, Prog.exec_bind]
  simp only [← handleSendSeq_ok_iff]
  rw [Prog.after] at hmongo
  rcases hexec : (handleSendSeq cfg msg.senderId).exec w with ⟨r, t⟩
  rw [hexec] at hmongo
  dsimp only at hmongo
  cases r with
  | ok a =>
    rw [if_pos rfl, ← hmongo]
    refine (docs_dispatch (w := t) (by rw [hclass]) hdb msg []).trans ?_
    exact docs_handleMessage (fun n hn => hmongo ▸ h n hn) hreceived _
  | error e =>
    rw [if_neg (fun he => by cases he), ← hmongo]

end Consumer

/-- The member's own copy is gone, and the copies of the other members are as they were. -/
structure OwnCopyOnly (serverId : String) (userId : UserId) (members : List UserId)
    (w t : World) : Prop where
  gone : ∀ p ∈ t.mongo.docs, copyFor serverId userId p = false
  others : ∀ v ∈ members, v ≠ userId →
    t.mongo.docs.filter (copyFor serverId v) = w.mongo.docs.filter (copyFor serverId v)

/-- An acknowledgement removes the member's own copy, and only that, exactly if it is the one
that is met first. -/
theorem own_copy_iff (cfg : Config) (w : World) (h : ∀ n, cfg.box = .sharded n → w.mongo.Sound)
    (msg : Msg) (hack : msg.msgType = MsgType.groupInvitationReceived.toI32 ∨
      msg.msgType = MsgType.groupDismissOrExitReceived.toI32) (members : List UserId)
    (hcopies : ∀ v ∈ members, ∃ p, w.mongo.docs.filter (copyFor msg.serverId v) = [p])
    (hmember : msg.senderId ∈ members) :
    OwnCopyOnly msg.serverId msg.senderId members w
        ((Consumer.handleMsg cfg (.json msg)).after w) ↔
      Consumer.CanRecord cfg msg.senderId w ∧ ∃ p, firstMatch cfg.box msg.serverId w.mongo = some p ∧
        copyFor msg.serverId msg.senderId p = true := by
  obtain ⟨own, hown⟩ := hcopies msg.senderId hmember
  obtain ⟨hmem, hcopy⟩ := List.mem_filter.mp (hown ▸ List.mem_singleton.mpr rfl)
  have hdocs := Consumer.docs_acknowledge h hack
  constructor
  · intro hacked
    have hstays : own ∉ ((Consumer.handleMsg cfg (.json msg)).after w).mongo.docs := by
      intro hin
      rw [hacked.gone own hin] at hcopy
      cases hcopy
    rw [hdocs] at hstays
    split at hstays
    · rename_i hrecord
      refine ⟨hrecord, ?_⟩
      cases hfirst : firstMatch cfg.box msg.serverId w.mongo with
      | none =>
        rw [hfirst] at hstays
        exact absurd hmem hstays
      | some p =>
        rw [hfirst] at hstays
        by_cases he : own = p
        · exact ⟨p, rfl, he ▸ hcopy⟩
        · exact absurd ((List.mem_erase_of_ne he).mpr hmem) hstays
    · exact absurd hmem hstays
  · rintro ⟨hrecord, p, hfirst, hp⟩
    rw [if_pos hrecord, hfirst] at hdocs
    have hin : p ∈ w.mongo.docs := mem_of_firstMatch hfirst
    obtain rfl : p = own := List.mem_singleton.mp (hown ▸ List.mem_filter.mpr ⟨hin, hp⟩)
    have hfilter : ∀ v, ((Consumer.handleMsg cfg (.json msg)).after w).mongo.docs.filter
        (copyFor msg.serverId v) = (w.mongo.docs.filter (copyFor msg.serverId v)).erase p := by
      intro v
      rw [hdocs, List.erase_filter]
      rfl
    constructor
    · have hnone := hfilter msg.senderId
      rw [hown, List.erase_cons_head, List.filter_eq_nil_iff] at hnone
      exact fun q hq => by simpa using hnone q hq
    · intro v _ hv
      rw [hfilter v, List.erase_of_not_mem]
      intro hother
      have hother := (List.mem_filter.mp hother).2
      simp only [copyFor, Bool.and_eq_true, decide_eq_true_eq] at hp hother
      exact hv (Option.some.inj (hother.2.symm.trans hp.2))

/-- The circular of `a` in a plain box, with copies for `b` and `c`, and one gateway. -/
def circularSaved : World :=
  { World.empty.afterSaves .onePlain
      [(0, .group circular [⟨"b", 1, 10, false⟩, ⟨"c", 1, 10, false⟩])] with
    gateways := fun _ => some Hub.empty
    wsRpcList := [0] }

/-- The report of `b` that it has received the circular. -/
def circularReceived : Msg :=
  { senderId := "b", receiverId := "a", serverId := "m2",
    msgType := MsgType.groupInvitationReceived.toI32 }

/-- The second report of `b` removes its copy: the first one has removed the sender's. -/
theorem own_copy_second : OwnCopyOnly "m2" "b" ["b", "c"]
    ((Consumer.handleMsg .onePlain (.json circularReceived)).after circularSaved)
    ((Consumer.handleMsg .onePlain (.json circularReceived)).after
      ((Consumer.handleMsg .onePlain (.json circularReceived)).after circularSaved)) :=
  (own_copy_iff .onePlain
    ((Consumer.handleMsg .onePlain (.json circularReceived)).after circularSaved)
    (fun n hn => by cases hn) circularReceived (.inl rfl) ["b", "c"]
    (by
      intro v hv
      simp only [List.mem_cons, List.not_mem_nil, or_false] at hv
      obtain rfl | rfl := hv
      · exact ⟨_, rfl⟩
      · exact ⟨_, rfl⟩)
    (by decide)).mpr ⟨by decide, _, rfl, rfl⟩

/-- The first report of `b` removes the copy of the sender and leaves its own. -/
theorem own_copy_stays :
    (∀ v ∈ ["b", "c"], ∃ p, circularSaved.mongo.docs.filter (copyFor "m2" v) = [p]) ∧
    ((Consumer.handleMsg .onePlain (.json circularReceived)).exec circularSaved).1 = .ok () ∧
    ¬ OwnCopyOnly "m2" "b" ["b", "c"] circularSaved
      ((Consumer.handleMsg .onePlain (.json circularReceived)).after circularSaved) := by
  refine ⟨?_, by decide, ?_⟩
  · intro v hv
    simp only [List.mem_cons, List.not_mem_nil, or_false] at hv
    obtain rfl | rfl := hv
    · exact ⟨_, rfl⟩
    · exact ⟨_, rfl⟩
  · intro hacked
    have hgone := hacked.gone
    revert hgone
    decide

end Sandcat
