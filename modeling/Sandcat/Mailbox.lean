import Sandcat.InboxNumbers
import Sandcat.Acknowledge
import Sandcat.Updates
import Sandcat.Lookup
import Sandcat.Lib.NumberedLog

/-!
# The mailbox behind the services

What the counters of Redis, the inbox and the consumer are for: every user has a log of letters, the next
letter gets the next number, a letter can be marked as read and can be deleted. A number that was drawn for
a message that is not stored stays empty. The sharded box does this while no document is in a month that it
does not look at.
-/

namespace Sandcat

open Remote NumberedLog Consecutive

abbrev Mailboxes := UserId → Log Msg

/-- What happens to the mailboxes. `letter` gives the letter of a user under a number. -/
inductive MailEvent where
  | nothing
  | post (us : List UserId) (letter : UserId → Int → Option Msg)
  | read (userId : UserId) (msgSeq : List Int)
  | delete (userId : UserId) (msgSeq : List Int)

def Msg.markRead (m : Msg) : Msg := { m with isRead := true }

namespace Mailboxes

/-- The number of the next letter of a user. -/
def next (base : UserId → Int) (mail : Mailboxes) (u : UserId) : Int := base u + (mail u).length + 1

def apply (base : UserId → Int) (mail : Mailboxes) : MailEvent → Mailboxes
  | .nothing => mail
  | .post us letter => fun u => if u ∈ us then post (letter u (mail.next base u)) (mail u) else mail u
  | .read userId msgSeq =>
    Function.update mail userId (amend (base userId) (· ∈ msgSeq) Msg.markRead (mail userId))
  | .delete userId msgSeq =>
    Function.update mail userId (discard (base userId) (· ∈ msgSeq) (mail userId))

end Mailboxes

/-- A record of the queue, or `del_msg` of the API. -/
inductive MailOp where
  | record (payload : Payload)
  | delMsg (userId : UserId) (msgSeq : List Int)

def MailOp.run (cfg : Config) : MailOp → M Unit
  | .record payload => Consumer.handleMsg cfg payload
  | .delMsg userId msgSeq => MsgRecBox.deleteMessages cfg userId msgSeq

/-- The letter that a message makes for a user. -/
def letterFor (mt : MsgType) (msg : Msg) (u : UserId) (n : Int) : Option Msg :=
  if Consumer.getSendToDbFlag mt && !badRemoval msg then
    some <| match (Consumer.classifyMsgType mt).1 with
      | .single => { msg with seq := n }
      | .group => { msg with sendSeq := 0, seq := n, receiverId := u }
  else none

/-- The letter of a document. -/
def deletionOf : Option (String × Document) → MailEvent
  | none => .nothing
  | some q =>
    match q.2.inboxKey with
    | (some u, some s) => .delete u [s]
    | _ => .nothing

/-- What an operation does to the mailboxes. A delivery report deletes the document that it meets
first. -/
def MailOp.event (box : Box) (w : World) : MailOp → MailEvent
  | .record .malformed => .nothing
  | .record (.json msg) =>
    match MsgType.tryFrom msg.msgType with
    | none => .nothing
    | some mt =>
      if mt = .read then
        match decodeMsgRead msg.content with
        | some data => .read data.userId data.msgSeq
        | none => .nothing
      else if isReceived msg.msgType then deletionOf (firstMatch box msg.serverId w.mongo)
      else .post (w.addressees mt msg) (letterFor mt msg)
  | .delMsg userId msgSeq => .delete userId msgSeq

/-- The copies that keep the number of the message keep one from before the log. -/
def MailOp.Proper (box : Box) (base : UserId → Int) (op : MailOp) : Prop :=
  ∀ msg mt, op = .record (.json msg) → MsgType.tryFrom msg.msgType = some mt →
    ∀ c ∈ unnumbered box mt msg, c.seq ≤ base c.receiverId

/-- The collections in which the documents of a user are marked and deleted. -/
def Config.reach (cfg : Config) (now : Int) (u : UserId) : List String :=
  match cfg.box with
  | .plain => [Mongo.collSingleBox]
  | .sharded n => HybridShardedMsgBox.recentNames cfg n now u

/-- The documents of every user are there. -/
def World.InReach (cfg : Config) (w : World) : Prop :=
  ∀ q ∈ w.mongo.docs, ∀ u, q.2.getStr .receiverId = some u → q.1 ∈ cfg.reach w.now u

/-- No document of a sharded box is in a month before the last. -/
def World.Ready (cfg : Config) (w : World) : Prop :=
  ∀ n, cfg.box = .sharded n → 0 ≤ w.now ∧ w.InReach cfg

/-- All documents are in the single collection. -/
def Mongo.Home (m : Mongo) : Prop := ∀ q ∈ m.docs, q.1 = Mongo.collSingleBox

/-- What each box keeps of its database. -/
def Mongo.Tidy (box : Box) (m : Mongo) : Prop :=
  match box with
  | .plain => m.Home
  | .sharded _ => m.Sound

/-- The services hold the mailboxes: the counters stand where the logs end, and for each number of a log
the inbox has the document of the letter, if there is one, and no other. -/
structure Holds (base : UserId → Int) (mail : Mailboxes) (w : World) : Prop where
  cur : ∀ u, w.recCur u = base u + (mail u).length
  docs : ∀ u s, base u < s → (w.inbox.filter fun d => d.inboxKey = (some u, some s)) =
    (entry (base u) (mail u) s).toList.map toDoc

/-- The runs of the services in which no call is refused, with the mailboxes they stand for. -/
inductive Mailed (cfg : Config) (base : UserId → Int) : World → Mailboxes → Prop where
  | start {w : World} : w.mongo.docs = [] → w.mongo.Tidy cfg.box → (∀ u, w.recCur u = base u) →
      Mailed cfg base w fun _ => []
  | step {w : World} {mail : Mailboxes} (op : MailOp) : Mailed cfg base w mail → w.Ready cfg →
      op.Proper cfg.box base → (op.run cfg).clean w = true →
      Mailed cfg base ((op.run cfg).after w) (mail.apply base (op.event cfg.box w))
  | others {w t : World} {mail : Mailboxes} : Mailed cfg base w mail → t.mongo = w.mongo →
      (∀ u, t.recCur u = w.recCur u) → Mailed cfg base t mail

theorem Mongo.Tidy.sound {box : Box} {m : Mongo} (h : m.Tidy box) {n : Nat} (hbox : box = .sharded n) :
    m.Sound := by
  subst hbox
  exact h

/-- Where the services look is where the documents are. -/
theorem World.InReach.of_tidy {cfg : Config} {w : World} (h : w.mongo.Tidy cfg.box) (hready : w.Ready cfg) :
    w.InReach cfg := by
  cases hbox : cfg.box with
  | plain =>
    intro q hq u _
    rw [hbox] at h
    rw [Config.reach, hbox, h q hq]
    exact List.mem_singleton_self _
  | sharded n => exact (hready n hbox).2

namespace Consumer

variable {cfg : Config} {box : Box} {w : World} {mt : MsgType} {msg : Msg}

/-- What is stored of a message, letter by letter. -/
theorem storedCopies_eq (hread : mt ≠ .read) (hr : isReceived msg.msgType = false)
    (hb : badRemoval msg = false) :
    storedCopies box mt (w.numberedMsg mt msg) (w.memberSeqs cfg.seqStep mt msg) =
      unnumbered box mt msg ++
        (w.addressees mt msg).filterMap fun u => letterFor mt msg u (w.recCur u + 1) := by
  have hgroup : (classifyMsgType mt).1 = .group →
      (classifyMsgType mt).2.1 = false ∧ getSendToDbFlag mt = true :=
    fun h => ⟨(classifyMsgType_group h).1, (classifyMsgType_group h).2.1⟩
  unfold storedCopies unnumbered letterFor World.numberedMsg World.memberSeqs World.addressees
  generalize classifyMsgType mt = c at hgroup ⊢
  obtain ⟨kind, need, hist⟩ := c
  cases kind with
  | single =>
    cases need with
    | false => cases getSendToDbFlag mt <;> simp [hr, hread]
    | true => cases getSendToDbFlag mt <;> simp [hr, hread, hb, World.recCur]
  | group =>
    obtain ⟨rfl, hflag⟩ := hgroup rfl
    have hseqs := groupSeqs_eq_map cfg.seqStep w.redis.hashes (w.nodup_recipients msg)
    simp [hr, hread, hb, hflag, groupCopies, senderCopy, hseqs, World.recCur, singleScript_reply_cur]

/-- A removal that names nobody stores nothing. -/
theorem unnumbered_of_badRemoval (ht : MsgType.tryFrom msg.msgType = some mt)
    (hbad : badRemoval msg = true) (box : Box) : unnumbered box mt msg = [] := by
  obtain rfl := type_of_badRemoval hbad ht
  simp [unnumbered, hbad, classifyMsgType, getSendToDbFlag]

/-- What a record of a known type leaves in the inbox. -/
theorem ensures_letters (ht : MsgType.tryFrom msg.msgType = some mt)
    (hread : mt ≠ .read) (hr : isReceived msg.msgType = false) :
    Prog.Ensures (numberMsg cfg mt msg >>= fun p => dispatch cfg mt p.1 p.2) w fun _ t =>
      t.inbox = w.inbox ++ (unnumbered cfg.box mt msg ++
        (w.addressees mt msg).filterMap fun u => letterFor mt msg u (w.recCur u + 1)).map toDoc := by
  apply Prog.ensures_bind
  apply Prog.ensures_frame (frame_numberMsg mt msg)
  apply Prog.ensures_mono ensures_numberMsg
  rintro r t ⟨-, -, hres⟩ hout
  have hinbox : t.inbox = w.inbox := (congrArg World.inbox hout :)
  cases hbad : badRemoval msg with
  | true =>
    obtain rfl := type_of_badRemoval hbad ht
    rw [if_pos ⟨rfl, hbad⟩] at hres
    obtain ⟨e, rfl⟩ := hres
    simp [unnumbered_of_badRemoval ht hbad, letterFor, hbad, hinbox]
  | false =>
    rw [if_neg fun h => absurd (hbad.symm.trans h.2) (by decide)] at hres
    subst hres
    apply Prog.ensures_mono (ensures_dispatch (by rw [numberedMsg_msgType, hr]))
    rintro r u ⟨hst, -⟩
    rw [hst.1, storedCopies_eq hread hr hbad, hinbox]

/-- A delivery report deletes the document that it meets first. -/
theorem ensures_received (h : w.mongo.Tidy cfg.box) (ht : MsgType.tryFrom msg.msgType = some mt)
    (hr : isReceived msg.msgType = true) :
    Prog.Ensures (numberMsg cfg mt msg >>= fun p => dispatch cfg mt p.1 p.2) w fun _ t =>
      t.mongo.docs = without (firstMatch cfg.box msg.serverId w.mongo) w.mongo.docs := by
  obtain ⟨hclass, hflag⟩ : classifyMsgType mt = (.single, false, false) ∧ getSendToDbFlag mt = true := by
    rw [MsgType.eq_toI32_of_tryFrom ht] at hr
    revert hr
    cases mt <;> decide
  apply Prog.ensures_bind
  apply Prog.ensures_frame (frame_numberMsg mt msg)
  apply Prog.ensures_mono ensures_numberMsg
  rintro r t ⟨-, -, hres⟩ hout
  have hmongo : t.mongo = w.mongo := (congrArg World.mongo hout :)
  have hmsg : w.numberedMsg mt msg = msg := by rw [World.numberedMsg, hclass]; rfl
  rw [hclass, if_neg fun h => absurd h.1 (by decide), hmsg] at hres
  subst hres
  constructor
  intro _
  refine (docs_dispatch (w := t) (by rw [hclass]) hflag msg (w.memberSeqs cfg.seqStep mt msg)).trans ?_
  rw [docs_handleMessage (fun n hn => hmongo ▸ h.sound hn) hr, hmongo]

end Consumer

namespace Consumer

variable {cfg : Config} {J : Mongo → Prop}

theorem maintains_spawnLogged {I : World → Prop} {task : M Unit} (h : Prog.Maintains I task) :
    Prog.Maintains I (spawnLogged task) := by
  intro w hw
  obtain ⟨r, hr⟩ := exec_spawnLogged task w
  rw [Prog.after, hr]
  exact h w hw

theorem maintains_spawn {I : World → Prop} {task : M Unit} (h : Prog.Maintains I task) :
    Prog.Maintains I (spawn task) := by
  intro w hw
  have htask := h w hw
  rw [Prog.after, spawn, Prog.exec_bind, Prog.exec_attempt]
  dsimp only
  split <;> exact htask

/-- What the calls do that leave the inboxes alone. -/
theorem maintains_of_frame {α : Type} {m : M α} (h : Prog.Frame (fun w : World => w.mongo) m) :
    Prog.Maintains (fun w : World => J w.mongo) m :=
  Prog.maintains_of_stable (Prog.stable_of_frame h fun _ _ ht hs => ht ▸ hs)

theorem frame_mongo_pgCall {α : Type} (g : Postgres → Except Error (α × Postgres)) :
    Prog.Frame (fun w : World => w.mongo) (pgCall g) := frame_pgCall (fun _ _ => rfl) g

theorem frame_mongo_saveMessage (message : Msg) :
    Prog.Frame (fun w : World => w.mongo) (Db.saveMessage message) :=
  Prog.frame_bind (frame_mongo_pgCall _) fun _ => Prog.frame_raise _

/-- What every use of the box keeps. -/
structure KeptByBox (cfg : Config) (J : Mongo → Prop) : Prop where
  saveMessage : ∀ message, Prog.Maintains (fun w : World => J w.mongo) (MsgRecBox.saveMessage cfg message)
  saveGroupMsg : ∀ message members,
    Prog.Maintains (fun w : World => J w.mongo) (MsgRecBox.saveGroupMsg cfg message members)
  deleteMessage : ∀ id, Prog.Maintains (fun w : World => J w.mongo) (MsgRecBox.deleteMessage cfg id)
  deleteMessages : ∀ u seqs,
    Prog.Maintains (fun w : World => J w.mongo) (MsgRecBox.deleteMessages cfg u seqs)
  msgRead : ∀ u seqs, Prog.Maintains (fun w : World => J w.mongo) (MsgRecBox.msgRead cfg u seqs)

theorem KeptByBox.sendToDb (h : KeptByBox cfg J) (msg : Msg) (msgType : MsgType2) (need : Bool)
    (members : List GroupMemSeq) :
    Prog.Maintains (fun w : World => J w.mongo) (sendToDb cfg msg msgType need members) := by
  have hraise : ∀ {α : Type} (r : Except Error α),
      Prog.Maintains (fun w : World => J w.mongo) (orRaise r) := fun r =>
    Prog.maintains_of_stable (stable_orRaise r)
  cases msgType with
  | single =>
    apply Prog.maintains_bind
    · split
      · exact maintains_spawnLogged (maintains_of_frame (frame_mongo_saveMessage msg))
      · exact fun _ hw => hw
    · intro db
      apply Prog.maintains_bind
      · apply maintains_spawnLogged
        split
        · exact h.deleteMessage _
        · exact h.saveMessage _
      · intro msgRecBox
        exact Prog.maintains_bind (hraise _) fun _ => hraise _
  | group =>
    apply Prog.maintains_bind
    · apply maintains_spawn
      apply maintains_of_frame
      apply Prog.frame_bind (Prog.frame_onlyIf (frame_mongo_pgCall _))
      intro _
      exact Prog.frame_onlyIf (frame_mongo_saveMessage msg)
    · intro dbTask
      apply Prog.maintains_bind (maintains_spawn (h.saveGroupMsg msg members))
      intro msgRecBoxTask
      apply Prog.maintains_bind (hraise _)
      intro dbResult
      apply Prog.maintains_bind (hraise _)
      intro msgRecBoxResult
      exact Prog.maintains_bind (hraise _) fun _ => hraise _

theorem KeptByBox.run (h : KeptByBox cfg J) (op : MailOp) :
    Prog.Maintains (fun w : World => J w.mongo) (op.run cfg) := by
  cases op with
  | delMsg u seqs => exact h.deleteMessages u seqs
  | record payload =>
    apply handleMsg_cases (P := fun _ m => Prog.Maintains (fun w : World => J w.mongo) m) cfg
    · exact fun _ _ hw => hw
    · exact fun _ _ _ _ hw => hw
    · intro msg _
      unfold handleMsgRead
      split
      · exact h.msgRead _ _
      · exact fun _ hw => hw
    · intro msg mt _ _
      apply Prog.maintains_bind
      · exact maintains_of_frame (Prog.frame_mono (frame_numberMsg mt msg) fun _ _ ht =>
          (congrArg World.mongo ht :))
      · intro p
        apply Prog.maintains_bind
        · split
          · exact maintains_spawnLogged (h.sendToDb _ _ _ _)
          · exact fun _ hw => hw
        · intro toDb
          apply Prog.maintains_bind
          · apply maintains_spawnLogged
            exact maintains_of_frame (Prog.frame_mono (frame_pushMsg _ _ _) fun _ _ ht =>
              (congrArg World.mongo ht :))
          · intro toPusher
            exact Prog.maintains_bind (Prog.maintains_of_stable (stable_orRaise _)) fun _ =>
              Prog.maintains_of_stable (stable_orRaise _)

end Consumer

namespace MsgBox

theorem home_insertOne (d : Document) : Prog.Stable (fun w : World => w.mongo.Home) (insertOne d) := by
  apply Prog.stable_request
  intro w _ t hw ht
  obtain ⟨p, hins, hp⟩ := eq_ok_of_map ht
  cases hp
  unfold Mongo.insertOne at hins
  split at hins
  · cases hins
  · cases hins
    intro q hq
    obtain hq | hq := List.mem_append.mp hq
    · exact hw q hq
    · rw [List.mem_singleton.mp hq]

/-- The documents of a plain box are in its collection. -/
theorem home_kept {cfg : Config} (hbox : cfg.box = .plain) : Consumer.KeptByBox cfg Mongo.Home where
  saveMessage message := by
    rw [MsgRecBox.saveMessage, hbox]
    exact Prog.maintains_of_stable (home_insertOne _)
  saveGroupMsg message members := by
    rw [MsgRecBox.saveGroupMsg, hbox]
    exact Prog.maintains_of_stable (Prog.stable_each home_insertOne _)
  deleteMessage id := by
    rw [MsgRecBox.deleteMessage, hbox]
    intro w hw q hq
    change q ∈ (w.mongo.deleteOne Mongo.collSingleBox id).2.docs at hq
    rw [(docs_deleteOne Mongo.collSingleBox id w.mongo).1] at hq
    cases hf : w.mongo.docs.find? (filedUnder Mongo.collSingleBox id) with
    | none =>
      rw [hf] at hq
      exact hw q hq
    | some p =>
      rw [hf] at hq
      exact hw q (List.mem_of_mem_erase hq)
  deleteMessages u seqs := by
    rw [MsgRecBox.deleteMessages, hbox]
    exact fun w hw q hq => hw q (List.mem_of_mem_filter hq)
  msgRead u seqs := by
    rw [MsgRecBox.msgRead, hbox]
    dsimp only [MsgBox.msgRead]
    split
    · exact fun _ hw => hw
    · intro w hw q hq
      obtain ⟨p, hp, rfl⟩ := List.mem_map.mp hq
      split <;> exact hw p hp

end MsgBox

namespace HybridShardedMsgBox

theorem sound_updateRecent {cfg : Config} {n : Nat} (hn : n ≠ 0) (u : UserId)
    {update : String → Mongo → Mongo} (hu : ∀ coll {m : Mongo}, m.Sound → (update coll m).Sound) :
    Prog.Maintains (fun w : World => w.mongo.Sound) (updateRecent cfg n u update) := by
  intro w hw
  rw [Prog.after, exec_updateRecent cfg u hu hn hw]
  exact sound_updatedIn hu _ hw

/-- A sharded box stays sound. -/
theorem sound_kept {cfg : Config} {n : Nat} (hbox : cfg.box = .sharded n) (hn : n ≠ 0) :
    Consumer.KeptByBox cfg Mongo.Sound where
  saveMessage message := by
    rw [MsgRecBox.saveMessage, hbox]
    intro w hw
    dsimp only
    rw [after_saveMessage hn hw]
    exact hw.filed _
  saveGroupMsg message members := by
    rw [MsgRecBox.saveGroupMsg, hbox]
    intro w hw
    dsimp only
    rw [after_saveGroupMsg hn hw]
    exact hw.filed _
  deleteMessage id := by
    rw [MsgRecBox.deleteMessage, hbox]
    exact fun w hw => (sound_deleteFrom hw id _).1
  deleteMessages u seqs := by
    rw [MsgRecBox.deleteMessages, hbox]
    dsimp only [deleteMessages]
    split
    · exact fun _ hw => hw
    · exact sound_updateRecent hn u fun coll _ hm => sound_deleteMany seqs coll hm
  msgRead u seqs := by
    rw [MsgRecBox.msgRead, hbox]
    dsimp only [msgRead]
    split
    · exact fun _ hw => hw
    · exact sound_updateRecent hn u fun coll _ hm => sound_setRead seqs coll hm

end HybridShardedMsgBox

theorem Mongo.Tidy.run {cfg : Config} (hn : cfg.box ≠ .sharded 0) {w : World} (h : w.mongo.Tidy cfg.box)
    (op : MailOp) : ((op.run cfg).after w).mongo.Tidy cfg.box := by
  cases hbox : cfg.box with
  | plain =>
    rw [hbox] at h
    exact (MsgBox.home_kept hbox).run op w h
  | sharded n =>
    rw [hbox] at h hn
    exact (HybridShardedMsgBox.sound_kept hbox fun h0 => hn (h0 ▸ rfl)).run op w h

/-- The letter of one user among those of several. -/
theorem filter_letters {us : List UserId} {g : UserId → Option Msg} {c : UserId → Int}
    (hn : us.Nodup) (hkey : ∀ v ∈ us, ∀ m, g v = some m → m.inboxKey = (some v, some (c v)))
    (u : UserId) (s : Int) :
    (us.filterMap g).filter (fun m => m.inboxKey = (some u, some s)) =
      if u ∈ us ∧ s = c u then (g u).toList else [] := by
  induction us with
  | nil => simp
  | cons v us ih =>
    obtain ⟨hv, hn⟩ := List.nodup_cons.mp hn
    have hrest := ih hn fun x hx => hkey x (List.mem_cons_of_mem _ hx)
    have hhead : (g v).toList.filter (fun m => m.inboxKey = (some u, some s)) =
        if u = v ∧ s = c v then (g v).toList else [] := by
      cases hg : g v with
      | none => simp
      | some m =>
        have hm := hkey v List.mem_cons_self m hg
        by_cases hus : u = v ∧ s = c v
        · simp [hm, hus]
        · have : ¬ (v = u ∧ c v = s) := fun h => hus ⟨h.1.symm, h.2.symm⟩
          simp [hm, hus, this]
    have hcons : (v :: us).filterMap g = (g v).toList ++ us.filterMap g := by
      cases hg : g v <;> simp [hg]
    rw [hcons, List.filter_append, hhead, hrest]
    by_cases huv : u = v
    · subst huv
      simp [hv]
    · simp [huv]

/-- A document after an edit of the documents of a user with some numbers. -/
def revised (edit : Document → Option Document) (u : UserId) (seqs : List Int) (d : Document) :
    Option Document := if targeted u seqs d then edit d else some d

theorem targeted_iff {u : UserId} {seqs : List Int} {d : Document} :
    targeted u seqs d = true ↔ ∃ n ∈ seqs, d.inboxKey = (some u, some n) := by
  simp only [targeted, Bool.and_eq_true, decide_eq_true_eq, Document.holds, Option.any_eq_true,
    List.contains_iff_mem, Document.inboxKey, Prod.mk.injEq]
  constructor
  · rintro ⟨hu, n, hn, hmem⟩
    exact ⟨n, hmem, hu, hn⟩
  · rintro ⟨n, hmem, hu, hn⟩
    exact ⟨hu, n, hn, hmem⟩

/-- An edit of the collections that the services look at is an edit of the inbox. -/
theorem World.InReach.inbox_edited {cfg : Config} {w : World} (h : w.InReach cfg)
    (edit : Document → Option Document) (u : UserId) (seqs : List Int) :
    (w.mongo.docs.filterMap (HybridShardedMsgBox.edited edit (cfg.reach w.now u) u seqs)).map Prod.snd =
      w.inbox.filterMap (revised edit u seqs) := by
  rw [World.inbox, List.map_filterMap, List.filterMap_map]
  apply List.filterMap_congr
  intro q hq
  simp only [HybridShardedMsgBox.edited, revised, Function.comp]
  by_cases ht : targeted u seqs q.2 = true
  · obtain ⟨n, -, hkey⟩ := targeted_iff.mp ht
    have hreach : q.1 ∈ cfg.reach w.now u := h q hq u (Prod.mk.inj hkey).1
    simp only [hreach, ht, decide_true, Bool.and_self, if_true, Option.map_map]
    cases edit q.2 <;> rfl
  · simp [ht]

theorem filter_revised {edit : Document → Option Document}
    (hedit : ∀ d e, edit d = some e → e.inboxKey = d.inboxKey) (u : UserId) (seqs : List Int)
    (ds : List Document) (v : UserId) (s : Int) :
    (ds.filterMap (revised edit u seqs)).filter (fun d => d.inboxKey = (some v, some s)) =
      if v = u ∧ s ∈ seqs then
        (ds.filter fun d => d.inboxKey = (some v, some s)).filterMap edit
      else ds.filter fun d => d.inboxKey = (some v, some s) := by
  induction ds with
  | nil => simp
  | cons d ds ih =>
    by_cases hkey : d.inboxKey = (some v, some s)
    · have ht : targeted u seqs d = true ↔ v = u ∧ s ∈ seqs := by
        rw [targeted_iff, hkey]
        constructor
        · rintro ⟨n, hn, he⟩
          cases he
          exact ⟨rfl, hn⟩
        · rintro ⟨rfl, hs⟩
          exact ⟨s, hs, rfl⟩
      rw [List.filter_cons_of_pos (by simpa using hkey)]
      by_cases hvs : v = u ∧ s ∈ seqs
      · rw [if_pos hvs] at ih ⊢
        rw [List.filterMap_cons, List.filterMap_cons, revised, if_pos (ht.mpr hvs)]
        cases he : edit d with
        | none => exact ih
        | some e =>
          dsimp only
          rw [List.filter_cons_of_pos (by simpa using (hedit d e he).trans hkey), ih]
      · rw [if_neg hvs] at ih ⊢
        rw [List.filterMap_cons, revised, if_neg fun h => hvs (ht.mp h)]
        dsimp only
        rw [List.filter_cons_of_pos (by simpa using hkey), ih]
    · rw [List.filter_cons_of_neg (by simpa using hkey), ← ih, List.filterMap_cons]
      cases he : revised edit u seqs d with
      | none => rfl
      | some e =>
        have hkeep : e.inboxKey = d.inboxKey := by
          unfold revised at he
          split at he
          · exact hedit d e he
          · cases he
            rfl
        dsimp only
        rw [List.filter_cons_of_neg (by simpa using fun h => hkey (hkeep.symm.trans h))]

namespace Holds

variable {base : UserId → Int} {mail : Mailboxes} {w t : World}

theorem congr (h : Holds base mail w) (hcur : ∀ u, t.recCur u = w.recCur u)
    (hdocs : ∀ v s, base v < s → (t.inbox.filter fun d => d.inboxKey = (some v, some s)) =
      w.inbox.filter fun d => d.inboxKey = (some v, some s)) : Holds base mail t :=
  ⟨fun u => (hcur u).trans (h.cur u), fun u s hs => (hdocs u s hs).trans (h.docs u s hs)⟩

theorem congr_docs (h : Holds base mail w) (hcur : ∀ u, t.recCur u = w.recCur u)
    (hdocs : t.mongo.docs = w.mongo.docs) : Holds base mail t :=
  h.congr hcur fun v s _ => by rw [World.inbox, hdocs, World.inbox]

/-- New letters. -/
theorem post (h : Holds base mail w) {us : List UserId} {letter : UserId → Int → Option Msg}
    {own : List Msg} (hn : us.Nodup) (hcur : ∀ u, t.recCur u = w.recCur u + us.count u)
    (hown : ∀ c ∈ own, c.seq ≤ base c.receiverId)
    (hletter : ∀ u ∈ us, ∀ n m, letter u n = some m → m.inboxKey = (some u, some n))
    (hinbox : t.inbox = w.inbox ++
      (own ++ us.filterMap fun u => letter u (w.recCur u + 1)).map toDoc) :
    Holds base (mail.apply base (.post us letter)) t := by
  refine ⟨fun u => ?_, fun u s hs => ?_⟩
  · rw [hcur, h.cur]
    by_cases hu : u ∈ us
    · simp only [Mailboxes.apply, hu, if_true, length_post, List.count_eq_one_of_mem hn hu]
      omega
    · simp [Mailboxes.apply, hu, List.count_eq_zero_of_not_mem hu]
  · have hold : (own.map toDoc).filter (fun d => d.inboxKey = (some u, some s)) = [] := by
      rw [List.filter_eq_nil_iff]
      intro d hd hk
      obtain ⟨c, hc, rfl⟩ := List.mem_map.mp hd
      have hle := hown c hc
      simp only [toDoc_inboxKey, Msg.inboxKey, decide_eq_true_eq, Prod.mk.injEq, Option.some.injEq] at hk
      rw [hk.1, hk.2] at hle
      omega
    have hnew : ((us.filterMap fun u => letter u (w.recCur u + 1)).map toDoc).filter
          (fun d => d.inboxKey = (some u, some s)) =
        if u ∈ us ∧ s = w.recCur u + 1 then (letter u (w.recCur u + 1)).toList.map toDoc else [] := by
      have hfilter := filter_letters (c := fun u => w.recCur u + 1) hn
        (fun v hv m => hletter v hv _ m) u s
      rw [List.filter_map]
      refine (congrArg (List.map toDoc) hfilter).trans ?_
      split <;> rfl
    rw [hinbox, List.map_append, List.filter_append, List.filter_append, hold, hnew, h.docs u s hs,
      List.nil_append]
    simp only [Mailboxes.apply]
    by_cases hu : u ∈ us
    · rw [if_pos hu, entry_post, Mailboxes.next, h.cur u]
      by_cases hsn : s = base u + (mail u).length + 1
      · rw [if_pos ⟨hu, hsn⟩, if_pos hsn, entry_of_gt (by omega)]
        rfl
      · rw [if_neg fun h => hsn h.2, if_neg hsn, List.append_nil]
    · rw [if_neg hu, if_neg fun h => hu h.1, List.append_nil]

/-- A letter bears its number and the name of its user. -/
theorem key (h : Holds base mail w) {u : UserId} {s : Int} (hs : base u < s) {m : Msg}
    (hm : entry (base u) (mail u) s = some m) : m.inboxKey = (some u, some s) := by
  have hdocs := h.docs u s hs
  rw [hm] at hdocs
  have hmem : toDoc m ∈ w.inbox.filter fun d => d.inboxKey = (some u, some s) := by simp [hdocs]
  exact of_decide_eq_true (List.mem_filter.mp hmem).2

/-- Letters are marked as read. -/
theorem read (h : Holds base mail w) (u : UserId) (seqs : List Int)
    (hcur : ∀ u, t.recCur u = w.recCur u) (hinbox : t.inbox =
      w.inbox.filterMap (revised (fun d => some (d.set .isRead (.bool true))) u seqs)) :
    Holds base (mail.apply base (.read u seqs)) t := by
  refine ⟨fun v => ?_, fun v s hs => ?_⟩
  · rw [hcur, h.cur]
    by_cases hv : v = u
    · subst hv
      simp [Mailboxes.apply]
    · simp [Mailboxes.apply, hv]
  · have hkey : ∀ d e, some (d.set .isRead (.bool true)) = some e → e.inboxKey = Document.inboxKey d := by
      rintro d _ ⟨⟩
      exact Document.inboxKey_set_isRead d _
    rw [hinbox, filter_revised hkey, h.docs v s hs]
    by_cases hv : v = u
    · subst hv
      simp only [Mailboxes.apply, Function.update_self, entry_amend, true_and, decide_eq_true_eq]
      cases entry (base v) (mail v) s with
      | none => simp
      | some m =>
        by_cases hseq : s ∈ seqs
        · simp [hseq, Msg.markRead]
        · simp [hseq]
    · simp [Mailboxes.apply, hv]

/-- Letters are deleted. -/
theorem delete (h : Holds base mail w) (u : UserId) (seqs : List Int)
    (hcur : ∀ u, t.recCur u = w.recCur u)
    (hdocs : ∀ v s, base v < s → (t.inbox.filter fun d => d.inboxKey = (some v, some s)) =
      if v = u ∧ s ∈ seqs then [] else w.inbox.filter fun d => d.inboxKey = (some v, some s)) :
    Holds base (mail.apply base (.delete u seqs)) t := by
  refine ⟨fun v => ?_, fun v s hs => ?_⟩
  · rw [hcur, h.cur]
    by_cases hv : v = u
    · subst hv
      simp [Mailboxes.apply]
    · simp [Mailboxes.apply, hv]
  · rw [hdocs v s hs, h.docs v s hs]
    by_cases hv : v = u
    · subst hv
      simp only [Mailboxes.apply, Function.update_self, entry_discard, true_and, decide_eq_true_eq]
      split <;> rfl
    · simp [Mailboxes.apply, hv]

theorem deleteMany (h : Holds base mail w) (u : UserId) (seqs : List Int)
    (hcur : ∀ u, t.recCur u = w.recCur u)
    (hinbox : t.inbox = w.inbox.filterMap (revised (fun _ => none) u seqs)) :
    Holds base (mail.apply base (.delete u seqs)) t := by
  refine h.delete u seqs hcur fun v s _ => ?_
  rw [hinbox, filter_revised fun _ _ h => by cases h]
  simp

/-- One document is deleted. A number of a log is on no other. -/
theorem deleteOne (h : Holds base mail w) (serverId : String)
    (hcur : ∀ u, t.recCur u = w.recCur u)
    {box : Box} (hdocs : t.mongo.docs = without (firstMatch box serverId w.mongo) w.mongo.docs) :
    Holds base (mail.apply base (deletionOf (firstMatch box serverId w.mongo))) t := by
  cases hf : firstMatch box serverId w.mongo with
  | none =>
    rw [hf] at hdocs
    exact h.congr_docs hcur hdocs
  | some q =>
    rw [hf] at hdocs
    obtain ⟨pre, post, -, hsplit, herase⟩ := List.exists_erase_eq (mem_of_firstMatch hf)
    have ht : t.inbox = pre.map Prod.snd ++ post.map Prod.snd := by
      rw [World.inbox, hdocs, ← List.map_append]
      exact congrArg _ herase
    have hw : w.inbox = pre.map Prod.snd ++ q.2 :: post.map Prod.snd := by
      rw [World.inbox, hsplit, List.map_append, List.map_cons]
    have hother : ∀ v s, q.2.inboxKey ≠ (some v, some s) →
        (t.inbox.filter fun d => d.inboxKey = (some v, some s)) =
          w.inbox.filter fun d => d.inboxKey = (some v, some s) := by
      intro v s hne
      rw [ht, hw, List.filter_append, List.filter_append, List.filter_cons_of_neg (by simpa using hne)]
    rw [deletionOf]
    split
    · rename_i u s hkey
      refine h.delete u [s] hcur fun v s' hs' => ?_
      by_cases hv : v = u ∧ s' ∈ [s]
      · rw [if_pos hv]
        obtain ⟨rfl, hs⟩ := hv
        obtain rfl := List.mem_singleton.mp hs
        have hlen := congrArg List.length (h.docs v s' hs')
        rw [hw, List.filter_append, List.filter_cons_of_pos (by simpa using hkey), List.length_append,
          List.length_cons, List.length_map] at hlen
        have hone : (entry (base v) (mail v) s').toList.length ≤ 1 := by
          cases entry (base v) (mail v) s' <;> simp
        rw [ht, List.filter_append, List.append_eq_nil_iff, ← List.length_eq_zero_iff,
          ← List.length_eq_zero_iff]
        omega
      · rw [if_neg hv]
        refine hother v s' ?_
        rw [hkey]
        rintro ⟨⟩
        exact hv ⟨rfl, List.mem_singleton_self _⟩
    · rename_i hkey
      refine h.congr hcur fun v s _ => hother v s ?_
      exact hkey v s

end Holds

section

variable {cfg : Config} {base : UserId → Int} {mail : Mailboxes} {w : World}

theorem inboxKey_letterFor {mt : MsgType} {msg m : Msg} {u : UserId} {n : Int}
    (hu : u ∈ w.addressees mt msg) (h : letterFor mt msg u n = some m) :
    m.inboxKey = (some u, some n) := by
  unfold World.addressees at hu
  unfold letterFor at h
  split at h
  · generalize Consumer.classifyMsgType mt = c at hu h
    obtain ⟨kind, need, hist⟩ := c
    cases kind with
    | single =>
      cases need with
      | false => cases hu
      | true =>
        obtain rfl := List.mem_singleton.mp hu
        cases h
        rfl
    | group =>
      cases h
      rfl
  · cases h

theorem HybridShardedMsgBox.filterMap_edited_nil (edit : Document → Option Document)
    (colls : List String) (u : UserId) (docs : List (String × Document)) :
    docs.filterMap (edited edit colls u []) = docs := by
  have hid : edited edit colls u [] = some := by
    funext q
    exact edited_of_notMem (by simp [targeted_iff])
  rw [hid, List.filterMap_some]

/-- The services look at the same collections for every edit. -/
theorem docs_msgRead (hn : cfg.box ≠ .sharded 0) (htidy : w.mongo.Tidy cfg.box) (hready : w.Ready cfg)
    (u : UserId) (seqs : List Int) : ((MsgRecBox.msgRead cfg u seqs).after w).mongo.docs =
      w.mongo.docs.filterMap (HybridShardedMsgBox.edited (fun d => some (d.set .isRead (.bool true)))
        (cfg.reach w.now u) u seqs) := by
  rw [MsgRecBox.msgRead, Config.reach]
  cases hbox : cfg.box with
  | plain =>
    dsimp only [MsgBox.msgRead]
    split
    · rename_i hnil
      subst hnil
      exact (HybridShardedMsgBox.filterMap_edited_nil _ _ u _).symm
    · exact HybridShardedMsgBox.docs_setRead seqs _ _
  | sharded n =>
    have hsound := htidy.sound hbox
    rw [hbox] at hn
    dsimp only [HybridShardedMsgBox.msgRead]
    split
    · rename_i hnil
      subst hnil
      exact (HybridShardedMsgBox.filterMap_edited_nil _ _ u _).symm
    · rw [Prog.after, HybridShardedMsgBox.exec_updateRecent cfg u
        (fun coll _ hm => HybridShardedMsgBox.sound_setRead seqs coll hm) (fun h => hn (h ▸ rfl)) hsound]
      exact HybridShardedMsgBox.docs_updatedIn (HybridShardedMsgBox.docs_setRead seqs)
        (HybridShardedMsgBox.nodup_recentNames (hready n hbox).1) _

theorem docs_deleteMessages (hn : cfg.box ≠ .sharded 0) (htidy : w.mongo.Tidy cfg.box)
    (hready : w.Ready cfg) (u : UserId) (seqs : List Int) :
    ((MsgRecBox.deleteMessages cfg u seqs).after w).mongo.docs =
      w.mongo.docs.filterMap (HybridShardedMsgBox.edited (fun _ => none) (cfg.reach w.now u) u seqs) := by
  rw [MsgRecBox.deleteMessages, Config.reach]
  cases hbox : cfg.box with
  | plain => exact HybridShardedMsgBox.docs_deleteMany seqs _ _
  | sharded n =>
    have hsound := htidy.sound hbox
    rw [hbox] at hn
    dsimp only [HybridShardedMsgBox.deleteMessages]
    split
    · rename_i hnil
      subst hnil
      exact (HybridShardedMsgBox.filterMap_edited_nil _ _ u _).symm
    · rw [Prog.after, HybridShardedMsgBox.exec_updateRecent cfg u
        (fun coll _ hm => HybridShardedMsgBox.sound_deleteMany seqs coll hm) (fun h => hn (h ▸ rfl)) hsound]
      exact HybridShardedMsgBox.docs_updatedIn (HybridShardedMsgBox.docs_deleteMany seqs)
        (HybridShardedMsgBox.nodup_recentNames (hready n hbox).1) _

theorem recCur_of_outsideMongo {α : Type} {m : M α} (hm : Prog.Frame World.outsideMongo m) (w : World)
    (u : UserId) : (m.after w).recCur u = w.recCur u :=
  (congrArg (fun t : World => t.recCur u) (Prog.frame_after hm w) :)

theorem Holds.msgRead (hn : cfg.box ≠ .sharded 0) (htidy : w.mongo.Tidy cfg.box) (hready : w.Ready cfg)
    (h : Holds base mail w) (u : UserId) (seqs : List Int) :
    Holds base (mail.apply base (.read u seqs)) ((MsgRecBox.msgRead cfg u seqs).after w) := by
  refine h.read u seqs (recCur_of_outsideMongo
    (MsgRecBox.frame_msgRead seesDocs_outsideMongo (fun _ _ => rfl) cfg) w) ?_
  rw [World.inbox, docs_msgRead hn htidy hready]
  exact (World.InReach.of_tidy htidy hready).inbox_edited _ u seqs

theorem Holds.deleteMessages (hn : cfg.box ≠ .sharded 0) (htidy : w.mongo.Tidy cfg.box)
    (hready : w.Ready cfg) (h : Holds base mail w) (u : UserId) (seqs : List Int) :
    Holds base (mail.apply base (.delete u seqs)) ((MsgRecBox.deleteMessages cfg u seqs).after w) := by
  refine h.deleteMany u seqs (recCur_of_outsideMongo
    (MsgRecBox.frame_deleteMessages seesDocs_outsideMongo (fun _ _ => rfl) cfg) w) ?_
  rw [World.inbox, docs_deleteMessages hn htidy hready]
  exact (World.InReach.of_tidy htidy hready).inbox_edited _ u seqs

theorem Holds.handleTyped (htidy : w.mongo.Tidy cfg.box) (h : Holds base mail w) {mt : MsgType}
    {msg : Msg} (ht : MsgType.tryFrom msg.msgType = some mt) (hread : mt ≠ .read)
    (hown : ∀ c ∈ unnumbered cfg.box mt msg, c.seq ≤ base c.receiverId) :
    Prog.Ensures (Consumer.numberMsg cfg mt msg >>= fun p => Consumer.dispatch cfg mt p.1 p.2) w
      fun _ t => Holds base (mail.apply base ((MailOp.record (.json msg)).event cfg.box w)) t := by
  have hdrawn : Prog.Ensures
      (Consumer.numberMsg cfg mt msg >>= fun p => Consumer.dispatch cfg mt p.1 p.2) w _ :=
    Consumer.ensures_handleTyped ht
  simp only [MailOp.event, ht, if_neg hread]
  cases hr : isReceived msg.msgType with
  | true =>
    have hreceived := Consumer.ensures_received htidy ht hr
    refine Prog.ensures_mono (Prog.ensures_and hdrawn hreceived) ?_
    rintro r t ⟨⟨hd, -⟩, hdocs⟩
    refine h.deleteOne msg.serverId (fun u => ?_) hdocs
    rw [hd.recCur, Consumer.addressees_of_isReceived hr ht]
    simp
  | false =>
    have hletters : Prog.Ensures
        (Consumer.numberMsg cfg mt msg >>= fun p => Consumer.dispatch cfg mt p.1 p.2) w _ :=
      Consumer.ensures_letters ht hread hr
    refine Prog.ensures_mono (Prog.ensures_and hdrawn hletters) ?_
    rintro r t ⟨⟨hd, -⟩, hinbox⟩
    exact h.post (Consumer.nodup_addressees w mt msg) hd.recCur hown
      (fun u hu n m hm => inboxKey_letterFor hu hm) hinbox

theorem Holds.step (hn : cfg.box ≠ .sharded 0) (htidy : w.mongo.Tidy cfg.box) (hready : w.Ready cfg)
    (h : Holds base mail w) {op : MailOp} (hop : op.Proper cfg.box base) :
    Prog.Ensures (op.run cfg) w fun _ t =>
      Holds base (mail.apply base (op.event cfg.box w)) t := by
  cases op with
  | delMsg u seqs => exact ⟨fun _ => h.deleteMessages hn htidy hready u seqs⟩
  | record payload =>
    revert hop
    apply Consumer.handleMsg_cases (P := fun payload m => (MailOp.record payload).Proper cfg.box base →
      Prog.Ensures m w fun _ t =>
        Holds base (mail.apply base ((MailOp.record payload).event cfg.box w)) t) cfg
    · exact fun _ _ => Prog.ensures_raise h
    · intro msg e ht _
      apply Prog.ensures_raise
      simp only [MailOp.event, ht]
      exact h
    · intro msg ht _
      simp only [MailOp.event, ht, if_true, Consumer.handleMsgRead]
      cases decodeMsgRead msg.content with
      | none => exact Prog.ensures_raise h
      | some data => exact ⟨fun _ => h.msgRead hn htidy hready data.userId data.msgSeq⟩
    · exact fun msg mt ht hread hop => h.handleTyped htidy ht hread (hop msg mt rfl ht)

theorem Mailed.tidy (hn : cfg.box ≠ .sharded 0) (h : Mailed cfg base w mail) : w.mongo.Tidy cfg.box := by
  induction h with
  | start _ htidy _ => exact htidy
  | step op _ _ _ _ ih => exact ih.run hn op
  | others _ hmongo _ ih => exact hmongo ▸ ih

/-- The services hold the mailboxes in every state of a run. -/
theorem Mailed.holds (hn : cfg.box ≠ .sharded 0) (h : Mailed cfg base w mail) : Holds base mail w := by
  induction h with
  | start hdocs _ hcur =>
    refine ⟨fun u => by simp [hcur u], fun u s _ => ?_⟩
    simp [World.inbox, hdocs, entry_nil]
  | step op hrun hready hop hclean ih => exact (ih.step hn (hrun.tidy hn) hready hop).holds hclean
  | others _ hmongo hcur ih => exact ih.congr_docs hcur (congrArg Mongo.docs hmongo)

/-- A document that was received under a number of a range. -/
def receivedIn (u : UserId) (a b : Int) (d : Document) : Bool :=
  d.getStr .receiverId = some u && d.holds .seq fun i => a < i && i ≤ b

/-- The received documents of a range are the letters with its numbers. -/
theorem Holds.received (h : Holds base mail w) (u : UserId) {a : Int} (ha : base u ≤ a) (b : Int) :
    (w.inbox.filter (receivedIn u a b)).Perm
      ((entries (base u) (mail u) a (b - a).toNat).map toDoc) := by
  have hnodup : ((above a (b - a).toNat).map fun s => ((some u, some s) : InboxKey)).Nodup := by
    refine List.Nodup.map ?_ ((pairwise_above _ _).imp fun hlt => Int.ne_of_lt hlt)
    intro s s' he
    simpa using he
  have hkey : ∀ d : Document, receivedIn u a b d = true ↔
      d.inboxKey ∈ (above a (b - a).toNat).map fun s => ((some u, some s) : InboxKey) := by
    intro d
    simp only [receivedIn, Bool.and_eq_true, decide_eq_true_eq, Document.holds, Option.any_eq_true,
      List.mem_map, mem_above, Document.inboxKey, Prod.mk.injEq]
    constructor
    · rintro ⟨hu, i, hi, hlow, hhigh⟩
      exact ⟨i, by omega, hu.symm, hi.symm⟩
    · rintro ⟨i, hi, hu, he⟩
      exact ⟨hu.symm, i, he.symm, by omega, by omega⟩
  refine (filter_perm_flatMap Document.inboxKey w.inbox hnodup hkey).trans (.of_eq ?_)
  rw [List.flatMap_map, entries, List.map_filterMap]
  have hdocs : ∀ s ∈ above a (b - a).toNat, (w.inbox.filter fun d => d.inboxKey = (some u, some s)) =
      (entry (base u) (mail u) s).toList.map toDoc := by
    intro s hs
    exact h.docs u s (by have := mem_above.mp hs; omega)
  rw [List.flatMap_congr hdocs]
  generalize above a (b - a).toNat = ss
  induction ss with
  | nil => rfl
  | cons s ss ih =>
    rw [List.flatMap_cons, ih]
    cases hm : entry (base u) (mail u) s <;> simp [hm]

end

end Sandcat
