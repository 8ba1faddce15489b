import Sandcat.Mailbox
import Sandcat.ManagerLoop

/-!
# From the websocket to the mailbox

The gateway and the consumer together: what a connection hands to the manager is published and, when its
turn comes in the queue, becomes a letter of each of its addressees. Connections, services, reads and
deletions go on in any order.
-/

namespace Sandcat

open Remote NumberedLog ManagerLoop

/-- The identifier under which a record makes letters; a delivery report bears that of another message. -/
def letterId : Payload → Option String
  | .malformed => none
  | .json msg => if isReceived msg.msgType then none else some msg.serverId

/-- The runs of the gateway and the consumer, with the records that have been handled. The consumer takes
the next record of the queue, and none of its calls is refused; on a sharded box no document is from before
the last month when it works. -/
inductive Through {ι : Type} [DecidableEq ι] (cfg : Config) (base : UserId → Int) :
    ManagerLoop ι → Mailboxes → List Payload → Prop where
  | start (w : World) : w.mongo.docs = [] → w.mongo.Tidy cfg.box → (∀ u, w.recCur u = base u) →
      w.queue = [] → Through cfg base (start w) (fun _ => []) []
  | gateway {s t : ManagerLoop ι} {mail : Mailboxes} {handled : List Payload} :
      Through cfg base s mail handled → LoopStep cfg s t → Through cfg base t mail handled
  | consume {s : ManagerLoop ι} {mail : Mailboxes} {handled : List Payload} (payload : Payload)
      (rest : List Payload) : Through cfg base s mail handled →
      s.world.queue = handled ++ payload :: rest → s.world.Ready cfg →
      (MailOp.record payload).Proper cfg.box base →
      (Consumer.handleMsg cfg payload).clean s.world = true →
      Through cfg base { s with world := (Consumer.handleMsg cfg payload).after s.world }
        (mail.apply base ((MailOp.record payload).event cfg.box s.world)) (handled ++ [payload])
  | delMsg {s : ManagerLoop ι} {mail : Mailboxes} {handled : List Payload} (userId : UserId)
      (msgSeq : List Int) : Through cfg base s mail handled → s.world.Ready cfg →
      (MsgRecBox.deleteMessages cfg userId msgSeq).clean s.world = true →
      Through cfg base { s with world := (MsgRecBox.deleteMessages cfg userId msgSeq).after s.world }
        (mail.apply base (.delete userId msgSeq)) handled
  | others {s : ManagerLoop ι} {mail : Mailboxes} {handled : List Payload} (world : World) :
      Through cfg base s mail handled → world.mongo = s.world.mongo →
      (∀ u, world.recCur u = s.world.recCur u) →
      (∀ u, (s.world.redis.hashes (sendSeqKey u)).cur ≤ (world.redis.hashes (sendSeqKey u)).cur) →
      s.world.queue <+: world.queue → Through cfg base { s with world } mail handled

section

variable {α β κ : Type} [DecidableEq κ]

end

theorem filterMap_letterId {ι : Type} (ms : List (InHand ι)) :
    (ms.map fun m => Payload.json m.message).filterMap letterId =
      (ms.filter fun m => !isReceived m.message.msgType).map fun m => m.message.serverId := by
  induction ms with
  | nil => rfl
  | cons m ms ih =>
    rw [List.map_cons, List.filterMap_cons, ih]
    cases hr : isReceived m.message.msgType <;> simp [letterId, hr]

section

variable {ι : Type} [DecidableEq ι] {cfg : Config} {base : UserId → Int} {s : ManagerLoop ι}
variable {mail : Mailboxes} {handled : List Payload}

/-- The consumer publishes nothing and draws no number of a sender, whichever of its calls fail. -/
theorem faulty_handleMsg_sending {payload : Payload} {w t : World} {r : Except Error Unit}
    (h : Prog.Faulty (Consumer.handleMsg cfg payload) w r t) : t.queue = w.queue ∧
      ∀ u, (t.redis.hashes (sendSeqKey u)).cur = (w.redis.hashes (sendSeqKey u)).cur := by
  have hkept : Kept cfg fun t : World => t.queue = w.queue ∧
      ∀ u, (t.redis.hashes (sendSeqKey u)).cur = (w.redis.hashes (sendSeqKey u)).cur := by
    refine ⟨⟨fun _ _ h => h, fun _ _ h => h, fun t us h => ⟨h.1, fun u => ?_⟩⟩, fun _ _ h => h,
      fun _ _ h => h, fun _ _ _ h => h⟩
    rw [World.bumped_hashes, bumps_not_mem _ _ fun hu => ?_]
    · exact h.2 u
    · obtain ⟨v, -, hv⟩ := List.mem_map.mp hu
      exact sendSeqKey_ne_seqKey u v hv.symm
  exact Prog.stable_faulty (hkept.handleMsg payload) h ⟨rfl, fun _ => rfl⟩

theorem handleMsg_sending (cfg : Config) (payload : Payload) (w : World) :
    ((Consumer.handleMsg cfg payload).after w).queue = w.queue ∧
      ∀ u, (((Consumer.handleMsg cfg payload).after w).redis.hashes (sendSeqKey u)).cur =
        (w.redis.hashes (sendSeqKey u)).cur :=
  faulty_handleMsg_sending (Prog.faulty_exec _ w)

/-- A step of the gateway only adds to the queue and leaves the inbox and its counters alone. -/
theorem LoopStep.world {t : ManagerLoop ι} (h : LoopStep cfg s t) : s.world.queue <+: t.world.queue ∧
    t.world.mongo = s.world.mongo ∧ ∀ u, t.world.recCur u = s.world.recCur u := by
  have hdrawn : ∀ v u, (drawn cfg v s.world).recCur u = s.world.recCur u := by
    intro v u
    rw [World.recCur, drawn, World.bumped_hashes, bumps_not_mem, World.recCur]
    exact fun hu => sendSeqKey_ne_seqKey v u (List.mem_singleton.mp hu).symm
  cases h with
  | hand i msg _ => exact ⟨List.prefix_refl _, rfl, fun _ => rfl⟩
  | take i msg channel _ _ => exact ⟨List.prefix_refl _, rfl, fun _ => rfl⟩
  | number m _ => exact ⟨List.prefix_refl _, rfl, hdrawn _⟩
  | numberFailed m ran text _ =>
    cases ran
    · exact ⟨List.prefix_refl _, rfl, fun _ => rfl⟩
    · exact ⟨List.prefix_refl _, rfl, hdrawn _⟩
  | send m nanoid written result _ _ => exact ⟨List.prefix_append _ _, rfl, fun _ => rfl⟩
  | reply m published _ => exact ⟨List.prefix_refl _, rfl, fun _ => rfl⟩

theorem deleteMessages_frame (cfg : Config) (u : UserId) (seqs : List Int) (w : World) :
    ((MsgRecBox.deleteMessages cfg u seqs).after w).queue = w.queue ∧
      ((MsgRecBox.deleteMessages cfg u seqs).after w).redis = w.redis := by
  have hframe := Prog.frame_after (@MsgRecBox.frame_deleteMessages _ _ seesDocs_outsideMongo u seqs
    (fun _ _ => rfl) cfg) w
  exact ⟨(congrArg World.queue hframe :), (congrArg World.redis hframe :)⟩

/-- The records are handled in the order of the queue. -/
theorem Through.handled_isPrefix (h : Through cfg base s mail handled) : handled <+: s.world.queue := by
  induction h with
  | start w _ _ _ _ => exact List.nil_prefix
  | gateway _ hstep ih => exact ih.trans hstep.world.1
  | consume payload rest _ hqueue _ _ _ _ =>
    rw [(handleMsg_sending _ _ _).1, hqueue]
    exact ⟨rest, (List.append_cons _ _ _).symm⟩
  | delMsg u seqs _ _ _ ih => rwa [(deleteMessages_frame _ _ _ _).1]
  | others world _ _ _ _ hqueue ih => exact ih.trans hqueue

/-- Seen from the gateway. -/
theorem Through.looped (h : Through cfg base s mail handled) : Looped cfg s := by
  induction h with
  | start w _ _ _ _ => exact .start w
  | gateway _ hstep ih => exact ih.step hstep
  | consume payload rest _ _ _ _ _ ih =>
    obtain ⟨hqueue, hcur⟩ := handleMsg_sending cfg payload _
    exact ih.others _ (fun u => (hcur u).ge) (hqueue ▸ List.prefix_refl _)
  | delMsg u seqs _ _ _ ih =>
    obtain ⟨hqueue, hredis⟩ := deleteMessages_frame cfg u seqs _
    exact ih.others _ (fun u => hredis ▸ le_refl _) (hqueue ▸ List.prefix_refl _)
  | others world _ _ _ hcur hqueue ih => exact ih.others world hcur hqueue

/-- A letter that a handled record has made, whether it is read by now or not. -/
def MadeFrom (handled : List Payload) (u : UserId) (letter : Msg) : Prop :=
  ∃ msg mt made, Payload.json msg ∈ handled ∧ MsgType.tryFrom msg.msgType = some mt ∧
    letterFor mt msg u letter.seq = some made ∧ (letter = made ∨ letter = made.markRead)

theorem MadeFrom.mono {more : List Payload} {u : UserId} {letter : Msg} (h : MadeFrom handled u letter)
    (hmore : handled ⊆ more) : MadeFrom more u letter := by
  obtain ⟨msg, mt, made, hmsg, hrest⟩ := h
  exact ⟨msg, mt, made, hmore hmsg, hrest⟩

theorem MadeFrom.markRead {u : UserId} {letter : Msg} (h : MadeFrom handled u letter) :
    MadeFrom handled u letter.markRead := by
  obtain ⟨msg, mt, made, hmsg, ht, hmade, rfl | rfl⟩ := h
  · exact ⟨msg, mt, letter, hmsg, ht, hmade, .inr rfl⟩
  · exact ⟨msg, mt, made, hmsg, ht, hmade, .inr rfl⟩

/-- What an event keeps: letters that stay are the same but for their marks. -/
theorem letters_apply {handled : List Payload} {event : MailEvent} (u : UserId)
    (hevent : event = .nothing ∨ (∃ v seqs, event = .read v seqs) ∨ ∃ v seqs, event = .delete v seqs)
    (hmade : ∀ letter, some letter ∈ mail u → MadeFrom handled u letter) :
    ((((mail.apply base event) u).reduceOption.map Msg.serverId).Sublist
      ((mail u).reduceOption.map Msg.serverId)) ∧
    ∀ letter, some letter ∈ (mail.apply base event) u → MadeFrom handled u letter := by
  rcases hevent with rfl | ⟨v, seqs, rfl⟩ | ⟨v, seqs, rfl⟩
  · exact ⟨List.Sublist.refl _, hmade⟩
  · by_cases huv : u = v
    · subst huv
      simp only [Mailboxes.apply, Function.update_self]
      refine ⟨amend_sublist _ _ fun _ => rfl, fun letter hl => ?_⟩
      rcases mem_amend hl with hl | ⟨old, hold, rfl⟩
      · exact hmade letter hl
      · exact (hmade old hold).markRead
    · simp only [Mailboxes.apply, Function.update_of_ne huv]
      exact ⟨List.Sublist.refl _, hmade⟩
  · by_cases huv : u = v
    · subst huv
      simp only [Mailboxes.apply, Function.update_self]
      exact ⟨discard_sublist _ _, fun letter hl => hmade letter (mem_discard hl)⟩
    · simp only [Mailboxes.apply, Function.update_of_ne huv]
      exact ⟨List.Sublist.refl _, hmade⟩

/-- What a record does: it makes at most one letter for each user, or it makes none. -/
theorem event_record (box : Box) (w : World) (payload : Payload) :
    ((MailOp.record payload).event box w = .nothing ∨
      (∃ v seqs, (MailOp.record payload).event box w = .read v seqs) ∨
      ∃ v seqs, (MailOp.record payload).event box w = .delete v seqs) ∨
    ∃ msg mt, payload = .json msg ∧ MsgType.tryFrom msg.msgType = some mt ∧ isReceived msg.msgType = false ∧
      (MailOp.record payload).event box w = .post (w.addressees mt msg) (letterFor mt msg) := by
  cases payload with
  | malformed => exact .inl (.inl rfl)
  | json msg =>
    cases ht : MsgType.tryFrom msg.msgType with
    | none =>
      left; left
      simp only [MailOp.event, ht]
    | some mt =>
      simp only [MailOp.event, ht]
      by_cases hread : mt = .read
      · simp only [if_pos hread]
        cases decodeMsgRead msg.content with
        | none => exact .inl (.inl rfl)
        | some data => exact .inl (.inr (.inl ⟨_, _, rfl⟩))
      · simp only [if_neg hread]
        cases hr : isReceived msg.msgType with
        | false => exact .inr ⟨msg, mt, rfl, ht, hr, rfl⟩
        | true =>
          left
          simp only [if_true, deletionOf]
          split
          · exact .inl rfl
          · split
            · exact .inr (.inr ⟨_, _, rfl⟩)
            · exact .inl rfl

/-- A letter has the identifier of its message and the number that it is made for. -/
theorem letterFor_some {mt : MsgType} {msg letter : Msg} {u : UserId} {n : Int}
    (h : letterFor mt msg u n = some letter) : letter.serverId = msg.serverId ∧ letter.seq = n := by
  unfold letterFor at h
  split at h
  · split at h
    · cases h
      exact ⟨rfl, rfl⟩
    · cases h
      exact ⟨rfl, rfl⟩
  · cases h

theorem Through.letters (h : Through cfg base s mail handled) (u : UserId) :
    ((mail u).reduceOption.map Msg.serverId).Sublist (handled.filterMap letterId) ∧
      ∀ letter, some letter ∈ mail u → MadeFrom handled u letter := by
  induction h with
  | start w _ _ _ _ => exact ⟨List.nil_sublist _, fun _ hl => nomatch hl⟩
  | gateway _ _ ih => exact ih
  | @consume s mail handled payload rest _ _ _ _ _ ih =>
    have hmore := fun letter hl => (ih.2 letter hl).mono (List.subset_append_left handled [payload])
    rw [List.filterMap_append]
    rcases event_record cfg.box s.world payload with hkeep | ⟨msg, mt, rfl, ht, hr, hpost⟩
    · obtain ⟨hsub, hmade⟩ := letters_apply u hkeep hmore
      exact ⟨(hsub.trans ih.1).trans (List.sublist_append_left _ _), hmade⟩
    · rw [hpost]
      simp only [Mailboxes.apply]
      split
      · simp only [post, List.reduceOption_append, List.map_append]
        refine ⟨ih.1.append ?_, fun letter hl => ?_⟩
        · cases hletter : letterFor mt msg u (mail.next base u) with
          | none => exact List.nil_sublist _
          | some letter =>
            have hid := (letterFor_some hletter).1
            simp [letterId, hr, hid, List.reduceOption]
        · rcases List.mem_append.mp hl with hl | hl
          · exact hmore letter hl
          · have hletter := (List.mem_singleton.mp hl).symm
            refine ⟨msg, mt, letter, List.mem_append_right _ (List.mem_singleton_self _), ht, ?_, .inl rfl⟩
            rw [(letterFor_some hletter).2]
            exact hletter
      · exact ⟨ih.1.trans (List.sublist_append_left _ _), hmore⟩
  | delMsg v seqs _ _ _ ih =>
    obtain ⟨hsub, hmade⟩ := letters_apply u (.inr (.inr ⟨v, seqs, rfl⟩)) ih.2
    exact ⟨hsub.trans ih.1, hmade⟩
  | others world _ _ _ _ _ ih => exact ih

/-- The published messages of a connection, without its delivery reports. -/
def ManagerLoop.sent (s : ManagerLoop ι) (i : ι) : List (InHand ι) :=
  s.published.filter fun m => m.conn = i && !isReceived m.message.msgType

theorem origins_sublist (s : ManagerLoop ι) (i : ι) : ((s.sent i).map InHand.origin).Sublist
    (ofConn i (s.published.map fun m => (m.conn, m.origin))) := by
  rw [ofConn, List.filter_map, List.map_map]
  apply List.Sublist.map
  apply List.monotone_filter_right
  intro m hm
  exact (Bool.and_eq_true_iff.mp hm).1

theorem Looped.sent_sublist (h : Looped cfg s) (i : ι) :
    ((s.sent i).map fun m => m.message.serverId).Sublist (s.world.queue.filterMap letterId) := by
  have hqueue := h.published_queue.filterMap letterId
  rw [filterMap_letterId] at hqueue
  refine List.Sublist.trans (List.Sublist.map _ (List.monotone_filter_right _ ?_)) hqueue
  intro m hm
  exact (Bool.and_eq_true_iff.mp hm).2

end

end Sandcat
