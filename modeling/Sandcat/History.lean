import Sandcat.Fanout

/-!
# What the history store is handed

The classification of a message says whether it belongs to the history. The path of
group messages asks for that, the path of single messages for its opposite.
-/

namespace Sandcat

open Remote

/-- The messages handed to the history store. -/
def World.history (w : World) : List Msg := w.pg.messages

theorem Postgres.messages_saveMaxSeqBatch (pg : Postgres) (seqStep : Int) (us : List UserId) :
    (pg.saveMaxSeqBatch seqStep us).messages = pg.messages := by
  unfold saveMaxSeqBatch
  split <;> rfl

namespace Consumer

variable {cfg : Config} {w : World} {mt : MsgType} {msg : Msg}

theorem frame_history_numberMsg : Prog.Frame World.history (numberMsg cfg mt msg) :=
  fun _ => KeptByNumbering.numberMsg ⟨fun _ _ h => h, fun _ _ h => h, fun _ _ h => h⟩ mt msg

/-- What leaves everything but MongoDB alone. -/
theorem frame_history_of_mongo {m : M Unit} (h : Prog.Frame World.outsideMongo m) :
    Prog.Frame World.history m :=
  Prog.frame_mono h fun _ _ h => (congrArg World.history h :)

theorem ensures_history_saveMessage {h : List Msg} (hw : w.history = h) :
    Prog.Ensures (Db.saveMessage msg) w fun _ t => t.history = h ++ [msg] := by
  subst hw
  apply Prog.ensures_bind_any (P := fun t => t.history = w.history ++ [msg])
  · apply ensures_pgCall
    intro _ pg h
    cases h
    rfl
  · exact fun _ _ ht => Prog.ensures_raise ht
  · exact fun _ => id

theorem ensures_history_keep {h : List Msg} {m : M Unit} (hm : Prog.Frame World.history m)
    (hw : w.history = h) : Prog.Ensures m w fun _ t => t.history = h :=
  ⟨fun _ => (Prog.frame_after hm w).trans hw⟩

/-- The single path hands over what is not wanted. -/
theorem ensures_history_handleMessage {need : Bool} :
    Prog.Ensures (handleMessage cfg msg need) w fun _ t =>
      t.history = w.history ++ if need then [] else [msg] := by
  apply ensures_logged (P := fun t => t.history = w.history ++ if need then [] else [msg])
  · cases need with
    | true => exact Prog.ensures_ret ⟨_, rfl, by simp⟩
    | false =>
      apply ensures_spawnLogged
      exact ensures_history_saveMessage rfl
  · intro t ht
    apply ensures_history_keep _ ht
    split
    · exact frame_history_of_mongo (MsgRecBox.frame_deleteMessage _ _)
    · exact frame_history_of_mongo (MsgRecBox.frame_saveMessage _ _)

/-- The group path hands over what is wanted. -/
theorem ensures_history_handleGroupMessage {need : Bool} {members : List GroupMemSeq} :
    Prog.Ensures (handleGroupMessage cfg msg need members) w fun _ t =>
      t.history = w.history ++ if need then [msg] else [] := by
  apply ensures_spawned (P := fun t => t.history = w.history ++ if need then [msg] else [])
  · apply Prog.ensures_bind_ok (P := fun _ t => t.history = w.history)
    · apply Prog.ensures_onlyIf
      · intro _
        apply ensures_pgCall
        intro _ pg h
        cases h
        exact ⟨_, rfl, w.pg.messages_saveMaxSeqBatch _ _⟩
      · exact fun _ => ⟨_, rfl, rfl⟩
    · intro _ t ht
      cases need with
      | true => exact ensures_history_saveMessage ht
      | false => exact Prog.ensures_ret (by simp [ht])
  · intro t ht
    exact ensures_history_keep (frame_history_of_mongo (MsgRecBox.frame_saveGroupMsg _ _ _)) ht

/-- What the storing task hands to the history store. -/
def historyOf (mt : MsgType) (msg : Msg) : List Msg :=
  if getSendToDbFlag mt then
    match (classifyMsgType mt).1, (classifyMsgType mt).2.2 with
    | .single, need => if need then [] else [msg]
    | .group, need => if need then [msg] else []
  else []

theorem ensures_history_dispatch {members : List GroupMemSeq} :
    Prog.Ensures (dispatch cfg mt msg members) w fun _ t =>
      t.history = w.history ++ historyOf mt msg := by
  apply ensures_logged (P := fun t => t.history = w.history ++ historyOf mt msg)
  · unfold historyOf
    split
    · apply ensures_spawnLogged
      cases (classifyMsgType mt).1 with
      | single => exact ensures_history_handleMessage
      | group => exact ensures_history_handleGroupMessage
    · exact Prog.ensures_ret ⟨_, rfl, by simp⟩
  · intro t ht
    apply ensures_history_keep _ ht
    exact Prog.frame_mono (frame_pushMsg _ _ _) fun _ _ h => (congrArg World.history h :)

/-- A message of a known type, handled while no call is refused. -/
theorem ensures_history (ht : MsgType.tryFrom msg.msgType = some mt) (hread : mt ≠ .read) :
    Prog.Ensures (handleMsg cfg (.json msg)) w fun _ t =>
      t.history = w.history ++ historyOf mt (w.numberedMsg mt msg) := by
  rw [handleMsg_typed cfg ht hread]
  apply Prog.ensures_bind
  apply Prog.ensures_frame frame_history_numberMsg
  apply Prog.ensures_mono ensures_numberMsg
  rintro r t ⟨-, -, hr⟩ hkept
  by_cases hbad : (classifyMsgType mt).1 = .group ∧ badRemoval msg = true
  · -- a removal that names nobody fails before the tasks, and belongs to no history
    rw [if_pos hbad] at hr
    obtain ⟨e, rfl⟩ := hr
    obtain rfl := type_of_badRemoval hbad.2 ht
    simp [hkept, historyOf, getSendToDbFlag, classifyMsgType]
  · rw [if_neg hbad] at hr
    subst hr
    rw [← hkept]
    exact ensures_history_dispatch

/-- The history grows by the message exactly if the classification wants it there. -/
def HistoryFollows (mt : MsgType) (msg : Msg) (w t : World) : Prop :=
  t.history = w.history ++
    if (classifyMsgType mt).2.2 && getSendToDbFlag mt then [w.numberedMsg mt msg] else []

end Consumer

open Consumer in
/-- The history follows the classification for group messages and for what is not stored at
all; for every other single message it does the opposite. -/
theorem history_follows_iff {cfg : Config} {w : World} {msg : Msg} {mt : MsgType}
    (ht : MsgType.tryFrom msg.msgType = some mt) (hread : mt ≠ .read)
    (hclean : (handleMsg cfg (.json msg)).clean w = true) :
    HistoryFollows mt msg w ((handleMsg cfg (.json msg)).after w) ↔
      (classifyMsgType mt).1 = .group ∨ getSendToDbFlag mt = false := by
  have hist := (ensures_history (w := w) ht hread).holds hclean
  rw [HistoryFollows, Prog.after, hist, List.append_cancel_left_eq]
  cases mt <;> simp [historyOf, classifyMsgType, getSendToDbFlag]

theorem history_follows_iff_group :
    Consumer.HistoryFollows .groupMsg groupHello twoMembers
      ((Consumer.handleMsg .small (.json groupHello)).after twoMembers) :=
  (history_follows_iff rfl (by decide) (by decide)).mpr (.inl rfl)

/-- A single message of `a` to `b`. -/
def singleHello : Msg :=
  { senderId := "a", receiverId := "b", serverId := "id", sendSeq := 1,
    msgType := MsgType.singleMsg.toI32 }

/-- A single message belongs to the history and is not handed over. -/
theorem single_message_not_in_history :
    (¬ ∀ cfg w msg mt, MsgType.tryFrom msg.msgType = some mt → mt ≠ .read →
      (Consumer.handleMsg cfg (.json msg)).clean w = true →
        Consumer.HistoryFollows mt msg w ((Consumer.handleMsg cfg (.json msg)).after w)) ∧
    ((Consumer.handleMsg .small (.json singleHello)).after twoMembers).history = [] := by
  have hnone : ((Consumer.handleMsg .small (.json singleHello)).after twoMembers).history = [] := by
    decide
  refine ⟨?_, hnone⟩
  intro h
  have hist := h .small twoMembers singleHello .singleMsg rfl (by decide) (by decide)
  rw [Consumer.HistoryFollows, hnone] at hist
  exact absurd hist (by decide)

end Sandcat
