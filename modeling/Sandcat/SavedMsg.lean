import Sandcat.Received

/-!
# What a saved message comes back as

A document is written by one list of fields and read back by another. The reader asks for
`platform`, `avatar`, `nickname` and `related_msg_id`, which the writer leaves out, and takes
the default of a field that is missing. A message survives exactly if it has these defaults.
-/

namespace Sandcat

open Remote

/-- The fields that are not written have their defaults. -/
structure Msg.Storable (m : Msg) : Prop where
  platform : m.platform = 0
  avatar : m.avatar = ""
  nickname : m.nickname = ""
  relatedMsgId : m.relatedMsgId = none

theorem Msg.stored_eq_iff (m : Msg) : m.stored = m ↔ m.Storable := by
  constructor
  · intro h
    exact ⟨(congrArg Msg.platform h).symm, (congrArg Msg.avatar h).symm,
      (congrArg Msg.nickname h).symm, (congrArg Msg.relatedMsgId h).symm⟩
  · rintro ⟨hp, ha, hn, hr⟩
    cases m
    subst hp ha hn hr
    rfl

/-- Every document with the identifier of a message is the document of that message. -/
def World.KeepsOnly (m : Msg) (w : World) : Prop :=
  ∀ p ∈ w.mongo.docs, p.2.getStr .serverId = some m.serverId → p.2 = toDoc m

namespace World.KeepsOnly

variable {m : Msg}

theorem stable_insertOne (coll : String) :
    Prog.Stable (World.KeepsOnly m) (mongoCall (Mongo.insertOne coll (toDoc m))) := by
  apply Prog.stable_request
  intro w a t hw h
  obtain ⟨q, hq, ht⟩ := eq_ok_of_map h
  cases ht
  unfold Mongo.insertOne at hq
  split at hq
  · cases hq
  · cases hq
    intro p hp hid
    obtain hp | hp := List.mem_append.mp hp
    · exact hw p hp hid
    · rw [List.mem_singleton.mp hp]

theorem of_docs {w t : World} (h : t.mongo.docs = w.mongo.docs) (hw : w.KeepsOnly m) :
    t.KeepsOnly m := by
  rw [World.KeepsOnly, h]
  exact hw

theorem stable_saveMessage (cfg : Config) :
    Prog.Stable (World.KeepsOnly m) (MsgRecBox.saveMessage cfg m) := by
  have hdocs : SeesDocs fun w => w.mongo.docs := fun _ _ h => h
  have hframe : ∀ {α : Type} {prog : M α}, Prog.Frame (fun w => w.mongo.docs) prog →
      Prog.Stable (World.KeepsOnly m) prog := fun h => Prog.stable_of_frame h fun _ _ ht => of_docs ht
  unfold MsgRecBox.saveMessage
  cases cfg.box with
  | plain => exact stable_insertOne _
  | sharded n =>
    apply Prog.stable_bind (hframe (HybridShardedMsgBox.frame_userCollection _ _ _ _ _))
    intro collName
    apply Prog.stable_bind (hframe (HybridShardedMsgBox.frame_getCollection hdocs _))
    intro collection
    exact stable_insertOne _

/-- A document found under the identifier. -/
theorem tryFrom_findOne {w : World} (hw : w.KeepsOnly m) {coll : String} {d : Document}
    (h : w.mongo.findOne coll m.serverId = some d) : Msg.tryFrom d = m.stored := by
  have hd := List.mem_of_head? h
  simp only [Mongo.find, List.mem_filter, List.mem_map, decide_eq_true_eq] at hd
  obtain ⟨⟨p, ⟨hp, -⟩, rfl⟩, hid⟩ := hd
  rw [hw p hp hid, Msg.tryFrom_toDoc]

theorem findIn {w : World} (hw : w.KeepsOnly m) (colls : List String) {m' : Msg}
    (h : ((HybridShardedMsgBox.findIn m.serverId colls).exec w).1 = .ok (some m')) :
    m' = m.stored := by
  have hdocs : SeesDocs fun w => w.mongo.docs := fun _ _ h => h
  induction colls generalizing w with
  | nil => cases h
  | cons coll colls ih =>
    have hsame := Prog.frame_after (HybridShardedMsgBox.frame_getCollection hdocs coll) w
    rw [Prog.after] at hsame
    rw [HybridShardedMsgBox.findIn, Prog.exec_bind] at h
    rcases hopen : (HybridShardedMsgBox.getCollection coll).exec w with ⟨r, t⟩
    rw [hopen] at h hsame
    cases r with
    | error e => cases h
    | ok collection =>
      have ht : t.KeepsOnly m := of_docs hsame hw
      dsimp only at h
      rw [Prog.exec_bind, exec_mongoCall] at h
      dsimp only at h
      cases hfound : t.mongo.findOne collection m.serverId with
      | none =>
        rw [hfound] at h
        exact ih ht h
      | some d =>
        rw [hfound] at h
        cases h
        exact tryFrom_findOne ht hfound

end World.KeepsOnly

namespace MsgRecBox

def getMessage (cfg : Config) (messageId : String) : M (Option Msg) :=
  match cfg.box with
  | .plain => MsgBox.getMessage messageId
  | .sharded _ => HybridShardedMsgBox.getMessage messageId

/-- Either box reads back what a document keeps. -/
theorem getMessage_keepsOnly {cfg : Config} {w : World} {m m' : Msg} (hw : w.KeepsOnly m)
    (h : ((getMessage cfg m.serverId).exec w).1 = .ok (some m')) : m' = m.stored := by
  unfold getMessage at h
  cases hbox : cfg.box with
  | plain =>
    rw [hbox] at h
    dsimp only [MsgBox.getMessage] at h
    rw [Prog.exec_bind, exec_mongoCall] at h
    cases hfound : w.mongo.findOne Mongo.collSingleBox m.serverId with
    | none =>
      simp only [hfound] at h
      cases h
    | some d =>
      simp only [hfound] at h
      cases h
      exact World.KeepsOnly.tryFrom_findOne hw hfound
  | sharded n =>
    rw [hbox] at h
    exact World.KeepsOnly.findIn hw _ h

end MsgRecBox

/-- The document of a message is read as that message, and either box that was given the message
gives it back, exactly if the fields that are not written have their defaults. -/
theorem saved_msg_round_trips_iff (m : Msg) :
    (Msg.tryFrom (toDoc m) = m ↔ m.Storable) ∧
      ∀ (cfg : Config) (w : World), (∀ p ∈ w.mongo.docs, p.2.getStr .serverId ≠ some m.serverId) →
        ∀ m', ((MsgRecBox.getMessage cfg m.serverId).exec
          ((MsgRecBox.saveMessage cfg m).after w)).1 = .ok (some m') → (m' = m ↔ m.Storable) := by
  rw [← m.stored_eq_iff, Msg.tryFrom_toDoc]
  refine ⟨Iff.rfl, ?_⟩
  intro cfg w hnew m' hread
  have hw : w.KeepsOnly m := fun p hp hid => absurd hid (hnew p hp)
  have hsaved := Prog.stable_after (World.KeepsOnly.stable_saveMessage cfg) hw
  rw [MsgRecBox.getMessage_keepsOnly hsaved hread]

/-- The plain box gives the letter back. -/
theorem saved_msg_round_trips_letter : letter.Storable := by
  refine ((saved_msg_round_trips_iff letter).2 { Config.oneShard with box := .plain } .empty ?_
    letter ?_).mp rfl
  · intro p hp
    cases hp
  · rfl

/-- A message with the nickname of its sender comes back without it. -/
theorem nickname_lost : ¬ ∀ m : Msg, Msg.tryFrom (toDoc m) = m := by
  intro h
  have hm := congrArg Msg.nickname (h { letter with nickname := "Ann" })
  revert hm
  decide

end Sandcat
