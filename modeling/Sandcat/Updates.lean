import Sandcat.Filing
import Sandcat.Received

/-!
# Deleting and marking what can be read

`delete_messages` and `msg_read` visit the collections of the current month and the
month before it, and `get_messages` and `get_msgs` read one month more. What a user
reads from that third collection can neither be deleted nor marked.
-/

namespace Sandcat

open Remote

/-- A document of a user with one of some numbers. -/
def targeted (userId : UserId) (msgSeq : List Int) (d : Document) : Bool :=
  d.getStr .receiverId = some userId && d.holds .seq msgSeq.contains

theorem addressed_eq (coll : String) (u : UserId) (seqs : List Int) (q : String × Document) :
    Mongo.addressed coll u seqs q = (decide (q.1 = coll) && targeted u seqs q.2) := by
  rw [Bool.eq_iff_iff]
  cases hs : q.2.getI64 .seq <;> simp [Mongo.addressed, targeted, Document.holds, hs]

/-- The documents of a box are written by `to_doc`. -/
def Mongo.Written (m : Mongo) : Prop := ∀ p ∈ m.docs, ∃ msg, p.2 = toDoc msg

@[simp] theorem toDoc_markRead (m : Msg) :
    (toDoc m).set .isRead (.bool true) = toDoc { m with isRead := true } := rfl

@[simp] theorem targeted_toDoc {u : UserId} {seqs : List Int} {m : Msg} :
    targeted u seqs (toDoc m) = true ↔ m.receiverId = u ∧ m.seq ∈ seqs := by
  simp [targeted, Document.holds]

theorem getStr_set_ne (d : Document) {f g : Field} (h : f ≠ g) {v : Bson} :
    (d.set g v).getStr f = d.getStr f := by
  simp only [Document.getStr, d.get_set_ne h]

namespace HybridShardedMsgBox

variable {cfg : Config} {n : Nat} {w : World} {u : UserId}

/-- The collections of the current month and the month before it. -/
def recentNames (cfg : Config) (userShards : Nat) (now : Int) (userId : UserId) : List String :=
  let range := cfg.hash userId % userShards % 256
  let ym := Chrono.yearMonth (now / 1000 / 86400)
  [collectionName ym range, collectionName (Chrono.subMonths 1 ym) range]

/-- The third collection that a reader looks at. -/
def oldestName (cfg : Config) (userShards : Nat) (now : Int) (userId : UserId) : String :=
  collectionName (Chrono.subMonths 2 (Chrono.yearMonth (now / 1000 / 86400)))
    (cfg.hash userId % userShards % 256)

theorem readNames_eq (now : Int) :
    readNames cfg n now u = recentNames cfg n now u ++ [oldestName cfg n now u] := rfl

theorem mem_readNames (now : Int) (coll : String) : coll ∈ readNames cfg n now u ↔
    coll ∈ recentNames cfg n now u ∨ coll = oldestName cfg n now u := by
  rw [readNames_eq, List.mem_append, List.mem_singleton]

theorem nodup_recentNames {now : Int} (h : 0 ≤ now) : (recentNames cfg n now u).Nodup := by
  have hdistinct : (readNames cfg n now u).Nodup := nodup_readNames h
  rw [readNames_eq] at hdistinct
  exact hdistinct.of_append_left

theorem oldestName_notMem {now : Int} (h : 0 ≤ now) :
    oldestName cfg n now u ∉ recentNames cfg n now u := by
  have hdistinct : (readNames cfg n now u).Nodup := nodup_readNames h
  rw [readNames_eq, List.nodup_append] at hdistinct
  exact fun hmem => hdistinct.2.2 _ hmem _ (List.mem_singleton.mpr rfl) rfl

section Update

variable {update : String → Mongo → Mongo}

/-- The update is made in the collections one after another, each of which is opened first. -/
def updatedIn (update : String → Mongo → Mongo) (colls : List String) (m : Mongo) : Mongo :=
  colls.foldl (fun m coll => update coll (m.opened coll)) m

theorem exec_updates (hu : ∀ coll {m : Mongo}, m.Sound → (update coll m).Sound) (h : w.mongo.Sound)
    (colls : List String) :
    (Prog.each (updateIn update) colls).exec w = (.ok (), w.onMongo (updatedIn update colls)) := by
  induction colls generalizing w with
  | nil => rfl
  | cons coll colls ih =>
    have hfirst : (updateIn update coll).exec w =
        (.ok (), w.onMongo fun m => update coll (m.opened coll)) := by
      simp only [updateIn, Prog.exec_bind, Prog.exec_attempt, exec_getCollection h, exec_mongoCall]
      rfl
    rw [Prog.each, Prog.exec_bind, hfirst]
    exact ih (w := w.onMongo fun m => update coll (m.opened coll)) (hu coll (h.opened coll))

theorem exec_updateRecent (cfg : Config) (u : UserId)
    (hu : ∀ coll {m : Mongo}, m.Sound → (update coll m).Sound) (hn : n ≠ 0)
    (h : w.mongo.Sound) : (updateRecent cfg n u update).exec w =
      (.ok (), w.onMongo (updatedIn update (recentNames cfg n w.now u))) := by
  rw [updateRecent, Prog.exec_bind, exec_userRange hn]
  exact exec_updates hu h _

end Update

theorem uniqueKey_markRead (d : Document) :
    Mongo.uniqueKey (d.set .isRead (.bool true)) = Mongo.uniqueKey d := by
  rw [Mongo.uniqueKey, getStr_set_ne d (by decide), getStr_set_ne d (by decide), Mongo.uniqueKey]

theorem sound_deleteMany (seqs : List Int) (coll : String) {m : Mongo} (h : m.Sound) :
    (m.deleteMany coll u seqs).Sound :=
  ⟨h.indexed, h.unique.sublist (List.filter_sublist.map _)⟩

theorem sound_setRead (seqs : List Int) (coll : String) {m : Mongo} (h : m.Sound) :
    (m.setRead coll u seqs).Sound := by
  refine ⟨h.indexed, ?_⟩
  have hkeys : (m.setRead coll u seqs).docs.map Mongo.docKey = m.docs.map Mongo.docKey := by
    rw [Mongo.setRead, List.map_map]
    apply List.map_congr_left
    intro q _
    simp only [Function.comp]
    split
    · simp only [Mongo.docKey, uniqueKey_markRead]
    · rfl
  rw [hkeys]
  exact h.unique

/-- A document after an update of the documents of a user with some numbers, in some
collections; `none` is a document that is deleted. -/
def edited (edit : Document → Option Document) (colls : List String) (userId : UserId)
    (msgSeq : List Int) (q : String × Document) : Option (String × Document) :=
  if decide (q.1 ∈ colls) && targeted userId msgSeq q.2 then (edit q.2).map (q.1, ·) else some q

theorem edited_of_notMem {edit : Document → Option Document} {colls : List String} {seqs : List Int}
    {q : String × Document} (h : ¬ (q.1 ∈ colls ∧ targeted u seqs q.2 = true)) :
    edited edit colls u seqs q = some q := by
  apply if_neg
  simpa using h

theorem edited_of_mem {edit : Document → Option Document} {colls : List String} {seqs : List Int}
    {q : String × Document} (h : q.1 ∈ colls) (ht : targeted u seqs q.2 = true) :
    edited edit colls u seqs q = (edit q.2).map (q.1, ·) := by
  apply if_pos
  simp [h, ht]

/-- Different collections are updated one after another. -/
theorem docs_updatedIn {update : String → Mongo → Mongo} {edit : Document → Option Document}
    {seqs : List Int} (he : ∀ coll (m : Mongo),
      (update coll m).docs = m.docs.filterMap (edited edit [coll] u seqs))
    {colls : List String} (hc : colls.Nodup) (m : Mongo) :
    (updatedIn update colls m).docs = m.docs.filterMap (edited edit colls u seqs) := by
  induction colls generalizing m with
  | nil =>
    have hid : edited edit [] u seqs = some := by
      funext q
      exact edited_of_notMem (by simp)
    simp [updatedIn, hid]
  | cons coll colls ih =>
    rw [List.nodup_cons] at hc
    rw [updatedIn, List.foldl_cons]
    refine (ih hc.2 _).trans ?_
    rw [he, Mongo.docs_opened, List.filterMap_filterMap]
    congr 1
    funext q
    by_cases ht : targeted u seqs q.2 = true
    · by_cases hq : q.1 = coll
      · rw [edited_of_mem (List.mem_singleton.mpr hq) ht, edited_of_mem (hq ▸ List.mem_cons_self) ht]
        cases hedit : edit q.2 with
        | none => rfl
        | some d => exact edited_of_notMem fun hd => hc.1 (hq ▸ hd.1)
      · rw [edited_of_notMem (by simp [hq])]
        by_cases hmem : q.1 ∈ colls
        · rw [edited_of_mem (List.mem_cons_of_mem _ hmem) ht]
          exact edited_of_mem hmem ht
        · rw [edited_of_notMem (by simp [hq, hmem])]
          exact edited_of_notMem (by simp [hmem])
    · rw [edited_of_notMem fun hq => ht hq.2, edited_of_notMem fun hq => ht hq.2]
      exact edited_of_notMem fun hq => ht hq.2

theorem docs_deleteMany (seqs : List Int) (coll : String) (m : Mongo) :
    (m.deleteMany coll u seqs).docs = m.docs.filterMap (edited (fun _ => none) [coll] u seqs) := by
  rw [Mongo.deleteMany, ← List.filterMap_eq_filter]
  change List.filterMap _ m.docs = _
  congr 1
  funext q
  rw [Option.guard, addressed_eq, edited]
  by_cases hq : q.1 = coll <;> cases targeted u seqs q.2 <;> simp [hq]

theorem docs_setRead (seqs : List Int) (coll : String) (m : Mongo) :
    (m.setRead coll u seqs).docs =
      m.docs.filterMap (edited (fun d => some (d.set .isRead (.bool true))) [coll] u seqs) := by
  rw [Mongo.setRead, ← List.filterMap_eq_map]
  change List.filterMap _ m.docs = _
  congr 1
  funext q
  rw [Function.comp, addressed_eq, edited]
  by_cases hq : q.1 = coll <;> cases targeted u seqs q.2 <;> simp [hq]

/-- Every document that the two queries return to a user is of a kind: the messages of
`get_messages`, and the documents whose views `get_msgs` shows. -/
def EveryReturned (cfg : Config) (userShards : Nat) (w : World) (userId : UserId) (P : Msg → Prop) :
    Prop :=
  (∀ start last res, ((getMessages cfg userShards userId start last).exec w).1 = .ok res →
    ∀ m ∈ res, P m) ∧
  ∀ sendStart sendEnd recStart recEnd res,
    ((getMsgs cfg userShards userId sendStart sendEnd recStart recEnd).exec w).1 = .ok res →
      ∀ m ∈ res, ∃ p ∈ w.mongo.docs, m = (Msg.tryFrom p.2).shownTo userId ∧ P (Msg.tryFrom p.2)

theorem everyReturned_zero (P : Msg → Prop) : EveryReturned cfg 0 w u P := by
  constructor
  · intro start last res hres
    cases hres
  · intro ss se rs re res hres
    cases hres

/-- A kind that says nothing of other users' documents is one of the documents in the three
collections. -/
theorem everyReturned_iff (hn : n ≠ 0) (h : w.mongo.Sound) (hw : w.mongo.Written) (hnow : 0 ≤ w.now)
    {P : Msg → Prop} (hP : ∀ m, m.receiverId ≠ u → P m) :
    EveryReturned cfg n w u P ↔
      ∀ p ∈ w.mongo.docs, p.1 ∈ readNames cfg n w.now u → P (Msg.tryFrom p.2) := by
  constructor
  · rintro ⟨hmessages, -⟩ p hp hread
    obtain ⟨msg, hmsg⟩ := hw p hp
    by_cases hu : msg.receiverId = u
    · have hfits : capacityFits (msg.seq - msg.seq) = true := by
        rw [Int.sub_self]
        decide
      refine hmessages msg.seq msg.seq _
        ((getMessages_result cfg hn h u msg.seq msg.seq).trans (if_pos hfits)) _ ?_
      rw [(messagesIn_perm hnow u msg.seq msg.seq).mem_iff]
      refine List.mem_map.mpr ⟨p, List.mem_filter.mpr ⟨hp, ?_⟩, rfl⟩
      simp [hread, hmsg, addressedBetween, Document.holds, hu]
    · rw [hmsg, Msg.tryFrom_toDoc]
      exact hP _ hu
  · intro hall
    constructor
    · intro start last res hres m hm
      rw [getMessages_result cfg hn h] at hres
      split at hres
      · obtain rfl := Except.ok.inj hres
        rw [(messagesIn_perm hnow u start last).mem_iff] at hm
        obtain ⟨p, hp, rfl⟩ := List.mem_map.mp hm
        obtain ⟨hp, hread⟩ := List.mem_filter.mp hp
        exact hall p hp (by simpa using (Bool.and_eq_true_iff.mp hread).1)
      · cases hres
    · intro ss se rs re res hres m hm
      rw [getMsgs_result cfg hn h] at hres
      split at hres
      · obtain rfl := Except.ok.inj hres
        rw [(msgsIn_perm hnow u ss se rs re).mem_iff] at hm
        obtain ⟨p, hp, rfl⟩ := List.mem_map.mp hm
        obtain ⟨hp, hread⟩ := List.mem_filter.mp hp
        exact ⟨p, hp, rfl, hall p hp (by simpa using (Bool.and_eq_true_iff.mp hread).1)⟩
      · cases hres

/-- An operation on some numbers of a user leaves only documents of a kind under them, as far as
the user can read, and changes no other document. -/
structure ActsOnSeen (cfg : Config) (userShards : Nat) (w : World) (userId : UserId)
    (msgSeq : List Int) (P : Msg → Prop) (op : M Unit) : Prop where
  done : (op.exec w).1 = .ok ()
  returned : EveryReturned cfg userShards (op.after w) userId fun m =>
    m.receiverId = userId → m.seq ∈ msgSeq → P m
  others : (op.after w).mongo.docs.filter (fun q => !targeted userId msgSeq q.2) =
    w.mongo.docs.filter fun q => !targeted userId msgSeq q.2

/-- After `delete_messages` no document with one of the numbers is read. -/
def DeletesSeen (cfg : Config) (userShards : Nat) (w : World) (userId : UserId)
    (msgSeq : List Int) : Prop :=
  ActsOnSeen cfg userShards w userId msgSeq (fun _ => False)
    (deleteMessages cfg userShards userId msgSeq)

/-- After `msg_read` every document with one of the numbers is read as marked. -/
def MarksSeen (cfg : Config) (userShards : Nat) (w : World) (userId : UserId)
    (msgSeq : List Int) : Prop :=
  ActsOnSeen cfg userShards w userId msgSeq (·.isRead = true)
    (msgRead cfg userShards userId msgSeq)

theorem sound_updatedIn {update : String → Mongo → Mongo}
    (hu : ∀ coll {m : Mongo}, m.Sound → (update coll m).Sound) (colls : List String) {m : Mongo}
    (h : m.Sound) : (updatedIn update colls m).Sound := by
  induction colls generalizing m with
  | nil => exact h
  | cons coll colls ih => exact ih (hu coll (h.opened coll))

section Seen

variable {seqs : List Int} {P : Msg → Prop} {update : String → Mongo → Mongo}
  {edit : Document → Option Document}

/-- An edit that makes a document one of the kind or deletes it. -/
def Edits (P : Msg → Prop) (edit : Document → Option Document) : Prop :=
  ∀ msg d, edit (toDoc msg) = some d → ∃ msg' : Msg, d = toDoc msg' ∧
    msg'.receiverId = msg.receiverId ∧ msg'.seq = msg.seq ∧ P msg'.stored

/-- A document after the update: an edited one, or one that the update did not concern. -/
theorem mem_edited (hedit : Edits P edit) {m : Mongo} (hw : m.Written) {colls : List String}
    {p : String × Document} (hp : p ∈ m.docs.filterMap (edited edit colls u seqs)) :
    (∃ msg, p.2 = toDoc msg) ∧ ((targeted u seqs p.2 = true ∧ P (Msg.tryFrom p.2)) ∨
      (p ∈ m.docs ∧ ¬ (p.1 ∈ colls ∧ targeted u seqs p.2 = true))) := by
  obtain ⟨q, hq, he⟩ := List.mem_filterMap.mp hp
  obtain ⟨msg, hmsg⟩ := hw q hq
  by_cases ht : q.1 ∈ colls ∧ targeted u seqs q.2 = true
  · rw [edited_of_mem ht.1 ht.2, hmsg] at he
    obtain ⟨d, hd, rfl⟩ := Option.map_eq_some_iff.mp he
    obtain ⟨msg', rfl, hreceiver, hseq, hkind⟩ := hedit msg d hd
    refine ⟨⟨msg', rfl⟩, .inl ⟨?_, hkind⟩⟩
    rw [hmsg, targeted_toDoc] at ht
    rw [targeted_toDoc, hreceiver, hseq]
    exact ht.2
  · rw [edited_of_notMem ht] at he
    obtain rfl := Option.some.inj he
    exact ⟨⟨msg, hmsg⟩, .inr ⟨hq, ht⟩⟩

/-- Documents that are not targeted stay as they are. -/
theorem filter_edited (hedit : Edits P edit) {m : Mongo} (hw : m.Written) (colls : List String) :
    (m.docs.filterMap (edited edit colls u seqs)).filter (fun q => !targeted u seqs q.2) =
      m.docs.filter fun q => !targeted u seqs q.2 := by
  rw [List.filter_filterMap, ← List.filterMap_eq_filter]
  apply List.filterMap_congr
  intro q hq
  by_cases ht : targeted u seqs q.2 = true
  · rw [Option.guard, if_neg (by simp [ht])]
    by_cases hc : q.1 ∈ colls
    · rw [edited_of_mem hc ht]
      obtain ⟨msg, hmsg⟩ := hw q hq
      cases he : edit q.2 with
      | none => rfl
      | some d =>
        rw [hmsg] at he ht
        obtain ⟨msg', rfl, hreceiver, hseq, -⟩ := hedit msg d he
        rw [targeted_toDoc, ← hreceiver, ← hseq, ← targeted_toDoc] at ht
        simp [ht]
    · rw [edited_of_notMem fun h => hc h.1]
      simp [ht]
  · rw [edited_of_notMem fun h => ht h.2]
    simp [Option.guard, ht]

/-- An update of the recent collections acts on what is read exactly if the third collection has
nothing for it to do. -/
theorem actsOnSeen_iff (hsound : ∀ coll {m : Mongo}, m.Sound → (update coll m).Sound)
    (hdocs : ∀ coll (m : Mongo), (update coll m).docs = m.docs.filterMap (edited edit [coll] u seqs))
    (hedit : Edits P edit) (h : w.mongo.Sound) (hw : w.mongo.Written) (hnow : 0 ≤ w.now) :
    ActsOnSeen cfg n w u seqs P (if seqs = [] then pure () else updateRecent cfg n u update) ↔
      seqs = [] ∨ n ≠ 0 ∧ ∀ p ∈ w.mongo.docs, p.1 = oldestName cfg n w.now u →
        targeted u seqs p.2 = true → P (Msg.tryFrom p.2) := by
  by_cases hs : seqs = []
  · subst hs
    refine iff_of_true ⟨rfl, ?_, rfl⟩ (.inl rfl)
    by_cases hn : n = 0
    · subst hn
      exact everyReturned_zero _
    · exact (everyReturned_iff hn h hw hnow (by simp)).mpr (by simp)
  rw [or_iff_right hs, if_neg hs]
  by_cases hn : n = 0
  · subst hn
    exact iff_of_false (fun hacts => by cases hacts.done) fun hall => hall.1 rfl
  rw [ne_eq, and_iff_right hn]
  have hexec := exec_updateRecent cfg u hsound hn h
  have hafter : (updateRecent cfg n u update).after w =
      w.onMongo (updatedIn update (recentNames cfg n w.now u)) := congrArg Prod.snd hexec
  have hnew : ((updateRecent cfg n u update).after w).mongo.docs =
      w.mongo.docs.filterMap (edited edit (recentNames cfg n w.now u) u seqs) := by
    rw [hafter]
    exact docs_updatedIn hdocs (nodup_recentNames hnow) w.mongo
  have hwritten : ((updateRecent cfg n u update).after w).mongo.Written :=
    fun p hp => (mem_edited hedit hw (hnew ▸ hp)).1
  have hkept : ((updateRecent cfg n u update).after w).mongo.Sound := by
    rw [hafter]
    exact sound_updatedIn hsound _ h
  have hreturned : EveryReturned cfg n ((updateRecent cfg n u update).after w) u
      (fun m => m.receiverId = u → m.seq ∈ seqs → P m) ↔ ∀ p ∈ w.mongo.docs,
        p.1 = oldestName cfg n w.now u → targeted u seqs p.2 = true → P (Msg.tryFrom p.2) := by
    rw [everyReturned_iff hn hkept hwritten (by rw [hafter]; exact hnow)
      fun m hm he => absurd he hm, hnew]
    constructor
    · intro hall p hp hold ht
      have hsame : edited edit (recentNames cfg n w.now u) u seqs p = some p :=
        edited_of_notMem fun hc => oldestName_notMem hnow (hold ▸ hc.1)
      obtain ⟨msg, hmsg⟩ := hw p hp
      have hkind := hall p (List.mem_filterMap.mpr ⟨p, hp, hsame⟩)
        (by rw [hafter, mem_readNames]; exact .inr hold)
      rw [hmsg] at hkind ht ⊢
      rw [targeted_toDoc] at ht
      exact hkind ht.1 ht.2
    · intro hall p hp hread hreceiver hseq
      obtain ⟨⟨msg, hmsg⟩, ⟨-, hkind⟩ | ⟨hp, hnot⟩⟩ := mem_edited hedit hw hp
      · exact hkind
      · have ht : targeted u seqs p.2 = true := by
          rw [hmsg] at hreceiver hseq ⊢
          exact targeted_toDoc.mpr ⟨hreceiver, hseq⟩
        rw [hafter, mem_readNames] at hread
        exact hall p hp (hread.resolve_left fun hrecent => hnot ⟨hrecent, ht⟩) ht
  constructor
  · intro hacts
    exact hreturned.mp hacts.returned
  · intro hall
    refine ⟨by rw [hexec], hreturned.mpr hall, ?_⟩
    rw [hnew]
    exact filter_edited hedit hw _

theorem edits_delete : Edits (fun _ => False) fun _ => none := by
  intro msg d hd
  cases hd

theorem edits_markRead : Edits (·.isRead = true) fun d => some (d.set .isRead (.bool true)) := by
  intro msg d hd
  obtain rfl := Option.some.inj hd
  exact ⟨{ msg with isRead := true }, rfl, rfl, rfl, rfl⟩

/-- What is read can be deleted exactly if the third collection holds none of it, and marked
exactly if what it holds is marked already. -/
theorem seen_changed_iff (cfg : Config) (n : Nat) (w : World) (h : w.mongo.Sound)
    (hw : w.mongo.Written) (hnow : 0 ≤ w.now) (u : UserId) (seqs : List Int) :
    (DeletesSeen cfg n w u seqs ↔ seqs = [] ∨ n ≠ 0 ∧ ∀ p ∈ w.mongo.docs,
      p.1 = oldestName cfg n w.now u → targeted u seqs p.2 = false) ∧
    (MarksSeen cfg n w u seqs ↔ seqs = [] ∨ n ≠ 0 ∧ ∀ p ∈ w.mongo.docs,
      p.1 = oldestName cfg n w.now u → targeted u seqs p.2 = true →
        (Msg.tryFrom p.2).isRead = true) := by
  constructor
  · refine (actsOnSeen_iff (fun coll _ => sound_deleteMany seqs coll) (docs_deleteMany seqs)
      edits_delete h hw hnow).trans ?_
    simp
  · exact actsOnSeen_iff (fun coll _ => sound_setRead seqs coll) (docs_setRead seqs)
      edits_markRead h hw hnow

end Seen

theorem letterSaved_sound (now : Int) : (letterSaved.atTime now).mongo.Sound :=
  (docs_afterSaves rfl (by decide) World.emptyInbox_empty.sound [(0, .single letter)]).1

theorem letterSaved_written (now : Int) : (letterSaved.atTime now).mongo.Written := by
  intro p hp
  rw [World.atTime_mongo, letterSaved_docs, List.mem_singleton] at hp
  exact ⟨letter, by rw [hp]⟩

theorem seen_changed_letter : DeletesSeen .oneShard 1 (letterSaved.atTime 0) "b" [1] ∧
    MarksSeen .oneShard 1 (letterSaved.atTime 0) "b" [1] := by
  have hiff := seen_changed_iff .oneShard 1 (letterSaved.atTime 0) (letterSaved_sound 0)
    (letterSaved_written 0) (by decide) "b" [1]
  constructor
  · exact hiff.1.mpr (.inr (by decide))
  · exact hiff.2.mpr (.inr (by decide))

/-- On the first of March the letter of January is read, but not deleted and not marked. -/
theorem old_letter_stays : (letterSaved.atTime 5097600000).mongo.Sound ∧
    (letterSaved.atTime 5097600000).mongo.Written ∧
    ((getMessages .oneShard 1 "b" 1 1).exec
      ((deleteMessages .oneShard 1 "b" [1]).after (letterSaved.atTime 5097600000))).1 = .ok [letter] ∧
    ¬ DeletesSeen .oneShard 1 (letterSaved.atTime 5097600000) "b" [1] ∧
    ¬ MarksSeen .oneShard 1 (letterSaved.atTime 5097600000) "b" [1] := by
  refine ⟨letterSaved_sound _, letterSaved_written _, by decide, ?_, ?_⟩
  · intro hseen
    exact hseen.returned.1 1 1 [letter] (by decide) letter (by decide) rfl (by decide)
  · intro hseen
    have hread := hseen.returned.1 1 1 [letter] (by decide) letter (by decide) rfl (by decide)
    revert hread
    decide

end HybridShardedMsgBox

end Sandcat
