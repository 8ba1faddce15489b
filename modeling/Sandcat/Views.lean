import Sandcat.Stores

/-!
# What a reader of an inbox sees

Any sequence of saves files the copies of its messages, in the collections of their
receivers. A reader of the sharded box looks at three different collections, and
sees the documents that lie in them and meet the query.
-/

namespace Sandcat

open Remote

/-- A call of `save_message` or `save_group_msg`. -/
inductive Save where
  | single (message : Msg)
  | group (message : Msg) (members : List GroupMemSeq)

namespace Save

def run (cfg : Config) : Save → M Unit
  | single message => MsgRecBox.saveMessage cfg message
  | group message members => MsgRecBox.saveGroupMsg cfg message members

/-- The copies that a save stores. -/
def copies (box : Box) : Save → List Msg
  | single message => [message]
  | group message members => groupCopies box message members

def message : Save → Msg
  | single message => message
  | group message _ => message

/-- What the copies of a save have in common. -/
theorem of_mem_copies {box : Box} {s : Save} {c : Msg} (h : c ∈ s.copies box) :
    c.serverId = s.message.serverId ∧ c.senderId = s.message.senderId ∧
      c.sendTime = s.message.sendTime := by
  cases s with
  | single m =>
    rw [copies, List.mem_singleton] at h
    rw [h]
    exact ⟨rfl, rfl, rfl⟩
  | group m members =>
    obtain rfl | h := List.mem_cons.mp h
    · cases box <;> exact ⟨rfl, rfl, rfl⟩
    · obtain ⟨v, -, rfl⟩ := List.mem_map.mp h
      exact ⟨rfl, rfl, rfl⟩

end Save

namespace World

/-- The clock is set. -/
def atTime (w : World) (now : Int) : World := { w with now }

@[simp] theorem atTime_mongo (w : World) (now : Int) : (w.atTime now).mongo = w.mongo := rfl
@[simp] theorem atTime_now (w : World) (now : Int) : (w.atTime now).now = now := rfl

/-- Saves one after another, each with its instant. -/
def afterSaves (cfg : Config) (w : World) (saves : List (Int × Save)) : World :=
  saves.foldl (fun w s => (s.2.run cfg).after (w.atTime s.1)) w

@[simp] theorem afterSaves_nil (cfg : Config) (w : World) : w.afterSaves cfg [] = w := rfl
@[simp] theorem afterSaves_cons (cfg : Config) (w : World) (s : Int × Save)
    (saves : List (Int × Save)) :
    w.afterSaves cfg (s :: saves) = ((s.2.run cfg).after (w.atTime s.1)).afterSaves cfg saves := rfl

/-- An inbox without documents. The single collection of `MsgBox` has no unique index. -/
structure EmptyInbox (w : World) : Prop where
  docs : w.mongo.docs = []
  indexed : ∀ coll ∈ w.mongo.collectionCache, (coll, Index.serverReceiver) ∈ w.mongo.indexes
  plain : (Mongo.collSingleBox, Index.serverReceiver) ∉ w.mongo.indexes

theorem EmptyInbox.sound {w : World} (h : w.EmptyInbox) : w.mongo.Sound :=
  ⟨h.indexed, by rw [h.docs]; exact List.nodup_nil⟩

theorem EmptyInbox.atTime {w : World} (h : w.EmptyInbox) (now : Int) : (w.atTime now).EmptyInbox :=
  ⟨h.docs, h.indexed, h.plain⟩

end World

namespace HybridShardedMsgBox

variable {cfg : Config} {n : Nat} {w : World}

/-- The documents that saves try to insert, with their collections. -/
def filings (cfg : Config) (userShards : Nat) (saves : List (Int × Save)) :
    List (String × Document) :=
  saves.flatMap fun s => placed cfg userShards s.1 (s.2.copies (.sharded userShards))

theorem after_run (hbox : cfg.box = .sharded n) (hn : n ≠ 0) (h : w.mongo.Sound) (s : Save) :
    (s.run cfg).after w = w.onMongo (·.filed (placed cfg n w.now (s.copies (.sharded n)))) := by
  cases s with
  | single message =>
    simp only [Save.run, MsgRecBox.saveMessage, hbox]
    exact after_saveMessage hn h message
  | group message members =>
    simp only [Save.run, MsgRecBox.saveGroupMsg, hbox]
    exact after_saveGroupMsg hn h message members

/-- The index decides which of the documents are stored. -/
theorem docs_afterSaves (hbox : cfg.box = .sharded n) (hn : n ≠ 0) (h : w.mongo.Sound)
    (saves : List (Int × Save)) : (w.afterSaves cfg saves).mongo.Sound ∧
      (w.afterSaves cfg saves).mongo.docs =
        Unique.enterAll Mongo.docKey w.mongo.docs (filings cfg n saves) := by
  induction saves generalizing w with
  | nil => exact ⟨h, rfl⟩
  | cons s saves ih =>
    have hs : ((s.2.run cfg).after (w.atTime s.1)) =
        (w.atTime s.1).onMongo (·.filed (placed cfg n s.1 (s.2.copies (.sharded n)))) :=
      after_run hbox hn (w := w.atTime s.1) h s.2
    rw [World.afterSaves_cons, hs]
    obtain ⟨hsound, hdocs⟩ := ih (w := (w.atTime s.1).onMongo (·.filed _)) (h.filed _)
    refine ⟨hsound, ?_⟩
    rw [hdocs, World.onMongo_mongo, Mongo.docs_filed, ← Unique.enterAll_append]
    rfl

/-- The shard of a user. -/
def rangeOf (cfg : Config) (userShards : Nat) (userId : UserId) : Nat :=
  cfg.hash userId % userShards % 256

/-- The month that `get_collection_name` reads from a timestamp when the clock is `now`. -/
def writeMonth (now timestamp : Int) : Int × Int :=
  (Chrono.fromTimestamp timestamp).getD (Chrono.yearMonth (now / 1000 / 86400))

/-- The months that a reader looks at when the clock is `now`. -/
def InWindow (now : Int) (ym : Int × Int) : Prop :=
  Chrono.monthOf (now / 1000) - 2 ≤ Chrono.monthIndex ym ∧
    Chrono.monthIndex ym ≤ Chrono.monthOf (now / 1000)

instance (now : Int) (ym : Int × Int) : Decidable (InWindow now ym) :=
  inferInstanceAs (Decidable (_ ∧ _))

theorem shelf_eq (now : Int) (u : UserId) (ts : Int) :
    shelf cfg n now u ts = collectionName (writeMonth now ts) (rangeOf cfg n u) := rfl

theorem isMonth_writeMonth (now ts : Int) : Chrono.IsMonth (writeMonth now ts) := by
  unfold writeMonth Chrono.fromTimestamp
  dsimp only
  split
  · exact Chrono.isMonth_yearMonth _
  · exact Chrono.isMonth_yearMonth _

section Window

variable {now : Int} {u v : UserId}

/-- The numbers of the three months. -/
theorem monthIndex_window (h : 0 ≤ now) (k : Nat) (hk : k ≤ 2) :
    Chrono.monthIndex (Chrono.subMonths k (Chrono.yearMonth (now / 1000 / 86400))) =
      Chrono.monthOf (now / 1000) - k := by
  have hlow : 23640 ≤ Chrono.monthOf (now / 1000) := Chrono.le_monthOf (by omega)
  exact Chrono.monthIndex_subMonths (by rw [Chrono.monthOf] at hlow; omega)

theorem mem_readNames_iff (h : 0 ≤ now) {ym : Int × Int} {r : Nat} (hm : Chrono.IsMonth ym) :
    collectionName ym r ∈ readNames cfg n now u ↔ r = rangeOf cfg n u ∧ InWindow now ym := by
  have hmonth := Chrono.isMonth_yearMonth (now / 1000 / 86400)
  simp only [readNames, List.mem_cons, List.not_mem_nil, or_false]
  rw [collectionName_eq_iff hm hmonth, collectionName_eq_iff hm (Chrono.isMonth_subMonths hmonth),
    collectionName_eq_iff hm (Chrono.isMonth_subMonths hmonth), monthIndex_window h 1 (by omega),
    monthIndex_window h 2 (by omega), InWindow, Chrono.monthOf, rangeOf]
  omega

theorem shelf_mem_readNames (h : 0 ≤ now) (saved ts : Int) :
    shelf cfg n saved v ts ∈ readNames cfg n now u ↔
      rangeOf cfg n v = rangeOf cfg n u ∧ InWindow now (writeMonth saved ts) :=
  mem_readNames_iff h (isMonth_writeMonth saved ts)

/-- The three collections are different on every day. -/
theorem nodup_readNames (h : 0 ≤ now) : (readNames cfg n now u).Nodup := by
  have hmonth := Chrono.isMonth_yearMonth (now / 1000 / 86400)
  have hsub : ∀ k, Chrono.IsMonth (Chrono.subMonths k (Chrono.yearMonth (now / 1000 / 86400))) :=
    fun k => Chrono.isMonth_subMonths hmonth
  simp only [readNames, List.nodup_cons, List.mem_cons, List.not_mem_nil, or_false,
    not_or, not_false_eq_true, List.nodup_nil, and_true]
  rw [collectionName_eq_iff hmonth (hsub 1), collectionName_eq_iff hmonth (hsub 2),
    collectionName_eq_iff (hsub 1) (hsub 2), monthIndex_window h 1 (by omega),
    monthIndex_window h 2 (by omega), Chrono.monthOf]
  omega

end Window

/-- Sorted or not, a query over different collections finds the documents in them. -/
theorem find_perm {names : List String} (h : names.Nodup) (m : Mongo) (p : Document → Bool)
    (r : Document → Document → Prop) [DecidableRel r] :
    (names.flatMap fun coll => (m.find coll p).insertionSort r).Perm
      ((m.docs.filter fun q => q.1 ∈ names && p q.2).map Prod.snd) := by
  have hparts : (names.flatMap fun coll => (m.find coll p).insertionSort r).Perm
      (((names.flatMap fun coll => m.docs.filter (·.1 = coll)).map Prod.snd).filter p) := by
    rw [List.map_flatMap, List.filter_flatMap]
    exact List.Perm.flatMap_left _ fun coll _ => List.perm_insertionSort _ _
  have hall := ((Unique.flatMap_filter_perm Prod.fst h m.docs).map Prod.snd).filter p
  refine hparts.trans (hall.trans (.of_eq ?_))
  rw [List.filter_map, List.filter_filter]
  congr 1
  apply List.filter_congr
  intro q _
  simp [Bool.and_comm]

theorem messagesIn_perm (h : 0 ≤ w.now) (u : UserId) (start last : Int) :
    (messagesIn cfg n w u start last).Perm ((w.mongo.docs.filter fun q =>
      q.1 ∈ readNames cfg n w.now u && addressedBetween u start last q.2).map
        fun q => Msg.tryFrom q.2) := by
  refine (List.perm_insertionSort _ _).trans ?_
  have hdistinct : (readNames cfg n w.now u).Nodup := nodup_readNames h
  have hfound := (find_perm hdistinct w.mongo
    (addressedBetween u start last) bySeq).map Msg.tryFrom
  rwa [List.map_map] at hfound

theorem msgsIn_perm (h : 0 ≤ w.now) (u : UserId) (ss se rs re : Int) :
    (msgsIn cfg n w u ss se rs re).Perm ((w.mongo.docs.filter fun q =>
      q.1 ∈ readNames cfg n w.now u &&
        matchMsgs (fun start i => start ≤ i) u ss se rs re q.2).map
        fun q => (Msg.tryFrom q.2).shownTo u) := by
  refine (List.perm_insertionSort _ _).trans ?_
  have hdistinct : (readNames cfg n w.now u).Nodup := nodup_readNames h
  have hfound := (find_perm hdistinct w.mongo
    (matchMsgs (fun start i => start ≤ i) u ss se rs re) (byTime u)).map
      fun d => (Msg.tryFrom d).shownTo u
  rwa [List.map_map] at hfound

end HybridShardedMsgBox

namespace MsgBox

variable {cfg : Config} {w : World}

/-- Documents put at the end of the single collection. -/
def appended (m : Mongo) (ds : List Document) : Mongo :=
  { m with docs := m.docs ++ ds.map (Mongo.collSingleBox, ·) }

theorem appended_append (m : Mongo) (ds es : List Document) :
    appended (appended m ds) es = appended m (ds ++ es) := by
  simp [appended]

/-- The single collection takes every document. -/
theorem exec_insertOne (h : (Mongo.collSingleBox, Index.serverReceiver) ∉ w.mongo.indexes)
    (d : Document) : (insertOne d).exec w = (.ok (), w.onMongo (appended · [d])) := by
  rw [insertOne, exec_mongoCall, Mongo.insertOne, if_neg (fun hdup => h hdup.1)]
  rfl

theorem after_insertMany (h : (Mongo.collSingleBox, Index.serverReceiver) ∉ w.mongo.indexes)
    (ds : List Document) :
    (Prog.each insertOne ds).after w = w.onMongo (appended · ds) := by
  induction ds generalizing w with
  | nil => simp [Prog.each, Prog.after, World.onMongo, appended]
  | cons d ds ih =>
    have hrest := ih (w := w.onMongo (appended · [d])) h
    rw [Prog.after] at hrest ⊢
    rw [Prog.each, Prog.exec_bind, exec_insertOne h]
    dsimp only
    rw [hrest, World.onMongo, World.onMongo_mongo, appended_append]
    rfl

/-- The documents that saves insert. -/
def filings (saves : List (Int × Save)) : List Document :=
  saves.flatMap fun s => (s.2.copies .plain).map toDoc

theorem after_run (hbox : cfg.box = .plain)
    (h : (Mongo.collSingleBox, Index.serverReceiver) ∉ w.mongo.indexes) (s : Save) :
    (s.run cfg).after w = w.onMongo (appended · ((s.copies .plain).map toDoc)) := by
  cases s with
  | single message =>
    simp only [Save.run, MsgRecBox.saveMessage, hbox, saveMessage, Prog.after, exec_insertOne h]
    rfl
  | group message members =>
    simp only [Save.run, MsgRecBox.saveGroupMsg, hbox, saveGroupMsg, after_insertMany h,
      memberMsgs_eq]
    rfl

/-- Saves move the clock and put their documents at the end. -/
theorem afterSaves_eq (hbox : cfg.box = .plain)
    (h : (Mongo.collSingleBox, Index.serverReceiver) ∉ w.mongo.indexes) (saves : List (Int × Save)) :
    ∃ last, w.afterSaves cfg saves = (w.atTime last).onMongo (appended · (filings saves)) := by
  induction saves generalizing w with
  | nil => exact ⟨w.now, by simp [World.onMongo, World.atTime, appended, filings]⟩
  | cons s saves ih =>
    obtain ⟨last, hrest⟩ := ih (w := (w.atTime s.1).onMongo
      (appended · ((s.2.copies .plain).map toDoc))) h
    refine ⟨last, ?_⟩
    rw [World.afterSaves_cons, after_run hbox (w := w.atTime s.1) h, hrest]
    simp [World.onMongo, World.atTime, appended, filings]

theorem docs_afterSaves (hbox : cfg.box = .plain)
    (h : (Mongo.collSingleBox, Index.serverReceiver) ∉ w.mongo.indexes) (saves : List (Int × Save)) :
    (w.afterSaves cfg saves).mongo.docs =
      w.mongo.docs ++ (filings saves).map (Mongo.collSingleBox, ·) := by
  obtain ⟨last, heq⟩ := afterSaves_eq hbox h saves
  rw [heq]
  rfl

/-- What `get_msgs` returns where its capacity can be had. -/
def msgsIn (w : World) (userId : UserId) (sendStart sendEnd recStart recEnd : Int) : List Msg :=
  (aggregate (fun start i => start < i) userId sendStart sendEnd recStart recEnd
    Mongo.collSingleBox w.mongo).map fun d => (Msg.tryFrom d).shownTo userId

theorem getMsgs_result (u : UserId) (ss se rs re : Int) :
    ((getMsgs u ss se rs re).exec w).1 =
      if capacityFits (se - ss + (re - rs)) then .ok (msgsIn w u ss se rs re)
      else .error .panic := by
  rw [getMsgs, Prog.exec_bind, exec_mongoCall]
  dsimp only
  rw [HybridShardedMsgBox.exec_withCapacity]
  split <;> rfl

theorem msgsIn_perm (u : UserId) (ss se rs re : Int) :
    (msgsIn w u ss se rs re).Perm (((w.mongo.docs.filter fun q => q.1 = Mongo.collSingleBox &&
      matchMsgs (fun start i => start < i) u ss se rs re q.2)).map
        fun q => (Msg.tryFrom q.2).shownTo u) := by
  refine ((List.perm_insertionSort _ _).map _).trans (.of_eq ?_)
  rw [Mongo.find, List.filter_map, List.filter_filter, List.map_map]
  congr 1
  apply List.filter_congr
  intro q _
  simp [Bool.and_comm]

/-- What is returned after saves, in terms of the copies that they store. -/
theorem msgsIn_afterSaves (hbox : cfg.box = .plain) (h : w.EmptyInbox) (saves : List (Int × Save))
    (now : Int) (u : UserId) (ss se rs re : Int) :
    (msgsIn ((w.afterSaves cfg saves).atTime now) u ss se rs re).Perm
      (((saves.flatMap fun s => s.2.copies .plain).filter fun m =>
        matchMsgs (fun start i => start < i) u ss se rs re (toDoc m)).map
          fun m => m.stored.shownTo u) := by
  have hfilings : filings saves = (saves.flatMap fun s => s.2.copies .plain).map toDoc := by
    rw [filings, List.map_flatMap]
  refine (msgsIn_perm u ss se rs re).trans (.of_eq ?_)
  rw [World.atTime_mongo, docs_afterSaves hbox h.plain, h.docs, List.nil_append, hfilings]
  simp only [List.map_map, List.filter_map]
  simp [Function.comp_def]

end MsgBox

instance (userId : UserId) : Std.Total (Msg.notAfter userId) where
  total a b := by
    unfold Msg.notAfter
    omega

instance (userId : UserId) : IsTrans Msg (Msg.notAfter userId) where
  trans a b c hab hbc := by
    unfold Msg.notAfter at *
    omega

theorem HybridShardedMsgBox.msgsIn_sorted {cfg : Config} {n : Nat} {w : World} (u : UserId)
    (ss se rs re : Int) : (msgsIn cfg n w u ss se rs re).Pairwise (Msg.notAfter u) :=
  List.pairwise_insertionSort _ _

end Sandcat
