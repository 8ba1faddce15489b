import Sandcat.Reads
import Sandcat.Calendar
import Sandcat.Undisturbed
import Sandcat.Lib.Unique

/-!
# What the sharded box does to its documents

A collection that has been opened carries the unique index, so a box that starts
without duplicates never has any, and no collection is refused to it. A save files
copies, each in the collection of its receiver and its month, and the index keeps
the first of the copies of one message for one receiver.
-/

namespace Sandcat

open Remote

theorem exec_mongoCall {α : Type} (g : Mongo → Except Error (α × Mongo)) (w : World) :
    (mongoCall g).exec w =
      match g w.mongo with
      | .ok (a, mongo) => (.ok a, { w with mongo })
      | .error e => (.error e, w) := by
  rw [mongoCall, Prog.exec_request]
  cases g w.mongo <;> rfl

def World.onMongo (f : Mongo → Mongo) (w : World) : World := { w with mongo := f w.mongo }

@[simp] theorem World.onMongo_mongo (f : Mongo → Mongo) (w : World) :
    (w.onMongo f).mongo = f w.mongo := rfl
@[simp] theorem World.onMongo_now (f : Mongo → Mongo) (w : World) : (w.onMongo f).now = w.now := rfl

namespace Mongo

/-- The collection of a document and its key in the unique index. -/
def docKey (p : String × Document) : String × Option String × Option String := (p.1, uniqueKey p.2)

/-- What the box relies on: its open collections carry the unique index, and no collection
violates it. -/
structure Sound (m : Mongo) : Prop where
  indexed : ∀ coll ∈ m.collectionCache, (coll, Index.serverReceiver) ∈ m.indexes
  unique : (m.docs.map docKey).Nodup

theorem Sound.empty : Sound .empty := ⟨by simp [Mongo.empty], List.nodup_nil⟩

/-- `ensure_collection_indexed`, when it succeeds. -/
def ensured (m : Mongo) (coll : String) : Mongo :=
  { m with
    indexes := [(coll, .serverReceiver), (coll, .senderSendSeq), (coll, .sendTime),
      (coll, .receiverSeq)] ++ m.indexes
    collectionCache := coll :: m.collectionCache }

theorem Sound.ensured {m : Mongo} (h : m.Sound) (coll : String) : (m.ensured coll).Sound := by
  refine ⟨?_, h.unique⟩
  intro c hc
  obtain rfl | hc := List.mem_cons.mp hc
  · exact List.mem_cons_self
  · exact List.mem_append_right _ (h.indexed c hc)

/-- `get_collection`, when it succeeds. -/
def opened (m : Mongo) (coll : String) : Mongo :=
  if coll ∈ m.collectionCache then m
  else
    { m with
      indexes := [(coll, .serverReceiver), (coll, .senderSendSeq), (coll, .sendTime),
        (coll, .receiverSeq)] ++ m.indexes
      collectionCache := coll :: m.collectionCache }

def openedAll (m : Mongo) (colls : List String) : Mongo := colls.foldl opened m

@[simp] theorem openedAll_nil (m : Mongo) : m.openedAll [] = m := rfl
@[simp] theorem openedAll_cons (m : Mongo) (coll : String) (colls : List String) :
    m.openedAll (coll :: colls) = (m.opened coll).openedAll colls := rfl

@[simp] theorem docs_opened (m : Mongo) (coll : String) : (m.opened coll).docs = m.docs := by
  unfold opened
  split <;> rfl

@[simp] theorem active_opened (m : Mongo) (coll : String) :
    (m.opened coll).activeCollections = m.activeCollections := by
  unfold opened
  split <;> rfl

theorem mem_cache_opened (m : Mongo) (coll : String) : coll ∈ (m.opened coll).collectionCache := by
  unfold opened
  split
  · assumption
  · exact List.mem_cons_self

theorem cache_opened_mono {m : Mongo} {coll c : String} (h : c ∈ m.collectionCache) :
    c ∈ (m.opened coll).collectionCache := by
  unfold opened
  split
  · exact h
  · exact List.mem_cons_of_mem _ h

theorem opened_of_notMem {m : Mongo} {coll : String} (h : coll ∉ m.collectionCache) :
    m.opened coll = m.ensured coll := if_neg h

theorem Sound.opened {m : Mongo} (h : m.Sound) (coll : String) : (m.opened coll).Sound := by
  by_cases hm : coll ∈ m.collectionCache
  · rw [Mongo.opened, if_pos hm]
    exact h
  · rw [opened_of_notMem hm]
    exact h.ensured coll

section OpenedAll

variable {m : Mongo} {colls : List String}

@[simp] theorem docs_openedAll (m : Mongo) (colls : List String) :
    (m.openedAll colls).docs = m.docs := by
  induction colls generalizing m with
  | nil => rfl
  | cons coll colls ih => rw [openedAll_cons, ih, docs_opened]

@[simp] theorem active_openedAll (m : Mongo) (colls : List String) :
    (m.openedAll colls).activeCollections = m.activeCollections := by
  induction colls generalizing m with
  | nil => rfl
  | cons coll colls ih => rw [openedAll_cons, ih, active_opened]

theorem Sound.openedAll (h : m.Sound) : (m.openedAll colls).Sound := by
  induction colls generalizing m with
  | nil => exact h
  | cons coll colls ih => exact ih (h.opened coll)

theorem cache_openedAll_mono {c : String} (h : c ∈ m.collectionCache) :
    c ∈ (m.openedAll colls).collectionCache := by
  induction colls generalizing m with
  | nil => exact h
  | cons coll colls ih => exact ih (cache_opened_mono h)

theorem mem_cache_openedAll {c : String} (h : c ∈ colls) :
    c ∈ (m.openedAll colls).collectionCache := by
  induction colls generalizing m with
  | nil => cases h
  | cons coll colls ih =>
    rw [openedAll_cons]
    obtain rfl | h := List.mem_cons.mp h
    · exact cache_openedAll_mono (mem_cache_opened m _)
    · exact ih h

end OpenedAll

/-- Documents inserted under the unique index. -/
def admitted (m : Mongo) (ps : List (String × Document)) : Mongo :=
  { m with docs := Unique.enterAll docKey m.docs ps }

theorem Sound.admitted {m : Mongo} (h : m.Sound) (ps : List (String × Document)) :
    (m.admitted ps).Sound := ⟨h.indexed, Unique.nodup_enterAll h.unique⟩

/-- Collections are opened and documents inserted. -/
def filed (m : Mongo) (ps : List (String × Document)) : Mongo :=
  (m.openedAll (ps.map Prod.fst)).admitted ps

@[simp] theorem docs_filed (m : Mongo) (ps : List (String × Document)) :
    (m.filed ps).docs = Unique.enterAll docKey m.docs ps := by
  rw [filed, admitted, docs_openedAll]

@[simp] theorem active_filed (m : Mongo) (ps : List (String × Document)) :
    (m.filed ps).activeCollections = m.activeCollections := by
  rw [filed, admitted, active_openedAll]

theorem Sound.filed {m : Mongo} (h : m.Sound) (ps : List (String × Document)) : (m.filed ps).Sound :=
  h.openedAll.admitted ps

/-- Sound collections accept every index. -/
theorem Sound.createIndex {m : Mongo} (h : m.Sound) (coll : String) (i : Index) :
    m.createIndex coll i = .ok ((), { m with indexes := (coll, i) :: m.indexes }) := by
  apply if_neg
  rintro ⟨-, hdup⟩
  apply hdup
  have hsub := h.unique.sublist ((List.filter_sublist (p := (·.1 = coll))).map docKey)
  have hkey : (m.docs.filter (·.1 = coll)).map docKey =
      ((m.docs.filter (·.1 = coll)).map (uniqueKey ·.2)).map (coll, ·) := by
    rw [List.map_map]
    apply List.map_congr_left
    intro p hp
    have hc : p.1 = coll := by simpa using (List.mem_filter.mp hp).2
    simp only [Function.comp, docKey, hc]
  rw [hkey] at hsub
  exact hsub.of_map _

theorem insertOne_indexed {m : Mongo} {coll : String} (hi : (coll, Index.serverReceiver) ∈ m.indexes)
    (d : Document) : m.insertOne coll d =
      if docKey (coll, d) ∈ m.docs.map docKey then .error duplicateKey
      else .ok ((), m.admitted [(coll, d)]) := by
  have hiff : ((coll, Index.serverReceiver) ∈ m.indexes ∧
      ∃ p ∈ m.docs, p.1 = coll ∧ uniqueKey p.2 = uniqueKey d) ↔
      docKey (coll, d) ∈ m.docs.map docKey := by
    simp [hi, docKey, List.mem_map]
  unfold Mongo.insertOne
  simp only [hiff]
  split
  · rfl
  · rename_i hnew
    rw [admitted, Unique.enterAll_cons, Unique.enter_of_notMem hnew, Unique.enterAll_nil]

end Mongo

namespace HybridShardedMsgBox

variable {cfg : Config} {n : Nat} {w : World}

theorem exec_createIndex (h : w.mongo.Sound) (coll : String) (i : Index) :
    (mongoCall (Mongo.createIndex coll i)).exec w =
      (.ok (), w.onMongo fun m => { m with indexes := (coll, i) :: m.indexes }) := by
  rw [exec_mongoCall]
  simp only [h.createIndex]
  rfl

/-- The loop over the four indexes, with whatever is done about a refusal. -/
theorem exec_indexes {coll : String} {f : Index → M Unit}
    (hf : ∀ i (w : World), w.mongo.Sound → (f i).exec w =
      (.ok (), w.onMongo fun m => { m with indexes := (coll, i) :: m.indexes }))
    (h : w.mongo.Sound) :
    (Prog.each f [.receiverSeq, .sendTime, .senderSendSeq, .serverReceiver]).exec w =
      (.ok (), w.onMongo fun m => { m with indexes := (m.ensured coll).indexes }) := by
  have hs : ∀ (i : Index) {v : World}, v.mongo.Sound →
      (v.onMongo fun m => { m with indexes := (coll, i) :: m.indexes }).mongo.Sound :=
    fun i v hv => ⟨fun c hc => List.mem_cons_of_mem _ (hv.indexed c hc), hv.unique⟩
  simp only [Prog.each, Prog.exec_bind, hf _ _ h, hf _ _ (hs _ h), hf _ _ (hs _ (hs _ h)),
    hf _ _ (hs _ (hs _ (hs _ h)))]
  rfl

theorem exec_ensureCollectionIndexed (h : w.mongo.Sound) (coll : String) :
    (ensureCollectionIndexed coll).exec w = (.ok (), w.onMongo (·.ensured coll)) := by
  rw [ensureCollectionIndexed, Prog.exec_bind,
    exec_indexes (fun i w hw => exec_createIndex hw coll i) h]
  rfl

/-- A sound box is refused no collection. -/
theorem exec_getCollection (h : w.mongo.Sound) (coll : String) :
    (getCollection coll).exec w = (.ok coll, w.onMongo (·.opened coll)) := by
  unfold getCollection cached
  rw [Prog.exec_bind, exec_mongoCall]
  by_cases hm : coll ∈ w.mongo.collectionCache
  · simp [hm, World.onMongo, Mongo.opened]
  · have hin : coll ∈ (w.mongo.ensured coll).collectionCache := List.mem_cons_self
    simp only [hm, decide_false, Bool.false_eq_true, if_false]
    rw [Prog.exec_bind, exec_ensureCollectionIndexed h]
    dsimp only
    rw [Prog.exec_bind, exec_mongoCall]
    simp [World.onMongo, hin, Mongo.opened_of_notMem hm]

/-- The collection of a user's documents sent at an instant, by a writer whose clock is `now`. -/
def shelf (cfg : Config) (userShards : Nat) (now : Int) (userId : UserId) (timestamp : Int) : String :=
  getCollectionName (now / 1000) timestamp (cfg.hash userId % userShards % 256)

/-- Copies with the collections they go to. -/
def placed (cfg : Config) (userShards : Nat) (now : Int) (messages : List Msg) :
    List (String × Document) :=
  messages.map fun m => (shelf cfg userShards now m.receiverId m.sendTime, toDoc m)

theorem exec_userRange (hn : n ≠ 0) (u : UserId) :
    (userRange cfg n u).exec w = (.ok (cfg.hash u % n % 256), w) := by
  rw [userRange, Prog.exec_request, getUserRange, if_neg hn]

theorem exec_nowSecs : nowSecs.exec w = (.ok (w.now / 1000), w) := rfl

theorem exec_userCollection (hn : n ≠ 0) (u : UserId) (ts : Int) :
    (userCollection cfg n u ts).exec w = (.ok (shelf cfg n w.now u ts), w) := by
  rw [userCollection, Prog.exec_bind, exec_userRange hn]
  rfl

theorem exec_placeCopies (hn : n ≠ 0) (h : w.mongo.Sound) (messages : List Msg) :
    (placeCopies cfg n messages).exec w = (.ok (placed cfg n w.now messages),
      w.onMongo (·.openedAll ((placed cfg n w.now messages).map Prod.fst))) := by
  induction messages generalizing w with
  | nil => rfl
  | cons m messages ih =>
    simp only [placeCopies, Prog.exec_bind, exec_userCollection hn, exec_getCollection h]
    rw [ih (w := w.onMongo (·.opened _)) (h.opened _)]
    rfl

/-- An insertion into an open collection. -/
theorem after_insertOne (h : w.mongo.Sound) {coll : String} (hc : coll ∈ w.mongo.collectionCache)
    (d : Document) : (insertOne coll d).after w = w.onMongo (·.admitted [(coll, d)]) := by
  rw [insertOne, Prog.after, exec_mongoCall, Mongo.insertOne_indexed (h.indexed coll hc)]
  by_cases hd : Mongo.docKey (coll, d) ∈ w.mongo.docs.map Mongo.docKey
  · rw [if_pos hd]
    simp only [World.onMongo, Mongo.admitted, Unique.enterAll_cons, Unique.enter_of_mem hd,
      Unique.enterAll_nil]
  · rw [if_neg hd]
    rfl

theorem after_inserts (h : w.mongo.Sound) {ps : List (String × Document)}
    (hc : ∀ p ∈ ps, p.1 ∈ w.mongo.collectionCache) :
    ∃ results, (Prog.all (ps.map fun p => insertOne p.1 p.2)).exec w =
      (.ok results, w.onMongo (·.admitted ps)) := by
  induction ps generalizing w with
  | nil => exact ⟨[], rfl⟩
  | cons p ps ih =>
    have hp := after_insertOne h (hc p List.mem_cons_self) p.2
    obtain ⟨results, hr⟩ := ih (w := w.onMongo (·.admitted [p])) (h.admitted _)
      fun q hq => hc q (List.mem_cons_of_mem _ hq)
    refine ⟨((insertOne p.1 p.2).exec w).1 :: results, ?_⟩
    rw [Prog.after] at hp
    simp only [List.map_cons, Prog.all, Prog.exec_bind, Prog.exec_attempt]
    rw [hp, hr]
    rfl

theorem after_firstFailure (results : List (Except Error Unit)) :
    (firstFailure results).after w = w := by
  induction results with
  | nil => rfl
  | cons r results ih =>
    cases r with
    | ok _ => exact ih
    | error e => rfl

theorem after_saveMessage (hn : n ≠ 0) (h : w.mongo.Sound) (message : Msg) :
    (saveMessage cfg n message).after w = w.onMongo (·.filed (placed cfg n w.now [message])) := by
  have hi := after_insertOne (w := w.onMongo (·.opened _)) (h.opened _)
    (Mongo.mem_cache_opened w.mongo (shelf cfg n w.now message.receiverId message.sendTime))
    (toDoc message)
  rw [Prog.after] at hi ⊢
  simp only [saveMessage, Prog.exec_bind, exec_userCollection hn, exec_getCollection h]
  rw [hi]
  rfl

theorem after_saveGroupMsg (hn : n ≠ 0) (h : w.mongo.Sound) (message : Msg)
    (members : List GroupMemSeq) : (saveGroupMsg cfg n message members).after w =
      w.onMongo (·.filed (placed cfg n w.now (groupCopies (.sharded n) message members))) := by
  have hcopies : { message with receiverId := message.senderId } ::
      memberMsgs { message with sendSeq := 0 } members = groupCopies (.sharded n) message members := by
    rw [memberMsgs_eq]
    rfl
  rw [Prog.after, saveGroupMsg, hcopies, Prog.exec_bind, exec_placeCopies hn h]
  dsimp only
  have hopened : (w.onMongo (·.openedAll ((placed cfg n w.now
      (groupCopies (.sharded n) message members)).map Prod.fst))).mongo.Sound := h.openedAll
  obtain ⟨results, hr⟩ := after_inserts hopened
    fun p hp => Mongo.mem_cache_openedAll (List.mem_map_of_mem hp)
  rw [Prog.exec_bind, hr]
  exact after_firstFailure results

/-- The collections that a reader looks at when the clock is `now`. -/
def readNames (cfg : Config) (userShards : Nat) (now : Int) (userId : UserId) : List String :=
  let range := cfg.hash userId % userShards % 256
  let ym := Chrono.yearMonth (now / 1000 / 86400)
  [collectionName ym range, collectionName (Chrono.subMonths 1 ym) range,
    collectionName (Chrono.subMonths 2 ym) range]

theorem exec_readCollections (hn : n ≠ 0) (u : UserId) :
    (readCollections cfg n u).exec w = (.ok (readNames cfg n w.now u), w) := by
  rw [readCollections, Prog.exec_bind, exec_userRange hn]
  rfl

theorem exec_withCapacity {α : Type} (len : Int) (f : Unit → M α) :
    (withCapacity len >>= f).exec w =
      if capacityFits len then (f ()).exec w else (.error .panic, w) := by
  unfold withCapacity
  split <;> rfl

/-- A query that sees documents only. -/
theorem exec_queryEach {query : String → Mongo → List Document}
    (hq : ∀ (m m' : Mongo) coll, m'.docs = m.docs → query coll m' = query coll m)
    (h : w.mongo.Sound) (colls : List String) : (queryEach query colls).exec w =
      (.ok (colls.flatMap (query · w.mongo)), w.onMongo (·.openedAll colls)) := by
  induction colls generalizing w with
  | nil => rfl
  | cons coll colls ih =>
    simp only [queryEach, Prog.exec_bind, Prog.exec_attempt, exec_getCollection h, exec_mongoCall]
    rw [ih (w := w.onMongo (·.opened coll)) (h.opened coll)]
    have hrest : colls.flatMap (query · (w.mongo.opened coll)) = colls.flatMap (query · w.mongo) := by
      congr 1
      funext c
      exact hq _ _ c (w.mongo.docs_opened coll)
    simp only [World.onMongo_mongo, hq _ _ coll (w.mongo.docs_opened coll), hrest]
    rfl

/-- What `get_messages` returns where its capacity can be had. -/
def messagesIn (cfg : Config) (userShards : Nat) (w : World) (userId : UserId) (start last : Int) :
    List Msg :=
  (((readNames cfg userShards w.now userId).flatMap fun coll =>
    (w.mongo.find coll (addressedBetween userId start last)).insertionSort bySeq).map
      Msg.tryFrom).insertionSort fun a b => a.seq ≤ b.seq

/-- What `get_msgs` returns where its capacity can be had. -/
def msgsIn (cfg : Config) (userShards : Nat) (w : World) (userId : UserId)
    (sendStart sendEnd recStart recEnd : Int) : List Msg :=
  (((readNames cfg userShards w.now userId).flatMap fun coll =>
    aggregate (fun start i => start ≤ i) userId sendStart sendEnd recStart recEnd coll w.mongo).map
      fun d => (Msg.tryFrom d).shownTo userId).insertionSort (Msg.notAfter userId)

/-- A reader whose query sees documents only. -/
theorem exec_reader {query : String → Mongo → List Document}
    (hq : ∀ (m m' : Mongo) coll, m'.docs = m.docs → query coll m' = query coll m)
    (hn : n ≠ 0) (h : w.mongo.Sound) (u : UserId) (len : Int) (f : List Document → List Msg) :
    (readCollections cfg n u >>= fun collections => withCapacity len >>= fun _ =>
      queryEach query collections >>= fun found => pure (f found)).exec w =
      if capacityFits len then
        (.ok (f ((readNames cfg n w.now u).flatMap (query · w.mongo))),
          w.onMongo (·.openedAll (readNames cfg n w.now u)))
      else (.error .panic, w) := by
  rw [Prog.exec_bind, exec_readCollections hn]
  dsimp only
  rw [exec_withCapacity]
  split
  · rw [Prog.exec_bind, exec_queryEach hq h]
    rfl
  · rfl

theorem exec_getMessages (cfg : Config) (hn : n ≠ 0) (h : w.mongo.Sound) (u : UserId)
    (start last : Int) :
    (getMessages cfg n u start last).exec w =
      if capacityFits (last - start) then
        (.ok (messagesIn cfg n w u start last), w.onMongo (·.openedAll (readNames cfg n w.now u)))
      else (.error .panic, w) := by
  refine exec_reader ?_ hn h u _ _
  intro m m' coll hm
  simp only [Mongo.find, hm]

theorem exec_getMsgs (cfg : Config) (hn : n ≠ 0) (h : w.mongo.Sound) (u : UserId)
    (ss se rs re : Int) :
    (getMsgs cfg n u ss se rs re).exec w =
      if capacityFits (se - ss + (re - rs)) then
        (.ok (msgsIn cfg n w u ss se rs re), w.onMongo (·.openedAll (readNames cfg n w.now u)))
      else (.error .panic, w) := by
  refine exec_reader ?_ hn h u _ _
  intro m m' coll hm
  simp only [aggregate, Mongo.find, hm]

theorem getMessages_result (cfg : Config) (hn : n ≠ 0) (h : w.mongo.Sound) (u : UserId)
    (start last : Int) :
    ((getMessages cfg n u start last).exec w).1 =
      if capacityFits (last - start) then .ok (messagesIn cfg n w u start last)
      else .error .panic := by
  rw [exec_getMessages cfg hn h]
  split <;> rfl

theorem getMsgs_result (cfg : Config) (hn : n ≠ 0) (h : w.mongo.Sound) (u : UserId)
    (ss se rs re : Int) :
    ((getMsgs cfg n u ss se rs re).exec w).1 =
      if capacityFits (se - ss + (re - rs)) then .ok (msgsIn cfg n w u ss se rs re)
      else .error .panic := by
  rw [exec_getMsgs cfg hn h]
  split <;> rfl

/-- Without shards every call that needs one panics. -/
theorem getMsgs_zero (u : UserId) (ss se rs re : Int) :
    ((getMsgs cfg 0 u ss se rs re).exec w).1 = .error .panic := rfl

end HybridShardedMsgBox

end Sandcat
