import Sandcat.Received
import Mathlib.Logic.Relation

/-!
# Streams of messages

`get_messages_stream` puts what its queries find into a channel that holds a hundred messages. `MsgBox`
fills the channel before it returns the end from which it is read; `HybridShardedMsgBox` returns this end
at once and fills the channel in a task. A query that fails passes a collection over without a word; a cursor
that fails puts its error into the channel.
-/

namespace Sandcat

open Relation

/-- The capacity of the channel. -/
def streamCapacity : Nat := 100

/-- The reading end of the channel: not yet returned, being read, or gone. -/
inductive Receiver where
  | withheld | listening | gone
  deriving DecidableEq

/-- What the channel carries. -/
abbrev StreamItem := Except Error Msg

/-- The messages among some items. -/
def messagesOf (items : List StreamItem) : List Msg := items.filterMap Except.toOption

/-- A stream under way: the collections to query, what the cursor has left of the present one, what all
queries have found, the collections whose query has failed, the channel, and what has been read from it. -/
structure MsgStream where
  mongo : Mongo
  colls : List String
  cursor : List Document
  found : List Document
  skipped : List String
  buffer : List StreamItem
  received : List StreamItem
  receiver : Receiver

/-- The query of `get_messages_stream` in one collection. -/
def streamQuery (userId : UserId) (start last : Int) (coll : String) (m : Mongo) : List Document :=
  (m.find coll (addressedBetween userId start last)).insertionSort bySeq

/-- The steps of the sender, of the reader and of others, who change the store as `Others` says. A sender
that finds the receiver gone leaves the present cursor, but not the collections after it. Where there are
faults, `list_collection_names` or `find` may fail, and the cursor may: it may have lost documents then. -/
inductive StreamStep (faults : Prop) (query : String → Mongo → List Document)
    (Others : Mongo → Mongo → Prop) (s : MsgStream) : MsgStream → Prop where
  | find (coll : String) (colls : List String) : s.cursor = [] → s.colls = coll :: colls →
      StreamStep faults query Others s { s with
        colls, cursor := query coll s.mongo, found := s.found ++ query coll s.mongo }
  | skip (coll : String) (colls : List String) : faults → s.cursor = [] → s.colls = coll :: colls →
      StreamStep faults query Others s { s with colls, skipped := s.skipped ++ [coll] }
  | send (d : Document) (cursor : List Document) : s.cursor = d :: cursor → s.receiver ≠ .gone →
      s.buffer.length < streamCapacity →
      StreamStep faults query Others s { s with cursor, buffer := s.buffer ++ [.ok (Msg.tryFrom d)] }
  | fail (e : Error) (cursor : List Document) : faults → cursor <:+ s.cursor → s.receiver ≠ .gone →
      s.buffer.length < streamCapacity →
      StreamStep faults query Others s { s with cursor, buffer := s.buffer ++ [.error e] }
  | stop : s.receiver = .gone → StreamStep faults query Others s { s with cursor := [] }
  | handOver : s.receiver = .withheld → s.cursor = [] → s.colls = [] →
      StreamStep faults query Others s { s with receiver := .listening }
  | receive (item : StreamItem) (buffer : List StreamItem) : s.receiver = .listening →
      s.buffer = item :: buffer →
      StreamStep faults query Others s { s with buffer, received := s.received ++ [item] }
  | leave : s.receiver = .listening →
      StreamStep faults query Others s { s with receiver := .gone, buffer := [] }
  | others (mongo : Mongo) : Others s.mongo mongo → StreamStep faults query Others s { s with mongo }

abbrev StreamRun (faults : Prop) (query : String → Mongo → List Document)
    (Others : Mongo → Mongo → Prop) : MsgStream → MsgStream → Prop :=
  ReflTransGen (StreamStep faults query Others)

namespace MsgBox

/-- `get_messages_stream` when it is called. -/
def streamStart (m : Mongo) : MsgStream := ⟨m, [Mongo.collSingleBox], [], [], [], [], [], .withheld⟩

end MsgBox

namespace HybridShardedMsgBox

def streamStart (cfg : Config) (userShards : Nat) (now : Int) (userId : UserId) (m : Mongo) : MsgStream :=
  ⟨m, readNames cfg userShards now userId, [], [], [], [], [], .listening⟩

end HybridShardedMsgBox

namespace MsgStream

/-- What has been read, and what is in the channel. -/
def items (s : MsgStream) : List StreamItem := s.received ++ s.buffer

/-- No error has been put into the channel. -/
def Clean (s : MsgStream) : Prop := ∀ e, .error e ∉ s.items

/-- Nothing is moved while somebody reads or will read, and nothing is lost without an error; what comes
before the first error is the beginning of what was found. -/
structure Flowing (faults : Prop) (s : MsgStream) : Prop where
  flow : s.receiver ≠ .gone → s.Clean → messagesOf s.items ++ s.cursor.map Msg.tryFrom = s.found.map Msg.tryFrom
  order : s.receiver ≠ .gone → (messagesOf s.items ++ s.cursor.map Msg.tryFrom).Sublist (s.found.map Msg.tryFrom)
  first : s.receiver ≠ .gone → ∀ msgs rest, s.items = msgs.map .ok ++ rest → msgs <+: s.found.map Msg.tryFrom
  room : s.buffer.length ≤ streamCapacity
  unread : s.receiver = .withheld → s.received = []
  clean : ¬faults → s.Clean

/-- A call that returns the reading end when it has sent everything: what it finds, and what it has when
it returns. -/
structure Returning (query : String → Mongo → List Document) (Others : Mongo → Mongo → Prop) (m : Mongo)
    (coll : String) (s : MsgStream) : Prop where
  store : ReflTransGen Others m s.mongo
  found : (s.colls = [coll] ∧ s.cursor = [] ∧ s.found = []) ∨
    s.colls = [] ∧ ∃ m', ReflTransGen Others m m' ∧ s.found = query coll m'
  returned : s.receiver ≠ .withheld → s.colls = [] ∧ s.cursor = [] ∧ s.found.length ≤ streamCapacity

/-- Everything has been found, sent and read. -/
structure Done (s : MsgStream) : Prop where
  colls : s.colls = []
  cursor : s.cursor = []
  buffer : s.buffer = []

/-- The call waits for room in the channel, and nobody can make any. -/
structure Blocked (s : MsgStream) : Prop where
  flowing : s.Flowing False
  withheld : s.receiver = .withheld
  colls : s.colls = []
  found : streamCapacity < s.found.length

section

variable {faults : Prop} {query : String → Mongo → List Document} {Others : Mongo → Mongo → Prop}
  {s t : MsgStream}

@[simp] theorem messagesOf_append (xs ys : List StreamItem) :
    messagesOf (xs ++ ys) = messagesOf xs ++ messagesOf ys := List.filterMap_append

@[simp] theorem messagesOf_ok (m : Msg) : messagesOf [.ok m] = [m] := rfl

@[simp] theorem messagesOf_error (e : Error) : messagesOf [.error e] = [] := rfl

@[simp] theorem messagesOf_map_ok (msgs : List Msg) : messagesOf (msgs.map .ok) = msgs := by
  unfold messagesOf
  rw [List.filterMap_map]
  exact List.filterMap_some

/-- Items without an error are messages. -/
theorem eq_map_ok {items : List StreamItem} (h : ∀ e, .error e ∉ items) :
    items = (messagesOf items).map .ok := by
  induction items with
  | nil => rfl
  | cons item items ih =>
    have hrest := ih fun e he => h e (List.mem_cons_of_mem item he)
    cases item with
    | error e => exact absurd List.mem_cons_self (h e)
    | ok m =>
      rw [← List.singleton_append, messagesOf_append, messagesOf_ok, List.map_append, ← hrest]
      rfl

/-- The end of the messages before the first error is the last item, or it was there before. -/
theorem initial_concat {items : List StreamItem} {item : StreamItem} {msgs : List Msg} {rest : List StreamItem}
    (h : items ++ [item] = msgs.map .ok ++ rest) :
    items ++ [item] = msgs.map .ok ∨ ∃ rest, items = msgs.map .ok ++ rest := by
  obtain rfl | ⟨rest, last, rfl⟩ := List.eq_nil_or_concat rest
  · exact .inl (h.trans (List.append_nil _))
  · rw [List.concat_eq_append, ← List.append_assoc] at h
    exact .inr ⟨rest, (List.append_inj' h rfl).1⟩

theorem Flowing.congr (h : s.Flowing faults) (hitems : t.items = s.items) (hcursor : t.cursor = s.cursor)
    (hfound : t.found = s.found) (hgone : t.receiver ≠ .gone → s.receiver ≠ .gone)
    (hroom : t.buffer.length ≤ streamCapacity) (hunread : t.receiver = .withheld → t.received = []) :
    t.Flowing faults := by
  refine ⟨?_, ?_, ?_, hroom, hunread, ?_⟩
  · intro ht hclean
    rw [Clean, hitems] at hclean
    rw [hitems, hcursor, hfound]
    exact h.flow (hgone ht) hclean
  · intro ht
    rw [hitems, hcursor, hfound]
    exact h.order (hgone ht)
  · intro ht
    rw [hitems, hfound]
    exact h.first (hgone ht)
  · intro hfaults
    rw [Clean, hitems]
    exact h.clean hfaults

theorem Flowing.step (h : s.Flowing faults) (hstep : StreamStep faults query Others s t) :
    t.Flowing faults := by
  cases hstep with
  | find coll colls hcursor hcolls =>
    refine ⟨fun hgone hclean => ?_, fun hgone => ?_, fun hgone msgs rest hitems => ?_, h.room, h.unread, h.clean⟩
    · have hflow := h.flow hgone hclean
      rw [hcursor, List.map_nil, List.append_nil] at hflow
      change messagesOf s.items ++ _ = _
      rw [hflow, List.map_append]
    · have horder := h.order hgone
      rw [hcursor, List.map_nil, List.append_nil] at horder
      rw [List.map_append]
      exact horder.append (List.Sublist.refl _)
    · rw [List.map_append]
      exact (h.first hgone msgs rest hitems).trans (List.prefix_append _ _)
  | skip coll colls hfaults hcursor hcolls => exact h.congr rfl rfl rfl id h.room h.unread
  | send d cursor hcursor hgone hroom =>
    have hitems : s.received ++ (s.buffer ++ [.ok (Msg.tryFrom d)]) = s.items ++ [.ok (Msg.tryFrom d)] :=
      (List.append_assoc ..).symm
    refine ⟨fun hgone hclean => ?_, fun hgone => ?_, fun hgone msgs rest hinitial => ?_, ?_, h.unread, ?_⟩
    · have hflow := h.flow hgone fun e he => hclean e (by
        rw [items, hitems]
        exact List.mem_append_left _ he)
      rw [hcursor] at hflow
      rw [items, hitems, messagesOf_append, ← hflow, messagesOf_ok, List.append_assoc]
      rfl
    · have horder := h.order hgone
      rw [hcursor] at horder
      rw [items, hitems, messagesOf_append, messagesOf_ok, List.append_assoc]
      exact horder
    · rw [items, hitems] at hinitial
      obtain hall | ⟨rest, hbefore⟩ := initial_concat hinitial
      · have hflow := h.flow hgone fun e he => by
          have hmem : Except.error e ∈ msgs.map Except.ok := hall ▸ List.mem_append_left _ he
          obtain ⟨m, -, hm⟩ := List.mem_map.mp hmem
          cases hm
        have hmsgs := congrArg messagesOf hall
        rw [messagesOf_append, messagesOf_ok, messagesOf_map_ok] at hmsgs
        rw [← hmsgs]
        refine ⟨cursor.map Msg.tryFrom, ?_⟩
        rw [hcursor] at hflow
        rw [← hflow, List.append_assoc]
        rfl
      · exact h.first hgone msgs rest hbefore
    · rw [List.length_append, List.length_singleton]
      exact hroom
    · intro hfaults e he
      rw [items, hitems, List.mem_append, List.mem_singleton] at he
      obtain he | he := he
      · exact h.clean hfaults e he
      · cases he
  | fail e cursor hfaults hcursor hgone hroom =>
    have hitems : s.received ++ (s.buffer ++ [.error e]) = s.items ++ [.error e] :=
      (List.append_assoc ..).symm
    refine ⟨fun hgone hclean => ?_, fun hgone => ?_, fun hgone msgs rest hinitial => ?_, ?_, h.unread,
      fun hno => absurd hfaults hno⟩
    · refine absurd ?_ (hclean e)
      rw [items, hitems]
      exact List.mem_append_right _ List.mem_cons_self
    · rw [items, hitems, messagesOf_append, messagesOf_error, List.append_nil]
      exact ((List.Sublist.refl _).append (hcursor.sublist.map _)).trans (h.order hgone)
    · rw [items, hitems] at hinitial
      obtain hall | ⟨rest, hbefore⟩ := initial_concat hinitial
      · have hmem : Except.error e ∈ msgs.map Except.ok :=
          hall ▸ List.mem_append_right _ List.mem_cons_self
        obtain ⟨m, -, hm⟩ := List.mem_map.mp hmem
        cases hm
      · exact h.first hgone msgs rest hbefore
    · rw [List.length_append, List.length_singleton]
      exact hroom
  | stop hgone =>
    exact ⟨fun h' => absurd hgone h', fun h' => absurd hgone h', fun h' => absurd hgone h', h.room, h.unread,
      h.clean⟩
  | handOver hwithheld hcursor hcolls =>
    refine h.congr rfl rfl rfl (fun _ hgone => ?_) h.room fun h' => nomatch h'
    rw [hwithheld] at hgone
    cases hgone
  | receive item buffer hlistening hbuffer =>
    refine h.congr ?_ rfl rfl (fun h' => h') ?_ fun h' => ?_
    · simp [items, hbuffer]
    · have hroom := h.room
      rw [hbuffer, List.length_cons] at hroom
      exact Nat.le_of_succ_le hroom
    · exact absurd (hlistening.symm.trans h') (by decide)
  | leave hlistening =>
    refine ⟨fun h' => absurd rfl h', fun h' => absurd rfl h', fun h' => absurd rfl h', Nat.zero_le _,
      fun h' => (nomatch h'), fun hno e he => h.clean hno e ?_⟩
    rw [items, List.append_nil] at he
    exact List.mem_append_left _ he
  | others mongo _ => exact h.congr rfl rfl rfl id h.room h.unread

theorem Flowing.run (h : s.Flowing faults) (hrun : StreamRun faults query Others s t) : t.Flowing faults := by
  induction hrun with
  | refl => exact h
  | tail _ hstep ih => exact ih.step hstep

/-- With the end withheld the channel holds all that is not in the cursor any more. -/
theorem Flowing.length_eq (h : s.Flowing False) (hwithheld : s.receiver = .withheld) :
    s.buffer.length + s.cursor.length = s.found.length := by
  have hclean := h.clean id
  have hflow := congrArg List.length
    (h.flow (fun hgone => absurd (hwithheld.symm.trans hgone) (by decide)) hclean)
  have hbuffer : s.items = s.buffer := by rw [items, h.unread hwithheld, List.nil_append]
  rw [Clean, hbuffer] at hclean
  have hlength := congrArg List.length (eq_map_ok hclean)
  rw [List.length_map] at hlength
  rw [hbuffer, List.length_append, List.length_map, List.length_map, ← hlength] at hflow
  exact hflow

theorem Returning.step {m : Mongo} {coll : String} (h : s.Returning query Others m coll)
    (hflowing : s.Flowing False) (hstep : StreamStep False query Others s t) : t.Returning query Others m coll := by
  cases hstep with
  | find next colls _ hcolls =>
    obtain ⟨hone, -, hnone⟩ | ⟨hnil, -⟩ := h.found
    · rw [hone, List.cons.injEq] at hcolls
      obtain ⟨rfl, rfl⟩ := hcolls
      refine ⟨h.store, .inr ⟨rfl, s.mongo, h.store, ?_⟩, fun hreturned => ?_⟩
      · rw [hnone, List.nil_append]
      · exact absurd (hone.symm.trans (h.returned hreturned).1) (by simp)
    · exact absurd (hnil.symm.trans hcolls) (by simp)
  | skip _ _ hfaults => exact hfaults.elim
  | fail _ _ hfaults => exact hfaults.elim
  | send d cursor hcursor _ _ =>
    refine ⟨h.store, ?_, fun hreturned => ?_⟩
    · obtain ⟨-, hempty, -⟩ | hasked := h.found
      · exact absurd (hcursor.symm.trans hempty) (by simp)
      · exact .inr hasked
    · exact absurd (hcursor.symm.trans (h.returned hreturned).2.1) (by simp)
  | stop hgone =>
    have hreturned := h.returned fun hwithheld => absurd (hgone.symm.trans hwithheld) (by decide)
    exact ⟨h.store, h.found.imp_left fun hfirst => ⟨hfirst.1, rfl, hfirst.2.2⟩,
      fun _ => ⟨hreturned.1, rfl, hreturned.2.2⟩⟩
  | handOver hwithheld hcursor hcolls =>
    have hlength := hflowing.length_eq hwithheld
    rw [hcursor, List.length_nil, Nat.add_zero] at hlength
    exact ⟨h.store, h.found, fun _ => ⟨hcolls, hcursor, hlength ▸ hflowing.room⟩⟩
  | receive n buffer hlistening _ =>
    exact ⟨h.store, h.found, fun _ => h.returned (hlistening ▸ nofun)⟩
  | leave hlistening => exact ⟨h.store, h.found, fun _ => h.returned (hlistening ▸ nofun)⟩
  | others mongo hmongo => exact ⟨h.store.tail hmongo, h.found, h.returned⟩

theorem Returning.run {m : Mongo} {coll : String} (h : s.Returning query Others m coll)
    (hflowing : s.Flowing False) (hrun : StreamRun False query Others s t) : t.Returning query Others m coll := by
  induction hrun with
  | refl => exact h
  | tail hsteps hstep ih => exact ih.step (hflowing.run hsteps) hstep

theorem Blocked.step (h : s.Blocked) (hstep : StreamStep False query Others s t) : t.Blocked := by
  have hflowing := h.flowing.step hstep
  cases hstep with
  | find coll colls _ hcolls => exact absurd (h.colls.symm.trans hcolls) (by simp)
  | skip _ _ hfaults => exact hfaults.elim
  | fail _ _ hfaults => exact hfaults.elim
  | send d cursor _ _ _ => exact ⟨hflowing, h.withheld, h.colls, h.found⟩
  | stop hgone => exact absurd (h.withheld.symm.trans hgone) (by decide)
  | handOver _ hcursor _ =>
    have hlength := h.flowing.length_eq h.withheld
    have hroom := h.flowing.room
    have hfound := h.found
    rw [hcursor] at hlength
    simp only [List.length_nil] at hlength
    omega
  | receive m buffer hlistening _ => exact absurd (h.withheld.symm.trans hlistening) (by decide)
  | leave hlistening => exact absurd (h.withheld.symm.trans hlistening) (by decide)
  | others mongo _ => exact ⟨hflowing, h.withheld, h.colls, h.found⟩

theorem Blocked.run (h : s.Blocked) (hrun : StreamRun False query Others s t) : t.Blocked := by
  induction hrun with
  | refl => exact h
  | tail _ hstep ih => exact ih.step hstep

/-- What is in the channel can be read. -/
theorem drain (hlistening : s.receiver = .listening) :
    StreamRun faults query Others s { s with buffer := [], received := s.received ++ s.buffer } := by
  obtain ⟨mongo, colls, cursor, found, skipped, buffer, received, receiver⟩ := s
  induction buffer generalizing received with
  | nil =>
    rw [List.append_nil]
  | cons item buffer ih =>
    have hrest := ih (received ++ [item]) hlistening
    rw [List.append_assoc] at hrest
    exact .head (.receive item buffer hlistening rfl) hrest

/-- The sender and the reader can take turns until the cursor is empty. -/
theorem exhaust (hlistening : s.receiver = .listening) (hbuffer : s.buffer = []) :
    StreamRun faults query Others s
      { s with cursor := [], received := s.received ++ s.cursor.map fun d => .ok (Msg.tryFrom d) } := by
  obtain ⟨mongo, colls, cursor, found, skipped, buffer, received, receiver⟩ := s
  cases hbuffer
  cases hlistening
  induction cursor generalizing received with
  | nil =>
    rw [List.map_nil, List.append_nil]
  | cons d cursor ih =>
    have hrest := ih (received ++ [.ok (Msg.tryFrom d)])
    rw [List.append_assoc] at hrest
    exact .head (.send d cursor rfl nofun (Nat.zero_lt_succ 99)) (.head (.receive _ [] rfl rfl) hrest)

/-- A sender with room for all that is in the cursor needs no reader. -/
theorem fill (hgone : s.receiver ≠ .gone) (hroom : s.buffer.length + s.cursor.length ≤ streamCapacity) :
    StreamRun faults query Others s
      { s with cursor := [], buffer := s.buffer ++ s.cursor.map fun d => .ok (Msg.tryFrom d) } := by
  obtain ⟨mongo, colls, cursor, found, skipped, buffer, received, receiver⟩ := s
  induction cursor generalizing buffer with
  | nil =>
    rw [List.map_nil, List.append_nil]
  | cons d cursor ih =>
    dsimp only [List.length_cons] at hroom
    have hrest := ih (buffer ++ [.ok (Msg.tryFrom d)]) hgone (by
      dsimp only
      rw [List.length_append, List.length_singleton]
      omega)
    rw [List.append_assoc] at hrest
    exact .head (.send d cursor rfl hgone (by dsimp only; omega)) hrest

theorem next {coll : String} {colls : List String} (hlistening : s.receiver = .listening)
    (hcolls : s.colls = coll :: colls) :
    ∃ t, StreamRun faults query Others s t ∧ t.colls = colls ∧ t.receiver = .listening :=
  ⟨_, ((drain hlistening).trans (exhaust hlistening rfl)).tail (.find coll colls rfl hcolls), rfl,
    hlistening⟩

/-- A stream that is read can always be brought to its end. -/
theorem finish (hlistening : s.receiver = .listening) :
    ∃ t, StreamRun faults query Others s t ∧ t.Done ∧ t.receiver = .listening := by
  induction hcolls : s.colls generalizing s with
  | nil => exact ⟨_, (drain hlistening).trans (exhaust hlistening rfl), ⟨hcolls, rfl, rfl⟩, hlistening⟩
  | cons coll colls ih =>
    obtain ⟨u, hnext, hu, hreads⟩ : ∃ u, StreamRun faults query Others s u ∧ u.colls = colls ∧ _ :=
      next hlistening hcolls
    obtain ⟨t, hrun, hdone, ht⟩ := ih hreads hu
    exact ⟨t, hnext.trans hrun, hdone, ht⟩

end

end MsgStream

namespace MsgBox

theorem flowing_streamStart (faults : Prop) (m : Mongo) : (streamStart m).Flowing faults where
  flow := fun _ _ => rfl
  order := fun _ => List.Sublist.refl _
  first := fun _ msgs rest h => by simp [List.map_eq_nil_iff.mp (List.append_eq_nil_iff.mp h.symm).1]
  room := Nat.zero_le _
  unread := fun _ => rfl
  clean := fun _ _ h => by cases h

/-- `get_messages_stream` returns exactly when it has found no more than the channel holds: with more, it
waits for a reader that nobody else can be. What is read is all that it found, in order. -/
theorem stream_returns_iff {m : Mongo} {userId : UserId} {start last : Int} {Others : Mongo → Mongo → Prop}
    {s : MsgStream} (hrun : StreamRun False (streamQuery userId start last) Others (streamStart m) s)
    (hasked : s.colls = []) :
    (∃ m', ReflTransGen Others m m' ∧
      s.found = streamQuery userId start last Mongo.collSingleBox m') ∧
    ((∃ t, StreamRun False (streamQuery userId start last) Others s t ∧ t.receiver ≠ .withheld) ↔
      s.found.length ≤ streamCapacity) ∧
    (s.receiver = .listening → s.received ++ s.buffer = s.found.map fun d => .ok (Msg.tryFrom d)) := by
  have hflowing := (flowing_streamStart False m).run hrun
  have hreturning : s.Returning (streamQuery userId start last) Others m Mongo.collSingleBox :=
    MsgStream.Returning.run ⟨.refl, .inl ⟨rfl, rfl, rfl⟩, fun h => absurd rfl h⟩
      (flowing_streamStart False m) hrun
  refine ⟨?_, ⟨?_, fun hroom => ?_⟩, fun hlistening => ?_⟩
  · obtain ⟨hone, -⟩ | ⟨-, hfound⟩ := hreturning.found
    · exact absurd (hone.symm.trans hasked) (by simp)
    · exact hfound
  · rintro ⟨t, hrest, ht⟩
    by_cases hwithheld : s.receiver = .withheld
    · by_contra hmore
      have hblocked : s.Blocked := ⟨hflowing, hwithheld, hasked, not_le.mp hmore⟩
      exact ht (hblocked.run hrest).withheld
    · exact (hreturning.returned hwithheld).2.2
  · by_cases hwithheld : s.receiver = .withheld
    · have hlength := hflowing.length_eq hwithheld
      have hfill : StreamRun False (streamQuery userId start last) Others s _ :=
        MsgStream.fill (by rw [hwithheld]; decide) (hlength.trans_le hroom)
      exact ⟨_, hfill.tail (.handOver hwithheld rfl hasked), nofun⟩
    · exact ⟨s, .refl, hwithheld⟩
  · have hclean := hflowing.clean id
    have hflow := hflowing.flow (by rw [hlistening]; decide) hclean
    have hcursor := (hreturning.returned (by rw [hlistening]; decide)).2.1
    rw [hcursor, List.map_nil, List.append_nil] at hflow
    rw [← MsgStream.items, MsgStream.eq_map_ok hclean, hflow, List.map_map]
    rfl

/-- A box with a hundred and one messages to `b`. -/
def crowded : Mongo :=
  { Mongo.empty with docs := (List.range 101).map fun i =>
      (Mongo.collSingleBox, toDoc { receiverId := "b", seq := i }) }

theorem length_crowded : (streamQuery "b" 0 200 Mongo.collSingleBox crowded).length = 101 := by
  rw [streamQuery, List.length_insertionSort]
  decide

/-- Whoever asks for them waits for ever. -/
theorem stream_returns_crowded :
    ∃ s, StreamRun False (streamQuery "b" 0 200) (fun _ _ => False) (streamStart crowded) s ∧ s.colls = [] ∧
      ¬ ∃ t, StreamRun False (streamQuery "b" 0 200) (fun _ _ => False) s t ∧ t.receiver ≠ .withheld := by
  have hrun : StreamRun False (streamQuery "b" 0 200) (fun _ _ => False) (streamStart crowded) _ :=
    .single (.find Mongo.collSingleBox [] rfl rfl)
  refine ⟨_, hrun, rfl, fun hreturns => ?_⟩
  have hroom := (stream_returns_iff hrun rfl).2.1.mp hreturns
  rw [show (streamStart crowded).found = [] from rfl, List.nil_append] at hroom
  exact absurd (length_crowded.symm.trans_le hroom) (by decide)

end MsgBox

namespace HybridShardedMsgBox

theorem flowing_streamStart {faults : Prop} {cfg : Config} {n : Nat} {now : Int} {userId : UserId} {m : Mongo} :
    (streamStart cfg n now userId m).Flowing faults where
  flow := fun _ _ => rfl
  order := fun _ => List.Sublist.refl _
  first := fun _ msgs rest h => by simp [List.map_eq_nil_iff.mp (List.append_eq_nil_iff.mp h.symm).1]
  room := Nat.zero_le _
  unread := fun _ => rfl
  clean := fun _ _ h => by cases h

end HybridShardedMsgBox

end Sandcat
