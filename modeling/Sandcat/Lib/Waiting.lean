import Mathlib.Logic.Relation

/-!
# Tasks that wait

A task takes steps until it ends or waits. It may wait for room in a channel, or for a lock that
many may hold to read and one to write. The lock is fair: a request waits behind all earlier ones
that wait.
-/

namespace Waiting

section Steps

variable {σ : Type} {step : σ → Option σ} {s t : σ}

/-- The states that the steps of a task lead to. -/
def Reaches (step : σ → Option σ) : σ → σ → Prop := Relation.ReflTransGen fun s t => step s = some t

theorem Reaches.invariant {I : σ → Prop} (h : Reaches step s t) (hs : I s)
    (hstep : ∀ s t, I s → step s = some t → I t) : I t := by
  induction h with
  | refl => exact hs
  | tail _ hlast ih => exact hstep _ _ ih hlast

/-- A task whose steps use something up ends or waits. -/
theorem exists_last {I : σ → Prop} (measure : σ → Nat)
    (hstep : ∀ s t, I s → step s = some t → I t ∧ measure t < measure s) (hs : I s) :
    ∃ t, Reaches step s t ∧ I t ∧ step t = none := by
  induction hn : measure s using Nat.strongRecOn generalizing s with
  | _ n ih =>
    cases hnext : step s with
    | none => exact ⟨s, .refl, hs, hnext⟩
    | some t =>
      obtain ⟨ht, hlt⟩ := hstep s t hs hnext
      obtain ⟨u, htu, hu⟩ := ih (measure t) (hn ▸ hlt) ht rfl
      exact ⟨u, .head hnext htu, hu⟩

end Steps

/-- A channel with room for so many items. -/
structure Channel (α : Type) (capacity : Nat) where
  buffer : List α
  bounded : buffer.length ≤ capacity

namespace Channel

variable {α : Type} {capacity : Nat} {c c' : Channel α capacity} {a : α}

def empty : Channel α capacity := ⟨[], Nat.zero_le _⟩

/-- A send waits while the channel is full. -/
def send (a : α) (c : Channel α capacity) : Option (Channel α capacity) :=
  if h : c.buffer.length < capacity then
    some ⟨c.buffer ++ [a], by rw [List.length_append]; exact h⟩
  else none

/-- What is received, and the channel after it; `none` while it is empty. -/
def recv (c : Channel α capacity) : Option (α × Channel α capacity) :=
  match hbuffer : c.buffer with
  | [] => none
  | a :: buffer => some (a, ⟨buffer, by
      have hbounded := c.bounded
      rw [hbuffer] at hbounded
      exact Nat.le_of_succ_le hbounded⟩)

theorem send_eq_none : c.send a = none ↔ c.buffer.length = capacity := by
  have hbounded := c.bounded
  unfold send
  split
  · rename_i h
    simp [Nat.ne_of_lt h]
  · rename_i h
    simp only [true_iff]
    omega

theorem send_eq_some (h : c.send a = some c') : c'.buffer = c.buffer ++ [a] := by
  unfold send at h
  split at h
  · cases h
    rfl
  · cases h

theorem recv_eq_none : c.recv = none ↔ c.buffer = [] := by
  unfold recv
  split
  · rename_i hbuffer
    simp [hbuffer]
  · rename_i hbuffer
    simp [hbuffer]

theorem recv_eq_some (h : c.recv = some (a, c')) : c.buffer = a :: c'.buffer := by
  unfold recv at h
  split at h
  · cases h
  · rename_i hbuffer
    cases h
    exact hbuffer

end Channel

inductive Mode where
  | read | write
  deriving DecidableEq

/-- Whether a request can be granted beside the guards alive. -/
def admits {ι : Type} (readers : List ι) (writer : Option ι) : Mode → Bool
  | .read => writer.isNone
  | .write => writer.isNone && readers.isEmpty

/-- The guards alive, and the requests that wait. A writer is alone, and the first request that
waits cannot be granted. -/
structure RwLock (ι : Type) where
  readers : List ι
  writer : Option ι
  queue : List (ι × Mode)
  exclusive : writer.isSome → readers = []
  blocked : ∀ request ∈ queue.head?, admits readers writer request.2 = false

namespace RwLock

variable {ι : Type}

/-- The requests of a queue are granted in order, up to the first that cannot be. -/
def wake (readers : List ι) (writer : Option ι) (exclusive : writer.isSome → readers = []) :
    List (ι × Mode) → RwLock ι
  | [] => ⟨readers, writer, [], exclusive, by simp⟩
  | (i, .read) :: queue =>
    if h : admits readers writer .read then
      wake (i :: readers) writer (fun hw => by simp [admits] at h; simp [h] at hw) queue
    else ⟨readers, writer, (i, .read) :: queue, exclusive, by simpa using h⟩
  | (i, .write) :: queue =>
    if h : admits readers writer .write then
      wake readers (some i) (fun _ => by simp [admits] at h; exact h.2) queue
    else ⟨readers, writer, (i, .write) :: queue, exclusive, by simpa using h⟩

def acquire (i : ι) (mode : Mode) (l : RwLock ι) : RwLock ι :=
  wake l.readers l.writer l.exclusive (l.queue ++ [(i, mode)])

/-- The lock is free for a reader when no guard is alive. -/
theorem acquire_read_of_free {i : ι} {l : RwLock ι} (hreaders : l.readers = [])
    (hwriter : l.writer = none) : (l.acquire i .read).readers = [i] := by
  have hqueue : l.queue = [] := by
    cases hq : l.queue with
    | nil => rfl
    | cons request queue =>
      have hblocked := l.blocked request (by rw [hq]; rfl)
      rw [hreaders, hwriter] at hblocked
      cases hmode : request.2 <;> simp [hmode, admits] at hblocked
  simp [acquire, wake, hqueue, hreaders, hwriter, admits]

/-- A task that reads waits for the lock to write, with the requests behind it. -/
structure Blocks (i : ι) (behind : List (ι × Mode)) (l : RwLock ι) : Prop where
  reads : i ∈ l.readers
  waits : ∃ before, l.queue = before ++ (i, .write) :: behind

theorem Blocks.writer_eq_none {i : ι} {behind : List (ι × Mode)} {l : RwLock ι} (h : Blocks i behind l) :
    l.writer = none := by
  cases hwriter : l.writer with
  | none => rfl
  | some j =>
    have hreads := h.reads
    rw [l.exclusive (by rw [hwriter]; rfl)] at hreads
    cases hreads

theorem blocks_wake {i : ι} {readers : List ι} {writer : Option ι}
    {exclusive : writer.isSome → readers = []} {before behind : List (ι × Mode)}
    (h : i ∈ readers) : Blocks i behind (wake readers writer exclusive (before ++ (i, .write) :: behind)) := by
  have hne : readers ≠ [] := List.ne_nil_of_mem h
  induction before generalizing readers with
  | nil => exact ⟨by simpa [wake, admits, hne] using h, [], by simp [wake, admits, hne]⟩
  | cons request before ih =>
    obtain ⟨j, mode⟩ := request
    cases mode with
    | read =>
      rw [List.cons_append, wake]
      split
      · exact ih (List.mem_cons_of_mem j h) (List.cons_ne_nil j readers)
      · exact ⟨h, (j, .read) :: before, rfl⟩
    | write =>
      rw [List.cons_append, wake, dif_neg (by simp [admits, hne])]
      exact ⟨h, (j, .write) :: before, rfl⟩

/-- How many guards are alive and requests wait. -/
def size (l : RwLock ι) : Nat := l.readers.length + l.writer.toList.length + l.queue.length

/-- A request that is granted is a guard then. -/
theorem size_wake {readers : List ι} {writer : Option ι} {exclusive : writer.isSome → readers = []}
    {queue : List (ι × Mode)} :
    (wake readers writer exclusive queue).size =
      readers.length + writer.toList.length + queue.length := by
  induction queue generalizing readers writer with
  | nil => rfl
  | cons request queue ih =>
    obtain ⟨j, mode⟩ := request
    cases mode with
    | read =>
      rw [wake]
      split
      · rw [ih, List.length_cons, List.length_cons]
        omega
      · rfl
    | write =>
      rw [wake]
      split
      · rename_i hadmits
        have hwriter : writer = none := by
          simp only [admits, Bool.and_eq_true, Option.isNone_iff_eq_none] at hadmits
          exact hadmits.1
        rw [ih, hwriter, List.length_cons, Option.toList_some, Option.toList_none, List.length_nil,
          List.length_singleton]
        omega
      · rfl

variable [DecidableEq ι]

def releaseRead (i : ι) (l : RwLock ι) : RwLock ι :=
  wake (l.readers.erase i) l.writer (fun hw => by rw [l.exclusive hw]; rfl) l.queue

def releaseWrite (i : ι) (l : RwLock ι) : RwLock ι :=
  if l.writer = some i then wake l.readers none (fun hw => by cases hw) l.queue else l

/-- A task has so many guards to read, none to write, and no request that waits. -/
structure Holds (i : ι) (guards : Nat) (l : RwLock ι) : Prop where
  reads : l.readers.count i = guards
  writes : l.writer ≠ some i
  calm : ∀ request ∈ l.queue, request.1 ≠ i

/-- The requests of others do not change what a task holds. -/
theorem holds_wake {i : ι} {readers : List ι} {writer : Option ι}
    {exclusive : writer.isSome → readers = []} {queue : List (ι × Mode)} (hwriter : writer ≠ some i)
    (hqueue : ∀ request ∈ queue, request.1 ≠ i) :
    Holds i (readers.count i) (wake readers writer exclusive queue) := by
  induction queue generalizing readers writer with
  | nil => exact ⟨rfl, hwriter, fun _ h => by cases h⟩
  | cons request queue ih =>
    obtain ⟨j, mode⟩ := request
    obtain ⟨hj, hrest⟩ := List.forall_mem_cons.mp hqueue
    cases mode with
    | read =>
      rw [wake]
      split
      · rw [← List.count_cons_of_ne hj]
        exact ih hwriter hrest
      · exact ⟨rfl, hwriter, hqueue⟩
    | write =>
      rw [wake]
      split
      · exact ih (fun he => hj (Option.some.inj he)) hrest
      · exact ⟨rfl, hwriter, hqueue⟩

theorem holds_releaseRead {i : ι} {guards : Nat} {l : RwLock ι} (h : Holds i (guards + 1) l) :
    Holds i guards (l.releaseRead i) := by
  have hcount : (l.readers.erase i).count i = guards := by rw [List.count_erase_self, h.reads]; rfl
  rw [← hcount]
  exact holds_wake h.writes h.calm

/-- A task that reads waits for itself when it asks to write. -/
theorem blocks_acquire {i : ι} {guards : Nat} {l : RwLock ι} (h : Holds i (guards + 1) l) :
    Blocks i [] (l.acquire i .write) :=
  blocks_wake (List.count_pos_iff.mp (by rw [h.reads]; exact Nat.succ_pos _))

/-- What other tasks do to the lock. -/
inductive LockOp (ι : Type) where
  | acquire (j : ι) (mode : Mode)
  | releaseRead (j : ι)
  | releaseWrite (j : ι)

def LockOp.task : LockOp ι → ι
  | acquire j _ => j
  | releaseRead j => j
  | releaseWrite j => j

def act (l : RwLock ι) : LockOp ι → RwLock ι
  | .acquire j mode => l.acquire j mode
  | .releaseRead j => l.releaseRead j
  | .releaseWrite j => l.releaseWrite j

theorem holds_act {i : ι} {guards : Nat} {l : RwLock ι} (h : Holds i guards l) (op : LockOp ι)
    (hop : op.task ≠ i) : Holds i guards (l.act op) := by
  cases op with
  | acquire j mode =>
    rw [← h.reads]
    refine holds_wake h.writes fun request hrequest => ?_
    obtain hrequest | hrequest := List.mem_append.mp hrequest
    · exact h.calm request hrequest
    · rw [List.mem_singleton.mp hrequest]
      exact hop
  | releaseRead j =>
    rw [← h.reads, ← List.count_erase_of_ne (Ne.symm hop)]
    exact holds_wake h.writes h.calm
  | releaseWrite j =>
    rw [act, releaseWrite]
    split
    · rw [← h.reads]
      exact holds_wake (fun he => by cases he) h.calm
    · exact h

/-- A task gets a lock to read that another one has no part in: the rest give it back, one after the
other. -/
theorem exists_grant {i j : ι} {l : RwLock ι} (h : Holds i 0 l) (hj : j ≠ i) :
    ∃ ops : List (LockOp ι), (∀ op ∈ ops, op.task ≠ i) ∧ j ∈ (ops.foldl act l).readers := by
  induction hn : l.size using Nat.strongRecOn generalizing l with
  | _ n ih =>
    have hback : ∀ op : LockOp ι, op.task ≠ i → (l.act op).size < n →
        ∃ ops : List (LockOp ι), (∀ op ∈ ops, op.task ≠ i) ∧ j ∈ (ops.foldl act l).readers := by
      intro op hop hlt
      obtain ⟨ops, hops, hmem⟩ := ih _ hlt (holds_act h op hop) rfl
      exact ⟨op :: ops, List.forall_mem_cons.mpr ⟨hop, hops⟩, hmem⟩
    cases hreaders : l.readers with
    | cons k readers =>
      have hk : k ≠ i := by
        rintro rfl
        have hreads := h.reads
        rw [hreaders, List.count_cons_self] at hreads
        cases hreads
      refine hback (.releaseRead k) hk ?_
      rw [← hn, act, releaseRead, size_wake, size, hreaders, List.erase_cons_head, List.length_cons]
      omega
    | nil =>
      cases hwriter : l.writer with
      | some k =>
        have hk : k ≠ i := by
          rintro rfl
          exact h.writes hwriter
        refine hback (.releaseWrite k) hk ?_
        rw [← hn, act, releaseWrite, if_pos hwriter, size_wake, size, hwriter, Option.toList_some,
          Option.toList_none, List.length_nil, List.length_singleton]
        omega
      | none =>
        refine ⟨[.acquire j .read], by simpa [LockOp.task] using hj, ?_⟩
        rw [List.foldl_cons, List.foldl_nil, act, acquire_read_of_free hreaders hwriter]
        exact List.mem_singleton.mpr rfl

/-- A request that waits for itself stays so whatever other tasks do, and every new request waits behind it. -/
theorem blocks_act {i : ι} {behind : List (ι × Mode)} {l : RwLock ι} (h : Blocks i behind l)
    (op : LockOp ι) (hop : op.task ≠ i) : ∃ new, Blocks i (behind ++ new) (l.act op) ∧
      ∀ j mode, op = .acquire j mode → (j, mode) ∈ new := by
  have hwriter := h.writer_eq_none
  obtain ⟨hreads, before, hqueue⟩ := h
  cases op with
  | acquire j mode =>
    refine ⟨[(j, mode)], ?_, ?_⟩
    · rw [act, RwLock.acquire, hqueue, List.append_assoc, List.cons_append]
      exact blocks_wake hreads
    · intro j' mode' he
      cases he
      exact List.mem_singleton.mpr rfl
  | releaseRead j =>
    refine ⟨[], ?_, fun _ _ he => by cases he⟩
    rw [act, RwLock.releaseRead, hqueue, List.append_nil]
    exact blocks_wake ((List.mem_erase_of_ne (Ne.symm hop)).mpr hreads)
  | releaseWrite j =>
    refine ⟨[], ?_, fun _ _ he => by cases he⟩
    rw [act, RwLock.releaseWrite, if_neg (by rw [hwriter]; exact fun he => by cases he),
      List.append_nil]
    exact ⟨hreads, before, hqueue⟩

end RwLock

end Waiting
