import Mathlib.Algebra.Order.Floor.Div
import Mathlib.Data.Nat.ModEq
import Sandcat.Scripts

/-!
# Blocks of numbers

The ceiling of a counter moves in blocks. A counter that was loaded starts at its ceiling, and
its first increment opens a block; a counter that is missing starts with a block of its own. After
that the two are alike, so one closed form serves both.
-/

namespace Sandcat

open Binary64

/-- The calls that increment counters. -/
inductive SeqCall where
  | increaseSeq (userId : UserId)
  | incrSendSeq (userId : UserId)
  | incrGroupSeq (members : List UserId)

namespace SeqCall

/-- The counters that a call increments, in order. -/
def keys : SeqCall → List String
  | increaseSeq userId => [seqKey userId]
  | incrSendSeq userId => [sendSeqKey userId]
  | incrGroupSeq members => members.map seqKey

/-- A call, with its answers under the keys of their counters. -/
def run (lua : Lua) (seqStep : Int) : SeqCall → Script StoredHashes (List (String × Int × Int × Bool))
  | increaseSeq userId => do
    let seq ← RedisCache.increaseSeq lua seqStep userId
    pure [(seqKey userId, seq)]
  | incrSendSeq userId => do
    let seq ← RedisCache.incrSendSeq lua seqStep userId
    pure [(sendSeqKey userId, seq)]
  | incrGroupSeq members => do
    let seqs ← RedisCache.incrGroupSeq lua seqStep members
    pure (seqs.map fun q => (seqKey q.memId, q.curSeq, q.maxSeq, q.needUpdate))

/-- Calls one after another. -/
def runAll (lua : Lua) (seqStep : Int) :
    List SeqCall → Script StoredHashes (List (String × Int × Int × Bool))
  | [] => pure []
  | call :: calls => do
    let answers ← call.run lua seqStep
    let rest ← runAll lua seqStep calls
    pure (answers ++ rest)

end SeqCall

/-- The answers under one key. -/
def answersOf (key : String) (answers : List (String × Int × Int × Bool)) : List (Int × Int × Bool) :=
  (answers.filter (·.1 = key)).map Prod.snd

/-- The answers to the increments of some counters. -/
def bumpAnswers (seqStep : Int) : (String → SeqHash) → List String → List (String × Int × Int × Bool)
  | _, [] => []
  | hashes, key :: keys =>
    (key, (singleScript seqStep (hashes key)).2) :: bumpAnswers seqStep (bump seqStep hashes key) keys

/-- The answers to the increments of one counter. -/
def increments (seqStep : Int) : SeqHash → Nat → List (Int × Int × Bool)
  | _, 0 => []
  | h, n + 1 => (singleScript seqStep h).2 :: increments seqStep (singleScript seqStep h).1 n

theorem length_increments (seqStep : Int) (h : SeqHash) (n : ℕ) :
    (increments seqStep h n).length = n := by
  induction n generalizing h with
  | zero => rfl
  | succ n ih => rw [increments, List.length_cons, ih]

section Answers

variable (seqStep : Int) (hashes : String → SeqHash)

theorem bumpAnswers_append (ks ls : List String) : bumpAnswers seqStep hashes (ks ++ ls) =
    bumpAnswers seqStep hashes ks ++ bumpAnswers seqStep (bumps seqStep hashes ks) ls := by
  induction ks generalizing hashes with
  | nil => rfl
  | cons key ks ih =>
    rw [List.cons_append, bumpAnswers, ih]
    rfl

theorem groupSeqs_answers (members : List UserId) :
    ((groupSeqs seqStep hashes members).map fun q => (seqKey q.memId, q.curSeq, q.maxSeq, q.needUpdate)) =
      bumpAnswers seqStep hashes (members.map seqKey) := by
  induction members generalizing hashes with
  | nil => rfl
  | cons member members ih =>
    rw [groupSeqs, List.map_cons, ih]
    rfl

section Runs

variable {lua : Lua} {s : StoredHashes} (hstep : 1 ≤ seqStep) (hexact : Exact seqStep)

include hstep hexact

theorem run_stored (call : SeqCall) (hs : SmallCounters seqStep hashes call.keys s) :
    call.run lua seqStep s =
      .ok (bumpAnswers seqStep hashes call.keys) (bumpStored seqStep hashes call.keys s) := by
  cases call with
  | increaseSeq userId => exact Script.bind_ok (RedisCache.evalSingle_stored hstep hexact hs)
  | incrSendSeq userId => exact Script.bind_ok (RedisCache.evalSingle_stored hstep hexact hs)
  | incrGroupSeq members =>
    have hanswers := groupSeqs_answers seqStep hashes members
    rw [SeqCall.keys, ← hanswers]
    exact Script.bind_ok (RedisCache.incrGroupSeq_stored hstep hexact members hs)

theorem runAll_stored (calls : List SeqCall) (hs : SmallCounters seqStep hashes (calls.flatMap SeqCall.keys) s) :
    SeqCall.runAll lua seqStep calls s = .ok (bumpAnswers seqStep hashes (calls.flatMap SeqCall.keys))
      (bumpStored seqStep hashes (calls.flatMap SeqCall.keys) s) := by
  induction calls generalizing hashes s with
  | nil => rfl
  | cons call calls ih =>
    rw [List.flatMap_cons] at hs ⊢
    rw [SeqCall.runAll, Script.bind_ok (run_stored seqStep hashes hstep hexact call (hs.left hstep)),
      Script.bind_ok (ih _ (hs.right hstep)), bumpAnswers_append, bumpStored_append]
    rfl

end Runs

/-- The answers of a counter depend on that counter and on how often it is incremented. -/
theorem answersOf_bumpAnswers (key : String) (keys : List String) :
    answersOf key (bumpAnswers seqStep hashes keys) =
      increments seqStep (hashes key) (keys.count key) := by
  induction keys generalizing hashes with
  | nil => rfl
  | cons k keys ih =>
    unfold answersOf at ih ⊢
    by_cases hk : k = key
    · subst hk
      rw [bumpAnswers, List.filter_cons_of_pos (by simp), List.map_cons, ih, bump_self,
        List.count_cons_self]
      rfl
    · rw [bumpAnswers, List.filter_cons_of_neg (by simpa using hk), ih, bump_ne _ _ (Ne.symm hk),
        List.count_cons_of_ne hk]

end Answers

section Ceilings

variable {s : ℕ} (hs : 1 ≤ s)

theorem opens_iff (s n : ℕ) : (n + 1) % s = 1 % s ↔ s ∣ n := by
  have h : 1 ≡ n + 1 [MOD s] ↔ s ∣ n := Nat.modEq_iff_dvd' (by omega)
  rw [eq_comm]
  exact h

include hs

/-- A number opens a block or goes on with one. -/
theorem ceilDiv_succ (n : ℕ) :
    (n + 1) ⌈/⌉ s = n ⌈/⌉ s + if (n + 1) % s = 1 % s then 1 else 0 := by
  have hiff : (n + 1) % s = 1 % s ↔ s ∣ n + s - 1 + 1 := by
    rw [opens_iff, Nat.sub_add_cancel (by omega), Nat.dvd_add_self_right]
  have hnext : n + 1 + s - 1 = n + s - 1 + 1 := by omega
  rw [Nat.ceilDiv_eq_add_pred_div, Nat.ceilDiv_eq_add_pred_div, hnext, Nat.succ_div]
  simp only [hiff]

theorem ceilDiv_mul (b : ℕ) : (b * s) ⌈/⌉ s = b := by
  rw [Nat.mul_comm]
  exact smul_ceilDiv hs b

/-- A block is full where the next number opens one. -/
theorem full_iff (n : ℕ) : s * (n ⌈/⌉ s) ≤ n ↔ (n + 1) % s = 1 % s := by
  rw [opens_iff]
  constructor
  · intro h
    have hle : n ≤ s * (n ⌈/⌉ s) := (ceilDiv_le_iff_le_mul hs).mp (Nat.le_refl _)
    exact ⟨_, Nat.le_antisymm hle h⟩
  · rintro ⟨b, rfl⟩
    rw [Nat.mul_comm s b, ceilDiv_mul hs, Nat.mul_comm]

end Ceilings

/-- The answer to the `n`-th increment of a counter loaded with `M`. -/
def loadedAnswer (s : ℕ) (M : Int) (n : ℕ) : Int × Int × Bool :=
  (M + n, M + s * (n ⌈/⌉ s : ℕ), decide (n % s = 1 % s))

/-- The answer to the `n`-th increment of a counter that was missing. -/
def freshAnswer (s : ℕ) (n : ℕ) : Int × Int × Bool :=
  (n, s * (max 1 (n ⌈/⌉ s) : ℕ), decide (s < n ∧ n % s = 1 % s))

/-- A counter loaded with `M` after `n` increments. -/
def loadedHash (s : ℕ) (M : Int) (n : ℕ) : SeqHash := ⟨some (M + n), some (M + s * (n ⌈/⌉ s : ℕ))⟩

section ClosedForm

variable {s : ℕ} (hs : 1 ≤ s)

include hs

theorem loadedHash_step (M : Int) (n : ℕ) :
    singleScript s (loadedHash s M n) = (loadedHash s M (n + 1), loadedAnswer s M (n + 1)) := by
  have hfull : M + n + 1 > M + s * (n ⌈/⌉ s : ℕ) ↔ (n + 1) % s = 1 % s := by
    rw [← full_iff hs, ← Int.ofNat_le, Int.natCast_mul]
    omega
  have hcur : M + ((n + 1 : ℕ) : Int) = M + n + 1 := by push_cast; omega
  simp only [loadedHash, loadedAnswer, singleScript, SeqHash.cur, Option.getD_some, hfull,
    ceilDiv_succ hs n, hcur]
  split
  · rename_i h
    simp [h, Int.mul_add, Int.add_assoc]
  · rename_i h
    simp [h]

theorem increments_loaded (M : Int) (k n : ℕ) : increments s (loadedHash s M k) n =
    (List.range' (k + 1) n).map (loadedAnswer s M) := by
  induction n generalizing k with
  | zero => rfl
  | succ n ih =>
    rw [increments, loadedHash_step hs, List.range'_succ, List.map_cons, ih]

/-- The first increment of a missing counter starts a block and asks for nothing. -/
theorem fresh_step : singleScript s {} = (loadedHash s 0 1, freshAnswer s 1) := by
  have hone : 1 ⌈/⌉ s = 1 := by
    rw [ceilDiv_succ hs 0, if_pos rfl, zero_ceilDiv]
  have hwithin : ¬ (0 : Int) + 1 > s := by omega
  have hfirst : ¬ s < 1 := by omega
  simp [singleScript, SeqHash.cur, loadedHash, freshAnswer, hone, hfirst]
  omega

/-- From the second on, the increments of a missing counter are those of one loaded with zero. -/
theorem freshAnswer_eq (n : ℕ) : freshAnswer s (n + 2) = loadedAnswer s 0 (n + 2) := by
  have hpos : max 1 ((n + 2) ⌈/⌉ s) = (n + 2) ⌈/⌉ s := by
    apply max_eq_right
    by_contra hzero
    have hle := (ceilDiv_le_iff_le_mul hs).mp (Nat.lt_succ_iff.mp (Nat.lt_of_not_le hzero))
    omega
  have hopens : s < n + 2 ∧ (n + 2) % s = 1 % s ↔ (n + 2) % s = 1 % s := by
    rw [and_iff_right_iff_imp]
    intro h
    have hd := Nat.le_of_dvd (by omega) ((opens_iff s (n + 1)).mp h)
    omega
  simp [freshAnswer, loadedAnswer, hpos, hopens]

theorem map_freshAnswer (n : ℕ) : (List.range' 1 (n + 1)).map (freshAnswer s) =
    freshAnswer s 1 :: (List.range' (1 + 1) n).map (loadedAnswer s 0) := by
  rw [List.range'_succ, List.map_cons]
  congr 1
  apply List.map_congr_left
  intro k hk
  obtain ⟨hk, -⟩ := List.mem_range'_1.mp hk
  obtain ⟨n, rfl⟩ := Nat.exists_eq_add_of_le hk
  rw [Nat.add_comm]
  exact freshAnswer_eq hs n

theorem increments_fresh (n : ℕ) : increments s {} n = (List.range' 1 n).map (freshAnswer s) := by
  cases n with
  | zero => rfl
  | succ n => rw [increments, fresh_step hs, increments_loaded hs, map_freshAnswer hs]

end ClosedForm

/-- How many of some answers ask for a bump of the database. -/
def bumpsAsked (seqs : List (Int × Int × Bool)) : ℕ := seqs.countP (·.2.2)

section Asked

variable {s : ℕ} (hs : 1 ≤ s)

include hs

theorem bumpsAsked_loaded (M : Int) (n : ℕ) :
    bumpsAsked ((List.range' 1 n).map (loadedAnswer s M)) = n ⌈/⌉ s := by
  induction n with
  | zero => simp [bumpsAsked]
  | succ n ih =>
    unfold bumpsAsked at ih ⊢
    rw [List.range'_1_concat, List.map_append, List.countP_append, ih, ceilDiv_succ hs, Nat.add_comm 1 n]
    simp [List.countP_cons, loadedAnswer]

theorem bumpsAsked_fresh (n : ℕ) :
    bumpsAsked ((List.range' 1 n).map (freshAnswer s)) + 1 = max 1 (n ⌈/⌉ s) := by
  cases n with
  | zero => simp [bumpsAsked]
  | succ n =>
    have hloaded := bumpsAsked_loaded hs 0 (n + 1)
    have hfirst : ¬ s < 1 := by omega
    rw [List.range'_succ, List.map_cons] at hloaded
    rw [map_freshAnswer hs]
    simp only [bumpsAsked, List.countP_cons, loadedAnswer, freshAnswer, hfirst, false_and, decide_true,
      decide_false, if_true, Bool.false_eq_true, if_false] at hloaded ⊢
    rw [← hloaded]
    omega

end Asked

/-- The answers of a counter follow a closed form. Its ceiling is always where it started and a
block for each bump that was asked for. Some blocks ask for nothing, and after them each asks
once. -/
structure RollsOver (s : ℕ) (start : Int) (first : ℕ) (answer : ℕ → Int × Int × Bool)
    (seqs : List (Int × Int × Bool)) : Prop where
  closed : seqs = (List.range' 1 seqs.length).map answer
  maxSeq : ∀ n seq, seqs[n]? = some seq → seq.2.1 = start + s * bumpsAsked (seqs.take (n + 1))
  before : ∀ seq ∈ seqs.take (first * s), seq.2.2 = false
  once : ∀ b, first ≤ b → (b + 1) * s ≤ seqs.length → bumpsAsked ((seqs.drop (b * s)).take s) = 1

section Closed

variable {s first : ℕ} {start : Int} {answer : ℕ → Int × Int × Bool} {asked : ℕ → ℕ}

/-- The first answers of a closed form. -/
theorem take_closed (n k : ℕ) : ((List.range' 1 k).map answer).take n =
    (List.range' 1 (min n k)).map answer := by
  rw [← List.map_take]
  obtain h | h := Nat.le_total n k
  · rw [List.take_range'_of_length_ge h, Nat.min_eq_left h]
  · rw [List.take_range'_of_length_le h, Nat.min_eq_right h]

/-- A closed form that says how many bumps have been asked for. -/
theorem rollsOver_closed (hasked : ∀ n, bumpsAsked ((List.range' 1 n).map answer) = asked n)
    (hmax : ∀ n, (answer (n + 1)).2.1 = start + s * asked (n + 1))
    (hbefore : ∀ n, n < first * s → (answer (n + 1)).2.2 = false)
    (honce : ∀ b, first ≤ b → asked ((b + 1) * s) = asked (b * s) + 1) (k : ℕ) :
    RollsOver s start first answer ((List.range' 1 k).map answer) := by
  have htake : ∀ n, n ≤ k → bumpsAsked (((List.range' 1 k).map answer).take n) = asked n := by
    intro n hn
    rw [take_closed, Nat.min_eq_left hn, hasked]
  constructor
  · rw [List.length_map, List.length_range']
  · intro n seq hseq
    have hn : n < k := by
      obtain ⟨hlt, -⟩ := List.getElem?_eq_some_iff.mp hseq
      simpa using hlt
    rw [List.getElem?_map, List.getElem?_range' hn] at hseq
    cases hseq
    rw [htake _ hn, Nat.mul_comm, Nat.mul_one, Nat.add_comm]
    exact hmax n
  · intro seq hseq
    rw [take_closed] at hseq
    obtain ⟨n, hn, rfl⟩ := List.mem_map.mp hseq
    obtain ⟨hn, hlt⟩ := List.mem_range'_1.mp hn
    obtain ⟨n, rfl⟩ := Nat.exists_eq_add_of_le hn
    rw [Nat.add_comm]
    exact hbefore n (by omega)
  · intro b hb hk
    rw [List.length_map, List.length_range'] at hk
    have hsucc := htake ((b + 1) * s) hk
    have hle : b * s ≤ (b + 1) * s := Nat.mul_le_mul_right s (Nat.le_succ b)
    rw [Nat.succ_mul, List.take_add, bumpsAsked, List.countP_append] at hsucc
    have hfirst := htake (b * s) (by omega)
    have hb' := honce b hb
    rw [Nat.succ_mul] at hb'
    unfold bumpsAsked at hfirst ⊢
    omega

end Closed

section Forms

variable {s : ℕ} (hs : 1 ≤ s)

include hs

theorem rollsOver_loaded (M : Int) (k : ℕ) :
    RollsOver s M 0 (loadedAnswer s M) ((List.range' 1 k).map (loadedAnswer s M)) := by
  apply rollsOver_closed (bumpsAsked_loaded hs M)
  · intro n
    rfl
  · intro n hn
    omega
  · intro b _
    rw [ceilDiv_mul hs, ceilDiv_mul hs]

theorem rollsOver_fresh (k : ℕ) :
    RollsOver s s 1 (freshAnswer s) ((List.range' 1 k).map (freshAnswer s)) := by
  have hasked : ∀ n, bumpsAsked ((List.range' 1 n).map (freshAnswer s)) =
      max 1 (n ⌈/⌉ s) - 1 := fun n => by rw [← bumpsAsked_fresh hs, Nat.add_sub_cancel]
  apply rollsOver_closed hasked
  · intro n
    have hpos : 1 ≤ max 1 ((n + 1) ⌈/⌉ s) := Nat.le_max_left _ _
    obtain ⟨m, hm⟩ := Nat.exists_eq_add_of_le hpos
    simp only [freshAnswer, hm]
    rw [Nat.add_sub_cancel_left]
    push_cast
    rw [Int.mul_add, Int.mul_one]
  · intro n hn
    have : ¬ s < n + 1 := by omega
    simp [freshAnswer, this]
  · intro b hb
    rw [ceilDiv_mul hs, ceilDiv_mul hs, Nat.max_eq_right (by omega), Nat.max_eq_right hb]
    omega

end Forms

/-- The calls answer, and the answers of a counter that was missing, or loaded with some value, follow their
closed form. -/
def BlocksRollOver (lua : Lua) (s : ℕ) (calls : List SeqCall) (hashes : StoredHashes) (key : String) : Prop :=
  ∃ answers t, SeqCall.runAll lua s calls hashes = .ok answers t ∧
    (answersOf key answers).length = (calls.flatMap SeqCall.keys).count key ∧
    (hashes key = {} → RollsOver s s 1 (freshAnswer s) (answersOf key answers)) ∧
    ∀ M : Int, hashes key = ⟨some (toString M), some (toString M)⟩ →
      RollsOver s M 0 (loadedAnswer s M) (answersOf key answers)

/-- Whatever calls are made, by either script and for whichever users between, the blocks roll over, while the
counters that are incremented are within `2 ^ 53`. -/
theorem blocks_roll_over (lua : Lua) (s : ℕ) (hs : 1 ≤ s) (hi32 : s < 2 ^ 31) (calls : List SeqCall)
    (hashes : String → SeqHash) (stored : StoredHashes)
    (hcounted : SmallCounters s hashes (calls.flatMap SeqCall.keys) stored) (key : String) :
    BlocksRollOver lua s calls stored key := by
  have hexact : Exact s := exact_iff.mpr (by omega)
  refine ⟨_, _, runAll_stored s hashes (by omega) hexact calls hcounted, ?_, ?_, ?_⟩
  · rw [answersOf_bumpAnswers, length_increments]
  · intro hkey
    rw [answersOf_bumpAnswers]
    by_cases hmem : key ∈ calls.flatMap SeqCall.keys
    · rw [hcounted.stored key hmem] at hkey
      have hfresh : hashes key = {} := SeqHash.stored_injective hkey
      rw [hfresh, increments_fresh hs]
      exact rollsOver_fresh hs _
    · rw [List.count_eq_zero_of_not_mem hmem]
      exact rollsOver_fresh hs 0
  · intro M hkey
    rw [answersOf_bumpAnswers]
    by_cases hmem : key ∈ calls.flatMap SeqCall.keys
    · have hloaded : hashes key = loadedHash s M 0 := by
        have hstored : (hashes key).stored = SeqHash.stored ⟨some M, some M⟩ := by
          rw [← hcounted.stored key hmem]
          exact hkey
        rw [loadedHash, zero_ceilDiv]
        simpa using SeqHash.stored_injective hstored
      rw [hloaded, increments_loaded hs]
      exact rollsOver_loaded hs M _
    · rw [List.count_eq_zero_of_not_mem hmem]
      exact rollsOver_loaded hs M 0

/-- `u` is missing and `v` is loaded with 6, in blocks of two. -/
theorem blocks_roll_over_mixed : ∃ answers t,
    SeqCall.runAll plainLua 2 [.increaseSeq "u", .incrGroupSeq ["v", "u", "v"], .increaseSeq "u"]
      (RedisCache.setSeq [("v", 0, 6)] fun _ => {}) = .ok answers t ∧
    (answersOf (seqKey "u") answers).length = 3 ∧
    RollsOver 2 2 1 (freshAnswer 2) (answersOf (seqKey "u") answers) ∧
    RollsOver 2 6 0 (loadedAnswer 2 6) (answersOf (seqKey "v") answers) := by
  have hcounted : SmallCounters 2 (fun key => if key = seqKey "v" then ⟨some 6, some 6⟩ else {})
      ([SeqCall.increaseSeq "u", .incrGroupSeq ["v", "u", "v"], .increaseSeq "u"].flatMap SeqCall.keys)
      (RedisCache.setSeq [("v", 0, 6)] fun _ => {}) := by
    constructor <;> decide
  have hcalls := blocks_roll_over plainLua 2 (by decide) (by decide) _ _ _ hcounted
  obtain ⟨answers, t, hrun, hlen, hfresh, -⟩ := hcalls (seqKey "u")
  obtain ⟨answers', t', hrun', -, -, hloaded⟩ := hcalls (seqKey "v")
  rw [hrun] at hrun'
  cases hrun'
  refine ⟨answers, t, hrun, ?_, hfresh (by decide), hloaded 6 (by decide)⟩
  rw [hlen]
  decide

/-- The first increment of a counter loaded with `2 ^ 53 + 3` does not see that its block is full. -/
theorem blocks_not_roll_over : ¬∀ (lua : Lua) (s : ℕ), 1 ≤ s → s < 2 ^ 31 → ∀ (calls : List SeqCall)
    (stored : StoredHashes), RedisCache.Reachable lua stored → ∀ key, BlocksRollOver lua s calls stored key := by
  intro h
  obtain ⟨answers, t, hrun, -, -, hloaded⟩ := h plainLua 10 (by decide) (by decide) [.increaseSeq "u"] _
    (.setSeq [("u", 0, 2 ^ 53 + 3)] .empty) (seqKey "u")
  have hanswer : (SeqCall.runAll plainLua (10 : ℕ) [.increaseSeq "u"]).answer
      (RedisCache.setSeq [("u", 0, 2 ^ 53 + 3)] fun _ => {}) =
        some [(seqKey "u", 2 ^ 53 + 4, 2 ^ 53 + 3, false)] := by decide +kernel
  have hkey : RedisCache.setSeq [("u", 0, 2 ^ 53 + 3)] (fun _ => {}) (seqKey "u") =
      ⟨some (toString (2 ^ 53 + 3 : Int)), some (toString (2 ^ 53 + 3 : Int))⟩ := by decide +kernel
  have hclosed := (hloaded (2 ^ 53 + 3) hkey).closed
  rw [Script.answer, hrun, Option.some.injEq] at hanswer
  subst hanswer
  revert hclosed
  decide

end Sandcat
