import Sandcat.Numbering

/-!
# The consumer loop and the committed offset

The loop receives the records of one partition in order, hands each text to
`handleMsg` and asks the broker to commit a record that was handled. A record that
fails is passed over. A restart resumes at the committed offset.
-/

namespace Sandcat

open Remote

/-- The partition, the consumer and the services. `done` belongs to the observer and holds
the offsets of the records that were handled with success; `requests` are the commits
that are still on their way. -/
structure Consuming where
  log : List (Option Payload)
  committed : Nat
  requests : List Nat
  resumed : Nat
  position : Nat
  world : World
  done : List Nat

namespace Consuming

def start (w : World) : Consuming := ⟨[], 0, [], 0, 0, w, []⟩

/-- A record without a payload in UTF-8 is received and nothing else. -/
def skip (s : Consuming) : Consuming := { s with position := s.position + 1 }

/-- `handle_msg` has failed: `continue`. -/
def failed (s : Consuming) (world : World) : Consuming :=
  { s with position := s.position + 1, world }

/-- `handle_msg` has succeeded; `sent` tells whether `commit_message` could ask the broker. -/
def handled (s : Consuming) (world : World) (sent : Bool) : Consuming :=
  { s with
    position := s.position + 1, world, done := s.position :: s.done
    requests := if sent then s.position :: s.requests else s.requests }

/-- The broker commits a record. -/
def commit (s : Consuming) (offset : Nat) : Consuming := { s with committed := offset + 1 }

/-- The process starts again, whatever its last calls have done to the services. -/
def restart (s : Consuming) (world : World) : Consuming :=
  { s with resumed := s.committed, position := s.committed, world }

/-- Runs of the loop of `consume`. A commit may be refused, be late or never happen. -/
inductive Reachable (cfg : Config) (allowed : Consuming → Prop) (w : World) : Consuming → Prop where
  | start : Reachable cfg allowed w (start w)
  | publish {s : Consuming} (record : Option Payload) : Reachable cfg allowed w s →
      Reachable cfg allowed w { s with log := s.log ++ [record] }
  | skip {s : Consuming} : Reachable cfg allowed w s → s.log[s.position]? = some none →
      Reachable cfg allowed w s.skip
  | failed {s : Consuming} {payload : Payload} {e : Error} {t : World} :
      Reachable cfg allowed w s → s.log[s.position]? = some (some payload) →
      Prog.Faulty (Consumer.handleMsg cfg payload) s.world (.error e) t →
      Reachable cfg allowed w (s.failed t)
  | handled {s : Consuming} {payload : Payload} {t : World} (sent : Bool) :
      Reachable cfg allowed w s → s.log[s.position]? = some (some payload) →
      Prog.Faulty (Consumer.handleMsg cfg payload) s.world (.ok ()) t →
      (sent = true → allowed s) → Reachable cfg allowed w (s.handled t sent)
  | commit {s : Consuming} {offset : Nat} : Reachable cfg allowed w s → offset ∈ s.requests →
      Reachable cfg allowed w (s.commit offset)
  | restart {s : Consuming} (t : World) : Reachable cfg allowed w s →
      Reachable cfg allowed w (s.restart t)
  | others {s : Consuming} (t : World) : Reachable cfg allowed w s →
      Reachable cfg allowed w { s with world := t }

/-- Every record received since the last restart has been handled. -/
def CaughtUp (s : Consuming) : Prop := ∀ j, s.resumed ≤ j → j < s.position → j ∈ s.done

/-- What was committed, is being committed, or was committed at the last restart covers
handled records only. -/
structure Covered (s : Consuming) : Prop where
  committed : ∀ j < s.committed, j ∈ s.done
  requests : ∀ o ∈ s.requests, ∀ j ≤ o, j ∈ s.done
  resumed : ∀ j < s.resumed, j ∈ s.done

theorem Covered.handled {s : Consuming} (h : s.Covered) (w : World) {sent : Bool}
    (hs : sent = true → s.CaughtUp) : (s.handled w sent).Covered where
  committed j hj := List.mem_cons_of_mem _ (h.committed j hj)
  resumed j hj := List.mem_cons_of_mem _ (h.resumed j hj)
  requests := by
    intro o ho j hj
    cases sent with
    | false => exact List.mem_cons_of_mem _ (h.requests o ho j hj)
    | true =>
      obtain rfl | ho := List.mem_cons.mp ho
      · obtain rfl | hlt := Nat.eq_or_lt_of_le hj
        · exact List.mem_cons_self
        · apply List.mem_cons_of_mem
          by_cases hr : j < s.resumed
          · exact h.resumed j hr
          · exact hs rfl j (by omega) hlt
      · exact List.mem_cons_of_mem _ (h.requests o ho j hj)

theorem Covered.commit {s : Consuming} (h : s.Covered) {offset : Nat} (ho : offset ∈ s.requests) :
    (s.commit offset).Covered where
  committed j hj := h.requests offset ho j (Nat.le_of_lt_succ hj)
  requests := h.requests
  resumed := h.resumed

theorem Covered.restart {s : Consuming} (h : s.Covered) (w : World) : (s.restart w).Covered where
  committed := h.committed
  requests := h.requests
  resumed := h.committed

theorem Reachable.covered {cfg : Config} {w : World} {s : Consuming}
    (h : Reachable cfg CaughtUp w s) : s.Covered := by
  induction h with
  | start =>
    exact ⟨fun j hj => absurd hj (Nat.not_lt_zero j), fun o ho => (by cases ho),
      fun j hj => absurd hj (Nat.not_lt_zero j)⟩
  | publish record _ ih => exact ⟨ih.committed, ih.requests, ih.resumed⟩
  | skip _ _ ih => exact ⟨ih.committed, ih.requests, ih.resumed⟩
  | failed _ _ _ ih => exact ⟨ih.committed, ih.requests, ih.resumed⟩
  | handled sent _ _ _ hs ih => exact ih.handled _ hs
  | commit _ ho ih => exact ih.commit ho
  | restart t _ ih => exact ih.restart t
  | others t _ ih => exact ⟨ih.committed, ih.requests, ih.resumed⟩

/-- A record that was never handled with success is not below the committed offset, so it
is received again after a restart. -/
def NothingLost (cfg : Config) (allowed : Consuming → Prop) : Prop :=
  ∀ w s, Reachable cfg allowed w s → ∀ j, j ∉ s.done →
    s.committed ≤ j ∧ ∀ t, (s.restart t).position ≤ j

/-- As long as the loop asks for a commit only when it has passed over no record since the
last restart, no record is lost. -/
theorem unhandled_records_kept (cfg : Config) : NothingLost cfg CaughtUp := by
  intro w s hs j hj
  have hle : s.committed ≤ j := by
    by_contra hlt
    exact hj (hs.covered.committed j (by omega))
  exact ⟨hle, fun _ => hle⟩

/-- A record of a type that does not exist. -/
def strange : Msg := { senderId := "a", receiverId := "b", msgType := 99 }

/-- A record that cannot be handled and a message after it. -/
def twoRecords : Consuming :=
  { start oneGateway with log := [some (.json strange), some (.json hello)] }

/-- Both records received, the second one handled and committed. -/
def passedOver : Consuming :=
  let t := (Consumer.handleMsg .small (.json hello)).after oneGateway
  ((twoRecords.failed oneGateway).handled t true).commit 1

/-- The commit of the second record covers the first one, which was never handled. -/
theorem unhandled_record_lost : ¬ NothingLost .small fun _ => True := by
  intro h
  have hlog : Reachable .small (fun _ => True) oneGateway twoRecords :=
    .publish _ (.publish _ .start)
  have hfailed : Reachable .small (fun _ => True) oneGateway (twoRecords.failed oneGateway) :=
    hlog.failed rfl (Prog.faulty_exec (Consumer.handleMsg .small (.json strange)) oneGateway)
  have hrun : Reachable .small (fun _ => True) oneGateway passedOver :=
    .commit (.handled true hfailed rfl
      (Prog.faulty_exec (Consumer.handleMsg .small (.json hello)) oneGateway) fun _ => trivial)
      (by decide)
  have hle := (h oneGateway passedOver hrun 0 (by decide)).1
  exact absurd hle (by decide)

end Consuming

end Sandcat
