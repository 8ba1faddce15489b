import Sandcat.Footprint
import Sandcat.LoadSeq

/-!
# Receive numbers between two reloads

The counters of the users start at what a reload leaves. Records are handled one
after another, any call may be lost, and between two records the other processes
may change everything but the receive counters.
-/

namespace Sandcat

open Remote Consecutive

/-- The state after a reload, with an observer that has seen nothing yet. -/
def World.fresh (w : World) : World := { w.reload with handled := 0, scripts := [] }

/-- Runs of the consumer between two reloads. -/
inductive Served (cfg : Config) (start : World) : World → Prop where
  | start : Served cfg start start
  | handle {w t : World} {r : Except Error Unit} (payload : Payload) : Served cfg start w →
      Prog.Faulty (Consumer.handleMsg cfg payload) w r t →
      Served cfg start { t with handled := t.handled + 1 }
  | others {w t : World} : Served cfg start w →
      (∀ u, t.redis.hashes (seqKey u) = w.redis.hashes (seqKey u)) → t.scripts = w.scripts →
      t.handled = w.handled → Served cfg start t

/-- The receive numbers so far: consecutive from `base`, in the order of the records,
and no counter beyond its ceiling. -/
structure Numbered (base : UserId → Int) (w : World) : Prop where
  ok : ∀ u, (w.redis.hashes (seqKey u)).Ok
  handed : ∀ u, ∃ n : Nat, w.handed (seqKey u) = above (base u) n ∧
    (w.redis.hashes (seqKey u)).cur = base u + n
  sorted : ∀ u, (w.numbered (seqKey u)).Pairwise fun a b => a.1 ≤ b.1
  records : ∀ u, ∀ p ∈ w.numbered (seqKey u), p.1 ≤ w.handled
  after : ∀ c ∈ w.scripts, ∀ u, (c.after (seqKey u)).Ok

/-- A script call extends the numbers of every user by the next integers. -/
theorem Numbered.bumped {base : UserId → Int} {w : World} (h : Numbered base w) {seqStep : Int}
    (hstep : 1 ≤ seqStep) (keys : List String) : Numbered base (w.bumped seqStep keys) where
  ok u := bumps_ok hstep keys (h.ok u)
  handed u := by
    obtain ⟨n, hn, hcur⟩ := h.handed u
    refine ⟨n + keys.count (seqKey u), ?_, ?_⟩
    · rw [World.bumped_handed, hn, hcur, above_add]
    · rw [World.bumped_hashes, bumps_cur, hcur]
      omega
  sorted u := by
    rw [World.bumped_numbered, List.pairwise_append]
    refine ⟨h.sorted u, ?_, ?_⟩
    · rw [List.pairwise_map]
      exact (pairwise_above _ _).imp fun _ => Nat.le_refl _
    · intro a ha b hb
      obtain ⟨n, -, rfl⟩ := List.mem_map.mp hb
      exact h.records u a ha
  records u p hp := by
    rw [World.bumped_numbered, List.mem_append] at hp
    obtain hp | hp := hp
    · exact h.records u p hp
    · obtain ⟨n, -, rfl⟩ := List.mem_map.mp hp
      exact Nat.le_refl _
  after c hc u := by
    rw [World.bumped_scripts, List.mem_append, List.mem_singleton] at hc
    obtain hc | rfl := hc
    · exact h.after c hc u
    · exact bumps_ok hstep keys (h.ok u)

theorem Numbered.kept {cfg : Config} (hstep : 1 ≤ cfg.seqStep) (base : UserId → Int) :
    Kept cfg (Numbered base) where
  mongo _ _ h := ⟨h.ok, h.handed, h.sorted, h.records, h.after⟩
  push _ _ _ h := ⟨h.ok, h.handed, h.sorted, h.records, h.after⟩
  sets _ _ h := ⟨h.ok, h.handed, h.sorted, h.records, h.after⟩
  history _ _ h := ⟨h.ok, h.handed, h.sorted, h.records, h.after⟩
  recMax _ _ h := ⟨h.ok, h.handed, h.sorted, h.records, h.after⟩
  script _ us h := h.bumped hstep (us.map seqKey)

theorem World.fresh_numbered (w : World) :
    Numbered (fun u => (w.fresh.redis.hashes (seqKey u)).cur) w.fresh where
  ok u := w.reload_ok u
  handed u := ⟨0, rfl, by simp⟩
  sorted u := List.Pairwise.nil
  records u p hp := by cases hp
  after c hc := by cases hc

/-- Every state of a run is numbered from where it started. -/
theorem Served.numbered {cfg : Config} (hstep : 1 ≤ cfg.seqStep) {base : UserId → Int}
    {start w : World} (hs : Numbered base start) (h : Served cfg start w) : Numbered base w := by
  induction h with
  | start => exact hs
  | handle payload _ hf ih =>
    have ht := Prog.stable_faulty ((Numbered.kept hstep base).handleMsg payload) hf ih
    refine ⟨ht.ok, ht.handed, ht.sorted, ?_, ht.after⟩
    intro u p hp
    exact Nat.le_succ_of_le (ht.records u p hp)
  | @others w t _ hhash hscripts hhandled ih =>
    have hnum : ∀ k, t.numbered k = w.numbered k := World.numbered_congr hscripts
    refine ⟨fun u => hhash u ▸ ih.ok u, ?_, fun u => hnum _ ▸ ih.sorted u, ?_, ?_⟩
    · intro u
      rw [World.handed, hnum, hhash]
      exact ih.handed u
    · intro u p hp
      rw [hnum] at hp
      exact hhandled ▸ ih.records u p hp
    · intro c hc
      exact ih.after c (hscripts ▸ hc)

/-- In processing order the records do not decrease and the numbers increase. -/
theorem Numbered.increasing {base : UserId → Int} {w : World} (h : Numbered base w) (u : UserId) :
    (w.numbered (seqKey u)).Pairwise fun a b => a.1 ≤ b.1 ∧ a.2 < b.2 := by
  obtain ⟨n, hn, -⟩ := h.handed u
  have hlt : (w.numbered (seqKey u)).Pairwise fun a b => a.2 < b.2 := by
    rw [← List.pairwise_map, ← World.handed, hn]
    exact pairwise_above _ _
  exact (h.sorted u).and hlt

/-- The numbers Redis gives out to a user are consecutive in the order of the records,
and after every script call the stored pairs are within their ceilings. -/
theorem receive_numbers_consecutive {cfg : Config} (hstep : 1 ≤ cfg.seqStep) (w₀ : World)
    {w : World} (h : Served cfg w₀.fresh w) (u : UserId) :
    (∃ n : Nat, w.handed (seqKey u) = above (w₀.fresh.redis.hashes (seqKey u)).cur n) ∧
      (w.numbered (seqKey u)).Pairwise (fun a b => a.1 ≤ b.1 ∧ a.2 < b.2) ∧
      ∀ c ∈ w.scripts, (c.after (seqKey u)).Ok := by
  have hw := h.numbered hstep w₀.fresh_numbered
  obtain ⟨n, hn, -⟩ := hw.handed u
  exact ⟨⟨n, hn⟩, hw.increasing u, fun c hc => hw.after c hc u⟩

/-- Blocks of one number and the plain inbox. -/
def Config.small : Config := ⟨1, .plain, fun _ => 0⟩

/-- One gateway, connected to the pusher, and nothing else. -/
def oneGateway : World :=
  { World.empty with
    gateways := fun addr => if addr = 0 then some .empty else none, wsRpcList := [0] }

def hello : Msg := { senderId := "a", receiverId := "b" }

/-- The state after a first message to `b`. -/
def helloState : World :=
  let t := (Consumer.handleMsg .small (.json hello)).after oneGateway.fresh
  { t with handled := t.handled + 1 }

theorem hello_served : Served .small oneGateway.fresh helloState :=
  .handle (.json hello) .start (Prog.faulty_exec _ _)

theorem receive_numbers_consecutive_hello :
    helloState.handed (seqKey "b") = [1] ∧
      (∃ n : Nat, helloState.handed (seqKey "b") =
        above (oneGateway.fresh.redis.hashes (seqKey "b")).cur n) ∧
      (helloState.numbered (seqKey "b")).Pairwise (fun a b => a.1 ≤ b.1 ∧ a.2 < b.2) ∧
      ∀ c ∈ helloState.scripts, (c.after (seqKey "b")).Ok :=
  ⟨by decide, receive_numbers_consecutive (by decide) oneGateway hello_served "b"⟩

end Sandcat
