import Sandcat.Message
import Sandcat.Lib.Changes

/-!
# Discovery of services

A round fetches the addresses of a service and sends what has changed since the last round that
fetched them. The remembered set also holds addresses without an endpoint, which were never sent.
Sends succeed, and the endpoint of an address depends on nothing else.
-/

namespace Sandcat

open Changes

/-- A `HashSet` in the order of its iteration. -/
structure AddressSet (α : Type) where
  elems : List α
  nodup : elems.Nodup

/-- The remembered set, and the changes sent so far. -/
structure DynamicServiceDiscovery (α ε : Type) where
  services : AddressSet α
  sent : List (Change α ε)

namespace DynamicServiceDiscovery

variable {α ε : Type} [DecidableEq α]

def new : DynamicServiceDiscovery α ε := ⟨⟨[], List.nodup_nil⟩, []⟩

/-- `change_set`. -/
def changeSet (buildEndpoint : α → Option ε) (endpoints : AddressSet α)
    (s : DynamicServiceDiscovery α ε) : List (Change α ε) :=
  difference buildEndpoint s.services.elems endpoints.elems

/-- One round, for the answer of the registry. -/
def discovery (buildEndpoint : α → Option ε) (fetched : Except Error (AddressSet α))
    (s : DynamicServiceDiscovery α ε) : Except Error Unit × DynamicServiceDiscovery α ε :=
  match fetched with
  | .error e => (.error e, s)
  | .ok x => (.ok (), ⟨x, s.sent ++ s.changeSet buildEndpoint x⟩)

/-- The rounds of `run`, which logs the errors. -/
def run (buildEndpoint : α → Option ε) (rounds : List (Except Error (AddressSet α))) :
    DynamicServiceDiscovery α ε :=
  rounds.foldl (fun s fetched => (s.discovery buildEndpoint fetched).2) new

/-- What the receiver of the changes has. -/
def balancer (s : DynamicServiceDiscovery α ε) : Finset α := applyAll ∅ s.sent

/-- The receiver has what can be built of the remembered set, and was told nothing twice. -/
structure InStep (buildEndpoint : α → Option ε) (s : DynamicServiceDiscovery α ε) : Prop where
  balancer : s.balancer = built buildEndpoint s.services.elems
  fresh : Fresh ∅ s.sent

variable {buildEndpoint : α → Option ε} {s : DynamicServiceDiscovery α ε}

theorem inStep_new : InStep buildEndpoint (new : DynamicServiceDiscovery α ε) := ⟨rfl, trivial⟩

/-- One round. -/
theorem inStep_discovery (h : s.InStep buildEndpoint) (fetched : Except Error (AddressSet α)) :
    (s.discovery buildEndpoint fetched).2.InStep buildEndpoint := by
  cases fetched with
  | error e => exact h
  | ok x =>
    have hbalancer : applyAll ∅ s.sent = built buildEndpoint s.services.elems := h.balancer
    constructor
    · change applyAll ∅ (s.sent ++ s.changeSet buildEndpoint x) = _
      rw [applyAll_append, hbalancer]
      exact applyAll_difference _ _
    · refine fresh_append.mpr ⟨h.fresh, ?_⟩
      rw [hbalancer]
      exact fresh_difference x.nodup

theorem inStep_run (rounds : List (Except Error (AddressSet α))) :
    (run buildEndpoint rounds).InStep buildEndpoint := by
  induction rounds using List.reverseRecOn with
  | nil => exact inStep_new
  | append_singleton rounds fetched ih =>
    rw [run, List.foldl_append]
    exact inStep_discovery ih fetched

/-- A failed round leaves everything as it is. -/
theorem run_error (rounds : List (Except Error (AddressSet α))) (e : Error) :
    run buildEndpoint (rounds ++ [.error e]) = run buildEndpoint rounds := List.foldl_append

theorem services_run_ok (rounds : List (Except Error (AddressSet α))) (x : AddressSet α) :
    (run buildEndpoint (rounds ++ [.ok x])).services = x := by
  rw [run, List.foldl_append]
  rfl

end DynamicServiceDiscovery

/-- After a successful round the balancer has the addresses fetched whose endpoints can be built, and
nothing was ever inserted that it had. -/
theorem discovery_in_step {α ε : Type} [DecidableEq α] (buildEndpoint : α → Option ε)
    (rounds : List (Except Error (AddressSet α))) :
    (∀ x, (DynamicServiceDiscovery.run buildEndpoint (rounds ++ [.ok x])).balancer =
      (x.elems.filter fun a => (buildEndpoint a).isSome).toFinset) ∧
    ∀ before a e after, (DynamicServiceDiscovery.run buildEndpoint rounds).sent =
      before ++ .insert a e :: after → a ∉ applyAll ∅ before := by
  constructor
  · intro x
    have h : (DynamicServiceDiscovery.run buildEndpoint (rounds ++ [.ok x])).InStep buildEndpoint :=
      DynamicServiceDiscovery.inStep_run _
    rw [h.balancer, DynamicServiceDiscovery.services_run_ok]
    rfl
  · intro before a e after hsent
    have h : Fresh ∅ (DynamicServiceDiscovery.run buildEndpoint rounds).sent :=
      (DynamicServiceDiscovery.inStep_run rounds).fresh
    rw [hsent] at h
    exact h.not_mem

end Sandcat
