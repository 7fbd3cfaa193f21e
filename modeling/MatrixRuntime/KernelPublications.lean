import MatrixRuntime.KernelContexts

/-! What activations publish: capabilities in the registry, subscriptions on the
bus. Instance 0 is the legacy registration without an instance, which any owner
may revoke. -/

namespace MatrixRuntime.KernelPublications

open KernelContexts Function

structure RegistryEntry where
  logical : String
  instanceId : InstanceId
  generation : Nat
  epoch : Nat
  deriving DecidableEq, Repr

structure Sub where
  logical : String
  instanceId : InstanceId
  deriving DecidableEq, Repr

structure Publications where
  caps : String → Option RegistryEntry
  subs : String → List Sub

namespace Publications

def new : Publications := ⟨fun _ => none, fun _ => []⟩

def provideInstance (p : Publications) (cap : String) (r : InstanceRef) : Publications :=
  { p with
    caps := update p.caps cap (some ⟨r.logical, r.instanceId, r.generation, r.epoch⟩) }

def resolveRef (p : Publications) (cap : String) : Option InstanceRef :=
  (p.caps cap).map fun e => ⟨e.epoch, e.instanceId, 0, e.logical, e.generation⟩

def revokeCapIfOwned (p : Publications) (cap : String) (inst : InstanceId) : Publications :=
  match p.caps cap with
  | some e =>
    if e.instanceId = inst ∨ e.instanceId = 0 then
      { p with caps := update p.caps cap none }
    else p
  | none => p

def subscribeInstance (p : Publications) (logical : String) (inst : InstanceId) (topic : String) :
    Publications :=
  if ⟨logical, inst⟩ ∈ p.subs topic then p
  else { p with subs := update p.subs topic (p.subs topic ++ [⟨logical, inst⟩]) }

def unsubscribeTopicIfOwned (p : Publications) (inst : InstanceId) (topic : String) :
    Publications :=
  { p with
    subs := update p.subs topic
      ((p.subs topic).filter fun s => decide (¬ (s.instanceId = inst ∨ s.instanceId = 0))) }

end Publications

end MatrixRuntime.KernelPublications
