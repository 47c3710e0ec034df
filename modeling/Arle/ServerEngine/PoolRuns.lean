import Mathlib
import Arle.ServerEngine.Pool

/-!
# Runs of the engine pool

The pool with the heap of the lease cells and the leases that are alive. A checkout borrows the
pool for all of the call: it plans, evicts, loads and finishes, and no other operation of the
pool runs in between, but leases may be dropped at any point.
-/

namespace Arle.ServerEngine

variable {E : Type}

/-- Where the checkout is that has the pool. -/
inductive Call
  | idle
  | planned (modelId : String) (spec : EnginePoolModelSpec) (victims : List String)
  | loading (modelId : String) (spec : EnginePoolModelSpec)

structure System (E : Type) where
  pool : EnginePool E
  cells : Nat → LeaseCells
  /-- The cells from here on are not in use. -/
  nextCells : Nat
  /-- The leases that are alive. -/
  leases : List (EngineLease E)
  call : Call
  /-- What the last checkout returned, once it has. -/
  returned : Option (Except ErrorChain (EngineLease E))

namespace System

/-- A checkout returns a lease of a loaded entry. -/
def grant (s : System E) (entry : EnginePoolEntry E) : System E :=
  let shared := s.cells entry.cells
  let lease := { modelId := entry.spec.id, engine := entry.engine, cells := entry.cells }
  { s with
    cells := Function.update s.cells entry.cells
      { shared with activeRequests := shared.activeRequests + 1 }
    leases := lease :: s.leases
    call := .idle
    returned := some (.ok lease) }

/-- A checkout returns an error. -/
def fail (s : System E) (error : ErrorChain) : System E :=
  { s with call := .idle, returned := some (.error error) }

/-- The entry of a model that was just loaded, with cells of its own. -/
def insertEntry (s : System E) (modelId : String) (spec : EnginePoolModelSpec) (engine : E)
    (now : Nat) : System E :=
  { s with
    pool := { s.pool with
      loadedEstimateBytes := Word.saturatingAdd 64 s.pool.loadedEstimateBytes spec.estimate
      entries := s.pool.entries.insert modelId { engine, spec, cells := s.nextCells } }
    cells := Function.update s.cells s.nextCells { lastUsed := now, activeRequests := 0 }
    nextCells := s.nextCells + 1 }

/-- The drop of the lease at the place `i`. -/
def dropLease (s : System E) (i : Nat) (lease : EngineLease E) (now : Nat) : System E :=
  { s with
    cells := Function.update s.cells lease.cells
      { lastUsed := now, activeRequests := (s.cells lease.cells).activeRequests - 1 }
    leases := s.leases.eraseIdx i }

end System

/-- The operations on a pool, with what the environment decides. -/
inductive Op (E : Type)
  /-- A checkout up to the evictions, or to the lease when the engine is loaded. -/
  | checkout (model : String)
  | applyEvictions
  /-- The loader returns. -/
  | loaderDone (result : Except ErrorChain E) (now : Nat)
  | dropLease (i now : Nat)
  | unloadIdle (model : String)
  | unloadExpired (now : Nat)

/-- One step. The map may iterate over its entries in any order. -/
inductive Step : System E → Op E → System E → Prop
  | checkoutFails {s : System E} {model order error} (hcall : s.call = .idle)
      (horder : order.Perm s.pool.entries.entries)
      (hprepare : s.pool.prepareCheckout s.cells order model = .error error) :
      Step s (.checkout model) (s.fail [error])
  | checkoutLoaded {s : System E} {model order modelId entry} (hcall : s.call = .idle)
      (horder : order.Perm s.pool.entries.entries)
      (hprepare : s.pool.prepareCheckout s.cells order model = .ok (.loaded modelId))
      (hentry : s.pool.entries.lookup modelId = some entry) :
      Step s (.checkout model) (s.grant entry)
  | checkoutPlans {s : System E} {model order modelId spec victims} (hcall : s.call = .idle)
      (horder : order.Perm s.pool.entries.entries)
      (hprepare : s.pool.prepareCheckout s.cells order model =
        .ok (.planned modelId spec victims)) :
      Step s (.checkout model)
        { s with call := .planned modelId spec victims, returned := none }
  | applyEvictions {s : System E} {modelId spec victims}
      (hcall : s.call = .planned modelId spec victims) :
      Step s .applyEvictions
        { s with pool := s.pool.applyEvictions victims, call := .loading modelId spec }
  | loaderFails {s : System E} {modelId spec error now} (hcall : s.call = .loading modelId spec) :
      Step s (.loaderDone (.error error) now)
        (s.fail (s!"load engine pool model `{spec.id}`" :: error))
  | loaderReturns {s : System E} {modelId spec engine now entry}
      (hcall : s.call = .loading modelId spec)
      (hentry : (s.insertEntry modelId spec engine now).pool.entries.lookup modelId =
        some entry) :
      Step s (.loaderDone (.ok engine) now) ((s.insertEntry modelId spec engine now).grant entry)
  | dropLease {s : System E} {i now lease} (hlease : s.leases[i]? = some lease) :
      Step s (.dropLease i now) (s.dropLease i lease now)
  | unloadIdle {s : System E} {model} (hcall : s.call = .idle) :
      Step s (.unloadIdle model) { s with pool := (s.pool.unloadIdle s.cells model).2 }
  | unloadExpired {s : System E} {order now} (hcall : s.call = .idle)
      (horder : order.Perm s.pool.entries.entries) :
      Step s (.unloadExpired now)
        { s with pool := (s.pool.unloadExpired s.cells order now).2 }

/-- A new pool of a configuration, and no lease. -/
structure Starts (config : EnginePoolConfig) (s : System E) : Prop where
  pool : EnginePool.new config = .ok s.pool
  leases : s.leases = []
  call : s.call = .idle

/-- The leases that are alive on an entry. -/
def System.leasesOf (s : System E) (entry : EnginePoolEntry E) : Nat :=
  s.leases.countP fun lease => lease.cells = entry.cells

end Arle.ServerEngine
