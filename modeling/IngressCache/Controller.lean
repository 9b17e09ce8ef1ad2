import IngressCache.Acme
import IngressCache.Change.Aggregator
import IngressCache.Cluster.Call
import IngressCache.Metrics.Basic
import IngressCache.Reference.Resolver
import IngressCache.Watch.Report

/-!
# The controller

Listers, aggregator, store of material, tracker and counters put together: what happens when a
watch takes a step, when the consumer publishes, and when material is looked up. Everything that
others may want to know about it is put on record.
-/

namespace IngressCache

structure Record where
  dependencies : List Dependency
  requests : List Request
  lists : List String
  storeCalls : List StoreCall
  warnings : List Warning

def Record.empty : Record :=
  ⟨[], [], [], [], []⟩

structure Controller where
  settings : Settings
  acme : Except KeyFault AcmeKeys
  listers : Listers
  aggregator : Aggregator
  store : SecretStore
  tracker : Tracker
  metrics : Metrics
  record : Record

namespace Controller

def start (settings : Settings) (acme : Except KeyFault AcmeKeys) (store : SecretStore) :
    Controller where
  settings := settings
  acme := acme
  listers := .empty (!settings.disablePodList)
  aggregator := .start ⟨settings.globalConfigMap, settings.tcpConfigMap⟩
    settings.updates.waitBeforeUpdate.toNat
  store := store
  tracker := .empty
  metrics := .zero
  record := .empty

def classFilter (c : Controller) : ClassFilter :=
  ⟨c.settings.ingressClass, c.settings.withoutClass⟩

def policy (c : Controller) : Policy :=
  ⟨c.settings.allowCrossNamespace⟩

/-- The pod that the controller runs in, if both parts of its key are known. -/
def ownPod? (c : Controller) : Option Key :=
  match c.settings.podNamespace, c.settings.podName with
  | some ns, some name => if ns = "" ∨ name = "" then none else some ⟨ns, name⟩
  | _, _ => none

/-! ### The record -/

def warn (c : Controller) (warnings : List Warning) : Controller :=
  { c with record := { c.record with warnings := c.record.warnings ++ warnings } }

def noteRequest (c : Controller) (r : Request) : Controller :=
  { c with record := { c.record with requests := c.record.requests ++ [r] } }

def noteListing (c : Controller) (path : String) : Controller :=
  { c with record := { c.record with lists := c.record.lists ++ [path] } }

def track (c : Controller) (d : Dependency) : Controller :=
  { c with
    tracker := c.tracker.track d
    record := { c.record with dependencies := c.record.dependencies ++ [d] } }

/-! ### Events -/

/-- A call of the store. The second part tells whether it returned. -/
def callStore (c : Controller) (call : StoreCall) : Controller × Bool :=
  let c := if c.store.isObserved then
      { c with record := { c.record with storeCalls := c.record.storeCalls ++ [call] } }
    else c
  match c.store.call c.listers.secrets call with
  | none => (c, false)
  | some (store, warnings) => ({ c with store := store }.warn warnings, true)

/-- The aggregator receives an event that the store has dealt with. -/
def receive (c : Controller) (e : Event) : Controller :=
  match c.aggregator.receive e with
  | none => c
  | some a =>
    { c with aggregator := a, metrics := c.metrics.recordEvent e.kindLabel e.action }

/-- An event arrives. The store hears of it first; an event that it does not return from is lost.
The second part tells whether it returned. -/
def notify (c : Controller) (e : Event) : Controller × Bool :=
  let c := c.warn (c.aggregator.lockWarnings .write)
  match e.storeCall with
  | none => (c.receive e, true)
  | some call =>
    match c.callStore call with
    | (c, true) => (c.receive e, true)
    | (c, false) => ({ c with aggregator := c.aggregator.poison }, false)

/-- A watch takes a step: the lister follows, and what is of interest is handed on. The second
part tells whether the store returned. -/
def observe (c : Controller) (k : Kind) (e : WatchEvent k.Object) : Controller × Bool :=
  match c.listers.of k with
  | none => (c, true)
  | some l =>
    let c := { c with listers := c.listers.set k (l.step e) }
    match (l.report e).event? c.classFilter c.aggregator.tracked k with
    | none => (c, true)
    | some event => c.notify event

def publish (c : Controller) : Controller × Snapshot :=
  let c := c.warn (c.aggregator.lockWarnings .write)
  let (snapshot, aggregator) := c.aggregator.publish
  ({ c with
      aggregator := aggregator
      metrics := c.metrics.recordPublish snapshot.objects.length snapshot.fullSync }, snapshot)

/-- Whether the next publish will ask for a full synchronisation. -/
def needFullSync (c : Controller) : Controller × Bool :=
  (c.warn (c.aggregator.lockWarnings .read), c.aggregator.pending.needFullSync)

/-! ### Lookups of material -/

def conclude {α : Type} (c : Controller) (w : Wanted) (r : Resolution α) :
    Controller × Except Failure α :=
  let c := { c with store := r.store, metrics := c.metrics.recordLookup w.label r.found }
  (c.track r.dependency, r.result)

def tls (c : Controller) (q : Query) : Controller × Except Failure BundleHandle :=
  c.conclude .tls (Resolver.tls c.policy c.listers.secrets c.store q)

/-- The authorities that a query names, and their revocations. -/
def ca (c : Controller) (q : Query) :
    Controller × Except Failure (FileHandle × Option FileHandle) :=
  c.conclude .ca (Resolver.ca c.policy c.listers.secrets c.store q)

def dh (c : Controller) (q : Query) : Controller × Except Failure FileHandle :=
  c.conclude .dh (Resolver.dh c.policy c.listers.secrets c.store q)

/-- The bytes under a name of the secret that a query names. -/
def content (c : Controller) (q : Query) (name : String) : Controller × Except Failure Bytes :=
  c.conclude .content (Resolver.content c.policy c.listers.secrets c.store q name)

/-! ### Pods of a service -/

/-- The pods of a service that are about to go away. All its pods are recorded. -/
def terminatingPods (c : Controller) (s : Service) (target : Target) :
    Controller × Except Failure (List Pod) :=
  match s.selectedPods c.listers.pods with
  | .error f => (c, .error f)
  | .ok pods =>
    ((pods.map (s.podDependency target)).foldl track c, .ok (pods.filter Pod.isTerminating))

end Controller

end IngressCache
