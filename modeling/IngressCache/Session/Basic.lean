import IngressCache.Session.Step

/-!
# Sessions

A controller together with the cluster that it talks to and the clock. In a session the watches
either run against the cluster, or the listers are filled by hand.
-/

namespace IngressCache

structure Session where
  controller : Controller
  cluster : Cluster
  writeThrough : Bool
  watches : Option Watches

namespace Session

def now (s : Session) : Nat :=
  s.controller.aggregator.signals.now

/-! ### Watches -/

/-- The controller after what a watch did. The second part tells whether the store returned; if
not, the rest of it is lost. -/
def follow (c : Controller) (k : Kind) : List (Notice k.Object) → Controller × Bool
  | [] => (c, true)
  | .listed :: more => follow (c.noteListing (listPath c.settings.watchNamespace k)) k more
  | .fault :: more => follow (c.warn [.watch k]) k more
  | .step e :: more =>
    match c.observe k e with
    | (c, true) => follow c k more
    | (c, false) => (c, false)

/-- The watch of a kind goes on as far as it can. A watch whose step did not return is given up. -/
def poll (s : Session) (k : Kind) : Session :=
  match s.watches.bind (·.of k) with
  | none => s
  | some w =>
    let (stream, source, notices) := w.stream.poll w.source s.now
    let (c, returned) := follow s.controller k notices
    let stream := if returned then stream else stream.stop
    { s with controller := c, watches := s.watches.map (·.set k ⟨stream, source⟩) }

def settle (s : Session) : Session :=
  Kind.all.foldl poll s

/-- The session with the watch of a kind changed from outside. -/
def withWatch (s : Session) (k : Kind) (f : Watch k.Object → Watch k.Object) : Session :=
  match s.watches.bind (·.of k) with
  | none => s
  | some w => { s with watches := s.watches.map (·.set k (f w)) }

/-- True if the server can send lines to the watch of a kind. -/
def isOpen (s : Session) (k : Kind) : Bool :=
  (s.watches.bind (·.of k)).any fun w => w.stream.isOpen

/-! ### Time -/

def next? (s : Session) : Option Nat :=
  (s.controller.aggregator.signals.next?.toList ++ (s.watches.bind Watches.next?).toList).min?

/-- The session at a later time, when nothing is due before. -/
def moveTo (s : Session) (time : Nat) : Session :=
  let a := s.controller.aggregator
  settle { s with
    controller := { s.controller with aggregator := { a with signals := a.signals.moveTo time } } }

/-- More than the number of times at which something can be due while that many milliseconds pass:
no watch rests for less than 800 of them, and no more than one timer is started anew. -/
def wakeUps (s : Session) (millis : Nat) : Nat :=
  s.controller.aggregator.signals.timers.length + 6 * (millis / 800 + 2) + 2

def runUntil (time : Nat) : (fuel : Nat) → Session → Session
  | 0, s => s.moveTo time
  | fuel + 1, s =>
    match s.next? with
    | some t => if t ≤ time then runUntil time fuel (s.moveTo t) else s.moveTo time
    | none => s.moveTo time

def advance (s : Session) (millis : Nat) : Session :=
  runUntil (s.now + millis) (s.wakeUps millis) s

/-- The consumer goes on: the signal that it waited for is used up. -/
def take (s : Session) : Session :=
  let a := s.controller.aggregator
  { s with controller := { s.controller with aggregator := { a with signals := a.signals.take } } }

/-- The consumer waits up to a time. A signal that comes only then is too late. -/
def waitUntil (time : Nat) : (fuel : Nat) → Session → Session × Bool
  | 0, s => (s, false)
  | fuel + 1, s =>
    if s.controller.aggregator.signals.permit then (s.take, true)
    else
      match s.next? with
      | some t => if t < time then waitUntil time fuel (s.moveTo t) else (runUntil time fuel s, false)
      | none => (s.moveTo time, false)

/-- The consumer waits for a signal, but no longer than that many milliseconds. -/
def wait (s : Session) (millis : Nat) : Session × Bool :=
  waitUntil (s.now + millis) (s.wakeUps millis) s

/-! ### Calls of the API -/

def freshVersion : String :=
  "9"

/-- A written object comes back: as a line of the running watch, or straight into the lister. -/
def deliver (s : Session) (k : Kind) (o : k.Object) : Session :=
  match s.watches with
  | none =>
    { s with controller := { s.controller with listers := s.controller.listers.step k (.apply o) } }
  | some _ =>
    let o := withVersion o (version? o <|> some freshVersion)
    settle (s.withWatch k fun w => { w with stream := w.stream.send (.applied o) })

def send (s : Session) (r : Request) : Session × Except ApiFault Reply :=
  if r.isSendable then
    let (cluster, answer) := s.cluster.answer
    ({ s with controller := s.controller.noteRequest r, cluster := cluster }, answer)
  else (s, .error .request)

def write (s : Session) (k : Kind) (o : k.Object) (r : Request) : Session × Except Failure Unit :=
  match s.send r with
  | (s, .ok .echo) => (if s.writeThrough then s.deliver k o else s, .ok ())
  | (s, .ok .bare) => (s, .ok ())
  | (s, .error f) => (s, .error (.ofApi k (ClusterObject.metadata o).nameOrEmpty f))

def putSecret (s : Session) (o : Secret) : Session × Except Failure Unit :=
  let w := Write.plan s.controller.listers.secrets o
  s.write .secret w.object (.secret w)

def putConfigMap (s : Session) (o : ConfigMap) : Session × Except Failure Unit :=
  let w := Write.plan s.controller.listers.configMaps o
  s.write .configMap w.object (.configMap w)

def fetchPod (s : Session) (key : Key) : Session × Except Failure Pod :=
  let (s, answer) := s.send (.pod key)
  (s, Cluster.podOrFailure key (answer.bind (s.cluster.podOf key)))

/-- The pod of a written key: from its lister, or from the server if there is none. -/
def pod (s : Session) (text : String) : Session × Except Failure Pod :=
  match s.controller.listers.pods with
  | some l => (s, l.lookup text)
  | none =>
    match Key.require text with
    | .ok key => s.fetchPod key
    | .error f => (s, .error f)

/-- The key of the pod that the controller runs in, if the server has that pod. -/
def ownPod (s : Session) : Session × Except Failure Key :=
  match s.controller.ownPod? with
  | none => (s, .error (.malformed "missing POD_NAMESPACE or POD_NAME envvar"))
  | some key =>
    let (s, result) := s.fetchPod key
    (s, result.map fun _ => key)

/-! ### ACME state -/

def generatedMark : Bytes :=
  Bytes.ofString "GENERATED"

def AccountKey.read (b : Bytes) : Except RsaKey.Fault AccountKey :=
  if b = generatedMark then .ok .generated else (RsaKey.ofPem b).map .known

/-- The account key; one that cannot be used is replaced by a new one. -/
def accountKey (s : Session) (a : AcmeKeys) : Session × Except Failure AccountKey :=
  match a.loadAccountKey AccountKey.read s.controller.listers.secrets with
  | .ok key => (s, .ok key)
  | .error f =>
    let warnings := if f.toClass = .notFound then [] else [.accountKey f]
    let s := { s with controller := s.controller.warn warnings }
    match s.putSecret (a.accountSecret generatedMark) with
    | (s, .error f) => (s, .error f)
    | (s, .ok ()) =>
      let metrics := s.controller.metrics.recordAccountKey
      ({ s with controller := { s.controller with metrics := metrics } }, .ok .generated)

end Session

end IngressCache
