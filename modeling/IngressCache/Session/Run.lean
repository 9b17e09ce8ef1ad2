import IngressCache.Session.Basic

/-!
# Running sessions

The start of a session and its steps. Each step gives an answer and the record of what else
happened; afterwards the watches have nothing left to do before time passes.
-/

namespace IngressCache.Session

/-! ### Start -/

inductive StoreChoice
  | files
  | observer (breaks : StoreCall → Bool)

structure Setup where
  settings : Settings
  /-- The namespace of the controller as far as ACME state is concerned. -/
  acmeNamespace : Option String
  store : StoreChoice
  occupied : Option String
  writeThrough : Bool
  pods : List Pod
  watches : Option Watches

def pathNames (path : String) : List String :=
  (path.toList.splitOn '/').map String.ofList |>.filter fun name => name ≠ "" && name ≠ "."

/-- Why a directory cannot be made below a place where one file is. -/
def directoryFault? (occupied : Option String) (path : String) : Option IoFault :=
  match pathNames path with
  | [] => none
  | first :: more =>
    if occupied = some first then some (if more.isEmpty then .fileExists else .notADirectory)
    else if (first :: more).any fun name => Directory.maxNameSize < name.utf8ByteSize then
      some .nameTooLong
    else none

def openStore (setup : Setup) : Except Failure SecretStore :=
  match setup.store with
  | .observer breaks => .ok (.observer breaks)
  | .files =>
    match directoryFault? setup.occupied setup.settings.certDir with
    | some f => .error (.io f)
    | none => .ok (.files .empty)

/-- The session before its first step, when the watches have begun. -/
def start (setup : Setup) : Except Failure Session := do
  let store ← openStore setup
  let acme := Settings.acmeKeys { setup.settings with podNamespace := setup.acmeNamespace }
  return settle
    ⟨.start setup.settings acme store, ⟨[], setup.pods⟩, setup.writeThrough, setup.watches⟩

/-! ### Tampering -/

def foreignMode : Nat := 0o644

def tamper (d : Directory) (file : String) : Tampering → Option Directory
  | .remove => (d.remove file).toOption
  | .overwrite =>
    let content := Bytes.ofString "tampered"
    match d.nameFault? file, d.get? file with
    | some _, _ | _, some .folder => none
    | none, some (.file _ mode) => some (d.insert file (.file content mode))
    | none, none => some (d.insert file (.file content foreignMode))
  | .toFolder =>
    match d.nameFault? file, d.get? file with
    | some _, _ | _, some .folder => none
    | none, _ => some (d.insert file .folder)
  | .removeFolder =>
    match d.get? file with
    | some .folder => some (d.erase file)
    | _ => none

def directoryOf : SecretStore → Directory
  | .files s => s.directory
  | .observer _ => .empty

/-! ### Steps -/

def search (c : Controller) : Search → Answer
  | .ingress key =>
    .ofResult (.object .ingress) (c.classFilter.ingress c.listers.ingresses key)
  | .ingresses => .objects .ingress (c.classFilter.ingresses c.listers.ingresses)
  | .service key => .ofResult (.object .service) (c.listers.services.lookup key)
  | .secret key => .ofResult (.object .secret) (c.listers.secrets.lookup key)
  | .configMap key => .ofResult (.object .configMap) (c.listers.configMaps.lookup key)
  | .endpoints s => .ofResult (.object .endpoints) (s.endpoints c.listers.endpoints)

def supply (s : Session) : Supply → Session × Answer
  | .setList k objects =>
    (s.withWatch k fun w => { w with source := { w.source with objects := objects } }, .done)
  | .failLists k times =>
    (s.withWatch k fun w => { w with source := { w.source with failures := times } }, .done)
  | .line k l =>
    (settle (s.withWatch k fun w => { w with stream := w.stream.send l }), .flag (s.isOpen k))
  | .close k =>
    (settle (s.withWatch k fun w => { w with stream := w.stream.close }), .flag (s.isOpen k))

def acmeStep (s : Session) (a : AcmeKeys) : AcmeStep → Session × Answer
  | .accountKey =>
    let (s, result) := s.accountKey a
    (s, .ofResult .accountKey result)
  | .setToken domain uri token =>
    let map := a.withToken s.controller.listers.configMaps domain uri token
    let (s, result) := s.putConfigMap map
    (s, .ofResult (fun _ => .done) result)
  | .token domain uri => (s, .text (a.token s.controller.listers.configMaps domain uri))
  | .issued name => (s, .ofResult .issued (a.issued s.controller.listers.secrets name))
  | .setIssued name certificate privateKey =>
    match a.certificateSecret name certificate privateKey with
    | .error f => (s, .failed f)
    | .ok secret =>
      let (s, result) := s.putSecret secret
      (s, .ofResult (fun _ => .done) result)

def answer (s : Session) (step : Step) : Session × Answer :=
  let c := s.controller
  let done (c : Controller) (a : Answer) : Session × Answer := ({ s with controller := c }, a)
  match step with
  | .lister k e => done { c with listers := c.listers.step k e } .done
  | .listed k =>
    done c (match c.listers.of k with
      | some l => .objects k l.toList
      | none => .done)
  | .notify e =>
    let (c, returned) := c.notify e
    done c (if returned then .done else .broken)
  | .publish =>
    let (c, snapshot) := c.publish
    done c (.snapshot snapshot)
  | .needFullSync =>
    let (c, b) := c.needFullSync
    done c (.flag b)
  | .isTracked m => done c (.flag (c.aggregator.tracked.tracks (objectKey m)))
  | .advance millis =>
    let s := s.advance millis
    (s, .signals s.controller.aggregator.signals.sent.length)
  | .wait millis =>
    let (s, b) := s.wait millis
    (s, .flag b)
  | .certificate key =>
    let (store, result) := c.store.certificate c.listers.secrets key
    done { c with store := store } (.ofResult .material result)
  | .storeCall call =>
    let (c, returned) := c.callStore call
    done c (if returned then .done else .broken)
  | .dhParameters name content =>
    let (store, result) := c.store.addDhParameters name content
    done { c with store := store } (.ofResult .file result)
  | .files => done c (.directory (directoryOf c.store))
  | .tamper file how =>
    match c.store with
    | .files store =>
      match tamper store.directory file how with
      | some d => done { c with store := .files { store with directory := d } } (.flag true)
      | none => done c (.flag false)
    | .observer _ => done c (.flag false)
  | .tls q =>
    let (c, result) := c.tls q
    done c (.ofResult .bundle result)
  | .ca q =>
    let (c, result) := c.ca q
    done c (.ofResult (fun (ca, crl) => .authorities ca crl) result)
  | .dh q =>
    let (c, result) := c.dh q
    done c (.ofResult .file result)
  | .content q name =>
    let (c, result) := c.content q name
    done c (.ofResult .bytes result)
  | .search x => done c (search c x)
  | .pod key =>
    let (s, result) := s.pod key
    (s, .ofResult (.object .pod) result)
  | .ownPod =>
    let (s, result) := s.ownPod
    (s, .ofResult .key result)
  | .terminating service target =>
    let (c, result) := c.terminatingPods service target
    done c (.ofResult (.objects .pod) result)
  | .putSecret o =>
    let (s, result) := s.putSecret o
    (s, .ofResult (fun _ => .done) result)
  | .putConfigMap o =>
    let (s, result) := s.putConfigMap o
    (s, .ofResult (fun _ => .done) result)
  | .edges target => done c (.edges (c.tracker.edges target))
  | .targetsFor kind id => done c (.targets (c.tracker.targetsFor kind id))
  | .clearTarget target =>
    let tracker := c.tracker.clearTarget target
    done { c with tracker := tracker } (.count tracker.size)
  | .edgeCount => done c (.edgeCount c.tracker.size)
  | .acme x =>
    match c.acme with
    | .error f => (s, .badKey f)
    | .ok a => s.acmeStep a x
  | .disturb d =>
    ({ s with cluster := { s.cluster with disturbances := s.cluster.disturbances ++ [d] } }, .done)
  | .supply x => s.supply x
  | .metrics => done c (.metrics c.metrics)

/-- The record since it was last read, and the session with an empty record. -/
def takeRecord (s : Session) : Session × Record :=
  ({ s with controller := { s.controller with record := .empty } }, s.controller.record)

structure Entry where
  answer : Answer
  record : Record

def step (s : Session) (x : Step) : Session × Entry :=
  let (s, a) := s.answer x
  let (s, record) := s.takeRecord
  (s, ⟨a, record⟩)

def steps (s : Session) : List Step → List Entry
  | [] => []
  | x :: xs =>
    let (s, entry) := s.step x
    entry :: s.steps xs

/-- What a whole session brings: first the record of the watches' beginning, then the steps. -/
def run (setup : Setup) (xs : List Step) : Except Failure (Record × List Entry) := do
  let s ← start setup
  let (s, record) := s.takeRecord
  return (record, s.steps xs)

end IngressCache.Session
