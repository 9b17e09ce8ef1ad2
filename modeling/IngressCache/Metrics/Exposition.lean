import IngressCache.Metrics.Basic

/-!
# The text form of the counters

For each counter two comment lines and a line for each series. Counters are ordered by name,
labels by name, and series by their label values in that order.
-/

namespace IngressCache.Metrics

/-- A counter with its name, description, label names and series. -/
structure Family where
  name : String
  help : String
  labels : List String
  series : Counter

/-- The counters, ordered by name. A counter without labels has one series. -/
def families (m : Metrics) : List Family :=
  [⟨"haul_acme_account_keys_generated_total", "Total number of ACME account keys generated", [],
      [⟨[], m.accountKeys⟩]⟩,
    ⟨"haul_cache_events_total", "Total number of watch events ingested by the change cache",
      ["kind", "action"], m.events⟩,
    ⟨"haul_cache_published_changes_total", "Total number of change descriptors published", [],
      [⟨[], m.publishedChanges⟩]⟩,
    ⟨"haul_cache_publishes_total", "Total number of change snapshots published", ["sync"],
      m.publishes⟩,
    ⟨"haul_resolver_lookups_total", "Total number of secret material lookups",
      ["lookup", "result"], m.lookups⟩]

def escape (c : Char) : List Char :=
  match c with
  | '\\' => ['\\', '\\']
  | '"' => ['\\', '"']
  | '\n' => ['\\', 'n']
  | c => [c]

def labelText (name value : String) : String :=
  name ++ "=\"" ++ String.ofList (value.toList.flatMap escape) ++ "\""

/-- The labels of a series with their values, ordered by name. -/
def Family.pairs (f : Family) (s : Series) : List (String × String) :=
  (f.labels.zip s.values).mergeSort fun a b => a.1 ≤ b.1

def Family.sampleName (f : Family) (s : Series) : String :=
  match f.pairs s with
  | [] => f.name
  | pairs =>
    f.name ++ "\x7b" ++ ",".intercalate (pairs.map fun (n, v) => labelText n v) ++ "\x7d"

/-- The order of lists of label values: the first difference decides. -/
def valuesLe : List String → List String → Bool
  | [], _ => true
  | _, [] => false
  | a :: as, b :: bs => a < b || (a == b && valuesLe as bs)

/-- The series of a counter that were counted at all, ordered by their label values. -/
def Family.samples (f : Family) : List (String × Nat) :=
  let shown := (f.series.filter (0 < ·.count)).mergeSort fun s t =>
    valuesLe ((f.pairs s).map Prod.snd) ((f.pairs t).map Prod.snd)
  shown.map fun s => (f.sampleName s, s.count)

def Family.comments (f : Family) : List String :=
  [s!"# HELP {f.name} {f.help}", s!"# TYPE {f.name} counter"]

def samples (m : Metrics) : List (String × Nat) :=
  m.families.flatMap Family.samples

def comments (m : Metrics) : List String :=
  m.families.flatMap Family.comments

def lines (m : Metrics) : List String :=
  m.families.flatMap fun f => f.comments ++ f.samples.map fun (n, v) => s!"{n} {v}"

def exposition (m : Metrics) : String :=
  m.lines.foldl (fun text line => text ++ line ++ "\n") ""

end IngressCache.Metrics
