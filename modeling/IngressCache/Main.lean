import IngressCache.Settings.Variables

/-!
# Command line

Loads the settings of the controller, from the document that a variable names or from variables
alone, and prints them as a document. Settings that cannot be loaded are reported.
-/

namespace IngressCache.Settings

def documentVariable : String :=
  "HAUL_CONFIG_FILE"

def variableNames : List String :=
  ["HAUL_INGRESS_CLASS", "HAUL_WATCH_INGRESS_WITHOUT_CLASS", "HAUL_WATCH_NAMESPACE",
    "HAUL_ALLOW_CROSS_NAMESPACE", "HAUL_CONFIGMAP", "HAUL_TCP_SERVICES_CONFIGMAP",
    "HAUL_DISABLE_POD_LIST", "HAUL_CERT_DIR", "POD_NAMESPACE", "POD_NAME",
    "HAUL_METRICS_BIND_ADDR", "HAUL_WAIT_BEFORE_UPDATE_MS", "HAUL_RESYNC_PERIOD_SECS",
    "HAUL_ACME_SECRET_KEY_NAME", "HAUL_ACME_TOKEN_CONFIGMAP_NAME"]

def environment : IO Variables := do
  let values ← variableNames.mapM fun name => return (name, ← IO.getEnv name)
  return fun name => (values.lookup name).join

def load : IO (Except Fault Settings) := do
  let given ← environment
  match ← IO.getEnv documentVariable with
  | some path => return ofDocument (← IO.FS.readFile path) given
  | none => return ofVariables given

end IngressCache.Settings

def main : IO UInt32 := do
  match ← IngressCache.Settings.load with
  | .ok settings =>
    IO.println settings.toJson.toText
    return 0
  | .error fault =>
    IO.eprintln ("Invalid configuration: " ++ fault.message)
    return 1
