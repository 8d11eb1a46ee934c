import Containers.Go.Text
import Containers.Remote.HostManager

/-!
# The configuration of remote distribution, from the environment

`pkg/envconfig`: the variables `CONTAINERS_REMOTE_…` are read into a `DistributionConfig`, with a
default for each that is not set (`buildFromEnv`), the result and the variables themselves are
checked (`validateEnv`), and the hosts are turned into those that a host manager registers
(`DistributionConfig.toRemoteHosts`). The hosts are numbered from 1, and the first number without a
name ends them.

The environment is what `os.Getenv` answers: the empty text for a variable that is not set. Every
complaint is modelled with its text; `validateEnv` collects them all, so a configuration is accepted
when there is none.
-/

namespace Containers.EnvConfig

open Go Remote List

/-- What `os.Getenv` answers. -/
abbrev Env := String → String

def envPrefix : String := "CONTAINERS_REMOTE_"

/-! ### Types -/

/-- A host of the configuration. -/
structure RemoteEndpointConfig where
  name : String
  address : String := ""
  port : ℤ := 0
  user : String := ""
  keyPath : String := ""
  password : String := ""
  runtime : String := ""
  labels : Labels := ∅

/-- The configuration. -/
structure DistributionConfig where
  enabled : Bool
  defaultUser : String
  defaultKeyPath : String
  defaultPassword : String
  defaultRuntime : String
  scheduler : String
  portRangeStart : ℤ
  portRangeEnd : ℤ
  volumeType : String
  connectTimeout : ℤ
  commandTimeout : ℤ
  controlMasterEnabled : Bool
  controlPersist : ℤ
  maxConnections : ℤ
  hosts : List RemoteEndpointConfig

/-- How a host is logged in to. -/
inductive AuthMethod where
  | sshKey
  | password
  deriving DecidableEq, Repr

/-- A host as `ToRemoteHosts` makes it: what a registry keeps of it, and its credentials. -/
structure Endpoint extends RemoteHost where
  keyPath : String := ""
  password : String := ""
  auth : AuthMethod := .sshKey

/-! ### Reading -/

section Reading

variable (L : Casing) (env : Env)

/-- `parseBoolExtended`; none, if the text is no boolean. -/
def parseBoolExtended (raw : String) : Option Bool :=
  let word := String.ofList (L.toLower (trimSpace raw.toList))
  if word ∈ ["1", "t", "true", "yes", "y", "on", "enabled"] then some true
  else if word ∈ ["0", "f", "false", "no", "n", "off", "disabled"] then some false
  else none

/-- `envString`. -/
def envString (key fallback : String) : String := if env key ≠ "" then env key else fallback

/-- `envInt`. -/
def envInt (key : String) (fallback : ℤ) : ℤ :=
  if env key ≠ "" then (atoi (env key).toList).getD fallback else fallback

/-- `envBool`. -/
def envBool (key : String) (fallback : Bool) : Bool :=
  if env key ≠ "" then (parseBoolExtended L (env key)).getD fallback else fallback

/-- One `key=value` of a list of labels; what has no `=` or an empty key is passed over. -/
def addLabel (labels : Labels) (pair : List Char) : Labels :=
  let parts := (trimSpace pair).span (· ≠ '=')
  match parts.2 with
  | [] => labels
  | _ :: value =>
    let key := trimSpace parts.1
    if key = [] then labels
    else labels.insert (String.ofList key) (String.ofList (trimSpace value))

/-- `parseLabels`. -/
def parseLabels (raw : String) : Labels :=
  if raw = "" then ∅ else (raw.toList.splitOn ',').foldl addLabel ∅

/-- A variable of host `n`. -/
def hostKey (n : ℕ) (field : String) : String :=
  envPrefix ++ "HOST_" ++ toString n ++ "_" ++ field

/-- The configuration of host `n`. -/
def readHost (n : ℕ) : RemoteEndpointConfig :=
  let labels := parseLabels (envString env (hostKey n "LABELS") "")
  let autoprobe := env (hostKey n "GPU_AUTOPROBE")
  { name := envString env (hostKey n "NAME") ""
    address := envString env (hostKey n "ADDRESS") ""
    port := envInt env (hostKey n "PORT") 0
    user := envString env (hostKey n "USER") ""
    keyPath := envString env (hostKey n "KEY") ""
    password := envString env (hostKey n "PASSWORD") ""
    runtime := envString env (hostKey n "RUNTIME") ""
    labels := if autoprobe ≠ "" then labels.insert "gpu_autoprobe" autoprobe else labels }

/-- The numbers of the hosts: those from `n` on, at most so many, up to the first without a name. -/
def hostNumbers : ℕ → ℕ → List ℕ
  | 0, _ => []
  | k + 1, n => if env (hostKey n "NAME") = "" then [] else n :: hostNumbers k (n + 1)

/-- **`buildFromEnv`**: every value that is set and can be read, and the default for the others. -/
def buildFromEnv : DistributionConfig where
  enabled := envBool L env (envPrefix ++ "ENABLED") false
  defaultUser := envString env (envPrefix ++ "DEFAULT_SSH_USER") ""
  defaultKeyPath := envString env (envPrefix ++ "DEFAULT_SSH_KEY") ""
  defaultPassword := envString env (envPrefix ++ "DEFAULT_SSH_PASSWORD") ""
  defaultRuntime := envString env (envPrefix ++ "DEFAULT_RUNTIME") "docker"
  scheduler := envString env (envPrefix ++ "SCHEDULER") "resource_aware"
  portRangeStart := envInt env (envPrefix ++ "PORT_RANGE_START") 20000
  portRangeEnd := envInt env (envPrefix ++ "PORT_RANGE_END") 30000
  volumeType := envString env (envPrefix ++ "VOLUME_TYPE") "sshfs"
  connectTimeout := envInt env (envPrefix ++ "CONNECT_TIMEOUT") 10
  commandTimeout := envInt env (envPrefix ++ "COMMAND_TIMEOUT") 1800
  controlMasterEnabled := envBool L env (envPrefix ++ "SSH_CONTROL_MASTER") true
  controlPersist := envInt env (envPrefix ++ "SSH_CONTROL_PERSIST") 300
  maxConnections := envInt env (envPrefix ++ "SSH_MAX_CONNECTIONS") 10
  hosts := (hostNumbers env 100 1).map (readHost env)

/-! ### Checking -/

def complainIf (c : Prop) [Decidable c] (text : String) : List String := if c then [text] else []

/-- The complaint about a variable that is set and is no boolean. -/
def boolComplaint (k : String) : List String :=
  complainIf (env k ≠ "" ∧ parseBoolExtended L (env k) = none)
    (k ++ ": invalid boolean " ++ quoted (env k) ++ " (want true/false/yes/no/on/off/1/0)")

/-- The complaint about a variable that is set and is no integer. -/
def intComplaint (k : String) : List String :=
  complainIf (env k ≠ "" ∧ atoi (env k).toList = none)
    (k ++ ": invalid integer " ++ quoted (env k))

/-- The complaints about the values that the configuration has. -/
def rangeComplaints (cfg : DistributionConfig) : List String :=
  complainIf (cfg.connectTimeout ≤ 0)
      (envPrefix ++ "CONNECT_TIMEOUT: must be > 0, got " ++ toString cfg.connectTimeout) ++
    complainIf (cfg.commandTimeout ≤ 0)
      (envPrefix ++ "COMMAND_TIMEOUT: must be > 0, got " ++ toString cfg.commandTimeout) ++
    complainIf (cfg.controlPersist < 0)
      (envPrefix ++ "SSH_CONTROL_PERSIST: must be >= 0, got " ++ toString cfg.controlPersist) ++
    complainIf (cfg.maxConnections < 1)
      (envPrefix ++ "SSH_MAX_CONNECTIONS: must be >= 1, got " ++ toString cfg.maxConnections) ++
    complainIf (cfg.portRangeStart < 1 ∨ 65535 < cfg.portRangeStart)
      (envPrefix ++ "PORT_RANGE_START: out of range 1-65535, got " ++
        toString cfg.portRangeStart) ++
    complainIf (cfg.portRangeEnd < 1 ∨ 65535 < cfg.portRangeEnd)
      (envPrefix ++ "PORT_RANGE_END: out of range 1-65535, got " ++ toString cfg.portRangeEnd) ++
    complainIf (cfg.portRangeEnd < cfg.portRangeStart)
      (envPrefix ++ "PORT_RANGE_START (" ++ toString cfg.portRangeStart ++ ") must be <= " ++
        envPrefix ++ "PORT_RANGE_END (" ++ toString cfg.portRangeEnd ++ ")")

def hostNote (n : ℕ) : String :=
  "host " ++ toString n ++ " " ++ quoted (env (hostKey n "NAME"))

def portComplaint (n : ℕ) : List String :=
  if env (hostKey n "PORT") = "" then []
  else match atoi (env (hostKey n "PORT")).toList with
    | none =>
      [hostKey n "PORT" ++ ": invalid integer " ++ quoted (env (hostKey n "PORT")) ++
        " (" ++ hostNote env n ++ ")"]
    | some p => complainIf (p < 1 ∨ 65535 < p)
        (hostKey n "PORT" ++ ": out of range 1-65535, got " ++ toString p ++
          " (" ++ hostNote env n ++ ")")

/-- The complaints about host `n`. -/
def hostComplaints (n : ℕ) : List String :=
  complainIf (trimSpace (env (hostKey n "ADDRESS")).toList = [])
      (hostKey n "ADDRESS" ++ ": required (" ++ hostNote env n ++ " has no address)") ++
    portComplaint env n

/-- All complaints, in the order in which they are found. -/
def complaints (cfg : DistributionConfig) : List String :=
  [envPrefix ++ "ENABLED", envPrefix ++ "SSH_CONTROL_MASTER"].flatMap (boolComplaint L env) ++
    [envPrefix ++ "PORT_RANGE_START", envPrefix ++ "PORT_RANGE_END",
      envPrefix ++ "CONNECT_TIMEOUT", envPrefix ++ "COMMAND_TIMEOUT",
      envPrefix ++ "SSH_CONTROL_PERSIST", envPrefix ++ "SSH_MAX_CONNECTIONS"].flatMap
        (intComplaint env) ++
    rangeComplaints cfg ++
    (hostNumbers env 100 1).flatMap (hostComplaints env)

/-- **`validateEnv`**: one error with all the complaints, if there is any. -/
def validateEnv (cfg : DistributionConfig) : Option String :=
  if complaints L env cfg = [] then none
  else some ("envconfig: " ++ String.intercalate "; " (complaints L env cfg))

/-- **`Parse`**. -/
def parse : Except String DistributionConfig :=
  match validateEnv L env (buildFromEnv L env) with
  | some err => .error err
  | none => .ok (buildFromEnv L env)

end Reading

/-! ### Conversion -/

def orDefault (s fallback : String) : String := if s = "" then fallback else s

def DistributionConfig.toRemoteHost (c : DistributionConfig) (h : RemoteEndpointConfig) :
    Endpoint where
  name := h.name
  address := h.address
  port := if h.port = 0 then 22 else h.port
  user := orDefault h.user c.defaultUser
  keyPath := orDefault h.keyPath c.defaultKeyPath
  password := orDefault h.password c.defaultPassword
  runtime := orDefault h.runtime c.defaultRuntime
  labels := h.labels
  auth := if orDefault h.password c.defaultPassword ≠ "" then .password else .sshKey

/-- **`ToRemoteHosts`**. -/
def DistributionConfig.toRemoteHosts (c : DistributionConfig) : List Endpoint :=
  c.hosts.map c.toRemoteHost

/-! ### What an accepted configuration is -/

section Accepted

variable {L : Casing} {env : Env} {cfg : DistributionConfig}

theorem complainIf_eq_nil {c : Prop} [Decidable c] {text : String} :
    complainIf c text = [] ↔ ¬ c := by
  by_cases h : c
  · rw [complainIf, if_pos h]
    exact iff_of_false (cons_ne_nil _ _) (not_not.mpr h)
  · rw [complainIf, if_neg h]
    exact iff_of_true rfl h

/-- **What `Parse` accepts** is what was built, and there is nothing to complain of. -/
theorem parse_eq_ok :
    parse L env = .ok cfg ↔ cfg = buildFromEnv L env ∧ complaints L env cfg = [] := by
  by_cases hnone : complaints L env (buildFromEnv L env) = []
  · rw [parse, validateEnv, if_pos hnone]
    refine ⟨fun h => ?_, fun h => ?_⟩
    · cases h
      exact ⟨rfl, hnone⟩
    · rw [h.1]
  · rw [parse, validateEnv, if_neg hnone]
    refine ⟨fun h => ?_, fun h => absurd (h.1 ▸ h.2) hnone⟩
    cases h

theorem envString_of_ne {key fallback : String} (h : env key ≠ "") :
    envString env key fallback = env key := if_pos h

theorem name_of_mem_hostNumbers {k n m : ℕ} (h : m ∈ hostNumbers env k n) :
    env (hostKey m "NAME") ≠ "" := by
  induction k generalizing n with
  | zero => cases h
  | succ k ih =>
    rw [hostNumbers] at h
    split_ifs at h with hname
    · cases h
    · rcases mem_cons.mp h with rfl | h
      · exact hname
      · exact ih h

/-- **The port range** of an accepted configuration. -/
theorem portRange_of_parse (h : parse L env = .ok cfg) :
    1 ≤ cfg.portRangeStart ∧ cfg.portRangeStart ≤ cfg.portRangeEnd ∧ cfg.portRangeEnd ≤ 65535 := by
  obtain ⟨-, hnone⟩ := parse_eq_ok.mp h
  simp only [complaints, rangeComplaints, append_eq_nil_iff, complainIf_eq_nil] at hnone
  omega

/-- **A host of an accepted configuration** has a name and an address. -/
theorem host_of_parse (h : parse L env = .ok cfg) {host : RemoteEndpointConfig}
    (hmem : host ∈ cfg.hosts) : host.name ≠ "" ∧ host.address ≠ "" := by
  obtain ⟨rfl, hnone⟩ := parse_eq_ok.mp h
  obtain ⟨n, hn, rfl⟩ := mem_map.mp hmem
  have hname := name_of_mem_hostNumbers hn
  simp only [complaints, append_eq_nil_iff, flatMap_eq_nil_iff] at hnone
  have hhost := hnone.2 n hn
  rw [hostComplaints, append_eq_nil_iff, complainIf_eq_nil] at hhost
  have haddress : env (hostKey n "ADDRESS") ≠ "" := by
    intro hempty
    apply hhost.1
    rw [hempty]
    rfl
  constructor
  · exact (envString_of_ne hname).trans_ne hname
  · exact (envString_of_ne haddress).trans_ne haddress

end Accepted

end Containers.EnvConfig
