import Courier.Settings.Basic

/-!
# Where settings and data are kept

Directories follow the environment: a variable that is set is used even if it is empty. Without any
of them everything lies under `/tmp`.
-/

namespace Courier

/-- The value of each environment variable that is set. -/
abbrev Environment := String → Option String

namespace Environment

/-- The home directory. -/
def home (env : Environment) : String := (env "HOME").getD "/tmp"

/-- The directory of the settings. -/
def configDir (env : Environment) : String :=
  Path.join ((env "XDG_CONFIG_HOME").getD (Path.join env.home ".config")) "sluice"

/-- The directory of the data. -/
def dataDir (env : Environment) : String :=
  Path.join ((env "XDG_DATA_HOME").getD (Path.join (Path.join env.home ".local") "share")) "sluice"

/-- The file of the settings. -/
def settingsFile (env : Environment) : String :=
  (env "SLUICE_CONFIG").getD (Path.join env.configDir "config.toml")

end Environment

/-- The settings that hold in an environment where none are given. -/
def Settings.default (env : Environment) : Settings where
  transport := {}
  cache := { dir := Path.join env.dataDir "envelopes" }

end Courier
