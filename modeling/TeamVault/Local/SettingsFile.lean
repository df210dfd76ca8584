import TeamVault.Local.Home
import TeamVault.Local.Settings
import TeamVault.Yaml.Value

/-!
The settings file. A file that is not valid is told as a warning and ignored; the surroundings may
set another service address.
-/
namespace TeamVault

def Yaml.Problem.failure : Yaml.Problem → Except Crash Cause
  | .malformed => .ok .notYaml
  | .badValue => .error .badValue
  | .badTimestamp => .error .missingAttribute
  | .badTruth => .error .missingKey

def Yaml.tellUndecodable (keys : List String) (e : FieldError) : FieldError :=
  match e with
  | ⟨[.key k], .notText⟩ => ⟨[.key k], if k ∈ keys then .textUndecodable else .notText⟩
  | e => e

def Yaml.record {α : Type} (notText : List String) (ofFields : Json.Fields → Checked α)
    (s : String) : Except Crash (Except Cause α) :=
  match Yaml.Value.ofText s with
  | .error p => p.failure.map .error
  | .ok v => match v.fields? notText with
    | none => .ok (.error .shape)
    | some fs => match ofFields fs with
      | .fits a => .ok (.ok a)
      | .fails errors =>
        .ok (.error (.fields (errors.map (Yaml.tellUndecodable v.undecodableKeys))))

namespace SettingsFile

def fileName : String := "config.yaml"

def decode (s : String) : Except Crash (Except Cause ClientSettings) :=
  Yaml.record ["age_key_file"] ClientSettings.ofFields s

def withSurroundings (url : Option String) (s : ClientSettings) : ClientSettings :=
  match url with
  | some u => if u = "" then s else { s with apiUrl := u }
  | none => s

def load (home : Option Path) : Action ClientSettings := do
  let p := (← Local.home home).child fileName
  let settings ← if ← Files.isThere p then do
      match decode (← Files.readText p) with
      | .ok (.ok s) => pure s
      | .ok (.error _) => do
        Action.warn ("Failed to load client settings: " ++ Cause.mark)
        pure ClientSettings.default
      | .error c => Action.crash c
    else pure ClientSettings.default
  return withSurroundings (← Action.host).serviceUrl settings

end SettingsFile

end TeamVault
