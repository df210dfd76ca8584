import TeamVault.Path
import TeamVault.Checked.Field

/-! Settings of the client on one machine. -/
namespace TeamVault

structure ClientSettings where
  apiUrl : String
  timeout : Binary64
  sopsBinary : String
  keyFile : Path
  deriving DecidableEq

namespace ClientSettings

def default : ClientSettings :=
  { apiUrl := "https://api.envv.sh"
    timeout := .ofInt 30
    sopsBinary := "sops"
    keyFile := .ofText "~/.config/sops/age/keys.txt" }

def timeoutCheck (v : Json) : Checked Binary64 :=
  Checked.andThen (Checked.number v) fun x =>
    if x.isPositive then .fits x else Checked.reject .notAbove

def pathCheck : Json → Checked Path
  | .text s => .fits (.ofText s)
  | _ => Checked.reject .notPath

def ofFields (fields : Json.Fields) : Checked ClientSettings :=
  ClientSettings.mk
    <$> Checked.withDefault fields "api_url" default.apiUrl Checked.text
    <*> Checked.withDefault fields "timeout_seconds" default.timeout timeoutCheck
    <*> Checked.withDefault fields "sops_binary" default.sopsBinary Checked.text
    <*> Checked.withDefault fields "age_key_file" default.keyFile pathCheck

end ClientSettings

end TeamVault
