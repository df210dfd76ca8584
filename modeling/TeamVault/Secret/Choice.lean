import TeamVault.Secret.Environment
import TeamVault.Fault

/-! Environments and formats as a caller names them. Null and the empty text name nothing. -/
namespace TeamVault

def isUnnamed : Json → Bool
  | .null => true
  | .text s => s = ""
  | _ => false

def nameOf? : Json → Option String
  | .text s => some s
  | _ => none

def allowed (what : String) (names : List String) : Fault :=
  .of .usage (what ++ " must be one of: " ++ ", ".intercalate names)

def Environment.choose (given : Json) (fallback : Option Environment) :
    Except Fault Environment :=
  if isUnnamed given then
    match fallback with
    | some e => .ok e
    | none => .error (.of .usage "An environment is required.")
  else match (nameOf? given).bind Environment.ofName? with
    | some e => .ok e
    | none => .error (allowed "env" (Environment.all.map Environment.name))

def SecretFormat.choose (given : Json) : Except Fault SecretFormat :=
  if isUnnamed given then .ok .dotenv
  else match (nameOf? given).bind SecretFormat.ofName? with
    | some f => .ok f
    | none => .error (allowed "format" (SecretFormat.all.map SecretFormat.name))

end TeamVault
