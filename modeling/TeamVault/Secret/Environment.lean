import TeamVault.Path

/-! Deployment environments and the plaintext formats that the encryption tool understands. -/
namespace TeamVault

inductive Environment
  | development
  | staging
  | production
  deriving DecidableEq

namespace Environment

def name : Environment → String
  | development => "development"
  | staging => "staging"
  | production => "production"

def all : List Environment := [development, staging, production]

def ofName? (s : String) : Option Environment := all.find? (·.name = s)

theorem ofName?_name (e : Environment) : ofName? e.name = some e := by cases e <;> decide

def defaultFile (e : Environment) : Path := Path.ofText (".env." ++ e.name)

end Environment

inductive SecretFormat
  | dotenv
  | json
  | yaml
  deriving DecidableEq

namespace SecretFormat

def name : SecretFormat → String
  | dotenv => "dotenv"
  | json => "json"
  | yaml => "yaml"

def all : List SecretFormat := [dotenv, json, yaml]

def ofName? (s : String) : Option SecretFormat := all.find? (·.name = s)

theorem ofName?_name (f : SecretFormat) : ofName? f.name = some f := by cases f <;> decide

end SecretFormat

end TeamVault
