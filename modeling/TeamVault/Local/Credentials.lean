import TeamVault.Local.Home
import TeamVault.Local.Session

/-!
The session that is kept on a machine. The file holds one session or is not there; it is private,
and an expired session is not handed out.
-/
namespace TeamVault.Credentials

def fileName : String := "credentials.json"

def path (home : Option Path) : Action Path := do return (← Local.home home).child fileName

def corrupted (cause : Cause) : Fault :=
  .because .auth "Corrupted credentials file: " cause

def decode (s : String) : Except Failure Session :=
  match Json.ofText s with
  | .error .malformed => .error (.fault (corrupted .notJson))
  | .error .tooLong => .error (.crash .badValue)
  | .ok (.object fs) => match Session.ofFields fs with
    | .fits session => .ok session
    | .fails errors => .error (.fault (corrupted (.fields errors)))
  | .ok _ => .error (.fault (corrupted .shape))

def load (home : Option Path) : Action Session := do
  let p ← path home
  if ← Files.isThere p then
    let text ← Files.readText p
    match decode text with
    | .error f => Action.fail f
    | .ok session =>
      match session.isExpired (← Action.host).now with
      | .ok false => return session
      | .ok true => Action.raise (.of .auth "Session expired.")
      | .error c => Action.crash c
  else Action.raise (.of .auth "Not logged in.")

def prepare (home : Option Path) : Action Path := do
  let directory ← Local.home home
  Files.makeDirectories directory
  Files.setMode directory 0o700
  let p := directory.child fileName
  Files.writePrivate p []
  return p

/-- The file is emptied before the text of the session is made. -/
def save (session : Session) (home : Option Path) : Action Path := do
  let p ← prepare home
  match session.text? with
  | some text =>
    Files.writePrivate p (Text.Utf8.encode text)
    return p
  | none => Action.crash .unwritable

def clear (home : Option Path) : Action Bool := do
  let p ← path home
  if ← Files.isThere p then
    Files.removeFile p
    return true
  else return false

end TeamVault.Credentials
