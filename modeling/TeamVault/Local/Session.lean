import TeamVault.Fault
import TeamVault.Checked.Field

/-! The credentials of a user on one machine. -/
namespace TeamVault

structure Session where
  token : Json.Letters
  user : Json.Letters
  address : Option Json.Letters
  expiresAt : Option Timestamp
  deriving DecidableEq

namespace Session

def accessToken (s : Session) : String := s.token.shown

def userId (s : Session) : String := s.user.shown

def email (s : Session) : Option String := s.address.map Json.Letters.shown

def ofFields (fields : Json.Fields) : Checked Session :=
  Session.mk
    <$> Checked.required fields "access_token" Checked.letters
    <*> Checked.required fields "user_id" Checked.letters
    <*> Checked.withDefault fields "email" none (Checked.nullable Checked.letters)
    <*> Checked.withDefault fields "expires_at" none (Checked.nullable Checked.timestamp)

/-- A session is over at the instant of its expiry. A time without an offset denotes no instant to
compare that with. -/
def isExpired (s : Session) (now : Timestamp) : Except Crash Bool :=
  match s.expiresAt with
  | none => .ok false
  | some expiry =>
    if now.offset.isNone then .error .shape else .ok (decide (expiry.instant ≤ now.instant))

def fields (s : Session) : Json.Fields :=
  [("access_token", s.token.toJson), ("user_id", s.user.toJson),
    ("email", (s.address.map Json.Letters.toJson).getD .null),
    ("expires_at", (s.expiresAt.map fun t => Json.text t.storedText).getD .null)]

def isWhole (s : Session) : Bool :=
  s.token.isWhole && s.user.isWhole && s.address.all Json.Letters.isWhole

def storedText (s : Session) : String := Json.indented s.fields

/-- The text of a session in a file, which takes no half of a surrogate pair. -/
def text? (s : Session) : Option String := if s.isWhole then some s.storedText else none

end Session

end TeamVault
