/-! What members may do: roles in an organization and permissions on a project. -/
namespace TeamVault

inductive MemberRole
  | owner
  | admin
  | member
  deriving DecidableEq

namespace MemberRole

def name : MemberRole → String
  | owner => "owner"
  | admin => "admin"
  | member => "member"

def ofName? (s : String) : Option MemberRole := [owner, admin, member].find? (·.name = s)

end MemberRole

inductive Permission
  | read
  | write
  | admin
  deriving DecidableEq

namespace Permission

def name : Permission → String
  | read => "read"
  | write => "write"
  | admin => "admin"

def all : List Permission := [read, write, admin]

def ofName? (s : String) : Option Permission := all.find? (·.name = s)

end Permission

end TeamVault
