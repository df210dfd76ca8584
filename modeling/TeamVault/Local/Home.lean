import TeamVault.Files.Access

/-! Where local state is kept. -/
namespace TeamVault.Local

def directoryName : String := ".envv"

def usualHome : Path := .ofText "~/.envv"

def home (given : Option Path) : Action Path := Action.expandHome (given.getD usualHome)

end TeamVault.Local
