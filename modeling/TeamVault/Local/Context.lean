import TeamVault.Local.BindingFile
import TeamVault.Local.Credentials

/-! All local state that one command needs. -/
namespace TeamVault

structure Context where
  settings : ClientSettings
  session : Session
  binding : ProjectBinding

def Context.load (home directory : Option Path) : Action Context := do
  let binding ← BindingFile.load directory
  let settings ← SettingsFile.load home
  let session ← Credentials.load home
  return ⟨settings, session, binding⟩

end TeamVault
