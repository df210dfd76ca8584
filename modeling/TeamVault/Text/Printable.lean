import TeamVault.Text.Printable.Table

/-! Characters that have a visible form. -/
namespace TeamVault.Text

def isPrintable (c : Char) : Bool :=
  if c.toNat < 0x7F then 0x20 ≤ c.toNat
  else Printable.ranges.any fun r => r.1 ≤ c.toNat && c.toNat ≤ r.2

end TeamVault.Text
