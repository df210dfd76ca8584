/-! Public keys in tables. -/
namespace TeamVault.Console

def takeSigned (width : Int) (s : String) : String :=
  String.ofList (s.toList.take
    (if 0 ≤ width then width.toNat else s.length - (-width).toNat))

def shortKeyWidth : Int := 20

def shortKey (key : String) (width : Int) : String :=
  if key = "" then "[yellow]none[/]"
  else if (s : Int) ≤ width then key
  else takeSigned width key ++ "..."
where
  s : Nat := key.length

end TeamVault.Console
