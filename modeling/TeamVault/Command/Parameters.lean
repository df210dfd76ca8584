import TeamVault.Console.Prompt

/-!
Parameters of commands and how the words of a command line are matched with them. Options may stand
among the arguments; two hyphens end the options; the last of repeated options counts.
-/
namespace TeamVault.Command

inductive Fallback
  | absent
  | value (text : String)
  | required
  | ask (question : Console.Question)

structure ValueOption where
  name : String
  letter : Option Char
  choices : Option (List String)
  fallback : Fallback

def option (name : String) (fallback : Fallback) (choices : Option (List String) := none)
    (letter : Option Char := none) : ValueOption :=
  ⟨name, letter, choices, fallback⟩

structure Flag where
  name : String
  letter : Option Char

structure Parameters where
  flags : List Flag := []
  options : List ValueOption := []
  arguments : List String := []
  mixed : Bool := true

structure Given where
  flags : List String
  options : List (String × String)
  words : List String

namespace Parameters

def flag? (p : Parameters) (name : String) : Option Flag := p.flags.find? (·.name = name)

def option? (p : Parameters) (name : String) : Option ValueOption := p.options.find? (·.name = name)

def letterFlag? (p : Parameters) (c : Char) : Option Flag := p.flags.find? (·.letter = some c)

def letterOption? (p : Parameters) (c : Char) : Option ValueOption :=
  p.options.find? (·.letter = some c)

structure Met where
  flags : List String
  options : List (String × String)

/-- Reads letters behind one hyphen; `none` for an unknown one. The last result tells the option
that still needs a value. -/
def letters (p : Parameters) (met : Met) : List Char → Option (Met × Option String)
  | [] => some (met, none)
  | c :: rest =>
    match p.letterFlag? c, p.letterOption? c with
    | some f, _ => letters p { met with flags := f.name :: met.flags } rest
    | none, some o =>
      if rest.isEmpty then some (met, some o.name)
      else some ({ met with options := (o.name, String.ofList rest) :: met.options }, none)
    | none, none => none

def optionWord (p : Parameters) (met : Met) (word : List Char) : Option (Met × Option String) :=
  match word with
  | '-' :: '-' :: rest =>
    let name := String.ofList (rest.takeWhile (· != '='))
    let value? := match rest.dropWhile (· != '=') with
      | '=' :: value => some (String.ofList value)
      | _ => none
    match p.flag? name, p.option? name, value? with
    | some f, _, none => some ({ met with flags := f.name :: met.flags }, none)
    | some _, _, some _ => none
    | none, some o, some v => some ({ met with options := (o.name, v) :: met.options }, none)
    | none, some o, none => some (met, some o.name)
    | none, none, _ => none
  | '-' :: rest => letters p met rest
  | _ => none

/-- Matches words with options; `words` holds the other words so far, the last first, and `needed`
the option that the next word is the value of. -/
def matchWords (p : Parameters) (met : Met) (words : List String) (needed : Option String) :
    List String → Option Given
  | [] => match needed with
    | some _ => none
    | none => some ⟨met.flags.reverse, met.options.reverse, words.reverse⟩
  | w :: rest =>
    match needed with
    | some name =>
      matchWords p { met with options := (name, w) :: met.options } words none rest
    | none =>
      if w = "--" then some ⟨met.flags.reverse, met.options.reverse, words.reverse ++ rest⟩
      else if w.toList.head? = some '-' ∧ w ≠ "-" then
        match p.optionWord met w.toList with
        | some (met, needed) => matchWords p met words needed rest
        | none => none
      else if p.mixed then matchWords p met (w :: words) none rest
      else some ⟨met.flags.reverse, met.options.reverse, words.reverse ++ w :: rest⟩

def given? (p : Parameters) (line : List String) : Option Given :=
  p.matchWords ⟨[], []⟩ [] none line

end Parameters

end TeamVault.Command
