import TemplateFolding.Text.Basic

/-!
# Reading arguments

The arguments of a command are switches, operands and, last, a subcommand with arguments of its own.
They are taken in order and each changes the options at once, so the first argument that is wrong,
or that asks for help or for the version, decides.
-/

namespace TemplateFolding.CommandLine

/-- Why the arguments of a command are not taken to their end. -/
inductive Stop where
  | help
  | version
  | usage
deriving DecidableEq

/-- What a switch does to options of a type. A value or a repetition that is not allowed gives no
options. -/
inductive Effect (σ : Type) where
  | flag (set : σ → Option σ)
  | value (set : Text → σ → Option σ)
  | stop (reason : Stop)

/-- An argument that starts with dashes. -/
structure Switch (σ : Type) where
  long : Text
  short : Option Char
  effect : Effect σ

/-- What a command takes. -/
structure Grammar (σ : Type) where
  switches : List (Switch σ)
  /-- What an operand does. -/
  operand : Text → σ → Option σ
  subcommands : List Text

/-- Whether an argument can be the value of the switch before it. One dash alone can. -/
def isValue : Text → Bool
  | '-' :: _ :: _ => false
  | _ => true

/-- The options, or a usage error where there are none. -/
def orUsage {α : Type} : Option α → Except Stop α
  | some a => .ok a
  | none => .error .usage

namespace Grammar

variable {σ : Type}

/-- The options after one argument, and what the next one does if the argument awaits a value. -/
abbrev Progress (σ : Type) := σ × Option (Text → σ → Option σ)

/-- Takes switches of one letter that stand behind one dash. What follows the letter of a switch
with a value is the value. -/
def takeShort (g : Grammar σ) : Text → σ → Except Stop (Progress σ)
  | [], s => .ok (s, none)
  | c :: rest, s =>
    match g.switches.find? (·.short == some c) with
    | none => .error .usage
    | some switch =>
      match switch.effect, rest with
      | .stop reason, _ => .error reason
      | .flag set, _ =>
        match set s with
        | none => .error .usage
        | some s => takeShort g rest s
      | .value set, [] => .ok (s, some set)
      | .value set, '=' :: value => return (← orUsage (set value s), none)
      | .value set, value => return (← orUsage (set value s), none)

/-- Takes a switch by its long name. Its value may follow an equals sign. -/
def takeLong (g : Grammar σ) (body : Text) (s : σ) : Except Stop (Progress σ) :=
  match g.switches.find? (·.long == body.takeWhile (· != '=')) with
  | none => .error .usage
  | some switch =>
    match switch.effect, body.dropWhile (· != '=') with
    | .stop reason, [] => .error reason
    | .flag set, [] => return (← orUsage (set s), none)
    | .value set, [] => .ok (s, some set)
    | .value set, _ :: value => return (← orUsage (set value s), none)
    | _, _ :: _ => .error .usage

/-- Takes one argument that is no subcommand. -/
def take (g : Grammar σ) (argument : Text) (s : σ) : Except Stop (Progress σ) :=
  match argument with
  | '-' :: '-' :: body => g.takeLong body s
  | '-' :: c :: rest => g.takeShort (c :: rest) s
  | operand => return (← orUsage (g.operand operand s), none)

/-- Takes all arguments, up to a subcommand. After two dashes alone there are only operands. -/
def read (g : Grammar σ) : List Text → σ → Except Stop (σ × Option (Text × List Text))
  | [], s => .ok (s, none)
  | argument :: rest, s =>
    if argument ∈ g.subcommands then .ok (s, some (argument, rest))
    else if argument = ['-', '-'] then
      return (← orUsage (rest.foldlM (fun s operand => g.operand operand s) s), none)
    else
      match g.take argument s, rest with
      | .error stop, _ => .error stop
      | .ok (s, none), rest => read g rest s
      | .ok (_, some _), [] => .error .usage
      | .ok (s, some set), value :: rest =>
        if isValue value then
          match set value s with
          | none => .error .usage
          | some s => read g rest s
        else .error .usage

end Grammar

end TemplateFolding.CommandLine
