import UrlRebase.Text.Basic
import UrlRebase.Text.Digit

/-!
# Arguments

The arguments of the command line are options and the names of assets.  An option is
written by its letter behind a dash or by its name, or a start of it, behind two.  A value
follows as an argument of its own, or behind the letter, or behind an equality sign.  The
letters of options without a value may stand together.  Behind two dashes alone there are
no options; where they are attached to an option they are no value for it.

All names of assets stand together: once options follow them, no more names may come.
-/

namespace UrlRebase.CommandLine

/-- The options. -/
inductive Switch where
  | config
  | output
  | yaml
  | force
  | debug
  | help
deriving DecidableEq, Repr

namespace Switch

def all : List Switch := [.config, .output, .yaml, .force, .debug, .help]

def letter? : Switch → Option CodePoint
  | .config => some 'c'
  | .output => some 'o'
  | .yaml => some 'y'
  | .force => some 'f'
  | .debug => none
  | .help => some 'h'

def name : Switch → Text
  | .config => "config".text
  | .output => "output".text
  | .yaml => "yaml".text
  | .force => "force".text
  | .debug => "debug".text
  | .help => "help".text

def takesValue : Switch → Bool
  | .config | .output => true
  | _ => false

def ofLetter? (c : CodePoint) : Option Switch :=
  all.find? (·.letter? = some c)

def named (start : Text) : List Switch :=
  all.filter fun switch => start.isPrefixOf switch.name

end Switch

/-- One argument. -/
inductive Word where
  /-- The name of an asset, or the value of the option before it. -/
  | plain (text : Text)
  /-- Two dashes alone. -/
  | separator
  /-- An option, written by its letter or its name, and what is attached to it. -/
  | option (isLetter : Bool) (switch : Switch) (attached : Option Text)
  /-- What looks like an option and is none. -/
  | unknown
deriving DecidableEq, Repr

namespace Word

/-- A text without a line break at its end. -/
def withoutFinalBreak (text : Text) : Text :=
  if text.getLast? = some (.char '\n') then text.dropLast else text

/-- Whether a text is a negative number, perhaps with a line break behind it. -/
def isNegative (text : Text) : Bool :=
  match withoutFinalBreak text with
  | '-' :: digits =>
      let (whole, rest) := Text.cut '.' digits
      whole.all Text.isDigit &&
        match rest with
        | [] => whole ≠ []
        | _ :: fraction => fraction ≠ [] && fraction.all Text.isDigit
  | _ => false

def otherwise (text : Text) : Word :=
  if isNegative text ∨ text.contains ' ' then .plain text else .unknown

/-- What a text behind two dashes is; nothing if several options are meant. -/
def ofName? (text : Text) : Option Word :=
  let (name, rest) := Text.cut '=' text
  let attached : Option Text :=
    match rest with
    | [] => none
    | _ :: value => some value
  match Switch.named name with
  | [] => some (otherwise ('-' :: '-' :: text))
  | [switch] => some (.option false switch attached)
  | _ => none

/-- What a letter behind a dash, and what follows it, is. -/
def ofLetter (c : CodePoint) (rest : Text) : Word :=
  match Switch.ofLetter? c, rest with
  | none, rest => otherwise ('-' :: c :: rest)
  | some switch, [] => .option true switch none
  | some switch, '=' :: value => .option true switch (some value)
  | some switch, value => .option true switch (some value)

/-- What an argument is; nothing if several options are meant. -/
def ofText? : Text → Option Word
  | '-' :: '-' :: text => ofName? text
  | '-' :: c :: rest => some (ofLetter c rest)
  | text => some (.plain text)

/-- What the arguments are.  Behind two dashes alone all are plain. -/
def ofTexts? : List Text → Option (List Word)
  | [] => some []
  | text :: rest =>
      if text = "--".text then some (.separator :: rest.map .plain)
      else do return (← ofText? text) :: (← ofTexts? rest)

def isAsset : Word → Bool
  | .plain _ | .separator => true
  | _ => false

def text? : Word → Option Text
  | .plain text => some text
  | _ => none

end Word

/-- What the command line asks for. -/
structure Arguments where
  config : Option Text := none
  output : Option Text := none
  yaml : Bool := false
  force : Bool := false
  debug : Bool := false
  assets : List Text := []
deriving DecidableEq, Repr

/-- Why the command line asks for nothing to be done. -/
inductive Refusal where
  /-- Help is asked for. -/
  | help
  /-- The arguments are wrong. -/
  | wrong
  /-- The letter of an option without a value has an equality sign behind it and no more. -/
  | emptyValue
deriving DecidableEq, Repr

namespace Arguments

/-- Sets an option without a value. -/
def flag (arguments : Arguments) : Switch → Except Refusal Arguments
  | .yaml => .ok { arguments with yaml := true }
  | .force => .ok { arguments with force := true }
  | .debug => .ok { arguments with debug := true }
  | .help => .error .help
  | .config | .output => .error .wrong

def valueOf? (text : Text) : Option Text :=
  if text = "--".text then none else some text

def set (arguments : Arguments) (text : Text) : Switch → Except Refusal Arguments
  | .config => .ok { arguments with config := valueOf? text }
  | .output => .ok { arguments with output := valueOf? text }
  | _ => .error .wrong

/-- Options that stand together behind one dash. -/
structure Bundle where
  /-- The options without a value before the last one. -/
  flags : List Switch := []
  last : Switch
  /-- The value of the last option, if it stands here too. -/
  value : Option Text := none
deriving DecidableEq, Repr

/-- The options in a text that is attached to an option given by its letter; nothing if a
part of it is no option. -/
def bundle? (switch : Switch) (attached : Text) : Option Bundle :=
  if switch.takesValue then some { last := switch, value := some attached }
  else
    match attached with
    | [] => none
    | c :: rest =>
        match Switch.ofLetter? c, rest with
        | none, _ => none
        | some next, [] => some { flags := [switch], last := next }
        | some next, rest =>
            (bundle? next rest).map fun bundle =>
              { bundle with flags := switch :: bundle.flags }
termination_by attached.length

/-- The options of an argument, unless it is wrong in itself. -/
def bundleOf (isLetter : Bool) (switch : Switch) : Option Text → Except Refusal Bundle
  | none => .ok { last := switch }
  | some attached =>
      if switch.takesValue then .ok { last := switch, value := some attached }
      else if !isLetter then .error .wrong
      else if attached = [] then .error .emptyValue
      else
        match bundle? switch attached with
        | none => .error .wrong
        | some bundle => .ok bundle

/-- Sets the options of an argument, the last one perhaps by the argument behind it.  Gives
the arguments that are left. -/
def setBundle (arguments : Arguments) (bundle : Bundle) (rest : List Word) :
    Except Refusal (Arguments × List Word) := do
  match bundle.value, rest with
  | some value, rest =>
      return (← (← bundle.flags.foldlM flag arguments).set value bundle.last, rest)
  | none, rest =>
      if bundle.last.takesValue then
        match rest with
        | .plain value :: rest =>
            return (← (← bundle.flags.foldlM flag arguments).set value bundle.last, rest)
        | _ => throw .wrong
      else return (← (← bundle.flags.foldlM flag arguments).flag bundle.last, rest)

/-- Takes the arguments one after the other.  `listed` says whether the names of assets have
been read, and `stray` whether something was left over. -/
def take : Nat → Arguments → Bool → Bool → List Word → Except Refusal Arguments
  | 0, _, _, _, _ => .error .wrong
  | _ + 1, arguments, _, stray, [] => if stray then .error .wrong else .ok arguments
  | count + 1, arguments, listed, _, .unknown :: rest => take count arguments listed true rest
  | count + 1, arguments, listed, stray, .option isLetter switch attached :: rest => do
      let bundle ← bundleOf isLetter switch attached
      let (arguments, rest) ← arguments.setBundle bundle rest
      take count arguments listed stray rest
  | count + 1, arguments, listed, stray, word :: rest =>
      let names := (word :: rest.takeWhile Word.isAsset).filterMap Word.text?
      let rest := rest.dropWhile Word.isAsset
      if listed then take count arguments listed true rest
      else take count { arguments with assets := names } true stray rest

def ofTexts (texts : List Text) : Except Refusal Arguments :=
  match Word.ofTexts? texts with
  | none => .error .wrong
  | some words => take (words.length + 1) {} false false words

end Arguments

end UrlRebase.CommandLine
