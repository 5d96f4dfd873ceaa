import SourceLayout.Value.Basic

/-!
# Command line arguments

A grammar has long and short options, some with a value, and at most one place for other arguments.
An option may be cut short as long as one option only starts that way, and its value may follow
after `=`. After `--` nothing is an option. Options and other arguments are taken in turn: the place
for other arguments takes the first stretch of them, and what is left over is refused.
-/

namespace SourceLayout.Command

/-- Why a command line is not run. -/
inductive Stop where
  | usage
  | help
  | version
  deriving DecidableEq, Repr

/-- What other arguments a grammar takes: none, all of one stretch, or a word and all that follows
it. -/
inductive Rest where
  | none
  | stretch
  | command
  deriving DecidableEq, Repr

structure Grammar (ω : Type) where
  options : List (String × ω)
  takesValue : ω → Bool
  rest : Rest

/-- An argument that is read as an option: which one, under which name, and the text given with
it. -/
structure OptionUse (ω : Type) where
  option : Option (ω × Text)
  text : Option Text

inductive Slot (ω : Type) where
  | argument
  | separator
  | option (use : OptionUse ω)

namespace Grammar

variable {ω : Type}

def named? (grammar : Grammar ω) (name : Text) : Option ω :=
  (grammar.options.find? fun option => option.1.toList == name).map Prod.snd

/-- The text before the first `=` and, if there is one, the text after it. -/
def partition (argument : Text) : Text × Option Text :=
  let name := argument.takeWhile (· ≠ '=')
  match argument.drop name.length with
  | [] => (name, none)
  | _ :: value => (name, some value)

/-- The options that a text may be short for. -/
def readings (grammar : Grammar ω) (argument : Text) : List (OptionUse ω) :=
  match argument with
  | '-' :: '-' :: _ =>
      let (name, value) := partition argument
      grammar.options.filterMap fun (full, option) =>
        if name.isPrefixOf full.toList then some ⟨some (option, full.toList), value⟩
        else none
  | _ =>
      grammar.options.filterMap fun (full, option) =>
        if full.toList = argument.take 2 then
          some ⟨some (option, full.toList), some (argument.drop 2)⟩
        else if argument.isPrefixOf full.toList then
          some ⟨some (option, full.toList), none⟩
        else none

/-- A minus sign and a number. -/
def isNegativeNumber (argument : Text) : Bool :=
  match argument with
  | '-' :: number =>
      let whole := number.takeWhile isDecimal
      let isEnd (text : Text) : Bool := text.isEmpty || text == ['\n']
      match number.drop whole.length with
      | '.' :: fraction => headIs isDecimal fraction && isEnd (fraction.dropWhile isDecimal)
      | rest => !whole.isEmpty && isEnd rest
  | _ => false

/-- How one argument before any `--` is read. -/
def slot (grammar : Grammar ω) (argument : Text) : Except Stop (Slot ω) :=
  if argument.head? ≠ some '-' then .ok .argument
  else
    match grammar.named? argument with
    | some option => .ok (.option ⟨some (option, argument), none⟩)
    | none =>
        if argument.length = 1 then .ok .argument
        else
          let (name, value) := partition argument
          match value, grammar.named? name with
          | some value, some option => .ok (.option ⟨some (option, name), some value⟩)
          | _, _ =>
              match grammar.readings argument with
              | [use] => .ok (.option use)
              | _ :: _ :: _ => .error .usage
              | [] =>
                  if isNegativeNumber argument || ' ' ∈ argument then .ok .argument
                  else .ok (.option ⟨none, none⟩)

def slots (grammar : Grammar ω) : List Text → Except Stop (List (Text × Slot ω))
  | [] => .ok []
  | argument :: arguments =>
      if argument = ['-', '-'] then
        .ok ((argument, .separator) :: arguments.map fun argument => (argument, .argument))
      else do
        let first ← grammar.slot argument
        let others ← grammar.slots arguments
        return (argument, first) :: others

/-- What an option or the place for other arguments is given. -/
inductive Event (ω : Type) where
  | option (option : ω) (value : Option Text)
  | rest (arguments : List Text)

/-- The value that a text is for an option; two hyphens are none. -/
def valueOf (text : Text) : Option Text :=
  if text = ['-', '-'] then none else some text

def isOption : Text × Slot ω → Bool
  | (_, .option _) => true
  | _ => false

def isArgument : Text × Slot ω → Bool
  | (_, .argument) => true
  | _ => false

/-- How many items the place for other arguments takes, if it can take any. -/
def restCount? (rest : Rest) (items : List (Text × Slot ω)) : Option Nat :=
  match rest with
  | .none => none
  | .stretch => some (items.takeWhile fun item => !isOption item).length
  | .command =>
      let separators := items.takeWhile fun item => !isOption item && !isArgument item
      if (items.drop separators.length).head?.any isArgument then some items.length else none

/-- The arguments that the place for other arguments is given; the first `--` does not count. -/
def restArguments (rest : Rest) (items : List (Text × Slot ω)) : List Text :=
  let arguments := items.map Prod.fst
  if rest = .command then arguments else arguments.erase ['-', '-']

/-- What an option with a text given in the same argument stands for. An option that takes no value
may be followed by the letters of other options, if it is a letter itself. -/
def withText (grammar : Grammar ω) (option : ω) (name : Text) :
    Text → Except Stop (List (Event ω))
  | [] => if grammar.takesValue option then .ok [.option option (some [])] else .error .usage
  | c :: text =>
      if grammar.takesValue option then .ok [.option option (valueOf (c :: text))]
      else if name.take 2 = ['-', '-'] then .error .usage
      else
        match grammar.named? ['-', c], text with
        | none, _ => .error .usage
        | some next, [] => .ok [.option option none, .option next none]
        | some next, text => do
            return .option option none :: (← grammar.withText next ['-', c] text)

/-- The state of reading: what has been taken so far, what was left over, and whether the place for
other arguments is still free. -/
structure Reading (ω : Type) where
  events : List (Event ω) := []
  extras : List Text := []
  free : Bool := true

/-- Takes the option at the head of the items. -/
def takeOption (grammar : Grammar ω) (reading : Reading ω) (argument : Text) (use : OptionUse ω)
    (items : List (Text × Slot ω)) : Except Stop (Reading ω × List (Text × Slot ω)) :=
  match use.option, use.text with
  | none, _ => .ok ({ reading with extras := reading.extras ++ [argument] }, items)
  | some (option, name), some text => do
      let events ← grammar.withText option name text
      return ({ reading with events := reading.events ++ events }, items)
  | some (option, _), none =>
      if !grammar.takesValue option then
        .ok ({ reading with events := reading.events ++ [.option option none] }, items)
      else
        match items with
        | (value, .argument) :: items =>
            .ok ({ reading with events := reading.events ++ [.option option (some value)] }, items)
        | _ => .error .usage

/-- Gives the place for other arguments what it takes of the items. -/
def takeRest (grammar : Grammar ω) (reading : Reading ω) (items : List (Text × Slot ω)) :
    Reading ω × List (Text × Slot ω) :=
  match if reading.free then restCount? grammar.rest items else none with
  | none => (reading, items)
  | some count =>
      let event := Event.rest (restArguments grammar.rest (items.take count))
      ({ reading with events := reading.events ++ [event], free := false }, items.drop count)

/-- Reads all items. The second argument bounds the depth of the recursion. A trouble comes after
the events before it, so it is kept with them. -/
def read (grammar : Grammar ω) : Nat → Reading ω → List (Text × Slot ω) →
    Reading ω × Option Stop
  | 0, reading, _ => (reading, none)
  | fuel + 1, reading, items =>
      if !items.any isOption then
        let (reading, left) := grammar.takeRest reading items
        ({ reading with extras := reading.extras ++ left.map Prod.fst }, none)
      else
        match items with
        | (argument, .option use) :: items =>
            match grammar.takeOption reading argument use items with
            | .error stop => (reading, some stop)
            | .ok (reading, items) => grammar.read fuel reading items
        | _ =>
            let (reading, left) := grammar.takeRest reading items
            if left.length < items.length then grammar.read fuel reading left
            else
              let skipped := items.takeWhile fun item => !isOption item
              grammar.read fuel
                { reading with extras := reading.extras ++ skipped.map Prod.fst }
                (items.drop skipped.length)

/-- Carries the events of a command line out in order. -/
def run {σ : Type} (grammar : Grammar ω) (apply : σ → Event ω → Except Stop σ) (start : σ)
    (arguments : List Text) : Except Stop (σ × List Text) := do
  let items ← grammar.slots arguments
  let (reading, stop) := grammar.read (items.length + 1) {} items
  let state ← reading.events.foldlM apply start
  match stop with
  | some stop => .error stop
  | none => return (state, reading.extras)

end Grammar

/-- A whole number in decimal digits of any script, with single underscores between digits and
blanks around it. -/
def wholeNumber? (text : Text) : Option Int :=
  let isSpace (c : Char) : Bool := isBlank c && !(0x1c ≤ c.toNat && c.toNat ≤ 0x1f)
  let text := ((text.dropWhile isSpace).reverse.dropWhile isSpace).reverse
  let (negative, digits) :=
    match text with
    | '-' :: digits => (true, digits)
    | '+' :: digits => (false, digits)
    | _ => (false, text)
  let groups := Text.cutAt (· == '_') digits
  let plain := groups.flatten
  if groups.all (fun group => !group.isEmpty && group.all isDecimal) && plain.length ≤ digitLimit then
    let value : Int := decimalValue plain
    some (if negative then -value else value)
  else none

end SourceLayout.Command
