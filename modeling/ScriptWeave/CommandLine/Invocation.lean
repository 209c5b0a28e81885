import ScriptWeave.CommandLine.Argument
import ScriptWeave.Path

namespace ScriptWeave.CommandLine

structure Invocation where
  source : Path
  imported : List Path
  output : Path
  references : List Path := []
  debug : Bool := false
  config : Option Path := none
  cacheDirectory : Option Path := none
  compiler : Option Text := none
  hoist : Option Bool := none
  json : Bool := false
  verbosity : Nat := 0
  deriving DecidableEq, Repr

inductive NoInvocation where
  | help
  | usage (fault : UsageFault)
  deriving DecidableEq, Repr

structure Draft where
  sources : List Text := []
  output : Option Text := none
  references : List Text := []
  debug : Bool := false
  config : Option Text := none
  cacheDirectory : Option Text := none
  compiler : Option Text := none
  hoist : Option Bool := none
  json : Bool := false
  verbosity : Nat := 0
  unrecognized : List Text := []
  deriving DecidableEq, Repr

namespace Draft

/-- Arguments between two switches. The first such run with a value in it holds the sources. -/
def addRun (d : Draft) (run : List Argument) : Draft :=
  if d.sources = [] ∧ run.any (fun a => a != .separator) then
    { d with sources := (run.erase .separator).map Argument.plainText }
  else { d with unrecognized := d.unrecognized ++ run.map Argument.plainText }

def apply (d : Draft) (s : Switch) (value : Text) : Except NoInvocation Draft :=
  match s with
  | .help => .error .help
  | .output => .ok { d with output := some value }
  | .reference => .ok { d with references := d.references ++ [value] }
  | .debug => .ok { d with debug := true }
  | .config => .ok { d with config := some value }
  | .cacheDirectory => .ok { d with cacheDirectory := some value }
  | .compiler => .ok { d with compiler := some value }
  | .noHoist => .ok { d with hoist := some false }
  | .json => .ok { d with json := true }
  | .verbose => .ok { d with verbosity := d.verbosity + 1 }

def applyAll (d : Draft) : List Switch → Except NoInvocation Draft
  | [] => .ok d
  | s :: ss =>
      match d.apply s [] with
      | .error stop => .error stop
      | .ok d => applyAll d ss

end Draft

inductive Ending where
  | bare (s : Switch)
  | withValue (s : Switch) (value : Text)
  deriving DecidableEq, Repr

/-- What a switch is given by the text attached to it; the separator alone gives nothing. -/
def attachedValue (t : Text) : Text := if t = "--".toList then [] else t

/-- The switches that an argument with an attached text consists of. Behind a switch of one letter
that takes no value the text holds further switches of one letter. -/
def unfold (s : Switch) (isShort : Bool) : Text → Except UsageFault (List Switch × Ending)
  | [] => if s.takesValue then .ok ([], .withValue s []) else .error (.ignoredValue s [])
  | c :: rest =>
      if s.takesValue then .ok ([], .withValue s (attachedValue (c :: rest)))
      else if ¬ isShort then .error (.ignoredValue s (c :: rest))
      else
        match Switch.ofSpelling? ['-', c], rest with
        | none, _ => .error (.ignoredValue s (c :: rest))
        | some s', [] => .ok ([s], .bare s')
        | some s', c' :: more => (unfold s' true (c' :: more)).map fun (ss, e) => (s :: ss, e)

def unfoldArgument (s : Switch) (isShort : Bool) :
    Option Text → Except UsageFault (List Switch × Ending)
  | none => .ok ([], .bare s)
  | some t => unfold s isShort t

/-- Reads the arguments behind a draft; `run` holds those since the last switch, last one
first. -/
def readArguments (d : Draft) (run : List Argument) : List Argument → Except NoInvocation Draft
  | [] => .ok (d.addRun run.reverse)
  | .switch s isShort attached :: rest => do
      let d := d.addRun run.reverse
      let (ss, ending) ← (unfoldArgument s isShort attached).mapError .usage
      match ending with
      | .withValue s value => do
          let d ← d.applyAll ss
          readArguments (← d.apply s value) [] rest
      | .bare s =>
          if s.takesValue then
            match rest with
            | .value t :: rest => do
                let d ← d.applyAll ss
                readArguments (← d.apply s t) [] rest
            | _ => .error (.usage (.expectedValue s))
          else do
            let d ← d.applyAll ss
            readArguments (← d.apply s []) [] rest
  | .unknown t :: rest =>
      let d := d.addRun run.reverse
      readArguments { d with unrecognized := d.unrecognized ++ [t] } [] rest
  | a :: rest => readArguments d (a :: run) rest

def Draft.finish (d : Draft) : Except NoInvocation Invocation :=
  match d.sources, d.output with
  | [], none => .error (.usage (.missing ["source", Switch.output.name]))
  | [], some _ => .error (.usage (.missing ["source"]))
  | _ :: _, none => .error (.usage (.missing [Switch.output.name]))
  | source :: imported, some output =>
      if d.unrecognized = [] then .ok {
        source := Path.ofText source
        imported := imported.map Path.ofText
        output := Path.ofText output
        references := d.references.map Path.ofText
        debug := d.debug
        config := d.config.map Path.ofText
        cacheDirectory := d.cacheDirectory.map Path.ofText
        compiler := d.compiler
        hoist := d.hoist
        json := d.json
        verbosity := d.verbosity }
      else .error (.usage (.unrecognized d.unrecognized))

def Invocation.read (arguments : List Text) : Except NoInvocation Invocation := do
  let arguments ← (Argument.readAll arguments).mapError .usage
  (← readArguments {} [] arguments).finish

end ScriptWeave.CommandLine
