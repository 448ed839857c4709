/-!
# Transcripts

What a run of the program writes, in order, to its two streams.
-/

namespace Formulary.CommandLine

/-- Where a text goes: to the standard output, or among the messages. -/
inductive Channel where
  | output
  | messages
deriving DecidableEq, Repr

/-- Texts in the order in which they are written. -/
abbrev Transcript := List (Channel × String)

namespace Transcript

/-- What is written to one channel. -/
def on (c : Channel) (t : Transcript) : String :=
  String.join ((t.filter fun entry => entry.1 == c).map Prod.snd)

/-- A text for the standard output. -/
def output (text : String) : Transcript := [(.output, text)]

/-- A text among the messages. -/
def message (text : String) : Transcript := [(.messages, text)]

@[simp] theorem on_nil (c : Channel) : on c [] = "" := rfl

/-- Each channel gets its texts in the order in which they are written. -/
@[simp] theorem on_append (c : Channel) (a b : Transcript) : on c (a ++ b) = on c a ++ on c b := by
  simp [on, List.filter_append]

@[simp] theorem on_output (text : String) : on .output (output text) = text := by
  simp [on, output]

@[simp] theorem on_messages_output (text : String) : on .messages (output text) = "" := by
  simp [on, output]

@[simp] theorem on_message (text : String) : on .messages (message text) = text := by
  simp [on, message]

@[simp] theorem on_output_message (text : String) : on .output (message text) = "" := by
  simp [on, message]

end Transcript

/-- The parts of the program that keep a log. -/
inductive Reporter where
  | parser
  | resolver
  | evaluator
  | commandLine
deriving DecidableEq, Repr

/-- How log lines name a part of the program. -/
def Reporter.name : Reporter → String
  | parser => "kaleidoscope.parser.parser"
  | resolver => "kaleidoscope.analyzer.resolver"
  | evaluator => "kaleidoscope.evaluator.interpreter"
  | commandLine => "kaleidoscope.cli"

/-- A line of the log that always appears. -/
def inform (r : Reporter) (text : String) : Transcript := .message s!"INFO {r.name}: {text}\n"

/-- A line of the log that appears only where details are asked for. -/
def detail (verbose : Bool) (r : Reporter) (text : String) : Transcript :=
  if verbose then .message s!"DEBUG {r.name}: {text}\n" else []

end Formulary.CommandLine
