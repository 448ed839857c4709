import Formulary.CommandLine.Options

/-!
# What the program says about itself

The usage, the help text and the version, laid out for lines of eighty columns.
-/

namespace Formulary.CommandLine

/-- The name under which the program speaks of itself. -/
def programName : String := "kaleidoscope"

/-- The version. -/
def versionText : String := s!"{programName} 0.1.0\n"

/-- How the program is called. -/
def usage : String :=
  "usage: kaleidoscope [-h] [--emit \x7bsource,none\x7d] [--no-run]\n" ++
  "                    [--max-depth MAX_DEPTH] [-v] [--version]\n" ++
  "                    file\n"

/-- The help text. -/
def help : String :=
  usage ++
  "\nParse, check and evaluate a Kaleidoscope program\n" ++
  "\npositional arguments:\n" ++
  "  file                  Source file to compile\n" ++
  "\noptions:\n" ++
  "  -h, --help            show this help message and exit\n" ++
  "  --emit \x7bsource,none\x7d  Print the parsed program in canonical form\n" ++
  "  --no-run              Do not evaluate top-level expressions\n" ++
  "  --max-depth MAX_DEPTH\n" ++
  s!"                        Maximum expression nesting depth (default: {defaultNestingLimit})\n" ++
  "  -v, --verbose         Enable debug logging\n" ++
  "  --version             show program's version number and exit\n" ++
  "\nExamples:\n" ++
  "    kaleidoscope fib.ks                    # Evaluate and print top-level results\n" ++
  "    kaleidoscope fib.ks --emit source      # Print the canonical form first\n" ++
  "    kaleidoscope fib.ks --no-run           # Only parse and check\n" ++
  "        \n"

/-- What is said about a mistake in the arguments. -/
def refusal (e : UsageError) : String := usage ++ s!"{programName}: error: {e.message}\n"

end Formulary.CommandLine
