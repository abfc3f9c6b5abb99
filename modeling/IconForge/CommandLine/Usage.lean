import IconForge.CommandLine.Arguments

set_option autoImplicit false

/-! # Usage

The texts that tell how the program is called: the usage in front of every complaint about the
arguments, and the help text. -/

namespace IconForge.CommandLine

/-- The name of the program. -/
def programName : String :=
  "svg-to-icon"

/-- How the program is called. -/
def usage : String :=
  "usage: svg-to-icon [-h] [--output-dir OUTPUT_DIR] [--force] [--recursive]\n" ++
  "                   [--report REPORT] [--config CONFIG] [--no-check]\n" ++
  "                   [--verbose]\n" ++
  "                   input\n"

/-- The help text. -/
def helpText : String :=
  usage ++
  "\n" ++
  "Convert SVG files into icon components.\n" ++
  "\n" ++
  "positional arguments:\n" ++
  "  input                 SVG file or directory of SVG files to convert\n" ++
  "\n" ++
  "options:\n" ++
  "  -h, --help            show this help message and exit\n" ++
  "  --output-dir OUTPUT_DIR, -o OUTPUT_DIR\n" ++
  "                        Directory to write components to (defaults to the\n" ++
  "                        source directory) (default: None)\n" ++
  "  --force, -f           Overwrite existing component files without asking\n" ++
  "                        (default: False)\n" ++
  "  --recursive, -r       Descend into subdirectories when converting a\n" ++
  "                        directory (default: False)\n" ++
  "  --report REPORT       Save conversion results to this CSV or JSON file\n" ++
  "                        (default: None)\n" ++
  "  --config CONFIG, -c CONFIG\n" ++
  "                        Path to configuration JSON file (default: None)\n" ++
  "  --no-check            Skip checking the inner markup before writing\n" ++
  "                        (default: False)\n" ++
  "  --verbose, -v         Enable verbose logging (default: False)\n"

/-- The complaint about a misuse. -/
def Misuse.complaint (misuse : Misuse) : String :=
  usage ++ s!"{programName}: error: {misuse.message}\n"

end IconForge.CommandLine
