import JsonShape.Command.Verb
/-!
# JsonShape.Command.Help

What is shown when help is asked for.
-/

namespace JsonShape.Command

namespace Help

/-- Lines with their ends. -/
def ofLines (ls : List String) : Text := ls.flatMap fun l => Text.ofString l ++ [.newline]

def program : Text := ofLines [
  "usage: shapegen [-h] [--version] [--verbose]",
  "                \x7bjsonl2shape,shape2jsons,shape2ts,jsonl2ts\x7d ...",
  "",
  "Infer shapes from JSON Lines samples and convert them to schemas and type",
  "declarations.",
  "",
  "positional arguments:",
  "  \x7bjsonl2shape,shape2jsons,shape2ts,jsonl2ts\x7d",
  "    jsonl2shape         Infer a shape from JSON Lines sample files",
  "    shape2jsons         Convert a shape file to JSON Schema",
  "    shape2ts            Convert a shape file to TypeScript interfaces",
  "    jsonl2ts            Infer TypeScript interfaces from JSON Lines sample",
  "                        files",
  "",
  "options:",
  "  -h, --help            show this help message and exit",
  "  --version             Print the version of shapegen.",
  "  --verbose             Enable debug logging."]

def samplesToShape : Text := ofLines [
  "usage: shapegen jsonl2shape [-h] [--out OUT] [--sample-size SAMPLE_SIZE]",
  "                            [--workers WORKERS]",
  "                            [input ...]",
  "",
  "positional arguments:",
  "  input                 Path(s) to JSON Lines sample files (reads stdin if",
  "                        omitted)",
  "",
  "options:",
  "  -h, --help            show this help message and exit",
  "  --out OUT             Path to the shape file",
  "  --sample-size SAMPLE_SIZE",
  "                        Maximum number of samples to analyze (0 = all)",
  "  --workers WORKERS     Number of worker processes (1 = in-process, 0 = one",
  "                        per CPU)"]

def shapeToSchema : Text := ofLines [
  "usage: shapegen shape2jsons [-h] [--out OUT] [--title TITLE] [input]",
  "",
  "positional arguments:",
  "  input          Path to the shape file (reads stdin if omitted)",
  "",
  "options:",
  "  -h, --help     show this help message and exit",
  "  --out OUT      Path to the JSON Schema file",
  "  --title TITLE  Title of the root schema"]

def shapeToTypeScript : Text := ofLines [
  "usage: shapegen shape2ts [-h] [--out OUT] [--type-name TYPE_NAME] [input]",
  "",
  "positional arguments:",
  "  input                 Path to the shape file (reads stdin if omitted)",
  "",
  "options:",
  "  -h, --help            show this help message and exit",
  "  --out OUT             Path to the TypeScript file",
  "  --type-name TYPE_NAME",
  "                        Name of the root type"]

def samplesToTypeScript : Text := ofLines [
  "usage: shapegen jsonl2ts [-h] [--out OUT] [--type-name TYPE_NAME]",
  "                         [--sample-size SAMPLE_SIZE] [--workers WORKERS]",
  "                         [input ...]",
  "",
  "positional arguments:",
  "  input                 Path(s) to JSON Lines sample files (reads stdin if",
  "                        omitted)",
  "",
  "options:",
  "  -h, --help            show this help message and exit",
  "  --out OUT             Path to the TypeScript file",
  "  --type-name TYPE_NAME",
  "                        Name of the root type",
  "  --sample-size SAMPLE_SIZE",
  "                        Maximum number of samples to analyze (0 = all)",
  "  --workers WORKERS     Number of worker processes (1 = in-process, 0 = one",
  "                        per CPU)"]

def ofVerb : Verb → Text
  | .samplesToShape => samplesToShape
  | .shapeToSchema => shapeToSchema
  | .shapeToTypeScript => shapeToTypeScript
  | .samplesToTypeScript => samplesToTypeScript

end Help

end JsonShape.Command
