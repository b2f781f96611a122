import SvgComponent.Settings.Options
import SvgComponent.Tool.Session

/-!
# The optimizer of markup

The optimizer is a library for Node.js. A short script reads a request in JSON, with the markup and
the options, and writes the optimized markup.
-/

namespace SvgComponent.Tool.Optimizer

open Settings

/-- The script that runs the optimizer. -/
def script : String :=
  "\nconst \x7b optimize \x7d = require(\"svgo\");\n" ++
  "let input = \"\";\n" ++
  "process.stdin.setEncoding(\"utf8\");\n" ++
  "process.stdin.on(\"data\", (chunk) => \x7b input += chunk; \x7d);\n" ++
  "process.stdin.on(\"end\", () => \x7b\n" ++
  "  try \x7b\n" ++
  "    const \x7b svg, config \x7d = JSON.parse(input);\n" ++
  "    process.stdout.write(optimize(svg, config).data);\n" ++
  "  \x7d catch (error) \x7b\n" ++
  "    process.stderr.write(String(error && error.message ? error.message : error));\n" ++
  "    process.exit(1);\n" ++
  "  \x7d\n" ++
  "\x7d);\n"

/-- The request for some markup. -/
def request (svg : String) (o : OptimizerOptions) : Value :=
  .mapping [(.text "svg", .text svg), (.text "config", .mapping o.entries)]

/-- The optimized markup. -/
def run (svg : String) (o : OptimizerOptions) : StateM Session (Except ToolError String) := do
  match (request svg o).json with
  | .error e => return .error (.crash (.unwritable e))
  | .ok input =>
    Session.note ⟨.debug, .optimizer,
      "Running optimizer with " ++ toString o.plugins.length ++ " plugin(s)"⟩
    let reply ← Session.call ⟨[o.node, "-e", script], input, o.timeout⟩
    return outputOf "Optimizer" (.failure ("Optimizer runtime not found: " ++ o.node)) o.timeout reply

end SvgComponent.Tool.Optimizer
