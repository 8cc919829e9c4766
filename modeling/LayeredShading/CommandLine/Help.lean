/-!
# Help

The texts that tell a user what the program is and how it is called.
-/

namespace LayeredShading

namespace CommandLine

/-- The lines of the help text. -/
def helpLines : List String := [
  "shadenet - Shading network toolkit",
  "",
  "USAGE:",
  "    shadenet [OPTIONS] <COMMAND> <scene.json> [ARGS]",
  "",
  "COMMANDS:",
  "    i,  info        <scene>                       Show layers and prim counts",
  "    t,  tree        <scene>                       Show prim hierarchy with types",
  "    r,  resolve     <scene> <material>            Resolve a terminal to a shader output",
  "    ra, resolve-all <scene>                       Resolve a terminal on every material",
  "    o,  outputs     <scene> <material>            List terminal outputs and connections",
  "    b,  base        <scene> <material>            Show the base material chain",
  "    vs, variants    <scene> <prim>                Show variant sets and selections",
  "    m,  master      <scene> <out> <master> <mat>...  Build a master material variant set",
  "    h,  help                                      Show this help",
  "        version                                   Show build info",
  "",
  "OPTIONS:",
  "    -t, --terminal <kind>   surface | displacement | volume (default: surface)",
  "    -c, --context <token>   Render context, repeat for priority order",
  "    -s, --set <name>        Variant set for 'master' (default: materialVariant)",
  "    -j, --json              JSON output",
  "    -v, --verbose           Show debug output",
  "    -vv, --trace            Show trace output (very verbose)",
  "    -q, --quiet             Suppress log output",
  "",
  "EXAMPLES:",
  "    shadenet resolve looks.json /Looks/Wood -c mtl",
  "    shadenet resolve-all looks.json -t displacement --json",
  "    shadenet master looks.json out.json /Looks/Master /Looks/Wood /Looks/Glass",
  "",
  "NOTES:",
  "    - The universal context is tried last unless given as -c \"\"",
  "    - SHADENET_LOG or RUST_LOG override the log filter"]

/-- The line that names the version. -/
def versionLine : String := "shadenet 0.1.0 (unknown build, unknown)"

/-- How the command that makes a master is called. -/
def masterUsage : String :=
  "shadenet master <scene.json> <out.json> <master> <material>... [-s set]"

end CommandLine

end LayeredShading
