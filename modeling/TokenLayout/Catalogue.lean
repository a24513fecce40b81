import TokenLayout.Datum
import TokenLayout.Fault

/-!
# Catalogue

What the library says about itself: its version and the names it offers.
-/

namespace TokenLayout.Catalogue

/-- The version of the library. -/
def version : String :=
  "0.1.0"

/-- The names offered: operations, kinds of tokens, rendering, settings and error families. -/
def names : List String :=
  ["__version__", "render", "measure", "walk"] ++
    [Kind.blank, .leaf, .separator, .group, .bracket].map Kind.name ++
    ["LineBuilder", "TextRenderer", "LayoutRenderer"] ++
    ["LayoutConfig", "get_layout_config", "set_layout_config", "reset_layout_config",
      "layout_config_context"] ++
    [Family.general, .contract, .render, .settings].map Family.name

/-- The names of the expression shapes. -/
def shapes : List String :=
  ["arrow", "binary", "call", "conditional", "index", "initializer", "member", "method_call",
    "prefix", "sequence"]

end TokenLayout.Catalogue
