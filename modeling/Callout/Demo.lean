import Callout.Diagnostic

namespace Callout.Demo

def text : String :=
  "let value = switch (something) \x7b\n    .a => 5,\n    .b => \"other\",\n\x7d;"

def sourceId : SourceId := .name "internal_0"

/-- One label over several lines and three inside it. -/
def labels : List Label :=
  [⟨.between 12 66, "Inside of this 'switch' expression.", .basic .brightBlue⟩,
    ⟨.between 43 44, "This is of type 'number'.", .basic .magenta⟩,
    ⟨.between 38 39, "This is an identifier. (just for showcase)", .basic .cyan⟩,
    ⟨.between 56 63, "This is of type 'string'.", .basic .green⟩]

def diagnostic (config : Config) : Diagnostic where
  sourceId := sourceId
  severity := .error
  code := some "C001"
  message := "Incompatible types"
  labels := labels
  notes := [⟨"help", "Make both arms return the same type.", .basic .brightGreen⟩]
  config := config

end Callout.Demo
