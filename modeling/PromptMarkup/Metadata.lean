/-
The metadata of a prompt.

* `readMetadata` — analyzes a prompt, and checks its configuration against a schema if one is given;
* `Metadata.toJson` — the metadata as JSON.
-/
import PromptMarkup.Analysis
import PromptMarkup.Json.Schema

namespace PromptMarkup

/-- What can be told about a prompt without running it. -/
structure Metadata where
  hash : String
  parameters : NameSet
  /-- The paths of the prompts that can be reached through references. -/
  references : NameSet
  config : Fields Json
  /-- How the configuration matches the schema, if there is one. -/
  validation : Option Json.Validation
  /-- The prompt with every reference replaced. -/
  resolved : String

variable [ConfigReader]

/-- The metadata of a prompt, or its first problem. -/
def readMetadata (analyzer : Analyzer) (schema : Option Json) (path : Option String)
    (text : String) : Except Problem Metadata :=
  ((analyzer.analyze path text).runFrom []).1.map fun analysis =>
    { hash := analysis.hash
      parameters := analysis.parameters
      references := analysis.references
      config := analysis.config
      validation := schema.map fun schema => Json.validate schema (.object analysis.config)
      resolved := analysis.resolved }

/-- Names as JSON. -/
def NameSet.toJson (names : NameSet) : Json :=
  .array (names.toList.map Json.string)

/-- The metadata as JSON. -/
def Metadata.toJson (m : Metadata) : Json :=
  .object ([("hash", .string m.hash), ("parameters", m.parameters.toJson),
      ("referencedPrompts", m.references.toJson), ("config", .object m.config)] ++
    (m.validation.map fun v => ("schemaValidation", v.toJson)).toList ++
    [("resolvedPrompt", .string m.resolved)])

end PromptMarkup
