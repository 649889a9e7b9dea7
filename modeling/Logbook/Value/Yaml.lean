import Logbook.Text.Blank
import Logbook.Value.Json
import Logbook.Yaml.Printer
import Logbook.Yaml.Reader

/-!
# Values from YAML

Values have texts as keys, so a key of another kind becomes the text that spells it,
the empty one if none does; of entries whose keys become equal the last counts.  Tags
are dropped.
-/

namespace Logbook

namespace Value

/-- The text of a key. -/
def yamlKey : Yaml.Tree → String
  | .text text => text
  | .bool truth => if truth then "true" else "false"
  | .integer number => number.repr
  | .float number => number.render .yaml
  | .null => "null"
  | tree => String.ofList (Text.trimEnd (tree.render?.getD []))

mutual

/-- The value that a YAML document stands for. -/
def ofYaml : Yaml.Tree → Value
  | .null => null
  | .bool truth => bool truth
  | .integer number => ofInteger number
  | .float number => float number
  | .text text => str text
  | .sequence items => list (ofYamlItems items)
  | .mapping entries => ofEntries (ofYamlEntries entries)
  | .tagged _ content => ofYaml content

/-- The values of the items of a sequence. -/
def ofYamlItems : List Yaml.Tree → List Value
  | [] => []
  | item :: items => ofYaml item :: ofYamlItems items

/-- The values of the entries of a mapping. -/
def ofYamlEntries : List (Yaml.Tree × Yaml.Tree) → List (String × Value)
  | [] => []
  | (key, value) :: entries => (yamlKey key, ofYaml value) :: ofYamlEntries entries

end

end Value

end Logbook
