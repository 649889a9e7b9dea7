import Logbook.Disk
import Logbook.Error
import Logbook.Value.Json

/-!
# Payloads of artifacts

The type of an artifact selects the codec that loads and saves its payload.
-/

namespace Logbook

namespace Codec

/-- The value that the text of a payload stands for. -/
def decode (codec : Codec) (payload : String) : Except Error Value :=
  match codec with
  | .json => ((Json.read payload).map Value.ofJson).elim (.error .json) .ok
  | .text => .ok (.str payload)
  | .capitals => .ok (.str (Text.upperAscii payload))

/-- The text of the payload for a value. -/
def encode (codec : Codec) (value : Value) : String :=
  match codec with
  | .json => value.toJson.pretty
  | .text => value.render
  | .capitals => Text.upperAscii value.render

end Codec

/-- The codecs for types of artifacts. -/
abbrev Codecs := SortedMap String Codec

namespace Codecs

/-- The codecs that are there from the start. -/
def standard : Codecs := SortedMap.ofList [("json", .json), ("text", .text)]

end Codecs

namespace Artifact

/-- The value in the payload of an artifact. -/
def load (artifact : Artifact) (disk : Disk) : Except Error Value :=
  match disk.readText artifact.path with
  | .ok payload => artifact.codec.decode payload
  | .error _ => .error (.unreadableArtifact artifact.path)

/-- Replaces the payload of an artifact. -/
def save (artifact : Artifact) (value : Value) (disk : Disk) : Except Error Disk :=
  (disk.write artifact.path (.text (artifact.codec.encode value))).mapError fun _ => .files

end Artifact

end Logbook
