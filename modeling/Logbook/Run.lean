import Logbook.Path

/-!
# Runs

Runs are numbered, and each has a directory.  Where a run keeps its files, relative
to its directory: metadata, metric logs and artifacts, the latter two each with a
folder that lists what there is.
-/

namespace Logbook

/-- The number of a run, of 64 bits. -/
abbrev RunId := UInt64

namespace Run

/-- The number of a run in decimal, which is the usual name of its directory. -/
def name (id : RunId) : String := id.toNat.repr

/-- The groups of metadata that every run has. -/
def metadataGroups : List String := ["config", "info"]

/-- The folder in which a run lists its metric logs, and the one for artifacts. -/
def keysFolder : String := ".keys"

/-- The file of a group of metadata. -/
def metadata (run : Path) (group : String) : Path := (run.join "metadata").join (group ++ ".yaml")

/-- The folder of metric logs. -/
def metrics (run : Path) : Path := run.join "metrics"

/-- The folder in which metric logs are listed, each in a file of its own. -/
def metricKeys (run : Path) : Path := (metrics run).join keysFolder

/-- The file of a metric log. -/
def metricLog (run : Path) (log : String) : Path := (metrics run).join (log ++ ".json")

/-- The folder of artifacts. -/
def artifacts (run : Path) : Path := run.join "artifacts"

/-- The file in which artifacts are listed. -/
def artifactRegistry (run : Path) : Path := ((artifacts run).join keysFolder).join "artifacts.yaml"

/-- The folder of artifacts of one type. -/
def artifactsOf (run : Path) (kind : String) : Path := (artifacts run).join kind

end Run

end Logbook
