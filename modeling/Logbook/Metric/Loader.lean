import Logbook.Metric.Log
import Logbook.Run

/-!
# Loading metric logs on demand

A loader reads its log as a whole when one of its keys is asked for first, and then
answers from what it has.  Releasing it drops what was never asked for, or all of it
if nothing was asked for since the last release.  It remembers whether it still has
all series, because only then a missing key is missing in the log.
-/

namespace Logbook

/-- What has been loaded from a metric log. -/
structure MetricLoader where
  /-- The name of the log. -/
  log : String
  /-- The file of the log. -/
  path : Path
  /-- The series that are held, by key. -/
  loaded : Option (SortedMap String Value) := none
  /-- Whether all series of the log are held. -/
  complete : Bool := false
  /-- The keys that have ever been asked for. -/
  requested : List String := []
  /-- Whether a key was asked for since the last release. -/
  touched : Bool := false

namespace MetricLoader

/-- A loader for a log of a run, with nothing loaded. -/
def ofRun (run : Path) (log : String) : MetricLoader where
  log := log
  path := Run.metricLog run log

/-- Whether the log has to be read to answer for a key. -/
def mustRead (loader : MetricLoader) (key : String) : Bool :=
  match loader.loaded with
  | none => true
  | some series => !series.contains key && !loader.complete

/-- The loader after a key has been asked for. -/
def touch (loader : MetricLoader) (key : String) : MetricLoader :=
  { loader with touched := true, requested := loader.requested.insert key }

/-- The series of a key among those that are held. -/
def answer (loader : MetricLoader) (key : String) : Except Error Value :=
  match loader.loaded.bind fun series => series.get? key with
  | some value => .ok value
  | none => .error (.absentMetric key loader.path)

/-- The series of a key, and the loader afterwards. -/
def fetch (disk : Disk) (loader : MetricLoader) (key : String) :
    Except Error Value × MetricLoader :=
  let asked := loader.touch key
  if asked.mustRead key then
    match MetricLog.read disk loader.path loader.log with
    | .ok series =>
        let read := { asked with loaded := some series, complete := true }
        (read.answer key, read)
    | .error error => (.error error, asked)
  else (asked.answer key, asked)

/-- The loader after it has been released. -/
def release (loader : MetricLoader) : MetricLoader :=
  match loader.loaded with
  | none => loader
  | some series =>
      if loader.touched then
        let kept := series.filter fun key _ => loader.requested.contains key
        { loader with
          loaded := some kept
          complete := loader.complete && kept.size == series.size
          touched := false }
      else { loader with loaded := none, complete := false }

end MetricLoader

end Logbook
