import TemplateRecovery.Json.Writer
import TemplateRecovery.Recover

/-!
# Reports

A report is a JSON object on one line that tells what was recovered, from where and by what.
-/

namespace TemplateRecovery

def toolVersion : String := "0.3.0"

namespace Report

/-- The version of the form of reports. -/
def protocol : Int := 1

def toJson (r : Recovered) (source : String) : Json :=
  .obj [("protocol", .int protocol), ("toolVersion", .str toolVersion), ("source", .str source),
    ("revision", .str r.revision), ("format", .str r.format.name), ("template", .str r.template)]

def write (r : Recovered) (source : String) : String := (toJson r source).write

end Report

end TemplateRecovery
