import Fairy.Preview.Phases

namespace Fairy.Preview

open Fairy.Lib

namespace StateStore

variable (s : StateStore)

/-- A transaction that raises is rolled back. -/
def commit : Except RuntimeError StateStore → StateStore × Except RuntimeError Unit
  | .ok s' => (s', .ok ())
  | .error e => (s, .error e)

end StateStore

section Totality

variable {s s' : StateStore} {r r' : RuntimeSession} {p p' : PreviewSession}
variable {target : PreviewStatus}

end Totality

section Calls

variable {s s' : StateStore} {r : RuntimeSession} {p : PreviewSession}
variable {request : PreviewStopRequest} {env : StopEnvironment}

end Calls

section Recovering

variable {s s' : StateStore} {r r' : RuntimeSession} {p p' : PreviewSession}
variable {request : PreviewStopRequest} {env : StopEnvironment}

end Recovering

namespace World

variable {x : UrlRule} {w : World}

def anyUrl : UrlRule := fun url _ => some url

def worldAfter (acts : List PreviewAct) : World := acts.foldl (after anyUrl) initial

end World

end Fairy.Preview
