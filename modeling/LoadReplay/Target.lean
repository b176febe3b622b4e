import LoadReplay.Url.Parser

/-!
# Targets

A target is the URL that requests are sent to. It is written out, or made of the address of an
action server, a namespace and the name of an action. The query parameter `blocking` tells the
server whether to wait for the action.
-/

namespace LoadReplay

/-- Why a text is no target. -/
inductive TargetFault where
  | badUrl (text : String) (fault : UrlFault)
  | scheme (name : String)
  | noAction
  deriving Repr, DecidableEq

/-- The text shown for a fault. -/
def TargetFault.message : TargetFault → String
  | badUrl text fault => s!"bad url '{text}': {fault.message}"
  | scheme name => s!"unsupported url scheme '{name}'"
  | noAction => "action name is empty"

namespace Target

/-- Reads a target. -/
def ofText (text : String) : Except TargetFault Url :=
  match Reference.ofText text with
  | .error fault => .error (.badUrl text fault)
  | .ok (.other scheme) => .error (.scheme scheme)
  | .ok (.web url) => .ok url

/-- The address of a server without slashes at its end. -/
def withoutSlashes (host : String) : String :=
  String.ofList ((host.toList.reverse.dropWhile (· == '/')).reverse)

/-- The target of an action, which the server is asked not to wait for. -/
def ofAction (host «namespace» action : String) : Except TargetFault Url :=
  if action = "" then .error .noAction
  else
    ofText <| withoutSlashes host ++ "/api/v1/namespaces/" ++ «namespace» ++ "/actions/" ++
      action ++ "?blocking=false"

/-- The name of the parameter that asks the server to wait. -/
def blockingName : String := "blocking"

/-- The value of the parameter. -/
def blockingValue (blocking : Bool) : String := if blocking then "true" else "false"

/-- The target with the parameter set to a value behind all others. -/
def withBlocking (url : Url) (blocking : Bool) : Url :=
  let others := url.queryPairs.filter (·.1 ≠ blockingName)
  url.withQueryPairs (others ++ [(blockingName, blockingValue blocking)])

end Target

end LoadReplay
