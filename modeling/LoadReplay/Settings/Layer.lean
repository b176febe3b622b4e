import LoadReplay.Settings.Options

/-!
# Layers of settings

A layer gives some of the settings of the program; layers are put on top of each other, and a
setting comes from the highest layer that gives it.
-/

namespace LoadReplay

/-- Settings that may be given or not. -/
structure Layer where
  trace : Option String
  prompts : Option String
  url : Option String
  apiHost : Option String
  namespaceName : Option String
  action : Option String
  auth : Option String
  timeout : Option Double
  scale : Option Double
  limit : Option Nat
  blocking : Option Bool
  pacing : Option Pacing
  output : Option String
  insecure : Option Bool
  buckets : Option BucketChoice
  deriving Repr, DecidableEq

namespace Layer

/-- The layer that gives nothing. -/
def empty : Layer :=
  { trace := none, prompts := none, url := none, apiHost := none, namespaceName := none
    action := none, auth := none, timeout := none, scale := none, limit := none
    blocking := none, pacing := none, output := none, insecure := none, buckets := none }

/-- A truth value that holds when either layer says so. -/
def either (upper lower : Option Bool) : Option Bool := some (upper.getD false || lower.getD false)

/-- One layer on top of another; a flag that is set below cannot be unset above. -/
def onTopOf (upper lower : Layer) : Layer :=
  { trace := upper.trace.or lower.trace
    prompts := upper.prompts.or lower.prompts
    url := upper.url.or lower.url
    apiHost := upper.apiHost.or lower.apiHost
    namespaceName := upper.namespaceName.or lower.namespaceName
    action := upper.action.or lower.action
    auth := upper.auth.or lower.auth
    timeout := upper.timeout.or lower.timeout
    scale := upper.scale.or lower.scale
    limit := upper.limit.or lower.limit
    blocking := either upper.blocking lower.blocking
    pacing := upper.pacing.or lower.pacing
    output := upper.output.or lower.output
    insecure := either upper.insecure lower.insecure
    buckets := upper.buckets.or lower.buckets }

end Layer

end LoadReplay
