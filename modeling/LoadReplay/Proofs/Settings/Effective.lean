import LoadReplay.Proofs.Except
import LoadReplay.Settings.Effective

/-!
# What a layer settles

The checks on a layer of settings, one after the other (`ReplaySettings.ofLayer_eq`), and what they
let through: each setting is the one that the layer gives, or its default
(`ReplaySettings.ofLayer_eq_ok_iff`). The server, the namespace and the action are looked at for the
target alone (`ReplaySettings.ofLayer_retarget`).
-/

namespace LoadReplay

theorem TraceSettings.ofLayer_eq_ok_iff {l : Layer} {t : TraceSettings} :
    ofLayer l = .ok t ↔ l.trace = some t.trace ∧ t.buckets = l.buckets.getD .quantile := by
  rw [ofLayer]
  cases l.trace with
  | none => simp
  | some trace =>
    constructor
    · intro h
      cases h
      exact ⟨rfl, rfl⟩
    · rintro ⟨htrace, hbuckets⟩
      obtain rfl := Option.some.inj htrace
      rw [← hbuckets]

namespace ReplaySettings

theorem configurationError_eq_ok_iff {α : Type} {r : Except ConfigurationFault α} {a : α} :
    configurationError r = .ok a ↔ r = .ok a := Except.mapError_eq_ok_iff

/-- The prompts file. -/
def promptsOf (l : Layer) : Except CommandError String :=
  match l.prompts with
  | some prompts => .ok prompts
  | none => .error (.settings .noPrompts)

theorem promptsOf_eq_ok_iff {l : Layer} {prompts : String} :
    promptsOf l = .ok prompts ↔ l.prompts = some prompts := by
  rw [promptsOf]
  cases l.prompts <;> simp

/-- The authentication, if there is any. -/
def authOf (l : Layer) : Except CommandError (Option BasicAuth) :=
  match l.auth with
  | some text => configurationError ((BasicAuth.ofText text).map some)
  | none => .ok none

theorem authOf_eq_ok_iff {l : Layer} {auth : Option BasicAuth} :
    authOf l = .ok auth ↔ l.auth.map BasicAuth.ofText = auth.map .ok := by
  rw [authOf]
  cases l.auth with
  | none => cases auth <;> simp
  | some text =>
    dsimp only
    rw [configurationError_eq_ok_iff, Option.map_some]
    cases BasicAuth.ofText text <;> cases auth <;> simp [Except.map]

/-- The settings that are put together when all checks are passed. -/
def passed (l : Layer) (source : TraceSettings) (prompts : String) (url : Url)
    (auth : Option BasicAuth) (timeout : Duration) : ReplaySettings :=
  { source, prompts
    limit := limitOf (l.limit.getD defaultLimit)
    options :=
      { url, auth, timeout
        scale := l.scale.getD 1
        mode := if l.blocking.getD false then .blocking else .fireAndForget
        pacing := l.pacing.getD .sequential
        output := l.output
        insecure := l.insecure.getD false } }

theorem ofLayer_eq (l : Layer) : ofLayer l = (do
    let source ← (TraceSettings.ofLayer l).mapError .settings
    let prompts ← promptsOf l
    let url ← target l
    let auth ← authOf l
    configurationError (validateScale (l.scale.getD 1))
    let timeout ← configurationError (timeoutOfSeconds (l.timeout.getD 1))
    .ok (passed l source prompts url auth timeout)) := by
  unfold ofLayer promptsOf authOf
  cases l.prompts <;> cases l.auth <;> rfl

/-- The settings that a layer leads to: each is the one that the layer gives, or its default, and
they pass the checks. -/
structure IsOf (l : Layer) (s : ReplaySettings) : Prop where
  trace_eq : l.trace = some s.source.trace
  buckets_eq : s.source.buckets = l.buckets.getD .quantile
  prompts_eq : l.prompts = some s.prompts
  target_eq : target l = .ok s.options.url
  auth_eq : l.auth.map BasicAuth.ofText = s.options.auth.map .ok
  scale_eq : s.options.scale = l.scale.getD 1
  validateScale_eq : validateScale s.options.scale = .ok ()
  timeout_eq : timeoutOfSeconds (l.timeout.getD 1) = .ok s.options.timeout
  limit_eq : s.limit = limitOf (l.limit.getD defaultLimit)
  mode_eq : s.options.mode = if l.blocking.getD false then .blocking else .fireAndForget
  pacing_eq : s.options.pacing = l.pacing.getD .sequential
  output_eq : s.options.output = l.output
  insecure_eq : s.options.insecure = l.insecure.getD false

theorem ofLayer_eq_ok_iff {l : Layer} {s : ReplaySettings} : ofLayer l = .ok s ↔ IsOf l s := by
  rw [ofLayer_eq]
  simp only [Except.bind_eq_ok_iff, Except.mapError_eq_ok_iff, configurationError_eq_ok_iff,
    TraceSettings.ofLayer_eq_ok_iff, promptsOf_eq_ok_iff, authOf_eq_ok_iff, Except.ok.injEq]
  constructor
  · rintro ⟨source, ⟨htrace, hbuckets⟩, prompts, hprompts, url, hurl, auth, hauth, _, hscale,
      timeout, htimeout, rfl⟩
    exact ⟨htrace, hbuckets, hprompts, hurl, hauth, rfl, hscale, htimeout, rfl, rfl, rfl, rfl, rfl⟩
  · intro h
    refine ⟨s.source, ⟨h.trace_eq, h.buckets_eq⟩, s.prompts, h.prompts_eq, s.options.url,
      h.target_eq, s.options.auth, h.auth_eq, (), h.scale_eq ▸ h.validateScale_eq,
      s.options.timeout, h.timeout_eq, ?_⟩
    rw [passed, ← h.scale_eq, ← h.limit_eq, ← h.mode_eq, ← h.pacing_eq, ← h.output_eq,
      ← h.insecure_eq]

/-- What makes up the target of a layer is looked at for the target alone. -/
theorem ofLayer_retarget {l : Layer} {apiHost namespaceName action : Option String}
    (h : target { l with apiHost, namespaceName, action } = target l) :
    ofLayer { l with apiHost, namespaceName, action } = ofLayer l := by
  rw [ofLayer_eq, ofLayer_eq, h]
  rfl

end ReplaySettings

end LoadReplay
