import PyClaw.Lib.Dict
import PyClaw.Models.Agent

/-!
# Agent.Vision

Which provider serves a model and whether the model takes images: `resolve_provider_for_model`,
`model_supports_input` and `format_vision_capable_models` of `core/agent/llm.py`.
-/

namespace PyClaw

/-- `ProviderSettings`; each model comes with its input modalities. -/
structure ProviderSettings where
  models : Dict String (List String) := Dict.empty
  prefixes : List String := []

inductive UnknownPrefixPolicy where
  | fail
  | default
  deriving DecidableEq, Repr

def hasModelPrefix (model p : String) : Bool :=
  model == p || (p.toList ++ ['/']).isPrefixOf model.toList

def ProviderSettings.servesPrefix (model : String) (p : String × ProviderSettings) : Bool :=
  (if p.2.prefixes.isEmpty then [p.1] else p.2.prefixes).any (hasModelPrefix model)

def providerNotFound (py : PyText) (model : String) (names : List String) : Escape :=
  .llmError "provider_not_found"
    ("No provider matches model '" ++ model ++ "'. Configured providers: [" ++
      String.intercalate ", " (names.map py.repr) ++
      "]. Declare prefixes[] on a provider, or set agent.unknown_prefix_policy='default' " ++
      "and agent.default_provider='<name>' to route unknowns.")

def resolveProviderForModel (py : PyText) (model : String)
    (providers : Dict String ProviderSettings) (defaultProvider : Option String)
    (policy : UnknownPrefixPolicy) : Except Escape (String × ProviderSettings) :=
  let firstSegment := String.ofList (model.toList.takeWhile (· ≠ '/'))
  match providers.items.find? fun p => p.2.models.contains model,
      providers.items.find? (ProviderSettings.servesPrefix model),
      providers.get? firstSegment, providers.items with
  | some p, _, _, _ => .ok p
  | none, some p, _, _ => .ok p
  | none, none, some ps, _ => .ok (firstSegment, ps)
  | none, none, none, [p] => .ok p
  | none, none, none, _ =>
    match policy, defaultProvider.bind fun d => (providers.get? d).map fun ps => (d, ps) with
    | .default, some p => .ok p
    | _, _ => .error (providerNotFound py model providers.keys)

def modelSupportsInput (py : PyText) (model : String) (providers : Dict String ProviderSettings)
    (modality : String) (defaultProvider : Option String) (policy : UnknownPrefixPolicy) :
    Except Escape Bool :=
  match resolveProviderForModel py model providers defaultProvider policy with
  | .ok (_, ps) =>
    match ps.models.get? model with
    | some inputs => .ok (inputs.contains modality)
    | none => .ok false
  | .error e => .error e

def formatVisionCapableModels (providers : Dict String ProviderSettings) : String :=
  let parts := providers.items.filterMap fun p =>
    let ids := (p.2.models.items.filter fun m => m.2.contains "image").map Prod.fst
    if ids.isEmpty then none else some ("📦 " ++ p.1 ++ ": " ++ String.intercalate ", " ids)
  if parts.isEmpty then "(none configured)" else String.intercalate "; " parts

end PyClaw
