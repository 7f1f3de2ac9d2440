import RouteScope.Ancestry
import RouteScope.Recognition.Inquiry

/-!
# Registries

A registry holds the recognizers that take part.  Each candidate is asked once,
when the registry is set up, whether it does.  From then on a query goes to the
active recognizers in their order until one of them says yes, and a look-up
until one of them has an answer; nobody is asked after that.
-/

namespace RouteScope

/-- The recognizers that take part, in order. -/
structure Registry (ν : Type) where
  active : List (Recognizer ν)

namespace Registry

variable {ν α : Type}

/-- Asks each candidate in turn whether it takes part and keeps those that do. -/
def keepEnabled : List (Recognizer ν) → Inquired ν (List (Recognizer ν))
  | [] => pure []
  | candidate :: candidates => do
      let enabled ← candidate.askEnabled
      let active ← keepEnabled candidates
      return if enabled then candidate :: active else active

/-- The registry of the candidates that take part. -/
def ofCandidates (candidates : List (Recognizer ν)) : Inquired ν (Registry ν) := do
  let active ← keepEnabled candidates
  return ⟨active⟩

/-- The names of the active recognizers. -/
def activeNames (registry : Registry ν) : List String :=
  registry.active.map (·.name)

/-- Puts a question to one after the other until the answer is yes. -/
def untilYes (ask : α → Inquired ν Bool) : List α → Inquired ν Bool
  | [] => pure false
  | asked :: others => do
      let yes ← ask asked
      if yes then return true else untilYes ask others

/-- Puts a question to one after the other until there is an answer. -/
def untilSome {β : Type} (ask : α → Inquired ν (Option β)) : List α → Inquired ν (Option β)
  | [] => pure none
  | asked :: others => do
      match ← ask asked with
      | some answer => return some answer
      | none => untilSome ask others

/-- Whether an active recognizer says yes to the query about the node. -/
def matchesAny (registry : Registry ν) (query : Query) (node : ν) : Inquired ν Bool :=
  untilYes (·.ask query node) registry.active

/-- The first answer to which class the bean reference at the node names. -/
def beanClass? (registry : Registry ν) (node : ν) : Inquired ν (Option ClassId) :=
  untilSome (·.askBeanClass node) registry.active

/-- The first answer to where the class of the bean reference is declared. -/
def beanNode? (registry : Registry ν) (node : ν) : Inquired ν (Option ν) :=
  untilSome (·.askBeanNode node) registry.active

/-- Whether the node is a route start or lies within one.  The ancestors are
asked about first, the nearest first, and the node itself last. -/
def inRouteStart [Ancestry ν] (registry : Registry ν) (node : ν) : Inquired ν Bool :=
  untilYes (registry.matchesAny .routeStart) (Ancestry.ancestors node ++ [node])

end Registry

end RouteScope
