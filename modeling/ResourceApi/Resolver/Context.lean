import ResourceApi.Resolver.Error
import ResourceApi.Store

/-!
# Request contexts

What a resolver knows of the request: who calls, which resources have a store to read from, and the
records themselves.
-/

namespace ResourceApi

structure RequestContext where
  caller : Option String
  stores : List String
  store : Store

namespace RequestContext

def requireCaller (context : RequestContext) : Except ResolveError String :=
  match context.caller with
  | some caller => .ok caller
  | none => .error .callerRequired

/-- Reading a resource needs a store that is registered for it. -/
def requireStore (context : RequestContext) (resource : String) : Except ResolveError Unit :=
  if context.stores.contains resource then .ok () else .error (.storeMissing resource)

end RequestContext
end ResourceApi
