/-!
# Options

Which variants of methods are planned, and for which operations.
-/

namespace ClientPlan

/-- A variant of a client method. -/
inductive MethodKind where
  /-- Arguments are grouped and spread. -/
  | convenience
  /-- Wire values are taken directly. -/
  | protocol
deriving DecidableEq, Repr

/-- The name of a variant. -/
def MethodKind.name : MethodKind → String
  | .convenience => "convenience"
  | .protocol => "protocol"

/-- What is planned. -/
structure Options where
  convenienceMethods : Bool := true
  protocolMethods : Bool := false
  /-- The operations that are planned; all of them if absent. -/
  operations : Option (List String) := none
deriving DecidableEq, Repr

namespace Options

/-- Whether an operation is planned. -/
def includes (options : Options) (operation : String) : Bool :=
  match options.operations with
  | none => true
  | some names => names.contains operation

/-- The variants that are planned, in order. -/
def kinds (options : Options) : List MethodKind :=
  (if options.convenienceMethods then [.convenience] else []) ++
    (if options.protocolMethods then [.protocol] else [])

end Options

end ClientPlan
