import ClientPlan.Client.Description

/-!
# Mappings and transformations

A mapping copies one value from an argument of a method to a wire parameter. A transformation
rebuilds one wire parameter from all mappings onto it.
-/

namespace ClientPlan

/-- Where a value is read from. -/
structure Source where
  argument : Argument
  /-- The property of the argument's model, for a grouped parameter. -/
  property : Option ModelProperty
deriving DecidableEq, Repr

/-- Where a value is written to. -/
structure Target where
  argument : Argument
  /-- The property of the argument's model, for a spread parameter. -/
  property : Option ModelProperty
  /-- The name of that property. -/
  propertyName : Option String
deriving DecidableEq, Repr

/-- One value copied from an argument to a wire parameter. -/
structure Mapping where
  source : Source
  target : Target
deriving DecidableEq, Repr

namespace Mapping

/-- Hands an argument on as it is. -/
def direct (argument : Argument) : Mapping := ⟨⟨argument, none⟩, ⟨argument, none, none⟩⟩

/-- Whether neither side goes through a property. -/
def isDirect (mapping : Mapping) : Bool :=
  mapping.source.property.isNone && mapping.target.property.isNone

end Mapping

/-- How one wire parameter is rebuilt. -/
structure Transformation where
  output : Argument
  mappings : List Mapping
deriving DecidableEq, Repr

namespace Transformation

/-- Adds a mapping to the transformation of its target's name, or a new one after all others. -/
def addMapping : List Transformation → Mapping → List Transformation
  | [], mapping => [⟨mapping.target.argument, [mapping]⟩]
  | transformation :: rest, mapping =>
    if transformation.output.name = mapping.target.argument.name then
      { transformation with mappings := transformation.mappings ++ [mapping] } :: rest
    else transformation :: addMapping rest mapping

/-- Hands an argument on directly, after all others, unless something rebuilds its name. -/
def cover (transformations : List Transformation) (argument : Argument) : List Transformation :=
  if transformations.any fun transformation => transformation.output.name = argument.name then
    transformations
  else transformations ++ [⟨argument, [.direct argument]⟩]

end Transformation

end ClientPlan
