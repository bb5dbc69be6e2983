import ClientPlan.Client.Renaming
import ClientPlan.Main
import ClientPlan.Proofs.Fallible
import ClientPlan.Proofs.Links
import ClientPlan.Proofs.ElementChain
import ClientPlan.Proofs.ElementTypes
import ClientPlan.Proofs.Validation
import ClientPlan.Proofs.Descriptions
import ClientPlan.Proofs.Keyed
import ClientPlan.Proofs.Offers
import ClientPlan.Proofs.Resolution
import ClientPlan.Proofs.Merging
import ClientPlan.Proofs.Transformations
import ClientPlan.Proofs.Planning
import ClientPlan.Proofs.Failure
import ClientPlan.Proofs.DerivedPlans
import ClientPlan.Proofs.DerivedSignature
import ClientPlan.Proofs.Coverage
import ClientPlan.Proofs.FlattenedCoverage
import ClientPlan.Proofs.Conservation
import ClientPlan.Proofs.Constants
import ClientPlan.Proofs.RegistryState
import ClientPlan.Proofs.ProtocolMethods
import ClientPlan.Proofs.Extension
import ClientPlan.Proofs.RequestOrder
import ClientPlan.Proofs.GrowingRequests
import ClientPlan.Proofs.Provenance
import ClientPlan.Proofs.GroupProperties
import ClientPlan.Proofs.DirectMappings
import ClientPlan.Proofs.Defects
import ClientPlan.Proofs.SpreadTargets
import ClientPlan.Proofs.Stages
import ClientPlan.Proofs.Json.Grammar
import ClientPlan.Proofs.Json.Literals
import ClientPlan.Proofs.Json.Scanning
import ClientPlan.Proofs.Json.Plain
import ClientPlan.Proofs.Json.Entries
import ClientPlan.Proofs.Json.Records
import ClientPlan.Proofs.Json.Decoders
import ClientPlan.Proofs.Format
import ClientPlan.Proofs.FormatReading
import ClientPlan.Proofs.FormatSchemas
import ClientPlan.Proofs.Json.Printing
import ClientPlan.Proofs.WrittenTables
import ClientPlan.Proofs.ElementCycles
import ClientPlan.Proofs.MethodLines
import ClientPlan.Proofs.Toml.Grammar
import ClientPlan.Proofs.Toml.Reading
import ClientPlan.Proofs.WrittenOptions
import ClientPlan.Proofs.MemberAccess
