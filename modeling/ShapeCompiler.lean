import ShapeCompiler.Code.Draft
import ShapeCompiler.Code.Printer
import ShapeCompiler.Machine.Run
import ShapeCompiler.Source.Construction
import ShapeCompiler.Shape.Bindings
import ShapeCompiler.Shape.Resolver
import ShapeCompiler.Compile.Unit
import ShapeCompiler.Proofs.Dispatch
import ShapeCompiler.Proofs.WellFormed
import ShapeCompiler.Proofs.CallSites
import ShapeCompiler.Proofs.CachedBodies
import ShapeCompiler.Proofs.Confinement
import ShapeCompiler.Proofs.Endings
import ShapeCompiler.Proofs.FreeNames
import ShapeCompiler.Proofs.Conversions
import ShapeCompiler.Proofs.Intersections
import ShapeCompiler.Proofs.Projections
import ShapeCompiler.Proofs.MethodValues
import ShapeCompiler.Proofs.NativeCalls
import ShapeCompiler.Proofs.Registrations
import ShapeCompiler.Proofs.Comparisons
import ShapeCompiler.Proofs.UnknownValues
import ShapeCompiler.Proofs.Presence
import ShapeCompiler.Proofs.ClosureRecords
import ShapeCompiler.Proofs.ParentMembers
import ShapeCompiler.Proofs.UnboundNames
import ShapeCompiler.Proofs.Stopping
import ShapeCompiler.Proofs.RoundTrips
import ShapeCompiler.Proofs.CaptureFilling
import ShapeCompiler.Proofs.Prologues
import ShapeCompiler.Proofs.Completion
import ShapeCompiler.Proofs.Relowering
import ShapeCompiler.Proofs.PlainTypes
import ShapeCompiler.Proofs.Coercions
import ShapeCompiler.Proofs.ObjectCopies
import ShapeCompiler.Proofs.NewInstances
import ShapeCompiler.Proofs.LoadStore
import ShapeCompiler.Proofs.CanonicalTypes
import ShapeCompiler.Proofs.FailurePlaces
import ShapeCompiler.Proofs.BindingKeys
import ShapeCompiler.Proofs.Symbols
import ShapeCompiler.Proofs.Transcripts
import ShapeCompiler.Proofs.ProgramMeanings
