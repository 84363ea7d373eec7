import ModelShelf.Config.Document
import ModelShelf.Main
import ModelShelf.Proofs.Code.Registration
import ModelShelf.Proofs.Manifest.UnknownMembers
import ModelShelf.Proofs.Schema.Uniformity
import ModelShelf.Proofs.Signature.Reference
import ModelShelf.Proofs.Store.Artifacts
import ModelShelf.Proofs.Store.Containment
import ModelShelf.Proofs.Store.CreatedRuns
import ModelShelf.Proofs.Store.Readers
import ModelShelf.Proofs.Store.Routes
import ModelShelf.Proofs.Json.Indented
import ModelShelf.Proofs.Store.FileUris
import ModelShelf.Proofs.Command.Resubmission
import ModelShelf.Proofs.Code.Containment
import ModelShelf.Proofs.Store.Saving
import ModelShelf.Proofs.Store.Flavors
import ModelShelf.Proofs.Code.Refusal
import ModelShelf.Proofs.Code.Overlaps
import ModelShelf.Proofs.Sample.Structure
import ModelShelf.Proofs.Sample.NamedTensors
import ModelShelf.Proofs.Sample.Frames
import ModelShelf.Proofs.Signature.Display
import ModelShelf.Proofs.Schema.TypeNames
import ModelShelf.Proofs.Config.Environment
