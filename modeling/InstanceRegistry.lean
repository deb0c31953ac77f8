import InstanceRegistry.Resolver
import InstanceRegistry.Scenario.Report
import InstanceRegistry.Proofs.Cache.Publication
import InstanceRegistry.Proofs.Creation.Marking
import InstanceRegistry.Proofs.Teardown.Order
import InstanceRegistry.Proofs.Creation.Suppression
import InstanceRegistry.Proofs.Teardown.Agenda
import InstanceRegistry.Proofs.Teardown.Phase
import InstanceRegistry.Proofs.Teardown.Handles
import InstanceRegistry.Proofs.Teardown.Shutdown
import InstanceRegistry.Proofs.Teardown.Edgeless
import InstanceRegistry.Proofs.Teardown.Precedence
import InstanceRegistry.Proofs.Cache.Settlement
import InstanceRegistry.Proofs.Creation.Exposure
import InstanceRegistry.Proofs.Cache.Coherence
import InstanceRegistry.Proofs.Creation.Failure
import InstanceRegistry.Proofs.Creation.Rollback
import InstanceRegistry.Proofs.Creation.Unmarking
import InstanceRegistry.Proofs.Graph.Search
import InstanceRegistry.Proofs.Teardown.Dependents
import InstanceRegistry.Proofs.Graph.Consistency
import InstanceRegistry.Proofs.Teardown.Leftovers
import InstanceRegistry.Proofs.Cache.EarlyReference
import InstanceRegistry.Proofs.Cache.EarlyFactory
import InstanceRegistry.Proofs.Alias.Changes
import InstanceRegistry.Proofs.Alias.Agreement
import InstanceRegistry.Proofs.Creation.Concurrent
import InstanceRegistry.Proofs.Stored
import InstanceRegistry.Proofs.Teardown.Forgiveness
import InstanceRegistry.Proofs.Teardown.Failures
import InstanceRegistry.Proofs.Cache.Listing
import InstanceRegistry.Proofs.Graph.Containment
import InstanceRegistry.Proofs.Creation.Cycle
import InstanceRegistry.Proofs.Creation.Gains
import InstanceRegistry.Proofs.Creation.EarlyCycle
import InstanceRegistry.Proofs.Error.Nesting
