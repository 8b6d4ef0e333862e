import ContentMesh.Main
import ContentMesh.Mesh.Operations
import ContentMesh.Proofs.Storage.Calls
import ContentMesh.Proofs.Topology.Eviction
import ContentMesh.Proofs.Topology.Hierarchy
import ContentMesh.Proofs.Topology.Coherence
import ContentMesh.Proofs.Message.Log
import ContentMesh.Proofs.Node.Receiving
import ContentMesh.Proofs.Node.Deduplication
import ContentMesh.Proofs.Message.Signing
import ContentMesh.Proofs.Mesh.Link
import ContentMesh.Proofs.Mesh.Network
import ContentMesh.Proofs.Peer.Registered
import ContentMesh.Proofs.Mesh.Links
import ContentMesh.Proofs.Mesh.Flooding
import ContentMesh.Proofs.Node.Redelivery
import ContentMesh.Proofs.Peer.Rows
import ContentMesh.Proofs.Peer.Stance
import ContentMesh.Proofs.Peer.Pair
import ContentMesh.Proofs.Peer.Crossing
import ContentMesh.Proofs.Peer.Acceptance
import ContentMesh.Proofs.Peer.LinkKey
import ContentMesh.Proofs.Peer.Trust
import ContentMesh.Proofs.Node.Traffic
import ContentMesh.Proofs.Message.Canonical
import ContentMesh.Proofs.Http.RoundTrip
import ContentMesh.Proofs.Http.Transport
import ContentMesh.Proofs.Storage.Length
import ContentMesh.Proofs.Storage.Recovery
import ContentMesh.Proofs.Outbox.Accounts
import ContentMesh.Proofs.Outbox.Rolls
import ContentMesh.Proofs.Node.Removal
import ContentMesh.Proofs.Node.Publishing
import ContentMesh.Proofs.Node.Containment
import ContentMesh.Proofs.Mesh.Containment
import ContentMesh.Proofs.Peer.Listing
import ContentMesh.Proofs.Topology.Localized
import ContentMesh.Proofs.Topology.Record
import ContentMesh.Proofs.Node.Pushing
import ContentMesh.Proofs.Questions
import ContentMesh.Proofs.Node.Refusing
import ContentMesh.Proofs.Peer.Deeds
import ContentMesh.Proofs.Peer.Alias
import ContentMesh.Proofs.Peer.Failing
import ContentMesh.Proofs.Node.Lifecycle
import ContentMesh.Proofs.Node.Asking
import ContentMesh.Proofs.Node.Upkeep
import ContentMesh.Proofs.Topology.TextForm
import ContentMesh.Proofs.Message.Edits
import ContentMesh.Proofs.Storage.Records
