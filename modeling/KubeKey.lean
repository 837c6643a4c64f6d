import KubeKey.Go.Heap
import KubeKey.Go.Frame
import KubeKey.Go.Label
import KubeKey.Go.Literal
import KubeKey.Variable.Combine
import KubeKey.Variable.Inventory
import KubeKey.Variable.Get
import KubeKey.Executor.Block
import KubeKey.Variable.Yaml
import KubeKey.Executor.Playbook
import KubeKey.Executor.Inherit
import KubeKey.Executor.Task
import KubeKey.Executor.Sections
import KubeKey.Go.Rank
import KubeKey.Variable.Context
import KubeKey.Variable.Merge
import KubeKey.Variable.Source
import KubeKey.Variable.Precedence
import KubeKey.Go.Graft
import KubeKey.Variable.Write
import KubeKey.Variable.Walk
import KubeKey.Variable.Invariant
import KubeKey.Variable.Reachable
import KubeKey.Variable.Atomic
import KubeKey.Variable.Persist
import KubeKey.Variable.Decode
import KubeKey.Variable.Render
import KubeKey.Variable.PerHost
import KubeKey.Converter.Map2Node
import KubeKey.Executor.Register
import KubeKey.Core.RemoteTask
import KubeKey.Core.Verdict
import KubeKey.Core.Rollback
import KubeKey.Locking.ControlPlaneInitMutex
import KubeKey.Core.Hosts
import KubeKey.Core.Module
import KubeKey.Core.Survivors
import KubeKey.Go.Files
import KubeKey.Proxy.FileStorage
import KubeKey.Proxy.Listing
import KubeKey.Go.Simulation
import KubeKey.Proxy.Refinement
import KubeKey.Proxy.Version
import KubeKey.Proxy.Pagination
import KubeKey.Go.Recursion
import KubeKey.Project.Load
import KubeKey.Project.References
import KubeKey.Project.Termination
import KubeKey.Project.UnknownField
import KubeKey.Go.Range
import KubeKey.Variable.Order
import KubeKey.Variable.Outcome
import KubeKey.Variable.Independence
import KubeKey.Modules.GenCert
import KubeKey.Infrastructure.Inventory
import KubeKey.Infrastructure.ProviderID
import KubeKey.Controllers.Playbook
import KubeKey.Controllers.Phases
import KubeKey.KKInstance.InPlaceUpgrade
import KubeKey.Machines.Reconcile
import KubeKey.Machines.OneInstance
import KubeKey.ControlPlane.K3s
import KubeKey.ControlPlane.Rolling
import KubeKey.Kubernetes.Versions
import KubeKey.Kubernetes.Binaries
import KubeKey.Kubernetes.Upgrade
import KubeKey.Kubernetes.Progress
import KubeKey.Go.Api
import KubeKey.Certificates.LookupOrGenerate
import KubeKey.Templates.KubeadmConfig
import KubeKey.Templates.FeatureGates
import KubeKey.Go.Notify
import KubeKey.Proxy.Watcher
import KubeKey.Proxy.Delivery
import KubeKey.Go.Fuel
import KubeKey.Variable.Groups
import KubeKey.Variable.Expansion
import KubeKey.Variable.Membership
import KubeKey.Go.Selection
import KubeKey.Variable.Hostnames
import KubeKey.Variable.Returns
import KubeKey.Executor.Retry
import KubeKey.Go.Float64
import KubeKey.Converter.Serial
import KubeKey.Etcd.Configure
import KubeKey.Etcd.Members
import KubeKey.Bootstrap.K3sConfig
import KubeKey.Bootstrap.Outcome
import KubeKey.Bootstrap.TokenAgreement
import KubeKey.Text.Lines
import KubeKey.Text.Quoted
import KubeKey.Text.Literal
import KubeKey.Text.Block
import KubeKey.CloudInit.UserData
import KubeKey.CloudInit.Actions
import KubeKey.CloudInit.Items
import KubeKey.CloudInit.Document
import KubeKey.CloudInit.RoundTrip
import KubeKey.Go.Overlay
import KubeKey.Variable.Laws
import KubeKey.Variable.Combining
import KubeKey.Executor.Tags
import KubeKey.Go.BigEndian
import KubeKey.Go.NetIP
import KubeKey.Etcd.FirstNode
import KubeKey.Text.Strings
import KubeKey.Utils.ParseIP
import KubeKey.Core.ParseIp
import KubeKey.Modules.KeyPair
import KubeKey.Variable.Single
import KubeKey.Executor.Loop
import KubeKey.Variable.Alike
import KubeKey.Variable.Cells
import KubeKey.Variable.Written
import KubeKey.Variable.Filling
import KubeKey.Variable.Later
import KubeKey.Core.Deletions
import KubeKey.Cluster.Spec
import KubeKey.Cluster.ServiceAddresses
import KubeKey.Text.Shell
import KubeKey.CloudInit.RunCmd
import KubeKey.OsRelease.Parse
import KubeKey.OsRelease.Spellings
import KubeKey.Cluster.GroupHosts
import KubeKey.Cluster.Ranges
import KubeKey.Cluster.RoleLists
import KubeKey.Infrastructure.HostSelector
import KubeKey.Infrastructure.Disjoint
import KubeKey.Go.FileSystem
import KubeKey.Core.Archive
import KubeKey.Core.Unpacked
import KubeKey.Go.Regexp
import KubeKey.Proxy.PathExpression
import KubeKey.Proxy.Routes
import KubeKey.Proxy.Dispatch
import KubeKey.CloudInit.Parts
import KubeKey.CloudInit.Chomped
import KubeKey.CloudInit.Splitting
import KubeKey.Go.Sort
import KubeKey.Web.Pagination
import KubeKey.Web.Listing
import KubeKey.Text.Replace
import KubeKey.Images.Names
import KubeKey.Checksum.Lookup
import KubeKey.Checksum.Sources
import KubeKey.Web.Config
import KubeKey.Images.Artifact
import KubeKey.Variable.Setting
import KubeKey.Variable.Local
import KubeKey.Cluster.Defaults
import KubeKey.Cluster.Settled
import KubeKey.Posix.Files
import KubeKey.Posix.Script
import KubeKey.CloudInit.WriteFiles
import KubeKey.CloudInit.Written
import KubeKey.Go.Versions
import KubeKey.KKInstance.Phases
import KubeKey.KKInstance.Lifecycle
import KubeKey.Core.Pipeline
import KubeKey.Executor.Accounts
import KubeKey.Go.MergePatch
import KubeKey.ControlPlane.Webhook
import KubeKey.Infrastructure.NodePlaybooks
import KubeKey.Machines.Provisioned
import KubeKey.Go.Walk
import KubeKey.Modules.ImageStore
import KubeKey.Modules.ImageRegistry
