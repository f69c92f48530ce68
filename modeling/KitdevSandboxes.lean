import KitdevSandboxes.StateMachine
import KitdevSandboxes.AdmissionConfig
import KitdevSandboxes.AdmissionSlots
import KitdevSandboxes.AdmissionRuns
import KitdevSandboxes.CrashProgram
import KitdevSandboxes.FileSystem
import KitdevSandboxes.FileSystemUpdate
import KitdevSandboxes.HostCalls
import KitdevSandboxes.HostFrames
import KitdevSandboxes.Json
import KitdevSandboxes.JsonRoundTrip
import KitdevSandboxes.JournalText
import KitdevSandboxes.JournalRecords
import KitdevSandboxes.JournalStores
import KitdevSandboxes.JournalRules
import KitdevSandboxes.JournalFrames
import KitdevSandboxes.JournalHistory
import KitdevSandboxes.JournalStates
import KitdevSandboxes.JournalCrash
import KitdevSandboxes.FirewallListing
import KitdevSandboxes.TemplateJournal
import KitdevSandboxes.TemplateReleases
import KitdevSandboxes.TemplateRuns
import KitdevSandboxes.BackupManifests
import KitdevSandboxes.BackupRecords
import KitdevSandboxes.BackupTampering
import KitdevSandboxes.RestoreHost
import KitdevSandboxes.RestoreRuns
import KitdevSandboxes.TemplateApi
import KitdevSandboxes.TemplateDeletions
import KitdevSandboxes.TemplateResumes
import KitdevSandboxes.ChangePlanFacts
import KitdevSandboxes.ChangePlanResults
import KitdevSandboxes.ConfigurationPaths
import KitdevSandboxes.DoctorComposition
import KitdevSandboxes.DoctorEvidence
import KitdevSandboxes.InstallPlans
import KitdevSandboxes.DockerPublications
import KitdevSandboxes.FirewallGuards
import KitdevSandboxes.FirewallLimits
import KitdevSandboxes.JournalLimits
import KitdevSandboxes.JournalResidue
import KitdevSandboxes.UfwListings
import KitdevSandboxes.UfwVerifiers
import KitdevSandboxes.YamlErrors
import KitdevSandboxes.ApiKeyRecords
import KitdevSandboxes.ApiKeyHost
import KitdevSandboxes.ApiKeyManager
import KitdevSandboxes.BackupArchives
import KitdevSandboxes.BackupFingerprints
import KitdevSandboxes.ChangePlanConvergence
import KitdevSandboxes.HostPairs
import KitdevSandboxes.IdentityAllocations
import KitdevSandboxes.IdentityOrders
import KitdevSandboxes.IdentityUnknowns
import KitdevSandboxes.JsonScanning
import KitdevSandboxes.MalformedManifests
import KitdevSandboxes.PrivateFiles
import KitdevSandboxes.ShortWrites
import KitdevSandboxes.PrivateBootstraps
import KitdevSandboxes.DirectoryPublications
import KitdevSandboxes.ConfigurationMerges
import KitdevSandboxes.OpenPgpPackets
import KitdevSandboxes.StreamCaptures
import KitdevSandboxes.IdentityCollection
import KitdevSandboxes.KernelCollection
import KitdevSandboxes.AdminTokens
import KitdevSandboxes.PrivateUpdates
import KitdevSandboxes.AptOverrides
import KitdevSandboxes.ListenerOrders
import KitdevSandboxes.CommandRuns
import KitdevSandboxes.RedactionCoverage
import KitdevSandboxes.ApiKeyScripts
import KitdevSandboxes.ApiKeySecrecy
import KitdevSandboxes.MountOptions
import KitdevSandboxes.MountPaths
import KitdevSandboxes.ApiKeyFiles
import KitdevSandboxes.ApiKeyMetadata
import KitdevSandboxes.ApiKeyRevocations
import KitdevSandboxes.ApiKeyCreations
import KitdevSandboxes.Stage05Refusals
import KitdevSandboxes.FirewallTransactions
import KitdevSandboxes.FirewallRuns
