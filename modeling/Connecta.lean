import Connecta.OAuth.GrantStoreRuns
import Connecta.OAuth.RefreshSends
import Connecta.Tokens.LegacyTokens
import Connecta.Runtime.SharedReadRuns
import Connecta.Admission.ExecutorAdmissionRuns
import Connecta.Admission.CallAdmissionBudget
import Connecta.Admission.AuthAdmission
import Connecta.Http.SentPath
import Connecta.Secrets.SetsPropagation
import Connecta.QuickJs.PoolRuns
import Connecta.Http.DispatchesRuns
import Connecta.OAuth.ConnectStartRuns
import Connecta.Runtime.RequestReadsRuns
import Connecta.Writes.ServedWrites
import Connecta.Storage.StoresAgree
import Connecta.Results.PagingRuns
import Connecta.Inputs.SingleUse
import Connecta.Catalog.CatalogChunks
import Connecta.Registry.ViewGrants
import Connecta.Secrets.FragmentScan
import Connecta.Secrets.LayersAgree
import Connecta.Http.CursorCalls
import Connecta.Auth.AuthRetries
import Connecta.Rest.ResourceRules
import Connecta.Writes.ProgramWritesRuns
import Connecta.Writes.ProviderCallClosing
import Connecta.Writes.Unauthorized
import Connecta.Results.RowsPreview
import Connecta.Arguments.PublicFindings
import Connecta.Net.LearnedUrls
import Connecta.Http.HatchPaging
import Connecta.Http.WriteRequestKeys
import Connecta.Emit.EmitCollector
import Connecta.Rest.ArgumentChecks
import Connecta.Catalog.SearchRuns
import Connecta.Catalog.SchemaKeyTwins
import Connecta.OAuth.HandoffPayloads
import Connecta.Secrets.UnicodeLabelsExact
