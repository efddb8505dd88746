import Mikaki.Lib.Checks
import Mikaki.Lib.Calls
import Mikaki.Lib.Sha
import Mikaki.Lib.JsonSound
import Mikaki.Work.Lifecycle
import Mikaki.Work.DispatchSound
import Mikaki.Work.SubmissionSound
import Mikaki.Work.PreparationSound
import Mikaki.Work.Commitments
import Mikaki.Work.DisclosureAgreement
import Mikaki.Checkpoint.LedgerSound
import Mikaki.Checkpoint.ClosedRecords
import Mikaki.Checkpoint.ClientSound
import Mikaki.Store.OperationsSound
import Mikaki.Store.AuthoritySound
import Mikaki.Mls.RevokedKeys
import Mikaki.Vault.OwnerKeysSound
import Mikaki.Messaging.RegistryRuns
import Mikaki.Logout.OutboxRuns
import Mikaki.Dbsc.SessionsRuns
import Mikaki.Enrollment.InvitationsRuns
import Mikaki.Oidc.DeviceGrant
import Mikaki.Oidc.ReplayStoreSound
import Mikaki.Identity.Validity
import Mikaki.Identity.ProximitySound
import Mikaki.Identity.WalletAuthorizationSound
import Mikaki.Identity.CardSound
import Mikaki.Identity.AgePool
import Mikaki.Webauthn.SignInRuns
import Mikaki.Webauthn.OwnerPasskeysRuns
import Mikaki.Webauthn.Consent
import Mikaki.Presentation.InventorySound
import Mikaki.Mdoc.CodecSound
import Mikaki.Presentation.Minimality
import Mikaki.Identity.CardFiles
import Mikaki.Mdoc.Timestamps
import Mikaki.Work.CandidateCommitment
import Mikaki.Webauthn.AuthenticatorData
import Mikaki.Identity.HandoverSelect
import Mikaki.Work.SnapshotObjects
import Mikaki.Oidc.RsaKeys
import Mikaki.Oidc.RsaKeysSound
import Mikaki.Lib.JsonText
import Mikaki.Lib.JsonTextSound
import Mikaki.Webauthn.StrictJson
import Mikaki.Installation.Transaction
import Mikaki.Oidc.UserCode
import Mikaki.Identity.Age
import Mikaki.Identity.CardDates
import Mikaki.Lib.Spans
import Mikaki.Identity.Tlv
import Mikaki.Identity.TlvWalkers
import Mikaki.Identity.Encryption
import Mikaki.Identity.EncryptionSound
import Mikaki.Vault.Browser
import Mikaki.Vault.RecordEnvelope
import Mikaki.Vault.SharedName
import Mikaki.Vault.OwnerCrypto
import Mikaki.Vault.OwnerCryptoSound
import Mikaki.Vault.OwnerRecordsSound
import Mikaki.Vault.Records
import Mikaki.Vault.RecordsSound
import Mikaki.Vault.RecordsSteps
import Mikaki.Vault.RecordsRuns
import Mikaki.Vault.RecordsAlone
import Mikaki.Vault.RecordsStore
import Mikaki.Vault.OwnerRecordStore
import Mikaki.Vault.OwnerRecordStoreSound
import Mikaki.Lib.Lasting
import Mikaki.Identity.X509
import Mikaki.Identity.Certificate
import Mikaki.Identity.CredentialCertificate
import Mikaki.Identity.PassportTrust
import Mikaki.Identity.TrustDeadlines
import Mikaki.Identity.PassportDeadlines
